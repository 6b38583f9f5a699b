import Argus.Lib.JsOrder
import Argus.Reports.Storage
import Mathlib.Algebra.BigOperators.Ring.List
import Mathlib.Algebra.Order.BigOperators.Group.List
import Mathlib.Algebra.Order.BigOperators.GroupWithZero.List

namespace Argus.Reports

open JsNumber

/-!
# Percentages of up time

`uptimePct` of `core/uptime.ts` and its variants: the up seconds divided by all seconds, scaled,
rounded and scaled back, each step in the numbers of the language.

* `percent` — the common form; `uptimePct`, `trendPct` and `historyPct` are its uses.
* `percent_fin` — for seconds that are counted exactly it is a number, the value of `percentOf` at
  their ratio.
* `percent_mono`, `percent_range` — a greater ratio gives no smaller percentage, and all are from
  0 to 100.
* `exists_le_all`, `exists_all_le` — the percentage of all seconds lies among those of the parts.
* `accumulate_up_le` — up seconds stay among all seconds.
-/

/-! ### The code -/

/-- `UptimeBucket` of `core`, and the sums of the reports. -/
structure Seconds where
  up : ℕ
  total : ℕ
deriving DecidableEq, Repr

namespace Seconds

/-- `emptyBucket`. -/
def empty : Seconds := ⟨0, 0⟩

/-- `accumulate`; a time that runs backwards counts for nothing. -/
def accumulate (b : Seconds) (up : Bool) (delta : ℤ) : Seconds :=
  let delta := (max 0 delta).toNat
  ⟨b.up + (if up then delta else 0), b.total + delta⟩

def add (a b : Seconds) : Seconds := ⟨a.up + b.up, a.total + b.total⟩

/-- What can be counted without loss, and has been counted from intervals. -/
structure Counted (s : Seconds) : Prop where
  up_le : s.up ≤ s.total
  exact : s.total < 2 ^ 53

end Seconds

/-- `Math.round((s.up / s.total) * k₁ * k₂ …) / d`. -/
def percent (ks : List ℕ) (d : ℕ) (s : Seconds) : JsNumber :=
  (mathRound (ks.foldl (fun x k => x.mul (.ofNat k)) ((ofNat s.up).div (.ofNat s.total)))).div
    (.ofNat d)

/-- `uptimePct`, with two decimal places. -/
def uptimePct (s : Seconds) : JsNumber :=
  if s.total = 0 then .ofNat 0 else percent [100, 100] 100 s

/-- The trend of the uptime report, which scales in one step. -/
def trendPct (s : Seconds) : Option JsNumber :=
  if 0 < s.total then some (percent [10000] 100 s) else none

/-- A day of the public page, without decimal places. -/
def historyPct (s : Seconds) : Option JsNumber :=
  if 0 < s.total then some (percent [100] 1 s) else none

/-! ### Scaling and rounding -/

def scale (ks : List ℕ) (x : ℚ) : ℚ := ks.foldl (fun x k => JsNumber.round (x * k)) x

/-- The percentage of a ratio. -/
def percentOf (ks : List ℕ) (d : ℕ) (x : ℚ) : ℚ :=
  JsNumber.round ((JsNumber.round ⌊scale ks (JsNumber.round x) + 1 / 2⌋) / d)

theorem scale_mono (ks : List ℕ) {x y : ℚ} (h : x ≤ y) : scale ks x ≤ scale ks y := by
  induction ks generalizing x y with
  | nil => exact h
  | cons k ks ih =>
    apply ih
    exact round_mono (mul_le_mul_of_nonneg_right h (Nat.cast_nonneg k))

theorem scale_natCast (ks : List ℕ) {a : ℕ} (hks : ∀ k ∈ ks, 0 < k) (h : a * ks.prod ≤ 2 ^ 53) :
    scale ks a = (a * ks.prod : ℕ) := by
  induction ks generalizing a with
  | nil => simp [scale]
  | cons k ks ih =>
    rw [List.forall_mem_cons] at hks
    have hprod : 0 < ks.prod := List.prod_pos hks.2
    rw [List.prod_cons, ← Nat.mul_assoc] at h
    have hak : a * k ≤ 2 ^ 53 := (Nat.le_mul_of_pos_right _ hprod).trans h
    have hround : JsNumber.round ((a : ℚ) * k) = (a * k : ℕ) := by
      have hint : |((a * k : ℕ) : ℤ)| ≤ 2 ^ 53 := by
        rw [Nat.abs_cast]
        exact_mod_cast hak
      have hexact := JsNumber.round_intCast hint
      push_cast at hexact ⊢
      exact hexact
    show scale ks (JsNumber.round ((a : ℚ) * k)) = _
    rw [hround, ih hks.2 h, List.prod_cons, Nat.mul_assoc]

theorem percentOf_mono (ks : List ℕ) (d : ℕ) {x y : ℚ} (h : x ≤ y) :
    percentOf ks d x ≤ percentOf ks d y := by
  apply round_mono
  apply div_le_div_of_nonneg_right _ (Nat.cast_nonneg d)
  apply round_mono
  have hscale := scale_mono ks (round_mono h)
  exact_mod_cast Int.floor_mono (by linarith)

theorem percentOf_zero (ks : List ℕ) (d : ℕ) : percentOf ks d 0 = 0 := by
  have hscale : ∀ ks : List ℕ, scale ks 0 = 0 := by
    intro ks
    induction ks with
    | nil => rfl
    | cons k ks ih =>
      show scale ks (JsNumber.round (0 * k)) = 0
      rw [zero_mul, round_zero, ih]
  have hfloor : ⌊(1 / 2 : ℚ)⌋ = 0 := by norm_num
  rw [percentOf, round_zero, hscale, zero_add, hfloor, Int.cast_zero, round_zero, zero_div,
    round_zero]

theorem percentOf_one {ks : List ℕ} {d c : ℕ} (hks : ∀ k ∈ ks, 0 < k) (hd : 0 < d)
    (hprod : ks.prod = c * d) (hlt : c * d ≤ 2 ^ 53) : percentOf ks d 1 = c := by
  have hone : JsNumber.round 1 = (1 : ℕ) := by
    exact_mod_cast JsNumber.round_intCast (n := 1) (by decide)
  have hscale : scale ks ((1 : ℕ) : ℚ) = (c * d : ℕ) := by
    rw [scale_natCast ks hks (by omega), one_mul, hprod]
  have hfloor : ⌊((c * d : ℕ) : ℚ) + 1 / 2⌋ = (c * d : ℕ) := by
    rw [Int.floor_eq_iff]
    push_cast
    constructor <;> linarith
  have hround : JsNumber.round (((c * d : ℕ) : ℤ) : ℚ) = (((c * d : ℕ) : ℤ) : ℚ) := by
    apply JsNumber.round_intCast
    rw [Nat.abs_cast]
    exact_mod_cast hlt
  have hc : JsNumber.round (c : ℚ) = c := by
    have hint : |(c : ℤ)| ≤ 2 ^ 53 := by
      rw [Nat.abs_cast]
      exact_mod_cast (Nat.le_mul_of_pos_right c hd).trans hlt
    exact_mod_cast JsNumber.round_intCast hint
  have hd0 : (d : ℚ) ≠ 0 := by exact_mod_cast hd.ne'
  rw [percentOf, hone, hscale, hfloor, hround]
  push_cast
  rw [mul_div_cancel_right₀ _ hd0, hc]

/-! ### The code computes it -/

/-- A number that is small and not negative. -/
def Small (x : JsNumber) (v : ℚ) (bound : ℕ) : Prop :=
  ∃ y : Double, x = .fin y ∧ y.val = v ∧ 0 ≤ v ∧ v ≤ bound

theorem abs_natCast_le {n : ℕ} (h : n ≤ 2 ^ 53) : |(n : ℤ)| ≤ 2 ^ 53 := by
  rw [Nat.abs_cast]
  exact_mod_cast h

theorem round_natCast_of_le {n : ℕ} (h : n ≤ 2 ^ 53) : JsNumber.round (n : ℚ) = n := by
  exact_mod_cast JsNumber.round_intCast (abs_natCast_le h)

theorem ofRat_small {q : ℚ} {bound : ℕ} (h0 : 0 ≤ q) (hq : q ≤ bound) (hb : bound ≤ 2 ^ 53) :
    Small (ofRat q) (JsNumber.round q) bound := by
  obtain ⟨y, hy, hval⟩ := ofRat_of_abs_le (.ofInt bound (abs_natCast_le hb)) (q := q) (by
    rw [abs_of_nonneg h0]
    exact_mod_cast hq)
  refine ⟨y, hy, hval, round_nonneg h0, ?_⟩
  have hmono := round_mono hq
  rwa [round_natCast_of_le hb] at hmono

variable {x : JsNumber} {v : ℚ} {bound : ℕ}

theorem Small.mul (h : Small x v bound) (hpos : 0 < bound) {k : ℕ} (hb : bound * k ≤ 2 ^ 53) :
    Small (x.mul (.ofNat k)) (JsNumber.round (v * k)) (bound * k) := by
  obtain ⟨y, rfl, rfl, h0, hle⟩ := h
  have hk53 : k ≤ 2 ^ 53 := (Nat.le_mul_of_pos_left k hpos).trans hb
  rw [ofNat_eq (abs_natCast_le hk53)]
  have hmul := mul_le_mul_of_nonneg_right hle (Nat.cast_nonneg (α := ℚ) k)
  have hsmall := ofRat_small (mul_nonneg h0 (Nat.cast_nonneg k)) (by exact_mod_cast hmul) hb
  exact_mod_cast hsmall

theorem Small.scale (h : Small x v bound) (hpos : 0 < bound) {ks : List ℕ}
    (hks : ∀ k ∈ ks, 0 < k) (hb : bound * ks.prod ≤ 2 ^ 53) :
    Small (ks.foldl (fun x k => x.mul (.ofNat k)) x) (Reports.scale ks v) (bound * ks.prod) := by
  induction ks generalizing x v bound with
  | nil => simpa [Reports.scale] using h
  | cons k ks ih =>
    rw [List.forall_mem_cons] at hks
    rw [List.prod_cons, ← Nat.mul_assoc] at hb ⊢
    have hprod : 0 < ks.prod := List.prod_pos hks.2
    have hmul := h.mul hpos ((Nat.le_mul_of_pos_right _ hprod).trans hb)
    exact ih hmul (Nat.mul_pos hpos hks.1) hks.2 hb

theorem Small.mathRound (h : Small x v bound) (hb : bound ≤ 2 ^ 53) :
    Small (mathRound x) (JsNumber.round ⌊v + 1 / 2⌋) bound := by
  obtain ⟨y, rfl, rfl, h0, hle⟩ := h
  have hlow : (0 : ℤ) ≤ ⌊y.val + 1 / 2⌋ := Int.floor_nonneg.mpr (by linarith)
  have hhigh : ⌊y.val + 1 / 2⌋ ≤ (bound : ℤ) := by
    rw [← Int.lt_add_one_iff, Int.floor_lt]
    push_cast
    linarith
  exact ofRat_small (by exact_mod_cast hlow) (by exact_mod_cast hhigh) hb

theorem Small.div (h : Small x v bound) {d : ℕ} (hd : 0 < d) (hd53 : d ≤ 2 ^ 53)
    (hb : bound ≤ 2 ^ 53) : Small (x.div (.ofNat d)) (JsNumber.round (v / d)) bound := by
  obtain ⟨y, rfl, rfl, h0, hle⟩ := h
  have hd0 : (0 : ℚ) < d := by exact_mod_cast hd
  have hd1 : (1 : ℚ) ≤ d := by exact_mod_cast hd
  have hne : (Double.ofInt d (abs_natCast_le hd53)).val ≠ 0 := by
    show ((d : ℤ) : ℚ) ≠ 0
    exact_mod_cast hd.ne'
  rw [ofNat_eq (abs_natCast_le hd53), JsNumber.div, if_neg hne]
  have hquot : y.val / d ≤ bound := (div_le_self h0 hd1).trans hle
  exact_mod_cast ofRat_small (div_nonneg h0 hd0.le) hquot hb

/-- The ratio of two counts. -/
theorem small_ratio {s : Seconds} (h : s.Counted) (hpos : 0 < s.total) :
    Small ((ofNat s.up).div (.ofNat s.total)) (JsNumber.round (s.up / s.total)) 1 := by
  have hup : s.up ≤ 2 ^ 53 := h.up_le.trans h.exact.le
  have ht0 : (0 : ℚ) < s.total := by exact_mod_cast hpos
  have hle : (s.up : ℚ) ≤ s.total := by exact_mod_cast h.up_le
  have hne : (Double.ofInt s.total (abs_natCast_le h.exact.le)).val ≠ 0 := by
    show ((s.total : ℤ) : ℚ) ≠ 0
    exact_mod_cast hpos.ne'
  rw [ofNat_eq (abs_natCast_le hup), ofNat_eq (abs_natCast_le h.exact.le), JsNumber.div,
    if_neg hne]
  have hratio : (s.up / s.total : ℚ) ≤ (1 : ℕ) := by
    rw [Nat.cast_one, div_le_one ht0]
    exact hle
  exact_mod_cast ofRat_small (div_nonneg (Nat.cast_nonneg _) ht0.le) hratio (by decide)

/-- The scales of a percentage: they make a whole of `c`. -/
structure Scales (ks : List ℕ) (d c : ℕ) : Prop where
  pos : ∀ k ∈ ks, 0 < k
  d_pos : 0 < d
  c_pos : 0 < c
  prod : ks.prod = c * d
  exact : c * d ≤ 2 ^ 53

theorem percent_fin {s : Seconds} (h : s.Counted) (hpos : 0 < s.total) {ks : List ℕ} {d c : ℕ}
    (hks : Scales ks d c) :
    ∃ y : Double, percent ks d s = .fin y ∧ y.val = percentOf ks d (s.up / s.total) := by
  have hd53 : d ≤ 2 ^ 53 := (Nat.le_mul_of_pos_left d hks.c_pos).trans hks.exact
  have hprod : 1 * ks.prod ≤ 2 ^ 53 := by
    rw [one_mul, hks.prod]
    exact hks.exact
  have hscale := (small_ratio h hpos).scale one_pos hks.pos hprod
  obtain ⟨y, hy, hval, -, -⟩ := (hscale.mathRound hprod).div hks.d_pos hd53 hprod
  exact ⟨y, hy, hval⟩

/-! ### Order and range -/

section

variable {s t : Seconds} {ks : List ℕ} {d c : ℕ}

/-- **Monotone.**  Where the ratio of up seconds is no smaller, the percentage is no smaller. -/
theorem percent_mono (hs : s.Counted) (ht : t.Counted) (hspos : 0 < s.total) (htpos : 0 < t.total)
    (hks : Scales ks d c) (h : s.up * t.total ≤ t.up * s.total) :
    le (percent ks d s) (percent ks d t) = true := by
  obtain ⟨y, hy, hyval⟩ := percent_fin hs hspos hks
  obtain ⟨z, hz, hzval⟩ := percent_fin ht htpos hks
  rw [hy, hz]
  apply le_fin
  rw [hyval, hzval]
  apply percentOf_mono
  rw [div_le_div_iff₀ (by exact_mod_cast hspos) (by exact_mod_cast htpos)]
  exact_mod_cast h

/-- From 0 to `c`. -/
def InRange (c : ℕ) (x : JsNumber) : Prop := le (ofNat 0) x = true ∧ le x (ofNat c) = true

instance (c : ℕ) (x : JsNumber) : Decidable (InRange c x) := inferInstanceAs (Decidable (_ ∧ _))

theorem inRange_fin {c : ℕ} (hc : c ≤ 2 ^ 53) {y : Double} :
    InRange c (.fin y) ↔ 0 ≤ y.val ∧ y.val ≤ c := by
  rw [InRange, ofNat_eq (abs_natCast_le (Nat.zero_le _)), ofNat_eq (abs_natCast_le hc)]
  simp [le, Double.ofInt]

theorem fin_of_range {c : ℕ} (hc : c ≤ 2 ^ 53) {x : JsNumber} (h : InRange c x) :
    ∃ y : Double, x = .fin y := by
  obtain ⟨hlow, hhigh⟩ := h
  rw [ofNat_eq (abs_natCast_le (Nat.zero_le _))] at hlow
  rw [ofNat_eq (abs_natCast_le hc)] at hhigh
  cases x with
  | nan => exact absurd hhigh Bool.false_ne_true
  | fin y => exact ⟨y, rfl⟩
  | inf negative =>
    cases negative
    · exact absurd hhigh Bool.false_ne_true
    · exact absurd hlow Bool.false_ne_true

/-- Percentages can be compared. -/
theorem le_total_of_range {c : ℕ} (hc : c ≤ 2 ^ 53) {x y : JsNumber} (hx : InRange c x)
    (hy : InRange c y) : le x y = true ∨ le y x = true := by
  obtain ⟨a, rfl⟩ := fin_of_range hc hx
  obtain ⟨b, rfl⟩ := fin_of_range hc hy
  exact (le_total a.val b.val).imp le_fin le_fin

theorem le_trans_of_range {c : ℕ} (hc : c ≤ 2 ^ 53) {x y z : JsNumber} (hx : InRange c x)
    (hy : InRange c y) (hz : InRange c z) (hxy : le x y = true) (hyz : le y z = true) :
    le x z = true := by
  obtain ⟨a, rfl⟩ := fin_of_range hc hx
  obtain ⟨b, rfl⟩ := fin_of_range hc hy
  obtain ⟨d, rfl⟩ := fin_of_range hc hz
  exact le_fin ((of_decide_eq_true hxy).trans (of_decide_eq_true hyz))

theorem percent_range (hs : s.Counted) (hpos : 0 < s.total) (hks : Scales ks d c) :
    InRange c (percent ks d s) := by
  have hc : c ≤ 2 ^ 53 := (Nat.le_mul_of_pos_right c hks.d_pos).trans hks.exact
  have ht0 : (0 : ℚ) < s.total := by exact_mod_cast hpos
  obtain ⟨y, hy, hval⟩ := percent_fin hs hpos hks
  have hlow : 0 ≤ y.val := by
    have hmono := percentOf_mono ks d (div_nonneg (Nat.cast_nonneg s.up) ht0.le)
    rwa [percentOf_zero, ← hval] at hmono
  have hhigh : y.val ≤ c := by
    have hratio : (s.up / s.total : ℚ) ≤ 1 := by
      rw [div_le_one ht0]
      exact_mod_cast hs.up_le
    have hmono := percentOf_mono ks d hratio
    rwa [percentOf_one hks.pos hks.d_pos hks.prod hks.exact, ← hval] at hmono
  rw [hy]
  exact (inRange_fin hc).mpr ⟨hlow, hhigh⟩

end

theorem scales_uptime : Scales [100, 100] 100 100 :=
  ⟨by decide, by decide, by decide, rfl, by decide⟩

theorem scales_trend : Scales [10000] 100 100 := ⟨by decide, by decide, by decide, rfl, by decide⟩

theorem scales_history : Scales [100] 1 100 := ⟨by decide, by decide, by decide, rfl, by decide⟩

/-- A bucket without seconds counts as 0. -/
theorem uptimePct_range {s : Seconds} (h : s.Counted) : InRange 100 (uptimePct s) := by
  rw [uptimePct]
  split
  · rw [ofNat_eq (abs_natCast_le (Nat.zero_le _))]
    refine (inRange_fin (by decide)).mpr ⟨?_, ?_⟩ <;> simp [Double.ofInt]
  · rename_i hne
    exact percent_range h (Nat.pos_of_ne_zero hne) scales_uptime

theorem uptimePct_mono {s t : Seconds} (hs : s.Counted) (ht : t.Counted)
    (hzero : t.total = 0 → s.total = 0) (h : s.up * t.total ≤ t.up * s.total) :
    le (uptimePct s) (uptimePct t) = true := by
  by_cases hs0 : s.total = 0
  · have hrange := (uptimePct_range ht).1
    rwa [uptimePct, if_pos hs0]
  · have ht0 : t.total ≠ 0 := fun h0 => hs0 (hzero h0)
    rw [uptimePct, if_neg hs0, uptimePct, if_neg ht0]
    exact percent_mono hs ht (Nat.pos_of_ne_zero hs0) (Nat.pos_of_ne_zero ht0) scales_uptime h

/-! ### All seconds together -/

namespace Seconds

/-- The sum of a list. -/
def all (ss : List Seconds) : Seconds := ss.foldl add empty

theorem all_eq (ss : List Seconds) : all ss = ⟨(ss.map up).sum, (ss.map total).sum⟩ := by
  induction ss using List.reverseRecOn with
  | nil => rfl
  | append_singleton ss s ih =>
    have hconcat : all (ss ++ [s]) = (all ss).add s := by simp [all, List.foldl_append]
    rw [hconcat, ih]
    simp [add]

theorem all_counted {ss : List Seconds} (h : ∀ s ∈ ss, s.up ≤ s.total)
    (hlt : (all ss).total < 2 ^ 53) : (all ss).Counted := by
  refine ⟨?_, hlt⟩
  rw [all_eq]
  exact List.sum_le_sum h

theorem total_le_all {ss : List Seconds} {s : Seconds} (h : s ∈ ss) :
    s.total ≤ (all ss).total := by
  rw [all_eq]
  exact List.single_le_sum (fun _ _ => Nat.zero_le _) _ (List.mem_map_of_mem h)

theorem counted_of_all {ss : List Seconds} (h : ∀ s ∈ ss, s.up ≤ s.total)
    (hlt : (all ss).total < 2 ^ 53) {s : Seconds} (hs : s ∈ ss) : s.Counted :=
  ⟨h s hs, lt_of_le_of_lt (total_le_all hs) hlt⟩

/-- Weighing the counts of each by those of all gives the same twice. -/
theorem sum_cross (ss : List Seconds) :
    (ss.map fun s => s.up * (all ss).total).sum = (ss.map fun s => (all ss).up * s.total).sum := by
  rw [List.sum_map_mul_right, List.sum_map_mul_left, all_eq]

end Seconds

/-- **Mediant.**  The percentage of all seconds is no less than the least of the percentages. -/
theorem exists_le_all {ss : List Seconds} (hne : ss ≠ []) (h : ∀ s ∈ ss, s.up ≤ s.total)
    (hlt : (Seconds.all ss).total < 2 ^ 53) :
    ∃ s ∈ ss, le (uptimePct s) (uptimePct (Seconds.all ss)) = true := by
  obtain ⟨s, hs, hcross⟩ := List.exists_le_of_sum_le hne _ _ (Seconds.sum_cross ss).le
  refine ⟨s, hs, ?_⟩
  apply uptimePct_mono (Seconds.counted_of_all h hlt hs) (Seconds.all_counted h hlt) _ hcross
  intro hzero
  have hle := Seconds.total_le_all hs
  omega

/-- Nor is it more than the greatest. -/
theorem exists_all_le {ss : List Seconds} (hne : ss ≠ []) (h : ∀ s ∈ ss, s.up ≤ s.total)
    (hlt : (Seconds.all ss).total < 2 ^ 53) :
    ∃ s ∈ ss, le (uptimePct (Seconds.all ss)) (uptimePct s) = true := by
  by_cases hzero : (Seconds.all ss).total = 0
  · obtain ⟨s, hs⟩ := List.exists_mem_of_ne_nil ss hne
    refine ⟨s, hs, ?_⟩
    rw [uptimePct, if_pos hzero]
    exact (uptimePct_range (Seconds.counted_of_all h hlt hs)).1
  · -- some of the seconds are up as often as all of them are, and there are such seconds
    by_contra hnone
    simp only [not_exists, not_and] at hnone
    have hless : ∀ s ∈ ss, s.up * (Seconds.all ss).total ≤ (Seconds.all ss).up * s.total ∧
        (0 < s.total → s.up * (Seconds.all ss).total < (Seconds.all ss).up * s.total) := by
      intro s hs
      by_cases hs0 : s.total = 0
      · have hup := h s hs
        rw [hs0, Nat.le_zero] at hup
        simp [hs0, hup]
      · have hlt' : s.up * (Seconds.all ss).total < (Seconds.all ss).up * s.total := by
          by_contra hge
          exact hnone s hs (uptimePct_mono (Seconds.all_counted h hlt)
            (Seconds.counted_of_all h hlt hs) (fun h0 => absurd h0 hs0) (not_lt.mp hge))
        exact ⟨hlt'.le, fun _ => hlt'⟩
    obtain ⟨s, hs, hpos⟩ : ∃ s ∈ ss, 0 < s.total := by
      by_contra hall
      simp only [not_exists, not_and, not_lt, Nat.le_zero] at hall
      apply hzero
      rw [Seconds.all_eq]
      exact List.sum_eq_zero (by simpa using hall)
    have hsum := List.sum_lt_sum (fun s : Seconds => s.up * (Seconds.all ss).total)
      (fun s => (Seconds.all ss).up * s.total) (fun s hs => (hless s hs).1)
      ⟨s, hs, (hless s hs).2 hpos⟩
    exact absurd (Seconds.sum_cross ss) hsum.ne

/-- Intervals that are charged one after the other leave the up seconds among all seconds. -/
theorem accumulate_up_le {b : Seconds} (h : b.up ≤ b.total) (up : Bool) (delta : ℤ) :
    (b.accumulate up delta).up ≤ (b.accumulate up delta).total := by
  show b.up + (if up then _ else 0) ≤ b.total + _
  cases up
  · exact h.trans (Nat.le_add_right _ _)
  · exact Nat.add_le_add_right h _

end Argus.Reports
