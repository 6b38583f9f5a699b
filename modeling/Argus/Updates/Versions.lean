import Argus.Lib.JsNumber
import Argus.Lib.Padded

namespace Argus.Updates

open Padded

/-!
# Updates — two comparisons of versions

The backend (`compareSemver`) and the agent (`versionAtLeast`) take a version apart at dots,
dashes and plus signs and compare the numbers one by one.

* The backend reads the digits a part begins with, behind white space, as a number of
  ECMAScript; a part without any is zero.
* The agent leaves out the empty parts and reads a part as an integer of 64 bits; one that is
  not all digits is zero, and one that is too great the greatest one.
* `Plain` — a text of which both read the same components (`components_eq`).
* `versions_agree` — plain texts are compared alike, a text without great numbers that is not
  plain is compared differently with some plain one, and both comparisons are total preorders.
-/

/-! ### Parts -/

/-- `/[.\-+]/`. -/
def isSeparator (c : Char) : Bool := c == '.' || c == '-' || c == '+'

/-- The text without one `v` in front. -/
def withoutV : List Char → List Char
  | 'v' :: cs => cs
  | cs => cs

/-- `v.replace(/^v/, "").split(/[.\-+]/)`. -/
def parts (v : String) : List (List Char) := (withoutV v.toList).splitOnP isSeparator

/-! ### The backend -/

/-- The digits of a part; it has no sign. -/
def leadingDigits (p : List Char) : List Char :=
  (p.dropWhile JsText.isSpace).takeWhile Char.isDigit

/-- `Number.parseInt(p, 10) || 0`. -/
def parseInt (p : List Char) : JsNumber := .ofRat (Nat.ofDigitChars 10 (leadingDigits p) 0 : ℕ)

/-- One turn of the loop. -/
def compareStep (x y : JsNumber) : Option ℤ :=
  let d := JsNumber.sub x y
  if JsNumber.strictEq d (.ofRat 0) then none else some (if d.isNegative then -1 else 1)

/-- `compareSemver`. -/
def compareSemver (a b : String) : ℤ :=
  let pa := (parts a).map parseInt
  let pb := (parts b).map parseInt
  (firstSome (max pa.length pb.length) (fun i =>
    compareStep (pa.getD i (.ofRat 0)) (pb.getD i (.ofRat 0)))).getD 0

/-! ### The agent -/

def maxInt64 : ℕ := 2 ^ 63 - 1

def maxUint64 : ℕ := 2 ^ 64 - 1

/-- The loop of `strconv.ParseUint`, from a value on.  A character that is no digit is an error,
    and so is a value that is too great; whichever comes first decides. -/
def parseUint : ℕ → List Char → ℕ
  | n, [] => n
  | n, c :: cs =>
    if c.isDigit then
      if maxUint64 < n * 10 + (c.toNat - 48) then maxUint64
      else parseUint (n * 10 + (c.toNat - 48)) cs
    else 0

/-- The value of `strconv.Atoi`, without its error. -/
def atoi (p : List Char) : ℕ := min (parseUint 0 p) maxInt64

/-- `norm`: `strings.FieldsFunc` leaves out what is empty. -/
def norm (v : String) : List ℕ := ((parts v).filter (fun p => !p.isEmpty)).map atoi

/-- One turn of the loop. -/
def atLeastStep (x y : ℕ) : Option Bool := if x = y then none else some (decide (y < x))

/-- `versionAtLeast`. -/
def versionAtLeast (cur target : String) : Bool :=
  let a := norm cur
  let b := norm target
  (firstSome (max a.length b.length) (fun i => atLeastStep (a.getD i 0) (b.getD i 0))).getD true

/-! ### What both read -/

/-- A part that the backend reads as zero. -/
def IsZero (p : List Char) : Prop := Nat.ofDigitChars 10 (leadingDigits p) 0 = 0

instance (p : List Char) : Decidable (IsZero p) := inferInstanceAs (Decidable (_ = _))

/-- A part that both read alike: a number that both can hold, or no number at all. -/
def PartOk (p : List Char) : Prop :=
  if p.all Char.isDigit then
    Nat.ofDigitChars 10 p 0 < 2 ^ 63 ∧
      JsNumber.round (Nat.ofDigitChars 10 p 0 : ℕ) = (Nat.ofDigitChars 10 p 0 : ℕ)
  else IsZero p

instance (p : List Char) : Decidable (PartOk p) := inferInstanceAs (Decidable (ite _ _ _))

/-- A text that both read alike: behind an empty part, which only the backend counts, there is no
    number but zero. -/
def Plain (v : String) : Prop :=
  (∀ p ∈ parts v, PartOk p) ∧ (parts v).Pairwise (fun p q => p = [] → IsZero q)

instance (v : String) : Decidable (Plain v) := inferInstanceAs (Decidable (_ ∧ _))

/-- Every number is less than `2 ^ 53`. -/
def Safe (v : String) : Prop :=
  ∀ p ∈ parts v, Nat.ofDigitChars 10 (leadingDigits p) 0 < 2 ^ 53

/-- The backend finds no need to send an update if and only if the agent finds none to apply it. -/
def Agree (a b : String) : Prop := 0 ≤ compareSemver a b ↔ versionAtLeast a b = true

instance (a b : String) : Decidable (Agree a b) := inferInstanceAs (Decidable (_ ↔ _))

/-! ### The components of the backend -/

/-- What the backend reads, as a number; an infinite one is the greatest. -/
def value (p : List Char) : WithTop ℕ :=
  match parseInt p with
  | .fin x => (⌊x.val⌋.toNat : ℕ)
  | _ => ⊤

theorem parseInt_cases (p : List Char) :
    (parseInt p = .inf false ∧ value p = ⊤) ∨
      ∃ (x : Double) (n : ℕ), parseInt p = .fin x ∧ x.val = n ∧ value p = n := by
  obtain ⟨m, hm⟩ := JsNumber.round_natCast (Nat.ofDigitChars 10 (leadingDigits p) 0)
  have hnonneg : ¬ ((Nat.ofDigitChars 10 (leadingDigits p) 0 : ℕ) : ℚ) < 0 :=
    not_lt.mpr (Nat.cast_nonneg _)
  unfold value parseInt JsNumber.ofRat
  split
  · refine .inr ⟨_, m, rfl, hm, ?_⟩
    simp only [hm]
    rw [Int.floor_natCast, Int.toNat_natCast]
  · rw [decide_eq_false hnonneg]
    exact .inl ⟨rfl, rfl⟩

/-- A number that the backend can hold. -/
theorem value_of_round {p : List Char}
    (h : JsNumber.round (Nat.ofDigitChars 10 (leadingDigits p) 0 : ℕ)
      = (Nat.ofDigitChars 10 (leadingDigits p) 0 : ℕ))
    (hlt : Nat.ofDigitChars 10 (leadingDigits p) 0 < 2 ^ 63) :
    value p = (Nat.ofDigitChars 10 (leadingDigits p) 0 : ℕ) := by
  have hfinite : |JsNumber.round (Nat.ofDigitChars 10 (leadingDigits p) 0 : ℕ)| < 2 ^ 1024 := by
    rw [h, abs_of_nonneg (Nat.cast_nonneg _)]
    have hcast : ((Nat.ofDigitChars 10 (leadingDigits p) 0 : ℕ) : ℚ) < 2 ^ 63 := by
      exact_mod_cast hlt
    exact hcast.trans (pow_lt_pow_right₀ one_lt_two (by decide))
  unfold value parseInt JsNumber.ofRat
  rw [dif_pos hfinite]
  dsimp only
  rw [h, Int.floor_natCast, Int.toNat_natCast]

theorem value_of_isZero {p : List Char} (h : IsZero p) : value p = 0 := by
  unfold IsZero at h
  have hvalue := value_of_round (p := p) (by rw [h, Nat.cast_zero, JsNumber.round_zero])
    (by rw [h]; decide)
  rw [hvalue, h, Nat.cast_zero]

/-- One turn of the loop, by the numbers that were read: it goes on behind two equal ones, unless
    they are infinite. -/
def turn (x y : WithTop ℕ) : Option ℤ :=
  if x < y then some (-1) else if x = y ∧ x ≠ ⊤ then none else some 1

theorem turn_eq_less_iff {x y : WithTop ℕ} : turn x y = some (-1) ↔ x < y := by
  unfold turn
  split
  · next h => simp [h]
  · next h => split <;> simp [h]

theorem turn_eq_none_iff {x y : WithTop ℕ} : turn x y = none ↔ x = y ∧ x ≠ ⊤ := by
  unfold turn
  split
  · next h => simp [h.ne]
  · split
    · next h => exact iff_of_true rfl h
    · next h => exact iff_of_false (by simp) h

theorem turn_values {x y : WithTop ℕ} {r : ℤ} (h : turn x y = some r) : r = -1 ∨ r = 1 := by
  unfold turn at h
  split at h
  · exact .inl (Option.some.inj h).symm
  · split at h
    · cases h
    · exact .inr (Option.some.inj h).symm

theorem compareStep_parseInt (p q : List Char) :
    compareStep (parseInt p) (parseInt q) = turn (value p) (value q) := by
  unfold turn
  rcases parseInt_cases p with ⟨hp, hvp⟩ | ⟨x, m, hp, hx, hvp⟩ <;>
    rcases parseInt_cases q with ⟨hq, hvq⟩ | ⟨y, n, hq, hy, hvq⟩
  · rw [hp, hq, hvp, hvq]
    simp [compareStep, JsNumber.sub, JsNumber.neg, JsNumber.add, JsNumber.strictEq,
      JsNumber.isNegative]
  · rw [hp, hq, hvp, hvq]
    simp [compareStep, JsNumber.sub, JsNumber.neg, JsNumber.add, JsNumber.strictEq,
      JsNumber.isNegative, JsNumber.ofRat_zero]
  · rw [hp, hq, hvp, hvq]
    simp [compareStep, JsNumber.sub, JsNumber.neg, JsNumber.add, JsNumber.strictEq,
      JsNumber.isNegative, JsNumber.ofRat_zero]
  · rw [hp, hq, hvp, hvq, compareStep, JsNumber.sub_fin, hx, hy]
    simp only [Nat.cast_lt, Nat.cast_inj, ne_eq, WithTop.natCast_ne_top, not_false_eq_true,
      and_true]
    by_cases heq : m = n
    · rw [heq, sub_self]
      simp [JsNumber.strictEq, JsNumber.ofRat_zero]
    · have habs : (1 : ℚ) ≤ |(m : ℚ) - n| := by
        have hint : (1 : ℤ) ≤ |(m : ℤ) - n| := Int.one_le_abs (by omega)
        exact_mod_cast hint
      rw [JsNumber.strictEq_ofRat_zero habs, JsNumber.isNegative_ofRat habs, if_neg heq]
      simp only [Bool.false_eq_true, if_false, decide_eq_true_eq, sub_neg, Nat.cast_lt]
      split <;> rfl

/-- The components that the backend compares. -/
def backendComponents (v : String) : ℕ → WithTop ℕ := components ((parts v).map value)

/-- The components that the agent compares. -/
def agentComponents (v : String) : ℕ → ℕ := components (norm v)

theorem parseInt_nil : parseInt [] = .ofRat 0 := by
  simp [parseInt, leadingDigits]

theorem value_nil : value [] = 0 := value_of_isZero rfl

/-- A component that may lie behind the last part. -/
theorem backendComponents_eq (v : String) (i : ℕ) :
    backendComponents v i = value ((parts v).getD i []) :=
  components_map value_nil (parts v) i

theorem getD_parseInt (v : String) (i : ℕ) :
    ((parts v).map parseInt).getD i (.ofRat 0) = parseInt ((parts v).getD i []) := by
  rw [← parseInt_nil, List.getD_eq_getElem?_getD, List.getElem?_map, Option.getD_map,
    List.getD_eq_getElem?_getD]

theorem compareSemver_eq (a b : String) :
    compareSemver a b = (firstSome (max (parts a).length (parts b).length) (fun i =>
      turn (backendComponents a i) (backendComponents b i))).getD 0 := by
  simp only [compareSemver, List.length_map, getD_parseInt, compareStep_parseInt,
    ← backendComponents_eq]

/-- **The backend.**  A version precedes another one at the first component that differs, unless
    two infinite ones come before it. -/
theorem compareSemver_neg_iff (a b : String) : ¬ 0 ≤ compareSemver a b ↔
    ∃ i, (∀ j < i, backendComponents a j = backendComponents b j ∧ backendComponents a j ≠ ⊤) ∧
      backendComponents a i < backendComponents b i := by
  have hbound : ∀ i, max (parts a).length (parts b).length ≤ i →
      backendComponents a i = backendComponents b i := by
    intro i hi
    rw [max_le_iff] at hi
    rw [backendComponents, components_of_le (by simpa using hi.1), backendComponents,
      components_of_le (by simpa using hi.2)]
  rw [← firstSome_lt_iff (f := backendComponents a) (P := fun x => x ≠ ⊤)
    (fun i => turn_eq_less_iff) (fun i => turn_eq_none_iff) hbound, compareSemver_eq]
  cases hfirst : firstSome (max (parts a).length (parts b).length) (fun i =>
      turn (backendComponents a i) (backendComponents b i)) with
  | none => simp
  | some r =>
    obtain ⟨i, -, hi, -⟩ := firstSome_eq_some_iff.mp hfirst
    rcases turn_values hi with rfl | rfl <;> simp

theorem atLeastStep_eq_false_iff {x y : ℕ} : atLeastStep x y = some false ↔ x < y := by
  unfold atLeastStep
  split
  · next h => simp [h]
  · next h =>
    simp only [Option.some.injEq, decide_eq_false_iff_not]
    omega

theorem atLeastStep_eq_none_iff {x y : ℕ} : atLeastStep x y = none ↔ x = y ∧ True := by
  unfold atLeastStep
  split
  · next h => simp [h]
  · next h => simp [h]

/-- **The agent.** -/
theorem versionAtLeast_false_iff (a b : String) : ¬ versionAtLeast a b = true ↔
    ∃ i, (∀ j < i, agentComponents a j = agentComponents b j) ∧
      agentComponents a i < agentComponents b i := by
  have hbound : ∀ i, max (norm a).length (norm b).length ≤ i →
      agentComponents a i = agentComponents b i := by
    intro i hi
    rw [max_le_iff] at hi
    rw [agentComponents, components_of_le hi.1, agentComponents, components_of_le hi.2]
  have hlex := firstSome_lt_iff (f := agentComponents a) (P := fun _ => True)
    (fun i => atLeastStep_eq_false_iff) (fun i => atLeastStep_eq_none_iff) hbound
  simp only [and_true] at hlex
  rw [← hlex]
  show ¬ (firstSome _ (fun i => atLeastStep (agentComponents a i) (agentComponents b i))).getD true
    = true ↔ _
  cases firstSome (max (norm a).length (norm b).length) (fun i =>
      atLeastStep (agentComponents a i) (agentComponents b i)) with
  | none => simp
  | some r => cases r <;> simp

theorem agree_iff {a b : String} : Agree a b ↔
    ((∃ i, (∀ j < i, backendComponents a j = backendComponents b j ∧ backendComponents a j ≠ ⊤) ∧
        backendComponents a i < backendComponents b i) ↔
      ∃ i, (∀ j < i, agentComponents a j = agentComponents b j) ∧
        agentComponents a i < agentComponents b i) := by
  rw [Agree, ← compareSemver_neg_iff, ← versionAtLeast_false_iff, not_iff_not]

/-- Both comparisons are by a key. -/
theorem totalPreorder_compareSemver : TotalPreorder (fun a b => 0 ≤ compareSemver a b) := by
  refine .of_key (fun v => toLex (settle 0 (backendComponents v))) (fun a b => ?_)
  rw [compareSemver_neg_iff]
  exact (settle_lt_iff 0).symm

theorem totalPreorder_versionAtLeast : TotalPreorder (fun a b => versionAtLeast a b = true) := by
  refine .of_key (fun v => toLex (agentComponents v)) (fun a b => ?_)
  rw [versionAtLeast_false_iff]
  exact lex_lt_iff.symm

/-! ### Texts that both read alike -/

/-- Digits have no white space in front. -/
theorem leadingDigits_of_all {p : List Char} (h : ∀ c ∈ p, c.isDigit = true) :
    leadingDigits p = p := by
  have hdrop : p.dropWhile JsText.isSpace = p := by
    cases p with
    | nil => rfl
    | cons c cs =>
      rw [List.dropWhile_cons_of_neg]
      simp [JsText.isSpace_of_isDigit (h c List.mem_cons_self)]
  rw [leadingDigits, hdrop, List.takeWhile_eq_self_iff]
  exact h

/-- What the backend finds in front of a part, it has not skipped more than the agent. -/
theorem takeWhile_le_leadingDigits (p : List Char) :
    Nat.ofDigitChars 10 (p.takeWhile Char.isDigit) 0 ≤ Nat.ofDigitChars 10 (leadingDigits p) 0 := by
  cases p with
  | nil => exact le_rfl
  | cons c cs =>
    cases hc : c.isDigit with
    | true =>
      have hspace := JsText.isSpace_of_isDigit hc
      rw [leadingDigits, List.dropWhile_cons_of_neg (by simp [hspace])]
    | false =>
      rw [List.takeWhile_cons_of_neg (by simp [hc]), Nat.ofDigitChars_nil]
      exact Nat.zero_le _

theorem le_ofDigitChars (p : List Char) (n : ℕ) : n ≤ Nat.ofDigitChars 10 p n := by
  rw [Nat.ofDigitChars_eq_ofDigitChars_zero]
  calc n = 1 * n := (one_mul n).symm
    _ ≤ 10 ^ p.length * n := Nat.mul_le_mul_right n (Nat.one_le_pow _ _ (by decide))
    _ ≤ _ := Nat.le_add_right _ _

theorem parseUint_le (p : List Char) (n : ℕ) :
    parseUint n p ≤ Nat.ofDigitChars 10 (p.takeWhile Char.isDigit) n := by
  induction p generalizing n with
  | nil => exact le_rfl
  | cons c cs ih =>
    rw [parseUint]
    split
    · next hc =>
      rw [List.takeWhile_cons_of_pos hc, Nat.ofDigitChars_cons, Nat.mul_comm 10 n]
      split
      · next hgreat => exact hgreat.le.trans (le_ofDigitChars _ _)
      · exact ih _
    · exact Nat.zero_le _

/-- A part as long as its digits are not too great. -/
theorem parseUint_eq (p : List Char) (n : ℕ)
    (hle : Nat.ofDigitChars 10 (p.takeWhile Char.isDigit) n ≤ maxUint64) :
    parseUint n p = if p.all Char.isDigit then Nat.ofDigitChars 10 p n else 0 := by
  induction p generalizing n with
  | nil => rfl
  | cons c cs ih =>
    rw [parseUint, List.all_cons]
    cases hc : c.isDigit with
    | false => rfl
    | true =>
      rw [List.takeWhile_cons_of_pos hc, Nat.ofDigitChars_cons, Nat.mul_comm 10 n] at hle
      have hsmall : ¬ maxUint64 < n * 10 + (c.toNat - 48) :=
        not_lt.mpr ((le_ofDigitChars _ _).trans hle)
      have hread := ih (n * 10 + (c.toNat - 48)) hle
      rw [if_pos rfl, if_neg hsmall, hread, Bool.true_and, Nat.ofDigitChars_cons, Nat.mul_comm 10 n]
      rfl

theorem atoi_le (p : List Char) : atoi p ≤ Nat.ofDigitChars 10 (leadingDigits p) 0 :=
  (min_le_left _ _).trans ((parseUint_le p 0).trans (takeWhile_le_leadingDigits p))

theorem atoi_eq {p : List Char} (hle : Nat.ofDigitChars 10 (leadingDigits p) 0 ≤ maxInt64) :
    atoi p = if p.all Char.isDigit then Nat.ofDigitChars 10 p 0 else 0 := by
  have hread := parseUint_eq p 0 ((takeWhile_le_leadingDigits p).trans (hle.trans (by decide)))
  rw [atoi, min_eq_left, hread]
  exact (parseUint_le p 0).trans ((takeWhile_le_leadingDigits p).trans hle)

/-- A part that both read alike. -/
theorem PartOk.value_eq {p : List Char} (h : PartOk p) : value p = (atoi p : ℕ) := by
  unfold PartOk at h
  split at h
  · next hall =>
    have hdigits := leadingDigits_of_all (List.all_eq_true.mp hall)
    have hvalue := value_of_round (p := p) (by rw [hdigits]; exact h.2) (by rw [hdigits]; exact h.1)
    rw [hvalue, atoi_eq (by rw [hdigits]; exact Nat.le_sub_one_of_lt h.1), if_pos hall, hdigits]
  · next hnot =>
    have hzero : Nat.ofDigitChars 10 (leadingDigits p) 0 = 0 := h
    rw [value_of_isZero h, atoi_eq (by rw [hzero]; exact Nat.zero_le _), if_neg hnot, Nat.cast_zero]

/-- **Plain texts.**  Both read the same components. -/
theorem Plain.components_eq {v : String} (h : Plain v) (i : ℕ) :
    backendComponents v i = (agentComponents v i : ℕ) := by
  have hmoved := components_filter_of_pairwise List.isEmpty (v := value) (l := parts v)
    (fun p hp => by rw [List.isEmpty_iff.mp hp, value_nil])
    (h.2.imp (fun hgap hp => value_of_isZero (hgap (List.isEmpty_iff.mp hp))))
  have hsame : ((parts v).filter (fun p => !p.isEmpty)).map value
      = (norm v).map (Nat.cast : ℕ → WithTop ℕ) := by
    rw [norm, List.map_map]
    apply List.map_congr_left
    intro p hp
    exact (h.1 p (List.mem_filter.mp hp).1).value_eq
  rw [backendComponents, hmoved, hsame, components_map Nat.cast_zero]
  rfl

/-- Plain texts are compared alike. -/
theorem Plain.agree {a b : String} (ha : Plain a) (hb : Plain b) : Agree a b := by
  rw [agree_iff]
  simp only [ha.components_eq, hb.components_eq, Nat.cast_inj, Nat.cast_lt, ne_eq,
    WithTop.natCast_ne_top, not_false_eq_true, and_true]

/-! ### Texts that they read differently -/

/-- The text with these components. -/
def dotted (l : List ℕ) : String := String.ofList (['.'].intercalate (l.map (Nat.toDigits 10)))

theorem isDigit_of_mem_toDigits {n : ℕ} {c : Char} (h : c ∈ Nat.toDigits 10 n) :
    c.isDigit = true :=
  Nat.isDigit_of_mem_toDigits (by decide) (by decide) h

theorem isSeparator_of_isDigit {c : Char} (h : c.isDigit = true) : isSeparator c = false := by
  rw [Bool.eq_false_iff]
  intro hsep
  simp only [isSeparator, Bool.or_eq_true, beq_iff_eq] at hsep
  rcases hsep with (rfl | rfl) | rfl <;> cases h

/-- Taking apart what was put together. -/
theorem splitOnP_intercalate {l : List (List Char)} (hne : l ≠ [])
    (h : ∀ p ∈ l, ∀ c ∈ p, isSeparator c = false) :
    (['.'].intercalate l).splitOnP isSeparator = l := by
  induction l with
  | nil => exact absurd rfl hne
  | cons p l ih =>
    have hp := h p List.mem_cons_self
    cases l with
    | nil => simpa using List.splitOnP_eq_singleton hp
    | cons q l =>
      have hrest := ih (by simp) (fun r hr => h r (List.mem_cons_of_mem p hr))
      rw [List.intercalate_cons_cons, List.append_assoc, List.singleton_append,
        List.splitOnP_append_cons_of_forall_mem hp '.' rfl, hrest]

theorem withoutV_of_isDigit {c : Char} (h : c.isDigit = true) (cs : List Char) :
    withoutV (c :: cs) = c :: cs := by
  unfold withoutV
  split
  · next heq =>
    rw [(List.cons.inj heq).1] at h
    cases h
  · rfl

theorem parts_dotted {l : List ℕ} (hne : l ≠ []) : parts (dotted l) = l.map (Nat.toDigits 10) := by
  have hnoV : withoutV (['.'].intercalate (l.map (Nat.toDigits 10)))
      = ['.'].intercalate (l.map (Nat.toDigits 10)) := by
    obtain ⟨n, rest, rfl⟩ := List.exists_cons_of_ne_nil hne
    obtain ⟨c, cs, hdigits⟩ := List.exists_cons_of_ne_nil
      (List.ne_nil_of_length_pos (Nat.length_toDigits_pos (b := 10) (n := n)))
    rw [List.map_cons, hdigits, List.intercalate_cons_cons_left]
    exact withoutV_of_isDigit (isDigit_of_mem_toDigits (hdigits ▸ List.mem_cons_self)) _
  rw [parts, dotted, String.toList_ofList, hnoV]
  refine splitOnP_intercalate (by simpa using hne) (fun p hp c hc => ?_)
  obtain ⟨n, -, rfl⟩ := List.mem_map.mp hp
  exact isSeparator_of_isDigit (isDigit_of_mem_toDigits hc)

private theorem round_of_safe {n : ℕ} (h : n < 2 ^ 53) : JsNumber.round (n : ℕ) = (n : ℕ) := by
  have habs : |(n : ℤ)| ≤ 2 ^ 53 := by
    rw [abs_of_nonneg (Int.natCast_nonneg n)]
    exact_mod_cast h.le
  have hround := JsNumber.round_intCast habs
  rwa [Int.cast_natCast] at hround

theorem all_toDigits (n : ℕ) : (Nat.toDigits 10 n).all Char.isDigit = true :=
  List.all_eq_true.mpr (fun _ hc => isDigit_of_mem_toDigits hc)

theorem plain_dotted {l : List ℕ} (hne : l ≠ []) (h : ∀ n ∈ l, n < 2 ^ 53) : Plain (dotted l) := by
  rw [Plain, parts_dotted hne]
  refine ⟨fun p hp => ?_, ?_⟩
  · obtain ⟨n, hn, rfl⟩ := List.mem_map.mp hp
    rw [PartOk, if_pos (all_toDigits n), Nat.ofDigitChars_ten_toDigits]
    exact ⟨(h n hn).trans (by decide), round_of_safe (h n hn)⟩
  · refine List.pairwise_map.mpr (List.pairwise_of_forall (fun n m hnil => ?_))
    exact absurd hnil (List.ne_nil_of_length_pos Nat.length_toDigits_pos)

theorem agentComponents_dotted {l : List ℕ} (hne : l ≠ []) (h : ∀ n ∈ l, n < 2 ^ 53) :
    agentComponents (dotted l) = components l := by
  have hnorm : norm (dotted l) = l := by
    rw [norm, parts_dotted hne, List.filter_eq_self.mpr]
    · rw [List.map_map]
      refine (List.map_congr_left (fun n hn => ?_)).trans (List.map_id l)
      have hdigits := leadingDigits_of_all (fun c hc => isDigit_of_mem_toDigits (n := n) hc)
      have hlt := h n hn
      show atoi (Nat.toDigits 10 n) = n
      rw [atoi_eq, if_pos (all_toDigits n), Nat.ofDigitChars_ten_toDigits]
      rw [hdigits, Nat.ofDigitChars_ten_toDigits]
      exact hlt.le.trans (by decide)
    · intro p hp
      obtain ⟨n, -, rfl⟩ := List.mem_map.mp hp
      simp [List.ne_nil_of_length_pos Nat.length_toDigits_pos]
  rw [agentComponents, hnorm]

/-- What the backend reads in a text without great numbers. -/
theorem Safe.backendComponents_eq {v : String} (h : Safe v) (i : ℕ) :
    backendComponents v i
      = (components ((parts v).map (fun p => Nat.ofDigitChars 10 (leadingDigits p) 0)) i : ℕ) := by
  have hread : (parts v).map value
      = ((parts v).map (fun p => Nat.ofDigitChars 10 (leadingDigits p) 0)).map
        (Nat.cast : ℕ → WithTop ℕ) := by
    rw [List.map_map]
    apply List.map_congr_left
    intro p hp
    exact value_of_round (round_of_safe (h p hp)) ((h p hp).trans (by decide))
  rw [backendComponents, hread, components_map Nat.cast_zero]
  rfl

/-- Where both read the same components of such a text, it is plain. -/
theorem Safe.plain {v : String} (h : Safe v)
    (heq : components ((parts v).map (fun p => Nat.ofDigitChars 10 (leadingDigits p) 0))
      = agentComponents v) : Plain v := by
  obtain ⟨hread, hgap⟩ := pairwise_of_components_filter List.isEmpty
    (p := fun p => Nat.ofDigitChars 10 (leadingDigits p) 0) (q := atoi) atoi_le
    (fun p hp => by rw [List.isEmpty_iff.mp hp]; rfl) heq
  refine ⟨fun p hp => ?_, hgap.imp (fun hzero hp => hzero (List.isEmpty_iff.mpr hp))⟩
  have hlt := h p hp
  unfold PartOk
  split
  · next hall =>
    rw [leadingDigits_of_all (List.all_eq_true.mp hall)] at hlt
    exact ⟨hlt.trans (by decide), round_of_safe hlt⟩
  · next hnot =>
    have hne : p.isEmpty = false := by
      rw [Bool.eq_false_iff]
      intro hempty
      rw [List.isEmpty_iff.mp hempty] at hnot
      exact hnot rfl
    have hsame := hread p hp hne
    rwa [atoi_eq (hlt.le.trans (by decide)), if_neg hnot] at hsame

section Apart

variable {f : ℕ → ℕ} {i m : ℕ}

/-- The components of `f` up to `i`, where `m` stands instead. -/
def upTo (f : ℕ → ℕ) (i m : ℕ) : List ℕ := (List.range i).map f ++ [m]

theorem components_upTo (k : ℕ) :
    components (upTo f i m) k = if k < i then f k else if k = i then m else 0 := by
  unfold components upTo
  rw [List.getD_eq_getElem?_getD, List.getElem?_append, List.length_map, List.length_range]
  split
  · next hk => simp [hk]
  · next hk =>
    split
    · next heq => simp [heq]
    · next hne =>
      have hlt : 1 ≤ k - i := by omega
      simp [List.getElem?_eq_none, hlt]

/-- A sequence that agrees with another one up to `i` does not precede what is cut off there. -/
theorem not_precedes_upTo {g : ℕ → ℕ} (hbefore : ∀ j < i, g j = f j) :
    ¬ ∃ k, (∀ j < k, g j = components (upTo f i (g i)) j) ∧
      g k < components (upTo f i (g i)) k := by
  rintro ⟨k, -, hlt⟩
  rw [components_upTo] at hlt
  split at hlt
  · next hk => exact absurd (hbefore k hk) hlt.ne
  · split at hlt
    · next heq => rw [heq] at hlt; omega
    · omega

theorem precedes_upTo {g : ℕ → ℕ} (hbefore : ∀ j < i, g j = f j) (hlt : g i < m) :
    ∃ k, (∀ j < k, g j = components (upTo f i m) j) ∧ g k < components (upTo f i m) k := by
  refine ⟨i, fun j hj => ?_, ?_⟩
  · rw [components_upTo, if_pos hj, hbefore j hj]
  · rw [components_upTo, if_neg (lt_irrefl i), if_pos rfl]
    exact hlt

end Apart

/-- **Texts that are not plain.**  Such a text without great numbers is compared differently with
    a plain one. -/
theorem Safe.exists_disagree {a : String} (hsafe : Safe a) (hnot : ¬ Plain a) :
    ∃ b, Plain b ∧ ¬ Agree a b := by
  classical
  set f := components ((parts a).map (fun p => Nat.ofDigitChars 10 (leadingDigits p) 0)) with hf
  have hne : ∃ i, f i ≠ agentComponents a i := by
    by_contra hall
    exact hnot (hsafe.plain (funext (fun i => not_not.mp (fun h => hall ⟨i, h⟩))))
  obtain ⟨i, hi, hbefore⟩ : ∃ i, f i ≠ agentComponents a i ∧
      ∀ j < i, f j = agentComponents a j :=
    ⟨Nat.find hne, Nat.find_spec hne, fun j hj => not_not.mp (Nat.find_min hne hj)⟩
  -- every component is small
  have hsmall : ∀ k, f k < 2 ^ 53 ∧ agentComponents a k < 2 ^ 53 := by
    refine fun k => ⟨components_induction (P := fun n => n < 2 ^ 53) (by decide) (fun n hn => ?_) k,
      components_induction (P := fun n => n < 2 ^ 53) (by decide) (fun n hn => ?_) k⟩
    · obtain ⟨p, hp, rfl⟩ := List.mem_map.mp hn
      exact hsafe p hp
    · obtain ⟨p, hp, rfl⟩ := List.mem_map.mp hn
      exact (atoi_le p).trans_lt (hsafe p (List.mem_filter.mp hp).1)
  have hlist : ∀ m, m < 2 ^ 53 → ∀ n ∈ upTo (agentComponents a) i m, n < 2 ^ 53 := by
    intro m hm n hn
    rcases List.mem_append.mp hn with hn | hn
    · obtain ⟨k, -, rfl⟩ := List.mem_map.mp hn
      exact (hsmall k).2
    · rwa [List.mem_singleton.mp hn]
  have hcons : ∀ m, upTo (agentComponents a) i m ≠ [] := fun m => by simp [upTo]
  have hagree : ∀ m (hm : m < 2 ^ 53), Agree a (dotted (upTo (agentComponents a) i m)) ↔
      ((∃ k, (∀ j < k, f j = components (upTo (agentComponents a) i m) j) ∧
          f k < components (upTo (agentComponents a) i m) k) ↔
        ∃ k, (∀ j < k, agentComponents a j = components (upTo (agentComponents a) i m) j) ∧
          agentComponents a k < components (upTo (agentComponents a) i m) k) := by
    intro m hm
    have hplain := plain_dotted (hcons m) (hlist m hm)
    rw [agree_iff]
    simp only [hsafe.backendComponents_eq, hplain.components_eq, Nat.cast_inj, Nat.cast_lt, ne_eq,
      WithTop.natCast_ne_top, not_false_eq_true, and_true,
      agentComponents_dotted (hcons m) (hlist m hm), ← hf]
  rcases lt_or_gt_of_ne hi with hlt | hgt
  · -- the agent reads more
    have hm := (hsmall i).2
    refine ⟨_, plain_dotted (hcons _) (hlist _ hm), ?_⟩
    rw [hagree _ hm]
    intro hiff
    exact not_precedes_upTo (fun j _ => rfl) (hiff.mp (precedes_upTo hbefore hlt))
  · have hm := (hsmall i).1
    refine ⟨_, plain_dotted (hcons _) (hlist _ hm), ?_⟩
    rw [hagree _ hm]
    intro hiff
    exact not_precedes_upTo hbefore (hiff.mpr (precedes_upTo (fun j _ => rfl) hgt))

/-- **Versions.**  Plain texts are compared alike, and a text without great numbers that is
    compared like this with every plain one is plain itself.  Either comparison is a total
    preorder of all texts. -/
theorem versions_agree (a b : String) :
    (Plain a → Plain b → Agree a b) ∧
    (Safe a → (∀ c, Plain c → Agree a c) → Plain a) ∧
    TotalPreorder (fun a b => 0 ≤ compareSemver a b) ∧
    TotalPreorder (fun a b => versionAtLeast a b = true) := by
  refine ⟨fun ha hb => ha.agree hb, fun hsafe hagree => ?_, totalPreorder_compareSemver,
    totalPreorder_versionAtLeast⟩
  by_contra hnot
  obtain ⟨c, hc, hdisagree⟩ := hsafe.exists_disagree hnot
  exact hdisagree (hagree c hc)

/-- Releases, one of them with a mark. -/
theorem versions_agree_releases :
    Plain "v2.10.0" ∧ Plain "2.9.1-rc" ∧ Agree "v2.10.0" "2.9.1-rc" := by
  have hfirst : Plain "v2.10.0" := by decide +kernel
  have hsecond : Plain "2.9.1-rc" := by decide +kernel
  exact ⟨hfirst, hsecond, (versions_agree _ _).1 hfirst hsecond⟩

/-- A mark that is glued to a number, and an empty part. -/
theorem versions_disagree : ¬ Agree "1.0.3rc1" "1.0.1" ∧ ¬ Agree "1..2" "1.1" := by
  decide +kernel

end Argus.Updates
