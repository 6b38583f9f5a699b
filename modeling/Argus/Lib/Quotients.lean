import Argus.Lib.JsNumber

/-!
# Quotients of numbers

* `div`, `floor` — `x / y` and `Math.floor(x)`.
* `floor_round_div` — below 2^53, dividing a number by an integer does not round up to an integer:
  the distance to it is a last place of the dividend, and that is more than the quotient is
  rounded by.
* `floor_round_half` — nor does it move a quotient by an odd integer over a half.
* `FloorsTo` — a number with a given integer part; `FloorsTo.div`, so quotients of integers are
  rounded down to those of `ℕ`, however many divisions there are.
-/

namespace JsNumber

/-- `x / y`; a zero is taken for a positive one. -/
def div : JsNumber → JsNumber → JsNumber
  | .nan, _ | _, .nan => .nan
  | .inf _, .inf _ => .nan
  | .inf a, .fin y => .inf (a != decide (y.val < 0))
  | .fin _, .inf _ => ofRat 0
  | .fin x, .fin y =>
    if y.val = 0 then if x.val = 0 then .nan else .inf (decide (x.val < 0))
    else ofRat (x.val / y.val)

/-- `Math.floor(x)`. -/
def floor : JsNumber → JsNumber
  | .fin x => .fin x.floor
  | x => x

/-! ### Rounding and integers -/

theorem lastPlace_nonpos {q : ℚ} (h : |q| < 2 ^ 53) : lastPlace q ≤ 0 := by
  refine max_le ?_ (by decide)
  rcases eq_or_ne q 0 with rfl | hne
  · simp
  · have hlog : Int.log 2 |q| < 53 := by
      rw [← Int.lt_zpow_iff_log_lt (by decide) (abs_pos.mpr hne)]
      exact_mod_cast h
    omega

/-- An integer is a multiple of every place below the point. -/
theorem exists_mul_place {l : ℤ} (h : l ≤ 0) (k : ℤ) : ∃ d : ℤ, (k : ℚ) = d * 2 ^ l := by
  obtain ⟨n, hn⟩ := Int.eq_ofNat_of_zero_le (neg_nonneg.mpr h)
  refine ⟨k * 2 ^ n, ?_⟩
  have hl : l = -(n : ℤ) := by omega
  rw [hl, zpow_neg, zpow_natCast]
  push_cast
  field_simp

theorem roundEven_le (q : ℚ) : (roundEven q : ℚ) ≤ q + 1 / 2 := by
  have hlow := Int.floor_le q
  have hhigh := Int.lt_floor_add_one q
  unfold roundEven
  dsimp only
  split_ifs <;> push_cast <;> linarith

/-- Rounding does not go below an integer. -/
theorem le_round {q : ℚ} {k : ℤ} (h : |q| < 2 ^ 53) (hk : (k : ℚ) ≤ q) : (k : ℚ) ≤ round q := by
  have htwo : (0 : ℚ) < 2 ^ lastPlace q := zpow_pos two_pos _
  obtain ⟨d, hd⟩ := exists_mul_place (lastPlace_nonpos h) k
  have hle : (d : ℚ) ≤ q / 2 ^ lastPlace q := by
    rw [le_div_iff₀ htwo, ← hd]
    exact hk
  have hround : d ≤ roundEven (q / 2 ^ lastPlace q) :=
    (Int.le_floor.mpr hle).trans (floor_le_roundEven _)
  rw [round, hd]
  exact mul_le_mul_of_nonneg_right (by exact_mod_cast hround) htwo.le

/-- Nor does it reach an integer that is further off than half of the last place. -/
theorem round_lt {q : ℚ} {m : ℤ} (h : |q| < 2 ^ 53) (hm : 2 ^ lastPlace q / 2 < (m : ℚ) - q) :
    round q < m := by
  have htwo : (0 : ℚ) < 2 ^ lastPlace q := zpow_pos two_pos _
  obtain ⟨d, hd⟩ := exists_mul_place (lastPlace_nonpos h) m
  have hfar : q / 2 ^ lastPlace q + 1 / 2 < d := by
    rw [hd] at hm
    rw [div_add' _ _ _ htwo.ne', div_lt_iff₀ htwo]
    linarith
  have hround : ((roundEven (q / 2 ^ lastPlace q) : ℤ) : ℚ) < d :=
    lt_of_le_of_lt (roundEven_le _) hfar
  rw [round, hd]
  exact mul_lt_mul_of_pos_right hround htwo

/-! ### Quotients -/

/-- What a value is off from an integer above it. -/
theorem lastPlace_le_sub {x : ℚ} {m : ℤ} (hx : round x = x) (hlt : |x| < 2 ^ 53)
    (hm : x < (m : ℚ)) : (2 : ℚ) ^ lastPlace x ≤ m - x := by
  have htwo : (0 : ℚ) < 2 ^ lastPlace x := zpow_pos two_pos _
  obtain ⟨d, hd⟩ := exists_mul_place (lastPlace_nonpos hlt) m
  have hmul : x = roundEven (x / 2 ^ lastPlace x) * 2 ^ lastPlace x := hx.symm
  generalize roundEven (x / 2 ^ lastPlace x) = n at hmul
  rw [hd]
  generalize (2 : ℚ) ^ lastPlace x = e at htwo hmul hd ⊢
  rw [hmul, hd] at hm
  have hn : n < d := by exact_mod_cast lt_of_mul_lt_mul_right hm htwo.le
  have hstep : ((n : ℚ) + 1) ≤ d := by exact_mod_cast hn
  rw [hmul, ← sub_mul]
  calc e = 1 * e := (one_mul e).symm
    _ ≤ ((d : ℚ) - n) * e := mul_le_mul_of_nonneg_right (by linarith) htwo.le

/-- Half of the last place of a quotient is less than the last place of the dividend, divided. -/
theorem lastPlace_div {x : ℚ} (hpos : 0 < x) {n : ℕ} (hn : 0 < n)
    (hnormal : -1074 < lastPlace (x / n)) :
    (2 : ℚ) ^ lastPlace (x / n) / 2 < 2 ^ lastPlace x / n := by
  have hn' : (0 : ℚ) < n := by exact_mod_cast hn
  have hq : 0 < x / n := div_pos hpos hn'
  have hlow : (2 : ℚ) ^ Int.log 2 (x / n) ≤ x / n := Int.zpow_log_le_self (by decide) hq
  have hhigh : x < (2 : ℚ) ^ (Int.log 2 x + 1) := Int.lt_zpow_succ_log_self (by decide) x
  have hplace : lastPlace (x / n) = Int.log 2 (x / n) - 52 := by
    have h := hnormal
    rw [lastPlace, abs_of_pos hq] at h ⊢
    omega
  have hle : Int.log 2 x - 52 ≤ lastPlace x := by
    rw [lastPlace, abs_of_pos hpos]
    exact le_max_left _ _
  rw [hplace, lt_div_iff₀ hn']
  calc (2 : ℚ) ^ (Int.log 2 (x / n) - 52) / 2 * n
      = 2 ^ Int.log 2 (x / n) * n * (2 ^ (-53 : ℤ)) := by
        rw [sub_eq_add_neg, zpow_add₀ two_ne_zero]
        norm_num
        ring
    _ ≤ x / n * n * (2 ^ (-53 : ℤ)) := by gcongr
    _ = x * 2 ^ (-53 : ℤ) := by rw [div_mul_cancel₀ _ hn'.ne']
    _ < 2 ^ (Int.log 2 x + 1) * 2 ^ (-53 : ℤ) := by gcongr
    _ = 2 ^ (Int.log 2 x - 52) := by
      rw [← zpow_add₀ two_ne_zero]
      congr 1
      ring
    _ ≤ 2 ^ lastPlace x := zpow_le_zpow_right₀ one_le_two hle

/-- A quotient keeps its integer part when it is rounded. -/
theorem floor_round_div {x : ℚ} (hx : round x = x) (h0 : 0 ≤ x) (hlt : x < 2 ^ 53) {n : ℕ}
    (hn : 0 < n) : ⌊round (x / n)⌋ = ⌊x / n⌋ := by
  rcases h0.eq_or_lt with rfl | hpos
  · rw [zero_div, round_zero]
  have hn' : (0 : ℚ) < n := by exact_mod_cast hn
  have hn1 : (1 : ℚ) ≤ n := by exact_mod_cast hn
  have hq : 0 < x / n := div_pos hpos hn'
  have hqlt : x / n < 2 ^ 53 := lt_of_le_of_lt (div_le_self h0 hn1) hlt
  have habs : |x / n| < 2 ^ 53 := by rwa [abs_of_pos hq]
  rw [Int.floor_eq_iff]
  refine ⟨le_round habs (Int.floor_le _), ?_⟩
  have hfloor := Int.lt_floor_add_one (x / n)
  have hgoal : round (x / n) < ((⌊x / n⌋ + 1 : ℤ) : ℚ) := by
    apply round_lt habs
    rcases lt_or_eq_of_le (le_max_right (Int.log 2 |x / n| - 52) (-1074)) with hnormal | hsub
    · -- the dividend is off the next multiple by a last place of its own
      refine lt_of_lt_of_le (lastPlace_div hpos hn hnormal) ?_
      have hm : x < ((⌊x / n⌋ + 1) * n : ℤ) := by
        push_cast
        exact (div_lt_iff₀ hn').mp hfloor
      have hoff := lastPlace_le_sub hx (by rwa [abs_of_pos hpos]) hm
      rw [div_le_iff₀ hn', sub_mul, div_mul_cancel₀ _ hn'.ne']
      exact_mod_cast hoff
    · -- the quotient is far below the least normal number
      have hplace : lastPlace (x / n) = -1074 := hsub.symm
      have hlog : Int.log 2 |x / n| - 52 ≤ -1074 := by
        have hle := le_max_left (Int.log 2 |x / n| - 52) (-1074)
        omega
      have hsmall : x / n < 2 ^ (-1021 : ℤ) := by
        have hself := Int.lt_zpow_succ_log_self (b := 2) (by decide) (x / n)
        rw [abs_of_pos hq] at hlog
        refine lt_of_lt_of_le hself ?_
        exact zpow_le_zpow_right₀ (by norm_num) (by omega)
      have hhalf : (2 : ℚ) ^ (-1021 : ℤ) ≤ 1 / 4 := by
        calc (2 : ℚ) ^ (-1021 : ℤ) ≤ 2 ^ (-2 : ℤ) := zpow_le_zpow_right₀ one_le_two (by decide)
          _ = 1 / 4 := by norm_num
      have hzero : ⌊x / n⌋ = 0 := by
        rw [Int.floor_eq_zero_iff]
        exact ⟨hq.le, by linarith⟩
      have heps : (2 : ℚ) ^ (-1074 : ℤ) < 1 := zpow_lt_one_of_neg₀ one_lt_two (by decide)
      rw [hplace, hzero, zero_add, Int.cast_one]
      linarith
  exact_mod_cast hgoal

/-! ### The closest integer -/

theorem abs_round_sub_le (q : ℚ) : |round q - q| ≤ 2 ^ lastPlace q / 2 := by
  have hplace : (0 : ℚ) < 2 ^ lastPlace q := zpow_pos two_pos _
  have hup := roundEven_le (q / 2 ^ lastPlace q)
  have hdown := roundEven_le (-(q / 2 ^ lastPlace q))
  rw [roundEven_neg] at hdown
  push_cast at hdown
  have hq : q = q / 2 ^ lastPlace q * 2 ^ lastPlace q := (div_mul_cancel₀ q hplace.ne').symm
  have heq : round q - q
      = (roundEven (q / 2 ^ lastPlace q) - q / 2 ^ lastPlace q) * 2 ^ lastPlace q := by
    rw [round, sub_mul, ← hq]
  have hsmall : |(roundEven (q / 2 ^ lastPlace q) : ℚ) - q / 2 ^ lastPlace q| ≤ 1 / 2 := by
    rw [abs_le]
    constructor <;> linarith
  rw [heq, abs_mul, abs_of_pos hplace]
  have hmul := mul_le_mul_of_nonneg_right hsmall hplace.le
  linarith

/-- A quotient is rounded by less than half a unit of the divisor. -/
theorem abs_round_div_lt {m : ℤ} {n : ℕ} (hm : |m| < 2 ^ 52) (hpos : 0 < n) (hn : n < 2 ^ 53) :
    |round (m / n : ℚ) - m / n| < 1 / (2 * n) := by
  have hn0 : (0 : ℚ) < n := by exact_mod_cast hpos
  rcases eq_or_ne m 0 with rfl | hne
  · rw [Int.cast_zero, zero_div, round_zero, sub_zero, abs_zero]
    positivity
  have hq : 0 < |(m / n : ℚ)| := by
    rw [abs_pos]
    exact div_ne_zero (by exact_mod_cast hne) hn0.ne'
  have hplace : (2 : ℚ) ^ lastPlace (m / n : ℚ) < 1 / n := by
    rcases le_total (Int.log 2 |(m / n : ℚ)| - 52) (-1074) with hle | hge
    · -- among the least numbers of the format
      have hlarge : (2 : ℚ) ^ 53 < 2 ^ 1074 := pow_lt_pow_right₀ one_lt_two (by decide)
      have hbound : (n : ℚ) < 2 ^ 1074 := lt_trans (by exact_mod_cast hn) hlarge
      rw [lastPlace, max_eq_right hle, zpow_neg, ← one_div]
      exact one_div_lt_one_div_of_lt hn0 (by exact_mod_cast hbound)
    · have hlog : (2 : ℚ) ^ Int.log 2 |(m / n : ℚ)| ≤ |(m / n : ℚ)| := by
        exact_mod_cast Int.zpow_log_le_self (b := 2) (by decide) hq
      have habs : |(m / n : ℚ)| < 2 ^ 52 / n := by
        rw [abs_div, abs_of_pos hn0]
        exact div_lt_div_of_pos_right (by exact_mod_cast hm) hn0
      rw [lastPlace, max_eq_left hge, zpow_sub₀ two_ne_zero]
      calc (2 : ℚ) ^ Int.log 2 |(m / n : ℚ)| / 2 ^ (52 : ℤ)
          ≤ |(m / n : ℚ)| / 2 ^ (52 : ℤ) := by gcongr
        _ < 2 ^ 52 / n / 2 ^ (52 : ℤ) := by gcongr
        _ = 1 / n := by
          rw [div_right_comm]
          norm_num
  calc |round (m / n : ℚ) - m / n| ≤ 2 ^ lastPlace (m / n : ℚ) / 2 := abs_round_sub_le _
    _ < 1 / n / 2 := by gcongr
    _ = 1 / (2 * n) := by rw [div_div, mul_comm]

/-- An odd divisor leaves no half, so the quotient is rounded to the closest integer although it
    is rounded to a number first. -/
theorem floor_round_half {m : ℤ} {n : ℕ} (hm : |m| < 2 ^ 52) (hodd : n % 2 = 1) (hn : n < 2 ^ 53) :
    ⌊round (m / n : ℚ) + 1 / 2⌋ = (2 * m + n) / (2 * n) := by
  have hn0 : (0 : ℚ) < n := by exact_mod_cast (by omega : 0 < n)
  obtain ⟨hlow, hhigh⟩ := abs_lt.mp (abs_round_div_lt hm (by omega) hn)
  have hdiv := Int.mul_ediv_add_emod (2 * m + n) (2 * n)
  have hmod0 := Int.emod_nonneg (2 * m + n) (by omega : 2 * (n : ℤ) ≠ 0)
  have hmod1 := Int.emod_lt_of_pos (2 * m + n) (by omega : 0 < 2 * (n : ℤ))
  generalize (2 * m + n) / (2 * (n : ℤ)) = z at hdiv ⊢
  -- the remainder is odd
  have hrem : 1 ≤ (2 * m + n) % (2 * n) ∧ (2 * m + n) % (2 * n) ≤ 2 * n - 1 := by
    have hparity : (2 * m + n) % (2 * (n : ℤ)) % 2 = 1 := by
      rw [Int.emod_emod_of_dvd _ (Int.dvd_mul_right 2 _)]
      omega
    omega
  generalize (2 * m + n) % (2 * (n : ℤ)) = r at hdiv hrem
  have hvalue : (m / n : ℚ) + 1 / 2 = z + r / (2 * n) := by
    have hcast : (2 * n : ℚ) * z + r = 2 * m + n := by exact_mod_cast hdiv
    field_simp
    linarith
  have hr1 : 1 / (2 * n : ℚ) ≤ r / (2 * n) := by
    gcongr
    exact_mod_cast hrem.1
  have hr2 : (r / (2 * n) : ℚ) ≤ 1 - 1 / (2 * n) := by
    have hcast : (r : ℚ) ≤ 2 * n - 1 := by exact_mod_cast hrem.2
    rw [div_le_iff₀ (by positivity), sub_mul, one_div_mul_cancel (by positivity)]
    linarith
  rw [Int.floor_eq_iff]
  constructor <;> linarith

/-! ### Integer parts -/

/-- A number whose integer part is `a`. -/
def FloorsTo (x : JsNumber) (a : ℕ) : Prop :=
  ∃ y : Double, x = .fin y ∧ 0 ≤ y.val ∧ y.val < 2 ^ 53 ∧ ⌊y.val⌋ = a

theorem ofNat_eq {a : ℕ} (ha : |(a : ℤ)| ≤ 2 ^ 53) : ofNat a = .fin (.ofInt a ha) :=
  ofRat_intCast ha

theorem abs_le_of_lt {a : ℕ} (ha : a < 2 ^ 53) : |(a : ℤ)| ≤ 2 ^ 53 := by
  rw [Nat.abs_cast]
  exact_mod_cast ha.le

theorem floorsTo_ofNat {a : ℕ} (ha : a < 2 ^ 53) : FloorsTo (ofNat a) a := by
  refine ⟨.ofInt a (abs_le_of_lt ha), ofNat_eq _, ?_, ?_, ?_⟩
  · show (0 : ℚ) ≤ ((a : ℤ) : ℚ)
    positivity
  · show ((a : ℤ) : ℚ) < 2 ^ 53
    exact_mod_cast ha
  · exact Int.floor_intCast _

/-- Divided by an integer, what a number is rounded down to is divided. -/
theorem FloorsTo.div {x : JsNumber} {a n : ℕ} (h : FloorsTo x a) (hn : 0 < n) (hlt : n < 2 ^ 53) :
    FloorsTo (div x (ofNat n)) (a / n) := by
  obtain ⟨y, rfl, h0, hy, hfloor⟩ := h
  have hn' : (0 : ℚ) < n := by exact_mod_cast hn
  have hn1 : (1 : ℚ) ≤ n := by exact_mod_cast hn
  have hq0 : 0 ≤ y.val / n := div_nonneg h0 hn'.le
  have hq : |y.val / n| < 2 ^ 53 := by
    rw [abs_of_nonneg hq0]
    exact lt_of_le_of_lt (div_le_self h0 hn1) hy
  have hround := floor_round_div y.exact h0 hy hn
  have hlow : 0 ≤ round (y.val / n) := by
    have hle := @le_round _ 0 hq (by exact_mod_cast hq0)
    exact_mod_cast hle
  -- rounding stays below the next integer, which is at most 2^53
  have hhigh : round (y.val / n) < 2 ^ 53 := by
    have hup := Int.lt_floor_add_one (round (y.val / n))
    rw [hround] at hup
    have hle : ⌊y.val / n⌋ < 2 ^ 53 := by
      rw [Int.floor_lt]
      rw [abs_of_nonneg hq0] at hq
      exact_mod_cast hq
    have hcast : ((⌊y.val / n⌋ : ℤ) : ℚ) + 1 ≤ 2 ^ 53 := by exact_mod_cast hle
    linarith
  have hfin : |round (y.val / n)| < 2 ^ 1024 := by
    rw [abs_of_nonneg hlow]
    exact hhigh.trans (pow_lt_pow_right₀ one_lt_two (by decide))
  refine ⟨⟨_, round_round _, hfin⟩, ?_, hlow, hhigh, ?_⟩
  · have hne : ((n : ℤ) : ℚ) ≠ 0 := by exact_mod_cast hn.ne'
    rw [ofNat_eq (abs_le_of_lt hlt), JsNumber.div]
    show (if ((n : ℤ) : ℚ) = 0 then _ else ofRat (y.val / ((n : ℤ) : ℚ))) = _
    rw [if_neg hne, Int.cast_natCast, ofRat, dif_pos hfin]
  · show ⌊round (y.val / n)⌋ = _
    rw [hround, Int.floor_div_natCast, hfloor, Int.natCast_div]

theorem FloorsTo.floor {x : JsNumber} {a : ℕ} (h : FloorsTo x a) : floor x = ofNat a := by
  obtain ⟨y, rfl, h0, hy, hfloor⟩ := h
  have hle : |(a : ℤ)| ≤ 2 ^ 53 := by
    rw [← hfloor, abs_le]
    constructor
    · rw [Int.le_floor]
      push_cast
      linarith
    · exact (Int.floor_lt.mpr (by exact_mod_cast hy)).le
  rw [ofNat_eq hle, JsNumber.floor]
  refine congrArg _ (Double.ext ?_)
  show ((⌊y.val⌋ : ℤ) : ℚ) = ((a : ℤ) : ℚ)
  rw [hfloor]

end JsNumber
