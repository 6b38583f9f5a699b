import Mathlib.Algebra.Order.Field.Power
import Mathlib.Data.Int.Log
import Mathlib.Data.Rat.Floor
import Mathlib.Tactic.Linarith
import Mathlib.Tactic.Ring
import Argus.Lib.JsText

/-!
# Numbers as ECMAScript treats them

The finite numbers are the values of binary64, as rationals; the two zeros are one value.

* `round` — the nearest value with 53 significant bits, ties to even; `round_round`.
* `Double` — a value of the format; `JsNumber` — one of them, an infinity, or `NaN`;
  `le`, `max`, `min`, `add`, `mul` and `Double.floor` as the language has them.
* `ofText` — `StringToNumber`: decimal literals with fraction and exponent, the other three
  radices, `Infinity`, the blank text as zero, and `NaN` for everything else.
* `toText` — `Number::toString`: the shortest digits that are read back as the number.
* `ofText_toText` — what is printed is read back.
-/

namespace JsNumber

/-! ### Rounding -/

/-- The nearest integer, of two the even one. -/
def roundEven (q : ℚ) : ℤ :=
  let n := ⌊q⌋
  if q - n < 1 / 2 then n
  else if 1 / 2 < q - n then n + 1
  else if n % 2 = 0 then n
  else n + 1

theorem roundEven_intCast (n : ℤ) : roundEven n = n := by
  simp [roundEven]

theorem floor_le_roundEven (q : ℚ) : ⌊q⌋ ≤ roundEven q := by
  unfold roundEven
  dsimp only
  split_ifs <;> omega

theorem roundEven_le_floor_add_one (q : ℚ) : roundEven q ≤ ⌊q⌋ + 1 := by
  unfold roundEven
  dsimp only
  split_ifs <;> omega

/-- The exponent of the last place of a value: 53 significant bits, and never below that of
    the subnormal numbers. -/
def lastPlace (q : ℚ) : ℤ := max (Int.log 2 |q| - 52) (-1074)

/-- The nearest value of the format, regardless of its greatest one. -/
def round (q : ℚ) : ℚ := roundEven (q / 2 ^ lastPlace q) * 2 ^ lastPlace q

theorem roundEven_neg (q : ℚ) : roundEven (-q) = -roundEven q := by
  by_cases hint : ∃ n : ℤ, q = n
  · obtain ⟨n, rfl⟩ := hint
    rw [← Int.cast_neg, roundEven_intCast, roundEven_intCast]
  · -- the fraction of the opposite number is what is missing to one
    have hfloor : ⌊-q⌋ = -⌊q⌋ - 1 := by
      rw [Int.floor_eq_iff]
      have hle := Int.floor_le q
      have hlt := Int.lt_floor_add_one q
      have hne : (⌊q⌋ : ℚ) ≠ q := fun h => hint ⟨⌊q⌋, h.symm⟩
      have hlt' : (⌊q⌋ : ℚ) < q := lt_of_le_of_ne hle hne
      push_cast
      constructor <;> linarith
    unfold roundEven
    dsimp only
    rw [hfloor]
    push_cast
    split_ifs <;> first | omega | (exfalso; linarith)

theorem round_neg (q : ℚ) : round (-q) = -round q := by
  have hplace : lastPlace (-q) = lastPlace q := by rw [lastPlace, lastPlace, abs_neg]
  rw [round, round, hplace, neg_div, roundEven_neg, Int.cast_neg, neg_mul]

/-- Nothing is lost of a value whose last place holds no fraction. -/
theorem round_eq_self {q : ℚ} {m : ℤ} (h : q = m * 2 ^ lastPlace q) : round q = q := by
  have hne : (2 : ℚ) ^ lastPlace q ≠ 0 := zpow_ne_zero _ two_ne_zero
  have hdiv : q / 2 ^ lastPlace q = m := by
    rw [div_eq_iff hne]
    exact h
  rw [round, hdiv, roundEven_intCast, ← h]

theorem round_zero : round 0 = 0 :=
  round_eq_self (m := 0) (by simp)

private theorem round_mul_of_lt {m e : ℤ} (hm : |m| < 2 ^ 53) (he : -1074 ≤ e) :
    round (m * 2 ^ e) = m * 2 ^ e := by
  rcases eq_or_ne m 0 with rfl | hne
  · simpa using round_zero
  have htwo : (0 : ℚ) < 2 ^ e := zpow_pos two_pos _
  have habs : |(m * 2 ^ e : ℚ)| = |(m : ℚ)| * 2 ^ e := by
    rw [abs_mul, abs_of_pos htwo]
  have hpos : 0 < |(m * 2 ^ e : ℚ)| := by
    rw [habs]
    exact mul_pos (abs_pos.mpr (Int.cast_ne_zero.mpr hne)) htwo
  -- the value has its leading bit below place `e + 53`
  have hlog : Int.log 2 |(m * 2 ^ e : ℚ)| < e + 53 := by
    rw [← Int.lt_zpow_iff_log_lt (by decide) hpos, habs]
    have hcast : |(m : ℚ)| < 2 ^ 53 := by exact_mod_cast hm
    calc |(m : ℚ)| * 2 ^ e < 2 ^ 53 * 2 ^ e := mul_lt_mul_of_pos_right hcast htwo
      _ = ((2 : ℕ) : ℚ) ^ (e + 53) := by
        rw [Nat.cast_ofNat, zpow_add₀ two_ne_zero, mul_comm]
        norm_num
  have hplace : lastPlace (m * 2 ^ e : ℚ) ≤ e := max_le (by omega) he
  obtain ⟨d, hd⟩ := Int.eq_ofNat_of_zero_le (sub_nonneg.mpr hplace)
  refine round_eq_self (m := m * 2 ^ d) ?_
  have hsplit : e = d + lastPlace (m * 2 ^ e : ℚ) := by omega
  rw [Int.cast_mul, Int.cast_pow, Int.cast_ofNat, mul_assoc, ← zpow_natCast,
    ← zpow_add₀ two_ne_zero, ← hsplit]

/-- An integer of up to 53 bits in some place is a value of the format. -/
theorem round_mul {m e : ℤ} (hm : |m| ≤ 2 ^ 53) (he : -1074 ≤ e) :
    round (m * 2 ^ e) = m * 2 ^ e := by
  rcases lt_or_eq_of_le hm with hlt | heq
  · exact round_mul_of_lt hlt he
  -- the next power of two has a shorter form, one place up
  obtain ⟨n, hn, hnlt⟩ : ∃ n : ℤ, m = 2 * n ∧ |n| < 2 ^ 53 := by
    rcases abs_choice m with h | h
    · exact ⟨2 ^ 52, by omega, by norm_num⟩
    · exact ⟨-2 ^ 52, by omega, by norm_num⟩
  have hform : (m * 2 ^ e : ℚ) = n * 2 ^ (e + 1) := by
    rw [hn, zpow_add_one₀ two_ne_zero]
    push_cast
    ring
  rw [hform]
  exact round_mul_of_lt hnlt (by omega)

theorem round_intCast {n : ℤ} (h : |n| ≤ 2 ^ 53) : round n = n := by
  have h0 := round_mul (e := 0) h (by decide)
  rwa [zpow_zero, mul_one] at h0

theorem abs_div_lt (q : ℚ) : |q / 2 ^ lastPlace q| < 2 ^ 53 := by
  have htwo : (0 : ℚ) < 2 ^ lastPlace q := zpow_pos two_pos _
  rw [abs_div, abs_of_pos htwo, div_lt_iff₀ htwo]
  have hlog : |q| < ((2 : ℕ) : ℚ) ^ (Int.log 2 |q| + 1) := Int.lt_zpow_succ_log_self (by decide) _
  have hplace : Int.log 2 |q| + 1 ≤ 53 + lastPlace q := by
    have hle : Int.log 2 |q| - 52 ≤ lastPlace q := le_max_left _ _
    omega
  calc |q| < (2 : ℚ) ^ (Int.log 2 |q| + 1) := by exact_mod_cast hlog
    _ ≤ 2 ^ (53 + lastPlace q) := zpow_le_zpow_right₀ one_le_two hplace
    _ = 2 ^ 53 * 2 ^ lastPlace q := by
      rw [zpow_add₀ two_ne_zero]
      norm_num

/-- Rounding leaves a value of the format. -/
theorem round_round (q : ℚ) : round (round q) = round q := by
  have hlt := abs_lt.mp (abs_div_lt q)
  have hfloor : -2 ^ 53 ≤ ⌊q / 2 ^ lastPlace q⌋ := by
    rw [Int.le_floor]
    exact_mod_cast hlt.1.le
  have hceil : ⌊q / 2 ^ lastPlace q⌋ < 2 ^ 53 := by
    rw [Int.floor_lt]
    exact_mod_cast hlt.2
  have hlow := floor_le_roundEven (q / 2 ^ lastPlace q)
  have hhigh := roundEven_le_floor_add_one (q / 2 ^ lastPlace q)
  have habs : |roundEven (q / 2 ^ lastPlace q)| ≤ 2 ^ 53 := abs_le.mpr ⟨by omega, by omega⟩
  exact round_mul habs (le_max_right _ _)

end JsNumber

/-! ### Values -/

/-- A finite number. -/
structure Double where
  val : ℚ
  exact : JsNumber.round val = val
  finite : |val| < 2 ^ 1024
deriving DecidableEq

inductive JsNumber
  | nan
  | inf (negative : Bool)
  | fin (x : Double)
deriving DecidableEq

/-- An integer of up to 53 bits. -/
def Double.ofInt (n : ℤ) (h : |n| ≤ 2 ^ 53) : Double where
  val := n
  exact := JsNumber.round_intCast h
  finite := by
    have hcast : |(n : ℚ)| ≤ 2 ^ 53 := by exact_mod_cast h
    exact lt_of_le_of_lt hcast (pow_lt_pow_right₀ one_lt_two (by decide))

def Double.neg (x : Double) : Double where
  val := -x.val
  exact := by rw [JsNumber.round_neg, x.exact]
  finite := by
    rw [abs_neg]
    exact x.finite

theorem Double.ext {x y : Double} (h : x.val = y.val) : x = y := by
  obtain ⟨_, _, _⟩ := x
  obtain ⟨_, _, _⟩ := y
  cases h
  rfl

namespace JsNumber

/-- A rational in the format; what is beyond the greatest value is an infinity. -/
def ofRat (q : ℚ) : JsNumber :=
  if h : |round q| < 2 ^ 1024 then .fin ⟨round q, round_round q, h⟩ else .inf (decide (q < 0))

/-- A rational that is rounded to a value of the format. -/
theorem ofRat_of_round {q : ℚ} {x : Double} (h : round q = x.val) : ofRat q = .fin x := by
  have hfinite : |round q| < 2 ^ 1024 := by
    rw [h]
    exact x.finite
  rw [ofRat, dif_pos hfinite]
  exact congrArg _ (Double.ext h)

theorem ofRat_val (x : Double) : ofRat x.val = .fin x :=
  ofRat_of_round x.exact

/-! ### Comparison -/

def ofNat (n : ℕ) : JsNumber := ofRat n

/-- `x <= y`. -/
def le : JsNumber → JsNumber → Bool
  | .nan, _ => false
  | _, .nan => false
  | .inf true, _ => true
  | _, .inf false => true
  | .inf false, _ => false
  | _, .inf true => false
  | .fin x, .fin y => decide (x.val ≤ y.val)

/-- `Math.max(x, y)`. -/
def max (x y : JsNumber) : JsNumber :=
  if x = .nan ∨ y = .nan then .nan else if le x y then y else x

/-- `Math.min(x, y)`. -/
def min (x y : JsNumber) : JsNumber :=
  if x = .nan ∨ y = .nan then .nan else if le x y then x else y

theorem le_fin {a x : Double} (h : a.val ≤ x.val) : le (.fin a) (.fin x) = true :=
  decide_eq_true h

theorem max_fin (a x : Double) :
    max (.fin a) (.fin x) = if a.val ≤ x.val then .fin x else .fin a := by
  simp only [max, le, reduceCtorEq, or_self, if_false, decide_eq_true_eq]

theorem min_fin (b x : Double) :
    min (.fin b) (.fin x) = if b.val ≤ x.val then .fin b else .fin x := by
  simp only [min, le, reduceCtorEq, or_self, if_false, decide_eq_true_eq]

/-- A number is its own maximum with a bound it reaches. -/
theorem max_eq_right_iff {a : Double} {y : JsNumber} :
    max (.fin a) y = y ↔ y = .nan ∨ le (.fin a) y = true := by
  cases y with
  | nan => simp [max]
  | inf negative => cases negative <;> simp [max, le]
  | fin y =>
    rw [max_fin]
    simp only [le, reduceCtorEq, decide_eq_true_eq, false_or]
    split
    · next h => simp [h]
    · next h =>
      refine iff_of_false (fun heq => h ?_) h
      rw [fin.inj heq]

/-- A number between two bounds is its own cut. -/
theorem clamp_eq_self_iff {a b : Double} (hab : a.val ≤ b.val) {y : JsNumber} :
    min (.fin b) (max (.fin a) y) = y ↔
      y = .nan ∨ le (.fin a) y = true ∧ le y (.fin b) = true := by
  cases y with
  | nan => simp [max, min]
  | inf negative =>
    cases negative with
    | false => simp [max, min, le]
    | true =>
      have hmax : max (.fin a) (.inf true) = .fin a := by simp [max, le]
      rw [hmax, min_fin]
      split <;> simp [le]
  | fin y =>
    rw [max_fin]
    simp only [le, reduceCtorEq, decide_eq_true_eq, false_or]
    by_cases hlow : a.val ≤ y.val
    · rw [if_pos hlow, min_fin]
      by_cases hhigh : b.val ≤ y.val
      · rw [if_pos hhigh]
        refine ⟨fun heq => ⟨hlow, by rw [fin.inj heq]⟩, fun h => ?_⟩
        exact congrArg _ (Double.ext (le_antisymm hhigh h.2))
      · rw [if_neg hhigh]
        exact iff_of_true rfl ⟨hlow, (not_le.mp hhigh).le⟩
    · rw [if_neg hlow, min_fin]
      refine iff_of_false (fun heq => hlow ?_) (fun h => hlow h.1)
      split at heq
      · rw [← fin.inj heq]
        exact hab
      · rw [← fin.inj heq]

theorem ofRat_intCast {n : ℤ} (h : |n| ≤ 2 ^ 53) : ofRat n = .fin (.ofInt n h) :=
  ofRat_of_round (round_intCast h)

theorem ofRat_zero : ofRat 0 = .fin (.ofInt 0 (by decide)) :=
  ofRat_of_round (by simp [round_zero, Double.ofInt])

/-- A value is an integer, or small enough that every integer near it is a value. -/
theorem floor_cases (x : Double) : (⌊x.val⌋ : ℚ) = x.val ∨ |⌊x.val⌋| ≤ 2 ^ 53 := by
  rcases le_or_gt 0 (lastPlace x.val) with hplace | hplace
  · -- no place below the point
    obtain ⟨d, hd⟩ := Int.eq_ofNat_of_zero_le hplace
    have hint : x.val = (roundEven (x.val / 2 ^ lastPlace x.val) * 2 ^ d : ℤ) := by
      rw [Int.cast_mul, Int.cast_pow, Int.cast_ofNat, ← zpow_natCast, ← hd]
      exact x.exact.symm
    left
    rw [hint, Int.floor_intCast]
  · have hlt := abs_div_lt x.val
    have htwo : (0 : ℚ) < 2 ^ lastPlace x.val := zpow_pos two_pos _
    rw [abs_div, abs_of_pos htwo, div_lt_iff₀ htwo] at hlt
    have hle : (2 : ℚ) ^ lastPlace x.val ≤ 1 := zpow_le_one_of_nonpos₀ one_le_two hplace.le
    have habs : |x.val| < 2 ^ 53 := by
      calc |x.val| < 2 ^ 53 * 2 ^ lastPlace x.val := hlt
        _ ≤ 2 ^ 53 * 1 := mul_le_mul_of_nonneg_left hle (by positivity)
        _ = 2 ^ 53 := mul_one _
    obtain ⟨hlow, hhigh⟩ := abs_lt.mp habs
    right
    refine abs_le.mpr ⟨?_, ?_⟩
    · rw [Int.le_floor]
      exact_mod_cast hlow.le
    · exact (Int.floor_lt.mpr (by exact_mod_cast hhigh)).le

end JsNumber

/-- `Math.floor(x)`. -/
def Double.floor (x : Double) : Double where
  val := ⌊x.val⌋
  exact := by
    rcases JsNumber.floor_cases x with h | h
    · rw [h]
      exact x.exact
    · exact JsNumber.round_intCast h
  finite := by
    rcases JsNumber.floor_cases x with h | h
    · rw [h]
      exact x.finite
    · exact (Double.ofInt _ h).finite

/-- The integer part of a number, towards zero. -/
def Double.trunc (x : Double) : Double := if 0 ≤ x.val then x.floor else x.neg.floor.neg

theorem Double.trunc_ofInt (n : ℤ) (h : |n| ≤ 2 ^ 53) :
    (Double.ofInt n h).trunc = Double.ofInt n h := by
  unfold Double.trunc
  apply Double.ext
  split
  · simp [Double.floor, Double.ofInt]
  · have hfloor : ⌊-(n : ℚ)⌋ = -n := by rw [← Int.cast_neg, Int.floor_intCast]
    rw [Double.neg, Double.floor, Double.neg, Double.ofInt]
    dsimp only
    rw [hfloor, Int.cast_neg, neg_neg]

namespace JsNumber

/-! ### Arithmetic -/

/-- `x + y`. -/
def add : JsNumber → JsNumber → JsNumber
  | .nan, _ | _, .nan => .nan
  | .inf a, .inf b => if a = b then .inf a else .nan
  | .inf a, .fin _ => .inf a
  | .fin _, .inf b => .inf b
  | .fin x, .fin y => ofRat (x.val + y.val)

/-- `x * y`. -/
def mul : JsNumber → JsNumber → JsNumber
  | .nan, _ | _, .nan => .nan
  | .inf a, .inf b => .inf (a != b)
  | .inf a, .fin y => if y.val = 0 then .nan else .inf (a != decide (y.val < 0))
  | .fin x, .inf b => if x.val = 0 then .nan else .inf (b != decide (x.val < 0))
  | .fin x, .fin y => ofRat (x.val * y.val)

/-- `x === y`, for two numbers. -/
def strictEq (x y : JsNumber) : Bool := decide (x ≠ .nan ∧ x = y)

theorem add_ofInt {m n : ℤ} (hm : |m| ≤ 2 ^ 53) (hn : |n| ≤ 2 ^ 53) (h : |m + n| ≤ 2 ^ 53) :
    add (.fin (.ofInt m hm)) (.fin (.ofInt n hn)) = .fin (.ofInt (m + n) h) := by
  rw [add, Double.ofInt, Double.ofInt]
  dsimp only
  rw [← Int.cast_add, ofRat_intCast h]

theorem abs_min_le {m n : ℤ} (hm : |m| ≤ 2 ^ 53) (hn : |n| ≤ 2 ^ 53) : |Min.min m n| ≤ 2 ^ 53 := by
  rcases min_choice m n with h | h
  · rwa [h]
  · rwa [h]

theorem min_ofInt {m n : ℤ} (hm : |m| ≤ 2 ^ 53) (hn : |n| ≤ 2 ^ 53) :
    min (.fin (.ofInt m hm)) (.fin (.ofInt n hn))
      = .fin (.ofInt (Min.min m n) (abs_min_le hm hn)) := by
  rw [min_fin]
  simp only [Double.ofInt, Int.cast_le]
  split
  · next h => simp only [min_eq_left h]
  · next h => simp only [min_eq_right (not_le.mp h).le]

theorem strictEq_ofInt {m n : ℤ} (hm : |m| ≤ 2 ^ 53) (hn : |n| ≤ 2 ^ 53) :
    strictEq (.fin (.ofInt m hm)) (.fin (.ofInt n hn)) = decide (m = n) := by
  simp [strictEq, Double.ofInt]

theorem mul_ofInt {m n : ℤ} (hm : |m| ≤ 2 ^ 53) (hn : |n| ≤ 2 ^ 53) (h : |m * n| ≤ 2 ^ 53) :
    mul (.fin (.ofInt m hm)) (.fin (.ofInt n hn)) = .fin (.ofInt (m * n) h) := by
  rw [mul, Double.ofInt, Double.ofInt]
  dsimp only
  rw [← Int.cast_mul, ofRat_intCast h]

/-! Differences of integers have their sign, whatever is lost. -/

/-- `-x`. -/
def neg : JsNumber → JsNumber
  | .nan => .nan
  | .inf a => .inf (!a)
  | .fin x => .fin x.neg

/-- `x - y`. -/
def sub (x y : JsNumber) : JsNumber := add x (neg y)

/-- `x < 0`. -/
def isNegative : JsNumber → Bool
  | .nan => false
  | .inf a => a
  | .fin x => decide (x.val < 0)

theorem round_pos {q : ℚ} (h : 1 ≤ q) : 0 < round q := by
  have hpos : 0 < q := lt_of_lt_of_le one_pos h
  have htwo : (0 : ℚ) < 2 ^ lastPlace q := zpow_pos two_pos _
  have hlog : 0 ≤ Int.log 2 |q| := by
    rw [abs_of_pos hpos, Int.log_of_one_le_right 2 h]
    exact Int.natCast_nonneg _
  -- the last place is not above the first one
  have hplace : (2 : ℚ) ^ lastPlace q ≤ q := by
    have hle : lastPlace q ≤ Int.log 2 |q| := max_le (by omega) (by omega)
    calc (2 : ℚ) ^ lastPlace q ≤ 2 ^ Int.log 2 |q| := zpow_le_zpow_right₀ one_le_two hle
      _ ≤ q := by
        have hself := Int.zpow_log_le_self (b := 2) (by decide) hpos
        rw [abs_of_pos hpos]
        exact_mod_cast hself
  have hfloor : 1 ≤ ⌊q / 2 ^ lastPlace q⌋ := by
    rw [Int.le_floor, le_div_iff₀ htwo]
    simpa using hplace
  have heven := floor_le_roundEven (q / 2 ^ lastPlace q)
  have hcast : (0 : ℚ) < roundEven (q / 2 ^ lastPlace q) := by
    exact_mod_cast lt_of_lt_of_le one_pos (hfloor.trans heven)
  exact mul_pos hcast htwo

theorem round_ne_zero {q : ℚ} (h : 1 ≤ |q|) : round q ≠ 0 := by
  rcases abs_choice q with habs | habs
  · rw [habs] at h
    exact (round_pos h).ne'
  · rw [habs] at h
    have hpos := round_pos h
    rw [round_neg] at hpos
    exact (neg_pos.mp hpos).ne

theorem round_lt_zero_iff {q : ℚ} (h : 1 ≤ |q|) : round q < 0 ↔ q < 0 := by
  rcases abs_choice q with habs | habs
  · rw [habs] at h
    exact iff_of_false (not_lt.mpr (round_pos h).le) (not_lt.mpr (zero_le_one.trans h))
  · rw [habs] at h
    have hpos := round_pos h
    rw [round_neg] at hpos
    exact iff_of_true (neg_pos.mp hpos) (neg_pos.mp (zero_lt_one.trans_le h))

theorem strictEq_ofRat_zero {q : ℚ} (h : 1 ≤ |q|) : strictEq (ofRat q) (ofRat 0) = false := by
  have hround := round_ne_zero h
  rw [ofRat_zero, ofRat, strictEq, decide_eq_false_iff_not]
  rintro ⟨-, heq⟩
  split at heq
  · have hval := congrArg Double.val (fin.inj heq)
    rw [Double.ofInt] at hval
    exact hround (by exact_mod_cast hval)
  · cases heq

theorem isNegative_ofRat {q : ℚ} (h : 1 ≤ |q|) : isNegative (ofRat q) = decide (q < 0) := by
  rw [ofRat]
  split
  · exact decide_eq_decide.mpr (round_lt_zero_iff h)
  · rfl

theorem sub_fin (x y : Double) : sub (.fin x) (.fin y) = ofRat (x.val - y.val) := by
  rw [sub, neg, add, Double.neg, ← sub_eq_add_neg]

/-- A natural number is rounded to one. -/
theorem round_natCast (n : ℕ) : ∃ m : ℕ, round n = m := by
  by_cases hsmall : (n : ℤ) ≤ 2 ^ 53
  · have habs : |(n : ℤ)| ≤ 2 ^ 53 := by rwa [abs_of_nonneg (Int.natCast_nonneg n)]
    have hround := round_intCast habs
    rw [Int.cast_natCast] at hround
    exact ⟨n, hround⟩
  · have hpos : (0 : ℚ) < n := by
      have hlt : 0 < n := by omega
      exact_mod_cast hlt
    have hone : (1 : ℚ) ≤ n := by exact_mod_cast hpos
    have hplace : 0 ≤ lastPlace (n : ℚ) := by
      have hlog : (53 : ℤ) ≤ Int.log 2 |(n : ℚ)| := by
        rw [← Int.zpow_le_iff_le_log (by decide) (abs_pos.mpr hpos.ne'), abs_of_pos hpos]
        have hle : (2 ^ 53 : ℤ) ≤ n := (not_le.mp hsmall).le
        exact_mod_cast hle
      exact le_max_of_le_left (by omega)
    obtain ⟨d, hd⟩ := Int.eq_ofNat_of_zero_le hplace
    have hnonneg : 0 ≤ roundEven ((n : ℚ) / 2 ^ lastPlace (n : ℚ)) := by
      refine le_trans ?_ (floor_le_roundEven _)
      exact Int.floor_nonneg.mpr (div_nonneg hpos.le (zpow_pos two_pos _).le)
    obtain ⟨k, hk⟩ := Int.eq_ofNat_of_zero_le hnonneg
    refine ⟨k * 2 ^ d, ?_⟩
    rw [round, hk, Nat.cast_mul, Nat.cast_pow, Nat.cast_ofNat, ← zpow_natCast, ← hd]
    rfl

/-! ### Reading -/

/-- The exponent part of a literal, which may be missing. -/
def exponentPart : List Char → Option ℤ
  | [] => some 0
  | c :: cs =>
    if c = 'e' ∨ c = 'E' then
      match cs with
      | '-' :: ds =>
        if !ds.isEmpty && ds.all Char.isDigit then some (-(Nat.ofDigitChars 10 ds 0 : ℤ)) else none
      | '+' :: ds =>
        if !ds.isEmpty && ds.all Char.isDigit then some (Nat.ofDigitChars 10 ds 0) else none
      | ds =>
        if !ds.isEmpty && ds.all Char.isDigit then some (Nat.ofDigitChars 10 ds 0) else none
    else none

/-- The fraction digits of a literal, and what follows them. -/
def fractionPart : List Char → List Char × List Char
  | '.' :: cs => (cs.takeWhile Char.isDigit, cs.dropWhile Char.isDigit)
  | cs => ([], cs)

/-- The value of a decimal literal without a sign: digits on at least one side of the point. -/
def unsignedDecimal (cs : List Char) : Option ℚ :=
  let whole := cs.takeWhile Char.isDigit
  let part := fractionPart (cs.dropWhile Char.isDigit)
  if whole.isEmpty && part.1.isEmpty then none
  else (exponentPart part.2).map (fun (e : ℤ) =>
    (Nat.ofDigitChars 10 (whole ++ part.1) 0 : ℚ) * 10 ^ (e - (part.1.length : ℤ)))

def signedDecimal : List Char → Option ℚ
  | '-' :: cs => (unsignedDecimal cs).map (- ·)
  | '+' :: cs => unsignedDecimal cs
  | cs => unsignedDecimal cs

/-- The value of a digit of any radix up to sixteen. -/
def digitValue (c : Char) : ℕ :=
  if c.isDigit then c.toNat - 48
  else if 'a' ≤ c ∧ c ≤ 'f' then c.toNat - 87
  else if 'A' ≤ c ∧ c ≤ 'F' then c.toNat - 55
  else 16

/-- The digits behind a radix mark. -/
def radixLiteral (radix : ℕ) (cs : List Char) : JsNumber :=
  if !cs.isEmpty && cs.all (fun c => digitValue c < radix) then
    ofRat (cs.foldl (fun n c => n * radix + digitValue c) 0 : ℕ)
  else .nan

/-- The literals that are not decimal. -/
def otherLiteral : List Char → JsNumber
  | '0' :: 'x' :: cs | '0' :: 'X' :: cs => radixLiteral 16 cs
  | '0' :: 'o' :: cs | '0' :: 'O' :: cs => radixLiteral 8 cs
  | '0' :: 'b' :: cs | '0' :: 'B' :: cs => radixLiteral 2 cs
  | ['I', 'n', 'f', 'i', 'n', 'i', 't', 'y'] | ['+', 'I', 'n', 'f', 'i', 'n', 'i', 't', 'y'] =>
    .inf false
  | ['-', 'I', 'n', 'f', 'i', 'n', 'i', 't', 'y'] => .inf true
  | _ => .nan

/-- A text between its white space. -/
def ofChars (cs : List Char) : JsNumber :=
  if cs.isEmpty then ofRat 0
  else match signedDecimal cs with
    | some q => ofRat q
    | none => otherLiteral cs

/-- `Number(s)` for a text. -/
def ofText (s : String) : JsNumber := ofChars (JsText.trimChars s.toList)

/-- `parseFloat(s)` where it is finite: the longest literal at the start of the text. -/
def parseFinite (s : String) : Option Double :=
  match (s.toList.dropWhile JsText.isSpace).inits.reverse.findSome? signedDecimal with
  | some q => match ofRat q with
    | .fin x => some x
    | _ => none
  | none => none

/-! ### Printing -/

/-- `s · 10^p`. -/
def decimalValue (d : ℕ × ℤ) : ℚ := d.1 * 10 ^ d.2

/-- The decimals of `k` digits next to `x`, the one not above it first. -/
def around (x : ℚ) (k : ℕ) : (ℕ × ℤ) × (ℕ × ℤ) :=
  let p := Int.log 10 x + 1 - k
  let s := ⌊x / 10 ^ p⌋₊
  ((s, p), if s + 1 = 10 ^ k then (10 ^ (k - 1), p + 1) else (s + 1, p))

/-- The decimal of `k` digits that is read back as `x`; of two the closer one, and then the
    even one. -/
def withDigits (x : ℚ) (k : ℕ) : Option (ℕ × ℤ) :=
  let (lo, hi) := around x k
  if round (decimalValue lo) = x then
    if round (decimalValue hi) = x ∧ (decimalValue hi - x < x - decimalValue lo
        ∨ decimalValue hi - x = x - decimalValue lo ∧ lo.1 % 2 = 1) then some hi
    else some lo
  else if round (decimalValue hi) = x then some hi
  else none

/-- The shortest decimal that is read back as `x`.  Seventeen digits always do; the exact
    decimal behind them makes the function total. -/
def shortest (x : ℚ) : ℕ × ℤ :=
  ((List.range 17).findSome? (fun k => withDigits x (k + 1))).getD (⌊x * 10 ^ 1074⌋₊, -1074)

/-- The digits of a decimal with the point, the zeros or the exponent that place them. -/
def formatDecimal (d : ℕ × ℤ) : List Char :=
  let ds := Nat.toDigits 10 d.1
  let n : ℤ := ds.length + d.2
  if ds.length ≤ n ∧ n ≤ 21 then ds ++ List.replicate d.2.toNat '0'
  else if 0 < n ∧ n ≤ 21 then ds.take n.toNat ++ '.' :: ds.drop n.toNat
  else if -6 < n ∧ n ≤ 0 then '0' :: '.' :: (List.replicate (-n).toNat '0' ++ ds)
  else ds.take 1 ++ (if ds.length = 1 then [] else '.' :: ds.drop 1) ++
    'e' :: (if n - 1 < 0 then '-' else '+') :: Nat.toDigits 10 (n - 1).natAbs

def toChars : JsNumber → List Char
  | .nan => ['N', 'a', 'N']
  | .inf negative => (if negative then ['-'] else []) ++ ['I', 'n', 'f', 'i', 'n', 'i', 't', 'y']
  | .fin x =>
    if x.val = 0 then ['0']
    else if x.val < 0 then '-' :: formatDecimal (shortest (-x.val))
    else formatDecimal (shortest x.val)

/-- `String(x)` for a number. -/
def toText (x : JsNumber) : String := String.ofList (toChars x)

/-! ### What is printed is read back -/

section ReadBack

variable {w f t : List Char}

/-- Digits end where the next character is none. -/
private theorem span_digits (hws : ∀ c ∈ w, c.isDigit = true)
    (htail : ∀ c ∈ t.head?, c.isDigit = false) :
    (w ++ t).takeWhile Char.isDigit = w ∧ (w ++ t).dropWhile Char.isDigit = t := by
  rw [List.takeWhile_append_of_pos hws, List.dropWhile_append_of_pos hws]
  cases t with
  | nil => simp
  | cons c cs =>
    have hc : c.isDigit = false := htail c rfl
    simp [hc]

/-- A literal without a fraction. -/
theorem unsignedDecimal_whole (hws : ∀ c ∈ w, c.isDigit = true) (hne : w ≠ [])
    (htail : ∀ c ∈ t.head?, c.isDigit = false ∧ c ≠ '.') :
    unsignedDecimal (w ++ t)
      = (exponentPart t).map (fun e => (Nat.ofDigitChars 10 w 0 : ℚ) * 10 ^ e) := by
  obtain ⟨htake, hdrop⟩ := span_digits hws (fun c hc => (htail c hc).1)
  have hpart : fractionPart t = ([], t) := by
    unfold fractionPart
    split
    · exact absurd rfl (htail '.' rfl).2
    · rfl
  simp [unsignedDecimal, htake, hdrop, hpart, hne]

/-- A literal that needs no sign does not begin with one. -/
theorem signedDecimal_of_unsigned {cs : List Char} {q : ℚ} (h : unsignedDecimal cs = some q) :
    signedDecimal cs = some q := by
  unfold signedDecimal
  split
  · exact absurd h (by simp [unsignedDecimal, fractionPart])
  · exact absurd h (by simp [unsignedDecimal, fractionPart])
  · exact h

/-- Digits are read as the number they write. -/
theorem ofChars_digits (hws : ∀ c ∈ w, c.isDigit = true) (hne : w ≠ []) :
    ofChars (JsText.trimChars w) = ofRat (Nat.ofDigitChars 10 w 0 : ℕ) := by
  have htrim := JsText.trimChars_of_forall (fun c hc => JsText.isSpace_of_isDigit (hws c hc))
  have hread := unsignedDecimal_whole (t := []) hws hne (by simp)
  rw [List.append_nil] at hread
  have hsigned := signedDecimal_of_unsigned (hread.trans rfl)
  rw [htrim, ofChars, if_neg (by simpa using hne), hsigned]
  simp

/-- A literal with digits on both sides of the point. -/
theorem unsignedDecimal_point (hws : ∀ c ∈ w, c.isDigit = true) (hne : w ≠ [])
    (hfs : ∀ c ∈ f, c.isDigit = true) (htail : ∀ c ∈ t.head?, c.isDigit = false) :
    unsignedDecimal (w ++ '.' :: (f ++ t))
      = (exponentPart t).map (fun e =>
        (Nat.ofDigitChars 10 (w ++ f) 0 : ℚ) * 10 ^ (e - (f.length : ℤ))) := by
  have hpoint : ∀ c ∈ ('.' :: (f ++ t)).head?, c.isDigit = false := by
    intro c hc
    obtain rfl : '.' = c := by simpa using hc
    rfl
  obtain ⟨htake, hdrop⟩ := span_digits hws hpoint
  obtain ⟨htake', hdrop'⟩ := span_digits hfs htail
  simp [unsignedDecimal, htake, hdrop, fractionPart, htake', hdrop', hne]

end ReadBack

private theorem isDigit_toDigits {n : ℕ} : ∀ c ∈ Nat.toDigits 10 n, c.isDigit = true :=
  fun _ hc => Nat.isDigit_of_mem_toDigits (by decide) (by decide) hc

/-- The printed exponent. -/
theorem exponentPart_format (e : ℤ) :
    exponentPart ('e' :: (if e < 0 then '-' else '+') :: Nat.toDigits 10 e.natAbs) = some e := by
  have hdigits : (!(Nat.toDigits 10 e.natAbs).isEmpty
      && (Nat.toDigits 10 e.natAbs).all Char.isDigit) = true := by
    rw [Bool.and_eq_true, List.all_eq_true]
    exact ⟨by simp, isDigit_toDigits⟩
  rcases lt_or_ge e 0 with hneg | hpos
  · simp [exponentPart, hneg, hdigits, Nat.ofDigitChars_ten_toDigits, abs_of_neg hneg]
  · simp [exponentPart, not_lt.mpr hpos, hdigits, Nat.ofDigitChars_ten_toDigits,
      abs_of_nonneg hpos]

private theorem isDigit_replicate (n : ℕ) : ∀ c ∈ List.replicate n '0', c.isDigit = true := by
  intro c hc
  rw [List.eq_of_mem_replicate hc]
  rfl

private theorem isDigit_append {ws fs : List Char} (hws : ∀ c ∈ ws, c.isDigit = true)
    (hfs : ∀ c ∈ fs, c.isDigit = true) : ∀ c ∈ ws ++ fs, c.isDigit = true := by
  intro c hc
  rcases List.mem_append.mp hc with h | h
  · exact hws c h
  · exact hfs c h

section Shapes

variable {ds : List Char} {s : ℕ} {p : ℤ} (hvalue : Nat.ofDigitChars 10 ds 0 = s)
  (hds : ∀ c ∈ ds, c.isDigit = true) (hlen : 0 < ds.length)

include hds in
private theorem isDigit_take_drop (n : ℕ) :
    (∀ c ∈ ds.take n, c.isDigit = true) ∧ ∀ c ∈ ds.drop n, c.isDigit = true :=
  ⟨fun c hc => hds c (List.mem_of_mem_take hc), fun c hc => hds c (List.mem_of_mem_drop hc)⟩

include hvalue hds hlen

/-- An integer: the zeros of the power behind the digits. -/
theorem unsignedDecimal_integer (hp : 0 ≤ p) :
    unsignedDecimal (ds ++ List.replicate p.toNat '0') = some ((s : ℚ) * 10 ^ p) := by
  have hread := unsignedDecimal_whole (w := ds ++ List.replicate p.toNat '0') (t := [])
    (isDigit_append hds (isDigit_replicate _))
    (List.append_ne_nil_of_left_ne_nil (List.ne_nil_of_length_pos hlen) _) (by simp)
  have hpow : (10 : ℚ) ^ p = 10 ^ p.toNat := by
    rw [← zpow_natCast, Int.toNat_of_nonneg hp]
  rw [← List.append_nil (ds ++ List.replicate p.toNat '0'), hread, Nat.ofDigitChars_append,
    hvalue, Nat.ofDigitChars_replicate_zero, hpow]
  simp only [exponentPart, Option.map_some, zpow_zero, mul_one, Option.some.injEq]
  push_cast
  ring

/-- The point inside the digits. -/
theorem unsignedDecimal_inside (hpos : 0 < (ds.length : ℤ) + p) (hp : p < 0) :
    unsignedDecimal (ds.take (ds.length + p).toNat ++ '.' :: ds.drop (ds.length + p).toNat)
      = some ((s : ℚ) * 10 ^ p) := by
  obtain ⟨htake, hdrop⟩ := isDigit_take_drop hds (ds.length + p).toNat
  have hne : ds.take (ds.length + p).toNat ≠ [] := by
    apply List.ne_nil_of_length_pos
    rw [List.length_take]
    omega
  have hread := unsignedDecimal_point (t := []) htake hne hdrop (by simp)
  have hfraction : ((ds.drop (ds.length + p).toNat).length : ℤ) = -p := by
    rw [List.length_drop]
    omega
  rw [List.append_nil, List.take_append_drop, hvalue, hfraction] at hread
  rw [hread]
  simp [exponentPart]

omit hlen in
/-- Zeros between the point and the digits. -/
theorem unsignedDecimal_below (hpos : (ds.length : ℤ) + p ≤ 0) :
    unsignedDecimal ('0' :: '.' :: (List.replicate (-(ds.length + p)).toNat '0' ++ ds))
      = some ((s : ℚ) * 10 ^ p) := by
  have hread := unsignedDecimal_point (w := ['0']) (t := [])
    (List.all_eq_true.mp (by decide)) (by simp)
    (isDigit_append (isDigit_replicate (-(ds.length + p)).toNat) hds) (by simp)
  have hfraction : ((List.replicate (-(ds.length + p)).toNat '0' ++ ds).length : ℤ) = -p := by
    rw [List.length_append, List.length_replicate]
    omega
  have hzeros : Nat.ofDigitChars 10
      (['0'] ++ (List.replicate (-(ds.length + p)).toNat '0' ++ ds)) 0 = s := by
    rw [Nat.ofDigitChars_append, Nat.ofDigitChars_append, Nat.ofDigitChars_replicate_zero]
    simpa [Nat.ofDigitChars_cons] using hvalue
  rw [List.append_nil, hfraction, hzeros] at hread
  exact hread.trans (by simp [exponentPart])

/-- One digit before the point, and the exponent. -/
theorem unsignedDecimal_scientific :
    unsignedDecimal (ds.take 1 ++ (if ds.length = 1 then [] else '.' :: ds.drop 1) ++
      'e' :: (if (ds.length : ℤ) + p - 1 < 0 then '-' else '+') ::
        Nat.toDigits 10 ((ds.length : ℤ) + p - 1).natAbs) = some ((s : ℚ) * 10 ^ p) := by
  have hmark : ∀ c ∈ ('e' :: (if (ds.length : ℤ) + p - 1 < 0 then '-' else '+') ::
      Nat.toDigits 10 ((ds.length : ℤ) + p - 1).natAbs).head?, c.isDigit = false ∧ c ≠ '.' := by
    intro c hc
    obtain rfl : 'e' = c := by simpa using hc
    decide
  by_cases hone : ds.length = 1
  · have hread := unsignedDecimal_whole hds (List.ne_nil_of_length_pos hlen) hmark
    rw [hvalue, exponentPart_format] at hread
    rw [if_pos hone, List.append_nil, List.take_of_length_le (by omega), hread, hone]
    simp
  · obtain ⟨htake, hdrop⟩ := isDigit_take_drop hds 1
    have hne : ds.take 1 ≠ [] := by
      apply List.ne_nil_of_length_pos
      rw [List.length_take]
      omega
    have hread := unsignedDecimal_point htake hne hdrop (fun c hc => (hmark c hc).1)
    have hfraction : ((ds.drop 1).length : ℤ) = ds.length - 1 := by
      rw [List.length_drop]
      omega
    rw [List.take_append_drop, hvalue, exponentPart_format] at hread
    rw [if_neg hone, List.append_assoc, List.cons_append, hread, hfraction]
    simp

end Shapes

/-- A printed decimal is read as its value. -/
theorem unsignedDecimal_formatDecimal (d : ℕ × ℤ) :
    unsignedDecimal (formatDecimal d) = some (decimalValue d) := by
  obtain ⟨s, p⟩ := d
  have hvalue : Nat.ofDigitChars 10 (Nat.toDigits 10 s) 0 = s := Nat.ofDigitChars_ten_toDigits
  have hds : ∀ c ∈ Nat.toDigits 10 s, c.isDigit = true := isDigit_toDigits
  have hlen : 0 < (Nat.toDigits 10 s).length := Nat.length_toDigits_pos
  unfold formatDecimal decimalValue
  dsimp only
  generalize Nat.toDigits 10 s = ds at hvalue hds hlen
  by_cases hint : (ds.length : ℤ) ≤ ds.length + p ∧ (ds.length : ℤ) + p ≤ 21
  · rw [if_pos hint]
    exact unsignedDecimal_integer hvalue hds hlen (by omega)
  by_cases hpoint : 0 < (ds.length : ℤ) + p ∧ (ds.length : ℤ) + p ≤ 21
  · rw [if_neg hint, if_pos hpoint]
    exact unsignedDecimal_inside hvalue hds hlen hpoint.1 (by omega)
  by_cases hzeros : -6 < (ds.length : ℤ) + p ∧ (ds.length : ℤ) + p ≤ 0
  · rw [if_neg hint, if_neg hpoint, if_pos hzeros]
    exact unsignedDecimal_below hvalue hds hzeros.2
  · rw [if_neg hint, if_neg hpoint, if_neg hzeros]
    exact unsignedDecimal_scientific hvalue hds hlen

/-! The digits that are chosen are read back as the number. -/

theorem round_withDigits {x : ℚ} {k : ℕ} {d : ℕ × ℤ} (h : withDigits x k = some d) :
    round (decimalValue d) = x := by
  unfold withDigits at h
  dsimp only at h
  split_ifs at h with hlo hhi hhi'
  · rw [← Option.some.inj h]
    exact hhi.1
  · rw [← Option.some.inj h]
    exact hlo
  · rw [← Option.some.inj h]
    exact hhi'

/-- Every value of the format is a multiple of the least one. -/
theorem exists_mul_least (x : Double) : ∃ m : ℤ, x.val = m * 2 ^ (-1074 : ℤ) := by
  have hplace : -1074 ≤ lastPlace x.val := le_max_right _ _
  obtain ⟨d, hd⟩ := Int.eq_ofNat_of_zero_le (sub_nonneg.mpr hplace)
  refine ⟨roundEven (x.val / 2 ^ lastPlace x.val) * 2 ^ d, ?_⟩
  have hsplit : lastPlace x.val = d + -1074 := by omega
  have hexact := x.exact
  rw [round] at hexact
  calc x.val = roundEven (x.val / 2 ^ lastPlace x.val) * 2 ^ lastPlace x.val := hexact.symm
    _ = roundEven (x.val / 2 ^ lastPlace x.val) * (2 ^ (d : ℤ) * 2 ^ (-1074 : ℤ)) := by
      rw [← zpow_add₀ two_ne_zero, ← hsplit]
    _ = _ := by
      rw [Int.cast_mul, Int.cast_pow, Int.cast_ofNat, zpow_natCast, mul_assoc]

/-- A multiple of a negative power of two, as a decimal. -/
theorem decimalValue_exact {x : ℚ} {m : ℤ} {k : ℕ} (hx : 0 < x) (h : x = m * 2 ^ (-(k : ℤ))) :
    decimalValue (⌊x * 10 ^ k⌋₊, -k) = x := by
  have hscaled : x * 10 ^ k = (m * 5 ^ k : ℤ) := by
    rw [h, zpow_neg, zpow_natCast, show (10 : ℚ) = 2 * 5 by norm_num, mul_pow, mul_assoc,
      inv_mul_cancel_left₀ (pow_ne_zero _ two_ne_zero)]
    push_cast
    rfl
  have hfloor : ((⌊x * 10 ^ k⌋₊ : ℕ) : ℚ) = x * 10 ^ k := by
    have hnonneg : 0 ≤ ⌊x * 10 ^ k⌋ := Int.floor_nonneg.mpr (by positivity)
    have hcast : ((⌊x * 10 ^ k⌋.toNat : ℕ) : ℚ) = (⌊x * 10 ^ k⌋ : ℤ) := by
      exact_mod_cast Int.toNat_of_nonneg hnonneg
    rw [← Int.floor_toNat, hcast, hscaled, Int.floor_intCast]
  rw [decimalValue, hfloor, zpow_neg, zpow_natCast,
    mul_inv_cancel_right₀ (pow_ne_zero _ (by norm_num))]

/-- The printed digits are read back as the number. -/
theorem round_shortest {x : ℚ} {y : Double} (hy : y.val = x) (hx : 0 < x) :
    round (decimalValue (shortest x)) = x := by
  unfold shortest
  cases hfind : (List.range 17).findSome? (fun k => withDigits x (k + 1)) with
  | some d =>
    obtain ⟨k, -, hk⟩ := List.exists_of_findSome?_eq_some hfind
    exact round_withDigits hk
  | none =>
    obtain ⟨m, hm⟩ := exists_mul_least y
    have hexact : decimalValue (⌊x * 10 ^ 1074⌋₊, -(1074 : ℕ)) = x :=
      decimalValue_exact hx (hy.symm.trans hm)
    rw [Option.getD_none]
    refine (congrArg round hexact).trans ?_
    rw [← hy]
    exact y.exact

/-- The characters a decimal is printed with. -/
private theorem mem_formatDecimal {d : ℕ × ℤ} {c : Char} (h : c ∈ formatDecimal d) :
    c.isDigit = true ∨ c = '.' ∨ c = 'e' ∨ c = '-' ∨ c = '+' := by
  unfold formatDecimal at h
  dsimp only at h
  split at h
  · rcases List.mem_append.mp h with h | h
    · exact .inl (isDigit_toDigits c h)
    · exact .inl (isDigit_replicate _ c h)
  split at h
  · rcases List.mem_append.mp h with h | h
    · exact .inl (isDigit_toDigits c (List.mem_of_mem_take h))
    rcases List.mem_cons.mp h with h | h
    · exact .inr (.inl h)
    · exact .inl (isDigit_toDigits c (List.mem_of_mem_drop h))
  split at h
  · rcases List.mem_cons.mp h with rfl | h
    · exact .inl rfl
    rcases List.mem_cons.mp h with h | h
    · exact .inr (.inl h)
    · exact .inl (isDigit_append (isDigit_replicate _) isDigit_toDigits c h)
  · rcases List.mem_append.mp h with h | h
    · rcases List.mem_append.mp h with h | h
      · exact .inl (isDigit_toDigits c (List.mem_of_mem_take h))
      split at h
      · exact absurd h List.not_mem_nil
      rcases List.mem_cons.mp h with h | h
      · exact .inr (.inl h)
      · exact .inl (isDigit_toDigits c (List.mem_of_mem_drop h))
    · rcases List.mem_cons.mp h with h | h
      · exact .inr (.inr (.inl h))
      rcases List.mem_cons.mp h with h | h
      · split at h
        · exact .inr (.inr (.inr (.inl h)))
        · exact .inr (.inr (.inr (.inr h)))
      · exact .inl (isDigit_toDigits c h)

theorem formatDecimal_ne_nil (d : ℕ × ℤ) : formatDecimal d ≠ [] := by
  intro h
  have hread := unsignedDecimal_formatDecimal d
  rw [h] at hread
  exact absurd hread (by simp [unsignedDecimal, fractionPart])

private theorem signedDecimal_formatDecimal (d : ℕ × ℤ) :
    signedDecimal (formatDecimal d) = some (decimalValue d) :=
  signedDecimal_of_unsigned (unsignedDecimal_formatDecimal d)

/-- The characters a number is printed with, digits apart. -/
def symbols : List Char := ['.', 'e', '-', '+', 'N', 'a', 'I', 'n', 'f', 'i', 't', 'y']

private theorem mem_of_all {cs : List Char} (hall : cs.all symbols.contains = true) {c : Char}
    (h : c ∈ cs) : c.isDigit = true ∨ c ∈ symbols :=
  Or.inr (List.contains_iff_mem.mp (List.all_eq_true.mp hall c h))

theorem mem_toChars {x : JsNumber} {c : Char} (h : c ∈ toChars x) :
    c.isDigit = true ∨ c ∈ symbols := by
  have hformat : ∀ {d : ℕ × ℤ}, c ∈ formatDecimal d → c.isDigit = true ∨ c ∈ symbols := by
    intro d hc
    rcases mem_formatDecimal hc with hdigit | rfl | rfl | rfl | rfl
    · exact Or.inl hdigit
    all_goals exact Or.inr (List.contains_iff_mem.mp (by decide))
  cases x with
  | nan => exact mem_of_all (by decide) h
  | inf negative => cases negative <;> exact mem_of_all (by decide) h
  | fin x =>
    simp only [toChars] at h
    split_ifs at h
    · rcases List.mem_singleton.mp h with rfl
      exact Or.inl (by decide)
    · rcases List.mem_cons.mp h with rfl | h
      · exact Or.inr (List.contains_iff_mem.mp (by decide))
      · exact hformat h
    · exact hformat h

/-- No character of a printed number is white space. -/
theorem isSpace_toChars (x : JsNumber) : ∀ c ∈ toChars x, JsText.isSpace c = false := by
  have hsymbols : symbols.all (fun c => !JsText.isSpace c) = true := by decide
  intro c hc
  rcases mem_toChars hc with hdigit | hsymbol
  · exact JsText.isSpace_of_isDigit hdigit
  · simpa using List.all_eq_true.mp hsymbols c hsymbol

theorem ofChars_toChars (x : JsNumber) : ofChars (toChars x) = x := by
  cases x with
  | nan => rfl
  | inf negative => cases negative <;> rfl
  | fin x =>
    simp only [toChars]
    split_ifs with hzero hneg
    · have hround : ofRat 0 = .fin x := by
        rw [← hzero]
        exact ofRat_val x
      have hread : signedDecimal ['0'] = some 0 := by
        show unsignedDecimal (['0'] ++ []) = some 0
        rw [unsignedDecimal_whole (List.all_eq_true.mp (by decide)) (by simp) (by simp)]
        simp [exponentPart, Nat.ofDigitChars_cons]
      rw [← hround, ofChars, hread]
      rfl
    · -- the digits of the opposite number
      have hpos : 0 < -x.val := neg_pos.mpr hneg
      have hread := unsignedDecimal_formatDecimal (shortest (-x.val))
      have hround : round (-decimalValue (shortest (-x.val))) = x.val := by
        rw [round_neg, round_shortest (x := -x.val) (y := x.neg) rfl hpos, neg_neg]
      simp only [ofChars, List.isEmpty_cons, Bool.false_eq_true, if_false, signedDecimal, hread,
        Option.map_some]
      exact ofRat_of_round hround
    · have hpos : 0 < x.val := lt_of_le_of_ne (not_lt.mp hneg) (Ne.symm hzero)
      rw [ofChars, if_neg (by simpa using formatDecimal_ne_nil _), signedDecimal_formatDecimal]
      exact ofRat_of_round (round_shortest rfl hpos)

/-- What is printed is read back. -/
theorem ofText_toText (x : JsNumber) : ofText (toText x) = x := by
  rw [ofText, toText, String.toList_ofList, JsText.trimChars_of_forall (isSpace_toChars x),
    ofChars_toChars]

end JsNumber
