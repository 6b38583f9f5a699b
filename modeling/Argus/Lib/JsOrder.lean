import Argus.Lib.JsNumber

/-!
# Rounding keeps the order

* `round_mono` — a greater rational is rounded to a number that is no less.
* `ofRat_of_abs_le` — what is small enough is rounded to a finite number.
-/

namespace JsNumber

theorem roundEven_mono {p q : ℚ} (h : p ≤ q) : roundEven p ≤ roundEven q := by
  rcases (Int.floor_mono h).lt_or_eq with hlt | heq
  · have hp := roundEven_le_floor_add_one p
    have hq := floor_le_roundEven q
    omega
  · -- with one integer part, the fractions decide
    unfold roundEven
    dsimp only
    rw [heq]
    split_ifs <;> first | omega | (exfalso; linarith)

theorem lastPlace_mono {p q : ℚ} (hp : 0 < p) (h : p ≤ q) : lastPlace p ≤ lastPlace q := by
  have hq : 0 < q := lt_of_lt_of_le hp h
  rw [lastPlace, lastPlace, abs_of_pos hp, abs_of_pos hq]
  have hlog : Int.log 2 p ≤ Int.log 2 q := Int.log_mono_right hp h
  omega

theorem round_nonneg {q : ℚ} (h : 0 ≤ q) : 0 ≤ round q := by
  have hround : roundEven 0 ≤ roundEven (q / 2 ^ lastPlace q) :=
    roundEven_mono (div_nonneg h (zpow_nonneg zero_le_two _))
  have hzero : roundEven 0 = 0 := roundEven_intCast 0
  rw [hzero] at hround
  exact mul_nonneg (by exact_mod_cast hround) (zpow_nonneg zero_le_two _)

/-- A value in a higher place is rounded to no less than the least number of that place. -/
theorem round_le_of_place_lt {p q : ℚ} (hp : 0 < p) (h : p ≤ q)
    (hplace : lastPlace p < lastPlace q) : round p ≤ round q := by
  have hq : 0 < q := lt_of_lt_of_le hp h
  have htwo : (0 : ℚ) < 2 ^ lastPlace q := zpow_pos two_pos _
  have hhigh : roundEven (p / 2 ^ lastPlace p) ≤ 2 ^ 53 := by
    have hlt := (abs_lt.mp (abs_div_lt p)).2
    have hmono := roundEven_mono hlt.le
    have hint : roundEven ((2 : ℚ) ^ 53) = 2 ^ 53 := by
      have := roundEven_intCast (2 ^ 53)
      push_cast at this
      exact this
    rwa [hint] at hmono
  have hlow : (2 : ℤ) ^ 52 ≤ roundEven (q / 2 ^ lastPlace q) := by
    have hlog : lastPlace q = Int.log 2 q - 52 := by
      have hle : (-1074 : ℤ) ≤ lastPlace p := le_max_right _ _
      have hmax : lastPlace q = Max.max (Int.log 2 q - 52) (-1074) := by
        rw [lastPlace, abs_of_pos hq]
      omega
    have hself : (2 : ℚ) ^ Int.log 2 q ≤ q := by
      exact_mod_cast Int.zpow_log_le_self (b := 2) (by decide) hq
    have hdiv : (2 : ℚ) ^ 52 ≤ q / 2 ^ lastPlace q := by
      rw [le_div_iff₀ htwo]
      calc (2 : ℚ) ^ 52 * 2 ^ lastPlace q = 2 ^ ((52 : ℤ) + lastPlace q) := by
            rw [zpow_add₀ two_ne_zero]
            norm_num
        _ = 2 ^ Int.log 2 q := by
            congr 1
            omega
        _ ≤ q := hself
    refine (Int.le_floor.mpr ?_).trans (floor_le_roundEven _)
    push_cast
    exact hdiv
  calc round p ≤ 2 ^ 53 * 2 ^ lastPlace p :=
        mul_le_mul_of_nonneg_right (by exact_mod_cast hhigh) (zpow_nonneg zero_le_two _)
    _ = 2 ^ ((53 : ℤ) + lastPlace p) := by
        rw [zpow_add₀ two_ne_zero]
        norm_num
    _ ≤ 2 ^ ((52 : ℤ) + lastPlace q) := zpow_le_zpow_right₀ one_le_two (by omega)
    _ = 2 ^ 52 * 2 ^ lastPlace q := by
        rw [zpow_add₀ two_ne_zero]
        norm_num
    _ ≤ round q := mul_le_mul_of_nonneg_right (by exact_mod_cast hlow) htwo.le

theorem round_mono_of_nonneg {p q : ℚ} (hp : 0 ≤ p) (h : p ≤ q) : round p ≤ round q := by
  rcases hp.eq_or_lt with rfl | hpos
  · rw [round_zero]
    exact round_nonneg h
  · rcases (lastPlace_mono hpos h).lt_or_eq with hlt | heq
    · exact round_le_of_place_lt hpos h hlt
    · -- in one place, the integers in it decide
      have htwo : (0 : ℚ) < 2 ^ lastPlace q := zpow_pos two_pos _
      have hround := roundEven_mono (div_le_div_of_nonneg_right h htwo.le)
      rw [round, round, heq]
      exact mul_le_mul_of_nonneg_right (by exact_mod_cast hround) htwo.le

/-- **Order.**  Rounding is monotone. -/
theorem round_mono {p q : ℚ} (h : p ≤ q) : round p ≤ round q := by
  rcases le_total 0 p with hp | hp
  · exact round_mono_of_nonneg hp h
  · rcases le_total 0 q with hq | hq
    · have hneg := round_nonneg (neg_nonneg.mpr hp)
      rw [round_neg] at hneg
      exact (neg_nonneg.mp hneg).trans (round_nonneg hq)
    · have hneg := round_mono_of_nonneg (neg_nonneg.mpr hq) (neg_le_neg h)
      rw [round_neg, round_neg] at hneg
      exact neg_le_neg_iff.mp hneg

/-- What is no greater than a number of the format is rounded to a finite one. -/
theorem ofRat_of_abs_le {q : ℚ} (x : Double) (h : |q| ≤ x.val) :
    ∃ y : Double, ofRat q = .fin y ∧ y.val = round q := by
  obtain ⟨hlow, hhigh⟩ := abs_le.mp h
  have hup := round_mono hhigh
  have hdown := round_mono hlow
  rw [round_neg] at hdown
  rw [x.exact] at hup hdown
  have hfinite : |round q| < 2 ^ 1024 :=
    lt_of_le_of_lt (abs_le.mpr ⟨hdown, hup⟩) (lt_of_le_of_lt (le_abs_self _) x.finite)
  exact ⟨⟨round q, round_round q, hfinite⟩, by rw [ofRat, dif_pos hfinite], rfl⟩

end JsNumber
