import Mathlib.Algebra.BigOperators.Group.List.Lemmas
import Mathlib.Algebra.Order.BigOperators.Group.List
import Mathlib.Algebra.Order.Field.Basic
import Mathlib.Tactic.LinearCombination
import Mathlib.Tactic.Ring

/-!
# The line of least squares

Points over an ordered field, as lists of pairs, and the line that fits them best.

* `spread`, `cross` — the two determinants of the normal equations.
* `spread_nonneg`, `spread_eq_zero_iff` — the equality case of Cauchy and Schwarz for a list and
  ones.
* `slope`, `Minimises` — the slope, and lines with the least sum of squared residuals.
* `minimises_iff`, `exists_minimises_iff` — if not all abscissas are equal, there is exactly one
  such line.
* `spread_affine`, `cross_affine` — another scale for the abscissas.
-/

namespace LeastSquares

variable {K : Type*}

section

variable [Field K] (l : List (K × K))

def sumX : K := (l.map Prod.fst).sum

def sumY : K := (l.map Prod.snd).sum

def sumXX : K := (l.map fun p => p.1 * p.1).sum

def sumXY : K := (l.map fun p => p.1 * p.2).sum

def sumYY : K := (l.map fun p => p.2 * p.2).sum

/-- `n ∑ x² - (∑ x)²`. -/
def spread : K := l.length * sumXX l - sumX l * sumX l

/-- `n ∑ x y - ∑ x ∑ y`. -/
def cross : K := l.length * sumXY l - sumX l * sumY l

def slope : K := cross l / spread l

/-- The sum of the squared residuals of a line. -/
def residual (a b : K) : K := (l.map fun p => (p.2 - (a * p.1 + b)) ^ 2).sum

/-- No line has a smaller sum of squared residuals. -/
def Minimises [LE K] (a b : K) : Prop := ∀ a' b', residual l a b ≤ residual l a' b'

/-! ### Sums -/

/-- What another point adds to the spread. -/
theorem spread_cons (p : K × K) :
    spread (p :: l) = spread l + (l.map fun q => (q.1 - p.1) ^ 2).sum := by
  have hsum : (l.map fun q => (q.1 - p.1) ^ 2).sum
      = sumXX l - 2 * p.1 * sumX l + l.length * (p.1 * p.1) := by
    induction l with
    | nil => simp [sumXX, sumX]
    | cons q l ih =>
      rw [List.map_cons, List.sum_cons, ih, List.length_cons]
      simp only [sumXX, sumX, List.map_cons, List.sum_cons, Nat.cast_add, Nat.cast_one]
      ring
  rw [hsum, spread, spread, List.length_cons]
  simp only [sumXX, sumX, List.map_cons, List.sum_cons, Nat.cast_add, Nat.cast_one]
  ring

theorem residual_eq (a b : K) :
    residual l a b = sumYY l - 2 * a * sumXY l - 2 * b * sumY l + a * a * sumXX l
      + 2 * a * b * sumX l + l.length * (b * b) := by
  induction l with
  | nil => simp [residual, sumYY, sumXY, sumY, sumXX, sumX]
  | cons p l ih =>
    rw [residual] at ih ⊢
    rw [List.map_cons, List.sum_cons, ih, List.length_cons]
    simp only [sumYY, sumXY, sumY, sumXX, sumX, List.map_cons, List.sum_cons, Nat.cast_add,
      Nat.cast_one]
    ring

/-! ### Another scale -/

section

variable (c d : K)

theorem sums_affine :
    sumX (l.map fun p => ((p.1 - c) / d, p.2)) = (sumX l - l.length * c) / d ∧
    sumXX (l.map fun p => ((p.1 - c) / d, p.2))
      = (sumXX l - 2 * c * sumX l + l.length * (c * c)) / (d * d) ∧
    sumXY (l.map fun p => ((p.1 - c) / d, p.2)) = (sumXY l - c * sumY l) / d ∧
    sumY (l.map fun p => ((p.1 - c) / d, p.2)) = sumY l := by
  induction l with
  | nil => simp [sumX, sumXX, sumXY, sumY]
  | cons p l ih =>
    obtain ⟨hx, hxx, hxy, hy⟩ := ih
    simp only [sumX, sumXX, sumXY, sumY, List.map_cons, List.sum_cons, List.length_cons,
      Nat.cast_add, Nat.cast_one] at hx hxx hxy hy ⊢
    rw [hx, hxx, hxy, hy]
    refine ⟨by ring, ?_, by ring, rfl⟩
    rw [div_mul_div_comm, ← add_div]
    ring

theorem spread_affine :
    spread (l.map fun p => ((p.1 - c) / d, p.2)) = spread l / (d * d) := by
  obtain ⟨hx, hxx, -⟩ := sums_affine l c d
  rw [spread, spread, hx, hxx, List.length_map, div_mul_div_comm]
  ring

theorem cross_affine :
    cross (l.map fun p => ((p.1 - c) / d, p.2)) = cross l / d := by
  obtain ⟨hx, -, hxy, hy⟩ := sums_affine l c d
  rw [cross, cross, hx, hxy, hy, List.length_map]
  ring

end

end

/-! ### The best line -/

section

variable [Field K] [LinearOrder K] [IsStrictOrderedRing K] {l : List (K × K)}

theorem spread_nonneg (l : List (K × K)) : 0 ≤ spread l := by
  induction l with
  | nil => simp [spread, sumX, sumXX]
  | cons p l ih =>
    rw [spread_cons]
    apply add_nonneg ih
    apply List.sum_nonneg
    intro x hx
    obtain ⟨q, -, rfl⟩ := List.mem_map.mp hx
    exact sq_nonneg _

/-- The spread is zero exactly if all abscissas are equal. -/
theorem spread_eq_zero_iff (l : List (K × K)) :
    spread l = 0 ↔ ∀ p ∈ l, ∀ q ∈ l, p.1 = q.1 := by
  induction l with
  | nil => simp [spread, sumX, sumXX]
  | cons p l ih =>
    have hnonneg : ∀ x ∈ l.map fun q => (q.1 - p.1) ^ 2, 0 ≤ x := by
      intro x hx
      obtain ⟨q, -, rfl⟩ := List.mem_map.mp hx
      exact sq_nonneg _
    have hsum : (l.map fun q => (q.1 - p.1) ^ 2).sum = 0 ↔ ∀ q ∈ l, q.1 = p.1 := by
      constructor
      · intro hzero q hq
        have hterm := List.all_zero_of_le_zero_le_of_sum_eq_zero hnonneg hzero
          (List.mem_map.mpr ⟨q, hq, rfl⟩)
        exact sub_eq_zero.mp ((pow_eq_zero_iff two_ne_zero).mp hterm)
      · intro hsame
        apply List.sum_eq_zero
        intro x hx
        obtain ⟨q, hq, rfl⟩ := List.mem_map.mp hx
        rw [hsame q hq, sub_self, zero_pow two_ne_zero]
    rw [spread_cons, add_eq_zero_iff_of_nonneg (spread_nonneg l) (List.sum_nonneg hnonneg), hsum,
      ih]
    constructor
    · rintro ⟨-, hfirst⟩ q hq r hr
      have hsame : ∀ q ∈ p :: l, q.1 = p.1 := List.forall_mem_cons.mpr ⟨rfl, hfirst⟩
      rw [hsame q hq, hsame r hr]
    · intro h
      exact ⟨fun q hq r hr => h q (List.mem_cons_of_mem p hq) r (List.mem_cons_of_mem p hr),
        fun q hq => h q (List.mem_cons_of_mem p hq) p List.mem_cons_self⟩

/-- Abscissas that are all equal go with nothing. -/
theorem cross_of_spread_eq_zero (h : spread l = 0) : cross l = 0 := by
  cases l with
  | nil => simp [cross, sumX, sumXY]
  | cons p l =>
    have hsame : ∀ q ∈ p :: l, q.1 = p.1 := fun q hq =>
      (spread_eq_zero_iff (p :: l)).mp h q hq p List.mem_cons_self
    have hx : ∀ m : List (K × K), (∀ q ∈ m, q.1 = p.1) →
        sumX m = m.length * p.1 ∧ sumXY m = p.1 * sumY m := by
      intro m hm
      induction m with
      | nil => simp [sumX, sumXY, sumY]
      | cons q m ih =>
        rw [List.forall_mem_cons] at hm
        obtain ⟨hx, hxy⟩ := ih hm.2
        simp only [sumX, sumXY, sumY, List.map_cons, List.sum_cons, List.length_cons,
          Nat.cast_add, Nat.cast_one, hm.1] at hx hxy ⊢
        rw [hx, hxy]
        exact ⟨by ring, by ring⟩
    obtain ⟨hx, hxy⟩ := hx (p :: l) hsame
    rw [cross, hx, hxy]
    ring

/-- The residuals of a line, with the squares completed. -/
theorem length_mul_residual (h : spread l ≠ 0) (a b : K) :
    l.length * residual l a b
      = (l.length * sumYY l - sumY l * sumY l - spread l * slope l ^ 2)
        + (spread l * (a - slope l) ^ 2 + (l.length * b - (sumY l - a * sumX l)) ^ 2) := by
  have hslope : slope l * spread l = cross l := div_mul_cancel₀ _ h
  generalize slope l = m at hslope ⊢
  rw [residual_eq]
  rw [spread, cross] at hslope
  rw [spread]
  linear_combination (2 * a) * hslope

theorem length_ne_zero_of_spread (h : spread l ≠ 0) : (l.length : K) ≠ 0 := by
  intro hzero
  have hnil : l = [] := List.length_eq_zero_iff.mp (Nat.cast_eq_zero.mp hzero)
  rw [hnil] at h
  exact h (by simp [spread, sumX, sumXX])

/-- A line of least squares solves the two normal equations. -/
theorem minimises_iff (h : spread l ≠ 0) {a b : K} :
    Minimises l a b ↔ a = slope l ∧ l.length * b = sumY l - slope l * sumX l := by
  have hlength := length_ne_zero_of_spread h
  have hpos : (0 : K) < l.length := lt_of_le_of_ne (Nat.cast_nonneg _) hlength.symm
  have hspread : 0 < spread l := lt_of_le_of_ne (spread_nonneg l) h.symm
  have hsquares : ∀ a b : K,
      0 ≤ spread l * (a - slope l) ^ 2 + (l.length * b - (sumY l - a * sumX l)) ^ 2 := fun a b =>
    add_nonneg (mul_nonneg hspread.le (sq_nonneg _)) (sq_nonneg _)
  constructor
  · intro hmin
    -- No line is better than the one of both equations.
    have hbest := mul_le_mul_of_nonneg_left
      (hmin (slope l) ((sumY l - slope l * sumX l) / l.length)) hpos.le
    rw [length_mul_residual h, length_mul_residual h, mul_div_cancel₀ _ hlength] at hbest
    have hzero : spread l * (a - slope l) ^ 2
        + (l.length * b - (sumY l - a * sumX l)) ^ 2 = 0 := by
      refine le_antisymm ?_ (hsquares a b)
      simpa using hbest
    obtain ⟨hfirst, hsecond⟩ := (add_eq_zero_iff_of_nonneg
      (mul_nonneg hspread.le (sq_nonneg _)) (sq_nonneg _)).mp hzero
    have ha : a = slope l := by
      have hsq := (mul_eq_zero.mp hfirst).resolve_left h
      exact sub_eq_zero.mp ((pow_eq_zero_iff two_ne_zero).mp hsq)
    refine ⟨ha, ?_⟩
    rw [← ha]
    exact sub_eq_zero.mp ((pow_eq_zero_iff two_ne_zero).mp hsecond)
  · rintro ⟨rfl, hb⟩ a' b'
    refine le_of_mul_le_mul_left ?_ hpos
    rw [length_mul_residual h, length_mul_residual h, hb, sub_self, sub_self]
    have hother := hsquares a' b'
    simpa using hother

/-- The slope is that of every line of least squares, and there is one. -/
theorem exists_minimises_iff (h : spread l ≠ 0) {a : K} :
    (∃ b, Minimises l a b) ↔ a = slope l := by
  constructor
  · rintro ⟨b, hb⟩
    exact ((minimises_iff h).mp hb).1
  · intro ha
    refine ⟨(sumY l - slope l * sumX l) / l.length, (minimises_iff h).mpr ⟨ha, ?_⟩⟩
    exact mul_div_cancel₀ _ (length_ne_zero_of_spread h)

end

end LeastSquares
