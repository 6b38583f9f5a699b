import Argus.Lib.JsNumber
import Argus.Lib.Padded

/-!
# Integers as they are printed

* `withDigits_whole` — an integer is not rounded to a fraction.
* `isDigit_toChars` — an integer of up to seventeen digits is printed without a point and without
  an exponent.
-/

namespace JsNumber

theorem length_toDigits_le {m k : ℕ} (hk : 0 < k) (h : m < 10 ^ k) :
    (Nat.toDigits 10 m).length ≤ k := by
  exact (Nat.length_toDigits_le_iff (by decide) hk).mpr h

/-- The decimals of up to as many digits as an integer has are integers. -/
theorem withDigits_whole {x : ℚ} {k : ℕ} {d : ℕ × ℤ} (hx : 0 < x) (hk : 0 < k)
    (hle : (k : ℤ) ≤ Int.log 10 x + 1) (h : withDigits x k = some d) :
    0 ≤ d.2 ∧ d.1 < 10 ^ k ∧ d.2 ≤ Int.log 10 x + 2 - k := by
  have hlt : x < (10 : ℚ) ^ (Int.log 10 x + 1) := by
    exact_mod_cast Int.lt_zpow_succ_log_self (b := 10) (by decide) x
  have hs : ⌊x / 10 ^ (Int.log 10 x + 1 - k)⌋₊ < 10 ^ k := by
    rw [Nat.floor_lt (by positivity), div_lt_iff₀ (by positivity)]
    push_cast
    rw [← zpow_natCast, ← zpow_add₀ (by norm_num)]
    rwa [add_sub_cancel]
  have hcases : d = (around x k).1 ∨ d = (around x k).2 := by
    unfold withDigits at h
    dsimp only at h
    split_ifs at h
    · exact Or.inr (Option.some.inj h).symm
    · exact Or.inl (Option.some.inj h).symm
    · exact Or.inr (Option.some.inj h).symm
  rcases hcases with rfl | rfl
  · refine ⟨?_, hs, ?_⟩ <;> dsimp only [around] <;> omega
  · dsimp only [around]
    split
    · refine ⟨by dsimp only; omega, ?_, by dsimp only; omega⟩
      exact Nat.pow_lt_pow_right (by decide) (by omega)
    · refine ⟨by dsimp only; omega, ?_, by dsimp only; omega⟩
      dsimp only
      omega

/-- The shortest decimal has no more digits than one that is read back. -/
theorem exists_shortest {x : ℚ} {j : ℕ} (hj : j < 17) (h : (withDigits x (j + 1)).isSome = true) :
    ∃ k ≤ j, ∃ d, shortest x = d ∧ withDigits x (k + 1) = some d := by
  cases hfind : Padded.firstSome 17 (fun k => withDigits x (k + 1)) with
  | none =>
    have hnone := List.findSome?_eq_none_iff.mp hfind j (List.mem_range.mpr hj)
    rw [hnone] at h
    cases h
  | some d =>
    obtain ⟨k, hk, hkd, hfirst⟩ := Padded.firstSome_eq_some_iff.mp hfind
    refine ⟨k, ?_, d, ?_, hkd⟩
    · by_contra hlt
      rw [hfirst j (by omega)] at h
      cases h
    · rw [shortest]
      exact congrArg (fun o => Option.getD o _) hfind

/-- An integer of up to seventeen digits is printed with digits only. -/
theorem isDigit_toChars {x : Double} {n : ℕ} (hx : x.val = n) (hpos : 0 < n) (hlt : n < 10 ^ 17) :
    ∀ c ∈ toChars (.fin x), c.isDigit = true := by
  have hq : 0 < x.val := by
    rw [hx]
    exact_mod_cast hpos
  have hlog : Int.log 10 x.val = Nat.log 10 n := by
    rw [hx, Int.log_natCast]
  have hlen : Nat.log 10 n < 17 := Nat.log_lt_of_lt_pow hpos.ne' hlt
  -- all of its digits are read back
  have hall : (withDigits x.val (Nat.log 10 n + 1)).isSome = true := by
    have hfloor : ⌊x.val / 10 ^ (Int.log 10 x.val + 1 - ((Nat.log 10 n + 1 : ℕ) : ℤ))⌋₊ = n := by
      rw [hlog]
      push_cast
      rw [sub_self, zpow_zero, div_one, hx, Nat.floor_natCast]
    have hlo : round (decimalValue (around x.val (Nat.log 10 n + 1)).1) = x.val := by
      dsimp only [around, decimalValue]
      rw [hfloor, hlog]
      push_cast
      rw [sub_self, zpow_zero, mul_one, ← hx]
      exact x.exact
    unfold withDigits
    dsimp only
    rw [if_pos hlo]
    split <;> rfl
  obtain ⟨k, hk, d, hd, hkd⟩ := exists_shortest (Nat.lt_of_lt_of_le hlen (le_refl _)) hall
  obtain ⟨hp, hdigits, hup⟩ := withDigits_whole hq (Nat.succ_pos k) (by rw [hlog]; omega) hkd
  have hds : (Nat.toDigits 10 d.1).length ≤ k + 1 := length_toDigits_le (Nat.succ_pos k) hdigits
  intro c hc
  rw [hlog] at hup
  rw [toChars, if_neg hq.ne', if_neg hq.not_gt, hd, formatDecimal,
    if_pos (by push_cast at hup; omega)] at hc
  rcases List.mem_append.mp hc with hc | hc
  · exact Nat.isDigit_of_mem_toDigits (by decide) (by decide) hc
  · obtain rfl := List.eq_of_mem_replicate hc
    rfl
end JsNumber
