import Mathlib.Algebra.Group.Nat.Defs
import Mathlib.Data.List.Basic
import Mathlib.Data.Int.Basic

/-!
# Numerals and the order of texts

* `pad w n` — `n` with exactly `w` decimal digits.  Texts of one length compare like the
  numbers they stand for (`pad_lt_iff`), and a text that starts with blocks of fixed lengths
  compares block by block (`append_lt_append_iff`).
* `decimal n` — an integer as a program prints it, and `padStart`, which fills it up from the
  left; both can be told apart again (`padStart_decimal_inj`), and a number that fits is
  filled up to `pad` (`padStart_toDigits`).
-/

namespace Numerals

/-! ### Texts of fixed length -/

/-- The last `w` decimal digits of `n`. -/
def pad : ℕ → ℕ → List Char
  | 0, _ => []
  | w + 1, n => pad w (n / 10) ++ [Nat.digitChar (n % 10)]

@[simp] theorem length_pad (w n : ℕ) : (pad w n).length = w := by
  induction w generalizing n with
  | zero => rfl
  | succ w ih => simp [pad, ih]

theorem isDigit_of_mem_pad {w n : ℕ} {c : Char} (h : c ∈ pad w n) : c.isDigit = true := by
  induction w generalizing n with
  | zero => exact absurd h List.not_mem_nil
  | succ w ih =>
    rcases List.mem_append.mp h with h | h
    · exact ih h
    · obtain rfl := List.mem_singleton.mp h
      have hdigit : ∀ m < 10, (Nat.digitChar m).isDigit = true := by decide
      exact hdigit _ (Nat.mod_lt n (by decide))

theorem digitChar_inj : ∀ m < 10, ∀ n < 10, Nat.digitChar m = Nat.digitChar n → m = n := by
  decide

theorem digitChar_lt_iff : ∀ m < 10, ∀ n < 10, Nat.digitChar m < Nat.digitChar n ↔ m < n := by
  decide

theorem pad_inj {w n m : ℕ} (hn : n < 10 ^ w) (hm : m < 10 ^ w) : pad w n = pad w m ↔ n = m := by
  refine ⟨fun h => ?_, fun h => by rw [h]⟩
  induction w generalizing n m with
  | zero =>
    rw [Nat.pow_zero] at hn hm
    omega
  | succ w ih =>
    rw [Nat.pow_succ] at hn hm
    obtain ⟨hhigh, hlow⟩ := List.append_inj h (by simp)
    have hdiv := ih (Nat.div_lt_of_lt_mul (by omega)) (Nat.div_lt_of_lt_mul (by omega)) hhigh
    have hmod := digitChar_inj _ (Nat.mod_lt n (by decide)) _ (Nat.mod_lt m (by decide))
      (List.singleton_inj.mp hlow)
    omega

/-- Texts compare block by block. -/
theorem append_lt_append_iff {a b x y : List Char} (h : a.length = b.length) :
    a ++ x < b ++ y ↔ a < b ∨ a = b ∧ x < y := by
  induction a generalizing b with
  | nil =>
    obtain rfl : b = [] := List.eq_nil_of_length_eq_zero h.symm
    simp
  | cons c a ih =>
    cases b with
    | nil => simp at h
    | cons d b =>
      rw [List.cons_append, List.cons_append, List.cons_lt_cons_iff, List.cons_lt_cons_iff,
        ih (by simpa using h), List.cons.injEq]
      tauto

/-- Numerals of one length compare like numbers. -/
theorem pad_lt_iff {w n m : ℕ} (hn : n < 10 ^ w) (hm : m < 10 ^ w) :
    pad w n < pad w m ↔ n < m := by
  induction w generalizing n m with
  | zero =>
    rw [Nat.pow_zero] at hn hm
    simp only [pad, List.not_lt_nil, false_iff]
    omega
  | succ w ih =>
    rw [Nat.pow_succ] at hn hm
    have hn' : n / 10 < 10 ^ w := Nat.div_lt_of_lt_mul (by omega)
    have hm' : m / 10 < 10 ^ w := Nat.div_lt_of_lt_mul (by omega)
    have hdigit : [Nat.digitChar (n % 10)] < [Nat.digitChar (m % 10)] ↔ n % 10 < m % 10 := by
      rw [List.cons_lt_cons_iff, digitChar_lt_iff _ (Nat.mod_lt n (by decide)) _
        (Nat.mod_lt m (by decide))]
      simp
    rw [pad, pad, append_lt_append_iff (by simp), ih hn' hm', pad_inj hn' hm', hdigit]
    omega

/-- A numeral and a separator in front of a text. -/
theorem pad_cons_lt_iff {w n m : ℕ} {c : Char} {x y : List Char} (hn : n < 10 ^ w)
    (hm : m < 10 ^ w) : pad w n ++ c :: x < pad w m ++ c :: y ↔ n < m ∨ n = m ∧ x < y := by
  have hcons : c :: x < c :: y ↔ x < y := by simp
  rw [append_lt_append_iff (by simp), pad_lt_iff hn hm, pad_inj hn hm, hcons]

theorem pad_cons_inj {w n m : ℕ} {c : Char} {x y : List Char} (hn : n < 10 ^ w)
    (hm : m < 10 ^ w) : pad w n ++ c :: x = pad w m ++ c :: y ↔ n = m ∧ x = y := by
  rw [← pad_inj hn hm]
  constructor
  · intro h
    obtain ⟨hpad, hcons⟩ := List.append_inj h (by simp)
    exact ⟨hpad, (List.cons.inj hcons).2⟩
  · rintro ⟨hpad, rfl⟩
    rw [hpad]

/-! ### Integers as they are printed -/

/-- `String(n)`. -/
def decimal : ℤ → List Char
  | .ofNat n => Nat.toDigits 10 n
  | .negSucc n => '-' :: Nat.toDigits 10 (n + 1)

/-- `padStart`. -/
def padStart (w : ℕ) (fill : Char) (cs : List Char) : List Char :=
  List.replicate (w - cs.length) fill ++ cs

theorem isDigit_of_mem_padStart {n w : ℕ} {c : Char}
    (h : c ∈ padStart w '0' (Nat.toDigits 10 n)) : c.isDigit = true := by
  rcases List.mem_append.mp h with hfill | hdigit
  · obtain rfl := List.eq_of_mem_replicate hfill
    rfl
  · exact Nat.isDigit_of_mem_toDigits (by decide) (by decide) hdigit

theorem ofDigitChars_padStart (w n : ℕ) :
    Nat.ofDigitChars 10 (padStart w '0' (Nat.toDigits 10 n)) 0 = n := by
  rw [padStart, Nat.ofDigitChars_append, Nat.ofDigitChars_replicate_zero, Nat.mul_zero,
    Nat.ofDigitChars_ten_toDigits]

/-- A number that fits is filled up to its numeral of that length. -/
theorem padStart_toDigits {w n : ℕ} (hn : n < 10 ^ (w + 1)) :
    padStart (w + 1) '0' (Nat.toDigits 10 n) = pad (w + 1) n := by
  induction w generalizing n with
  | zero =>
    have hlt : n < 10 := by simpa using hn
    rw [Nat.toDigits_of_lt_base hlt]
    simp [padStart, pad, Nat.mod_eq_of_lt hlt]
  | succ w ih =>
    have hdiv : n / 10 < 10 ^ (w + 1) := by
      rw [Nat.pow_succ] at hn
      exact Nat.div_lt_of_lt_mul (by omega)
    have hpad : pad (w + 2) n = pad (w + 1) (n / 10) ++ [Nat.digitChar (n % 10)] := rfl
    rw [hpad, ← ih hdiv]
    -- the last digit is split off where there is more than one
    rcases Nat.lt_or_ge n 10 with hlt | hge
    · rw [Nat.toDigits_of_lt_base hlt, Nat.div_eq_of_lt hlt, Nat.toDigits_zero,
        Nat.mod_eq_of_lt hlt]
      simp [padStart, List.replicate_succ']
    · rw [Nat.toDigits_of_base_le (by decide) hge]
      simp [padStart]

/-- A sign leaves nothing to fill up. -/
theorem padStart_negSucc (n : ℕ) :
    padStart 2 '0' (decimal (.negSucc n)) = '-' :: Nat.toDigits 10 (n + 1) := by
  have hpos : 0 < (Nat.toDigits 10 (n + 1)).length := Nat.length_toDigits_pos
  have hzero : 2 - ('-' :: Nat.toDigits 10 (n + 1)).length = 0 := by
    rw [List.length_cons]
    omega
  rw [padStart, decimal, hzero]
  rfl

theorem padStart_decimal_inj {a b : ℤ} :
    padStart 2 '0' (decimal a) = padStart 2 '0' (decimal b) ↔ a = b := by
  refine ⟨fun h => ?_, fun h => by rw [h]⟩
  have hsign : ∀ n m : ℕ, padStart 2 '0' (decimal (.ofNat n))
      ≠ padStart 2 '0' (decimal (.negSucc m)) := by
    intro n m heq
    rw [padStart_negSucc] at heq
    have hminus : '-' ∈ padStart 2 '0' (Nat.toDigits 10 n) := by
      show '-' ∈ padStart 2 '0' (decimal (.ofNat n))
      rw [heq]
      exact List.mem_cons_self
    exact absurd (isDigit_of_mem_padStart hminus) (by decide)
  cases a with
  | ofNat n =>
    cases b with
    | ofNat m =>
      have hvalue := congrArg (Nat.ofDigitChars 10 · 0) h
      simp only [decimal, ofDigitChars_padStart] at hvalue
      rw [hvalue]
    | negSucc m => exact absurd h (hsign n m)
  | negSucc n =>
    cases b with
    | ofNat m => exact absurd h.symm (hsign m n)
    | negSucc m =>
      rw [padStart_negSucc, padStart_negSucc] at h
      have hvalue := congrArg (Nat.ofDigitChars 10 · 0) (List.cons.inj h).2
      simp only [Nat.ofDigitChars_ten_toDigits] at hvalue
      rw [Nat.succ.inj hvalue]

theorem decimal_inj {a b : ℤ} : decimal a = decimal b ↔ a = b :=
  ⟨fun h => padStart_decimal_inj.mp (by rw [h]), fun h => by rw [h]⟩

/-- A printed integer is made of digits and the sign. -/
theorem notMem_decimal {c : Char} (hdigit : c.isDigit = false) (hsign : c ≠ '-') (n : ℤ) :
    c ∉ decimal n := by
  have hdigits : ∀ m : ℕ, c ∉ Nat.toDigits 10 m := by
    intro m hmem
    rw [Nat.isDigit_of_mem_toDigits (by decide) (by decide) hmem] at hdigit
    exact Bool.noConfusion hdigit
  cases n with
  | ofNat n => exact hdigits n
  | negSucc n =>
    rw [decimal, List.mem_cons, not_or]
    exact ⟨hsign, hdigits (n + 1)⟩

/-- A text is cut at the first place of a character. -/
theorem append_cons_inj {x x' u u' : List Char} {c : Char} (hx : c ∉ x) (hx' : c ∉ x') :
    x ++ c :: u = x' ++ c :: u' ↔ x = x' ∧ u = u' := by
  refine ⟨fun h => ?_, fun h => by rw [h.1, h.2]⟩
  induction x generalizing x' with
  | nil =>
    cases x' with
    | nil => exact ⟨rfl, (List.cons.inj h).2⟩
    | cons d x' => exact absurd List.mem_cons_self ((List.cons.inj h).1 ▸ hx')
  | cons d x ih =>
    cases x' with
    | nil => exact absurd List.mem_cons_self ((List.cons.inj h).1 ▸ hx)
    | cons e x' =>
      obtain ⟨rfl, htail⟩ := List.cons.inj h
      rw [List.mem_cons, not_or] at hx hx'
      obtain ⟨rfl, rfl⟩ := ih hx.2 hx'.2 htail
      exact ⟨rfl, rfl⟩

end Numerals
