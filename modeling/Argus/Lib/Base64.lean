import Mathlib.Data.List.Basic

/-!
# Base64

* `encode` — the encoding of RFC 4648 with its padding.
* `decode` — a lenient decoder: both alphabets, anything else skipped, and the end at the first
  padding character.
* `decode_encode` — what is encoded is read back.
* `isCanonical` — a text that is the encoding of what it decodes to.
-/

namespace Base64

def alphabet : List Char :=
  "ABCDEFGHIJKLMNOPQRSTUVWXYZabcdefghijklmnopqrstuvwxyz0123456789+/".toList

def char (n : ℕ) : Char := alphabet.getD n '='

/-- Three bytes in four characters; the last group may be shorter. -/
def encode : List UInt8 → List Char
  | [] => []
  | [a] => [char (a.toNat / 4), char (a.toNat % 4 * 16), '=', '=']
  | [a, b] =>
    [char (a.toNat / 4), char (a.toNat % 4 * 16 + b.toNat / 16), char (b.toNat % 16 * 4), '=']
  | a :: b :: c :: bytes =>
    char (a.toNat / 4) :: char (a.toNat % 4 * 16 + b.toNat / 16)
      :: char (b.toNat % 16 * 4 + c.toNat / 64) :: char (c.toNat % 64) :: encode bytes

/-- The digit of a character, in the alphabet or in the one for URLs. -/
def digit (c : Char) : Option ℕ :=
  if c = '-' then some 62 else if c = '_' then some 63 else alphabet.idxOf? c

/-- Four digits in three bytes; what is left of a shorter group is dropped. -/
def group : List ℕ → List UInt8
  | x :: y :: z :: w :: digits =>
    .ofNat (x * 4 + y / 16) :: .ofNat (y % 16 * 16 + z / 4) :: .ofNat (z % 4 * 64 + w)
      :: group digits
  | [x, y, z] => [.ofNat (x * 4 + y / 16), .ofNat (y % 16 * 16 + z / 4)]
  | [x, y] => [.ofNat (x * 4 + y / 16)]
  | _ => []

def decode (s : List Char) : List UInt8 :=
  group ((s.takeWhile fun c => decide (c ≠ '=')).filterMap digit)

/-- Some bytes have this encoding: what the text decodes to. -/
def isCanonical (s : List Char) : Bool := decide (encode (decode s) = s)

/-! ### The alphabet -/

theorem digit_char : ∀ n < 64, digit (char n) = some n ∧ char n ≠ '=' ∧ char n ∈ alphabet := by
  decide +kernel

theorem byte_digits (a b c : UInt8) :
    a.toNat / 4 < 64 ∧ a.toNat % 4 * 16 < 64 ∧ a.toNat % 4 * 16 + b.toNat / 16 < 64
      ∧ b.toNat % 16 * 4 < 64 ∧ b.toNat % 16 * 4 + c.toNat / 64 < 64 ∧ c.toNat % 64 < 64 := by
  have ha := a.toNat_lt
  have hb := b.toNat_lt
  have hc := c.toNat_lt
  omega

/-- An encoding has characters of the alphabet and padding. -/
theorem mem_encode (bytes : List UInt8) : ∀ c ∈ encode bytes, c ∈ alphabet ∨ c = '=' := by
  have hchar : ∀ n < 64, char n ∈ alphabet ∨ char n = '=' :=
    fun n hn => Or.inl (digit_char n hn).2.2
  fun_induction encode bytes with
  | case1 => exact fun c hc => absurd hc List.not_mem_nil
  | case2 a =>
    obtain ⟨h1, h2, -⟩ := byte_digits a a a
    simp only [List.forall_mem_cons]
    exact ⟨hchar _ h1, hchar _ h2, Or.inr trivial, Or.inr trivial,
      fun c hc => absurd hc List.not_mem_nil⟩
  | case3 a b =>
    obtain ⟨h1, -, h2, h3, -⟩ := byte_digits a b b
    simp only [List.forall_mem_cons]
    exact ⟨hchar _ h1, hchar _ h2, hchar _ h3, Or.inr trivial,
      fun c hc => absurd hc List.not_mem_nil⟩
  | case4 a b c bytes ih =>
    obtain ⟨h1, -, h2, -, h3, h4⟩ := byte_digits a b c
    simp only [List.forall_mem_cons]
    exact ⟨hchar _ h1, hchar _ h2, hchar _ h3, hchar _ h4, ih⟩

theorem all_alphabet : alphabet.all (fun c => c.isAlphanum || c == '+' || c == '/') = true := by
  decide

/-- No other character stands in an encoding. -/
theorem notMem_encode {c : Char} (h : (c.isAlphanum || c == '+' || c == '/' || c == '=') = false)
    (bytes : List UInt8) : c ∉ encode bytes := by
  intro hc
  rcases mem_encode bytes c hc with hc | rfl
  · rw [List.all_eq_true.mp all_alphabet c hc] at h
    cases h
  · cases h

/-! ### Reading back -/

/-- A character of the alphabet is read as its digit. -/
theorem decode_cons {n : ℕ} (hn : n < 64) (s : List Char) :
    ((char n :: s).takeWhile fun c => decide (c ≠ '=')).filterMap digit
      = n :: (s.takeWhile fun c => decide (c ≠ '=')).filterMap digit := by
  obtain ⟨hdigit, hne, -⟩ := digit_char n hn
  rw [List.takeWhile_cons_of_pos (by simpa using hne), List.filterMap_cons_some hdigit]

theorem ofNat_of_eq {n : ℕ} {a : UInt8} (h : n = a.toNat) : UInt8.ofNat n = a := by
  rw [h, UInt8.ofNat_toNat]

theorem decode_encode (bytes : List UInt8) : decode (encode bytes) = bytes := by
  fun_induction encode bytes with
  | case1 => rfl
  | case2 a =>
    obtain ⟨h1, h2, -⟩ := byte_digits a a a
    rw [decode, decode_cons h1, decode_cons h2]
    show [UInt8.ofNat _] = _
    rw [@ofNat_of_eq _ a (by omega)]
  | case3 a b =>
    obtain ⟨h1, -, h2, h3, -⟩ := byte_digits a b b
    have hb := b.toNat_lt
    rw [decode, decode_cons h1, decode_cons h2, decode_cons h3]
    show [UInt8.ofNat _, UInt8.ofNat _] = _
    rw [@ofNat_of_eq _ a (by omega), @ofNat_of_eq _ b (by omega)]
  | case4 a b c bytes ih =>
    obtain ⟨h1, -, h2, -, h3, h4⟩ := byte_digits a b c
    have hb := b.toNat_lt
    have hc := c.toNat_lt
    rw [decode, decode_cons h1, decode_cons h2, decode_cons h3, decode_cons h4]
    show UInt8.ofNat _ :: UInt8.ofNat _ :: UInt8.ofNat _ :: decode (encode bytes) = _
    rw [ih, @ofNat_of_eq _ a (by omega), @ofNat_of_eq _ b (by omega), @ofNat_of_eq _ c (by omega)]

theorem isCanonical_encode (bytes : List UInt8) : isCanonical (encode bytes) = true := by
  rw [isCanonical, decode_encode, decide_eq_true rfl]

end Base64
