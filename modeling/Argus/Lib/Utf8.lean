import Mathlib.Data.List.Basic

/-!
# UTF-8 as a platform writes and reads it

* `bytes` — the bytes of a text.
* `text` — the text of some bytes, with U+FFFD for what is no UTF-8.
* `text_bytes` — a text is read back from its bytes.
-/

namespace Utf8

/-- `Buffer.from(s, "utf8")`. -/
def bytes (s : String) : List UInt8 := s.toList.flatMap String.utf8EncodeChar

/-- A decoder between two bytes: the bits of the character so far, how many bytes of it are
    missing, and the range of the next one. -/
structure Decoder where
  point : ℕ
  needed : ℕ
  lower : ℕ
  upper : ℕ

def replacement : Char := '\uFFFD'

/-- The first byte of a character: what it gives at once, and what it begins. -/
def start (b : ℕ) : List Char × Decoder :=
  let between : Decoder := ⟨0, 0, 0x80, 0xBF⟩
  if b < 0x80 then ([Char.ofNat b], between)
  else if 0xC2 ≤ b ∧ b ≤ 0xDF then ([], ⟨b % 0x20, 1, 0x80, 0xBF⟩)
  else if 0xE0 ≤ b ∧ b ≤ 0xEF then
    ([], ⟨b % 0x10, 2, if b = 0xE0 then 0xA0 else 0x80, if b = 0xED then 0x9F else 0xBF⟩)
  else if 0xF0 ≤ b ∧ b ≤ 0xF4 then
    ([], ⟨b % 8, 3, if b = 0xF0 then 0x90 else 0x80, if b = 0xF4 then 0x8F else 0xBF⟩)
  else ([replacement], between)

/-- The bytes behind a decoder; one out of its range begins anew. -/
def decode : Decoder → List UInt8 → List Char
  | d, [] => if d.needed = 0 then [] else [replacement]
  | d, b :: bs =>
    if d.needed = 0 then (start b.toNat).1 ++ decode (start b.toNat).2 bs
    else if d.lower ≤ b.toNat ∧ b.toNat ≤ d.upper then
      let point := d.point * 0x40 + b.toNat % 0x40
      if d.needed = 1 then Char.ofNat point :: decode ⟨0, 0, 0x80, 0xBF⟩ bs
      else decode ⟨point, d.needed - 1, 0x80, 0xBF⟩ bs
    else replacement :: (start b.toNat).1 ++ decode (start b.toNat).2 bs

/-- `buf.toString("utf8")`. -/
def text (bs : List UInt8) : String := String.ofList (decode ⟨0, 0, 0x80, 0xBF⟩ bs)

/-! ### Reading back -/

theorem toNat_ofNat {n : ℕ} (h : n < 256) : (UInt8.ofNat n).toNat = n := by
  rw [UInt8.toNat_ofNat', Nat.mod_eq_of_lt h]

/-- A byte in the range, and the last one that is missing or not. -/
theorem decode_last {p l u b : ℕ} (hb : b < 256) (h : l ≤ b ∧ b ≤ u) (bs : List UInt8) :
    decode ⟨p, 1, l, u⟩ (.ofNat b :: bs)
      = Char.ofNat (p * 0x40 + b % 0x40) :: decode ⟨0, 0, 0x80, 0xBF⟩ bs := by
  rw [decode, if_neg Nat.one_ne_zero, toNat_ofNat hb, if_pos h]
  exact if_pos rfl

theorem decode_next {p n l u b : ℕ} (hn : n ≠ 0) (hb : b < 256) (h : l ≤ b ∧ b ≤ u)
    (bs : List UInt8) :
    decode ⟨p, n + 1, l, u⟩ (.ofNat b :: bs)
      = decode ⟨p * 0x40 + b % 0x40, n, 0x80, 0xBF⟩ bs := by
  rw [decode, if_neg (Nat.succ_ne_zero n), toNat_ofNat hb, if_pos h]
  exact if_neg (fun heq => hn (Nat.succ.inj heq))

theorem decode_start {b : ℕ} (hb : b < 256) (bs : List UInt8) :
    decode ⟨0, 0, 0x80, 0xBF⟩ (.ofNat b :: bs) = (start b).1 ++ decode (start b).2 bs := by
  rw [decode, if_pos rfl, toNat_ofNat hb]

/-- The bytes of a character are read as the character. -/
theorem decode_char (c : Char) (bs : List UInt8) :
    decode ⟨0, 0, 0x80, 0xBF⟩ (String.utf8EncodeChar c ++ bs)
      = c :: decode ⟨0, 0, 0x80, 0xBF⟩ bs := by
  have hvalid : c.toNat < 0xD800 ∨ 0xDFFF < c.toNat ∧ c.toNat < 0x110000 := c.valid
  have hchar : Char.ofNat c.toNat = c := Char.ofNat_toNat c
  unfold String.utf8EncodeChar
  dsimp only
  rw [show c.val.toNat = c.toNat from rfl]
  generalize c.toNat = n at hvalid hchar ⊢
  -- the lengths of one byte to four; the first byte tells the range of the second
  split_ifs with h1 h2 h3
  · have hstart : start n = ([Char.ofNat n], ⟨0, 0, 0x80, 0xBF⟩) := if_pos (by omega)
    rw [List.singleton_append, decode_start (by omega), hstart, hchar]
    rfl
  · have hstart : start (n / 64 % 32 + 0xC0) = ([], ⟨n / 64, 1, 0x80, 0xBF⟩) := by
      rw [start, if_neg (by omega), if_pos (by omega)]
      congr 2
      omega
    rw [List.cons_append, List.singleton_append, decode_start (by omega), hstart,
      List.nil_append, decode_last (by omega) (by omega), ← hchar]
    congr 2
    omega
  · have hstart : start (n / 4096 % 16 + 0xE0)
        = ([], ⟨n / 4096, 2, if n / 4096 % 16 + 0xE0 = 0xE0 then 0xA0 else 0x80,
            if n / 4096 % 16 + 0xE0 = 0xED then 0x9F else 0xBF⟩) := by
      rw [start, if_neg (by omega), if_neg (by omega), if_pos (by omega)]
      congr 2
      omega
    rw [List.cons_append, List.cons_append, List.singleton_append, decode_start (by omega), hstart,
      List.nil_append, decode_next (by decide) (by omega) ?_, decode_last (by omega) (by omega),
      ← hchar]
    · congr 2
      omega
    · -- neither an overlong form nor a surrogate
      split_ifs <;> omega
  · have hstart : start (n / 262144 % 8 + 0xF0)
        = ([], ⟨n / 262144, 3, if n / 262144 % 8 + 0xF0 = 0xF0 then 0x90 else 0x80,
            if n / 262144 % 8 + 0xF0 = 0xF4 then 0x8F else 0xBF⟩) := by
      rw [start, if_neg (by omega), if_neg (by omega), if_neg (by omega), if_pos (by omega)]
      congr 2
      omega
    rw [List.cons_append, List.cons_append, List.cons_append, List.singleton_append,
      decode_start (by omega), hstart, List.nil_append, decode_next (by decide) (by omega) ?_,
      decode_next (by decide) (by omega) (by omega), decode_last (by omega) (by omega), ← hchar]
    · congr 2
      omega
    · split_ifs <;> omega

theorem text_bytes (s : String) : text (bytes s) = s := by
  have hdecode : ∀ cs : List Char,
      decode ⟨0, 0, 0x80, 0xBF⟩ (cs.flatMap String.utf8EncodeChar) = cs := by
    intro cs
    induction cs with
    | nil => rfl
    | cons c cs ih => rw [List.flatMap_cons, decode_char, ih]
  rw [text, bytes, hdecode, String.ofList_toList]

theorem bytes_injective : Function.Injective bytes :=
  Function.LeftInverse.injective text_bytes

end Utf8
