import Argus.Lib.Regrouping

/-!
# Integers of 32 bits as ECMAScript's operators treat them

The bitwise operators take their operands modulo 2^32, and count a shift modulo 32; what comes
out is read as a signed number, except of `>>>`.

* `toInt32` — the operand that a number stands for.
* `shl`, `ushr` — `<<` and `>>>`; `|` and `&` are those of `BitVec`.
* `bits_push`, `bits_drop`, `bits_pop`, `bits_align` — an accumulator is never masked, and its
  high bits are lost; only the low ones are read.
-/

abbrev JsInt32 := BitVec 32

namespace JsInt32

open Regrouping (bits bits_congr bits_add)

/-- `ToInt32`. -/
def toInt32 (n : ℕ) : JsInt32 := BitVec.ofNat 32 n

/-- `x << n`. -/
def shl (x : JsInt32) (n : ℕ) : JsInt32 := x <<< (n % 32)

/-- `x >>> n`. -/
def ushr (x : JsInt32) (n : ℕ) : JsInt32 := x >>> (n % 32)

theorem toNat_ushr (x : JsInt32) {n : ℕ} (h : n < 32) : (ushr x n).toNat = x.toNat >>> n := by
  rw [ushr, Nat.mod_eq_of_lt h, BitVec.toNat_ushiftRight]

theorem testBit_toInt32 {n i : ℕ} (hi : i < 32) : (toInt32 n).toNat.testBit i = n.testBit i := by
  rw [toInt32, BitVec.toNat_ofNat, Nat.testBit_mod_two_pow]
  simp [hi]

/-- `x & (2 ** w - 1)` are the low bits. -/
theorem toNat_and_mask (x : JsInt32) {w : ℕ} (hw : w ≤ 32) :
    (x &&& toInt32 (2 ^ w - 1)).toNat = x.toNat % 2 ^ w := by
  have hpow : 2 ^ w ≤ 2 ^ 32 := Nat.pow_le_pow_right (by decide) hw
  have hpos : 0 < 2 ^ w := Nat.two_pow_pos w
  rw [BitVec.toNat_and, toInt32, BitVec.toNat_ofNat, Nat.mod_eq_of_lt (by omega),
    Nat.and_two_pow_sub_one_eq_mod]

/-! ### Accumulators -/

/-- A digit is pushed below the bits that are there. -/
theorem bits_push (x : JsInt32) {b w d : ℕ} (hd : d < 2 ^ w) (h : b + w ≤ 32) (hw : w < 32) :
    bits (b + w) (shl x w ||| toInt32 d).toNat = bits b x.toNat ++ bits w d := by
  have hshl : ∀ i < b + w, (shl x w ||| toInt32 d).toNat.testBit i
      = if i < w then d.testBit i else x.toNat.testBit (i - w) := by
    intro i hi
    have hlt : i < 32 := by omega
    rw [BitVec.toNat_or, Nat.testBit_or, testBit_toInt32 hlt, shl, Nat.mod_eq_of_lt hw,
      BitVec.toNat_shiftLeft, Nat.testBit_mod_two_pow, Nat.testBit_shiftLeft]
    split
    · next hiw => simp [hiw]
    · next hiw =>
      -- the digit has no bits where the old ones have gone
      have hdi : d.testBit i = false :=
        Nat.testBit_lt_two_pow (Nat.lt_of_lt_of_le hd
          (Nat.pow_le_pow_right (by decide) (Nat.le_of_not_lt hiw)))
      simp [hlt, hdi, Nat.le_of_not_lt hiw]
  rw [bits_add]
  congr 1
  · apply bits_congr
    intro i hi
    rw [Nat.testBit_shiftRight, hshl _ (by omega), if_neg (by omega)]
    exact congrArg _ (by omega)
  · apply bits_congr
    intro i hi
    rw [hshl i (by omega), if_pos hi]

/-- A digit is taken off the top of the bits that are there. -/
theorem bits_pop (x : JsInt32) {b w : ℕ} (hb : b < 32) (hw : w ≤ 32) :
    bits (w + b) x.toNat
      = bits w (ushr x b &&& toInt32 (2 ^ w - 1)).toNat ++ bits b x.toNat := by
  rw [bits_add, toNat_and_mask _ hw, toNat_ushr x hb]
  congr 1
  apply bits_congr
  intro i hi
  rw [Nat.testBit_mod_two_pow]
  simp [hi]

/-- The bits that are there, filled up with zeros. -/
theorem bits_align (x : JsInt32) {b w : ℕ} (hw : w < 32) (h : b ≤ w) :
    bits w (shl x (w - b) &&& toInt32 (2 ^ w - 1)).toNat
      = bits b x.toNat ++ List.replicate (w - b) false := by
  have hpush := bits_push x (Nat.two_pow_pos (w - b)) (Nat.le_of_lt (by omega : b + (w - b) < 32))
    (by omega)
  rw [Regrouping.bits_zero, Nat.add_sub_cancel' h] at hpush
  rw [← hpush, toNat_and_mask _ (Nat.le_of_lt hw)]
  apply bits_congr
  intro i hi
  rw [Nat.testBit_mod_two_pow, BitVec.toNat_or, Nat.testBit_or, testBit_toInt32 (by omega),
    Nat.zero_testBit]
  simp [hi]

end JsInt32
