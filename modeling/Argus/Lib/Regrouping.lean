import Mathlib.Data.List.Basic
import Mathlib.Data.Nat.Bitwise

/-!
# Digits of one width regrouped into digits of another

A sequence of digits is read as the bits it is made of, the high ones first.  An encoder and a
decoder cut the same bits into digits of different widths.

* `bits w n` — the low `w` bits of `n`.
* `bits_add` — the bits above a place and those below it, which is how a digit is taken off an
  accumulator.
* `digits_inj` — one way to cut bits into digits, with less than a digit left over.
* `decoded_eq` — what an encoder filled up with zeros, a decoder gives back.
-/

namespace Regrouping

/-- The low `w` bits of a number, the high ones first. -/
def bits : ℕ → ℕ → List Bool
  | 0, _ => []
  | w + 1, n => n.testBit w :: bits w n

@[simp] theorem length_bits (w n : ℕ) : (bits w n).length = w := by
  induction w with
  | zero => rfl
  | succ w ih => rw [bits, List.length_cons, ih]

/-- Only the low bits of a number count. -/
theorem bits_congr {w n m : ℕ} (h : ∀ i < w, n.testBit i = m.testBit i) : bits w n = bits w m := by
  induction w with
  | zero => rfl
  | succ w ih =>
    rw [bits, bits, h w (Nat.lt_succ_self w), ih (fun i hi => h i (Nat.lt_succ_of_lt hi))]

theorem testBit_of_bits {w n m : ℕ} (h : bits w n = bits w m) :
    ∀ i < w, n.testBit i = m.testBit i := by
  induction w with
  | zero =>
    intro i hi
    omega
  | succ w ih =>
    intro i hi
    have hcons := List.cons.inj h
    rcases Nat.lt_succ_iff_lt_or_eq.mp hi with hlt | rfl
    · exact ih hcons.2 i hlt
    · exact hcons.1

theorem bits_inj {w n m : ℕ} (hn : n < 2 ^ w) (hm : m < 2 ^ w) (h : bits w n = bits w m) :
    n = m := by
  apply Nat.eq_of_testBit_eq
  intro i
  by_cases hi : i < w
  · exact testBit_of_bits h i hi
  · have hle : 2 ^ w ≤ 2 ^ i := Nat.pow_le_pow_right (by decide) (Nat.le_of_not_lt hi)
    rw [Nat.testBit_lt_two_pow (by omega), Nat.testBit_lt_two_pow (by omega)]

/-- The bits from a place on, and the ones below it. -/
theorem bits_add (m k n : ℕ) : bits (m + k) n = bits m (n >>> k) ++ bits k n := by
  induction m with
  | zero => rw [Nat.zero_add, bits, List.nil_append]
  | succ m ih =>
    rw [Nat.succ_add, bits, bits, ih, List.cons_append, Nat.testBit_shiftRight, Nat.add_comm k m]

theorem bits_zero (w : ℕ) : bits w 0 = List.replicate w false := by
  induction w with
  | zero => rfl
  | succ w ih => rw [bits, ih, Nat.zero_testBit, List.replicate_succ]

/-! ### Cutting into digits -/

/-- The bits of a sequence of digits of width `w`. -/
def stream (w : ℕ) (ds : List ℕ) : List Bool := ds.flatMap (bits w)

@[simp] theorem stream_nil (w : ℕ) : stream w [] = [] := rfl

@[simp] theorem stream_cons (w d : ℕ) (ds : List ℕ) :
    stream w (d :: ds) = bits w d ++ stream w ds := rfl

@[simp] theorem stream_append (w : ℕ) (ds es : List ℕ) :
    stream w (ds ++ es) = stream w ds ++ stream w es := List.flatMap_append

@[simp] theorem length_stream (w : ℕ) (ds : List ℕ) : (stream w ds).length = w * ds.length := by
  induction ds with
  | nil => rfl
  | cons d ds ih =>
    rw [stream_cons, List.length_append, length_bits, ih, List.length_cons, Nat.mul_succ,
      Nat.add_comm]

/-- Bits are cut into digits in one way only, where less than a digit is left over. -/
theorem digits_inj {w : ℕ} {ds es : List ℕ} {r t : List Bool} (hds : ∀ d ∈ ds, d < 2 ^ w)
    (hes : ∀ e ∈ es, e < 2 ^ w) (hr : r.length < w) (ht : t.length < w)
    (h : stream w ds ++ r = stream w es ++ t) : ds = es ∧ r = t := by
  induction ds generalizing es with
  | nil =>
    cases es with
    | nil => exact ⟨rfl, h⟩
    | cons e es =>
      -- what is left over of the one is shorter than a digit of the other
      have hlen := congrArg List.length h
      simp only [stream_nil, List.nil_append, stream_cons, List.length_append, length_bits] at hlen
      omega
  | cons d ds ih =>
    cases es with
    | nil =>
      have hlen := congrArg List.length h
      simp only [stream_nil, List.nil_append, stream_cons, List.length_append, length_bits] at hlen
      omega
    | cons e es =>
      rw [List.forall_mem_cons] at hds hes
      rw [stream_cons, stream_cons, List.append_assoc, List.append_assoc] at h
      obtain ⟨hhead, htail⟩ := List.append_inj h (by rw [length_bits, length_bits])
      obtain ⟨rfl, hrest⟩ := ih hds.2 hes.2 htail
      obtain rfl := bits_inj hds.1 hes.1 hhead
      exact ⟨rfl, hrest⟩

/-- Digits that were filled up with zeros and cut the other way are read back. -/
theorem decoded_eq {m n k : ℕ} {ds es out : List ℕ} {r : List Bool} (hds : ∀ d ∈ ds, d < 2 ^ m)
    (hout : ∀ d ∈ out, d < 2 ^ m) (hk : k < m) (hr : r.length < m)
    (henc : stream m ds ++ List.replicate k false = stream n es)
    (hdec : stream n es = stream m out ++ r) : out = ds := by
  have hlen : (List.replicate k false).length < m := by
    rw [List.length_replicate]
    exact hk
  exact (digits_inj hout hds hr hlen (hdec.symm.trans henc.symm)).1

end Regrouping
