import Argus.Lib.JsInt32
import Argus.Lib.UpperCase
import Mathlib.Algebra.Order.Floor.Div
import Mathlib.GroupTheory.GroupAction.Ring

namespace Argus.Core

/-!
# Base32

`base32Encode` and `base32Decode` of `totp.ts`.  Both keep an accumulator of 32 bits that is
never masked.

* `EncodeLoop`, `DecodeLoop` — the state of the loops, and one turn of each.
* `EncodeLoop.Holds`, `DecodeLoop.Holds` — what the accumulators hold: the bits read so far, less
  the ones written; the rest of the 32 bits does not matter.
* `encoded`, `run_digits` — the two functions as ways to cut the same bits.
* `Rewritten` — a text with white space in it and letters in lower case.
-/

-- a property of all characters of a text is decided on the text
attribute [local instance (1100)] List.decidableBAll

/-! ### Encoding -/

/-- `BASE32_ALPHABET`. -/
def BASE32_ALPHABET : List Char := "ABCDEFGHIJKLMNOPQRSTUVWXYZ234567".toList

/-- `BASE32_ALPHABET[x]`. -/
def base32Char (x : JsInt32) : Char := BASE32_ALPHABET.getD x.toNat ' '

structure EncodeLoop where
  bits : ℕ
  value : JsInt32
  output : List Char

namespace EncodeLoop

/-- `while (bits >= 5)`, with `bits - 5` as the number below. -/
def drain (value : JsInt32) (output : List Char) : ℕ → EncodeLoop
  | bits + 5 => drain value (output ++ [base32Char (value.ushr bits &&& .toInt32 31)]) bits
  | bits => ⟨bits, value, output⟩

/-- A turn of the loop over the bytes. -/
def turn (st : EncodeLoop) (byte : UInt8) : EncodeLoop :=
  drain (st.value.shl 8 ||| .toInt32 byte.toNat) st.output (st.bits + 8)

/-- The remaining bits. -/
def flush (st : EncodeLoop) : List Char :=
  if 0 < st.bits then st.output ++ [base32Char (st.value.shl (5 - st.bits) &&& .toInt32 31)]
  else st.output

end EncodeLoop

/-- `base32Encode`. -/
def base32Encode (buf : List UInt8) : String :=
  String.ofList (buf.foldl EncodeLoop.turn ⟨0, 0, []⟩).flush

/-! ### Decoding -/

/-- `.replace(/=+$/g, "")`. -/
def stripPadding (s : List Char) : List Char := s.rdropWhile (· == '=')

/-- `.replace(/\s+/g, "")`. -/
def stripSpace (s : List Char) : List Char := s.filter fun c => !JsText.isSpace c

structure DecodeLoop where
  bits : ℕ
  value : JsInt32
  bytes : List UInt8

namespace DecodeLoop

/-- A character of the alphabet at `idx`. -/
def turn (st : DecodeLoop) (idx : ℕ) : DecodeLoop :=
  let value := st.value.shl 5 ||| .toInt32 idx
  let bits := st.bits + 5
  if 8 ≤ bits then
    ⟨bits - 8, value, st.bytes ++ [.ofNat (value.ushr (bits - 8) &&& .toInt32 0xFF).toNat]⟩
  else ⟨bits, value, st.bytes⟩

/-- The loop over the characters. -/
def run (st : DecodeLoop) : List Char → Except String (List UInt8)
  | [] => .ok st.bytes
  | char :: clean =>
    match BASE32_ALPHABET.idxOf? char with
    | none => .error ("Invalid base32 character: \"" ++ char.toString ++ "\".")
    | some idx => run (st.turn idx) clean

end DecodeLoop

/-- `base32Decode`. -/
def base32Decode (s : String) : Except String (List UInt8) :=
  let clean := stripSpace (stripPadding (JsText.toUpperCase s.toList))
  DecodeLoop.run ⟨0, 0, []⟩ clean

open Regrouping

/-! ### What is encoded -/

/-- The character of a digit. -/
def digitChar (d : ℕ) : Char := BASE32_ALPHABET.getD d ' '

/-- The numbers of a sequence of bytes. -/
def octets (buf : List UInt8) : List ℕ := buf.map UInt8.toNat

@[simp] theorem octets_append (buf rest : List UInt8) :
    octets (buf ++ rest) = octets buf ++ octets rest := List.map_append

theorem octets_lt (buf : List UInt8) : ∀ n ∈ octets buf, n < 2 ^ 8 := by
  intro n hn
  obtain ⟨b, -, rfl⟩ := List.mem_map.mp hn
  exact b.toNat_lt

theorem octets_injective : Function.Injective octets :=
  List.map_injective_iff.mpr fun _ _ h => UInt8.toNat_inj.mp h

/-- The accumulator after some bytes: the digits of `ds` are written, and fewer than five bits are
    left to write. -/
structure EncodeLoop.Holds (buf : List UInt8) (ds : List ℕ) (st : EncodeLoop) : Prop where
  output : st.output = ds.map digitChar
  digits : ∀ d ∈ ds, d < 2 ^ 5
  held : stream 8 (octets buf) = stream 5 ds ++ Regrouping.bits st.bits st.value.toNat
  few : st.bits < 5

theorem toNat_low (x : JsInt32) : (x &&& .toInt32 31).toNat < 2 ^ 5 := by
  have hmask : (x &&& .toInt32 31).toNat = x.toNat % 2 ^ 5 := x.toNat_and_mask (w := 5) (by decide)
  rw [hmask]
  exact Nat.mod_lt _ (by decide)

/-- The inner loop writes the digits that are complete. -/
theorem drain_spec (value : JsInt32) (output : List Char) {b : ℕ} (hb : b < 32) :
    ∃ ds : List ℕ, ∃ r < 5, EncodeLoop.drain value output b
        = ⟨r, value, output ++ ds.map digitChar⟩
      ∧ (∀ d ∈ ds, d < 2 ^ 5) ∧ bits b value.toNat = stream 5 ds ++ bits r value.toNat := by
  fun_induction EncodeLoop.drain value output b with
  | case1 output b ih =>
    obtain ⟨ds, r, hr, hdrain, hds, hbits⟩ := ih (by omega)
    refine ⟨(value.ushr b &&& .toInt32 31).toNat :: ds, r, hr, ?_, ?_, ?_⟩
    · rw [hdrain, List.append_assoc]
      rfl
    · exact List.forall_mem_cons.mpr ⟨toNat_low _, hds⟩
    · have hpop : bits (5 + b) value.toNat
          = bits 5 (value.ushr b &&& .toInt32 31).toNat ++ bits b value.toNat :=
        value.bits_pop (w := 5) (by omega) (by decide)
      show bits (b + 5) value.toNat = _
      rw [Nat.add_comm b 5, hpop, hbits, stream_cons, List.append_assoc]
  | case2 output b hsmall =>
    refine ⟨[], b, ?_, ?_, ?_, rfl⟩
    · by_contra hge
      exact hsmall (b - 5) (by omega)
    · rw [List.map_nil, List.append_nil]
    · intro d hd
      cases hd

theorem holds_turn {buf : List UInt8} {ds : List ℕ} {st : EncodeLoop} (h : st.Holds buf ds)
    (byte : UInt8) : ∃ es, (st.turn byte).Holds (buf ++ [byte]) (ds ++ es) := by
  have hfew := h.few
  obtain ⟨es, r, hr, hdrain, hes, hbits⟩ :=
    drain_spec (st.value.shl 8 ||| .toInt32 byte.toNat) st.output (by omega : st.bits + 8 < 32)
  have hpush := JsInt32.bits_push st.value byte.toNat_lt (by omega : st.bits + 8 ≤ 32) (by decide)
  refine ⟨es, ?_⟩
  rw [EncodeLoop.turn, hdrain]
  constructor
  · show st.output ++ _ = _
    rw [h.output, List.map_append]
  · intro d hd
    exact (List.mem_append.mp hd).elim (h.digits d) (hes d)
  · show _ = _ ++ bits r (st.value.shl 8 ||| .toInt32 byte.toNat).toNat
    rw [octets_append, stream_append, h.held, stream_append, List.append_assoc, List.append_assoc,
      ← hbits, hpush]
    show _ ++ (_ ++ (bits 8 byte.toNat ++ [])) = _
    rw [List.append_nil]
  · exact hr

theorem holds_foldl (buf : List UInt8) :
    ∃ ds, (buf.foldl EncodeLoop.turn ⟨0, 0, []⟩).Holds buf ds := by
  induction buf using List.reverseRecOn with
  | nil =>
    refine ⟨[], rfl, ?_, rfl, by decide⟩
    intro d hd
    cases hd
  | append_singleton buf byte ih =>
    obtain ⟨ds, hds⟩ := ih
    obtain ⟨es, hes⟩ := holds_turn hds byte
    refine ⟨ds ++ es, ?_⟩
    rw [List.foldl_append]
    exact hes

/-- An encoding cuts the bits of the bytes into fives, the last of them filled up with zeros. -/
theorem encoded (buf : List UInt8) :
    ∃ ds : List ℕ, ∃ k < 5, (base32Encode buf).toList = ds.map digitChar ∧ (∀ d ∈ ds, d < 2 ^ 5)
      ∧ stream 8 (octets buf) ++ List.replicate k false = stream 5 ds := by
  obtain ⟨ds, h⟩ := holds_foldl buf
  have hfew := h.few
  rw [base32Encode, String.toList_ofList, EncodeLoop.flush]
  split
  · next hpos =>
    -- the bits that are left go to the top of a last digit
    generalize buf.foldl EncodeLoop.turn ⟨0, 0, []⟩ = st at h hfew hpos ⊢
    have halign : bits 5 (st.value.shl (5 - st.bits) &&& .toInt32 31).toNat
        = bits st.bits st.value.toNat ++ List.replicate (5 - st.bits) false :=
      st.value.bits_align (w := 5) (by decide) (Nat.le_of_lt hfew)
    refine ⟨ds ++ [(st.value.shl (5 - st.bits) &&& .toInt32 31).toNat], 5 - st.bits, by omega,
      ?_, ?_, ?_⟩
    · rw [h.output, List.map_append]
      rfl
    · intro d hd
      rcases List.mem_append.mp hd with hold | hnew
      · exact h.digits d hold
      · obtain rfl := List.mem_singleton.mp hnew
        exact toNat_low _
    · rw [h.held, stream_append, stream_cons, stream_nil, List.append_nil, List.append_assoc,
        ← halign]
  · next hpos =>
    refine ⟨ds, 0, by decide, h.output, h.digits, ?_⟩
    rw [h.held, Nat.eq_zero_of_not_pos hpos, List.append_assoc]
    exact List.append_nil _

/-! ### What is decoded -/

/-- The accumulator after some digits: fewer than eight bits are left to write. -/
structure DecodeLoop.Holds (ds : List ℕ) (st : DecodeLoop) : Prop where
  held : stream 5 ds = stream 8 (octets st.bytes) ++ Regrouping.bits st.bits st.value.toNat
  few : st.bits < 8

theorem holds_idx {ds : List ℕ} {st : DecodeLoop} (h : st.Holds ds) {idx : ℕ} (hidx : idx < 2 ^ 5) :
    (st.turn idx).Holds (ds ++ [idx]) := by
  have hfew := h.few
  have hpush := JsInt32.bits_push st.value hidx (by omega : st.bits + 5 ≤ 32) (by decide)
  have hstream : stream 5 (ds ++ [idx])
      = stream 8 (octets st.bytes)
        ++ bits (st.bits + 5) (st.value.shl 5 ||| .toInt32 idx).toNat := by
    rw [stream_append, h.held, stream_cons, stream_nil, List.append_nil, List.append_assoc, hpush]
  rw [DecodeLoop.turn]
  generalize st.value.shl 5 ||| .toInt32 idx = value at hstream ⊢
  split
  · next hge =>
    -- a whole byte is on top of the accumulator
    have hpop : bits (8 + (st.bits + 5 - 8)) value.toNat
        = bits 8 (value.ushr (st.bits + 5 - 8) &&& .toInt32 0xFF).toNat
          ++ bits (st.bits + 5 - 8) value.toNat :=
      value.bits_pop (w := 8) (by omega) (by decide)
    rw [Nat.add_sub_cancel' hge] at hpop
    have hmask : (value.ushr (st.bits + 5 - 8) &&& .toInt32 0xFF).toNat
        = (value.ushr (st.bits + 5 - 8)).toNat % 2 ^ 8 :=
      JsInt32.toNat_and_mask (w := 8) _ (by decide)
    have hlow : (value.ushr (st.bits + 5 - 8) &&& .toInt32 0xFF).toNat < 2 ^ 8 := by
      rw [hmask]
      exact Nat.mod_lt _ (by decide)
    refine ⟨?_, by show st.bits + 5 - 8 < 8; omega⟩
    rw [hstream, hpop]
    show _ = stream 8 (octets (st.bytes ++ [_])) ++ _
    rw [octets_append, stream_append, List.append_assoc]
    show _ = _ ++ (bits 8 (UInt8.ofNat _).toNat ++ [] ++ _)
    rw [UInt8.toNat_ofNat', Nat.mod_eq_of_lt hlow, List.append_nil]
  · next hlt => exact ⟨hstream, Nat.lt_of_not_le hlt⟩

theorem idxOf_digitChar : ∀ d < 2 ^ 5, BASE32_ALPHABET.idxOf? (digitChar d) = some d := by decide

/-- Characters of the alphabet cut the bits of their digits into bytes. -/
theorem run_digits {ds es : List ℕ} (hes : ∀ d ∈ es, d < 2 ^ 5) {st : DecodeLoop}
    (h : st.Holds ds) :
    ∃ out r, st.run (es.map digitChar) = .ok out ∧ r.length < 8
      ∧ stream 5 (ds ++ es) = stream 8 (octets out) ++ r := by
  induction es generalizing ds st with
  | nil =>
    refine ⟨st.bytes, bits st.bits st.value.toNat, rfl, ?_, ?_⟩
    · rw [length_bits]
      exact h.few
    · rw [List.append_nil]
      exact h.held
  | cons d es ih =>
    rw [List.forall_mem_cons] at hes
    obtain ⟨out, r, hrun, hr, hbits⟩ := ih hes.2 (holds_idx h hes.1)
    refine ⟨out, r, ?_, hr, ?_⟩
    · rw [List.map_cons, DecodeLoop.run, idxOf_digitChar d hes.1]
      exact hrun
    · rw [← hbits, List.append_assoc]
      rfl

theorem run_encoded (buf : List UInt8) :
    DecodeLoop.run ⟨0, 0, []⟩ (base32Encode buf).toList = .ok buf := by
  obtain ⟨ds, k, hk, htext, hds, henc⟩ := encoded buf
  have hstart : DecodeLoop.Holds [] ⟨0, 0, []⟩ := ⟨rfl, by decide⟩
  obtain ⟨out, r, hrun, hr, hdec⟩ := run_digits hds hstart
  have heq := decoded_eq (octets_lt buf) (octets_lt out) (by omega) hr henc hdec
  rw [htext, hrun, octets_injective heq]

/-! ### The tolerated forms of an encoding -/

/-- `t` is `s` with white space put in anywhere and any letters in lower case. -/
inductive Rewritten : List Char → List Char → Prop
  | nil : Rewritten [] []
  | space {c s t} : JsText.isSpace c = true → Rewritten s t → Rewritten s (c :: t)
  | keep {c s t} : Rewritten s t → Rewritten (c :: s) (c :: t)
  | lower {c s t} : Rewritten s t → Rewritten (c :: s) (c.toLower :: t)

theorem Rewritten.refl (s : List Char) : Rewritten s s := by
  induction s with
  | nil => exact .nil
  | cons c s ih => exact .keep ih

/-- Every character of the alphabet, in upper and in lower case, as the decoder treats it. -/
theorem alphabet_cases : ∀ c ∈ BASE32_ALPHABET, JsText.upperChar c = [c]
    ∧ JsText.upperChar c.toLower = [c] ∧ JsText.isSpace c = false ∧ c ≠ '=' := by
  decide +kernel

theorem digitChar_mem : ∀ d < 2 ^ 5, digitChar d ∈ BASE32_ALPHABET := by decide

theorem encode_alphabet (buf : List UInt8) :
    ∀ c ∈ (base32Encode buf).toList, c ∈ BASE32_ALPHABET := by
  obtain ⟨ds, k, hk, htext, hds, henc⟩ := encoded buf
  intro c hc
  rw [htext] at hc
  obtain ⟨d, hd, rfl⟩ := List.mem_map.mp hc
  exact digitChar_mem d (hds d hd)

/-- The upper case of a rewritten text: the text with white space in it. -/
theorem toUpperCase_rewritten {s t : List Char} (h : Rewritten s t)
    (hs : ∀ c ∈ s, c ∈ BASE32_ALPHABET) :
    stripSpace (JsText.toUpperCase t) = s ∧ ∀ c ∈ JsText.toUpperCase t, c ≠ '=' := by
  induction h with
  | nil => exact ⟨rfl, fun c hc => absurd hc List.not_mem_nil⟩
  | @space c s t hc _ ih =>
    obtain ⟨hstrip, hne⟩ := ih hs
    have hpad : c ≠ '=' := by
      rintro rfl
      exact absurd hc (by decide)
    rw [JsText.toUpperCase_cons (JsText.upperChar_of_isSpace hc), stripSpace,
      List.filter_cons_of_neg (by simp [hc])]
    exact ⟨hstrip, List.forall_mem_cons.mpr ⟨hpad, hne⟩⟩
  | @keep c s t _ ih =>
    rw [List.forall_mem_cons] at hs
    obtain ⟨hstrip, hne⟩ := ih hs.2
    obtain ⟨hupper, -, hspace, hpad⟩ := alphabet_cases c hs.1
    rw [JsText.toUpperCase_cons hupper, stripSpace, List.filter_cons_of_pos (by simp [hspace])]
    exact ⟨congrArg _ hstrip, List.forall_mem_cons.mpr ⟨hpad, hne⟩⟩
  | @lower c s t _ ih =>
    rw [List.forall_mem_cons] at hs
    obtain ⟨hstrip, hne⟩ := ih hs.2
    obtain ⟨-, hlower, hspace, hpad⟩ := alphabet_cases c hs.1
    rw [JsText.toUpperCase_cons hlower, stripSpace, List.filter_cons_of_pos (by simp [hspace])]
    exact ⟨congrArg _ hstrip, List.forall_mem_cons.mpr ⟨hpad, hne⟩⟩

@[simp] theorem toUpperCase_append (s t : List Char) :
    JsText.toUpperCase (s ++ t) = JsText.toUpperCase s ++ JsText.toUpperCase t :=
  List.flatMap_append

theorem toUpperCase_padding (k : ℕ) :
    JsText.toUpperCase (List.replicate k '=') = List.replicate k '=' := by
  induction k with
  | zero => rfl
  | succ k ih =>
    rw [List.replicate_succ, JsText.toUpperCase, List.flatMap_cons]
    exact congrArg ('=' :: ·) ih

theorem stripPadding_replicate (s : List Char) (k : ℕ) :
    stripPadding (s ++ List.replicate k '=') = stripPadding s := by
  induction k with
  | zero => rw [List.replicate_zero, List.append_nil]
  | succ k ih =>
    rw [List.replicate_succ', ← List.append_assoc, stripPadding,
      List.rdropWhile_concat_pos _ _ _ rfl]
    exact ih

theorem stripPadding_of_ne {s : List Char} (h : ∀ c ∈ s, c ≠ '=') : stripPadding s = s := by
  rw [stripPadding, List.rdropWhile_eq_self_iff]
  intro hne hlast
  exact h _ (List.getLast_mem hne) (beq_iff_eq.mp hlast)

/-- A rewritten encoding, padded at its end, is decoded as the encoding. -/
theorem decode_rewritten {buf : List UInt8} {t : List Char}
    (h : Rewritten (base32Encode buf).toList t) (k : ℕ) :
    base32Decode (String.ofList (t ++ List.replicate k '=')) = .ok buf := by
  obtain ⟨hstrip, hne⟩ := toUpperCase_rewritten h (encode_alphabet buf)
  rw [base32Decode, String.toList_ofList, toUpperCase_append, toUpperCase_padding,
    stripPadding_replicate, stripPadding_of_ne hne]
  show DecodeLoop.run _ (stripSpace _) = _
  rw [hstrip, run_encoded]

theorem decode_encode (buf : List UInt8) : base32Decode (base32Encode buf) = .ok buf := by
  have h := decode_rewritten (Rewritten.refl (base32Encode buf).toList) 0
  rwa [List.replicate_zero, List.append_nil, String.ofList_toList] at h

theorem length_encode (buf : List UInt8) :
    (base32Encode buf).length = 8 * buf.length ⌈/⌉ 5 := by
  obtain ⟨ds, k, hk, htext, hds, henc⟩ := encoded buf
  have hlen := congrArg List.length henc
  rw [List.length_append, length_stream, length_stream, List.length_replicate, octets,
    List.length_map] at hlen
  have htext' := congrArg List.length htext
  rw [String.length_toList, List.length_map] at htext'
  rw [htext', Nat.ceilDiv_eq_add_pred_div]
  omega

/-- An encoding can be read back, in every form in which the decoder takes it. -/
theorem base32_round_trip :
    (∀ buf, base32Decode (base32Encode buf) = .ok buf
      ∧ (base32Encode buf).length = 8 * buf.length ⌈/⌉ 5
      ∧ ∀ c ∈ (base32Encode buf).toList, c ∈ BASE32_ALPHABET)
    ∧ Function.Injective base32Encode
    ∧ ∀ s ∈ Set.range base32Encode, ∀ t, Rewritten s.toList t → ∀ k,
      (base32Decode (String.ofList (t ++ List.replicate k '='))).map base32Encode = .ok s := by
  refine ⟨fun buf => ⟨decode_encode buf, length_encode buf, encode_alphabet buf⟩, ?_, ?_⟩
  · intro a b hab
    have ha := decode_encode a
    rw [hab, decode_encode b] at ha
    exact (Except.ok.inj ha).symm
  · rintro s ⟨buf, rfl⟩ t ht k
    rw [decode_rewritten ht k]
    rfl

example : base32Encode [0x66, 0x6F, 0x6F, 0x62, 0x61] = "MZXW6YTB" := by decide +kernel

end Argus.Core
