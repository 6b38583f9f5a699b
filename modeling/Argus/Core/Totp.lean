import Argus.Core.Base32
import Argus.Lib.Numerals
import Argus.Lib.Quotients
import Argus.Lib.Utf8

namespace Argus.Core

/-!
# One-time codes

`totpCode`, `hotp` and `verifyTotp` of `totp.ts`, with HMAC-SHA1 as any function to 20 bytes.
Times, steps and counters are numbers of the language.

* `writeUInt32BE`, `counterBlock` — the eight bytes that are signed.
* `truncate` — the dynamic truncation, on 32 bits.
-/

/-! ### Codes -/

/-- `createHmac("sha1", key).update(data).digest()`. -/
abbrev HmacSha1 := List UInt8 → List UInt8 → Vector UInt8 20

/-- A byte as an operand; `undefined` is 0. -/
def operand (b : Option UInt8) : JsInt32 := .toInt32 ((b.map UInt8.toNat).getD 0)

/-- `buf.writeUInt32BE(value)`: four bytes, the high ones first. -/
def writeUInt32BE : JsNumber → Except String (List UInt8)
  | .nan => .ok [0, 0, 0, 0]
  | .inf _ => .error "ERR_OUT_OF_RANGE"
  | .fin x =>
    if 0 ≤ x.val ∧ x.val ≤ 0xFFFFFFFF then
      let n := ⌊x.val⌋.toNat
      .ok [.ofNat (n / 2 ^ 24), .ofNat (n / 2 ^ 16), .ofNat (n / 2 ^ 8), .ofNat n]
    else .error "ERR_OUT_OF_RANGE"

/-- `x >>> 0`. -/
def toUint32 : JsNumber → JsNumber
  | .fin x => .ofRat (((⌊x.trunc.val⌋ % 2 ^ 32 : ℤ) : ℚ))
  | _ => .ofRat 0

/-- `counterBuf`, with both halves written. -/
def counterBlock (counter : JsNumber) : Except String (List UInt8) := do
  let high ← writeUInt32BE (.floor (.div counter (.ofNat 0x100000000)))
  let low ← writeUInt32BE (toUint32 counter)
  return high ++ low

/-- `hmac[hmac.length - 1]! & 0x0f`. -/
def truncationOffset (hmac : Vector UInt8 20) : ℕ :=
  (operand hmac.toList[hmac.toList.length - 1]? &&& .toInt32 0x0F).toNat

/-- `binary`. -/
def truncate (hmac : Vector UInt8 20) : JsInt32 :=
  let offset := truncationOffset hmac
  (operand hmac.toList[offset]? &&& .toInt32 0x7F).shl 24
    ||| (operand hmac.toList[offset + 1]? &&& .toInt32 0xFF).shl 16
    ||| (operand hmac.toList[offset + 2]? &&& .toInt32 0xFF).shl 8
    ||| (operand hmac.toList[offset + 3]? &&& .toInt32 0xFF)

/-- `hotp`; the remainder has the sign of the dividend. -/
def hotp (hmacSha1 : HmacSha1) (key : List UInt8) (counter : JsNumber) (digits : ℕ) :
    Except String String := do
  let counterBuf ← counterBlock counter
  let binary := truncate (hmacSha1 key counterBuf)
  let code := binary.toInt.tmod (10 ^ digits)
  return String.ofList (Numerals.padStart digits '0' (Numerals.decimal code))

/-- `Math.floor(forTime / 1000 / stepSec)`. -/
def timeCounter (forTime stepSec : JsNumber) : JsNumber :=
  .floor (.div (.div forTime (.ofNat 1000)) stepSec)

/-- `totpCode`. -/
def totpCode (hmacSha1 : HmacSha1) (secret : String) (forTime stepSec : JsNumber) (digits : ℕ) :
    Except String String := do
  let counter := timeCounter forTime stepSec
  hotp hmacSha1 (← base32Decode secret) counter digits

/-! ### Verification -/

/-- `/^\d+$/.test(s)`. -/
def isNumeric (s : String) : Bool := !s.toList.isEmpty && s.toList.all Char.isDigit

/-- The loop of `verifyTotp` over the offsets from `-window` on. -/
def matchesAny (hmacSha1 : HmacSha1) (key : List UInt8) (counter : JsNumber)
    (submitted : List UInt8) (digits : ℕ) (matched : Bool) : List ℤ → Except String Bool
  | [] => .ok matched
  | offset :: offsets => do
    let candidate := Utf8.bytes (← hotp hmacSha1 key (.add counter (.ofRat offset)) digits)
    matchesAny hmacSha1 key counter submitted digits
      (matched || candidate.length == submitted.length && candidate == submitted) offsets

/-- `-window, …, window`. -/
def offsets (window : ℕ) : List ℤ := (List.range (2 * window + 1)).map fun (i : ℕ) => (i : ℤ) - window

/-- `verifyTotp`. -/
def verifyTotp (hmacSha1 : HmacSha1) (secret token : String) (atTime : JsNumber) (window : ℕ)
    (stepSec : JsNumber) (digits : ℕ) : Except String Bool := do
  let trimmed := JsText.trim token
  if JsText.units trimmed.toList ≠ digits ∨ isNumeric trimmed = false then return false
  let submitted := Utf8.bytes trimmed
  let counter := timeCounter atTime stepSec
  let key ← base32Decode secret
  matchesAny hmacSha1 key counter submitted digits false (offsets window)

/-! ### Counters -/

open JsNumber

theorem timeCounter_eq {t step : ℕ} (ht : t < 2 ^ 53) (hpos : 0 < step) (hstep : step < 2 ^ 53) :
    timeCounter (.ofNat t) (.ofNat step) = .ofNat (t / 1000 / step) :=
  (((floorsTo_ofNat ht).div (by decide) (by decide)).div hpos hstep).floor

/-- A number in eight bytes, the high ones first. -/
def bigEndian (n : ℕ) : List UInt8 := (List.range 8).map fun i => .ofNat (n / 256 ^ (7 - i))

theorem byte_congr {n m : ℕ} (h : n % 256 = m % 256) : UInt8.ofNat n = UInt8.ofNat m := by
  apply UInt8.toNat_inj.mp
  rw [UInt8.toNat_ofNat', UInt8.toNat_ofNat']
  exact h

theorem writeUInt32BE_ofNat {n : ℕ} (h : n < 2 ^ 32) :
    writeUInt32BE (.ofNat n)
      = .ok [.ofNat (n / 2 ^ 24), .ofNat (n / 2 ^ 16), .ofNat (n / 2 ^ 8), .ofNat n] := by
  have hrange : (0 : ℚ) ≤ ((n : ℤ) : ℚ) ∧ ((n : ℤ) : ℚ) ≤ 0xFFFFFFFF := by
    constructor
    · positivity
    · exact_mod_cast Nat.le_of_lt_succ h
  rw [ofNat_eq (abs_le_of_lt (by omega)), writeUInt32BE]
  show (if 0 ≤ ((n : ℤ) : ℚ) ∧ ((n : ℤ) : ℚ) ≤ 0xFFFFFFFF then _ else _) = _
  rw [if_pos hrange]
  show Except.ok _ = _
  rw [show (Double.ofInt n _).val = ((n : ℤ) : ℚ) from rfl, Int.floor_intCast, Int.toNat_natCast]

theorem toUint32_ofNat {n : ℕ} (h : n < 2 ^ 53) : toUint32 (.ofNat n) = .ofNat (n % 2 ^ 32) := by
  rw [ofNat_eq (abs_le_of_lt h), toUint32, Double.trunc_ofInt]
  show JsNumber.ofRat ((⌊((n : ℤ) : ℚ)⌋ % 2 ^ 32 : ℤ) : ℚ) = _
  rw [Int.floor_intCast, JsNumber.ofNat]
  push_cast
  rfl

/-- The block holds the counter, as long as the language counts exactly. -/
theorem counterBlock_ofNat {n : ℕ} (h : n < 2 ^ 53) :
    counterBlock (.ofNat n) = .ok (bigEndian n) := by
  have hhigh : JsNumber.floor (.div (.ofNat n) (.ofNat 0x100000000)) = .ofNat (n / 0x100000000) :=
    ((floorsTo_ofNat h).div (by decide) (by decide)).floor
  rw [counterBlock, hhigh, toUint32_ofNat h, writeUInt32BE_ofNat (by omega),
    writeUInt32BE_ofNat (Nat.mod_lt _ (by decide))]
  show Except.ok [_, _, _, _, _, _, _, _] = Except.ok [_, _, _, _, _, _, _, _]
  refine congrArg Except.ok ?_
  simp only [List.cons.injEq, and_true]
  refine ⟨?_, ?_, ?_, ?_, ?_, ?_, ?_, ?_⟩ <;> apply byte_congr <;> omega

/-! ### Truncation -/

theorem truncationOffset_lt (hmac : Vector UInt8 20) : truncationOffset hmac < 16 := by
  have hmask : truncationOffset hmac
      = (operand hmac.toList[hmac.toList.length - 1]?).toNat % 2 ^ 4 :=
    JsInt32.toNat_and_mask (w := 4) _ (by decide)
  rw [hmask]
  exact Nat.mod_lt _ (by decide)

/-- The sign bit is masked, and nothing is shifted into it. -/
theorem truncate_nonneg (hmac : Vector UInt8 20) : 0 ≤ (truncate hmac).toInt := by
  have hmsb : (truncate hmac).msb = false := by
    rw [truncate]
    generalize operand hmac.toList[truncationOffset hmac]? = a
    generalize operand hmac.toList[truncationOffset hmac + 1]? = b
    generalize operand hmac.toList[truncationOffset hmac + 2]? = c
    generalize operand hmac.toList[truncationOffset hmac + 3]? = d
    simp [JsInt32.shl, JsInt32.toInt32, BitVec.msb_eq_getLsbD_last]
  rw [BitVec.toInt_eq_msb_cond, hmsb]
  exact Int.natCast_nonneg _

/-- The code for a counter. -/
def codeFor (hmacSha1 : HmacSha1) (key : List UInt8) (digits n : ℕ) : String :=
  String.ofList (Numerals.padStart digits '0'
    (Nat.toDigits 10 ((truncate (hmacSha1 key (bigEndian n))).toInt.toNat % 10 ^ digits)))

theorem hotp_code (hmacSha1 : HmacSha1) (key counterBuf : List UInt8) (digits : ℕ) :
    Numerals.decimal ((truncate (hmacSha1 key counterBuf)).toInt.tmod (10 ^ digits))
      = Nat.toDigits 10 ((truncate (hmacSha1 key counterBuf)).toInt.toNat % 10 ^ digits) := by
  obtain ⟨n, hn⟩ := Int.eq_ofNat_of_zero_le (truncate_nonneg (hmacSha1 key counterBuf))
  rw [hn, Int.toNat_natCast]
  have hpow : ((10 : ℤ) ^ digits) = ((10 ^ digits : ℕ) : ℤ) := by push_cast; rfl
  rw [hpow]
  rfl

theorem hotp_ofNat (hmacSha1 : HmacSha1) (key : List UInt8) (digits : ℕ) {n : ℕ} (h : n < 2 ^ 53) :
    hotp hmacSha1 key (.ofNat n) digits = .ok (codeFor hmacSha1 key digits n) := by
  rw [hotp, counterBlock_ofNat h]
  show Except.ok _ = Except.ok _
  rw [hotp_code]
  rfl

/-- A remainder below a power of ten is filled up to as many digits. -/
theorem length_padStart_mod {digits : ℕ} (hd : 1 ≤ digits) (n : ℕ) :
    (Numerals.padStart digits '0' (Nat.toDigits 10 (n % 10 ^ digits))).length = digits := by
  obtain ⟨w, rfl⟩ := Nat.exists_eq_succ_of_ne_zero (Nat.one_le_iff_ne_zero.mp hd)
  rw [Nat.succ_eq_add_one, Numerals.padStart_toDigits (Nat.mod_lt _ (by positivity)),
    Numerals.length_pad]

/-- Every code has its digits. -/
theorem hotp_digits {hmacSha1 : HmacSha1} {key : List UInt8} {counter : JsNumber} {digits : ℕ}
    (hd : 1 ≤ digits) {code : String} (h : hotp hmacSha1 key counter digits = .ok code) :
    code.length = digits ∧ ∀ c ∈ code.toList, c.isDigit = true := by
  rw [hotp] at h
  cases hblock : counterBlock counter with
  | error e =>
    rw [hblock] at h
    cases h
  | ok counterBuf =>
    rw [hblock] at h
    obtain rfl := Except.ok.inj h
    rw [hotp_code]
    constructor
    · rw [← String.length_toList, String.toList_ofList, length_padStart_mod hd]
    · intro c hc
      rw [String.toList_ofList] at hc
      exact Numerals.isDigit_of_mem_padStart hc

theorem totpCode_eq {hmacSha1 : HmacSha1} {secret : String} {key : List UInt8}
    (hkey : base32Decode secret = .ok key) (forTime stepSec : JsNumber) (digits : ℕ) :
    totpCode hmacSha1 secret forTime stepSec digits
      = hotp hmacSha1 key (timeCounter forTime stepSec) digits := by
  rw [totpCode, hkey]
  rfl

theorem totpCode_digits {hmacSha1 : HmacSha1} {secret : String} {forTime stepSec : JsNumber}
    {digits : ℕ} (hd : 1 ≤ digits) {code : String}
    (h : totpCode hmacSha1 secret forTime stepSec digits = .ok code) :
    code.length = digits ∧ ∀ c ∈ code.toList, c.isDigit = true := by
  cases hkey : base32Decode secret with
  | error e =>
    rw [totpCode, hkey] at h
    cases h
  | ok key =>
    rw [totpCode_eq hkey] at h
    exact hotp_digits hd h

/-! ### The window -/

/-- The loop finds the submitted code among the ones for its offsets. -/
theorem matchesAny_eq {hmacSha1 : HmacSha1} {key : List UInt8} {counter : JsNumber}
    {submitted : String} {digits : ℕ} {code : ℤ → String} {offs : List ℤ}
    (h : ∀ o ∈ offs, hotp hmacSha1 key (.add counter (.ofRat o)) digits = .ok (code o))
    (matched : Bool) :
    ∃ b, matchesAny hmacSha1 key counter (Utf8.bytes submitted) digits matched offs = .ok b
      ∧ (b = true ↔ matched = true ∨ ∃ o ∈ offs, code o = submitted) := by
  induction offs generalizing matched with
  | nil =>
    refine ⟨matched, rfl, ?_⟩
    simp
  | cons o offs ih =>
    rw [List.forall_mem_cons] at h
    obtain ⟨b, hb, hiff⟩ := ih h.2 (matched || (Utf8.bytes (code o)).length
      == (Utf8.bytes submitted).length && Utf8.bytes (code o) == Utf8.bytes submitted)
    refine ⟨b, ?_, ?_⟩
    · rw [matchesAny, h.1]
      exact hb
    · have hsame : ((Utf8.bytes (code o)).length == (Utf8.bytes submitted).length
          && Utf8.bytes (code o) == Utf8.bytes submitted) = true ↔ code o = submitted := by
        rw [Bool.and_eq_true, beq_iff_eq, beq_iff_eq]
        constructor
        · intro h
          exact Utf8.bytes_injective h.2
        · rintro rfl
          exact ⟨rfl, rfl⟩
      rw [hiff, Bool.or_eq_true, hsame, or_assoc]
      simp

theorem mem_offsets {window : ℕ} {k : ℤ} : k ∈ offsets window ↔ -window ≤ k ∧ k ≤ window := by
  rw [offsets, List.mem_map]
  constructor
  · rintro ⟨i, hi, rfl⟩
    rw [List.mem_range] at hi
    omega
  · rintro ⟨hlow, hhigh⟩
    refine ⟨(k + window).toNat, ?_, ?_⟩
    · rw [List.mem_range]
      omega
    · omega

/-- A step later, the counter is one more. -/
theorem counter_add {t step : ℕ} (hpos : 0 < step) {k : ℤ} (h : 0 ≤ (t : ℤ) + 1000 * k * step) :
    ((t : ℤ) + 1000 * k * step).toNat / 1000 / step = ((t / 1000 / step : ℕ) + k).toNat := by
  have hdiv : ((t : ℤ) + 1000 * k * step) / (1000 * step : ℕ) = (t / (1000 * step) : ℕ) + k := by
    have hne : ((1000 * step : ℕ) : ℤ) ≠ 0 := by
      have hmul : 0 < 1000 * step := by omega
      exact_mod_cast hmul.ne'
    have hmul : (1000 : ℤ) * k * step = k * (1000 * step : ℕ) := by
      push_cast
      ring
    rw [hmul, Int.add_mul_ediv_right _ _ hne]
    rfl
  rw [Nat.div_div_eq_div_mul, Nat.div_div_eq_div_mul, ← hdiv]
  obtain ⟨n, hn⟩ := Int.eq_ofNat_of_zero_le h
  rw [hn]
  rfl

theorem units_eq_length {s : List Char} (h : ∀ c ∈ s, c.isDigit = true) :
    JsText.units s = s.length := by
  apply JsText.units_of_forall
  intro c hc
  have hle : c.toNat ≤ 57 := of_decide_eq_true (Bool.and_eq_true_iff.mp (h c hc)).2
  omega

/-- A code passes the check of its form. -/
theorem code_form {code : String} {digits : ℕ} (hd : 1 ≤ digits) (hlen : code.length = digits)
    (hall : ∀ c ∈ code.toList, c.isDigit = true) :
    JsText.units code.toList = digits ∧ isNumeric code = true := by
  constructor
  · rw [units_eq_length hall, String.length_toList, hlen]
  · have hne : code.toList ≠ [] := by
      intro hnil
      rw [← String.length_toList, hnil] at hlen
      rw [← hlen] at hd
      exact absurd hd (by decide)
    rw [isNumeric, Bool.and_eq_true]
    exact ⟨by simpa using hne, List.all_eq_true.mpr hall⟩

section

variable {hmacSha1 : HmacSha1} {secret : String} {key : List UInt8} {t step window digits : ℕ}

/-- The times of the window are times, and their counters are not negative. -/
theorem shifted_bounds (hpos : 1 ≤ step) (hlow : window * step * 1000 ≤ t)
    (hhigh : t + window * step * 1000 < 2 ^ 53) {k : ℤ} (hk : -window ≤ k ∧ k ≤ window) :
    0 ≤ (t : ℤ) + 1000 * k * step ∧ (t : ℤ) + 1000 * k * step < 2 ^ 53
      ∧ 0 ≤ ((t / 1000 / step : ℕ) : ℤ) + k ∧ |k| ≤ 2 ^ 53 := by
  have hs : (0 : ℤ) ≤ step := Int.natCast_nonneg step
  have hs1 : (1 : ℤ) ≤ step := by exact_mod_cast hpos
  have hup : (k * step : ℤ) ≤ window * step := mul_le_mul_of_nonneg_right hk.2 hs
  have hdown : -(window * step : ℤ) ≤ k * step := by
    have hle := mul_le_mul_of_nonneg_right hk.1 hs
    rwa [neg_mul] at hle
  have hlow' : (window * step : ℤ) * 1000 ≤ t := by exact_mod_cast hlow
  have hhigh' : (t : ℤ) + window * step * 1000 < 2 ^ 53 := by exact_mod_cast hhigh
  have hmul : (1000 : ℤ) * k * step = k * step * 1000 := by ring
  have hw : (window : ℤ) ≤ window * step := le_mul_of_one_le_right (Int.natCast_nonneg _) hs1
  have hge : window ≤ t / 1000 / step := by
    rw [Nat.div_div_eq_div_mul, Nat.le_div_iff_mul_le (by omega)]
    calc window * (1000 * step) = window * step * 1000 := by ring
      _ ≤ t := hlow
  refine ⟨by omega, by omega, by omega, ?_⟩
  rw [abs_le]
  omega

/-- A time of the window has the counter that the loop comes to. -/
theorem counter_shifted (hpos : 1 ≤ step) (hstep : step < 2 ^ 53)
    (hlow : window * step * 1000 ≤ t) (hhigh : t + window * step * 1000 < 2 ^ 53) {k : ℤ}
    (hk : -window ≤ k ∧ k ≤ window) :
    ∃ m < 2 ^ 53, timeCounter (.ofRat ((t + 1000 * k * step : ℤ) : ℚ)) (.ofNat step) = .ofNat m
      ∧ JsNumber.add (timeCounter (.ofNat t) (.ofNat step)) (.ofRat k) = .ofNat m := by
  obtain ⟨h0, hlt, hcount, hk53⟩ := shifted_bounds hpos hlow hhigh hk
  -- in integers first; all of them are below 2 ^ 53, where numbers are exact
  have hsame := counter_add hpos h0
  obtain ⟨n, hn⟩ := Int.eq_ofNat_of_zero_le h0
  obtain ⟨m, hm⟩ := Int.eq_ofNat_of_zero_le hcount
  rw [hn, Int.toNat_natCast, hm, Int.toNat_natCast] at hsame
  have hn53 : n < 2 ^ 53 := by omega
  have hm53 : m < 2 ^ 53 := by
    rw [← hsame]
    exact lt_of_le_of_lt ((Nat.div_le_self _ _).trans (Nat.div_le_self _ _)) hn53
  have hc53 : t / 1000 / step < 2 ^ 53 :=
    lt_of_le_of_lt ((Nat.div_le_self _ _).trans (Nat.div_le_self _ _)) (by omega)
  have hsum : |((t / 1000 / step : ℕ) : ℤ) + k| ≤ 2 ^ 53 := by
    rw [hm]
    exact abs_le_of_lt hm53
  refine ⟨m, hm53, ?_, ?_⟩
  · rw [hn, ← hsame]
    exact timeCounter_eq hn53 hpos hstep
  · rw [timeCounter_eq (by omega) hpos hstep, ofNat_eq (abs_le_of_lt hc53), ofRat_intCast hk53,
      JsNumber.add_ofInt _ _ hsum, ofNat_eq (abs_le_of_lt hm53)]
    exact congrArg _ (Double.ext (congrArg Int.cast hm))

/-- The code at a time of the window is the candidate of the loop. -/
theorem totpCode_shifted (hkey : base32Decode secret = .ok key) (hpos : 1 ≤ step)
    (hstep : step < 2 ^ 53) (hlow : window * step * 1000 ≤ t)
    (hhigh : t + window * step * 1000 < 2 ^ 53) {k : ℤ} (hk : -window ≤ k ∧ k ≤ window) :
    ∃ code, totpCode hmacSha1 secret (.ofRat ((t + 1000 * k * step : ℤ) : ℚ)) (.ofNat step) digits
        = .ok code
      ∧ hotp hmacSha1 key (.add (timeCounter (.ofNat t) (.ofNat step)) (.ofRat k)) digits
        = .ok code := by
  obtain ⟨m, hm, htime, hadd⟩ := counter_shifted hpos hstep hlow hhigh hk
  have hcode := hotp_ofNat hmacSha1 key digits hm
  refine ⟨codeFor hmacSha1 key digits m, ?_, ?_⟩
  · rw [totpCode_eq hkey, htime, hcode]
  · rw [hadd, hcode]

theorem verifyTotp_window (token : String) (hkey : base32Decode secret = .ok key)
    (hpos : 1 ≤ step) (hstep : step < 2 ^ 53) (hlow : window * step * 1000 ≤ t)
    (hhigh : t + window * step * 1000 < 2 ^ 53) (hd : 1 ≤ digits) :
    ∃ b, verifyTotp hmacSha1 secret token (.ofNat t) window (.ofNat step) digits = .ok b
      ∧ (b = true ↔ ∃ k : ℤ, -window ≤ k ∧ k ≤ window
        ∧ totpCode hmacSha1 secret (.ofRat ((t + 1000 * k * step : ℤ) : ℚ)) (.ofNat step) digits
          = .ok (JsText.trim token)) := by
  rw [verifyTotp]
  split
  · next hform =>
    refine ⟨false, rfl, fun h => absurd h Bool.false_ne_true, ?_⟩
    -- no code has another length, or anything but digits
    rintro ⟨k, -, -, hcode⟩
    obtain ⟨hlen, hall⟩ := totpCode_digits hd hcode
    obtain ⟨hunits, hnum⟩ := code_form hd hlen hall
    rcases hform with hform | hform
    · exact absurd hunits hform
    · rw [hnum] at hform
      cases hform
  · choose code htotp hhotp using fun k hk =>
      @totpCode_shifted hmacSha1 secret key t step window digits hkey hpos hstep hlow hhigh k hk
    have hcode : ∀ o ∈ offsets window,
        hotp hmacSha1 key (.add (timeCounter (.ofNat t) (.ofNat step)) (.ofRat o)) digits
          = .ok (if ho : -window ≤ o ∧ o ≤ window then code o ho else "") := by
      intro o ho
      rw [dif_pos (mem_offsets.mp ho)]
      exact hhotp o (mem_offsets.mp ho)
    obtain ⟨b, hb, hiff⟩ := matchesAny_eq hcode false
    refine ⟨b, ?_, ?_⟩
    · rw [hkey]
      exact hb
    · rw [hiff]
      constructor
      · rintro (hfalse | ⟨k, hk, hcand⟩)
        · cases hfalse
        · have hk' := mem_offsets.mp hk
          rw [dif_pos hk'] at hcand
          exact ⟨k, hk'.1, hk'.2, by rw [htotp k hk', hcand]⟩
      · rintro ⟨k, hlo, hhi, hcand⟩
        rw [htotp k ⟨hlo, hhi⟩] at hcand
        refine Or.inr ⟨k, mem_offsets.mpr ⟨hlo, hhi⟩, ?_⟩
        rw [dif_pos ⟨hlo, hhi⟩]
        exact Except.ok.inj hcand

/-- A token is accepted exactly if it is a code of the window.  Codes have their digits, the block
    that is signed holds the counter, and the truncation stays inside the digest and its bits. -/
theorem verifyTotp_iff (hmacSha1 : HmacSha1) (token : String) (hkey : base32Decode secret = .ok key)
    (hpos : 1 ≤ step) (hstep : step < 2 ^ 53) (hlow : window * step * 1000 ≤ t)
    (hhigh : t + window * step * 1000 < 2 ^ 53) (hd : 1 ≤ digits ∧ digits ≤ 9) :
    (∃ b, verifyTotp hmacSha1 secret token (.ofNat t) window (.ofNat step) digits = .ok b
      ∧ (b = true ↔ ∃ k : ℤ, -window ≤ k ∧ k ≤ window
        ∧ totpCode hmacSha1 secret (.ofRat ((t + 1000 * k * step : ℤ) : ℚ)) (.ofNat step) digits
          = .ok (JsText.trim token)))
    ∧ (∀ forTime stepSec code, totpCode hmacSha1 secret forTime stepSec digits = .ok code →
      code.length = digits ∧ ∀ c ∈ code.toList, c.isDigit = true)
    ∧ timeCounter (.ofNat t) (.ofNat step) = .ofNat (t / 1000 / step)
    ∧ (∀ forTime stepSec counter, timeCounter forTime stepSec = .ofNat counter →
      counter < 2 ^ 53 → counterBlock (timeCounter forTime stepSec) = .ok (bigEndian counter))
    ∧ ∀ hmac, truncationOffset hmac + 3 < 20 ∧ 0 ≤ (truncate hmac).toInt := by
  refine ⟨verifyTotp_window token hkey hpos hstep hlow hhigh hd.1,
    fun _ _ _ h => totpCode_digits hd.1 h, timeCounter_eq (by omega) hpos hstep, ?_, ?_⟩
  · intro forTime stepSec counter h hlt
    rw [h, counterBlock_ofNat hlt]
  · intro hmac
    have hoff := truncationOffset_lt hmac
    exact ⟨by omega, truncate_nonneg hmac⟩

end

namespace Sample

/-- A digest that depends on the counter only by its last byte, which is the first one read. -/
def hmac : HmacSha1 := fun _ data => Vector.ofFn fun i =>
  if i.val = 3 then data.getLastD 0 else 0

end Sample

open Sample in
/-- A code of the step before. -/
theorem verifyTotp_iff_skewed :
    (∃ b, verifyTotp hmac "MZXW6" " 000001 " (.ofNat 60000) 1 (.ofNat 30) 6 = .ok b
      ∧ (b = true ↔ ∃ k : ℤ, -(1 : ℕ) ≤ k ∧ k ≤ (1 : ℕ)
        ∧ totpCode hmac "MZXW6" (.ofRat (((60000 : ℕ) + 1000 * k * (30 : ℕ) : ℤ) : ℚ)) (.ofNat 30) 6
          = .ok (JsText.trim " 000001 ")))
    ∧ (∀ forTime stepSec code, totpCode hmac "MZXW6" forTime stepSec 6 = .ok code →
      code.length = 6 ∧ ∀ c ∈ code.toList, c.isDigit = true)
    ∧ timeCounter (.ofNat 60000) (.ofNat 30) = .ofNat (60000 / 1000 / 30)
    ∧ (∀ forTime stepSec counter, timeCounter forTime stepSec = .ofNat counter →
      counter < 2 ^ 53 → counterBlock (timeCounter forTime stepSec) = .ok (bigEndian counter))
    ∧ ∀ digest, truncationOffset digest + 3 < 20 ∧ 0 ≤ (truncate digest).toInt := by
  have hkey : base32Decode "MZXW6" = .ok [0x66, 0x6F, 0x6F] := by decide +kernel
  exact verifyTotp_iff hmac " 000001 " hkey (by decide) (by decide) (by decide) (by decide)
    (by decide)

open Sample in
example : verifyTotp hmac "MZXW6" " 000001 " (.ofNat 60000) 1 (.ofNat 30) 6 = .ok true := by
  decide +kernel

end Argus.Core
