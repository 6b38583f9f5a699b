import Argus.Lib.Base64
import Argus.Lib.PrintedIntegers
import Argus.Lib.Segments
import Argus.Lib.Utf8

namespace Argus.Core

/-!
# Sealed secrets

The envelopes of `crypto.ts`, with AES-256-GCM as a parameter.  The IV that a call draws is an
argument.

* `Cipher`, `Cipher.Lawful` — authenticated encryption.
* `EnvelopeError` — the errors, with their texts.
* `encryptSecret`, `decryptSecret`, `getEnvelopeKeyVersion`, `rewrap`.
* `RoundTrips` — a secret through encryption and rotation; `roundTrips_iff`, for which versions.
* `separator_notMem_of_lt` — versions of up to seventeen digits are among them.
-/

/-! ### Envelopes -/

/-- `aes-256-gcm`: from a key, an IV and a plaintext to a ciphertext and its tag, and back. -/
structure Cipher where
  encrypt : List UInt8 → List UInt8 → List UInt8 → List UInt8 × List UInt8
  decrypt : List UInt8 → List UInt8 → List UInt8 → List UInt8 → Option (List UInt8)

/-- Tags have 16 bytes, and decrypting inverts encrypting. -/
structure Cipher.Lawful (cipher : Cipher) : Prop where
  tag : ∀ key iv plaintext, (cipher.encrypt key iv plaintext).2.length = 16
  inverse : ∀ key iv plaintext, cipher.decrypt key iv (cipher.encrypt key iv plaintext).1
    (cipher.encrypt key iv plaintext).2 = some plaintext

inductive EnvelopeError
  | key (length : ℕ)
  | parts (count : ℕ)
  | version (text : String)
  | iv (length : ℕ)
  | tag (length : ℕ)
  | authentication
  | keyVersion (text : String)
deriving DecidableEq

namespace EnvelopeError

def message : EnvelopeError → String
  | key length => "Key must be 32 bytes; got " ++ Nat.repr length ++ "."
  | parts count =>
    "Malformed envelope: expected 5 dot-separated parts, got " ++ Nat.repr count ++ "."
  | version text =>
    "Unsupported envelope version \"" ++ text ++ "\". Only \"v1\" is supported."
  | iv length => "Malformed envelope: IV must be 12 bytes; got " ++ Nat.repr length ++ "."
  | tag length => "Malformed envelope: auth tag must be 16 bytes; got " ++ Nat.repr length ++ "."
  | authentication => "Decryption failed: authentication tag mismatch. "
      ++ "The envelope may be tampered with or the wrong key was used."
  | keyVersion text =>
    "Malformed envelope: keyVersion \"" ++ text ++ "\" is not a positive integer."

/-- An error about the text of the envelope, whatever the key and the cipher. -/
def malformed : EnvelopeError → Bool
  | parts _ | version _ | iv _ | tag _ | keyVersion _ => true
  | key _ | authentication => false

end EnvelopeError

/-- `ENVELOPE_VERSION`. -/
def ENVELOPE_VERSION : List Char := ['v', '1']

/-- `SEPARATOR`. -/
def SEPARATOR : Char := '.'

/-- `envelope.split(SEPARATOR)`. -/
def splitParts (envelope : String) : List (List Char) := envelope.toList.splitOn SEPARATOR

/-- `parts.join(SEPARATOR)`. -/
def joinParts (parts : List (List Char)) : String :=
  String.ofList ([SEPARATOR].intercalate parts)

/-- `encryptSecret`, with `randomBytes(IV_BYTES)`. -/
def encryptSecret (cipher : Cipher) (iv : Vector UInt8 12) (plaintext : String) (key : List UInt8)
    (keyVersion : JsNumber) : Except EnvelopeError String :=
  if key.length ≠ 32 then .error (.key key.length)
  else
    let (encrypted, authTag) := cipher.encrypt key iv.toList (Utf8.bytes plaintext)
    .ok (joinParts [ENVELOPE_VERSION, keyVersion.toChars, Base64.encode iv.toList,
      Base64.encode authTag, Base64.encode encrypted])

/-- `decryptSecret`; reading base64 never throws. -/
def decryptSecret (cipher : Cipher) (envelope : String) (key : List UInt8) :
    Except EnvelopeError String :=
  if key.length ≠ 32 then .error (.key key.length)
  else
    match splitParts envelope with
    | [version, _, ivB64, tagB64, ciphertextB64] =>
      if version ≠ ENVELOPE_VERSION then .error (.version (String.ofList version))
      else
        let iv := Base64.decode ivB64
        let authTag := Base64.decode tagB64
        let ciphertext := Base64.decode ciphertextB64
        if iv.length ≠ 12 then .error (.iv iv.length)
        else if authTag.length ≠ 16 then .error (.tag authTag.length)
        else
          match cipher.decrypt key iv ciphertext authTag with
          | some decrypted => .ok (Utf8.text decrypted)
          | none => .error .authentication
    | parts => .error (.parts parts.length)

/-- `Number.isInteger(x) && x >= 1`. -/
def isPositiveInteger : JsNumber → Bool
  | .fin x => decide ((⌊x.val⌋ : ℚ) = x.val ∧ 1 ≤ x.val)
  | _ => false

/-- `getEnvelopeKeyVersion`. -/
def getEnvelopeKeyVersion (envelope : String) : Except EnvelopeError JsNumber :=
  match splitParts envelope with
  | [version, keyVersionStr, _, _, _] =>
    if version ≠ ENVELOPE_VERSION then .error (.version (String.ofList version))
    else
      let keyVersion := JsNumber.ofText (String.ofList keyVersionStr)
      if isPositiveInteger keyVersion then .ok keyVersion
      else .error (.keyVersion (String.ofList keyVersionStr))
  | parts => .error (.parts parts.length)

/-- `rewrap`. -/
def rewrap (cipher : Cipher) (iv : Vector UInt8 12) (envelope : String) (oldKey newKey : List UInt8)
    (newKeyVersion : JsNumber) : Except EnvelopeError String := do
  let plaintext ← decryptSecret cipher envelope oldKey
  encryptSecret cipher iv plaintext newKey newKeyVersion

/-! ### Splitting -/

theorem splitParts_join {parts : List (List Char)} (hne : parts ≠ [])
    (h : ∀ part ∈ parts, SEPARATOR ∉ part) : splitParts (joinParts parts) = parts := by
  rw [splitParts, joinParts, String.toList_ofList]
  exact List.splitOn_intercalate SEPARATOR h hne

theorem separator_notMem_encode (bytes : List UInt8) : SEPARATOR ∉ Base64.encode bytes :=
  Base64.notMem_encode (by decide) bytes

theorem separator_notMem_version : SEPARATOR ∉ ENVELOPE_VERSION := by decide

/-! ### Sealing and opening -/

section

variable (cipher : Cipher) (iv : Vector UInt8 12) (plaintext : String) (key : List UInt8)
  (keyVersion : JsNumber)

/-- The five parts of an envelope. -/
def envelopeParts : List (List Char) :=
  let sealed := cipher.encrypt key iv.toList (Utf8.bytes plaintext)
  [ENVELOPE_VERSION, keyVersion.toChars, Base64.encode iv.toList, Base64.encode sealed.2,
    Base64.encode sealed.1]

variable {key}

theorem encryptSecret_eq (hkey : key.length = 32) :
    encryptSecret cipher iv plaintext key keyVersion
      = .ok (joinParts (envelopeParts cipher iv plaintext key keyVersion)) := by
  rw [encryptSecret, if_neg (not_not.mpr hkey)]
  rfl

variable {keyVersion}

/-- A version without a separator in it leaves five parts. -/
theorem split_envelope (hv : SEPARATOR ∉ keyVersion.toChars) :
    splitParts (joinParts (envelopeParts cipher iv plaintext key keyVersion))
      = envelopeParts cipher iv plaintext key keyVersion := by
  apply splitParts_join (List.cons_ne_nil _ _)
  simp only [List.forall_mem_cons, List.not_mem_nil, false_imp_iff, implies_true, and_true]
  exact ⟨separator_notMem_version, hv, separator_notMem_encode _, separator_notMem_encode _,
    separator_notMem_encode _⟩

/-- With one, there are more. -/
theorem length_split_envelope (hv : SEPARATOR ∈ keyVersion.toChars) :
    5 < (splitParts (joinParts (envelopeParts cipher iv plaintext key keyVersion))).length := by
  have hcount : 0 < keyVersion.toChars.count SEPARATOR := List.count_pos_iff.mpr hv
  rw [splitParts, Segments.length_splitOn, joinParts, String.toList_ofList, envelopeParts]
  simp only [List.intercalate_cons_cons, List.intercalate_singleton, List.count_append,
    List.count_singleton_self]
  omega

theorem decrypt_envelope (hc : cipher.Lawful) (hkey : key.length = 32)
    (hv : SEPARATOR ∉ keyVersion.toChars) :
    decryptSecret cipher (joinParts (envelopeParts cipher iv plaintext key keyVersion)) key
      = .ok plaintext := by
  rw [decryptSecret, if_neg (not_not.mpr hkey), split_envelope cipher iv plaintext hv]
  show (if ENVELOPE_VERSION ≠ ENVELOPE_VERSION then _ else _) = _
  rw [if_neg (not_not.mpr rfl), Base64.decode_encode, Base64.decode_encode, Base64.decode_encode,
    if_neg (not_not.mpr iv.length_toList), if_neg (not_not.mpr (hc.tag _ _ _)), hc.inverse]
  exact congrArg _ (Utf8.text_bytes plaintext)

theorem getEnvelopeKeyVersion_envelope (hv : SEPARATOR ∉ keyVersion.toChars)
    (hpos : isPositiveInteger keyVersion = true) :
    getEnvelopeKeyVersion (joinParts (envelopeParts cipher iv plaintext key keyVersion))
      = .ok keyVersion := by
  have hread : JsNumber.ofText (String.ofList keyVersion.toChars) = keyVersion :=
    JsNumber.ofText_toText keyVersion
  rw [getEnvelopeKeyVersion, split_envelope cipher iv plaintext hv]
  show (if ENVELOPE_VERSION ≠ ENVELOPE_VERSION then _ else _) = _
  rw [if_neg (not_not.mpr rfl), hread]
  exact if_pos hpos

end

/-! ### Rotation -/

/-- A secret is sealed and opened, rewrapped and opened again, and both envelopes have five parts
    and tell the version of their key. -/
def RoundTrips (cipher : Cipher) (iv₁ iv₂ : Vector UInt8 12) (plaintext : String)
    (k₁ k₂ : List UInt8) (v₁ v₂ : JsNumber) : Prop :=
  ∃ e e', encryptSecret cipher iv₁ plaintext k₁ v₁ = .ok e
    ∧ (splitParts e).length = 5 ∧ decryptSecret cipher e k₁ = .ok plaintext
    ∧ getEnvelopeKeyVersion e = .ok v₁
    ∧ rewrap cipher iv₂ e k₁ k₂ v₂ = .ok e'
    ∧ (splitParts e').length = 5 ∧ decryptSecret cipher e' k₂ = .ok plaintext
    ∧ getEnvelopeKeyVersion e' = .ok v₂

theorem roundTrips_of_notMem {cipher : Cipher} (hc : cipher.Lawful) (iv₁ iv₂ : Vector UInt8 12)
    (plaintext : String) {k₁ k₂ : List UInt8} (hk₁ : k₁.length = 32) (hk₂ : k₂.length = 32)
    {v₁ v₂ : JsNumber} (hv₁ : isPositiveInteger v₁ = true) (hv₂ : isPositiveInteger v₂ = true)
    (hsep₁ : SEPARATOR ∉ v₁.toChars) (hsep₂ : SEPARATOR ∉ v₂.toChars) :
    RoundTrips cipher iv₁ iv₂ plaintext k₁ k₂ v₁ v₂ := by
  have hopen := decrypt_envelope cipher iv₁ plaintext hc hk₁ hsep₁
  refine ⟨_, _, encryptSecret_eq cipher iv₁ plaintext v₁ hk₁, ?_, hopen,
    getEnvelopeKeyVersion_envelope cipher iv₁ plaintext hsep₁ hv₁, ?_, ?_,
    decrypt_envelope cipher iv₂ plaintext hc hk₂ hsep₂,
    getEnvelopeKeyVersion_envelope cipher iv₂ plaintext hsep₂ hv₂⟩
  · rw [split_envelope cipher iv₁ plaintext hsep₁]
    rfl
  · rw [rewrap, hopen]
    exact encryptSecret_eq cipher iv₂ plaintext v₂ hk₂
  · rw [split_envelope cipher iv₂ plaintext hsep₂]
    rfl

/-- A secret goes through encryption and rotation exactly if neither version is printed with the
    separator in it. -/
theorem roundTrips_iff {cipher : Cipher} (hc : cipher.Lawful) (iv₁ iv₂ : Vector UInt8 12)
    (plaintext : String) {k₁ k₂ : List UInt8} (hk₁ : k₁.length = 32) (hk₂ : k₂.length = 32)
    {v₁ v₂ : JsNumber} (hv₁ : isPositiveInteger v₁ = true) (hv₂ : isPositiveInteger v₂ = true) :
    RoundTrips cipher iv₁ iv₂ plaintext k₁ k₂ v₁ v₂
      ↔ SEPARATOR ∉ v₁.toChars ∧ SEPARATOR ∉ v₂.toChars := by
  have hseal₁ := encryptSecret_eq cipher iv₁ plaintext v₁ hk₁
  have hseal₂ := encryptSecret_eq cipher iv₂ plaintext v₂ hk₂
  constructor
  · rintro ⟨e, e', he, hparts, hopen, -, he', hparts', -, -⟩
    rw [hseal₁] at he
    obtain rfl := Except.ok.inj he
    -- as it was opened, it is sealed with the other key
    rw [rewrap, hopen] at he'
    have he'' := hseal₂.symm.trans he'
    obtain rfl := Except.ok.inj he''
    constructor
    · intro hmem
      have hlt := @length_split_envelope cipher iv₁ plaintext k₁ v₁ hmem
      omega
    · intro hmem
      have hlt := @length_split_envelope cipher iv₂ plaintext k₂ v₂ hmem
      omega
  · rintro ⟨hsep₁, hsep₂⟩
    exact roundTrips_of_notMem hc iv₁ iv₂ plaintext hk₁ hk₂ hv₁ hv₂ hsep₁ hsep₂

theorem separator_notMem_of_lt {x : Double} {n : ℕ} (hx : x.val = n) (hpos : 0 < n)
    (hlt : n < 10 ^ 17) : SEPARATOR ∉ JsNumber.toChars (.fin x) := by
  intro h
  exact absurd (JsNumber.isDigit_toChars hx hpos hlt _ h) (by decide)

/-- All safe integers are versions that a secret is rotated with. -/
theorem roundTrips_of_lt {cipher : Cipher} (hc : cipher.Lawful) (iv₁ iv₂ : Vector UInt8 12)
    (plaintext : String) {k₁ k₂ : List UInt8} (hk₁ : k₁.length = 32) (hk₂ : k₂.length = 32)
    {x y : Double} {n m : ℕ} (hx : x.val = n) (hy : y.val = m) (hn : 0 < n ∧ n < 10 ^ 17)
    (hm : 0 < m ∧ m < 10 ^ 17) : RoundTrips cipher iv₁ iv₂ plaintext k₁ k₂ (.fin x) (.fin y) := by
  have hpos : ∀ {z : Double} {i : ℕ}, z.val = i → 0 < i → isPositiveInteger (.fin z) = true := by
    intro z i hz hi
    rw [isPositiveInteger, decide_eq_true_eq, hz, Int.floor_natCast]
    exact ⟨Int.cast_natCast i, by exact_mod_cast hi⟩
  exact roundTrips_of_notMem hc iv₁ iv₂ plaintext hk₁ hk₂ (hpos hx hn.1) (hpos hy hm.1)
    (separator_notMem_of_lt hx hn.1 hn.2) (separator_notMem_of_lt hy hm.1 hm.2)

namespace Sample

/-- The tag of the empty plaintext, where the key and the IV are zero. -/
def emptyTag : List UInt8 :=
  [0x53, 0x0F, 0x8A, 0xFB, 0xC7, 0x45, 0x36, 0xB9, 0xA9, 0x63, 0xB4, 0xF1, 0xC4, 0xCB, 0x73, 0x8B]

/-- Like the cipher on that input. -/
def cipher : Cipher where
  encrypt _ _ plaintext := (plaintext, emptyTag)
  decrypt _ _ ciphertext tag := if tag = emptyTag then some ciphertext else none

theorem lawful : cipher.Lawful where
  tag _ _ _ := rfl
  inverse _ _ plaintext := by
    show (if emptyTag = emptyTag then some plaintext else none) = _
    exact if_pos rfl

def key : List UInt8 := List.replicate 32 0

def iv : Vector UInt8 12 := Vector.replicate 12 0

/-- `1.5e21`. -/
def hugeVersion : JsNumber := .ofRat 1500000000000000000000

end Sample

open Sample in
theorem roundTrips_iff_small :
    RoundTrips cipher iv iv "" key key (.ofNat 1) (.ofNat 7) :=
  (roundTrips_iff lawful iv iv "" (by decide) (by decide) (by decide +kernel)
    (by decide +kernel)).mpr ⟨by decide +kernel, by decide +kernel⟩

open Sample in
/-- `String(1.5e21)` has the separator in it. -/
theorem not_roundTrips_huge : isPositiveInteger hugeVersion = true
    ∧ ¬ RoundTrips cipher iv iv "" key key hugeVersion (.ofNat 1) := by
  have hsep : SEPARATOR ∈ hugeVersion.toChars := by decide +kernel
  refine ⟨by decide +kernel, ?_⟩
  rintro ⟨e, e', he, hparts, -⟩
  have hseal := encryptSecret_eq cipher iv "" hugeVersion (by decide : key.length = 32)
  obtain rfl := Except.ok.inj (hseal.symm.trans he)
  have hlt := @length_split_envelope cipher iv "" key hugeVersion hsep
  omega

end Argus.Core
