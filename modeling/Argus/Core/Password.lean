import Argus.Core.Envelope

namespace Argus.Core

/-!
# Passwords

The stored hashes of `password.ts`, with scrypt as a parameter.  The salt that a call draws is an
argument.

* `Scrypt`, `Scrypt.Lawful` — key derivation, with the parameters that it takes.
* `hashPassword`, `verifyPassword`.
* `readStored`, `verifyPassword_eq` — what is read off a stored text, and what is compared.
* `accepts_all_iff` — the stored texts that let every password in.
* `Upheld` — only a full hash that matches is accepted, and nothing throws; `upheld_iff`, for which
  stored texts.
-/

/-! ### Key derivation -/

structure ScryptParams where
  N : JsNumber
  r : JsNumber
  p : JsNumber
deriving DecidableEq

/-- A power of two greater than one; no double is beyond the last one here. -/
def isPowerOfTwo : JsNumber → Bool
  | .fin x => decide (∃ k < 1023, x.val = (2 ^ (k + 1) : ℕ))
  | _ => false

namespace ScryptParams

def isValid (params : ScryptParams) : Bool :=
  isPowerOfTwo params.N && isPositiveInteger params.r && isPositiveInteger params.p

end ScryptParams

/-- `scryptSync`: from a password, a salt, a length and the parameters to a key; it may throw. -/
abbrev Scrypt := String → List UInt8 → ℕ → ScryptParams → Except String (List UInt8)

/-- A key of the asked length for parameters that are valid, and an error for others. -/
structure Scrypt.Lawful (scryptSync : Scrypt) : Prop where
  derived : ∀ password salt keylen params, params.isValid = true →
    ∃ key, scryptSync password salt keylen params = .ok key ∧ key.length = keylen
  refused : ∀ password salt keylen params, params.isValid = false →
    ∃ error, scryptSync password salt keylen params = .error error

def DEFAULT_SCRYPT_PARAMS : ScryptParams where
  N := .ofNat 16384
  r := .ofNat 8
  p := .ofNat 1

theorem isValid_default : DEFAULT_SCRYPT_PARAMS.isValid = true := by decide +kernel

def KEY_LEN : ℕ := 64

/-! ### Stored hashes -/

/-- The name in front of the parameters. -/
def SCHEME : List Char := ['s', 'c', 'r', 'y', 'p', 't']

/-- `hashPassword`. -/
def hashPassword (scryptSync : Scrypt) (salt : Vector UInt8 16) (plaintext : String)
    (params : ScryptParams) : Except String String := do
  let hash ← scryptSync plaintext salt.toList KEY_LEN params
  return String.ofList (['$'].intercalate [SCHEME, params.N.toChars, params.r.toChars,
    params.p.toChars, Base64.encode salt.toList, Base64.encode hash])

/-- `Number.isInteger(x)`. -/
def isInteger : JsNumber → Bool
  | .fin x => decide ((⌊x.val⌋ : ℚ) = x.val)
  | _ => false

/-- Bytes compared in constant time; those of other lengths are an error. -/
def timingSafeEqual (a b : List UInt8) : Except String Bool :=
  if a.length ≠ b.length then .error "Input buffers must have the same byte length"
  else .ok (decide (a = b))

/-- `verifyPassword`. -/
def verifyPassword (scryptSync : Scrypt) (plaintext stored : String) : Except String Bool :=
  match stored.toList.splitOn '$' with
  | [scheme, nStr, rStr, pStr, saltB64, hashB64] =>
    if scheme ≠ SCHEME then .ok false
    else
      let N := JsNumber.ofText (String.ofList nStr)
      let r := JsNumber.ofText (String.ofList rStr)
      let p := JsNumber.ofText (String.ofList pStr)
      if !isInteger N || !isInteger r || !isInteger p then .ok false
      else do
        let salt := Base64.decode saltB64
        let expected := Base64.decode hashB64
        -- the length of the key is that of the stored one, and the parameters are as they are
        let actual ← scryptSync plaintext salt expected.length ⟨N, r, p⟩
        if expected.length = actual.length then timingSafeEqual expected actual else .ok false
  | _ => .ok false

/-! ### Reading a stored text -/

/-- What a stored text says. -/
structure StoredHash where
  params : ScryptParams
  salt : List UInt8
  expected : List UInt8
deriving DecidableEq

/-- The stored hash, where there are six parts, the right name and integers. -/
def readStored (stored : String) : Option StoredHash :=
  match stored.toList.splitOn '$' with
  | [scheme, nStr, rStr, pStr, saltB64, hashB64] =>
    let N := JsNumber.ofText (String.ofList nStr)
    let r := JsNumber.ofText (String.ofList rStr)
    let p := JsNumber.ofText (String.ofList pStr)
    if scheme = SCHEME ∧ isInteger N = true ∧ isInteger r = true ∧ isInteger p = true then
      some ⟨⟨N, r, p⟩, Base64.decode saltB64, Base64.decode hashB64⟩
    else none
  | _ => none

theorem readStored_eq_some_iff {stored : String} {h : StoredHash} :
    readStored stored = some h ↔ ∃ nStr rStr pStr saltB64 hashB64,
      stored.toList.splitOn '$' = [SCHEME, nStr, rStr, pStr, saltB64, hashB64]
      ∧ h.params = ⟨JsNumber.ofText (String.ofList nStr), JsNumber.ofText (String.ofList rStr),
        JsNumber.ofText (String.ofList pStr)⟩
      ∧ isInteger h.params.N = true ∧ isInteger h.params.r = true ∧ isInteger h.params.p = true
      ∧ h.salt = Base64.decode saltB64 ∧ h.expected = Base64.decode hashB64 := by
  constructor
  · intro hread
    rw [readStored] at hread
    split at hread
    · rename_i scheme nStr rStr pStr saltB64 hashB64 hparts
      dsimp only at hread
      split at hread
      · rename_i hgood
        obtain ⟨rfl, hN, hr, hp⟩ := hgood
        obtain rfl := Option.some.inj hread
        dsimp only
        exact ⟨nStr, rStr, pStr, saltB64, hashB64, hparts, rfl, hN, hr, hp, rfl, rfl⟩
      · exact absurd hread (by simp)
    · exact absurd hread (by simp)
  · obtain ⟨params, salt, expected⟩ := h
    rintro ⟨nStr, rStr, pStr, saltB64, hashB64, hparts, rfl, hN, hr, hp, rfl, rfl⟩
    dsimp only at hN hr hp
    rw [readStored, hparts]
    exact if_pos ⟨rfl, hN, hr, hp⟩

/-- A comparison behind the test of the lengths does not throw. -/
theorem timingSafeEqual_of_length (expected actual : List UInt8) :
    (if expected.length = actual.length then timingSafeEqual expected actual else .ok false)
      = .ok (decide (expected = actual)) := by
  by_cases hlength : expected.length = actual.length
  · rw [if_pos hlength, timingSafeEqual, if_neg (not_not.mpr hlength)]
  · have hne : expected ≠ actual := fun h => hlength (congrArg List.length h)
    rw [if_neg hlength, decide_eq_false hne]

/-- The key of the stored length is compared with the stored one. -/
theorem verifyPassword_eq (scryptSync : Scrypt) (plaintext stored : String) :
    verifyPassword scryptSync plaintext stored
      = match readStored stored with
        | none => .ok false
        | some h => (scryptSync plaintext h.salt h.expected.length h.params).map
          fun actual => decide (h.expected = actual) := by
  rw [verifyPassword, readStored]
  split
  · rename_i scheme nStr rStr pStr saltB64 hashB64 hparts
    by_cases hscheme : scheme = SCHEME
    · rw [if_neg (not_not.mpr hscheme)]
      dsimp only
      by_cases hint : isInteger (JsNumber.ofText (String.ofList nStr)) = true
          ∧ isInteger (JsNumber.ofText (String.ofList rStr)) = true
          ∧ isInteger (JsNumber.ofText (String.ofList pStr)) = true
      · rw [if_pos (And.intro hscheme hint), if_neg (by simp [hint])]
        dsimp only
        cases scryptSync plaintext (Base64.decode saltB64) (Base64.decode hashB64).length _ with
        | error e => rfl
        | ok actual => exact timingSafeEqual_of_length _ actual
      · -- one of the three is no integer
        have hsome : ¬ (scheme = SCHEME ∧ _) := fun hgood => hint hgood.2
        simp only [not_and_or, Bool.not_eq_true] at hint
        rw [if_neg hsome, if_pos]
        simpa [Bool.or_eq_true, or_assoc] using hint
    · have hother (q : Prop) : ¬ (scheme = SCHEME ∧ q) := fun hgood => hscheme hgood.1
      rw [if_pos hscheme, if_neg (hother _)]
  · rfl

/-! ### What is hashed is verified -/

theorem isInteger_of_isPositiveInteger {x : JsNumber} (h : isPositiveInteger x = true) :
    isInteger x = true := by
  cases x with
  | fin x =>
    rw [isPositiveInteger, decide_eq_true_eq] at h
    exact decide_eq_true h.1
  | nan => cases h
  | inf negative => cases h

theorem isPowerOfTwo_fin_iff {x : Double} :
    isPowerOfTwo (.fin x) = true ↔ ∃ k : ℕ, x.val = 2 ^ (k + 1) := by
  rw [isPowerOfTwo, decide_eq_true_eq]
  constructor
  · rintro ⟨k, -, hk⟩
    exact ⟨k, by exact_mod_cast hk⟩
  · rintro ⟨k, hk⟩
    refine ⟨k, ?_, by exact_mod_cast hk⟩
    -- the value is finite
    have hlt : (2 : ℚ) ^ (k + 1) < 2 ^ 1024 := by
      have hfinite := x.finite
      rwa [hk, abs_of_pos (by positivity)] at hfinite
    have hexp := (pow_lt_pow_iff_right₀ (one_lt_two : (1 : ℚ) < 2)).mp hlt
    omega

theorem isInteger_of_isPowerOfTwo {x : JsNumber} (h : isPowerOfTwo x = true) :
    isInteger x = true := by
  cases x with
  | fin x =>
    obtain ⟨k, hk⟩ := isPowerOfTwo_fin_iff.mp h
    have hcast : x.val = ((2 ^ (k + 1) : ℤ) : ℚ) := by exact_mod_cast hk
    apply decide_eq_true
    rw [hcast, Int.floor_intCast]
  | nan => cases h
  | inf negative => cases h

theorem dollar_notMem_toChars (x : JsNumber) : '$' ∉ x.toChars := by
  intro h
  rcases JsNumber.mem_toChars h with h | h <;> exact absurd h (by decide)

theorem dollar_notMem_encode (bytes : List UInt8) : '$' ∉ Base64.encode bytes :=
  Base64.notMem_encode (by decide) bytes

section

variable {scryptSync : Scrypt} (hs : scryptSync.Lawful) (salt : Vector UInt8 16)
  (plaintext : String) {params : ScryptParams} (hvalid : params.isValid = true)

include hs hvalid

/-- What is stored is read back: the parameters, the salt, and a key of the full length. -/
theorem readStored_hashPassword : ∃ stored hash,
    hashPassword scryptSync salt plaintext params = .ok stored
    ∧ scryptSync plaintext salt.toList KEY_LEN params = .ok hash ∧ hash.length = KEY_LEN
    ∧ readStored stored = some ⟨params, salt.toList, hash⟩ := by
  obtain ⟨hash, hhash, hlength⟩ := hs.derived plaintext salt.toList KEY_LEN params hvalid
  have hsplit : (['$'].intercalate [SCHEME, params.N.toChars, params.r.toChars, params.p.toChars,
      Base64.encode salt.toList, Base64.encode hash]).splitOn '$' = [SCHEME, params.N.toChars,
      params.r.toChars, params.p.toChars, Base64.encode salt.toList, Base64.encode hash] := by
    -- none of the parts has a dollar sign in it
    apply List.splitOn_intercalate '$' _ (List.cons_ne_nil _ _)
    simp only [List.forall_mem_cons, List.not_mem_nil, false_imp_iff, implies_true, and_true]
    exact ⟨by decide, dollar_notMem_toChars _, dollar_notMem_toChars _,
      dollar_notMem_toChars _, dollar_notMem_encode _, dollar_notMem_encode _⟩
  rw [ScryptParams.isValid, Bool.and_eq_true, Bool.and_eq_true] at hvalid
  obtain ⟨⟨hN, hr⟩, hp⟩ := hvalid
  -- `Number` reads back what a template literal prints
  have hread : ∀ x : JsNumber, JsNumber.ofText (String.ofList x.toChars) = x :=
    JsNumber.ofText_toText
  refine ⟨_, hash, ?_, hhash, hlength, readStored_eq_some_iff.mpr
    ⟨_, _, _, _, _, (by rw [String.toList_ofList]; exact hsplit), ?_⟩⟩
  · rw [hashPassword, hhash]
    rfl
  · rw [hread, hread, hread, Base64.decode_encode, Base64.decode_encode]
    exact ⟨rfl, isInteger_of_isPowerOfTwo hN, isInteger_of_isPositiveInteger hr,
      isInteger_of_isPositiveInteger hp, rfl, rfl⟩

theorem verifyPassword_hashPassword : ∃ stored,
    hashPassword scryptSync salt plaintext params = .ok stored
    ∧ verifyPassword scryptSync plaintext stored = .ok true := by
  obtain ⟨stored, hash, hstored, hhash, hlength, hread⟩ :=
    readStored_hashPassword hs salt plaintext hvalid
  refine ⟨stored, hstored, ?_⟩
  rw [verifyPassword_eq, hread]
  dsimp only
  rw [hlength, hhash]
  exact congrArg Except.ok (decide_eq_true rfl)

end

/-! ### What is accepted -/

/-- The scrypt with the same bytes in every key, as far as they go. -/
def fixedScrypt (bytes : List UInt8) : Scrypt := fun _ _ keylen params =>
  if params.isValid then .ok ((bytes ++ List.replicate keylen 0).take keylen)
  else .error "Invalid scrypt params"

theorem lawful_fixedScrypt (bytes : List UInt8) : (fixedScrypt bytes).Lawful where
  derived _ _ keylen _ hvalid := by
    refine ⟨_, if_pos hvalid, ?_⟩
    rw [List.length_take, List.length_append, List.length_replicate]
    omega
  refused _ _ _ _ hvalid := ⟨_, if_neg (by simp [hvalid])⟩

theorem fixedScrypt_eq {bytes : List UInt8} {params : ScryptParams} (hvalid : params.isValid = true)
    (password : String) (salt : List UInt8) :
    fixedScrypt bytes password salt bytes.length params = .ok bytes := by
  rw [fixedScrypt, if_pos hvalid, List.take_left' rfl]

/-- A password is accepted where scrypt derives the stored key from it, of whatever length. -/
theorem verifyPassword_eq_true_iff {scryptSync : Scrypt} {plaintext stored : String} :
    verifyPassword scryptSync plaintext stored = .ok true ↔ ∃ h, readStored stored = some h
      ∧ scryptSync plaintext h.salt h.expected.length h.params = .ok h.expected := by
  rw [verifyPassword_eq]
  cases hread : readStored stored with
  | none => simp
  | some h =>
    dsimp only
    cases hkey : scryptSync plaintext h.salt h.expected.length h.params with
    | error error => simp [Except.map, hkey]
    | ok actual => simp [Except.map, hkey, eq_comm]

section

variable {scryptSync : Scrypt} (plaintext : String) {stored : String} {h : StoredHash}

/-- With parameters that are not valid, no password is checked. -/
theorem verifyPassword_of_not_isValid (hs : scryptSync.Lawful) (hread : readStored stored = some h)
    (hvalid : h.params.isValid = false) :
    ∃ error, verifyPassword scryptSync plaintext stored = .error error := by
  obtain ⟨error, herror⟩ := hs.refused plaintext h.salt h.expected.length h.params hvalid
  refine ⟨error, ?_⟩
  rw [verifyPassword_eq, hread]
  dsimp only
  rw [herror]
  rfl

/-- With valid ones, the answer is whether the key is the stored one. -/
theorem verifyPassword_of_isValid (hs : scryptSync.Lawful) (hread : readStored stored = some h)
    (hvalid : h.params.isValid = true) :
    ∃ actual, scryptSync plaintext h.salt h.expected.length h.params = .ok actual
      ∧ actual.length = h.expected.length
      ∧ verifyPassword scryptSync plaintext stored = .ok (decide (h.expected = actual)) := by
  obtain ⟨actual, hactual, hlength⟩ :=
    hs.derived plaintext h.salt h.expected.length h.params hvalid
  refine ⟨actual, hactual, hlength, ?_⟩
  rw [verifyPassword_eq, hread]
  dsimp only
  rw [hactual]
  rfl

theorem verifyPassword_fixedScrypt (hread : readStored stored = some h)
    (hvalid : h.params.isValid = true) {bytes : List UInt8}
    (hlength : bytes.length = h.expected.length) :
    verifyPassword (fixedScrypt bytes) plaintext stored = .ok (decide (h.expected = bytes)) := by
  obtain ⟨actual, hactual, -, hverify⟩ :=
    verifyPassword_of_isValid plaintext (lawful_fixedScrypt bytes) hread hvalid
  rw [← hlength, fixedScrypt_eq hvalid] at hactual
  rw [hverify, Except.ok.inj hactual]

end

/-- A stored text lets every password in, whatever scrypt is, where its parameters are valid and
    its hash decodes to nothing. -/
theorem accepts_all_iff (stored : String) :
    (∀ scryptSync : Scrypt, scryptSync.Lawful →
        ∀ plaintext, verifyPassword scryptSync plaintext stored = .ok true)
      ↔ ∃ h, readStored stored = some h ∧ h.params.isValid = true ∧ h.expected = [] := by
  constructor
  · intro hall
    cases hread : readStored stored with
    | none =>
      have hverify := hall (fixedScrypt []) (lawful_fixedScrypt []) ""
      rw [verifyPassword_eq, hread] at hverify
      cases hverify
    | some h =>
      cases hvalid : h.params.isValid with
      | false =>
        obtain ⟨error, herror⟩ := verifyPassword_of_not_isValid "" (lawful_fixedScrypt []) hread
          hvalid
        rw [hall _ (lawful_fixedScrypt [])] at herror
        cases herror
      | true =>
        -- two keys of the stored length that agree nowhere are both the stored one
        have hfixed (b : UInt8) : h.expected = List.replicate h.expected.length b := by
          have hverify := hall _ (lawful_fixedScrypt (List.replicate h.expected.length b)) ""
          rw [verifyPassword_fixedScrypt _ hread hvalid List.length_replicate] at hverify
          exact of_decide_eq_true (Except.ok.inj hverify)
        refine ⟨h, rfl, hvalid, ?_⟩
        cases hexpected : h.expected with
        | nil => rfl
        | cons b bytes =>
          have hzero := hfixed 0
          have hone := hfixed 1
          rw [hexpected, List.length_cons, List.replicate_succ] at hzero hone
          exact absurd ((List.cons.inj hzero).1.symm.trans (List.cons.inj hone).1) (by decide)
  · rintro ⟨h, hread, hvalid, hexpected⟩ scryptSync hs plaintext
    obtain ⟨actual, -, hlength, hverify⟩ :=
      verifyPassword_of_isValid plaintext hs hread hvalid
    rw [hexpected] at hlength hverify
    rw [hverify, List.length_eq_zero_iff.mp hlength]
    rfl

/-! ### Only a full hash -/

/-- Six parts behind the name, integers, and 64 bytes that scrypt derives from the password. -/
def Matches (scryptSync : Scrypt) (plaintext stored : String) : Prop :=
  ∃ nStr rStr pStr saltB64 hashB64,
    stored.toList.splitOn '$' = [SCHEME, nStr, rStr, pStr, saltB64, hashB64]
    ∧ ∃ N r p, N = JsNumber.ofText (String.ofList nStr) ∧ r = JsNumber.ofText (String.ofList rStr)
      ∧ p = JsNumber.ofText (String.ofList pStr)
      ∧ isInteger N = true ∧ isInteger r = true ∧ isInteger p = true
      ∧ (Base64.decode hashB64).length = 64
      ∧ scryptSync plaintext (Base64.decode saltB64) 64 ⟨N, r, p⟩ = .ok (Base64.decode hashB64)

/-- What the verification of a password against a stored text is meant to be, for every scrypt. -/
structure Upheld (plaintext stored : String) : Prop where
  hashed : ∀ scryptSync : Scrypt, scryptSync.Lawful →
    ∀ (salt : Vector UInt8 16) (params : ScryptParams), params.isValid = true →
      ∃ hash, hashPassword scryptSync salt plaintext params = .ok hash
        ∧ verifyPassword scryptSync plaintext hash = .ok true
  answered : ∀ scryptSync : Scrypt, scryptSync.Lawful →
    ∃ answer, verifyPassword scryptSync plaintext stored = .ok answer
  matched : ∀ scryptSync : Scrypt, scryptSync.Lawful →
    verifyPassword scryptSync plaintext stored = .ok true → Matches scryptSync plaintext stored
  closed : ¬ ∀ scryptSync : Scrypt, scryptSync.Lawful →
    ∀ other, verifyPassword scryptSync other stored = .ok true

/-- What reads as a stored hash has valid parameters and a hash of the full length. -/
def IsFull (stored : String) : Prop :=
  ∀ h, readStored stored = some h → h.params.isValid = true ∧ h.expected.length = KEY_LEN

theorem matches_iff {scryptSync : Scrypt} {plaintext stored : String} :
    Matches scryptSync plaintext stored ↔ ∃ h, readStored stored = some h
      ∧ h.expected.length = KEY_LEN
      ∧ scryptSync plaintext h.salt KEY_LEN h.params = .ok h.expected := by
  constructor
  · rintro ⟨nStr, rStr, pStr, saltB64, hashB64, hparts, N, r, p, hN, hr, hp, iN, ir, ip, hlength,
      hkey⟩
    refine ⟨⟨⟨N, r, p⟩, _, _⟩, ?_, hlength, hkey⟩
    subst hN hr hp
    apply readStored_eq_some_iff.mpr
    dsimp only
    exact ⟨nStr, rStr, pStr, saltB64, hashB64, hparts, rfl, iN, ir, ip, rfl, rfl⟩
  · rintro ⟨⟨params, salt, expected⟩, hread, hlength, hkey⟩
    obtain ⟨nStr, rStr, pStr, saltB64, hashB64, hparts, rfl, iN, ir, ip, rfl, rfl⟩ :=
      readStored_eq_some_iff.mp hread
    dsimp only at iN ir ip hlength hkey
    exact ⟨nStr, rStr, pStr, saltB64, hashB64, hparts, _, _, _, rfl, rfl, rfl, iN, ir, ip, hlength,
      hkey⟩

theorem upheld_iff (plaintext stored : String) : Upheld plaintext stored ↔ IsFull stored := by
  constructor
  · intro hup h hread
    have hvalid : h.params.isValid = true := by
      -- otherwise no scrypt derives a key
      by_contra hvalid
      obtain ⟨error, herror⟩ := verifyPassword_of_not_isValid plaintext (lawful_fixedScrypt [])
        hread (Bool.eq_false_of_not_eq_true hvalid)
      obtain ⟨answer, hanswer⟩ := hup.answered _ (lawful_fixedScrypt [])
      rw [herror] at hanswer
      cases hanswer
    refine ⟨hvalid, ?_⟩
    -- the scrypt with the stored key in it accepts
    have hverify := verifyPassword_fixedScrypt plaintext hread hvalid rfl
    rw [decide_eq_true rfl] at hverify
    obtain ⟨h', hread', hlength, -⟩ := matches_iff.mp (hup.matched _ (lawful_fixedScrypt _) hverify)
    obtain rfl := Option.some.inj (hread'.symm.trans hread)
    exact hlength
  · intro hfull
    refine ⟨fun scryptSync hs salt params hvalid =>
      verifyPassword_hashPassword hs salt plaintext hvalid, ?_, ?_, ?_⟩
    · intro scryptSync hs
      cases hread : readStored stored with
      | none =>
        refine ⟨false, ?_⟩
        rw [verifyPassword_eq, hread]
      | some h =>
        obtain ⟨actual, -, -, hverify⟩ :=
          verifyPassword_of_isValid plaintext hs hread (hfull h hread).1
        exact ⟨_, hverify⟩
    · intro scryptSync hs haccepted
      obtain ⟨h, hread, hkey⟩ := verifyPassword_eq_true_iff.mp haccepted
      have hlength := (hfull h hread).2
      rw [hlength] at hkey
      exact matches_iff.mpr ⟨h, hread, hlength, hkey⟩
    · -- a hash of 64 bytes is not empty
      rw [accepts_all_iff]
      rintro ⟨h, hread, -, hexpected⟩
      have hlength := (hfull h hread).2
      rw [hexpected] at hlength
      cases hlength

/-- A hash that is cut off lets every password in; a cost that is no power of two throws. -/
theorem not_upheld_truncated :
    (¬ Upheld "guess" "scrypt$16384$8$1$$"
      ∧ ∀ scryptSync : Scrypt, scryptSync.Lawful →
        ∀ plaintext, verifyPassword scryptSync plaintext "scrypt$16384$8$1$$" = .ok true)
    ∧ ¬ Upheld "guess" "scrypt$3$8$1$$"
    ∧ ∀ scryptSync : Scrypt, scryptSync.Lawful → ∀ plaintext,
      ∃ error, verifyPassword scryptSync plaintext "scrypt$3$8$1$$" = .error error := by
  have hopen := (accepts_all_iff "scrypt$16384$8$1$$").mpr
    ⟨⟨DEFAULT_SCRYPT_PARAMS, [], []⟩, by decide +kernel, isValid_default, rfl⟩
  have hthrows : ∀ scryptSync : Scrypt, scryptSync.Lawful → ∀ plaintext,
      ∃ error, verifyPassword scryptSync plaintext "scrypt$3$8$1$$" = .error error := by
    intro scryptSync hs plaintext
    have hread : readStored "scrypt$3$8$1$$" = some ⟨⟨.ofNat 3, .ofNat 8, .ofNat 1⟩, [], []⟩ := by
      decide +kernel
    exact verifyPassword_of_not_isValid plaintext hs hread (by decide +kernel)
  refine ⟨⟨fun hup => hup.closed hopen, hopen⟩, fun hup => ?_, hthrows⟩
  obtain ⟨answer, hanswer⟩ := hup.answered _ (lawful_fixedScrypt [])
  obtain ⟨error, herror⟩ := hthrows _ (lawful_fixedScrypt []) "guess"
  rw [herror] at hanswer
  cases hanswer

end Argus.Core
