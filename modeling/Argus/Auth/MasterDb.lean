import Argus.Lib.Table
import Mathlib.Data.Rat.Floor

namespace Argus.Auth

/-!
# The master database, as the authentication services use it

The two tables behind every sign-in decision — `users` and `refresh_tokens` — and the SQL
statements the services `auth.ts`, `sessions.ts`, `lockout.ts`, `twofa.ts` and `users.ts`
issue against them.

* `User`, `RefreshToken`, `MasterDb` — the rows, without the columns no modelled statement
  reads (`createdAt`, `updatedAt`).
* `Core` — the cryptographic functions of `@argus/core`, which the services call but whose
  inside plays no part here: every result below holds for any such functions.
* `Stmt` — one constructor per statement that writes; `Stmt.exec` is what the database
  does for it.  A statement is atomic, a request is not (`Requests.lean`).

Instants are milliseconds since the epoch.  Ids, names and tokens are strings, as in the
schema; SHA-256 is taken collision-free, so a digest keeps the text it was made from.
-/

/-! ### Values -/

/-- A SHA-256 digest.  Taken collision-free: equal digests come from equal texts. -/
structure Digest where
  sha256 ::
  preimage : String
deriving DecidableEq, Repr

export Digest (sha256)

/-- `users.auth_provider`. -/
inductive AuthProvider
  | localAuth
  | oidc
deriving DecidableEq, Repr

/-- The failures the two-factor service raises: a missing encryption key
    (`TwoFAConfigError`), a code that does not verify (`TwoFAVerifyError` with its message),
    or anything else thrown below it. -/
inductive TwoFAError
  | config
  | verify (message : String)
  | other
deriving DecidableEq, Repr

/-- The functions of `@argus/core` that the services call, and the JavaScript string
    functions applied to a recovery code.  Nothing is assumed about them. -/
structure Core where
  /-- `verifyPassword(password, storedHash)`. -/
  verifyPassword : String → String → Bool
  /-- `hashPassword(password)` with the random salt it draws. -/
  hashPassword : String → String → String
  /-- `masterKey()`: the loaded `ENCRYPTION_KEY`, or the error raised without one. -/
  masterKey : Except TwoFAError String
  /-- `encryptSecret(secret, key)`. -/
  encryptSecret : String → String → String
  /-- `decryptSecret(envelope, key)`. -/
  decryptSecret : String → String → Except TwoFAError String
  /-- `verifyTotp(secret, token, atTime)`. -/
  verifyTotp : String → String → ℕ → Except TwoFAError Bool
  /-- `code.trim().toLowerCase()`. -/
  trimLower : String → String

/-- JavaScript truthiness of an optional string: `null`, `undefined` and `""` are falsy. -/
def truthy (s : Option String) : Option String := s.filter (fun t => decide (t ≠ ""))

theorem truthy_some {s : Option String} {t : String} (h : truthy s = some t) : s = some t := by
  unfold truthy at h
  exact (Option.filter_eq_some_iff.mp h).1

/-! ### Rows -/

/-- A row of `users`. -/
structure User where
  id : String
  username : String
  displayName : String := ""
  email : Option String := none
  passwordHash : Option String := none
  authProvider : AuthProvider := .localAuth
  disabled : Bool := false
  isOwner : Bool := false
  isSystem : Bool := false
  totpEnabled : Bool := false
  totpSecret : Option String := none
  totpRecovery : Option (List Digest) := none
  tokenVersion : ℕ := 0
  failedLoginCount : ℕ := 0
  lockedUntil : Option ℕ := none
  lastLoginAt : Option ℕ := none
deriving DecidableEq, Repr

/-- A row of `refresh_tokens`; its id is the session id of the access tokens bound to it. -/
structure RefreshToken where
  id : String
  userId : String
  tokenHash : Digest
  expiresAt : ℕ
  revokedAt : Option ℕ := none
  userAgent : Option String := none
  ip : Option String := none
  lastUsedAt : Option ℕ := none
deriving DecidableEq, Repr

/-- The `security.lockout` setting: the numeric fields of the stored JSON object, `none`
    where the field is missing or no number (or the whole setting is missing). -/
structure LockoutSetting where
  maxAttempts : Option ℚ := none
  windowMinutes : Option ℚ := none
deriving DecidableEq, Repr

/-- The part of the master database the authentication services work on. -/
structure MasterDb where
  users : List User
  refreshTokens : List RefreshToken
  lockout : LockoutSetting := {}
deriving Repr

/-! ### Reads -/

/-- `isNull(revokedAt) AND expiresAt > now` — the condition every session query shares. -/
def RefreshToken.live (row : RefreshToken) (now : ℕ) : Bool :=
  row.revokedAt.isNone && decide (now < row.expiresAt)

theorem RefreshToken.live_iff {row : RefreshToken} {now : ℕ} :
    row.live now = true ↔ row.revokedAt = none ∧ now < row.expiresAt := by
  rw [RefreshToken.live, Bool.and_eq_true, Option.isNone_iff_eq_none, decide_eq_true_eq]

namespace MasterDb

variable (db : MasterDb)

/-- `SELECT … FROM users WHERE id = … LIMIT 1`. -/
def getUser (id : String) : Option User := Table.lookup User.id id db.users

/-- `findLocalUser`: the row of a user that can sign in with a password. -/
def findLocalUser (username : String) : Option User :=
  match Table.lookup User.username username db.users with
  | none => none
  | some user =>
    if user.disabled || user.authProvider != .localAuth || (truthy user.passwordHash).isNone
    then none else some user

/-- `getTokenVersion`. -/
def getTokenVersion (id : String) : Option ℕ := (db.getUser id).map User.tokenVersion

/-- The `SELECT` of `rotateRefreshToken`: the live row of a token hash. -/
def liveTokenByHash (hash : Digest) (now : ℕ) : Option RefreshToken :=
  db.refreshTokens.find? (fun r => decide (r.tokenHash = hash) && r.live now)

/-- `isSessionLive`. -/
def isSessionLive (sessionId : String) (now : ℕ) : Bool :=
  db.refreshTokens.any (fun r => decide (r.id = sessionId) && r.live now)

/-- `resolveSubject(...) !== null`: the user exists and is not disabled. -/
def resolvesSubject (id : String) : Bool :=
  match db.getUser id with
  | none => false
  | some user => !user.disabled

end MasterDb

/-- The payload of an access token. -/
structure AccessClaims where
  sub : String
  sid : Option String
  tv : Option ℕ
deriving DecidableEq, Repr

/-- What `authenticate` answers to a bearer token. -/
inductive AuthResult
  | subject (userId : String)
  | unauthorized
  | tokenRevoked
  | sessionRevoked
deriving DecidableEq, Repr

/-- The revocation checks of `authenticate` on a verified payload: the token version first,
    then the session. -/
def revocationCheck (db : MasterDb) (now : ℕ) (claims : AccessClaims) : Option AuthResult :=
  if claims.tv.any (fun tv => decide (db.getTokenVersion claims.sub ≠ some tv)) then
    some .tokenRevoked
  else if claims.sid.any (fun sid => !db.isSessionLive sid now) then some .sessionRevoked
  else none

/-- `authenticate` on a JWT bearer; `verified` is what `req.jwtVerify()` accepted. -/
def authenticate (db : MasterDb) (now : ℕ) (verified : Option AccessClaims) : AuthResult :=
  match verified with
  | none => .unauthorized
  | some claims =>
    match revocationCheck db now claims with
    | some refusal => refusal
    | none => if db.resolvesSubject claims.sub then .subject claims.sub else .unauthorized

/-- `authenticate` lets the payload through. -/
def accepted (db : MasterDb) (now : ℕ) (claims : AccessClaims) : Bool :=
  decide (authenticate db now (some claims) = .subject claims.sub)

/-- A payload passes the revocation checks when its version is the stored one and its
    session is live. -/
theorem revocationCheck_eq_none {db : MasterDb} {now : ℕ} {claims : AccessClaims} :
    revocationCheck db now claims = none ↔
      (∀ tv, claims.tv = some tv → db.getTokenVersion claims.sub = some tv) ∧
      ∀ sid, claims.sid = some sid → db.isSessionLive sid now = true := by
  unfold revocationCheck
  -- a payload without version or session skips that check; only both together need care
  cases htv : claims.tv <;> cases hsid : claims.sid <;> simp
  rename_i tv sid
  by_cases hv : db.getTokenVersion claims.sub = some tv <;> simp [hv]

/-- A refusal is never a subject. -/
theorem revocationCheck_ne_subject {db : MasterDb} {now : ℕ} {claims : AccessClaims}
    {refusal : AuthResult} (h : revocationCheck db now claims = some refusal) (userId : String) :
    refusal ≠ .subject userId := by
  unfold revocationCheck at h
  split at h
  · rw [← Option.some.inj h]
    simp
  · split at h
    · rw [← Option.some.inj h]
      simp
    · exact absurd h (by simp)

/-- `authenticate` accepts what passes the revocation checks for a user who may sign in. -/
theorem accepted_iff {db : MasterDb} {now : ℕ} {claims : AccessClaims} :
    accepted db now claims = true ↔
      revocationCheck db now claims = none ∧ db.resolvesSubject claims.sub = true := by
  unfold accepted authenticate
  cases h : revocationCheck db now claims with
  | none => simp [h]
  | some refusal => simp [h, revocationCheck_ne_subject h]

/-- The subject `authenticate` finds is the one of the payload. -/
theorem authenticate_eq_subject {db : MasterDb} {now : ℕ} {claims : AccessClaims}
    {userId : String} :
    authenticate db now (some claims) = .subject userId ↔
      accepted db now claims = true ∧ userId = claims.sub := by
  rw [accepted_iff]
  unfold authenticate
  cases h : revocationCheck db now claims with
  | none =>
    cases hres : db.resolvesSubject claims.sub <;> simp [h, hres, eq_comm]
  | some refusal => simp [h, revocationCheck_ne_subject h]

/-! ### Lockout policy -/

/-- The effective lockout policy. -/
structure LockoutPolicy where
  maxAttempts : ℚ
  windowMinutes : ℚ
deriving DecidableEq, Repr

/-- A numeric setting that has to be positive, else its default. -/
def positiveOr (value : Option ℚ) (fallback : ℚ) : ℚ :=
  match value with
  | some v => if 0 < v then v else fallback
  | none => fallback

/-- `getLockoutPolicy`, with `DEFAULT_POLICY` of five attempts and fifteen minutes. -/
def MasterDb.getLockoutPolicy (db : MasterDb) : LockoutPolicy where
  maxAttempts := positiveOr db.lockout.maxAttempts 5
  windowMinutes := positiveOr db.lockout.windowMinutes 15

/-- The lock window in milliseconds: `windowMinutes * 60_000`, truncated by `Date`. -/
def LockoutPolicy.windowMs (policy : LockoutPolicy) : ℕ := ⌊policy.windowMinutes * 60000⌋.toNat

/-- `isLocked`. -/
def isLocked (user : User) (now : ℕ) : Bool := user.lockedUntil.any (fun t => decide (now < t))

/-- `checkPassword`. -/
def checkPassword (core : Core) (user : User) (password : String) : Bool :=
  match truthy user.passwordHash with
  | none => false
  | some hash => core.verifyPassword password hash

/-! ### Statements that write -/

/-- The columns `updateUser` sets (an absent one is left alone). -/
structure UserPatch where
  displayName : Option String := none
  email : Option (Option String) := none
  disabled : Option Bool := none
  passwordHash : Option String := none
deriving DecidableEq, Repr

/-- The SQL statements of the authentication services.  `select` stands for every statement
    that only reads. -/
inductive Stmt
  | select
  /-- `INSERT INTO refresh_tokens` of `issueRefreshToken`. -/
  | insertToken (row : RefreshToken)
  /-- The `UPDATE` of `rotateRefreshToken`, by id and unconditional. -/
  | rotateOut (id : String) (nowIso : ℕ)
  /-- `revokeRefreshToken`, by hash where not yet revoked. -/
  | revokeRefreshToken (hash : Digest) (t : ℕ)
  /-- The `UPDATE` of `terminateSession`, by id and unconditional. -/
  | terminateSession (id : String) (t : ℕ)
  /-- `terminateAllForUser`: the user's live rows, except one token hash if given. -/
  | terminateAllForUser (userId : String) (exceptTokenHash : Option Digest) (nowIso : ℕ)
  /-- `terminateOtherSessions`: the user's live rows except one id. -/
  | terminateOtherSessions (userId exceptSessionId : String) (nowIso : ℕ)
  | bumpTokenVersion (userId : String)
  /-- The `UPDATE` of `recordFailure` that locks: counter to zero, `lockedUntil` set. -/
  | lockAccount (userId : String) (lockedUntil : ℕ)
  /-- The `UPDATE` of `recordFailure` that only counts. -/
  | countFailure (userId : String) (nextCount : ℕ)
  /-- `recordSuccess`, which is also `clearLock`. -/
  | recordSuccess (userId : String)
  | markLoggedIn (userId : String) (t : ℕ)
  /-- The `UPDATE` of the password route. -/
  | setPassword (userId hash : String)
  /-- The `UPDATE` of `updateUser`. -/
  | patchUser (userId : String) (patch : UserPatch)
  | beginSetup (userId envelope : String)
  | enableTotp (userId : String) (recovery : List Digest)
  /-- The `UPDATE` of `verifyForLogin` that writes the remaining recovery hashes. -/
  | setRecovery (userId : String) (remaining : List Digest)
  /-- `disable`, which is also `resetFor`. -/
  | disableTotp (userId : String)
deriving DecidableEq, Repr

/-- `SET` clause of `updateUser`. -/
def UserPatch.apply (patch : UserPatch) (user : User) : User :=
  { user with
    displayName := patch.displayName.getD user.displayName
    email := patch.email.getD user.email
    disabled := patch.disabled.getD user.disabled
    passwordHash := patch.passwordHash.or user.passwordHash }

/-- The `SET` clause of a statement on one user, with the user it is about. -/
def Stmt.onUser : Stmt → Option (String × (User → User))
  | .bumpTokenVersion id => some (id, fun u => { u with tokenVersion := u.tokenVersion + 1 })
  | .lockAccount id t =>
      some (id, fun u => { u with failedLoginCount := 0, lockedUntil := some t })
  | .countFailure id n => some (id, fun u => { u with failedLoginCount := n })
  | .recordSuccess id =>
      some (id, fun u => { u with failedLoginCount := 0, lockedUntil := none })
  | .markLoggedIn id t => some (id, fun u => { u with lastLoginAt := some t })
  | .setPassword id hash => some (id, fun u => { u with passwordHash := some hash })
  | .patchUser id patch => some (id, patch.apply)
  -- `totpRecovery` keeps the codes of an earlier enrolment
  | .beginSetup id envelope =>
      some (id, fun u => { u with totpSecret := some envelope, totpEnabled := false })
  | .enableTotp id recovery =>
      some (id, fun u => { u with totpEnabled := true, totpRecovery := some recovery })
  | .setRecovery id remaining => some (id, fun u => { u with totpRecovery := some remaining })
  | .disableTotp id =>
      some (id, fun u =>
        { u with totpEnabled := false, totpSecret := none, totpRecovery := none })
  | _ => none

/-- The rows of `refresh_tokens` a revoking statement matches, with the instant it writes
    and whether it also stamps `lastUsedAt`. -/
def Stmt.onTokens : Stmt → Option ((RefreshToken → Bool) × ℕ × Bool)
  -- by id alone, whether or not the row is still live
  | .rotateOut id t => some (fun r => decide (r.id = id), t, true)
  | .revokeRefreshToken hash t =>
      some (fun r => decide (r.tokenHash = hash) && r.revokedAt.isNone, t, false)
  | .terminateSession id t => some (fun r => decide (r.id = id), t, false)
  | .terminateAllForUser userId except t =>
      some (fun r => decide (r.userId = userId) && r.live t
        && except.all (fun hash => decide (r.tokenHash ≠ hash)), t, false)
  | .terminateOtherSessions userId except t =>
      some (fun r => decide (r.userId = userId) && r.live t && decide (r.id ≠ except), t, false)
  | _ => none

/-- The `SET` clause of the revoking statements. -/
def RefreshToken.revoke (t : ℕ) (used : Bool) (row : RefreshToken) : RefreshToken :=
  { row with revokedAt := some t, lastUsedAt := if used then some t else row.lastUsedAt }

/-- What the database does for a statement. -/
def Stmt.exec (stmt : Stmt) (db : MasterDb) : MasterDb :=
  { db with
    users := match stmt.onUser with
      | some (id, set) => Table.update (fun u => decide (u.id = id)) set db.users
      | none => db.users
    refreshTokens := match stmt with
      | .insertToken row => db.refreshTokens ++ [row]
      | _ => match stmt.onTokens with
        | some (hit, t, used) => Table.update hit (RefreshToken.revoke t used) db.refreshTokens
        | none => db.refreshTokens }

end Argus.Auth
