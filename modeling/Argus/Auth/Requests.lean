import Argus.Auth.MasterDb
import Argus.Lib.Machine

namespace Argus.Auth

/-!
# Requests as processes over the master database

Each handler of `auth.routes.ts`, `users.routes.ts` and `sessions.routes.ts` that touches a
credential, written as the sequence of statements it awaits.  A program counter says which
statement is next and keeps the local variables the handler still needs; everything between
two awaits happens in the step of the statement before it.  No transaction surrounds a
request, so statements of different requests interleave freely.

* `SecondFactor`, `verifyForLogin` — the pure part of `verifyForLogin`.
* `…Pc` — the program counters, `…Pc.step` — the next statement and what follows it.
* `Proc` — a request in progress; `World` — the database, the clock, the access tokens
  signed so far and all requests.  `machine` interleaves the requests.

The self-service routes are behind `authenticate`: their first statement waits until the
caller's access token is one the backend signed and still accepts (`World.admits`).  The
administrators' routes stay open to any caller.  Audit inserts go to the telemetry database
and are left out.
-/

/-- The random values a step may draw: a row id (`crypto.randomUUID`), a refresh token
    (`randomBytes(32)`), a password salt, a TOTP secret and recovery codes. -/
structure Fresh where
  id : String := ""
  raw : String := ""
  salt : String := ""
  secret : String := ""
  codes : List String := []
deriving DecidableEq, Repr

/-- Row id and token of `fresh` have never been stored, and the token is not empty. -/
def Fresh.unused (fresh : Fresh) (db : MasterDb) : Bool :=
  decide (fresh.raw ≠ "") && db.refreshTokens.all
    (fun r => decide (r.id ≠ fresh.id) && decide (r.tokenHash ≠ sha256 fresh.raw))

/-- Server configuration. -/
structure Config where
  core : Core
  refreshTtlSec : ℕ

/-- One step of a request: the statement it issues, where the request continues, and the
    access token it signs, if any. -/
structure Action (π : Type) where
  stmt : Stmt
  next : π
  signed : Option AccessClaims := none

/-- Carry a step over to the request that contains the program counter. -/
def Action.map {π ρ : Type} (f : π → ρ) (a : Action π) : Action ρ where
  stmt := a.stmt
  next := f a.next
  signed := a.signed

/-- The length a JavaScript string reports: UTF-16 code units. -/
def utf16Length (s : String) : ℕ :=
  (s.toList.map (fun c => if c.toNat < 0x10000 then 1 else 2)).sum

/-! ### The second factor -/

/-- What `verifyForLogin` finds a code to be. -/
inductive SecondFactor
  | rejected
  | totp
  | recovery (remaining : List Digest)
deriving DecidableEq, Repr

/-- `verifyForLogin` up to its `UPDATE`: a current TOTP code, else an unused recovery code. -/
def verifyForLogin (core : Core) (user : User) (code : String) (now : ℕ) :
    Except TwoFAError SecondFactor :=
  if !user.totpEnabled then .ok .rejected else
  match truthy user.totpSecret with
  | none => .ok .rejected
  | some envelope => do
    let key ← core.masterKey
    let secret ← core.decryptSecret envelope key
    if ← core.verifyTotp secret code now then return .totp
    -- the list comes from the row the caller read, not from the database
    let hashes := user.totpRecovery.getD []
    let submittedHash := sha256 (core.trimLower code)
    if hashes.contains submittedHash then
      return .recovery (hashes.filter (fun h => decide (h ≠ submittedHash)))
    return .rejected

/-! ### Refresh-token issue -/

/-- The row `issueRefreshToken` inserts. -/
def newToken (userId : String) (ttlSec now : ℕ) (fresh : Fresh) (userAgent ip : Option String) :
    RefreshToken where
  id := fresh.id
  userId := userId
  tokenHash := sha256 fresh.raw
  expiresAt := now + ttlSec * 1000
  userAgent := userAgent
  ip := ip
  lastUsedAt := some now

/-! ### `POST /api/auth/login` -/

/-- Body and connection of a login request. -/
structure LoginReq where
  username : String
  password : String
  code : Option String := none
  userAgent : Option String := none
  ip : Option String := none
deriving DecidableEq, Repr

inductive LoginReply
  | invalidRequest
  | invalidCredentials
  | accountLocked (until_ : Option ℕ)
  | twofaRequired
  | invalid2fa
  | serverMisconfigured
  | internalError
  | ok (access : AccessClaims) (refreshToken : String) (usedRecovery : Bool)
deriving DecidableEq, Repr

inductive LoginPc
  | start
  /-- The password was wrong: `getLockoutPolicy` is next. -/
  | failing (user : User)
  /-- `recordFailure` is next. -/
  | counting (user : User) (policy : LockoutPolicy)
  /-- A recovery code matched: its removal is next. -/
  | consuming (user : User) (remaining : List Digest)
  /-- Fully authenticated: `recordSuccess`, `markLoggedIn`, `issueRefreshToken` follow. -/
  | clearing (user : User) (usedRecovery : Bool)
  | stamping (user : User) (usedRecovery : Bool)
  | issuing (user : User) (usedRecovery : Bool)
  | done (reply : LoginReply)
deriving DecidableEq, Repr

/-- The login handler from `findLocalUser` to the next statement. -/
def afterFindLocalUser (core : Core) (now : ℕ) (req : LoginReq) : Option User → LoginPc
  | none => .done .invalidCredentials
  | some user =>
    -- the lock is checked before the password, so a locked account counts no failure
    if isLocked user now then .done (.accountLocked user.lockedUntil)
    else if !checkPassword core user req.password then .failing user
    else if user.totpEnabled then
      match truthy req.code with
      | none => .done .twofaRequired
      | some code =>
        match verifyForLogin core user code now with
        | .error .config => .done .serverMisconfigured
        | .error _ => .done .internalError
        -- a wrong code ends the request: `recordFailure` is not called
        | .ok .rejected => .done .invalid2fa
        | .ok .totp => .clearing user false
        | .ok (.recovery remaining) => .consuming user remaining
    else .clearing user false

/-- The `UPDATE` of `recordFailure`, computed from the row the request read. -/
def recordFailure (user : User) (policy : LockoutPolicy) (now : ℕ) : Stmt :=
  -- an absolute value, not `failed_login_count + 1` in SQL
  let nextCount := user.failedLoginCount + 1
  if policy.maxAttempts ≤ nextCount then .lockAccount user.id (now + policy.windowMs)
  else .countFailure user.id nextCount

def LoginPc.step (cfg : Config) (now : ℕ) (fresh : Fresh) (db : MasterDb) (req : LoginReq) :
    LoginPc → Option (Action LoginPc)
  | .start =>
    if req.username = "" ∨ req.password = "" then
      some { stmt := .select, next := .done .invalidRequest }
    else some
      { stmt := .select
        next := afterFindLocalUser cfg.core now req (db.findLocalUser req.username) }
  | .failing user => some { stmt := .select, next := .counting user db.getLockoutPolicy }
  | .counting user policy =>
    some { stmt := recordFailure user policy now, next := .done .invalidCredentials }
  | .consuming user remaining =>
    some { stmt := .setRecovery user.id remaining, next := .clearing user true }
  | .clearing user used => some { stmt := .recordSuccess user.id, next := .stamping user used }
  | .stamping user used => some { stmt := .markLoggedIn user.id now, next := .issuing user used }
  | .issuing user used =>
    -- the version is the one of the row read at the start
    let claims : AccessClaims := ⟨user.id, some fresh.id, some user.tokenVersion⟩
    if fresh.unused db then some
      { stmt := .insertToken (newToken user.id cfg.refreshTtlSec now fresh req.userAgent req.ip)
        next := .done (.ok claims fresh.raw used)
        signed := some claims }
    else none
  | .done _ => none

/-! ### `POST /api/auth/refresh` -/

inductive RefreshReply
  | invalidRequest
  | invalidToken
  | ok (access : AccessClaims) (refreshToken : String)
deriving DecidableEq, Repr

inductive RefreshPc
  | start
  /-- `rotateRefreshToken` found the live row `row`; its revocation is next. -/
  | selected (row : RefreshToken) (nowIso : ℕ)
  /-- The row is revoked; `issueRefreshToken` is next. -/
  | revoked (row : RefreshToken)
  /-- `rotateRefreshToken` has returned a non-null result; `getTokenVersion` is next. -/
  | rotated (userId refreshToken sessionId : String)
  | done (reply : RefreshReply)
deriving DecidableEq, Repr

def RefreshPc.step (cfg : Config) (now : ℕ) (fresh : Fresh) (db : MasterDb) (raw : String) :
    RefreshPc → Option (Action RefreshPc)
  | .start =>
    if raw = "" then some { stmt := .select, next := .done .invalidRequest }
    else some
      { stmt := .select
        next := match db.liveTokenByHash (sha256 raw) now with
          | none => .done .invalidToken
          | some row => .selected row now }
  -- the `UPDATE` does not check that the row is still live
  | .selected row nowIso => some { stmt := .rotateOut row.id nowIso, next := .revoked row }
  | .revoked row =>
    if fresh.unused db then some
      { stmt := .insertToken
          (newToken row.userId cfg.refreshTtlSec now fresh row.userAgent row.ip)
        next := .rotated row.userId fresh.raw fresh.id }
    else none
  | .rotated userId refreshToken sessionId =>
    -- unlike login, refresh reads the version after the row is inserted
    let claims : AccessClaims :=
      ⟨userId, some sessionId, some ((db.getTokenVersion userId).getD 0)⟩
    some { stmt := .select, next := .done (.ok claims refreshToken), signed := some claims }
  | .done _ => none

/-! ### Logout and session termination -/

inductive LogoutPc
  | start
  | revoking
  | done
deriving DecidableEq, Repr

/-- `userIdForRefreshToken` (for the audit line), then `revokeRefreshToken`. -/
def LogoutPc.step (now : ℕ) (raw : String) : LogoutPc → Option (Action LogoutPc)
  | .start => some { stmt := .select, next := if raw = "" then .done else .revoking }
  | .revoking => some { stmt := .revokeRefreshToken (sha256 raw) now, next := .done }
  | .done => none

inductive TerminatePc
  /-- Self-service: `listSessions` of the caller has to contain the session. -/
  | listing (caller : AccessClaims)
  | selecting
  | updating
  | done (found : Bool)
deriving DecidableEq, Repr

def TerminatePc.step (now : ℕ) (db : MasterDb) (id : String) :
    TerminatePc → Option (Action TerminatePc)
  | .listing caller =>
    let own := db.refreshTokens.any
      (fun r => decide (r.id = id) && decide (r.userId = caller.sub) && r.live now)
    some { stmt := .select, next := if own then .selecting else .done false }
  | .selecting =>
    let found := db.refreshTokens.any (fun r => decide (r.id = id))
    some { stmt := .select, next := if found then .updating else .done false }
  -- by id alone: a row revoked meanwhile gets a new `revokedAt`
  | .updating => some { stmt := .terminateSession id now, next := .done true }
  | .done _ => none

inductive TerminateAllPc
  | start
  | bumping
  | done
deriving DecidableEq, Repr

/-- `POST /api/users/:id/sessions/terminate`. -/
def TerminateAllPc.step (now : ℕ) (userId : String) :
    TerminateAllPc → Option (Action TerminateAllPc)
  | .start => some { stmt := .terminateAllForUser userId none now, next := .bumping }
  | .bumping => some { stmt := .bumpTokenVersion userId, next := .done }
  | .done => none

/-! ### `POST /api/me/password` -/

structure PasswordReq where
  /-- The payload of the access token the request came with. -/
  caller : AccessClaims
  currentPassword : String
  newPassword : String
deriving DecidableEq, Repr

/-- `req.subject.userId`. -/
def PasswordReq.userId (req : PasswordReq) : String := req.caller.sub

/-- `req.user?.sid`, as far as it is truthy. -/
def PasswordReq.sid (req : PasswordReq) : Option String := truthy req.caller.sid

inductive PasswordReply
  | invalidRequest
  | notFound
  | oidcUser
  | invalidCurrent
  | ok (access : Option AccessClaims)
deriving DecidableEq, Repr

inductive PasswordPc
  | start
  | writing
  | clearing
  | terminating
  | bumping
  | versioning (sid : String)
  | done (reply : PasswordReply)
deriving DecidableEq, Repr

/-- The password handler from its `SELECT` of the user to the next statement. -/
def afterGetUser (core : Core) (req : PasswordReq) : Option User → PasswordPc
  | none => .done .notFound
  | some user =>
    match truthy user.passwordHash with
    | none => .done .oidcUser
    | some hash =>
      if core.verifyPassword req.currentPassword hash then .writing else .done .invalidCurrent

def PasswordPc.step (cfg : Config) (now : ℕ) (fresh : Fresh) (db : MasterDb)
    (req : PasswordReq) : PasswordPc → Option (Action PasswordPc)
  | .start =>
    if req.currentPassword = "" ∨ utf16Length req.newPassword < 8 then
      some { stmt := .select, next := .done .invalidRequest }
    else some { stmt := .select, next := afterGetUser cfg.core req (db.getUser req.userId) }
  | .writing =>
    let hash := cfg.core.hashPassword fresh.salt req.newPassword
    some { stmt := .setPassword req.userId hash, next := .clearing }
  | .clearing => some { stmt := .recordSuccess req.userId, next := .terminating }
  | .terminating =>
    -- with a session in the caller's token that session is spared
    some
      { stmt := match req.sid with
          | some sid => .terminateOtherSessions req.userId sid now
          | none => .terminateAllForUser req.userId none now
        next := .bumping }
  | .bumping =>
    some
      { stmt := .bumpTokenVersion req.userId
        next := match req.sid with
          | some sid => .versioning sid
          | none => .done (.ok none) }
  | .versioning sid =>
    let claims : AccessClaims :=
      ⟨req.userId, some sid, some ((db.getTokenVersion req.userId).getD 0)⟩
    some { stmt := .select, next := .done (.ok (some claims)), signed := some claims }
  | .done _ => none

/-! ### User administration -/

/-- Body of `PATCH /api/users/:id`. -/
structure UpdateUserReq where
  id : String
  displayName : Option String := none
  email : Option (Option String) := none
  disabled : Option Bool := none
  password : Option String := none
deriving DecidableEq, Repr

inductive UpdateReply
  | invalidRequest
  | notFound
  | protectedEntity
  | ok
deriving DecidableEq, Repr

inductive UpdateUserPc
  | start
  | updating
  | done (reply : UpdateReply)
deriving DecidableEq, Repr

/-- `updateUser`: the protected rows are immutable, a truthy password is hashed. -/
def UpdateUserPc.step (cfg : Config) (fresh : Fresh) (db : MasterDb) (req : UpdateUserReq) :
    UpdateUserPc → Option (Action UpdateUserPc)
  | .start =>
    if req.password.any (fun p => decide (utf16Length p < 8)) then
      some { stmt := .select, next := .done .invalidRequest }
    else some
      { stmt := .select
        next := match db.getUser req.id with
          | none => .done .notFound
          | some user =>
            if user.isSystem || user.isOwner then .done .protectedEntity else .updating }
  | .updating =>
    let patch : UserPatch :=
      { displayName := req.displayName
        email := req.email
        disabled := req.disabled
        passwordHash := (truthy req.password).map (cfg.core.hashPassword fresh.salt) }
    -- no bump of the token version and no bulk `UPDATE` follow
    some { stmt := .patchUser req.id patch, next := .done .ok }
  | .done _ => none

inductive ResetPc
  | start
  | resetting
  | bumping
  | clearing
  | done (found : Bool)
deriving DecidableEq, Repr

/-- `POST /api/users/:id/2fa/reset`. -/
def ResetPc.step (db : MasterDb) (id : String) : ResetPc → Option (Action ResetPc)
  | .start =>
    let found := (db.getUser id).isSome
    some { stmt := .select, next := if found then .resetting else .done false }
  | .resetting => some { stmt := .disableTotp id, next := .bumping }
  -- the version is bumped, the refresh rows stay as they are
  | .bumping => some { stmt := .bumpTokenVersion id, next := .clearing }
  | .clearing => some { stmt := .recordSuccess id, next := .done true }
  | .done _ => none

inductive UnlockPc
  | start
  | clearing
  | done (found : Bool)
deriving DecidableEq, Repr

/-- `POST /api/users/:id/unlock`. -/
def UnlockPc.step (db : MasterDb) (id : String) : UnlockPc → Option (Action UnlockPc)
  | .start =>
    let found := (db.getUser id).isSome
    some { stmt := .select, next := if found then .clearing else .done false }
  | .clearing => some { stmt := .recordSuccess id, next := .done true }
  | .done _ => none

/-! ### Two-factor enrolment -/

inductive TwoFAReply
  | invalidRequest
  | notFound
  | invalid2fa
  | serverMisconfigured
  | internalError
  /-- The plaintext handed out once: the pending secret, or the recovery codes. -/
  | ok (shown : List String)
deriving DecidableEq, Repr

/-- How the setup and disable routes answer an error of the two-factor service: a missing
    key is reported, everything else is rethrown. -/
def TwoFAError.reply : TwoFAError → TwoFAReply
  | .config => .serverMisconfigured
  | _ => .internalError

/-- The enable route also reports a code that does not verify. -/
def TwoFAError.enableReply : TwoFAError → TwoFAReply
  | .verify _ => .invalid2fa
  | e => e.reply

inductive SetupPc
  | start
  | updating (key : String)
  | done (reply : TwoFAReply)
deriving DecidableEq, Repr

/-- `POST /api/me/2fa/setup`: `beginSetup` of a fresh secret. -/
def SetupPc.step (cfg : Config) (fresh : Fresh) (db : MasterDb) (userId : String) :
    SetupPc → Option (Action SetupPc)
  | .start =>
    some
      { stmt := .select
        next := match db.getUser userId, cfg.core.masterKey with
          | none, _ => .done .notFound
          | some _, .error e => .done e.reply
          | some _, .ok key => .updating key }
  | .updating key =>
    -- whatever `totpEnabled` is: pending and active secret share the column
    some
      { stmt := .beginSetup userId (cfg.core.encryptSecret fresh.secret key)
        next := .done (.ok [fresh.secret]) }
  | .done _ => none

/-- The check of `enable`: a pending secret that the code verifies against. -/
def checkEnable (core : Core) (user : Option User) (code : String) (now : ℕ) :
    Except TwoFAError Unit := do
  let key ← core.masterKey
  match truthy (user.bind User.totpSecret) with
  | none => throw (.verify "no_pending_setup")
  | some envelope =>
    let secret ← core.decryptSecret envelope key
    if ← core.verifyTotp secret code now then return () else throw (.verify "invalid_2fa")

inductive EnablePc
  | start
  | updating
  | done (reply : TwoFAReply)
deriving DecidableEq, Repr

/-- `POST /api/me/2fa/enable`. -/
def EnablePc.step (cfg : Config) (now : ℕ) (fresh : Fresh) (db : MasterDb)
    (userId code : String) : EnablePc → Option (Action EnablePc)
  | .start =>
    if code = "" then some { stmt := .select, next := .done .invalidRequest }
    else some
      { stmt := .select
        next := match checkEnable cfg.core (db.getUser userId) code now with
          | .error e => .done e.enableReply
          | .ok () => .updating }
  | .updating =>
    some { stmt := .enableTotp userId (fresh.codes.map sha256), next := .done (.ok fresh.codes) }
  | .done _ => none

inductive DisablePc
  | start
  | consuming (user : User) (remaining : List Digest)
  | disabling (user : User) (usedRecovery : Bool)
  | done (reply : TwoFAReply) (usedRecovery : Bool)
deriving DecidableEq, Repr

/-- The disable handler from its `SELECT` of the user to the next statement. -/
def afterGetEnabled (core : Core) (now : ℕ) (code : String) : Option User → DisablePc
  | none => .done .notFound false
  | some user =>
    if !user.totpEnabled then .done .notFound false else
    match verifyForLogin core user code now with
    | .error e => .done e.reply false
    | .ok .rejected => .done .invalid2fa false
    | .ok .totp => .disabling user false
    | .ok (.recovery remaining) => .consuming user remaining

/-- `POST /api/me/2fa/disable`. -/
def DisablePc.step (cfg : Config) (now : ℕ) (db : MasterDb) (userId code : String) :
    DisablePc → Option (Action DisablePc)
  | .start =>
    if code = "" then some { stmt := .select, next := .done .invalidRequest false }
    else some { stmt := .select, next := afterGetEnabled cfg.core now code (db.getUser userId) }
  | .consuming user remaining =>
    some { stmt := .setRecovery user.id remaining, next := .disabling user true }
  | .disabling _ used => some { stmt := .disableTotp userId, next := .done (.ok []) used }
  | .done _ _ => none

/-! ### All requests together -/

/-- A request in progress: its parameters and its program counter. -/
inductive Proc
  | login (req : LoginReq) (pc : LoginPc)
  | refresh (raw : String) (pc : RefreshPc)
  | logout (raw : String) (pc : LogoutPc)
  | terminateSession (id : String) (pc : TerminatePc)
  | terminateAll (userId : String) (pc : TerminateAllPc)
  | changePassword (req : PasswordReq) (pc : PasswordPc)
  | updateUser (req : UpdateUserReq) (pc : UpdateUserPc)
  | reset2fa (id : String) (pc : ResetPc)
  | unlock (id : String) (pc : UnlockPc)
  | setup2fa (caller : AccessClaims) (pc : SetupPc)
  | enable2fa (caller : AccessClaims) (code : String) (pc : EnablePc)
  | disable2fa (caller : AccessClaims) (code : String) (pc : DisablePc)
deriving DecidableEq, Repr

/-- The next statement of a request. -/
def Proc.step (cfg : Config) (now : ℕ) (fresh : Fresh) (db : MasterDb) :
    Proc → Option (Action Proc)
  | .login req pc => (pc.step cfg now fresh db req).map (Action.map (.login req))
  | .refresh raw pc => (pc.step cfg now fresh db raw).map (Action.map (.refresh raw))
  | .logout raw pc => (pc.step now raw).map (Action.map (.logout raw))
  | .terminateSession id pc => (pc.step now db id).map (Action.map (.terminateSession id))
  | .terminateAll userId pc => (pc.step now userId).map (Action.map (.terminateAll userId))
  | .changePassword req pc => (pc.step cfg now fresh db req).map (Action.map (.changePassword req))
  | .updateUser req pc => (pc.step cfg fresh db req).map (Action.map (.updateUser req))
  | .reset2fa id pc => (pc.step db id).map (Action.map (.reset2fa id))
  | .unlock id pc => (pc.step db id).map (Action.map (.unlock id))
  | .setup2fa caller pc => (pc.step cfg fresh db caller.sub).map (Action.map (.setup2fa caller))
  | .enable2fa caller code pc =>
    (pc.step cfg now fresh db caller.sub code).map (Action.map (.enable2fa caller code))
  | .disable2fa caller code pc =>
    (pc.step cfg now db caller.sub code).map (Action.map (.disable2fa caller code))

/-- A request of which no statement has run yet. -/
def Proc.atStart : Proc → Bool
  | .login _ pc => decide (pc = .start)
  | .refresh _ pc => decide (pc = .start)
  | .logout _ pc => decide (pc = .start)
  | .terminateSession _ (.listing _) => true
  | .terminateSession _ pc => decide (pc = .selecting)
  | .terminateAll _ pc => decide (pc = .start)
  | .changePassword _ pc => decide (pc = .start)
  | .updateUser _ pc => decide (pc = .start)
  | .reset2fa _ pc => decide (pc = .start)
  | .unlock _ pc => decide (pc = .start)
  | .setup2fa _ pc => decide (pc = .start)
  | .enable2fa _ _ pc => decide (pc = .start)
  | .disable2fa _ _ pc => decide (pc = .start)

/-- The access token behind which a self-service request is served. -/
def Proc.caller : Proc → Option AccessClaims
  | .terminateSession _ (.listing caller) => some caller
  | .changePassword req _ => some req.caller
  | .setup2fa caller _ => some caller
  | .enable2fa caller _ _ => some caller
  | .disable2fa caller _ _ => some caller
  | _ => none

/-- The backend: its database, its clock, the access tokens it has signed, its requests. -/
structure World where
  db : MasterDb
  now : ℕ
  signed : List AccessClaims
  calls : ℕ → Proc

/-- What happens next: a request issues a statement, or time passes. -/
inductive Label
  | run (call : ℕ) (fresh : Fresh)
  | tick (ms : ℕ)
deriving DecidableEq, Repr

/-- The next statement of request `c`, if it has one. -/
def World.action (cfg : Config) (w : World) (c : ℕ) (fresh : Fresh) : Option (Action Proc) :=
  (w.calls c).step cfg w.now fresh w.db

/-- The `authenticate` preHandler: a self-service request starts only for a token that was
    signed here and passes now. -/
def World.admits (w : World) (c : ℕ) : Bool :=
  !(w.calls c).atStart ||
    (w.calls c).caller.all
      (fun claims => decide (claims ∈ w.signed) && accepted w.db w.now claims)

/-- The world after request `c` took the step `a`. -/
def World.after (w : World) (c : ℕ) (a : Action Proc) : World where
  db := a.stmt.exec w.db
  now := w.now
  signed := w.signed ++ a.signed.toList
  calls := Function.update w.calls c a.next

/-- The interleaving of all requests, statement by statement. -/
def machine (cfg : Config) : Machine World Label where
  step w
    | .run c fresh => if w.admits c then (w.action cfg c fresh).map (w.after c) else none
    | .tick ms => some { w with now := w.now + ms }

end Argus.Auth
