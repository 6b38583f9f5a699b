import Argus.Access.Protection

namespace Argus.Access

open Auth

/-!
# The live socket and its credential check

`authenticate` decides on the bearer token of every API request; the handler of `/ws` decides
on the same tokens with a check of its own.  The second asks for the signature, the user and
the permission `dashboard:read`, but neither for the token version nor for the session.

* `resolveDeviceToken` — the token of a paired display, shared by both checks.
* `Server.authenticate`, `Server.admits` — the two checks on one token.
* `Server.Enforced` — the token is no live JWT, or passes the revocation checks.
* `operatorHub` — connections and broadcasts of the operator hub, with an environment that changes the
  database and the clock in every possible way.
* `liveSocket_revocation` — where the socket check refuses what `authenticate` refuses, and
  whom broadcasts then reach.
-/

/-! ### Display devices -/

/-- `wall_devices.status`. -/
inductive DeviceStatus
  | pending
  | approved
  | revoked
deriving DecidableEq, Repr

/-- A row of `wall_devices`, as far as token checks read it. -/
structure WallDevice where
  id : String
  status : DeviceStatus := .pending
  tokenHash : Option Digest := none
  lastSeenAt : Option ℕ := none
  approvedAt : Option ℕ := none
deriving DecidableEq, Repr

/-- The directory with the paired displays; `deviceSessionTtlSec` is the setting of that name,
    `none` where it is missing or no number. -/
structure LiveDb extends Directory where
  wallDevices : List WallDevice
  deviceSessionTtlSec : Option ℚ := none
deriving Repr

namespace LiveDb

variable (db : LiveDb)

/-- `sessionTtlSec`, with the default of thirty days. -/
def sessionTtlSec : ℚ := positiveOr db.deviceSessionTtlSec 2592000

/-- `resolveDeviceToken`: an approved row, unless it was silent for too long. -/
def resolveDeviceToken (rawToken : String) (now : ℕ) : Option WallDevice :=
  match db.wallDevices.find? (fun r => decide (r.tokenHash = some (sha256 rawToken))) with
  | none => none
  | some row =>
    if row.status ≠ .approved then none
    else match row.lastSeenAt.or row.approvedAt with
      | none => some row
      | some base =>
        if db.sessionTtlSec * 1000 < (now : ℚ) - (base : ℚ) then none else some row

end LiveDb

/-! ### The two checks -/

/-- What the two checks take from the configuration: the static token, if one is set, and the
    JWT library with its secret. -/
structure Server where
  adminToken : Option String := none
  /-- `jwtVerify` and `jwt.verify`: the payload of a token that is signed and not expired. -/
  verify : ℕ → String → Option AccessClaims

/-- `token.startsWith("wd_")`. -/
def isDeviceToken (token : String) : Bool := "wd_".toList.isPrefixOf token.toList

namespace Server

variable (srv : Server)

/-- `authenticate` on `Bearer token`; `none` is a 401. -/
def authenticate (db : LiveDb) (now : ℕ) (token : String) : Option Caller :=
  if truthy srv.adminToken = some token then some .staticAdmin
  else if isDeviceToken token then
    (db.resolveDeviceToken token now).map (fun device => .device device.id)
  else match Auth.authenticate db.toMasterDb now (srv.verify now token) with
    | .subject userId => some (.user userId)
    | _ => none

/-- The `/ws` handler registers a socket that brings the token; else it closes the socket. -/
def admits (db : LiveDb) (now : ℕ) (token : String) : Bool :=
  if token = "" then false
  else if isDeviceToken token then (db.resolveDeviceToken token now).isSome
  else match srv.verify now token with
    | none => false
    | some claims => match db.resolveSubject claims.sub with
      | none => false
      | some subject => subject.isOwner || subject.permissions.contains "dashboard:read"

end Server

/-- A user who can sign in and may watch the dashboard. -/
def LiveDb.mayWatch (db : LiveDb) (userId : String) : Bool :=
  (db.resolveSubject userId).any
    (fun subject => subject.isOwner || subject.permissions.contains "dashboard:read")

/-- A token both checks hand to the JWT library. -/
def Server.Jwt (srv : Server) (token : String) : Prop :=
  token ≠ "" ∧ isDeviceToken token = false ∧ truthy srv.adminToken ≠ some token

/-- If the token is the JWT of a user who may watch the dashboard, then its version is current
    and its session is live. -/
def Server.Enforced (srv : Server) (db : LiveDb) (now : ℕ) (token : String) : Prop :=
  srv.Jwt token → ∀ claims, srv.verify now token = some claims → db.mayWatch claims.sub = true →
    (∀ tv, claims.tv = some tv → db.getTokenVersion claims.sub = some tv) ∧
    ∀ sid, claims.sid = some sid → db.isSessionLive sid now = true

/-- The two services agree on who is there. -/
theorem resolveSubject_isSome (db : LiveDb) (userId : String) :
    (db.resolveSubject userId).isSome = db.resolvesSubject userId := by
  unfold Directory.resolveSubject MasterDb.resolvesSubject
  cases db.getUser userId with
  | none => rfl
  | some user => cases h : user.disabled <;> simp [h]

theorem mayWatch_resolves {db : LiveDb} {userId : String} (h : db.mayWatch userId = true) :
    db.resolvesSubject userId = true := by
  rw [← resolveSubject_isSome]
  unfold LiveDb.mayWatch at h
  cases hsub : db.resolveSubject userId with
  | none => rw [hsub] at h; exact absurd h (by simp)
  | some subject => rfl

section Checks

variable {srv : Server} {db : LiveDb} {now : ℕ} {token : String}

/-- On a JWT, `authenticate` refuses unless the payload passes `Auth.accepted`. -/
theorem authenticate_jwt (hjwt : srv.Jwt token) :
    srv.authenticate db now token = none ↔
      ∀ claims, srv.verify now token = some claims →
        accepted db.toMasterDb now claims = false := by
  obtain ⟨-, hdevice, hadmin⟩ := hjwt
  rw [Server.authenticate, if_neg hadmin, hdevice, if_neg Bool.false_ne_true]
  cases hv : srv.verify now token with
  | none => simp [Auth.authenticate]
  | some claims =>
    simp only [Option.some.injEq, forall_eq']
    cases hacc : accepted db.toMasterDb now claims with
    | true => simp [authenticate_eq_subject.mpr ⟨hacc, rfl⟩]
    | false =>
      -- nothing but a subject is let through
      have hnot : ∀ userId, Auth.authenticate db.toMasterDb now (some claims) ≠ .subject userId :=
        fun userId h => by simp [(authenticate_eq_subject.mp h).1] at hacc
      refine ⟨fun _ => rfl, fun _ => ?_⟩
      split
      · rename_i userId heq
        exact absurd heq (hnot userId)
      · rfl

/-- On a JWT, the socket asks for a user who may watch the dashboard. -/
theorem admits_jwt (hjwt : srv.Jwt token) :
    srv.admits db now token = true ↔
      ∃ claims, srv.verify now token = some claims ∧ db.mayWatch claims.sub = true := by
  obtain ⟨hne, hdevice, -⟩ := hjwt
  rw [Server.admits, if_neg hne, hdevice, if_neg Bool.false_ne_true]
  cases hv : srv.verify now token with
  | none => simp
  | some claims =>
    simp only [Option.some.injEq, exists_eq_left', LiveDb.mayWatch]
    cases db.resolveSubject claims.sub <;> simp

/-- **The two checks compared.**  The socket refuses a token that `authenticate` refuses exactly
    when the token is no JWT of a watcher with a stale version or a dead session. -/
theorem admits_of_authenticate :
    (srv.authenticate db now token = none → srv.admits db now token = false) ↔
      srv.Enforced db now token := by
  by_cases hjwt : srv.Jwt token
  · rw [authenticate_jwt hjwt, ← Bool.not_eq_true, admits_jwt hjwt]
    constructor
    · intro h _ claims hverify hwatch
      rw [← revocationCheck_eq_none]
      by_contra hrev
      refine h (fun claims' hverify' => ?_) ⟨claims, hverify, hwatch⟩
      obtain rfl : claims = claims' := Option.some.inj (hverify.symm.trans hverify')
      rw [← Bool.not_eq_true, accepted_iff]
      exact fun hacc => hrev hacc.1
    · rintro henf hrefused ⟨claims, hverify, hwatch⟩
      have hacc : accepted db.toMasterDb now claims = true :=
        accepted_iff.mpr
          ⟨revocationCheck_eq_none.mpr (henf hjwt claims hverify hwatch), mayWatch_resolves hwatch⟩
      rw [hrefused claims hverify] at hacc
      exact Bool.noConfusion hacc
  · refine ⟨fun _ h => absurd h hjwt, fun _ hrefused => ?_⟩
    -- no token at all, the token of a display, or the static token
    unfold Server.admits
    unfold Server.authenticate at hrefused
    split
    · rfl
    · rename_i hne
      split at hrefused
      · exact absurd hrefused (by simp)
      · rename_i hadmin
        have hdevice : isDeviceToken token = true := by
          by_contra hdevice
          exact hjwt ⟨hne, by simpa using hdevice, hadmin⟩
        rw [if_pos hdevice] at hrefused ⊢
        rw [Option.map_eq_none_iff.mp hrefused]
        rfl

end Checks

/-! ### The hub -/

/-- A socket, with the verdict of `authenticate` on its token at the moment it connected; the
    server does not keep that verdict. -/
structure Socket where
  token : String
  refused : Bool
  isOpen : Bool
deriving DecidableEq, Repr

/-- The database, the clock, all sockets so far, the registered ones, and what was broadcast to
    whom. -/
structure Live (μ : Type) where
  db : LiveDb
  now : ℕ
  sockets : ℕ → Option Socket
  hub : List ℕ
  sent : List (ℕ × μ)

inductive Event (μ : Type)
  /-- A request to `/ws?token=…`; the number is a new one. -/
  | connect (s : ℕ) (token : String)
  /-- The socket leaves the state `OPEN`. -/
  | shut (s : ℕ)
  /-- The `close` event of the socket. -/
  | closed (s : ℕ)
  | broadcast (msg : μ)
  /-- Everything else the server does, and the passing of time. -/
  | environment (db : LiveDb) (now : ℕ)

namespace Live

variable {μ : Type} (srv : Server) (w : Live μ)

/-- The `/ws` handler up to `operatorHub.add`. -/
def connect (s : ℕ) (token : String) : Live μ :=
  let admitted := srv.admits w.db w.now token
  { w with
    sockets := Function.update w.sockets s (some
      { token := token
        refused := (srv.authenticate w.db w.now token).isNone
        isOpen := admitted })
    hub := if admitted then w.hub ++ [s] else w.hub }

/-- The registered sockets that are open. -/
def listeners : List ℕ := w.hub.filter (fun s => (w.sockets s).any Socket.isOpen)

end Live

/-- The operator hub. -/
def operatorHub {μ : Type} (srv : Server) : Machine (Live μ) (Event μ) where
  step w
    | .connect s token => if (w.sockets s).isNone then some (w.connect srv s token) else none
    | .shut s => some { w with
        sockets := Function.update w.sockets s
          ((w.sockets s).map (fun socket => { socket with isOpen := false })) }
    | .closed s => some { w with hub := w.hub.filter (fun t => decide (t ≠ s)) }
    | .broadcast msg => some { w with sent := w.sent ++ w.listeners.map (fun s => (s, msg)) }
    | .environment db now => some { w with db := db, now := now }

/-- `authenticate` accepted the token of a socket when it connected. -/
def Live.Vetted {μ : Type} (w : Live μ) (s : ℕ) : Prop :=
  ∃ socket, w.sockets s = some socket ∧ socket.refused = false

/-- Registered and served sockets are vetted ones. -/
structure Live.Guarded {μ : Type} (w : Live μ) : Prop where
  hub : ∀ s ∈ w.hub, w.Vetted s
  sent : ∀ d ∈ w.sent, w.Vetted d.1

/-- A connection that meets the condition. -/
def Event.Enforced {μ : Type} (srv : Server) (w : Live μ) (e : Event μ) : Prop :=
  ∀ s token, e = .connect s token → srv.Enforced w.db w.now token

/-- Verdicts once recorded stay. -/
theorem Live.Vetted.mono {μ : Type} {w w' : Live μ} {s : ℕ} (h : w.Vetted s)
    (hkeep : ∀ socket, w.sockets s = some socket →
      ∃ socket', w'.sockets s = some socket' ∧ socket'.refused = socket.refused) :
    w'.Vetted s := by
  obtain ⟨socket, hs, href⟩ := h
  obtain ⟨socket', hs', heq⟩ := hkeep socket hs
  exact ⟨socket', hs', heq.trans href⟩

/-- One step, event by event. -/
theorem Live.Guarded.step {μ : Type} {srv : Server} {w w' : Live μ} {e : Event μ}
    (h : w.Guarded) (henf : e.Enforced srv w) (hstep : (operatorHub srv).step w e = some w') :
    w'.Guarded := by
  cases e with
  | connect s token =>
    simp only [operatorHub] at hstep
    split at hstep
    · rename_i hnew
      obtain rfl := Option.some.inj hstep
      -- the new socket has a number of its own
      have hold : ∀ t, w.Vetted t → (w.connect srv s token).Vetted t := by
        intro t ht
        refine ht.mono (fun socket hsock => ⟨socket, ?_, rfl⟩)
        have hne : t ≠ s := by
          rintro rfl
          rw [hsock] at hnew
          exact absurd hnew (by simp)
        rw [← hsock]
        exact Function.update_of_ne hne _ _
      refine ⟨fun t ht => ?_, fun d hd => hold d.1 (h.sent d hd)⟩
      simp only [Live.connect] at ht
      split at ht
      · rename_i hadm
        rcases List.mem_append.mp ht with ht | ht
        · exact hold t (h.hub t ht)
        · rw [List.mem_singleton.mp ht]
          refine ⟨_, Function.update_self _ _ _, ?_⟩
          have hok : srv.authenticate w.db w.now token ≠ none := by
            intro hrefused
            rw [admits_of_authenticate.mpr (henf s token rfl) hrefused] at hadm
            exact Bool.false_ne_true hadm
          exact Option.isNone_eq_false_iff.mpr (Option.isSome_iff_ne_none.mpr hok)
      · exact hold t (h.hub t ht)
    · exact absurd hstep (by simp)
  | shut s =>
    obtain rfl := Option.some.inj hstep
    have hold : ∀ t, w.Vetted t → Live.Vetted { w with
        sockets := Function.update w.sockets s
          ((w.sockets s).map (fun socket => { socket with isOpen := false })) } t := by
      intro t ht
      refine ht.mono (fun socket hsock => ?_)
      by_cases hts : t = s
      · subst hts
        refine ⟨{ socket with isOpen := false }, ?_, rfl⟩
        simp [hsock]
      · refine ⟨socket, ?_, rfl⟩
        rw [← hsock]
        exact Function.update_of_ne hts _ _
    exact ⟨fun t ht => hold t (h.hub t ht), fun d hd => hold d.1 (h.sent d hd)⟩
  | closed s =>
    obtain rfl := Option.some.inj hstep
    exact ⟨fun t ht => h.hub t (List.mem_filter.mp ht).1, h.sent⟩
  | broadcast msg =>
    obtain rfl := Option.some.inj hstep
    refine ⟨h.hub, fun d hd => ?_⟩
    rcases List.mem_append.mp hd with hd | hd
    · exact h.sent d hd
    · obtain ⟨t, ht, rfl⟩ := List.mem_map.mp hd
      exact h.hub t (List.mem_filter.mp ht).1
  | environment db now =>
    obtain rfl := Option.some.inj hstep
    exact ⟨h.hub, h.sent⟩

/-- **Revocation at the live socket.**  Whatever the database: a token that `authenticate`
    refuses leaves the hub as it was and the socket closed exactly when it is not the JWT of a
    watcher whose version is stale or whose session is dead.  And in every run in which no such
    JWT is presented, every broadcast goes to sockets whose token `authenticate` accepted when
    they connected. -/
theorem liveSocket_revocation (srv : Server) {μ : Type} :
    (∀ (w : Live μ) (s : ℕ) (token : String),
      (srv.authenticate w.db w.now token = none →
        (w.connect srv s token).hub = w.hub ∧
        ((w.connect srv s token).sockets s).map Socket.isOpen = some false) ↔
      srv.Enforced w.db w.now token) ∧
    ∀ (w w' : Live μ) (events : List (Event μ)), w.hub = [] → w.sent = [] →
      (operatorHub srv).Meets (fun w e => e.Enforced srv w) w events →
      (operatorHub srv).exec w events = some w' → ∀ d ∈ w'.sent, w'.Vetted d.1 := by
  refine ⟨fun w s token => ?_, fun w w' events hhub hsent hmeets hrun => ?_⟩
  · rw [← admits_of_authenticate]
    refine imp_congr_right (fun _ => ?_)
    cases hadm : srv.admits w.db w.now token <;> simp [Live.connect, hadm]
  · refine (Machine.inv_of_exec (I := Live.Guarded) (fun _ _ _ hs he hstep => hs.step he hstep)
      ⟨?_, ?_⟩ hmeets hrun).sent
    · simp [hhub]
    · simp [hsent]

/-! ### An operator with a token from before a global revocation -/

namespace Sample

/-- The payload of the text `fresh` has the current version, that of `stale` an old one; no
    other text is signed. -/
def server : Server where
  verify _ token :=
    if token = "fresh" then some ⟨"op", none, some 1⟩
    else if token = "stale" then some ⟨"op", none, some 0⟩
    else none

/-- The operator may watch the dashboard; a global revocation has moved the version to one. -/
def liveDb : LiveDb where
  users := [{ id := "op", username := "operator", tokenVersion := 1 }]
  refreshTokens := []
  groups := [{ id := "g", name := "operators" }]
  roles := [{ id := "viewer", name := "viewer" }]
  permissions := [⟨"p", "dashboard:read"⟩]
  rolePermissions := [⟨"viewer", "p"⟩]
  groupRoles := [⟨"g", "viewer"⟩]
  userGroups := [⟨"op", "g"⟩]
  userAttributes := []
  wallDevices := []

def live : Live String := ⟨liveDb, 0, fun _ => none, [], []⟩

end Sample

open Sample in
/-- The operator connects with the current token and is served. -/
theorem liveSocket_revocation_fresh :
    ∃ w' : Live String,
      (operatorHub server).exec live [.connect 0 "fresh", .broadcast "patch"] = some w' ∧
      w'.sent = [(0, "patch")] ∧ ∀ d ∈ w'.sent, w'.Vetted d.1 := by
  refine ⟨_, rfl, by decide, ?_⟩
  refine (liveSocket_revocation server).2 live _ [.connect 0 "fresh", .broadcast "patch"] rfl rfl
    (.cons ?_ rfl (.cons ?_ rfl trivial)) rfl
  · rintro s token heq - claims hverify -
    obtain ⟨rfl, rfl⟩ : 0 = s ∧ "fresh" = token := by simpa using heq
    obtain rfl : (⟨"op", none, some 1⟩ : AccessClaims) = claims := by simpa [server] using hverify
    refine ⟨fun tv htv => ?_, fun sid hsid => absurd hsid (by simp)⟩
    obtain rfl : 1 = tv := by simpa using htv
    decide
  · intro s token heq
    exact absurd heq (by simp)

open Sample in
/-- With the token of an old version, which `authenticate` refuses, the operator is registered
    and served all the same. -/
theorem liveSocket_stale_served :
    server.authenticate liveDb 0 "stale" = none ∧
    (live.connect server 0 "stale").hub = [0] ∧
    ∃ w' : Live String,
      (operatorHub server).exec live [.connect 0 "stale", .broadcast "patch"] = some w' ∧
      (w'.sockets 0).map Socket.refused = some true ∧ w'.sent = [(0, "patch")] := by
  refine ⟨by decide, by decide, _, rfl, by decide, by decide⟩

end Argus.Access
