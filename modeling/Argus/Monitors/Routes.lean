import Argus.Lib.Machine
import Argus.Monitors.Store
import Mathlib.Data.List.Infix

namespace Argus.Monitors

/-!
# The monitor routes

`POST`, `PATCH` and `GET` of `monitors.routes.ts` as a machine, with the audit rows they write
and the responses they send.  Callers have passed `authenticate` and `requirePermission`.

* `redact`, `buildAuditEntry` — an audit row and what is blanked in it (`audit.ts`).
* `CreateBody`, `UpdateBody` — the bodies and their checks.
* `World` — the store, the audit log, the responses sent, and the secrets that accepted
  requests gave (`given`), which no handler reads.
* `Call`, `World.handle`, `machine` — the requests, with what the server draws for them.
-/

/-! ### Audit rows -/

/-- The alternatives of `SECRET_KEY_PATTERN`; `pass(word)?` is found wherever `pass` is. -/
def secretKeyParts : List String :=
  ["pass", "secret", "token", "key", "cipher", "credential", "authorization"]

/-- `SECRET_KEY_PATTERN.test(key)`. -/
def isSecretKey (key : String) : Bool :=
  secretKeyParts.any (fun part => decide (part.toList <:+: key.toList.map Char.toLower))

/-- `REDACTED`. -/
def redacted : String := "[REDACTED]"

mutual

/-- `redact`. -/
def redact : JsValue → JsValue
  | .arr xs => .arr (redactElems xs)
  | .obj fs => .obj (redactFields fs)
  | .null => .null
  | .bool b => .bool b
  | .num x => .num x
  | .str s => .str s

def redactElems : List JsValue → List JsValue
  | [] => []
  | x :: xs => redact x :: redactElems xs

def redactFields : List (String × JsValue) → List (String × JsValue)
  | [] => []
  | (k, .null) :: fs => (k, .null) :: redactFields fs
  | (k, v) :: fs => (k, if isSecretKey k then .str redacted else redact v) :: redactFields fs

end

structure AuditEntry where
  actor : Option String
  actorRole : Option String
  action : String
  category : String
  target : Option String
  before : JsValue
  after : JsValue
  ip : Option String

/-- Who sends a request: `req.subject` and `req.ip`. -/
structure Caller where
  userId : Option String
  ip : Option String
deriving DecidableEq, Repr

/-- `app.audit` with `buildAuditEntry`, for the entries of these routes. -/
def buildAuditEntry (caller : Caller) (action target : String) (after : JsValue) :
    AuditEntry where
  actor := caller.userId
  actorRole := none
  action := action
  category := "monitors"
  target := some target
  before := .null
  after := redact after
  ip := caller.ip

/-! ### Requests -/

/-- A finding of the body check. -/
structure Issue where
  path : String
  message : String
deriving DecidableEq, Repr

/-- `z.string().min(1)`. -/
def nonEmptyIssues (path value : String) : List Issue :=
  if value = "" then [⟨path, "String must contain at least 1 character(s)"⟩] else []

/-- `z.enum(MONITOR_TYPES)`. -/
def typeIssue (value : String) : Issue where
  path := "type"
  message := "Invalid enum value. Expected "
    ++ String.intercalate " | " (MonitorType.all.map (fun t => "'" ++ t.name ++ "'"))
    ++ ", received '" ++ value ++ "'"

/-- The body of `POST /api/monitors`. -/
structure CreateBody where
  agentId : String
  type : String
  name : String
  enabled : Option Bool
  config : Option Config

/-- `createBody.safeParse`. -/
def CreateBody.safeParse (b : CreateBody) : Except (List Issue) CreateMonitorInput :=
  match MonitorType.all.find? (fun t => t.name == b.type) with
  | none => .error (nonEmptyIssues "agentId" b.agentId ++ typeIssue b.type ::
      nonEmptyIssues "name" b.name)
  | some type =>
    match nonEmptyIssues "agentId" b.agentId ++ nonEmptyIssues "name" b.name with
    | [] => .ok ⟨b.agentId, type, b.name, b.enabled, b.config⟩
    | issues => .error issues

/-- The body of `PATCH /api/monitors/:id`. -/
abbrev UpdateBody := UpdateMonitorInput

/-- `updateBody.safeParse`. -/
def UpdateBody.safeParse (b : UpdateBody) : Except (List Issue) UpdateMonitorInput :=
  match (b.name.elim [] (nonEmptyIssues "name")) ++
      b.agentId.elim [] (nonEmptyIssues "agentId") with
  | [] => .ok b
  | issues => .error issues

/-- A response: the status code and the body. -/
structure Response where
  code : ℕ
  body : JsValue

namespace Response

/-- `{ monitor }`. -/
def monitor (code : ℕ) (m : Monitor) : Response := ⟨code, .obj [("monitor", m.toDTO)]⟩

/-- `{ rows }`. -/
def rows (ms : List Monitor) : Response := ⟨200, .obj [("rows", .arr (ms.map Monitor.toDTO))]⟩

def invalidRequest (issues : List Issue) : Response :=
  ⟨400, .obj [("error", .str "invalid_request"), ("issues", .arr (issues.map (fun i =>
    .obj [("path", .str i.path), ("message", .str i.message)])))]⟩

def invalidAgent : Response :=
  ⟨400, .obj [("error", .str "invalid_agent"), ("message", .str "Target agent not found.")]⟩

def notFound : Response := ⟨404, .obj [("error", .str "not_found")]⟩

/-- The framework's answer to an exception. -/
def serverError (message : String) : Response :=
  ⟨500, .obj [("statusCode", .num (.ofInt 500 (by decide))),
    ("error", .str "Internal Server Error"), ("message", .str message)]⟩

end Response

/-- What the server draws for a request: the ids of new rows, the time, the initialisation
    vector. -/
structure Draw where
  id : String
  pingId : String
  now : String
  iv : String
deriving DecidableEq, Repr

inductive Call
  | create (caller : Caller) (draw : Draw) (body : CreateBody)
  | patch (caller : Caller) (draw : Draw) (id : String) (body : UpdateBody)
  | list (agentId : Option String)
  | get (id : String)

/-- A secret that a request gave for a monitor. -/
structure Given where
  monitorId : String
  field : String
  value : String
deriving DecidableEq, Repr

structure World where
  store : Store
  audit : List AuditEntry
  sent : List Response
  /-- The newest first. -/
  given : List Given

/-! ### Handlers -/

/-- The secret fields of a configuration that hold a non-empty text. -/
def Config.secrets (c : Config) : List (String × String) :=
  secretFields.filterMap (fun field => (c.secret field).map (fun v => (field, v)))

/-- The secrets of a body, as given for a monitor. -/
def givenBy (monitorId : String) (config : Option Config) : List Given :=
  (config.elim [] Config.secrets).map (fun s => ⟨monitorId, s.1, s.2⟩)

namespace World

def send (w : World) (r : Response) : World := { w with sent := w.sent ++ [r] }

def log (w : World) (entry : AuditEntry) : World := { w with audit := w.audit ++ [entry] }

/-- `if (cred) … setMonitorCred`. -/
def keepCred (db : Store) (env : Env) (monitorId : String) (d : Draw) : Option String → Store
  | some cred => db.setMonitorCred env monitorId cred d.iv d.now
  | none => db

/-- `String((config ?? {}).path ?? "")`. -/
def pathText (config : Option Config) : Option String :=
  match config.bind (fun c => c.get "path") with
  | none | some .null => some ""
  | some v => v.toText

/-- A storage monitor gets its ping. -/
def withPing (db : Store) (d : Draw) (m : Monitor) (config : Option Config) : Option Store :=
  if m.type = .storage then
    (pathText config).map (fun path => db.ensureStoragePing d.pingId d.now m.agentId m.name path)
  else some db

/-- The rest of `POST /api/monitors` once the row and its credential are there. -/
def finishCreate (w : World) (caller : Caller) (d : Draw) (m : Monitor) (config : Option Config) :
    World :=
  match withPing w.store d m config with
  | none => w.send (.serverError "Cannot convert object to primitive value")
  | some db =>
    ({ w with store := db }.log (buildAuditEntry caller "monitor.create" m.id m.toDTO)).send
      (.monitor 201 m)

/-- The parameters of the insertion. -/
def insertParams (id : String) (input : CreateMonitorInput) : List JsValue :=
  [.str id, .str input.agentId, .str input.type.name, .str input.name,
    .bool (input.enabled.getD true), .obj (input.config.getD .empty).fields]

/-- `POST /api/monitors`. -/
def create (env : Env) (w : World) (caller : Caller) (d : Draw) (body : CreateBody) : World :=
  match body.safeParse with
  | .error issues => w.send (.invalidRequest issues)
  | .ok input =>
    let extracted := extractCred input.config
    let stored := { input with config := extracted.2 }
    match w.store.createMonitor d.id d.now stored with
    | none => w.send (.serverError (env.failedQuery (insertParams d.id stored)))
    | some (db, monitor) =>
      ({ w with
        store := keepCred db env monitor.id d extracted.1
        given := givenBy monitor.id input.config ++ w.given } : World).finishCreate caller d monitor
          extracted.2

/-- A creation that passes the check, by whether the agent is there. -/
theorem create_eq {env : Env} {w : World} {caller : Caller} {d : Draw} {body : CreateBody}
    {input : CreateMonitorInput} (hbody : body.safeParse = .ok input) :
    w.create env caller d body =
      let stored := { input with config := (extractCred input.config).2 }
      if input.agentId ∈ w.store.agents then
        ({ w with
          store := keepCred
            { w.store with
              monitors := w.store.monitors ++ [Store.newMonitor d.id d.now stored] } env d.id d
            (extractCred input.config).1
          given := givenBy d.id input.config ++ w.given } : World).finishCreate caller d
            (Store.newMonitor d.id d.now stored) (extractCred input.config).2
      else w.send (.serverError (env.failedQuery (insertParams d.id stored))) := by
  unfold create Store.createMonitor
  simp only [hbody]
  by_cases hagent : input.agentId ∈ w.store.agents
  · simp only [if_pos hagent]
    rfl
  · simp only [if_neg hagent]

/-- Whether the patch moves the monitor to an agent that is not there. -/
def movesAstray (db : Store) (id : String) (patch : UpdateMonitorInput) : Bool :=
  match patch.agentId with
  | none => false
  | some agentId => (db.getMonitor id).map Monitor.agentId != some agentId
      && !db.agents.contains agentId

/-- `PATCH /api/monitors/:id`. -/
def patch (env : Env) (w : World) (caller : Caller) (d : Draw) (id : String) (body : UpdateBody) :
    World :=
  match UpdateBody.safeParse body with
  | .error issues => w.send (.invalidRequest issues)
  | .ok input =>
    if movesAstray w.store id input then w.send .invalidAgent
    else
      let extracted := extractCred input.config
      match w.store.updateMonitor id d.now { input with config := extracted.2 } with
      | (_, none) => w.send .notFound
      | (db, some monitor) =>
        (({ w with
          store := keepCred db env id d extracted.1
          given := givenBy id input.config ++ w.given } : World).log
            (buildAuditEntry caller "monitor.update" id monitor.toDTO)).send (.monitor 200 monitor)

/-- A patch that passes the checks, by whether the monitor is there. -/
theorem patch_eq {env : Env} {w : World} {caller : Caller} {d : Draw} {id : String}
    {body : UpdateBody} {input : UpdateMonitorInput} (hbody : UpdateBody.safeParse body = .ok input)
    (hastray : movesAstray w.store id input = false) :
    w.patch env caller d id body = match w.store.getMonitor id with
      | none => w.send .notFound
      | some m =>
        let stored := { input with config := (extractCred input.config).2 }
        (({ w with
          store := keepCred (w.store.updateMonitor id d.now stored).1 env id d
            (extractCred input.config).1
          given := givenBy id input.config ++ w.given } : World).log
            (buildAuditEntry caller "monitor.update" id (m.patched d.now stored).toDTO)).send
          (.monitor 200 (m.patched d.now stored)) := by
  have hsnd :=
    w.store.updateMonitor_snd id d.now { input with config := (extractCred input.config).2 }
  unfold patch
  simp only [hbody, hastray, Bool.false_eq_true, if_false]
  generalize w.store.updateMonitor id d.now { input with config := (extractCred input.config).2 }
    = updated at hsnd ⊢
  obtain ⟨db, found⟩ := updated
  obtain rfl : found = _ := hsnd
  cases w.store.getMonitor id <;> rfl

/-- `GET /api/monitors/:id`. -/
def get (w : World) (id : String) : World :=
  match w.store.getMonitor id with
  | some m => w.send (.monitor 200 m)
  | none => w.send .notFound

def handle (env : Env) (w : World) : Call → World
  | .create caller d body => w.create env caller d body
  | .patch caller d id body => w.patch env caller d id body
  | .list agentId => w.send (.rows (w.store.listMonitors agentId))
  | .get id => w.get id

end World

/-- Ids are drawn once. -/
def Call.fresh (db : Store) : Call → Bool
  | .create _ d _ => d.id != d.pingId && !(db.monitors.map Monitor.id).contains d.id
      && !(db.monitors.map Monitor.id).contains d.pingId
  | _ => true

def machine (env : Env) : Machine World Call where
  step w call := if call.fresh w.store then some (w.handle env call) else none

theorem step_eq_some {env : Env} {w u : World} {call : Call} :
    (machine env).step w call = some u ↔ call.fresh w.store = true ∧ w.handle env call = u := by
  show (if call.fresh w.store then some (w.handle env call) else none) = some u ↔ _
  split
  · next hfresh => simp [hfresh]
  · next hfresh => simp [hfresh]

end Argus.Monitors
