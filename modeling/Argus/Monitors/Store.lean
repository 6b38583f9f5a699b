import Argus.Lib.JsValue
import Argus.Lib.Table

namespace Argus.Monitors

/-!
# Monitors and their credentials

The monitor rows, the service of `monitors.ts`, the credential slot of `monitor-cred.ts` and
the delivery of configurations to the agents (`GET /api/agent/config`).

* `Config` — a configuration: an object, whose fields are distinct.
* `Store` — the agents, the monitors and the `secrets` table; `createMonitor`,
  `updateMonitor`, `ensureStoragePing`.
* `extractCred` — what the routes take out of a configuration before they store it.
* `setMonitorCred`, `getMonitorCred`, `credFieldFor`, `injectCred` — the way of a credential
  into its slot and back into the delivered configuration.
* `Env` — what the code relies on: encryption under the configured key, and the text of a
  failed query.
-/

/-! ### Configurations -/

/-- `Record<string, unknown>`. -/
@[ext] structure Config where
  fields : Fields JsValue
  wf : fields.WF

namespace Config

def empty : Config := ⟨[], List.nodup_nil⟩

def get (c : Config) (k : String) : Option JsValue := c.fields.get k

def set (c : Config) (k : String) (v : JsValue) : Config := ⟨c.fields.set k v, c.wf.set k v⟩

def without (c : Config) (k : String) : Config := ⟨c.fields.without k, c.wf.without k⟩

/-- `{ ...c, ...d }`. -/
def spread (c d : Config) : Config := ⟨c.fields.spread d.fields, c.wf.spread d.fields⟩

@[simp] theorem get_empty (k : String) : empty.get k = none := rfl

theorem get_set (c : Config) (k j : String) (v : JsValue) :
    (c.set k v).get j = if j = k then some v else c.get j :=
  Fields.get_set c.fields k j v

theorem get_without (c : Config) (k j : String) :
    (c.without k).get j = if j = k then none else c.get j :=
  Fields.get_without c.fields k j

theorem get_spread (c d : Config) (k : String) : (c.spread d).get k = (d.get k).or (c.get k) :=
  Fields.get_spread c.fields d.wf k

end Config

/-! ### Rows -/

/-- `MONITOR_TYPES`. -/
inductive MonitorType
  | service | process | host | database | storage | ping | snmp | http | tcp | dns
deriving DecidableEq, Repr

namespace MonitorType

def name : MonitorType → String
  | .service => "service"
  | .process => "process"
  | .host => "host"
  | .database => "database"
  | .storage => "storage"
  | .ping => "ping"
  | .snmp => "snmp"
  | .http => "http"
  | .tcp => "tcp"
  | .dns => "dns"

/-- In the order of the source. -/
def all : List MonitorType :=
  [.service, .process, .host, .database, .storage, .ping, .snmp, .http, .tcp, .dns]

end MonitorType

/-- A row of `monitors`. -/
structure Monitor where
  id : String
  agentId : String
  type : MonitorType
  name : String
  enabled : Bool
  config : Config
  createdAt : String
  updatedAt : String

/-- A row of `secrets`. -/
structure Secret where
  ref : String
  ciphertext : String
  updatedAt : String
deriving DecidableEq, Repr

structure Store where
  agents : List String
  monitors : List Monitor
  secrets : List Secret

/-- What the code relies on.  The key is the one of `ENCRYPTION_KEY`; `encryptSecret` draws an
    initialisation vector, and `decryptSecret` throws on what it did not make. -/
structure Env where
  encryptSecret : (plaintext iv : String) → String
  decryptSecret : String → Except String String
  decrypt_encrypt : ∀ plaintext iv, decryptSecret (encryptSecret plaintext iv) = .ok plaintext
  /-- The message of a query that the database refuses, with the parameters it was sent. -/
  failedQuery : List JsValue → String

/-- `toDTO`, as it is sent. -/
def Monitor.toDTO (m : Monitor) : JsValue :=
  .obj [("id", .str m.id), ("agentId", .str m.agentId), ("type", .str m.type.name),
    ("name", .str m.name), ("enabled", .bool m.enabled), ("config", .obj m.config.fields),
    ("createdAt", .str m.createdAt), ("updatedAt", .str m.updatedAt)]

/-! ### The monitor service -/

structure CreateMonitorInput where
  agentId : String
  type : MonitorType
  name : String
  enabled : Option Bool
  config : Option Config

structure UpdateMonitorInput where
  name : Option String
  enabled : Option Bool
  config : Option Config
  agentId : Option String

/-- The row after `updateMonitor`. -/
def Monitor.patched (m : Monitor) (now : String) (patch : UpdateMonitorInput) : Monitor :=
  { m with
    name := patch.name.getD m.name
    enabled := patch.enabled.getD m.enabled
    config := patch.config.getD m.config
    agentId := patch.agentId.getD m.agentId
    updatedAt := now }

namespace Store

def getMonitor (db : Store) (id : String) : Option Monitor :=
  Table.lookup Monitor.id id db.monitors

def listMonitors (db : Store) : Option String → List Monitor
  | some agentId => db.monitors.filter (fun m => m.agentId == agentId)
  | none => db.monitors

/-- The row `createMonitor` inserts under the drawn `id`. -/
def newMonitor (id now : String) (input : CreateMonitorInput) : Monitor where
  id := id
  agentId := input.agentId
  type := input.type
  name := input.name
  enabled := input.enabled.getD true
  config := input.config.getD .empty
  createdAt := now
  updatedAt := now

/-- `createMonitor`; the row refers to its agent, and the database refuses it where there is
    none. -/
def createMonitor (db : Store) (id now : String) (input : CreateMonitorInput) :
    Option (Store × Monitor) :=
  if input.agentId ∈ db.agents then
    some ({ db with monitors := db.monitors ++ [newMonitor id now input] }, newMonitor id now input)
  else none

/-- `updateMonitor`: the row after the patch, where there is one. -/
def updateMonitor (db : Store) (id now : String) (patch : UpdateMonitorInput) :
    Store × Option Monitor :=
  let db' : Store := { db with
    monitors := Table.update (fun m => m.id == id) (fun m => m.patched now patch) db.monitors }
  (db', db'.getMonitor id)

theorem updateMonitor_snd (db : Store) (id now : String) (patch : UpdateMonitorInput) :
    (db.updateMonitor id now patch).2 = (db.getMonitor id).map (fun m => m.patched now patch) := by
  have hkey : ∀ m : Monitor, (m.patched now patch).id = m.id := fun _ => rfl
  show Table.lookup Monitor.id id (Table.update _ _ db.monitors) = _
  rw [Table.lookup_update hkey, getMonitor]
  cases hm : Table.lookup Monitor.id id db.monitors with
  | none => rfl
  | some m =>
    have hid : m.id = id := (Table.lookup_some hm).2
    simp [hid]

end Store

/-- `uncHost`: the host of a UNC path, which starts with two or more backslashes. -/
def uncHost (path : String) : String :=
  let cs := path.toList
  if 2 ≤ (cs.takeWhile (· == '\\')).length then
    String.ofList ((cs.dropWhile (· == '\\')).takeWhile (fun c => c != '\\' && c != '/'))
  else ""

/-- The companion ping of a storage monitor. -/
def storagePing (agentId storageName host : String) : CreateMonitorInput where
  agentId := agentId
  type := .ping
  name := storageName ++ " · reachability"
  enabled := none
  config := some ((Config.empty.set "host" (.str host)).set "server" (.bool true))

/-- `ensureStoragePing`. -/
def Store.ensureStoragePing (db : Store) (pingId now agentId storageName path : String) : Store :=
  let host := uncHost path
  if host = "" then db
  else if db.monitors.any
      (fun m => m.agentId == agentId && m.name == storageName ++ " · reachability") then db
  else match db.createMonitor pingId now (storagePing agentId storageName host) with
    | some (db', _) => db'
    | none => db

/-- What is there after `ensureStoragePing` was there, or is the ping. -/
theorem Store.mem_ensureStoragePing {db : Store} {pingId now agentId name path : String}
    {m : Monitor} (h : m ∈ (db.ensureStoragePing pingId now agentId name path).monitors) :
    m ∈ db.monitors ∨
      m = newMonitor pingId now (storagePing agentId name (uncHost path)) := by
  unfold Store.ensureStoragePing Store.createMonitor at h
  dsimp only at h
  split at h
  · exact .inl h
  split at h
  · exact .inl h
  split at h
  · next db' m' hcreate =>
    split at hcreate
    · obtain ⟨rfl, -⟩ := Prod.mk.inj (Option.some.inj hcreate)
      rcases List.mem_append.mp h with h | h
      · exact .inl h
      · exact .inr (List.mem_singleton.mp h)
    · cases hcreate
  · exact .inl h

theorem Store.ensureStoragePing_secrets (db : Store) (pingId now agentId name path : String) :
    (db.ensureStoragePing pingId now agentId name path).secrets = db.secrets := by
  unfold Store.ensureStoragePing Store.createMonitor
  dsimp only
  split
  · rfl
  split
  · rfl
  by_cases hagent : (storagePing agentId name (uncHost path)).agentId ∈ db.agents
  · simp only [if_pos hagent]
  · simp only [if_neg hagent]

theorem Store.subset_ensureStoragePing (db : Store) (pingId now agentId name path : String) :
    db.monitors ⊆ (db.ensureStoragePing pingId now agentId name path).monitors := by
  unfold Store.ensureStoragePing Store.createMonitor
  dsimp only
  split
  · exact List.Subset.refl _
  split
  · exact List.Subset.refl _
  by_cases hagent : (storagePing agentId name (uncHost path)).agentId ∈ db.agents
  · simp only [if_pos hagent]
    exact List.subset_append_left _ _
  · simp only [if_neg hagent]
    exact List.Subset.refl _

/-! ### Credentials -/

/-- `ref`. -/
def ref (monitorId : String) : String := "monitor:" ++ monitorId ++ ":cred"

/-- The slot of database monitors from before the slot was general. -/
def legacyRef (monitorId : String) : String := "monitor:" ++ monitorId ++ ":db"

/-- `SECRET_FIELDS`. -/
def secretFields : List String := ["connectionString", "password", "community"]

/-- A non-empty text in a secret field. -/
def Config.secret (c : Config) (field : String) : Option String :=
  match c.get field with
  | some (.str s) => if s = "" then none else some s
  | _ => none

/-- `extractCred`: the first secret field with a non-empty text is taken out and its name kept;
    the credential and the configuration that is stored. -/
def extractCred : Option Config → Option String × Option Config
  | none => (none, none)
  | some c =>
    match secretFields.findSome? (fun field => (c.secret field).map (fun v => (field, v))) with
    | some (field, v) => (some v, some ((c.without field).set "credField" (.str field)))
    | none => (none, some c)

/-- `credFieldFor`. -/
def credFieldFor (c : Config) : Option String :=
  match c.get "credField" with
  | some (.str field) => some field
  | _ => match c.get "connection" with
    | some (.str "set") => some "connectionString"
    | _ => none

namespace Store

/-- `setMonitorCred`. -/
def setMonitorCred (db : Store) (env : Env) (monitorId value iv now : String) : Store :=
  { db with
    secrets := Table.upsert Secret.ref ⟨ref monitorId, env.encryptSecret value iv, now⟩
      (fun r => { r with ciphertext := env.encryptSecret value iv, updatedAt := now }) db.secrets }

/-- `getMonitorCred`: the current slot, then the legacy one. -/
def getMonitorCred (db : Store) (env : Env) (monitorId : String) : Except String (Option String) :=
  match Table.lookup Secret.ref (ref monitorId) db.secrets with
  | some row => (env.decryptSecret row.ciphertext).map some
  | none => match Table.lookup Secret.ref (legacyRef monitorId) db.secrets with
    | some row => (env.decryptSecret row.ciphertext).map some
    | none => .ok none

/-- What the delivery puts into the configuration of a monitor: the field and the credential. -/
def injection (db : Store) (env : Env) (monitorId : String) (config : Config) :
    Except String (Option (String × String)) :=
  match credFieldFor config with
  | none => .ok none
  | some field =>
    if field = "" then .ok none
    else (db.getMonitorCred env monitorId).map (fun
      | some cred => if cred = "" then none else some (field, cred)
      | none => none)

/-- `m.config = { ...m.config, [field]: cred }`. -/
def injectCred (db : Store) (env : Env) (monitorId : String) (config : Config) :
    Except String Config :=
  (db.injection env monitorId config).map (fun injected =>
    match injected with
    | some (field, cred) => config.set field (.str cred)
    | none => config)

end Store

/-- Whether the backend itself runs the monitor. -/
def serverRun (type : MonitorType) (config : Config) : Bool :=
  type == .snmp || ((type == .ping || type == .storage) &&
    match config.get "server" with
    | some (.bool true) => true
    | _ => false)

/-- `AgentMonitorConfig`. -/
structure AgentMonitorConfig where
  id : String
  type : MonitorType
  name : String
  config : Config

namespace Store

/-- `listAgentMonitorConfig`. -/
def listAgentMonitorConfig (db : Store) (agentId : String) : List AgentMonitorConfig :=
  (db.monitors.filter (fun m => m.agentId == agentId && m.enabled
    && !serverRun m.type m.config)).map (fun m => ⟨m.id, m.type, m.name, m.config⟩)

/-- The monitors of `GET /api/agent/config`. -/
def agentConfig (db : Store) (env : Env) (agentId : String) :
    Except String (List AgentMonitorConfig) :=
  (db.listAgentMonitorConfig agentId).mapM (fun m =>
    (db.injectCred env m.id m.config).map (fun config => { m with config := config }))

end Store

/-! ### Sample values -/

namespace Sample

/-- A toy envelope. -/
def env : Env where
  encryptSecret plaintext _ := String.ofList ('v' :: '1' :: '.' :: plaintext.toList)
  decryptSecret envelope :=
    match envelope.toList with
    | 'v' :: '1' :: '.' :: cs => .ok (String.ofList cs)
    | _ => .error "Malformed envelope"
  decrypt_encrypt plaintext _ := by simp
  failedQuery _ := "Failed query"

end Sample

end Argus.Monitors
