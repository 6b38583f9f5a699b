import Argus.Agents.Channel
import Argus.Lib.JsValue
import Mathlib.Data.Rat.Floor

namespace Argus.Agents

open Argus.Auth (truthy)

/-!
# Settings of an agent

An operator names an agent, approves and revokes it, sets its interval and its debug flag; a
registration reports facts about the host.  The debug flag and the build time share one column,
which an operator's call merges and a registration replaces.

* `registerAgent`, `updateAgent`, `approveAgent`, `revokeAgent` — the functions of the source.
* `service` — the calls, one after the other.
* `Settings` — what an operator has set; `Settings.after` follows the calls.
* `Reports` — what is read back is what was set.
* `settings_kept_iff` — that holds along a run exactly if no registration with a build time
  reaches the agent while its debug flag is on.
-/

/-! ### Rows -/

/-- `agents.kind`. -/
inductive AgentKind
  | agent | device
deriving DecidableEq, Repr

def pushIntervalMin : ℤ := 5

def pushIntervalMax : ℤ := 3600

def pushIntervalDefault : ℤ := 30

/-- An interval within the bounds: every writer clamps, and the route accepts no other. -/
structure PushInterval where
  sec : ℤ
  low : pushIntervalMin ≤ sec
  high : sec ≤ pushIntervalMax
deriving DecidableEq, Repr

/-- `clampPushInterval`; `Math.round` takes halves up. -/
def clampPushInterval (sec : ℚ) : PushInterval where
  sec := min (max ⌊sec + 1 / 2⌋ pushIntervalMin) pushIntervalMax
  low := le_min (le_max_right _ _) (by decide)
  high := min_le_right _ _

theorem clampPushInterval_sec (i : PushInterval) : clampPushInterval i.sec = i := by
  have hfloor : ⌊(i.sec : ℚ) + 1 / 2⌋ = i.sec := by
    rw [Int.floor_intCast_add]
    norm_num
  obtain ⟨sec, hlow, hhigh⟩ := i
  simp only [clampPushInterval, PushInterval.mk.injEq, hfloor]
  rw [max_eq_left hlow, min_eq_left hhigh]

/-- A row of `agents`. -/
structure AgentRow where
  id : String
  name : String
  kind : AgentKind
  hostname : Option String
  platform : Option String
  address : Option String
  status : AgentStatus
  version : Option String
  lastSeenAt : Option String
  approvedAt : Option String
  pushIntervalSec : Option PushInterval
  metadata : Option (Fields JsValue)
  createdAt : String
  updatedAt : String

/-- What the functions read and write: the agents, the keys, and the number in the setting
    `agent.pushIntervalSec`, if it holds one. -/
structure AgentStore where
  agents : List AgentRow
  agentKeys : List AgentKey
  pushInterval : Option ℚ

structure AgentDTO where
  id : String
  name : String
  kind : AgentKind
  hostname : Option String
  platform : Option String
  address : Option String
  status : AgentStatus
  version : Option String
  lastSeenAt : Option String
  approvedAt : Option String
  createdAt : String
  buildTime : Option JsValue
  online : Bool
  pushIntervalSec : Option PushInterval
  debug : Bool

def AgentRow.debug (a : AgentRow) : Bool :=
  match a.metadata.bind (·.get "debug") with
  | some (.bool b) => b
  | _ => false

def AgentRow.toDTO (a : AgentRow) (online : Bool) : AgentDTO where
  id := a.id
  name := a.name
  kind := a.kind
  hostname := a.hostname
  platform := a.platform
  address := a.address
  status := a.status
  version := a.version
  lastSeenAt := a.lastSeenAt
  approvedAt := a.approvedAt
  createdAt := a.createdAt
  buildTime := (a.metadata.bind (·.get "buildTime")).filter (!·.isNull)
  online := online
  pushIntervalSec := a.pushIntervalSec
  debug := a.debug

/-! ### The code -/

namespace AgentStore

/-- `onlineFor` is what the hub and the clock say about a row. -/
def getAgent (db : AgentStore) (id : String) (onlineFor : AgentRow → Bool) : Option AgentDTO :=
  (Table.lookup AgentRow.id id db.agents).map fun a => a.toDTO (onlineFor a)

/-- `UPDATE agents SET … WHERE id = …`. -/
def set (db : AgentStore) (id : String) (f : AgentRow → AgentRow) : AgentStore :=
  { db with agents := Table.update (fun a => decide (a.id = id)) f db.agents }

end AgentStore

/-- The `fields` of a registration. -/
def withFacts (req : RegisterRequest) (now : String) (a : AgentRow) : AgentRow :=
  { a with
    hostname := req.hostname
    platform := req.platform
    version := req.version
    address := req.address
    lastSeenAt := some now
    metadata := match truthy req.buildTime with
      | some t => some [("buildTime", .str t)]
      | none => a.metadata }

/-- The row a registration inserts, with the defaults of the table. -/
def newAgent (req : RegisterRequest) (id now : String) : AgentRow :=
  withFacts req now
    { id := id
      name := (req.name.or req.hostname).getD "agent"
      kind := .agent
      hostname := none
      platform := none
      address := none
      status := .pending
      version := none
      lastSeenAt := none
      approvedAt := none
      pushIntervalSec := none
      metadata := none
      createdAt := now
      updatedAt := now }

/-- What `registerAgent` returns. -/
structure RegisterResponse where
  agentId : String
  status : AgentStatus
deriving DecidableEq, Repr

namespace AgentStore

/-- An `UPDATE` of the key's agent that finds no row is followed by an insert, and an insert under
    a key that is taken fails. -/
def registerAgent (db : AgentStore) (key : AgentKey) (req : RegisterRequest) (newId now : String) :
    AgentStore × Option RegisterResponse :=
  match (truthy key.agentId).bind fun id => Table.lookup AgentRow.id id db.agents with
  | some a => (db.set a.id (withFacts req now), some ⟨a.id, a.status⟩)
  | none =>
    if (Table.lookup AgentRow.id newId db.agents).isSome then (db, none)
    else
      ({ db with
        agents := db.agents ++ [newAgent req newId now]
        agentKeys := Table.update (fun k => decide (k.id = key.id))
          (fun k => { k with agentId := some newId }) db.agentKeys }, some ⟨newId, .pending⟩)

def approveAgent (db : AgentStore) (id now : String) : AgentStore :=
  db.set id fun a => { a with status := .approved, approvedAt := some now }

def revokeAgent (db : AgentStore) (id : String) : AgentStore :=
  db.set id fun a => { a with status := .revoked }

end AgentStore

/-- The body of the PATCH route. -/
structure UpdateAgentInput where
  name : Option String
  pushIntervalSec : Option (Option PushInterval)
  debug : Option Bool

/-- `{ ...(cur?.metadata ?? {}), debug }`. -/
def withDebug (metadata : Option (Fields JsValue)) (debug : Bool) : Fields JsValue :=
  (metadata.getD []).set "debug" (.bool debug)

def UpdateAgentInput.patched (patch : UpdateAgentInput) (now : String) (a : AgentRow) : AgentRow :=
  { a with
    updatedAt := now
    name := patch.name.getD a.name
    pushIntervalSec := match patch.pushIntervalSec with
      | none => a.pushIntervalSec
      | some none => none
      | some (some i) => some (clampPushInterval i.sec)
    metadata := match patch.debug with
      | none => a.metadata
      | some debug => some (withDebug a.metadata debug) }

namespace AgentStore

def updateAgent (db : AgentStore) (id now : String) (patch : UpdateAgentInput) : AgentStore :=
  db.set id (patch.patched now)

def agentDebugEnabled (db : AgentStore) (agentId : String) : Bool :=
  ((Table.lookup AgentRow.id agentId db.agents).map AgentRow.debug).getD false

def effectivePushInterval (db : AgentStore) (agentId : String) : PushInterval :=
  match (Table.lookup AgentRow.id agentId db.agents).bind AgentRow.pushIntervalSec with
  | some i => clampPushInterval i.sec
  | none => clampPushInterval (db.pushInterval.getD pushIntervalDefault)

end AgentStore

/-! ### Calls -/

/-- A call, with the id and the instant it draws. -/
inductive SettingsCall
  | register (keyId : String) (req : RegisterRequest) (newId now : String)
  | update (id : String) (patch : UpdateAgentInput) (now : String)
  | approve (id now : String)
  | revoke (id : String)

namespace AgentStore

/-- One call from start to end; a registration begins with the key it was sent with. -/
def handle (db : AgentStore) : SettingsCall → AgentStore
  | .register keyId req newId now =>
    match Table.lookup AgentKey.id keyId db.agentKeys with
    | some key => (db.registerAgent key req newId now).1
    | none => db
  | .update id patch now => db.updateAgent id now patch
  | .approve id now => db.approveAgent id now
  | .revoke id => db.revokeAgent id

/-- The registration that a call brings for an agent that is there. -/
def reregisters (db : AgentStore) (id : String) : SettingsCall → Option (RegisterRequest × String)
  | .register keyId req _ now =>
    if (Table.lookup AgentKey.id keyId db.agentKeys).bind (truthy ·.agentId) = some id then
      some (req, now)
    else none
  | _ => none

end AgentStore

def service : Machine AgentStore SettingsCall where
  step db c := some (db.handle c)

/-! ### What an operator sets -/

structure Settings where
  name : String
  status : AgentStatus
  pushIntervalSec : Option PushInterval
  debug : Bool
deriving DecidableEq, Repr

/-- What the row holds of them. -/
def AgentRow.settings (a : AgentRow) : Settings := ⟨a.name, a.status, a.pushIntervalSec, a.debug⟩

/-- What is set for the agent after a call. -/
def Settings.after (id : String) (_ : AgentStore) (c : SettingsCall) (s : Settings) : Settings :=
  match c with
  | .register .. => s
  | .update id' patch _ =>
    if id' = id then
      { s with
        name := patch.name.getD s.name
        pushIntervalSec := patch.pushIntervalSec.getD s.pushIntervalSec
        debug := patch.debug.getD s.debug }
    else s
  | .approve id' _ => if id' = id then { s with status := .approved } else s
  | .revoke id' => if id' = id then { s with status := .revoked } else s

/-- What is read back about the agent is what was set. -/
structure Reports (db : AgentStore) (id : String) (s : Settings) : Prop where
  debug : db.agentDebugEnabled id = s.debug
  interval : db.effectivePushInterval id =
    s.pushIntervalSec.getD (clampPushInterval (db.pushInterval.getD pushIntervalDefault))
  dto : ∀ onlineFor, ∃ dto, db.getAgent id onlineFor = some dto ∧ dto.name = s.name ∧
    dto.status = s.status ∧ dto.pushIntervalSec = s.pushIntervalSec ∧ dto.debug = s.debug

/-- A registration changes only the host facts it carries, as the agent is shown. -/
def AgentDTO.withFacts (req : RegisterRequest) (now : String) (dto : AgentDTO) : AgentDTO :=
  { dto with
    hostname := req.hostname
    platform := req.platform
    version := req.version
    address := req.address
    lastSeenAt := some now
    buildTime := ((truthy req.buildTime).map JsValue.str).or dto.buildTime }

/-- No registration with a build time reaches the agent while its debug flag is on. -/
def KeepsDebug (id : String) (db : AgentStore) (c : SettingsCall) : Prop :=
  ∀ req now, db.reregisters id c = some (req, now) →
    truthy req.buildTime = none ∨ db.agentDebugEnabled id = false

/-! ### One call -/

/-- The row of the agent after a call. -/
def rowAfter (id : String) (db : AgentStore) (c : SettingsCall) (a : AgentRow) : AgentRow :=
  match c with
  | .register .. =>
    match db.reregisters id c with
    | some (req, now) => withFacts req now a
    | none => a
  | .update id' patch now => if id' = id then patch.patched now a else a
  | .approve id' now =>
    if id' = id then { a with status := .approved, approvedAt := some now } else a
  | .revoke id' => if id' = id then { a with status := .revoked } else a

section Call

variable {db : AgentStore} {id : String} {a : AgentRow}

theorem lookup_set {id' : String} {f : AgentRow → AgentRow} (hf : ∀ a, (f a).id = a.id)
    (h : Table.lookup AgentRow.id id db.agents = some a) :
    Table.lookup AgentRow.id id (db.set id' f).agents = some (if id' = id then f a else a) := by
  have hid := (Table.lookup_some h).2
  rw [AgentStore.set, Table.lookup_update hf, h, Option.map_some, hid]
  simp [eq_comm]

theorem lookup_registerAgent (h : Table.lookup AgentRow.id id db.agents = some a) (key : AgentKey)
    (req : RegisterRequest) (newId now : String) :
    Table.lookup AgentRow.id id (db.registerAgent key req newId now).1.agents =
      some (if truthy key.agentId = some id then withFacts req now a else a) := by
  rw [AgentStore.registerAgent]
  cases hfound : (truthy key.agentId).bind fun id => Table.lookup AgentRow.id id db.agents with
  | some b =>
    obtain ⟨id', hbound, hb⟩ := Option.bind_eq_some_iff.mp hfound
    have hid' := (Table.lookup_some hb).2
    have hset : Table.lookup AgentRow.id id (db.set b.id (withFacts req now)).agents =
        some (if b.id = id then withFacts req now a else a) := lookup_set (fun _ => rfl) h
    refine hset.trans ?_
    rw [hbound, hid']
    simp only [Option.some.injEq]
  | none =>
    -- a key that is bound to the agent finds it
    have hne : truthy key.agentId ≠ some id := by
      intro hbound
      rw [hbound, Option.bind_some, h] at hfound
      cases hfound
    rw [if_neg hne]
    dsimp only
    split
    · exact h
    · rw [Table.lookup_append_singleton, h, Option.some_or]

theorem lookup_handle (h : Table.lookup AgentRow.id id db.agents = some a) (c : SettingsCall) :
    Table.lookup AgentRow.id id (db.handle c).agents = some (rowAfter id db c a) := by
  cases c with
  | register keyId req newId now =>
    simp only [rowAfter, AgentStore.handle, AgentStore.reregisters]
    cases hkey : Table.lookup AgentKey.id keyId db.agentKeys with
    | none => simpa using h
    | some key =>
      rw [Option.bind_some, lookup_registerAgent h]
      split <;> rfl
  | update id' patch now => exact lookup_set (fun _ => rfl) h
  | approve id' now => exact lookup_set (fun _ => rfl) h
  | revoke id' => exact lookup_set (fun _ => rfl) h

/-- What is read back is what the row holds. -/
theorem reports_iff (h : Table.lookup AgentRow.id id db.agents = some a) {s : Settings} :
    Reports db id s ↔ a.settings = s := by
  constructor
  · intro hreports
    obtain ⟨dto, hdto, hname, hstatus, hinterval, hdebug⟩ := hreports.dto fun _ => false
    rw [AgentStore.getAgent, h] at hdto
    obtain rfl := Option.some.inj hdto
    rw [AgentRow.settings]
    congr
  · rintro rfl
    refine ⟨?_, ?_, fun onlineFor => ⟨_, by rw [AgentStore.getAgent, h]; rfl, rfl, rfl, rfl, rfl⟩⟩
    · rw [AgentStore.agentDebugEnabled, h]
      rfl
    · rw [AgentStore.effectivePushInterval, h, Option.bind_some, AgentRow.settings]
      cases a.pushIntervalSec with
      | none => rfl
      | some i => exact clampPushInterval_sec i

theorem debug_withFacts {req : RegisterRequest} {now : String} :
    (withFacts req now a).debug = a.debug ↔ truthy req.buildTime = none ∨ a.debug = false := by
  cases hbuild : truthy req.buildTime with
  | none =>
    have hsame : (withFacts req now a).metadata = a.metadata := by
      simp only [withFacts, hbuild]
    simp [AgentRow.debug, hsame]
  | some t =>
    have hlost : (withFacts req now a).debug = false := by
      simp [AgentRow.debug, withFacts, hbuild, Fields.get_cons]
    rw [hlost]
    simp only [reduceCtorEq, false_or]
    exact eq_comm

theorem debug_patched {patch : UpdateAgentInput} {now : String} :
    (patch.patched now a).debug = patch.debug.getD a.debug := by
  cases hdebug : patch.debug with
  | none => simp [AgentRow.debug, UpdateAgentInput.patched, hdebug]
  | some debug => simp [AgentRow.debug, UpdateAgentInput.patched, hdebug, withDebug, Fields.get_set]

theorem settings_patched {patch : UpdateAgentInput} {now : String} :
    (patch.patched now a).settings =
      ⟨patch.name.getD a.name, a.status, patch.pushIntervalSec.getD a.pushIntervalSec,
        patch.debug.getD a.debug⟩ := by
  rw [AgentRow.settings, debug_patched]
  congr 1
  simp only [UpdateAgentInput.patched]
  cases patch.pushIntervalSec with
  | none => rfl
  | some i =>
    cases i with
    | none => rfl
    | some i => simp [clampPushInterval_sec]

theorem settings_rowAfter (h : Table.lookup AgentRow.id id db.agents = some a) (c : SettingsCall) :
    (rowAfter id db c a).settings = Settings.after id db c a.settings ↔ KeepsDebug id db c := by
  have hdebug : db.agentDebugEnabled id = a.debug := by
    rw [AgentStore.agentDebugEnabled, h]
    rfl
  have hkept : ∀ c, db.reregisters id c = none → KeepsDebug id db c := by
    intro c hnone req now hsome
    rw [hnone] at hsome
    cases hsome
  cases c with
  | register keyId req newId now =>
    simp only [rowAfter, Settings.after]
    cases hre : db.reregisters id (.register keyId req newId now) with
    | none => exact iff_of_true rfl (hkept _ hre)
    | some p =>
      obtain ⟨req', now'⟩ := p
      have hiff : (withFacts req' now' a).settings = a.settings ↔
          (withFacts req' now' a).debug = a.debug := by
        simp [AgentRow.settings, withFacts]
      rw [hiff, debug_withFacts, KeepsDebug, hre, hdebug]
      constructor
      · intro hor req'' now'' heq
        obtain ⟨rfl, rfl⟩ := Prod.mk.inj (Option.some.inj heq)
        exact hor
      · exact fun hall => hall _ _ rfl
  | update id' patch now =>
    refine iff_of_true ?_ (hkept _ rfl)
    simp only [rowAfter, Settings.after]
    split
    · rw [settings_patched]
      rfl
    · rfl
  | approve id' now =>
    refine iff_of_true ?_ (hkept _ rfl)
    simp only [rowAfter, Settings.after]
    split <;> rfl
  | revoke id' =>
    refine iff_of_true ?_ (hkept _ rfl)
    simp only [rowAfter, Settings.after]
    split <;> rfl

/-- What a registration shows afterwards, if it keeps the debug flag. -/
theorem toDTO_withFacts {req : RegisterRequest} {now : String} {online : Bool}
    (hdebug : (withFacts req now a).debug = a.debug) :
    (withFacts req now a).toDTO online = (a.toDTO online).withFacts req now := by
  simp only [AgentRow.toDTO, AgentDTO.withFacts, hdebug]
  cases hbuild : truthy req.buildTime with
  | none => simp [withFacts, hbuild]
  | some t => simp [withFacts, hbuild, Fields.get_cons, JsValue.isNull]

end Call

/-! ### Runs -/

section Runs

variable {db db' : AgentStore} {id : String}

theorem exec_service (db : AgentStore) (cs : List SettingsCall) :
    service.exec db cs = some (cs.foldl AgentStore.handle db) := by
  induction cs generalizing db with
  | nil => rfl
  | cons c cs ih => exact ih _

theorem exists_lookup (h : ∃ a, Table.lookup AgentRow.id id db.agents = some a)
    {cs : List SettingsCall} (hrun : service.exec db cs = some db') :
    ∃ a, Table.lookup AgentRow.id id db'.agents = some a := by
  refine Machine.inv_of_exec (I := fun db => ∃ a, Table.lookup AgentRow.id id db.agents = some a)
    ?_ h (Machine.Meets.always db cs) hrun
  rintro db c db' ⟨a, ha⟩ - hstep
  obtain rfl := Option.some.inj hstep
  exact ⟨_, lookup_handle ha c⟩

/-- A registration for the agent replaces its row. -/
theorem lookup_reregisters {a : AgentRow} (h : Table.lookup AgentRow.id id db.agents = some a)
    {c : SettingsCall} {req : RegisterRequest} {now : String}
    (hre : db.reregisters id c = some (req, now)) :
    Table.lookup AgentRow.id id (db.handle c).agents = some (withFacts req now a) := by
  rw [lookup_handle h]
  cases c with
  | register keyId req' newId now' => rw [rowAfter, hre]
  | update | approve | revoke => cases hre

/-- Exactly the calls that keep the debug flag keep what was set. -/
theorem reports_meets_iff {a : AgentRow} (h : Table.lookup AgentRow.id id db.agents = some a)
    (cs : List SettingsCall) :
    (∀ past rest db', cs = past ++ rest → service.exec db past = some db' →
        Reports db' id (service.track (Settings.after id) db past a.settings)) ↔
      service.Meets (KeepsDebug id) db cs := by
  have hreports : ∀ db' s, (∃ b, Table.lookup AgentRow.id id db'.agents = some b) →
      (Reports db' id s ↔
        ∃ b, Table.lookup AgentRow.id id db'.agents = some b ∧ b.settings = s) := by
    rintro db' s ⟨b, hb⟩
    rw [reports_iff hb]
    constructor
    · exact fun heq => ⟨b, hb, heq⟩
    · rintro ⟨b', hb', heq⟩
      obtain rfl : b = b' := Option.some.inj (hb.symm.trans hb')
      exact heq
  have hstep : ∀ db c db' s,
      (∃ b, Table.lookup AgentRow.id id db.agents = some b ∧ b.settings = s) →
      service.step db c = some db' →
      ((∃ b, Table.lookup AgentRow.id id db'.agents = some b ∧
        b.settings = Settings.after id db c s) ↔ KeepsDebug id db c) := by
    rintro db c db' s ⟨b, hb, rfl⟩ hstep
    obtain rfl := Option.some.inj hstep
    rw [← settings_rowAfter hb c, lookup_handle hb c]
    simp
  rw [← Machine.rel_iff_meets hstep ⟨a, h, rfl⟩ (exec_service db cs)]
  constructor
  · intro hall past rest db' hsplit hpast
    exact (hreports db' _ (exists_lookup ⟨a, h⟩ hpast)).mp (hall past rest db' hsplit hpast)
  · intro hall past rest db' hsplit hpast
    exact (hreports db' _ (exists_lookup ⟨a, h⟩ hpast)).mpr (hall past rest db' hsplit hpast)

end Runs

/-- **Settings.**  Along the calls on an agent that exists, what is read back is what the operator
    set last, and a registration changes only the facts it carries, if and only if no registration
    with a build time reaches the agent while its debug flag is on. -/
theorem settings_kept_iff (db : AgentStore) {id : String} {a : AgentRow}
    (h : Table.lookup AgentRow.id id db.agents = some a) (cs : List SettingsCall) :
    ((∀ past rest db', cs = past ++ rest → service.exec db past = some db' →
        Reports db' id (service.track (Settings.after id) db past a.settings)) ∧
      ∀ past c rest db', cs = past ++ c :: rest → service.exec db past = some db' →
        ∀ req now, db'.reregisters id c = some (req, now) → ∀ online,
          (db'.handle c).getAgent id (fun _ => online) =
            (db'.getAgent id (fun _ => online)).map (AgentDTO.withFacts req now)) ↔
      service.Meets (KeepsDebug id) db cs := by
  rw [reports_meets_iff h cs]
  refine ⟨And.left, fun hmeets => ⟨hmeets, ?_⟩⟩
  intro past c rest db' hsplit hpast req now hre online
  obtain ⟨b, hb⟩ := exists_lookup ⟨a, h⟩ hpast
  have hkeeps : KeepsDebug id db' c := by
    rw [hsplit] at hmeets
    exact (hmeets.split hpast).2.1
  have hdebug : db'.agentDebugEnabled id = b.debug := by
    rw [AgentStore.agentDebugEnabled, hb]
    rfl
  have hkept : (withFacts req now b).debug = b.debug :=
    debug_withFacts.mpr (hdebug ▸ hkeeps req now hre)
  rw [AgentStore.getAgent, lookup_reregisters hb hre, AgentStore.getAgent, hb, Option.map_some,
    Option.map_some, Option.map_some, toDTO_withFacts hkept]

namespace Sample

/-- The operator has switched the debug flag on. -/
def debugging : AgentStore where
  agents :=
    [{ id := "a", name := "web-1", kind := .agent, hostname := none, platform := none
       address := none, status := .approved, version := none, lastSeenAt := none
       approvedAt := none, pushIntervalSec := none, metadata := some [("debug", .bool true)]
       createdAt := "", updatedAt := "" }]
  agentKeys := [{ id := "k", keyHash := Argus.Auth.sha256 "raw", agentId := some "a" }]
  pushInterval := none

/-- The agent starts again, and reports when it was built. -/
def restart (buildTime : Option String) : SettingsCall :=
  .register "k" { buildTime } "b" "2026-01-02"

end Sample

open Sample in
theorem settings_kept_restart :
    ∃ a, Table.lookup AgentRow.id "a" debugging.agents = some a ∧
      ∀ db', service.exec debugging [restart none] = some db' →
        Reports db' "a"
          (service.track (Settings.after "a") debugging [restart none] a.settings) := by
  refine ⟨_, rfl, fun db' hrun => ?_⟩
  refine ((settings_kept_iff debugging rfl [restart none]).mpr ⟨?_, fun _ _ => trivial⟩).1 _ [] db'
    rfl hrun
  intro req now hre
  obtain ⟨rfl, rfl⟩ := Prod.mk.inj (Option.some.inj hre)
  exact Or.inl rfl

open Sample in
/-- A registration with a build time switches the debug flag off. -/
theorem settings_lost_on_build :
    ∃ a db', Table.lookup AgentRow.id "a" debugging.agents = some a ∧ a.debug = true ∧
      service.exec debugging [restart (some "2026-01-01")] = some db' ∧
      ¬ Reports db' "a"
        (service.track (Settings.after "a") debugging [restart (some "2026-01-01")]
          a.settings) := by
  refine ⟨_, _, rfl, rfl, rfl, fun h => ?_⟩
  exact absurd h.debug (by decide)

end Argus.Agents
