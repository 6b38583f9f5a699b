import Argus.Lib.Interleaving
import Argus.Monitors.Store
import Argus.Pipeline.History

namespace Argus.Monitors

open Core (HealthStatus)

/-!
# Who runs a monitor

`monitors.ts` hands the enabled monitors to four parties: `GET /api/agent/config` to the agents,
and three worklists to the schedulers of the backend.  A party works on what it has read, while
operators edit the rows.

* `Party.takes` — the rows a party reads; `owner` — the party a row is meant for.
* `dispatch` — agents, schedulers and scans, one read or report at a time, between any edits.
* `Within` — the invariant: what a party holds was read from one of some stores.
* `reports_traced` — every report is about a row that was there, made by a party that read it.
* `monitors_run_once` — once the edits stop and the parties have read again, the reports on a row
  are those of its owner, except that an agent also reports on the synthetic checks of its host.
* `check_flaps` — what the two reports of such a check make of its history.
-/

/-! ### The worklists -/

/-- `config.server === true`. -/
def Config.serverSide (c : Config) : Bool :=
  match c.get "server" with
  | some (.bool true) => true
  | _ => false

/-- `SYNTHETIC_MONITOR_TYPES`. -/
def MonitorType.synthetic (type : MonitorType) : Bool :=
  type == .http || type == .tcp || type == .dns

theorem serverRun_eq (type : MonitorType) (c : Config) :
    serverRun type c = (type == .snmp || ((type == .ping || type == .storage) && c.serverSide)) :=
  rfl

namespace Store

def listEnabledPingMonitors (db : Store) : List Monitor :=
  db.monitors.filter (fun m => m.type == .ping && m.enabled)

def listEnabledSnmpMonitors (db : Store) : List Monitor :=
  db.monitors.filter (fun m => m.type == .snmp && m.enabled)

def listEnabledChecks (db : Store) : List Monitor :=
  db.monitors.filter (fun m => m.type.synthetic && m.enabled)

def listEnabledServerStorageMonitors (db : Store) : List Monitor :=
  (db.monitors.filter (fun m => m.type == .storage && m.enabled)).filter
    (fun m => m.config.serverSide)

end Store

/-- The worklist `refresh` makes of its two reads. -/
def refreshedWorklist (pings checks : List Monitor) : List Monitor :=
  pings.filter (fun m => m.config.serverSide) ++ checks

/-- `FromMonitor` of the agent: what the collectors see, by type.  The host is up, as the agent
    runs on it; a type without a collector is `UNKNOWN`. -/
def fromMonitor (observe : AgentMonitorConfig → HealthStatus) (m : AgentMonitorConfig) :
    HealthStatus :=
  match m.type with
  | .process | .service | .ping | .database | .storage => observe m
  | .host => .up
  | _ => .unknown

/-! ### Parties -/

inductive Scheduler
  /-- Of pings and synthetic checks. -/
  | checks
  | snmp
  | storage
  /-- A folder scan, of the storage scheduler or of an operator. -/
  | scan
deriving DecidableEq, Repr

inductive Party
  | agent (id : String)
  | server (scheduler : Scheduler)
deriving DecidableEq, Repr

/-- The rows a party reads. -/
def Party.takes (m : Monitor) : Party → Bool
  | .agent id => m.enabled && id == m.agentId && !serverRun m.type m.config
  | .server .checks => m.enabled && (m.type == .ping && m.config.serverSide || m.type.synthetic)
  | .server .snmp => m.enabled && m.type == .snmp
  | .server .storage => m.enabled && m.type == .storage && m.config.serverSide
  -- a scan reads its monitor by id and asks for the type alone
  | .server .scan => m.type == .storage

/-- The party a row is meant for. -/
def owner (m : Monitor) : Party :=
  match m.type with
  | .snmp => .server .snmp
  | .http | .tcp | .dns => .server .checks
  | .ping => if m.config.serverSide then .server .checks else .agent m.agentId
  | .storage => if m.config.serverSide then .server .storage else .agent m.agentId
  | .service | .process | .host | .database => .agent m.agentId

/-- A row is read by its owner and, if it is a synthetic check, by its agent too. -/
theorem takes_iff (m : Monitor) (p : Party) :
    p.takes m = true ↔
      m.enabled = true ∧ (p = owner m ∨ m.type.synthetic = true ∧ p = .agent m.agentId) ∨
        p = .server .scan ∧ m.type = .storage := by
  unfold Party.takes owner MonitorType.synthetic
  rw [serverRun_eq]
  rcases p with agent | _ | _ | _ | _ <;> cases m.type <;> cases m.config.serverSide <;> simp

/-! ### The parties at work -/

/-- A monitor that a scheduler has taken and has not reported on. -/
structure Task where
  scheduler : Scheduler
  monitor : Monitor

structure Report where
  party : Party
  monitorId : String
  sourceId : String
  entity : String
  status : HealthStatus
deriving DecidableEq, Repr

/-- A call of `refresh`, by what it has read. -/
structure Refresh where
  pings : Option (List Monitor) := none
  checks : Option (List Monitor) := none

structure Dispatch where
  db : Store
  /-- The answers to pulls that are on their way to an agent. -/
  answers : String → Option (List AgentMonitorConfig)
  /-- The monitors of an agent, as it pulled them last. -/
  caches : String → List AgentMonitorConfig
  refreshes : ℕ → Refresh
  worklist : List Monitor
  /-- The calls of `runScan` that have not read their monitor. -/
  asked : List String
  tasks : List Task
  reports : List Report

def Dispatch.start (db : Store) : Dispatch where
  db := db
  answers _ := none
  caches _ := []
  refreshes _ := {}
  worklist := []
  asked := []
  tasks := []
  reports := []

inductive Event
  /-- The operators leave other rows. -/
  | edit (db : Store)
  /-- The backend reads the list of an agent, and the credentials it puts in. -/
  | answer (agent : String) (creds : AgentMonitorConfig → Config)
  /-- `refreshConfig` of an agent, answered. -/
  | pulled (agent : String)
  /-- `collectUnits` of an agent. -/
  | tick (agent : String) (observe : AgentMonitorConfig → HealthStatus)
  | readPings (i : ℕ)
  | readChecks (i : ℕ)
  | refreshed (i : ℕ)
  /-- A monitor of the worklist is due. -/
  | probe (i : ℕ)
  | sweepSnmp
  | sweepStorage
  /-- `runScan` is called. -/
  | scan (id : String)
  /-- A call of `runScan` reads its monitor. -/
  | readScan (i : ℕ)
  /-- The end of a task, with a report or without. -/
  | finish (i : ℕ) (status : Option HealthStatus)

/-- What a server-side party reports. -/
def Task.report (t : Task) (status : HealthStatus) : Report :=
  ⟨.server t.scheduler, t.monitor.id, t.monitor.agentId, t.monitor.name, status⟩

namespace Dispatch

/-- `collectUnits`: a report on every cached monitor. -/
def collectUnits (w : Dispatch) (agent : String) (observe : AgentMonitorConfig → HealthStatus) :
    List Report :=
  (w.caches agent).map fun m => ⟨.agent agent, m.id, agent, m.name, fromMonitor observe m⟩

/-- Whether a sweep goes on: the next one waits for its end. -/
def sweeping (w : Dispatch) (s : Scheduler) : Bool := w.tasks.any (fun t => t.scheduler == s)

/-- Whether `runScan` is called: by the route for a storage monitor that the server runs, or by
    the scheduler for a monitor it is at. -/
def scans (w : Dispatch) (id : String) : Bool :=
  (w.db.getMonitor id).any (fun m => m.type == .storage && m.config.serverSide) ||
    w.tasks.any (fun t => t.scheduler == .storage && t.monitor.id == id)

/-- Whether a scan of the monitor goes on; a call joins it. -/
def scanning (w : Dispatch) (id : String) : Bool :=
  w.asked.contains id || w.tasks.any (fun t => t.scheduler == .scan && t.monitor.id == id)

def step (w : Dispatch) : Event → Option Dispatch
  | .edit db => some { w with db }
  | .answer agent creds =>
    some { w with
      answers := Function.update w.answers agent
        (some ((w.db.listAgentMonitorConfig agent).map fun m => { m with config := creds m })) }
  | .pulled agent =>
    (w.answers agent).map fun monitors =>
      { w with
        answers := Function.update w.answers agent none
        caches := Function.update w.caches agent monitors }
  | .tick agent observe => some { w with reports := w.reports ++ w.collectUnits agent observe }
  | .readPings i =>
    some { w with
      refreshes := Function.update w.refreshes i
        { w.refreshes i with pings := some w.db.listEnabledPingMonitors } }
  | .readChecks i =>
    some { w with
      refreshes := Function.update w.refreshes i
        { w.refreshes i with checks := some w.db.listEnabledChecks } }
  | .refreshed i =>
    match w.refreshes i with
    | ⟨some pings, some checks⟩ =>
      some { w with
        refreshes := Function.update w.refreshes i {}
        worklist := refreshedWorklist pings checks }
    | _ => none
  | .probe i => (w.worklist[i]?).map fun m => { w with tasks := w.tasks ++ [⟨.checks, m⟩] }
  | .sweepSnmp =>
    if w.sweeping .snmp then none
    else some { w with tasks := w.tasks ++ w.db.listEnabledSnmpMonitors.map (⟨.snmp, ·⟩) }
  | .sweepStorage =>
    if w.sweeping .storage then none
    else some { w with
      tasks := w.tasks ++ w.db.listEnabledServerStorageMonitors.map (⟨.storage, ·⟩) }
  | .scan id =>
    if w.scans id && !w.scanning id then some { w with asked := w.asked ++ [id] } else none
  | .readScan i =>
    (w.asked[i]?).map fun id =>
      let w' : Dispatch := { w with asked := w.asked.eraseIdx i }
      match w.db.getMonitor id with
      | none => w'
      | some m => if m.type = .storage then { w' with tasks := w.tasks ++ [⟨.scan, m⟩] } else w'
  | .finish i status =>
    (w.tasks[i]?).map fun t =>
      { w with
        tasks := w.tasks.eraseIdx i
        reports := w.reports ++ status.toList.map t.report }

end Dispatch

def dispatch : Machine Dispatch Event where
  step := Dispatch.step

/-! ### What a party holds -/

/-- What is known to come from certain stores, besides what is being read. -/
structure Known where
  agents : String → Prop
  worklist : Prop
  probes : Prop

namespace Known

def all : Known := ⟨fun _ => True, True, True⟩

def nothing : Known := ⟨fun _ => False, False, False⟩

/-- A pull and a refresh replace what was held before. -/
def learn (k : Known) : Event → Known
  | .pulled agent => { k with agents := fun a => a = agent ∨ k.agents a }
  | .refreshed _ => { k with worklist := True }
  | _ => k

theorem learn_agents (k : Known) (l : Event) (a : String) :
    (k.learn l).agents a ↔ l = .pulled a ∨ k.agents a := by
  cases l <;> simp [learn, eq_comm]

theorem learn_worklist (k : Known) (l : Event) :
    (k.learn l).worklist ↔ (∃ i, l = .refreshed i) ∨ k.worklist := by
  cases l <;> simp [learn]

theorem learn_probes (k : Known) (l : Event) : (k.learn l).probes = k.probes := by
  cases l <;> rfl

theorem foldl_agents (k : Known) (ls : List Event) (a : String) :
    (ls.foldl learn k).agents a ↔ .pulled a ∈ ls ∨ k.agents a := by
  induction ls generalizing k with
  | nil => simp
  | cons l ls ih => rw [List.foldl_cons, ih, learn_agents, List.mem_cons, eq_comm]; tauto

theorem foldl_worklist (k : Known) (ls : List Event) :
    (ls.foldl learn k).worklist ↔ (∃ i, .refreshed i ∈ ls) ∨ k.worklist := by
  induction ls generalizing k with
  | nil => simp
  | cons l ls ih =>
    rw [List.foldl_cons, ih, learn_worklist]
    simp only [List.mem_cons, exists_or, eq_comm (a := l)]
    tauto

end Known

/-- A row that a party reads in one of the stores. -/
def Read (S : Store → Prop) (p : Party) (m : Monitor) : Prop :=
  ∃ db, S db ∧ m ∈ db.monitors ∧ p.takes m = true

/-- The list of an agent, but for the configurations, into which credentials are put. -/
def ListOf (db : Store) (agent : String) (monitors : List AgentMonitorConfig) : Prop :=
  ∃ creds : AgentMonitorConfig → Config,
    monitors = (db.listAgentMonitorConfig agent).map fun m => { m with config := creds m }

def FromPings (S : Store → Prop) (r : Refresh) : Prop :=
  ∀ ms, r.pings = some ms → ∃ db, S db ∧ ms = db.listEnabledPingMonitors

def FromChecks (S : Store → Prop) (r : Refresh) : Prop :=
  ∀ ms, r.checks = some ms → ∃ db, S db ∧ ms = db.listEnabledChecks

/-- What is held was read from one of the stores, where it is known. -/
structure Within (S : Store → Prop) (k : Known) (w : Dispatch) : Prop where
  db : S w.db
  answers : ∀ agent monitors, w.answers agent = some monitors →
    ∃ db, S db ∧ ListOf db agent monitors
  caches : ∀ agent, k.agents agent → ∃ db, S db ∧ ListOf db agent (w.caches agent)
  pings : ∀ i, FromPings S (w.refreshes i)
  checks : ∀ i, FromChecks S (w.refreshes i)
  worklist : k.worklist → ∃ db db', S db ∧ S db' ∧
    w.worklist = refreshedWorklist db.listEnabledPingMonitors db'.listEnabledChecks
  tasks : ∀ t ∈ w.tasks, (t.scheduler = .checks → k.probes) →
    Read S (.server t.scheduler) t.monitor

theorem read_of_mem_worklist {S : Store → Prop} {db db' : Store} (hS : S db) (hS' : S db')
    {m : Monitor}
    (hm : m ∈ refreshedWorklist db.listEnabledPingMonitors db'.listEnabledChecks) :
    Read S (.server .checks) m := by
  rcases List.mem_append.mp hm with hping | hcheck
  · obtain ⟨hlist, hserver⟩ := List.mem_filter.mp hping
    obtain ⟨hrow, htype⟩ := List.mem_filter.mp hlist
    refine ⟨db, hS, hrow, ?_⟩
    simp only [Bool.and_eq_true] at htype
    simp only [Party.takes, htype.1, htype.2, hserver, Bool.and_true, Bool.true_or]
  · obtain ⟨hrow, htype⟩ := List.mem_filter.mp hcheck
    refine ⟨db', hS', hrow, ?_⟩
    simp only [Bool.and_eq_true] at htype
    simp only [Party.takes, htype.1, htype.2, Bool.or_true, Bool.and_true]

theorem read_of_mem_list {S : Store → Prop} {db : Store} (hS : S db) {agent : String}
    {monitors : List AgentMonitorConfig} (hlist : ListOf db agent monitors)
    {c : AgentMonitorConfig} (hc : c ∈ monitors) :
    ∃ m, Read S (.agent agent) m ∧ m.agentId = agent ∧ c.id = m.id ∧ c.type = m.type ∧
      c.name = m.name := by
  obtain ⟨creds, rfl⟩ := hlist
  obtain ⟨c', hc', rfl⟩ := List.mem_map.mp hc
  obtain ⟨m, hm, rfl⟩ := List.mem_map.mp hc'
  obtain ⟨hrow, htakes⟩ := List.mem_filter.mp hm
  simp only [Bool.and_eq_true, beq_iff_eq] at htakes
  obtain ⟨⟨hagent, henabled⟩, hrun⟩ := htakes
  refine ⟨m, ⟨db, hS, hrow, ?_⟩, hagent, rfl, rfl, rfl⟩
  simp only [Party.takes, henabled, hagent, hrun, beq_self_eq_true, Bool.and_true]

section Runs

variable {S : Store → Prop} {k : Known} {w w' : Dispatch}

/-- Only an edit changes the rows, and only a tick and the end of a task report. -/
theorem step_cases {l : Event} (hstep : w.step l = some w') :
    (l = .edit w'.db ∧ w'.reports = w.reports) ∨
      (w'.db = w.db ∧ w'.reports = w.reports) ∨
      (w'.db = w.db ∧ ∃ agent observe, w'.reports = w.reports ++ w.collectUnits agent observe) ∨
      (w'.db = w.db ∧ ∃ t ∈ w.tasks, ∃ status : Option HealthStatus,
        w'.reports = w.reports ++ status.toList.map t.report) := by
  cases l with
  | edit db =>
    obtain rfl := Option.some.inj hstep
    exact .inl ⟨rfl, rfl⟩
  | tick agent observe =>
    obtain rfl := Option.some.inj hstep
    exact .inr (.inr (.inl ⟨rfl, agent, observe, rfl⟩))
  | finish i status =>
    obtain ⟨t, ht, rfl⟩ := Option.map_eq_some_iff.mp hstep
    exact .inr (.inr (.inr ⟨rfl, t, List.mem_of_getElem? ht, status, rfl⟩))
  | answer agent creds =>
    obtain rfl := Option.some.inj hstep
    exact .inr (.inl ⟨rfl, rfl⟩)
  | pulled agent =>
    obtain ⟨monitors, -, rfl⟩ := Option.map_eq_some_iff.mp hstep
    exact .inr (.inl ⟨rfl, rfl⟩)
  | readPings i =>
    obtain rfl := Option.some.inj hstep
    exact .inr (.inl ⟨rfl, rfl⟩)
  | readChecks i =>
    obtain rfl := Option.some.inj hstep
    exact .inr (.inl ⟨rfl, rfl⟩)
  | refreshed i =>
    simp only [Dispatch.step] at hstep
    split at hstep
    · obtain rfl := Option.some.inj hstep
      exact .inr (.inl ⟨rfl, rfl⟩)
    · cases hstep
  | probe i =>
    obtain ⟨m, -, rfl⟩ := Option.map_eq_some_iff.mp hstep
    exact .inr (.inl ⟨rfl, rfl⟩)
  | sweepSnmp =>
    obtain ⟨-, hw⟩ := Option.ite_none_left_eq_some.mp hstep
    obtain rfl := Option.some.inj hw
    exact .inr (.inl ⟨rfl, rfl⟩)
  | sweepStorage =>
    obtain ⟨-, hw⟩ := Option.ite_none_left_eq_some.mp hstep
    obtain rfl := Option.some.inj hw
    exact .inr (.inl ⟨rfl, rfl⟩)
  | scan id =>
    obtain ⟨-, hw⟩ := Option.ite_none_right_eq_some.mp hstep
    obtain rfl := Option.some.inj hw
    exact .inr (.inl ⟨rfl, rfl⟩)
  | readScan i =>
    obtain ⟨id, -, rfl⟩ := Option.map_eq_some_iff.mp hstep
    cases hget : w.db.getMonitor id with
    | none => exact .inr (.inl ⟨rfl, rfl⟩)
    | some m =>
      dsimp only
      split
      · exact .inr (.inl ⟨rfl, rfl⟩)
      · exact .inr (.inl ⟨rfl, rfl⟩)

/-- **Step lemma.**  A step keeps the invariant, and a pull or a refresh adds to it. -/
theorem Within.step {l : Event} (h : Within S k w) (hk : k.probes → k.worklist)
    (hstep : w.step l = some w') (hS : S w'.db) : Within S (k.learn l) w' := by
  cases l with
  | edit db =>
    obtain rfl := Option.some.inj hstep
    exact ⟨hS, h.answers, h.caches, h.pings, h.checks, h.worklist, h.tasks⟩
  | answer agent creds =>
    obtain rfl := Option.some.inj hstep
    refine ⟨h.db, ?_, h.caches, h.pings, h.checks, h.worklist, h.tasks⟩
    intro a monitors ha
    by_cases hagent : a = agent
    · subst hagent
      obtain rfl := Option.some.inj ((Function.update_self a _ w.answers).symm.trans ha)
      exact ⟨w.db, h.db, creds, rfl⟩
    · exact h.answers a monitors ((Function.update_of_ne hagent _ _).symm.trans ha)
  | pulled agent =>
    obtain ⟨monitors, hanswer, rfl⟩ := Option.map_eq_some_iff.mp hstep
    refine ⟨h.db, ?_, ?_, h.pings, h.checks, h.worklist, h.tasks⟩
    · intro a l ha
      by_cases hagent : a = agent
      · subst hagent
        exact absurd ((Function.update_self a _ w.answers).symm.trans ha) (by simp)
      · exact h.answers a l ((Function.update_of_ne hagent _ _).symm.trans ha)
    · intro a ha
      show ∃ db, S db ∧ ListOf db a (Function.update w.caches agent monitors a)
      by_cases hagent : a = agent
      · subst hagent
        rw [Function.update_self]
        exact h.answers a monitors hanswer
      · rw [Function.update_of_ne hagent]
        exact h.caches a (ha.resolve_left hagent)
  | tick agent observe =>
    obtain rfl := Option.some.inj hstep
    exact ⟨h.db, h.answers, h.caches, h.pings, h.checks, h.worklist, h.tasks⟩
  | readPings i =>
    obtain rfl := Option.some.inj hstep
    refine ⟨h.db, h.answers, h.caches, ?_, ?_, h.worklist, h.tasks⟩
    · refine Interleaving.forall_update (P := FromPings S) ?_ (fun j _ => h.pings j)
      exact fun ms hms => ⟨w.db, h.db, (Option.some.inj hms).symm⟩
    · exact Interleaving.forall_update (P := FromChecks S) (h.checks i) (fun j _ => h.checks j)
  | readChecks i =>
    obtain rfl := Option.some.inj hstep
    refine ⟨h.db, h.answers, h.caches, ?_, ?_, h.worklist, h.tasks⟩
    · exact Interleaving.forall_update (P := FromPings S) (h.pings i) (fun j _ => h.pings j)
    · refine Interleaving.forall_update (P := FromChecks S) ?_ (fun j _ => h.checks j)
      exact fun ms hms => ⟨w.db, h.db, (Option.some.inj hms).symm⟩
  | refreshed i =>
    simp only [Dispatch.step] at hstep
    split at hstep
    · next pings checks hi =>
      obtain rfl := Option.some.inj hstep
      obtain ⟨db, hdb, rfl⟩ := h.pings i pings (by rw [hi])
      obtain ⟨db', hdb', rfl⟩ := h.checks i checks (by rw [hi])
      refine ⟨h.db, h.answers, h.caches, ?_, ?_, fun _ => ⟨db, db', hdb, hdb', rfl⟩, h.tasks⟩
      · exact Interleaving.forall_update (P := FromPings S) (fun _ hms => nomatch hms)
          (fun j _ => h.pings j)
      · exact Interleaving.forall_update (P := FromChecks S) (fun _ hms => nomatch hms)
          (fun j _ => h.checks j)
    · cases hstep
  | probe i =>
    obtain ⟨m, hm, rfl⟩ := Option.map_eq_some_iff.mp hstep
    refine ⟨h.db, h.answers, h.caches, h.pings, h.checks, h.worklist, ?_⟩
    intro t ht hprobes
    rcases List.mem_append.mp ht with hold | hnew
    · exact h.tasks t hold hprobes
    · obtain rfl := List.mem_singleton.mp hnew
      obtain ⟨db, db', hdb, hdb', hlist⟩ := h.worklist (hk (hprobes rfl))
      exact read_of_mem_worklist hdb hdb' (hlist ▸ List.mem_of_getElem? hm)
  | sweepSnmp =>
    obtain ⟨-, hw⟩ := Option.ite_none_left_eq_some.mp hstep
    obtain rfl := Option.some.inj hw
    refine ⟨h.db, h.answers, h.caches, h.pings, h.checks, h.worklist, ?_⟩
    intro t ht hprobes
    rcases List.mem_append.mp ht with hold | hnew
    · exact h.tasks t hold hprobes
    · obtain ⟨m, hm, rfl⟩ := List.mem_map.mp hnew
      obtain ⟨hrow, htype⟩ := List.mem_filter.mp hm
      simp only [Bool.and_eq_true] at htype
      refine ⟨w.db, h.db, hrow, ?_⟩
      simp only [Party.takes, htype.1, htype.2, Bool.and_true]
  | sweepStorage =>
    obtain ⟨-, hw⟩ := Option.ite_none_left_eq_some.mp hstep
    obtain rfl := Option.some.inj hw
    refine ⟨h.db, h.answers, h.caches, h.pings, h.checks, h.worklist, ?_⟩
    intro t ht hprobes
    rcases List.mem_append.mp ht with hold | hnew
    · exact h.tasks t hold hprobes
    · obtain ⟨m, hm, rfl⟩ := List.mem_map.mp hnew
      obtain ⟨hlist, hserver⟩ := List.mem_filter.mp hm
      obtain ⟨hrow, htype⟩ := List.mem_filter.mp hlist
      simp only [Bool.and_eq_true] at htype
      refine ⟨w.db, h.db, hrow, ?_⟩
      simp only [Party.takes, htype.1, htype.2, hserver, Bool.and_true]
  | scan id =>
    obtain ⟨-, hw⟩ := Option.ite_none_right_eq_some.mp hstep
    obtain rfl := Option.some.inj hw
    exact ⟨h.db, h.answers, h.caches, h.pings, h.checks, h.worklist, h.tasks⟩
  | readScan i =>
    obtain ⟨id, -, rfl⟩ := Option.map_eq_some_iff.mp hstep
    cases hget : w.db.getMonitor id with
    | none =>
      exact ⟨h.db, h.answers, h.caches, h.pings, h.checks, h.worklist, h.tasks⟩
    | some m =>
      dsimp only
      split
      · next htype =>
        refine ⟨h.db, h.answers, h.caches, h.pings, h.checks, h.worklist, ?_⟩
        intro t ht hprobes
        rcases List.mem_append.mp ht with hold | hnew
        · exact h.tasks t hold hprobes
        · obtain rfl := List.mem_singleton.mp hnew
          refine ⟨w.db, h.db, (Table.lookup_some hget).1, ?_⟩
          simp only [Party.takes, htype, beq_self_eq_true]
      · exact ⟨h.db, h.answers, h.caches, h.pings, h.checks, h.worklist, h.tasks⟩
  | finish i status =>
    obtain ⟨t, -, rfl⟩ := Option.map_eq_some_iff.mp hstep
    refine ⟨h.db, h.answers, h.caches, h.pings, h.checks, h.worklist, ?_⟩
    exact fun t ht hprobes => h.tasks t (List.mem_of_mem_eraseIdx ht) hprobes

theorem Within.db_of_step {l : Event} (h : Within S k w) (hstep : w.step l = some w')
    (hedit : ∀ db, l = .edit db → S db) : S w'.db := by
  rcases step_cases hstep with ⟨hl, -⟩ | ⟨hdb, -⟩ | ⟨hdb, -⟩ | ⟨hdb, -⟩
  · exact hedit _ hl
  all_goals exact hdb ▸ h.db

/-- **Run lemma.**  Edits to one of the stores keep the invariant through a run. -/
theorem Within.run {ls : List Event} (h : Within S k w) (hk : k.probes → k.worklist)
    (hrun : dispatch.exec w ls = some w') (hedits : ∀ db, .edit db ∈ ls → S db) :
    Within S (ls.foldl Known.learn k) w' := by
  induction ls generalizing k w with
  | nil =>
    obtain rfl : w = w' := by simpa using hrun
    exact h
  | cons l ls ih =>
    obtain ⟨u, hu, hrest⟩ := dispatch.exec_cons_eq_some.mp hrun
    have hS : S u.db := h.db_of_step hu (fun db hdb => hedits db (hdb ▸ List.mem_cons_self))
    refine ih (h.step hk hu hS) ?_ hrest (fun db hdb => hedits db (List.mem_cons_of_mem l hdb))
    rw [Known.learn_probes, Known.learn_worklist]
    exact fun hprobes => .inr (hk hprobes)

/-! ### Reports -/

/-- A report on a row that its party read in one of the stores; the status of a synthetic check
    is not known to an agent. -/
def Traced (S : Store → Prop) (r : Report) : Prop :=
  ∃ m, Read S r.party m ∧ r.monitorId = m.id ∧ r.sourceId = m.agentId ∧ r.entity = m.name ∧
    ∀ agent, r.party = .agent agent → m.type.synthetic = true → r.status = .unknown

theorem fromMonitor_synthetic {observe : AgentMonitorConfig → HealthStatus}
    {c : AgentMonitorConfig} (h : c.type.synthetic = true) : fromMonitor observe c = .unknown := by
  unfold fromMonitor
  cases htype : c.type <;> rw [htype] at h <;> first | rfl | exact absurd h (by decide)

/-- **Step lemma.**  The reports of a step are about rows that were read. -/
theorem Within.report {l : Event} (h : Within S k w) (hagents : ∀ agent, k.agents agent)
    (hprobes : k.probes) (hstep : w.step l = some w') :
    ∃ new, w'.reports = w.reports ++ new ∧ ∀ r ∈ new, Traced S r := by
  have hsame : w'.reports = w.reports →
      ∃ new, w'.reports = w.reports ++ new ∧ ∀ r ∈ new, Traced S r := by
    intro heq
    exact ⟨[], by rw [heq, List.append_nil], fun r hr => absurd hr List.not_mem_nil⟩
  rcases step_cases hstep with ⟨-, heq⟩ | ⟨-, heq⟩ | ⟨-, agent, observe, heq⟩ |
    ⟨-, t, ht, status, heq⟩
  · exact hsame heq
  · exact hsame heq
  · refine ⟨_, heq, ?_⟩
    intro r hr
    obtain ⟨c, hc, rfl⟩ := List.mem_map.mp hr
    obtain ⟨db, hdb, hlist⟩ := h.caches agent (hagents agent)
    obtain ⟨m, hread, hagent, hid, htype, hname⟩ := read_of_mem_list hdb hlist hc
    refine ⟨m, hread, hid, hagent.symm, hname, fun _ _ hsynthetic => ?_⟩
    exact fromMonitor_synthetic (htype ▸ hsynthetic)
  · refine ⟨_, heq, ?_⟩
    intro r hr
    obtain ⟨s, -, rfl⟩ := List.mem_map.mp hr
    exact ⟨t.monitor, h.tasks t ht (fun _ => hprobes), rfl, rfl, rfl,
      fun _ hagent => nomatch hagent⟩

theorem Within.reports {ls : List Event} (h : Within S k w) (hagents : ∀ agent, k.agents agent)
    (hworklist : k.worklist) (hprobes : k.probes) (hrun : dispatch.exec w ls = some w')
    (hedits : ∀ db, .edit db ∈ ls → S db) :
    ∃ new, w'.reports = w.reports ++ new ∧ ∀ r ∈ new, Traced S r := by
  induction ls generalizing k w with
  | nil =>
    obtain rfl : w = w' := by simpa using hrun
    exact ⟨[], (List.append_nil _).symm, fun r hr => absurd hr List.not_mem_nil⟩
  | cons l ls ih =>
    obtain ⟨u, hu, hrest⟩ := dispatch.exec_cons_eq_some.mp hrun
    obtain ⟨first, hfirst, htraced⟩ := h.report hagents hprobes hu
    have hS : S u.db := h.db_of_step hu (fun db hdb => hedits db (hdb ▸ List.mem_cons_self))
    obtain ⟨rest, hnew, htraced'⟩ := ih (h.step (fun _ => hworklist) hu hS)
      (fun a => (Known.learn_agents k l a).mpr (.inr (hagents a)))
      ((Known.learn_worklist k l).mpr (.inr hworklist))
      (by rw [Known.learn_probes]; exact hprobes) hrest
      (fun db hdb => hedits db (List.mem_cons_of_mem l hdb))
    refine ⟨first ++ rest, ?_, ?_⟩
    · rw [hnew, hfirst, List.append_assoc]
    · intro r hr
      rcases List.mem_append.mp hr with hr | hr
      · exact htraced r hr
      · exact htraced' r hr

end Runs

/-- **Provenance.**  In every run, whatever the operators do meanwhile, a report is about a row
    that was there, and its party was one that reads such a row. -/
theorem reports_traced {db : Store} {ls : List Event} {w : Dispatch}
    (hrun : dispatch.exec (.start db) ls = some w) :
    ∀ r ∈ w.reports, Traced (fun d => d = db ∨ .edit d ∈ ls) r := by
  -- what is held at the start is what an empty store would have given
  have hstart : Within (fun d => d = ⟨[], [], []⟩ ∨ d = db ∨ .edit d ∈ ls) .all (.start db) := by
    refine ⟨.inr (.inl rfl), (fun _ _ h => nomatch h), ?_, (fun _ _ h => nomatch h),
      (fun _ _ h => nomatch h), ?_, fun t ht => absurd ht List.not_mem_nil⟩
    · exact fun _ _ => ⟨_, .inl rfl, AgentMonitorConfig.config, rfl⟩
    · exact fun _ => ⟨_, _, .inl rfl, .inl rfl, rfl⟩
  obtain ⟨new, hnew, htraced⟩ := hstart.reports (fun _ => trivial) trivial trivial hrun
    (fun d hd => .inr (.inr hd))
  intro r hr
  rw [hnew] at hr
  obtain ⟨m, ⟨d, hd, hrow, htakes⟩, hreport⟩ := htraced r hr
  refine ⟨m, ⟨d, hd.resolve_left ?_, hrow, htakes⟩, hreport⟩
  rintro rfl
  exact absurd hrow List.not_mem_nil

/-! ### After the edits -/

/-- Nothing is being read and nothing is being worked on. -/
structure Dispatch.Idle (w : Dispatch) : Prop where
  answers : ∀ agent, w.answers agent = none
  refreshes : ∀ i, w.refreshes i = {}
  tasks : w.tasks = []

/-- From an idle state on, what is read comes from the rows as they are. -/
theorem Dispatch.Idle.within {w : Dispatch} (h : w.Idle) {S : Store → Prop} (hS : S w.db)
    {k : Known} (hcaches : ∀ agent, k.agents agent → ∃ db, S db ∧ ListOf db agent (w.caches agent))
    (hworklist : ¬ k.worklist) : Within S k w where
  db := hS
  answers agent monitors ha := absurd ((h.answers agent).symm.trans ha) (by simp)
  caches := hcaches
  pings i ms hms := by
    rw [h.refreshes i] at hms
    cases hms
  checks i ms hms := by
    rw [h.refreshes i] at hms
    cases hms
  worklist hk := absurd hk hworklist
  tasks t ht := by
    rw [h.tasks] at ht
    exact absurd ht List.not_mem_nil

/-- Whether a party has the row before it, or will have at its next sweep. -/
def Dispatch.Holds (w : Dispatch) (m : Monitor) : Party → Prop
  | .agent agent => ∃ c ∈ w.caches agent, c.id = m.id ∧ c.type = m.type ∧ c.name = m.name
  | .server .checks => m ∈ w.worklist
  | .server .snmp => m ∈ w.db.listEnabledSnmpMonitors
  | .server .storage => m ∈ w.db.listEnabledServerStorageMonitors
  | .server .scan => False

/-- The owner of an enabled row holds it. -/
theorem Within.holds {db : Store} {k : Known} {w : Dispatch} (h : Within (· = db) k w)
    (hworklist : k.worklist) {m : Monitor} (hm : m ∈ db.monitors) (henabled : m.enabled = true)
    (hagent : ∀ agent, owner m = .agent agent → k.agents agent) : w.Holds m (owner m) := by
  have htakes : (owner m).takes m = true := (takes_iff m _).mpr (.inl ⟨henabled, .inl rfl⟩)
  have hdb : w.db = db := h.db
  cases hp : owner m with
  | agent agent =>
    rw [hp] at htakes
    simp only [Party.takes, Bool.and_eq_true, beq_iff_eq] at htakes
    obtain ⟨_, rfl, creds, hlist⟩ := h.caches agent (hagent agent hp)
    show ∃ c ∈ w.caches agent, _
    rw [hlist]
    refine ⟨_, List.mem_map_of_mem (List.mem_map_of_mem (List.mem_filter.mpr ⟨hm, ?_⟩)), rfl,
      rfl, rfl⟩
    simp only [htakes.1.2, henabled, htakes.2, beq_self_eq_true, Bool.and_true]
  | server s =>
    rw [hp] at htakes
    cases s with
    | checks =>
      obtain ⟨_, _, rfl, rfl, hlist⟩ := h.worklist hworklist
      show m ∈ w.worklist
      rw [hlist, refreshedWorklist, List.mem_append]
      simp only [Party.takes, Bool.and_eq_true, Bool.or_eq_true] at htakes
      rcases htakes.2 with ⟨htype, hserver⟩ | htype
      · exact .inl
          (List.mem_filter.mpr ⟨List.mem_filter.mpr ⟨hm, by rw [htype, henabled]; rfl⟩, hserver⟩)
      · exact .inr (List.mem_filter.mpr ⟨hm, by rw [htype, henabled]; rfl⟩)
    | snmp =>
      simp only [Party.takes, Bool.and_eq_true] at htakes
      show m ∈ w.db.listEnabledSnmpMonitors
      rw [hdb]
      exact List.mem_filter.mpr ⟨hm, by rw [htakes.1, htakes.2]; rfl⟩
    | storage =>
      simp only [Party.takes, Bool.and_eq_true] at htakes
      show m ∈ w.db.listEnabledServerStorageMonitors
      rw [hdb]
      exact List.mem_filter.mpr
        ⟨List.mem_filter.mpr ⟨hm, by rw [htakes.1.1, htakes.1.2]; rfl⟩, htakes.2⟩
    | scan =>
      unfold owner at hp
      split at hp <;> (try split at hp) <;> simp at hp

namespace Sample

/-- A check of a web page, on the host of an agent. -/
def webCheck : Monitor where
  id := "m1"
  agentId := "a1"
  type := .http
  name := "Web"
  enabled := true
  config := Config.empty.set "url" (.str "http://a1")
  createdAt := ""
  updatedAt := ""

def webStore : Store := ⟨["a1"], [webCheck], []⟩

/-- The agent pulls and the scheduler refreshes. -/
def reading : List Event :=
  [.answer "a1" AgentMonitorConfig.config, .pulled "a1", .readPings 0, .readChecks 0, .refreshed 0]

/-- Both report. -/
def reporting : List Event := [.probe 0, .finish 0 (some .up), .tick "a1" (fun _ => .up)]

end Sample

open Sample in
theorem reports_traced_web :
    ∃ w, dispatch.exec (.start webStore) (reading ++ reporting) = some w ∧
      w.reports = [⟨.server .checks, "m1", "a1", "Web", .up⟩,
        ⟨.agent "a1", "m1", "a1", "Web", .unknown⟩] ∧
      ∀ r ∈ w.reports, Traced (fun d => d = webStore ∨ .edit d ∈ reading ++ reporting) r :=
  ⟨_, rfl, rfl, reports_traced rfl⟩

/-- **A check that both report on.**  Let two parties report on an entity in turn, one finding it
    up and the other one not knowing.  Every report is then recorded as a change. -/
theorem check_flaps (sourceId e : String) {calls : List (Pipeline.Call × Pipeline.Call)}
    (hcalls : ∀ c ∈ calls, c.1.reports sourceId e = [.up] ∧ c.2.reports sourceId e = [.unknown])
    {db : Pipeline.TelemetryDb} (hwf : db.WF) (hstatus : db.status sourceId e ≠ some .up) :
    (((calls.flatMap fun c => [c.1, c.2]).foldl Pipeline.processUnits db).changes sourceId e).length
      = (db.changes sourceId e).length + 2 * calls.length := by
  induction calls generalizing db with
  | nil => rfl
  | cons c calls ih =>
    obtain ⟨hup, hunknown⟩ := hcalls c List.mem_cons_self
    obtain ⟨hchanges, hlatest⟩ := Pipeline.changes_processUnits hwf sourceId e c.1
    obtain ⟨hchanges', hlatest'⟩ :=
      Pipeline.changes_processUnits (hwf.processUnits c.1) sourceId e c.2
    rw [hup] at hchanges hlatest
    rw [hunknown] at hchanges' hlatest'
    have hmid : (Pipeline.processUnits db c.1).status sourceId e = some .up := hlatest
    have hend : (Pipeline.processUnits (Pipeline.processUnits db c.1) c.2).status sourceId e
        = some .unknown := hlatest'
    show ((List.foldl _ (Pipeline.processUnits (Pipeline.processUnits db c.1) c.2)
      (calls.flatMap fun c => [c.1, c.2])).changes sourceId e).length = _
    rw [ih (fun c hc => hcalls c (List.mem_cons_of_mem _ hc))
      ((hwf.processUnits c.1).processUnits c.2)
      (by rw [hend]; simp)]
    rw [hchanges', hmid, hchanges, ChangeLog.diffLog_cons_ne hstatus,
      ChangeLog.diffLog_cons_ne (by simp)]
    simp only [ChangeLog.diffLog_nil, List.length_append, List.length_cons, List.length_nil]
    omega

/-- A minute of the check above. -/
theorem check_flaps_web :
    ((([(⟨"a1", [{ entity := "Web", status := .up }], 0⟩,
        ⟨"a1", [{ entity := "Web", status := .unknown }], 10000⟩),
      (⟨"a1", [{ entity := "Web", status := .up }], 30000⟩,
        ⟨"a1", [{ entity := "Web", status := .unknown }], 40000⟩)].flatMap
          fun c : Pipeline.Call × Pipeline.Call => [c.1, c.2]).foldl
        Pipeline.processUnits .empty).changes "a1" "Web").length = 4 :=
  check_flaps "a1" "Web" (by decide) .empty (by decide)

end Argus.Monitors
