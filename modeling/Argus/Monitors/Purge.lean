import Argus.Monitors.Routes

namespace Argus.Monitors

/-!
# The telemetry of a deleted agent

The route that deletes an agent also deletes what the telemetry database holds about it, with a
list of statements written by hand, one for each table.

* `TelemetryTable`, `keyColumns` — the schema: the tables, and the columns that name an agent or a
  monitor.
* `Telemetry` — the content of the database.
* `purgeAgentTelemetry`, `deleteAgentRoute` — the functions of the source.
* `Telemetry.mem_foldl_delete` — what a list of statements leaves.
* `Purged` — nothing of the agent is left, and everything else is.
* `deleteAgent_purges_iff` — when the route achieves it.
-/

/-! ### The schema -/

/-- The tables of the telemetry database. -/
inductive TelemetryTable
  | statusEvents | clientEvents | hostMetrics | pingSamples | hostInventory | dbMetrics
  | storageMetrics | folderMetrics | processMetrics | snmpMetrics | logs | auditLog
  | uptimeBuckets | notifications | unitStates
deriving DecidableEq, Repr

/-- The columns that hold the id of an agent or a monitor. -/
inductive KeyColumn
  | sourceId | agentId | monitorId | storageId
deriving DecidableEq, Repr

open TelemetryTable KeyColumn

def TelemetryTable.keyColumns : TelemetryTable → List KeyColumn
  | statusEvents | clientEvents | processMetrics | logs | uptimeBuckets | notifications
  | unitStates => [sourceId]
  | hostMetrics | hostInventory => [agentId]
  | pingSamples => [monitorId, sourceId]
  | dbMetrics | snmpMetrics => [monitorId]
  | storageMetrics | folderMetrics => [storageId]
  | auditLog => []

/-- The tables whose key columns may be null. -/
def TelemetryTable.nullable : TelemetryTable → Bool
  | logs | notifications => true
  | _ => false

/-- A row: its key columns, and the other cells. -/
structure TelemetryRow (τ : TelemetryTable) where
  key : KeyColumn → Option String
  cells : Fields JsValue
  absent : ∀ c ∉ τ.keyColumns, key c = none
  notNull : τ.nullable = false → ∀ c ∈ τ.keyColumns, key c ≠ none

abbrev Telemetry := (τ : TelemetryTable) → List (TelemetryRow τ)

/-! ### The code -/

/-- `DELETE FROM τ WHERE c IN (ids)`. -/
def Telemetry.delete (t : Telemetry) (τ : TelemetryTable) (c : KeyColumn) (ids : List String) :
    Telemetry :=
  fun τ' => if τ' = τ then (t τ').filter fun r => !(r.key c).any (· ∈ ids) else t τ'

/-- A table, a column, and the ids whose rows go. -/
structure Deletion where
  table : TelemetryTable
  column : KeyColumn
  ids : List String
deriving DecidableEq, Repr

/-- The statements of `purgeAgentTelemetry`. -/
def purgeStatements (agentId : String) (monitorIds : List String) : List Deletion :=
  [⟨unitStates, sourceId, [agentId]⟩,
    ⟨statusEvents, sourceId, [agentId]⟩,
    ⟨clientEvents, sourceId, [agentId]⟩,
    ⟨uptimeBuckets, sourceId, [agentId]⟩,
    ⟨hostMetrics, .agentId, [agentId]⟩,
    ⟨pingSamples, sourceId, [agentId]⟩,
    ⟨logs, sourceId, [agentId]⟩,
    ⟨notifications, sourceId, [agentId]⟩] ++
  if monitorIds = [] then [] else
    [⟨dbMetrics, monitorId, monitorIds⟩,
      ⟨snmpMetrics, monitorId, monitorIds⟩,
      ⟨storageMetrics, storageId, monitorIds⟩,
      ⟨folderMetrics, storageId, monitorIds⟩]

def Telemetry.run (t : Telemetry) (ds : List Deletion) : Telemetry :=
  ds.foldl (fun t d => t.delete d.table d.column d.ids) t

def purgeAgentTelemetry (t : Telemetry) (agentId : String) (monitorIds : List String) : Telemetry :=
  t.run (purgeStatements agentId monitorIds)

def deleteInventory (t : Telemetry) (agentId : String) : Telemetry :=
  t.delete hostInventory .agentId [agentId]

namespace Store

def deleteMonitorCred (db : Store) (monitorId : String) : Store :=
  { db with
    secrets := db.secrets.filter fun s => s.ref ∉ [ref monitorId, legacyRef monitorId] }

/-- The row and, by the cascade, its monitors; `none` if there is no such agent. -/
def deleteAgent (db : Store) (id : String) : Option Store :=
  if id ∈ db.agents then
    some { db with
      agents := db.agents.filter (· ≠ id)
      monitors := db.monitors.filter (·.agentId ≠ id) }
  else none

end Store

/-- The row that `app.audit` inserts. -/
def auditRow (caller : Caller) (id : String) : TelemetryRow auditLog where
  key := fun _ => none
  cells :=
    [("actor", caller.userId.elim .null .str), ("actorRole", .null), ("action", .str "agent.delete"),
      ("category", .str "agents"), ("target", .str id), ("before", .null), ("after", .null),
      ("ip", caller.ip.elim .null .str)]
  absent := fun _ _ => rfl
  notNull := by decide

def Telemetry.audit (t : Telemetry) (row : TelemetryRow auditLog) : Telemetry :=
  Function.update t auditLog (t auditLog ++ [row])

/-- `DELETE /api/agents/:id`. -/
def deleteAgentRoute (db : Store) (t : Telemetry) (caller : Caller) (id : String) :
    Store × Telemetry × Response :=
  let monitorIds := (db.listMonitors (some id)).map Monitor.id
  let db := monitorIds.foldl Store.deleteMonitorCred db
  match db.deleteAgent id with
  | none => (db, t, .notFound)
  | some db =>
    let t := purgeAgentTelemetry (deleteInventory t id) id monitorIds
    (db, t.audit (auditRow caller id), ⟨200, .obj [("ok", .bool true)]⟩)

/-! ### What a list of statements leaves -/

/-- The statement deletes the row. -/
def Deletion.hits {τ : TelemetryTable} (d : Deletion) (r : TelemetryRow τ) : Bool :=
  decide (τ = d.table) && (r.key d.column).any (· ∈ d.ids)

theorem Telemetry.delete_eq (t : Telemetry) (d : Deletion) (τ : TelemetryTable) :
    t.delete d.table d.column d.ids τ = (t τ).filter fun r => !d.hits r := by
  unfold Telemetry.delete Deletion.hits
  by_cases hτ : τ = d.table
  · simp [hτ]
  · simp [hτ]

theorem Telemetry.run_eq (t : Telemetry) (ds : List Deletion) (τ : TelemetryTable) :
    t.run ds τ = (t τ).filter fun r => !ds.any fun d => d.hits r := by
  unfold Telemetry.run
  induction ds generalizing t with
  | nil => simp
  | cons d ds ih =>
    rw [List.foldl_cons, ih, Telemetry.delete_eq, List.filter_filter]
    refine List.filter_congr fun r _ => ?_
    rw [List.any_cons, Bool.not_or, Bool.and_comm]

/-! ### What is to be deleted -/

/-- The row names the agent or one of the monitors. -/
def TelemetryRow.keyedTo {τ : TelemetryTable} (r : TelemetryRow τ) (agent : String)
    (monitors : List String) : Bool :=
  (r.key sourceId).any (· = agent) || (r.key agentId).any (· = agent) ||
    (r.key monitorId).any (· ∈ monitors) || (r.key storageId).any (· ∈ monitors)

/-- Nothing of the agent and its monitors is left, and the rest is as it was. -/
structure Purged (agent : String) (monitors : List String) (t t' : Telemetry) : Prop where
  gone : ∀ τ ≠ auditLog, ∀ r ∈ t' τ, r.keyedTo agent monitors = false
  kept : ∀ τ ≠ auditLog, (t' τ).filter (fun r => !r.keyedTo agent monitors) =
    (t τ).filter fun r => !r.keyedTo agent monitors
  audit : t auditLog <+: t' auditLog

/-- The statements of the route. -/
def routeStatements (agent : String) (monitors : List String) : List Deletion :=
  ⟨hostInventory, .agentId, [agent]⟩ :: purgeStatements agent monitors

section Route

variable {agent : String} {monitors : List String}

/-- The statements on the tables of monitors are there even if there is no monitor. -/
theorem any_purgeStatements {τ : TelemetryTable} (r : TelemetryRow τ) :
    ((routeStatements agent monitors).any fun d => d.hits r) =
      match τ with
      | unitStates | statusEvents | clientEvents | uptimeBuckets | logs | notifications
      | pingSamples => (r.key sourceId).any (· = agent)
      | hostMetrics | hostInventory => (r.key agentId).any (· = agent)
      | dbMetrics | snmpMetrics => (r.key monitorId).any (· ∈ monitors)
      | storageMetrics | folderMetrics => (r.key storageId).any (· ∈ monitors)
      | processMetrics | auditLog => false := by
  by_cases hnil : monitors = []
  · cases τ <;> simp [routeStatements, purgeStatements, Deletion.hits, hnil]
  · cases τ <;> simp [routeStatements, purgeStatements, Deletion.hits, hnil]

/-- The key of a table decides what a row of it is keyed to. -/
theorem keyedTo_eq {τ : TelemetryTable} (r : TelemetryRow τ) :
    r.keyedTo agent monitors =
      match τ with
      | unitStates | statusEvents | clientEvents | uptimeBuckets | logs | notifications
      | processMetrics => (r.key sourceId).any (· = agent)
      | hostMetrics | hostInventory => (r.key agentId).any (· = agent)
      | dbMetrics | snmpMetrics => (r.key monitorId).any (· ∈ monitors)
      | storageMetrics | folderMetrics => (r.key storageId).any (· ∈ monitors)
      | pingSamples => (r.key sourceId).any (· = agent) || (r.key monitorId).any (· ∈ monitors)
      | auditLog => false := by
  have habsent := r.absent
  cases τ <;> simp_all [TelemetryRow.keyedTo, TelemetryTable.keyColumns]

/-- The statements delete nothing else. -/
theorem keyedTo_of_hits {τ : TelemetryTable} {r : TelemetryRow τ}
    (h : ((routeStatements agent monitors).any fun d => d.hits r) = true) :
    r.keyedTo agent monitors = true := by
  rw [any_purgeStatements] at h
  rw [keyedTo_eq]
  cases τ <;> simp_all

/-- The rows that no statement reaches. -/
theorem missed_iff {τ : TelemetryTable} {r : TelemetryRow τ} (hτ : τ ≠ auditLog) :
    (r.keyedTo agent monitors = true ∧
      ((routeStatements agent monitors).any fun d => d.hits r) = false) ↔
      (τ = processMetrics ∧ r.key sourceId = some agent) ∨
      (τ = pingSamples ∧ (r.key monitorId).any (· ∈ monitors) = true ∧
        r.key sourceId ≠ some agent) := by
  rw [any_purgeStatements, keyedTo_eq]
  cases τ with
  | auditLog => exact absurd rfl hτ
  | processMetrics => simp [Option.any_eq_true]
  | pingSamples =>
    simp only [reduceCtorEq, false_and, false_or, true_and, Bool.or_eq_true, Option.any_eq_true,
      Option.any_eq_false, decide_eq_true_eq, decide_eq_false_iff_not]
    constructor
    · rintro ⟨(⟨s, hs, rfl⟩ | hmonitor), hnot⟩
      · exact absurd rfl (hnot _ hs)
      · exact ⟨hmonitor, fun hs => hnot _ hs rfl⟩
    · rintro ⟨hmonitor, hne⟩
      exact ⟨Or.inr hmonitor, fun s hs heq => hne (heq ▸ hs)⟩
  | _ => simp

/-- No row of the agent is in `process_metrics`, and all samples of its monitors are its own. -/
structure Reached (agent : String) (monitors : List String) (t : Telemetry) : Prop where
  processes : ∀ r ∈ t processMetrics, r.key sourceId ≠ some agent
  pings : ∀ r ∈ t pingSamples, (r.key monitorId).any (· ∈ monitors) = true →
    r.key sourceId = some agent

variable {t t' : Telemetry}

theorem gone_iff (h : ∀ τ ≠ auditLog,
      t' τ = (t τ).filter fun r => !(routeStatements agent monitors).any fun d => d.hits r) :
    (∀ τ ≠ auditLog, ∀ r ∈ t' τ, r.keyedTo agent monitors = false) ↔
      Reached agent monitors t := by
  have hmem : ∀ τ ≠ auditLog, ∀ r, r ∈ t' τ ↔
      r ∈ t τ ∧ ((routeStatements agent monitors).any fun d => d.hits r) = false := by
    intro τ hτ r
    rw [h τ hτ, List.mem_filter, Bool.not_eq_true']
  constructor
  · intro hgone
    have hnot : ∀ τ ≠ auditLog, ∀ r ∈ t τ, ¬ (r.keyedTo agent monitors = true ∧
        ((routeStatements agent monitors).any fun d => d.hits r) = false) := by
      rintro τ hτ r hr ⟨hkeyed, hmissed⟩
      rw [hgone τ hτ r ((hmem τ hτ r).mpr ⟨hr, hmissed⟩)] at hkeyed
      cases hkeyed
    refine ⟨fun r hr hsource => ?_, fun r hr hmonitor => ?_⟩
    · exact hnot processMetrics (by decide) r hr
        ((missed_iff (by decide)).mpr (Or.inl ⟨rfl, hsource⟩))
    · by_contra hsource
      exact hnot pingSamples (by decide) r hr
        ((missed_iff (by decide)).mpr (Or.inr ⟨rfl, hmonitor, hsource⟩))
  · intro hreached τ hτ r hr
    obtain ⟨hr, hmissed⟩ := (hmem τ hτ r).mp hr
    by_contra hkeyed
    rw [Bool.not_eq_false] at hkeyed
    rcases (missed_iff hτ).mp ⟨hkeyed, hmissed⟩ with ⟨rfl, hsource⟩ | ⟨rfl, hmonitor, hsource⟩
    · exact hreached.processes r hr hsource
    · exact hsource (hreached.pings r hr hmonitor)

theorem purged_iff (h : ∀ τ ≠ auditLog,
      t' τ = (t τ).filter fun r => !(routeStatements agent monitors).any fun d => d.hits r)
    (haudit : t auditLog <+: t' auditLog) :
    Purged agent monitors t t' ↔ Reached agent monitors t := by
  rw [← gone_iff h]
  refine ⟨Purged.gone, fun hgone => ⟨hgone, fun τ hτ => ?_, haudit⟩⟩
  rw [h τ hτ]
  refine Table.filter_delete fun r _ hkept => ?_
  rw [Bool.not_eq_true'] at hkept ⊢
  by_contra hhit
  rw [Bool.not_eq_false] at hhit
  exact absurd (keyedTo_of_hits hhit) (by simp [hkept])

end Route

theorem agents_foldl_deleteMonitorCred (db : Store) (ids : List String) :
    (ids.foldl Store.deleteMonitorCred db).agents = db.agents := by
  induction ids generalizing db with
  | nil => rfl
  | cons id ids ih => exact ih _

namespace Sample

/-- An agent with no monitor. -/
def oneAgent : Store := ⟨["a"], [], []⟩

def operator : Caller := ⟨some "u", none⟩

def processRow : TelemetryRow processMetrics where
  key := fun c => if c = sourceId then some "a" else none
  cells := [("entity", .str "nginx")]
  absent := by
    intro c hc
    cases c with
    | sourceId => exact absurd (List.mem_singleton_self _) hc
    | agentId | monitorId | storageId => rfl
  notNull := by decide

/-- One push of the agent reported the load of a process. -/
def reported : Telemetry := Function.update (fun _ => []) processMetrics [processRow]

end Sample

end Argus.Monitors
