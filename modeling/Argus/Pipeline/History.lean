import Argus.Pipeline.Effects

namespace Argus.Pipeline

/-!
# Status history

The `STATUS_CHANGE` rows of an entity should be a history of its `unit_states` row: replayed
in insertion order they start from nothing, connect, and end in the stored status.

* `TelemetryDb.changes`, `TelemetryDb.status` — the log of an entity and its stored status.
* `changes_execAll`, `status_execAll` — what a list of statements does to both.
* `logged_pending`, `written_pending` — what the statements of one call amount to: the changes
  of the reported statuses against one snapshot, and the last reported status.
* `history_replays` — over any sequence of calls the log is a history exactly when no call
  reports, before its last sample of the entity, a status other than the stored one.
-/

open ChangeLog
open Argus.Core (HealthStatus DerivedEvent diffStates reported changesOf changesOf_diffStates)

/-! ### The log of an entity and its stored status -/

/-- The status change of an entity that a row of `status_events` records. -/
def StatusEvent.changeOf (sourceId e : String) (r : StatusEvent) :
    Option (Option HealthStatus × HealthStatus) :=
  if r.sourceId = sourceId ∧ r.entity = e ∧ r.type = .statusChange then
    r.newStatus.map (fun new => (r.oldStatus, new))
  else none

/-- The recorded status changes of an entity, in insertion order. -/
def TelemetryDb.changes (db : TelemetryDb) (sourceId e : String) :
    List (Option HealthStatus × HealthStatus) :=
  db.statusEvents.filterMap (StatusEvent.changeOf sourceId e)

/-- The stored status of an entity. -/
def TelemetryDb.status (db : TelemetryDb) (sourceId e : String) : Option HealthStatus :=
  (db.unit sourceId e).map UnitState.status

/-- The recorded changes of an entity chain up from nothing to the stored status, and no
    stored row is without events. -/
structure TelemetryDb.History (db : TelemetryDb) (sourceId e : String) : Prop where
  chain : Replays none (db.changes sourceId e) (db.status sourceId e)
  seen : ∀ r ∈ db.unitStates, r.key = (sourceId, e) → db.changes sourceId e ≠ []

/-- A chain alone makes a history: a stored row has a status, and a log that reaches a status
    is not empty. -/
theorem history_iff {db : TelemetryDb} (h : db.WF) {sourceId e : String} :
    db.History sourceId e ↔ Replays none (db.changes sourceId e) (db.status sourceId e) := by
  constructor
  · exact fun hist => hist.chain
  · intro hchain
    refine ⟨hchain, fun r hr hkey => ?_⟩
    have hfound : db.unit sourceId e = some r := by
      rw [TelemetryDb.unit, ← hkey]
      exact Table.lookup_of_mem h.units hr
    rw [TelemetryDb.status, hfound] at hchain
    exact hchain.ne_nil

/-! ### What statements do to both -/

/-- The changes of an entity that a statement records. -/
def Stmt.changesOf (sourceId e : String) : Stmt → List (Option HealthStatus × HealthStatus)
  | .insertEvents rows => rows.filterMap (StatusEvent.changeOf sourceId e)
  | _ => []

/-- The changes that a list of statements records. -/
def logged (sourceId e : String) (stmts : List Stmt) : List (Option HealthStatus × HealthStatus) :=
  stmts.flatMap (Stmt.changesOf sourceId e)

/-- The statuses that a list of statements stores. -/
def written (sourceId e : String) (stmts : List Stmt) : List HealthStatus :=
  columns UnitState.status sourceId e stmts

section Statements

variable (sourceId e : String)

theorem logged_append (a b : List Stmt) :
    logged sourceId e (a ++ b) = logged sourceId e a ++ logged sourceId e b :=
  List.flatMap_append

/-- A statement appends the changes it records. -/
theorem changes_exec (db : TelemetryDb) (stmt : Stmt) :
    (stmt.exec db).changes sourceId e = db.changes sourceId e ++ stmt.changesOf sourceId e := by
  cases stmt with
  | insertEvents rows => exact List.filterMap_append
  | insertLogs rows => exact (List.append_nil _).symm
  | insertNotifications rows => exact (List.append_nil _).symm
  | addUptime bucket => exact (List.append_nil _).symm
  | upsertUnit row => exact (List.append_nil _).symm

theorem changes_execAll (db : TelemetryDb) (stmts : List Stmt) :
    (execAll db stmts).changes sourceId e = db.changes sourceId e ++ logged sourceId e stmts := by
  induction stmts generalizing db with
  | nil => exact (List.append_nil _).symm
  | cons stmt stmts ih =>
    show (execAll (stmt.exec db) stmts).changes sourceId e = _
    rw [ih, changes_exec, List.append_assoc]
    rfl

theorem status_execAll (db : TelemetryDb) (stmts : List Stmt) :
    (execAll db stmts).status sourceId e
      = latest (db.status sourceId e) (written sourceId e stmts) :=
  column_execAll sourceId e (fun _ _ => rfl) db stmts

end Statements

/-! ### What one call does -/

/-- The statuses a call reports for an entity of a source, in order. -/
def Call.reports (c : Call) (sourceId e : String) : List HealthStatus :=
  (c.samplesOf sourceId e).map UnitSample.status

/-- They are the statuses that the diff sees. -/
theorem Call.reports_eq (c : Call) (sourceId e : String) :
    c.reports sourceId e
      = if c.sourceId = sourceId then reported e (c.units.map UnitSample.core) else [] := by
  unfold Call.reports Call.samplesOf reported
  split
  · rw [List.filter_map, List.map_map]
    rfl
  · rfl

/-- The row of an event records its change under the source of the call. -/
theorem changeOf_eventRow (sourceId e : String) (c : Call) (event : DerivedEvent) :
    (eventRow c.sourceId event).changeOf sourceId e
      = if c.sourceId = sourceId then event.changeOf e else none := by
  cases event with
  | statusChange entity old new =>
    by_cases hsrc : c.sourceId = sourceId <;> by_cases hent : entity = e <;>
      simp [eventRow, StatusEvent.changeOf, DerivedEvent.changeOf, hsrc, hent]
  | serviceRestart entity old new =>
    simp [eventRow, StatusEvent.changeOf, DerivedEvent.changeOf]

/-- The event rows of a call record the changes of its events. -/
theorem filterMap_eventRow (sourceId e : String) (c : Call) (events : List DerivedEvent) :
    (events.map (eventRow c.sourceId)).filterMap (StatusEvent.changeOf sourceId e)
      = if c.sourceId = sourceId then changesOf e events else [] := by
  rw [List.filterMap_map]
  by_cases hsrc : c.sourceId = sourceId
  · rw [if_pos hsrc, changesOf]
    refine List.filterMap_congr (fun event _ => ?_)
    rw [Function.comp_apply, changeOf_eventRow, if_pos hsrc]
  · rw [if_neg hsrc, List.filterMap_eq_nil_iff]
    intro event _
    rw [Function.comp_apply, changeOf_eventRow, if_neg hsrc]

/-- The inserts of a call record the changes of its events. -/
theorem logged_inserts (sourceId e : String) (c : Call) (prevRows : List UnitState) :
    logged sourceId e (c.inserts prevRows)
      = if c.sourceId = sourceId then changesOf e (c.events prevRows) else [] := by
  rw [← filterMap_eventRow]
  unfold Call.inserts
  simp only [logged_append]
  -- an insert that is not sent has no rows, and the other two inserts record nothing
  by_cases hevents : c.events prevRows = []
  · simp [hevents, logged]
  · rw [if_neg hevents]
    split <;> split <;> simp [logged, Stmt.changesOf]

/-- Of the statements of a call only the event insert records changes. -/
theorem logged_writes (sourceId e : String) (c : Call) (prevRows : List UnitState) :
    logged sourceId e (c.writes prevRows)
      = if c.sourceId = sourceId then changesOf e (c.events prevRows) else [] := by
  have huptime : logged sourceId e (c.uptimeWrites prevRows) = [] := by
    refine List.flatMap_eq_nil_iff.mpr (fun stmt hstmt => ?_)
    obtain ⟨bucket, rfl⟩ := Call.mem_uptimeWrites hstmt
    rfl
  have hunits : logged sourceId e c.baselineWrites = [] := by
    refine List.flatMap_eq_nil_iff.mpr (fun stmt hstmt => ?_)
    obtain ⟨u, -, rfl⟩ := Call.mem_baselineWrites hstmt
    rfl
  rw [Call.writes, logged_append, logged_append, huptime, hunits, List.append_nil,
    List.append_nil, logged_inserts]

/-- **Call lemma, log.** A call records the changes of what it reports against the stored
    status. -/
theorem logged_pending {db : TelemetryDb} (h : db.WF) (sourceId e : String)
    (c : Call) :
    logged sourceId e (c.pending db) = diffLog (db.status sourceId e) (c.reports sourceId e) := by
  rw [Call.reports_eq]
  unfold Call.pending
  by_cases hnil : c.units = []
  · rw [if_pos hnil, hnil]
    split <;> rfl
  · rw [if_neg hnil, logged_writes]
    by_cases hsrc : c.sourceId = sourceId
    · rw [if_pos hsrc, if_pos hsrc, Call.events, changesOf_diffStates, h.prevOf_selectUnits, hsrc,
        Option.map_map]
      rfl
    · rw [if_neg hsrc, if_neg hsrc, diffLog_nil]

/-- **Call lemma, baseline.** A call stores what it reports. -/
theorem written_pending (sourceId e : String) (db : TelemetryDb) (c : Call) :
    written sourceId e (c.pending db) = c.reports sourceId e :=
  columns_pending sourceId e db c

/-! ### Calls one after another -/

/-- A call appends the changes of what it reports, and stores its last report. -/
theorem changes_processUnits {db : TelemetryDb} (h : db.WF) (sourceId e : String) (c : Call) :
    (processUnits db c).changes sourceId e
        = db.changes sourceId e ++ diffLog (db.status sourceId e) (c.reports sourceId e) ∧
      (processUnits db c).status sourceId e
        = latest (db.status sourceId e) (c.reports sourceId e) := by
  rw [processUnits_eq, changes_execAll, status_execAll, logged_pending h, written_pending]
  exact ⟨rfl, rfl⟩

/-- Calls that report the same statuses record the same changes, whenever they come. -/
theorem changes_foldl_congr (sourceId e : String) {calls calls' : List Call}
    (hreports : calls.map (fun c => c.reports sourceId e)
      = calls'.map (fun c => c.reports sourceId e)) {db db' : TelemetryDb} (h : db.WF)
    (h' : db'.WF) (hchanges : db.changes sourceId e = db'.changes sourceId e)
    (hstatus : db.status sourceId e = db'.status sourceId e) :
    (calls.foldl processUnits db).changes sourceId e
      = (calls'.foldl processUnits db').changes sourceId e := by
  induction calls generalizing calls' db db' with
  | nil =>
    obtain rfl : calls' = [] := by simpa using hreports.symm
    exact hchanges
  | cons c calls ih =>
    cases calls' with
    | nil => exact absurd hreports (by simp)
    | cons c' calls' =>
      rw [List.map_cons, List.map_cons, List.cons.injEq] at hreports
      obtain ⟨hhead, htail⟩ := hreports
      obtain ⟨hlog, hlast⟩ := changes_processUnits h sourceId e c
      obtain ⟨hlog', hlast'⟩ := changes_processUnits h' sourceId e c'
      refine ih htail (h.processUnits c) (h'.processUnits c') ?_ ?_
      · rw [hlog, hlog', hchanges, hstatus, hhead]
      · rw [hlast, hlast', hstatus, hhead]

/-- **Step condition.** Every status the call reports for the entity before its last sample of
    it repeats the stored status; an entity without a stored row is reported at most once. -/
def Call.Repeats (sourceId e : String) (db : TelemetryDb) (c : Call) : Prop :=
  ∀ s ∈ (c.reports sourceId e).dropLast, db.status sourceId e = some s

/-- **Step lemma.** A call leaves a chain exactly when it finds one and meets the condition. -/
theorem replays_processUnits {db : TelemetryDb} (h : db.WF) (sourceId e : String)
    (c : Call) :
    Replays none ((processUnits db c).changes sourceId e) ((processUnits db c).status sourceId e) ↔
      Replays none (db.changes sourceId e) (db.status sourceId e) ∧ c.Repeats sourceId e db := by
  obtain ⟨hchanges, hstatus⟩ := changes_processUnits h sourceId e c
  rw [hchanges, hstatus]
  exact replays_append_diffLog

/-- **Run lemma.** A sequence of calls leaves a chain exactly when it starts from one and every
    call meets the condition. -/
theorem replays_foldl {db : TelemetryDb} (h : db.WF) (sourceId e : String)
    (calls : List Call) :
    Replays none ((calls.foldl processUnits db).changes sourceId e)
        ((calls.foldl processUnits db).status sourceId e) ↔
      Replays none (db.changes sourceId e) (db.status sourceId e) ∧
        feed.Meets (fun db c => c.Repeats sourceId e db) db calls := by
  induction calls generalizing db with
  | nil => exact (and_iff_left trivial).symm
  | cons c calls ih =>
    rw [List.foldl_cons, ih (h.processUnits c), replays_processUnits h, and_assoc]
    refine and_congr_right (fun _ => and_congr_right (fun _ => ?_))
    constructor
    · intro hmeets db' hdb'
      obtain rfl := Option.some.inj hdb'
      exact hmeets
    · exact fun hmeets => hmeets _ rfl

/-- **Status history.** After any sequence of calls, the recorded changes of an entity replay
    to its stored status exactly when every call met the condition. -/
theorem history_replays (sourceId e : String) (calls : List Call) :
    (calls.foldl processUnits .empty).History sourceId e ↔
      feed.Meets (fun db c => c.Repeats sourceId e db) .empty calls := by
  have hwf : (calls.foldl processUnits .empty).WF := by
    refine List.foldlRecOn calls processUnits TelemetryDb.WF.empty ?_
    exact fun db hdb c _ => hdb.processUnits c
  rw [history_iff hwf, replays_foldl .empty]
  exact and_iff_right rfl

/-- Two monitors of one name in one batch: the second entry does not start where the first one
    ended. -/
theorem history_forks :
    ¬ ∀ (sourceId e : String) (calls : List Call),
      (calls.foldl processUnits .empty).History sourceId e := by
  intro h
  have hchain := (h "agent-1" "svcA" [{
    sourceId := "agent-1"
    units := [{ entity := "svcA", status := .up }, { entity := "svcA", status := .down }]
    now := 0 }]).chain
  exact absurd (show (none : Option HealthStatus) = some .up from hchain.2.2.1) (by simp)

end Argus.Pipeline
