import Argus.Core.Diff
import Argus.Lib.Machine
import Argus.Lib.Table

namespace Argus.Pipeline

/-!
# The live ingest pipeline

`processUnits` of `apps/backend/src/services/pipeline.ts`: one batch of unit samples of a
source is compared with the stored baseline, the derived events, log lines and notifications
are inserted, the elapsed time is added to the uptime buckets, and the baseline is refreshed.

* `TelemetryDb` — the tables it reads and writes; `Stmt` — its write statements.
* `Call.writes` — the statements of one call, in order, for the snapshot it read.
* `processUnits` — a call that runs alone; `feed` — calls one after another.
* `interleaving` — any number of calls whose statements interleave; there is no transaction
  between the snapshot and the writes.
* `interleaving_alone` — a call of the interleaving that nothing interrupts is `processUnits`.

Instants are milliseconds since the epoch; the database session runs in UTC.
-/

open Argus.Core (HealthStatus DerivedEvent diffStates)

/-! ### Tables -/

/-- One unit's health as a caller reports it; `unitMeta` is the JSON text of its `meta`. -/
structure UnitSample where
  entity : String
  status : HealthStatus
  pid : Option ℤ := none
  critical : Option Bool := none
  unitMeta : Option String := none
deriving DecidableEq, Repr

/-- The part of a sample that the diff compares. -/
def UnitSample.core (u : UnitSample) : Core.UnitSample :=
  { entity := u.entity, status := u.status, pid := u.pid }

/-- A row of `unit_states`, the diff baseline; the primary key is (source, entity). -/
structure UnitState where
  sourceId : String
  entity : String
  status : HealthStatus
  pid : Option ℤ
  critical : Bool
  sample : Option String
  updatedAt : ℕ
deriving DecidableEq, Repr

def UnitState.key (r : UnitState) : String × String := (r.sourceId, r.entity)

/-- The part of a baseline row that the diff compares. -/
def UnitState.core (r : UnitState) : Core.UnitSample :=
  { entity := r.entity, status := r.status, pid := r.pid }

/-- The `type` column of `status_events`. -/
inductive EventType
  | statusChange | serviceRestart
deriving DecidableEq, Repr

/-- A row of `status_events`; the columns an event does not have are null. -/
structure StatusEvent where
  sourceId : String
  entity : String
  type : EventType
  oldStatus : Option HealthStatus := none
  newStatus : Option HealthStatus := none
  oldPid : Option ℤ := none
  newPid : Option ℤ := none
deriving DecidableEq, Repr

inductive LogLevel
  | info | warn | error
deriving DecidableEq, Repr

/-- The `context` of a status line. -/
structure StatusContext where
  entity : String
  oldStatus : Option HealthStatus
  newStatus : HealthStatus
deriving DecidableEq, Repr

/-- A row of `logs`. -/
structure LogLine where
  category : String
  level : LogLevel
  sourceId : String
  message : String
  context : StatusContext
deriving DecidableEq, Repr

inductive Severity
  | info | warning | critical
deriving DecidableEq, Repr

/-- A row of `notifications`. -/
structure Notification where
  severity : Severity
  sourceId : String
  title : String
  message : String
  plainLanguage : String
deriving DecidableEq, Repr

/-- A row of `uptime_buckets`; (source, entity, bucket start) is unique. -/
structure UptimeBucket where
  sourceId : String
  entity : String
  bucketStart : ℕ
  upSec : ℕ
  totalSec : ℕ
deriving DecidableEq, Repr

def UptimeBucket.key (b : UptimeBucket) : String × String × ℕ :=
  (b.sourceId, b.entity, b.bucketStart)

/-- The telemetry database, as far as the pipeline uses it. -/
structure TelemetryDb where
  unitStates : List UnitState
  statusEvents : List StatusEvent
  logs : List LogLine
  notifications : List Notification
  uptimeBuckets : List UptimeBucket
deriving DecidableEq, Repr

/-- A new database. -/
def TelemetryDb.empty : TelemetryDb := ⟨[], [], [], [], []⟩

/-- `SELECT * FROM unit_states WHERE source_id = …`. -/
def TelemetryDb.selectUnits (db : TelemetryDb) (sourceId : String) : List UnitState :=
  db.unitStates.filter (fun r => decide (r.sourceId = sourceId))

/-- The baseline row of an entity. -/
def TelemetryDb.unit (db : TelemetryDb) (sourceId e : String) : Option UnitState :=
  Table.lookup UnitState.key (sourceId, e) db.unitStates

/-! ### Statements -/

/-- The write statements of `processUnits`. -/
inductive Stmt
  | insertEvents (rows : List StatusEvent)
  | insertLogs (rows : List LogLine)
  | insertNotifications (rows : List Notification)
  | addUptime (bucket : UptimeBucket)
  | upsertUnit (row : UnitState)
deriving DecidableEq, Repr

/-- What the conflict clause of an uptime write does to the stored bucket. -/
def UptimeBucket.add (new stored : UptimeBucket) : UptimeBucket :=
  { stored with upSec := stored.upSec + new.upSec, totalSec := stored.totalSec + new.totalSec }

/-- What the conflict clause of a baseline write does to the stored row. -/
def UnitState.refresh (new stored : UnitState) : UnitState :=
  { stored with
    status := new.status, pid := new.pid, critical := new.critical, sample := new.sample,
    updatedAt := new.updatedAt }

@[simp] theorem UptimeBucket.key_add (new stored : UptimeBucket) :
    (new.add stored).key = stored.key := rfl

@[simp] theorem UnitState.key_refresh (new stored : UnitState) :
    (new.refresh stored).key = stored.key := rfl

/-- The database after a statement. -/
def Stmt.exec (db : TelemetryDb) : Stmt → TelemetryDb
  | .insertEvents rows => { db with statusEvents := db.statusEvents ++ rows }
  | .insertLogs rows => { db with logs := db.logs ++ rows }
  | .insertNotifications rows => { db with notifications := db.notifications ++ rows }
  | .addUptime bucket =>
    { db with
      uptimeBuckets := Table.upsert UptimeBucket.key bucket bucket.add db.uptimeBuckets }
  | .upsertUnit row =>
    { db with unitStates := Table.upsert UnitState.key row row.refresh db.unitStates }

/-- The database after a list of statements. -/
def execAll (db : TelemetryDb) (stmts : List Stmt) : TelemetryDb := stmts.foldl Stmt.exec db

/-! ### The code -/

/-- `MAX_INTERVAL_SEC`: the cap on uptime attribution after long gaps. -/
def maxIntervalSec : ℕ := 3600

/-- `hourBucket`: the start of the clock hour of an instant. -/
def hourBucket (ms : ℕ) : ℕ := ms / 3600000 * 3600000

/-- `BAD`. -/
def bad : List HealthStatus := [.down, .hang, .degraded]

/-- `buildNotification`. -/
def buildNotification (sourceId entity : String) (status : HealthStatus) : Option Notification :=
  if status = .up then
    some {
      severity := .info
      sourceId := sourceId
      title := entity ++ " recovered"
      message := entity ++ " is back UP."
      plainLanguage := entity ++ " is healthy again — no action needed." }
  -- `UNKNOWN` gives no notification
  else if status ∉ bad then none
  else
    let what :=
      if status = .degraded then "is degraded"
      else if status = .hang then "appears hung" else "is down"
    some {
      severity := if status = .degraded then .warning else .critical
      sourceId := sourceId
      title := entity ++ " " ++ what
      message := entity ++ " changed to " ++ status.text ++ "."
      plainLanguage := entity ++ " " ++ what ++
        ". Check the host and the service, then restart it if needed." }

/-- The `status_events` row of an event. -/
def eventRow (sourceId : String) : DerivedEvent → StatusEvent
  | .statusChange entity oldStatus newStatus =>
    { sourceId := sourceId, entity := entity, type := .statusChange, oldStatus := oldStatus,
      newStatus := some newStatus }
  | .serviceRestart entity oldPid newPid =>
    { sourceId := sourceId, entity := entity, type := .serviceRestart, oldPid := oldPid,
      newPid := some newPid }

/-- The log line of a status change. -/
def statusLog (sourceId : String) : DerivedEvent → Option LogLine
  | .statusChange entity oldStatus newStatus =>
    some {
      category := "status"
      level := if newStatus = .up then .info else if newStatus = .degraded then .warn else .error
      sourceId := sourceId
      message := entity ++ ": " ++ (oldStatus.map HealthStatus.text).getD "—" ++ " → " ++
        newStatus.text
      context := { entity := entity, oldStatus := oldStatus, newStatus := newStatus } }
  | .serviceRestart _ _ _ => none

/-- The notification of a status change, if it gives one. -/
def statusNote (sourceId : String) : DerivedEvent → Option Notification
  | .statusChange entity _ newStatus => buildNotification sourceId entity newStatus
  | .serviceRestart _ _ _ => none

/-- The `prev` map built from the selected rows: `set` overwrites, so the last row of an
    entity is the one that counts. -/
def prevOf (prevRows : List UnitState) (e : String) : Option UnitState :=
  Table.lookup UnitState.entity e prevRows.reverse

/-- `deltaSec`: the whole seconds since the previous sample, capped. -/
def deltaSec (now updatedAt : ℕ) : ℕ := min maxIntervalSec ((now - updatedAt) / 1000)

/-- One call of `processUnits`. -/
structure Call where
  sourceId : String
  units : List UnitSample
  now : ℕ
deriving DecidableEq, Repr

namespace Call

variable (c : Call)

/-- The derived events. -/
def events (prevRows : List UnitState) : List DerivedEvent :=
  diffStates (fun e => (prevOf prevRows e).map UnitState.core) (c.units.map UnitSample.core)

/-- The uptime write of one unit: none without a baseline row or a whole second. -/
def uptimeWrite (prevRows : List UnitState) (u : UnitSample) : Option Stmt :=
  match prevOf prevRows u.entity with
  | none => none
  | some p =>
    -- the interval belongs to the status before it and to the hour it starts in
    if deltaSec c.now p.updatedAt = 0 then none
    else
      some (.addUptime {
        sourceId := c.sourceId
        entity := u.entity
        bucketStart := hourBucket p.updatedAt
        upSec := if p.status = .up then deltaSec c.now p.updatedAt else 0
        totalSec := deltaSec c.now p.updatedAt })

/-- The baseline row of one unit. -/
def baseline (u : UnitSample) : UnitState :=
  { sourceId := c.sourceId, entity := u.entity, status := u.status, pid := u.pid,
    critical := u.critical.getD false, sample := u.unitMeta, updatedAt := c.now }

/-- The inserts of the derived events, their log lines and their notifications; an insert
    without rows is not sent. -/
def inserts (prevRows : List UnitState) : List Stmt :=
  let events := c.events prevRows
  let statusLogs := events.filterMap (statusLog c.sourceId)
  let notes := events.filterMap (statusNote c.sourceId)
  (if events = [] then [] else [.insertEvents (events.map (eventRow c.sourceId))]) ++
  (if statusLogs = [] then [] else [.insertLogs statusLogs]) ++
  (if notes = [] then [] else [.insertNotifications notes])

/-- The uptime writes of the batch. -/
def uptimeWrites (prevRows : List UnitState) : List Stmt :=
  c.units.filterMap (c.uptimeWrite prevRows)

/-- The baseline writes of the batch. -/
def baselineWrites : List Stmt := c.units.map (fun u => .upsertUnit (c.baseline u))

/-- The write statements of a call that has read `prevRows`, in order. -/
def writes (prevRows : List UnitState) : List Stmt :=
  c.inserts prevRows ++ c.uptimeWrites prevRows ++ c.baselineWrites

variable {c}

/-- An uptime write needs a baseline row and a whole second since then. -/
theorem uptimeWrite_eq_some {prevRows : List UnitState} {u : UnitSample} {stmt : Stmt} :
    c.uptimeWrite prevRows u = some stmt ↔
      ∃ p, prevOf prevRows u.entity = some p ∧ deltaSec c.now p.updatedAt ≠ 0 ∧
        stmt = .addUptime {
          sourceId := c.sourceId
          entity := u.entity
          bucketStart := hourBucket p.updatedAt
          upSec := if p.status = .up then deltaSec c.now p.updatedAt else 0
          totalSec := deltaSec c.now p.updatedAt } := by
  unfold uptimeWrite
  cases prevOf prevRows u.entity with
  | none => simp
  | some p =>
    by_cases hzero : deltaSec c.now p.updatedAt = 0
    · simp [hzero]
    · dsimp only
      rw [if_neg hzero, Option.some.injEq]
      constructor
      · rintro rfl
        exact ⟨p, rfl, hzero, rfl⟩
      · rintro ⟨p', hp, -, rfl⟩
        obtain rfl := Option.some.inj hp
        rfl

theorem mem_uptimeWrites {prevRows : List UnitState} {stmt : Stmt}
    (h : stmt ∈ c.uptimeWrites prevRows) : ∃ bucket, stmt = .addUptime bucket := by
  obtain ⟨u, -, hu⟩ := List.mem_filterMap.mp h
  obtain ⟨p, -, -, rfl⟩ := uptimeWrite_eq_some.mp hu
  exact ⟨_, rfl⟩

theorem mem_baselineWrites {stmt : Stmt} (h : stmt ∈ c.baselineWrites) :
    ∃ u ∈ c.units, stmt = .upsertUnit (c.baseline u) := by
  obtain ⟨u, hu, rfl⟩ := List.mem_map.mp h
  exact ⟨u, hu, rfl⟩

/-- The inserts touch neither the baseline nor the buckets. -/
theorem mem_inserts {prevRows : List UnitState} {stmt : Stmt} (h : stmt ∈ c.inserts prevRows) :
    (∃ rows, stmt = .insertEvents rows) ∨ (∃ rows, stmt = .insertLogs rows) ∨
      ∃ rows, stmt = .insertNotifications rows := by
  unfold inserts at h
  rw [List.mem_append, List.mem_append] at h
  rcases h with (h | h) | h
  · left
    split at h
    · exact absurd h List.not_mem_nil
    · exact ⟨_, List.mem_singleton.mp h⟩
  · right; left
    split at h
    · exact absurd h List.not_mem_nil
    · exact ⟨_, List.mem_singleton.mp h⟩
  · right; right
    split at h
    · exact absurd h List.not_mem_nil
    · exact ⟨_, List.mem_singleton.mp h⟩

end Call

/-- `processUnits`, run without interruption: an empty batch returns at once. -/
def processUnits (db : TelemetryDb) (c : Call) : TelemetryDb :=
  if c.units = [] then db else execAll db (c.writes (db.selectUnits c.sourceId))

/-- Calls one after another. -/
def feed : Machine TelemetryDb Call where
  step db c := some (processUnits db c)

theorem feed_exec (db : TelemetryDb) (calls : List Call) :
    feed.exec db calls = some (calls.foldl processUnits db) := by
  induction calls generalizing db with
  | nil => rfl
  | cons c calls ih => exact ih (processUnits db c)

/-! ### Interleaved calls -/

/-- Where a call stands: before its snapshot, or with a list of statements still to send. -/
inductive Pc
  | start
  | writing (todo : List Stmt)
deriving DecidableEq, Repr

/-- The database and the position of every call. -/
structure World where
  db : TelemetryDb
  pcs : ℕ → Pc

/-- No call has begun. -/
def World.initial : World := { db := .empty, pcs := fun _ => .start }

/-- The statements a call has to send once it has read its snapshot. -/
def Call.pending (c : Call) (db : TelemetryDb) : List Stmt :=
  if c.units = [] then [] else c.writes (db.selectUnits c.sourceId)

/-- The next statement of a call: the snapshot first, then its writes. -/
def Call.step (c : Call) (db : TelemetryDb) : Pc → Option (TelemetryDb × Pc)
  -- all writes are computed from the snapshot, before the first one is sent
  | .start => some (db, .writing (c.pending db))
  | .writing [] => none
  | .writing (stmt :: todo) => some (stmt.exec db, .writing todo)

/-- Any number of calls, one statement at a time; the label says which call moves. -/
def interleaving (calls : ℕ → Call) : Machine World ℕ where
  step w i := ((calls i).step w.db (w.pcs i)).map
    (fun r => { db := r.1, pcs := Function.update w.pcs i r.2 })

/-- A call with its writes to send sends them, when it is the only one that moves. -/
theorem interleaving_writing (calls : ℕ → Call) (i : ℕ) (todo : List Stmt) (w : World)
    (hi : w.pcs i = .writing todo) :
    (interleaving calls).exec w (List.replicate todo.length i)
      = some { db := execAll w.db todo, pcs := Function.update w.pcs i (.writing []) } := by
  induction todo generalizing w with
  | nil =>
    have hsame : Function.update w.pcs i (.writing []) = w.pcs := by
      rw [← hi]
      exact Function.update_eq_self i w.pcs
    rw [hsame]
    rfl
  | cons stmt todo ih =>
    have hstep : (interleaving calls).step w i
        = some { db := stmt.exec w.db, pcs := Function.update w.pcs i (.writing todo) } := by
      show Option.map _ ((calls i).step w.db (w.pcs i)) = _
      rw [hi]
      rfl
    rw [List.length_cons, List.replicate_succ, Machine.exec_cons, hstep, Option.bind_some,
      ih _ (Function.update_self ..)]
    simp [execAll]

/-- `processUnits` sends what the call has pending. -/
theorem processUnits_eq (db : TelemetryDb) (c : Call) :
    processUnits db c = execAll db (c.pending db) := by
  unfold processUnits Call.pending
  split <;> rfl

/-- **Link.** A call that nothing interrupts does what `processUnits` does. -/
theorem interleaving_alone (calls : ℕ → Call) (i : ℕ) (w : World) (hi : w.pcs i = .start) :
    ∃ n, (interleaving calls).exec w (List.replicate n i)
      = some {
          db := processUnits w.db (calls i)
          pcs := Function.update w.pcs i (.writing []) } := by
  have hstep : (interleaving calls).step w i
      = some {
          db := w.db
          pcs := Function.update w.pcs i (.writing ((calls i).pending w.db)) } := by
    show Option.map _ ((calls i).step w.db (w.pcs i)) = _
    rw [hi]
    rfl
  refine ⟨((calls i).pending w.db).length + 1, ?_⟩
  rw [List.replicate_succ, Machine.exec_cons, hstep, Option.bind_some,
    interleaving_writing calls i _ _ (Function.update_self ..), Function.update_idem,
    processUnits_eq]

end Argus.Pipeline
