import Argus.Pipeline.LiveView

namespace Argus.Pipeline

/-!
# Ingests and the live channel

One operator connection beside any number of ingests.  An ingest writes its statements, drops
the rows of monitors that no longer exist, and broadcasts its patch; the connection is added to
the hub, reads the snapshot and sends it.  Every `await` is a point where the others move, so a
patch can be on its way before the older snapshot, and two patches of one unit in the order
opposite to their writes.

* `Ingest`, `Connection`, `Feed` — the tasks; `liveFeed` — the machine.
* `Orderly` — the step condition: a unit is written only while no other ingest has written it
  and not broadcast it; a unit written after the snapshot was read is not broadcast before it is
  sent; nothing stored is dropped.
* `Tracks` — the invariant.
* `live_converges` — in orderly runs the client ends with the statuses that are stored.
-/

open ChangeLog
open Argus.Core (HealthStatus)

/-- The identity of a unit. -/
abbrev UnitId := String × String

/-- One ingest: the batch, and the monitor names that `pruneOrphanUnits` reads; the schedulers
    push without pruning. -/
structure Ingest where
  call : Call
  names : Option (List String) := none
deriving DecidableEq, Repr

inductive IngestPc
  /-- The snapshot of `processUnits` is next. -/
  | start
  /-- The statements still to send; after the last one, the prune. -/
  | writing (todo : List Stmt)
  /-- The broadcast is next. -/
  | announcing
  | done
deriving DecidableEq, Repr

/-- The `/ws` handler after the checks. -/
inductive Connection
  | closed
  /-- In the hub. -/
  | added
  /-- The snapshot is read. -/
  | read (units : List LiveUnit)
  | sent
deriving DecidableEq, Repr

/-- The database, the tasks and the messages sent to the operator.  Recorded beside it: which
    units each ingest has written and not broadcast, and which were written since the snapshot
    was read. -/
structure Feed where
  db : TelemetryDb
  pcs : ℕ → IngestPc
  conn : Connection
  messages : List LiveMessage
  dirty : ℕ → List UnitId
  sinceRead : List UnitId

/-- `pruneOrphanUnits`: without known monitors nothing is dropped. -/
def TelemetryDb.pruneOrphanUnits (db : TelemetryDb) (agentId : String) (names : List String) :
    TelemetryDb :=
  if names = [] then db
  else
    { db with
      unitStates := db.unitStates.filter
        (fun r => decide (r.sourceId ≠ agentId) || names.contains r.entity) }

/-- The unit a statement writes. -/
def Stmt.target : Stmt → List UnitId
  | .upsertUnit row => [row.key]
  | _ => []

namespace Ingest

variable (ing : Ingest)

/-- The prune of an ingest, if it has one. -/
def prune (db : TelemetryDb) : TelemetryDb :=
  match ing.names with
  | some names => if ing.call.units = [] then db else db.pruneOrphanUnits ing.call.sourceId names
  | none => db

/-- The broadcast: a batch without units sends nothing. -/
def patch : List LiveMessage :=
  if ing.call.units = [] then [] else [.patch ing.call.liveUnits]

end Ingest

/-- The operator's socket is in the hub. -/
def Connection.listens : Connection → Bool
  | .closed => false
  | _ => true

namespace Feed

variable (w : Feed) (i : ℕ)

/-- A statement of ingest `i`. -/
def wrote (stmt : Stmt) (todo : List Stmt) : Feed :=
  { w with
    db := stmt.exec w.db
    pcs := Function.update w.pcs i (.writing todo)
    dirty := Function.update w.dirty i (stmt.target ++ w.dirty i)
    sinceRead := stmt.target ++ w.sinceRead }

/-- The broadcast of ingest `i`. -/
def announced (ing : Ingest) : Feed :=
  { w with
    pcs := Function.update w.pcs i .done
    messages := if w.conn.listens then w.messages ++ ing.patch else w.messages
    dirty := Function.update w.dirty i [] }

/-- The next step of ingest `i`. -/
def ingestStep (ing : Ingest) : Option Feed :=
  match w.pcs i with
  | .start =>
    some { w with pcs := Function.update w.pcs i (.writing (ing.call.pending w.db)) }
  | .writing (stmt :: todo) => some (w.wrote i stmt todo)
  | .writing [] =>
    some { w with db := ing.prune w.db, pcs := Function.update w.pcs i .announcing }
  | .announcing => some (w.announced i ing)
  | .done => none

/-- The next step of the connection. -/
def connectionStep : Option Feed :=
  match w.conn with
  | .closed => some { w with conn := .added }
  | .added => some { w with conn := .read w.db.liveUnits, sinceRead := [] }
  | .read units => some { w with conn := .sent, messages := w.messages ++ [.snapshot units] }
  | .sent => none

end Feed

/-- Who moves. -/
inductive Task
  | ingest (i : ℕ)
  | connection
deriving DecidableEq, Repr

/-- One connection and the ingests `ings`. -/
def liveFeed (ings : ℕ → Ingest) : Machine Feed Task where
  step w
    | .ingest i => w.ingestStep i (ings i)
    | .connection => w.connectionStep

/-! ### The step condition -/

/-- The ingests and their units keep out of each other's way. -/
structure Orderly (ings : ℕ → Ingest) (w : Feed) (i : ℕ) : Prop where
  /-- A unit is written only while no other ingest has written it and not broadcast it. -/
  write : ∀ stmt todo, w.pcs i = .writing (stmt :: todo) →
    ∀ k ∈ stmt.target, ∀ j, j ≠ i → k ∉ w.dirty j
  /-- What was written since the snapshot was read is broadcast after it was sent. -/
  announce : w.pcs i = .announcing → ∀ units, w.conn = .read units →
    ∀ k ∈ w.dirty i, k ∉ w.sinceRead
  /-- The prune finds nothing to drop. -/
  prune : w.pcs i = .writing [] → (ings i).prune w.db = w.db

/-! ### The invariant -/

/-- What the remaining statements of an ingest leave of a unit is what it will broadcast: all of
    it is still to come, or the unit is written and nobody else has written it since. -/
def Settles (ing : Ingest) (db : TelemetryDb) (todo : List Stmt) (dirty : List UnitId) : Prop :=
  ∀ s e, ((s, e) ∉ dirty → written s e todo = ing.call.reports s e) ∧
    ((s, e) ∈ dirty → ing.call.reports s e ≠ [] ∧
      latest (db.status s e) (written s e todo) = latest none (ing.call.reports s e))

/-- Where an ingest stands, and what it has written without broadcasting it. -/
def InPlace (ing : Ingest) (db : TelemetryDb) (dirty : List UnitId) : IngestPc → Prop
  | .start | .done => dirty = []
  | .writing todo =>
    Settles ing db todo dirty ∧ ∀ row, .upsertUnit row ∈ todo → SourceId row.sourceId
  | .announcing => Settles ing db [] dirty

/-- The client's status of a unit: after the snapshot that was read, or after the messages. -/
def Feed.shown (w : Feed) (s e : String) : Option HealthStatus :=
  match w.conn with
  | .read units => latest none (statuses (unitKey s e) units)
  | _ => statusOf w.messages (unitKey s e)

/-- **Invariant.**  From the moment the snapshot is read, a unit shows the stored status unless
    somebody has written it and not broadcast it yet. -/
structure Tracks (ings : ℕ → Ingest) (w : Feed) : Prop where
  wf : w.db.WF
  sources : ∀ r ∈ w.db.unitStates, SourceId r.sourceId
  inPlace : ∀ i, InPlace (ings i) w.db (w.dirty i) (w.pcs i)
  read : ∀ units, w.conn = .read units →
    (∀ s e, SourceId s → (s, e) ∉ w.sinceRead → w.shown s e = w.db.status s e) ∧
    ∀ k ∈ w.sinceRead, ∃ i, k ∈ w.dirty i
  sent : w.conn = .sent → ∀ s e, SourceId s → (∀ i, (s, e) ∉ w.dirty i) →
    w.shown s e = w.db.status s e

/-! ### Statements -/

theorem latest_of_ne_nil {α : Type} {p q : Option α} {ns : List α} (h : ns ≠ []) :
    latest p ns = latest q ns := by
  cases ns with
  | nil => exact absurd rfl h
  | cons n ns => rw [latest_cons, latest_cons]

section Statements

variable {s e : String} {stmt : Stmt}

theorem columnOf_of_not_target (h : (s, e) ∉ stmt.target) :
    stmt.columnOf UnitState.status s e = [] := by
  cases stmt with
  | upsertUnit row =>
    have hne : row.key ≠ (s, e) := fun heq => h (by simp [Stmt.target, heq])
    exact if_neg hne
  | _ => rfl

theorem columnOf_of_target (h : (s, e) ∈ stmt.target) :
    stmt.columnOf UnitState.status s e ≠ [] := by
  cases stmt with
  | upsertUnit row =>
    have heq : row.key = (s, e) := by simpa [Stmt.target, eq_comm] using h
    simp [Stmt.columnOf, heq]
  | _ => simp [Stmt.target] at h

theorem status_of_not_target (db : TelemetryDb) (h : (s, e) ∉ stmt.target) :
    (stmt.exec db).status s e = db.status s e := by
  rw [status_exec, columnOf_of_not_target h, latest_nil]

/-- A statement moves a value from what is to come to what is stored. -/
theorem latest_written_cons (db : TelemetryDb) (todo : List Stmt) (s e : String) :
    latest ((stmt.exec db).status s e) (written s e todo)
      = latest (db.status s e) (written s e (stmt :: todo)) := by
  rw [status_exec, ← latest_append, written_cons]

/-- The ingest that writes. -/
theorem Settles.wrote {ing : Ingest} {db : TelemetryDb} {todo : List Stmt} {dirty : List UnitId}
    (h : Settles ing db (stmt :: todo) dirty) :
    Settles ing (stmt.exec db) todo (stmt.target ++ dirty) := by
  intro s e
  obtain ⟨hclean, hdirty⟩ := h s e
  rw [latest_written_cons]
  constructor
  · intro hmem
    rw [List.mem_append, not_or] at hmem
    rw [← hclean hmem.2, written_cons, columnOf_of_not_target hmem.1, List.nil_append]
  · intro hmem
    by_cases hold : (s, e) ∈ dirty
    · exact hdirty hold
    · -- the first write of the unit: all that the ingest reports of it is still to come
      have htarget : (s, e) ∈ stmt.target := (List.mem_append.mp hmem).resolve_right hold
      have hne : written s e (stmt :: todo) ≠ [] := by
        rw [written_cons]
        exact List.append_ne_nil_of_left_ne_nil (columnOf_of_target htarget) _
      rw [← hclean hold]
      exact ⟨hne, latest_of_ne_nil hne⟩

/-- Another ingest that has not written the unit. -/
theorem Settles.exec {ing : Ingest} {db : TelemetryDb} {todo : List Stmt} {dirty : List UnitId}
    (h : Settles ing db todo dirty) (hfree : ∀ k ∈ stmt.target, k ∉ dirty) :
    Settles ing (stmt.exec db) todo dirty := by
  intro s e
  refine ⟨(h s e).1, fun hmem => ?_⟩
  rw [status_of_not_target db (fun htarget => hfree _ htarget hmem)]
  exact (h s e).2 hmem

theorem InPlace.exec {ing : Ingest} {db : TelemetryDb} {dirty : List UnitId} {pc : IngestPc}
    (h : InPlace ing db dirty pc) (hfree : ∀ k ∈ stmt.target, k ∉ dirty) :
    InPlace ing (stmt.exec db) dirty pc := by
  cases pc with
  | start => exact h
  | writing todo => exact ⟨h.1.exec hfree, h.2⟩
  | announcing => exact Settles.exec h hfree
  | done => exact h

end Statements

/-- The rows a call writes are rows of its source. -/
theorem mem_pending_upsert {c : Call} {db : TelemetryDb} {row : UnitState}
    (h : .upsertUnit row ∈ c.pending db) : row.sourceId = c.sourceId := by
  unfold Call.pending at h
  split at h
  · exact absurd h List.not_mem_nil
  · rw [Call.writes, List.mem_append, List.mem_append] at h
    rcases h with (h | h) | h
    · obtain ⟨_, heq⟩ | ⟨_, heq⟩ | ⟨_, heq⟩ := Call.mem_inserts h <;> exact absurd heq (by simp)
    · obtain ⟨_, heq⟩ := Call.mem_uptimeWrites h
      exact absurd heq (by simp)
    · obtain ⟨u, -, heq⟩ := Call.mem_baselineWrites h
      obtain rfl : row = c.baseline u := by simpa using heq
      rfl

/-- The rows after a statement are those before and the one it writes. -/
theorem exec_sources {db : TelemetryDb} {stmt : Stmt}
    (h : ∀ r ∈ db.unitStates, SourceId r.sourceId)
    (hstmt : ∀ row, stmt = .upsertUnit row → SourceId row.sourceId) :
    ∀ r ∈ (stmt.exec db).unitStates, SourceId r.sourceId := by
  cases stmt with
  | upsertUnit row =>
    intro r hr
    rcases Table.mem_upsert hr with ⟨hr, -⟩ | ⟨old, hold, -, rfl⟩ | rfl
    · exact h r hr
    · exact h old hold
    · exact hstmt r rfl
  | _ => exact h

/-! ### Steps -/

section Steps

variable {ings : ℕ → Ingest} {w w' : Feed} {i : ℕ}

theorem Tracks.started (h : Tracks ings w) (hsrc : ∀ i, SourceId (ings i).call.sourceId)
    (hpc : w.pcs i = .start) :
    Tracks ings { w with
      pcs := Function.update w.pcs i (.writing ((ings i).call.pending w.db)) } := by
  refine ⟨h.wf, h.sources, fun j => ?_, h.read, h.sent⟩
  by_cases hj : j = i
  · subst hj
    have hclean : w.dirty j = [] := by
      have hplace := h.inPlace j
      rw [hpc] at hplace
      exact hplace
    dsimp only
    rw [Function.update_self, hclean]
    refine ⟨fun s e => ⟨fun _ => written_pending s e w.db _, fun hmem => absurd hmem (by simp)⟩,
      fun row hrow => ?_⟩
    rw [mem_pending_upsert hrow]
    exact hsrc j
  · dsimp only
    rw [Function.update_of_ne hj]
    exact h.inPlace j

theorem Tracks.wrote (h : Tracks ings w) {stmt : Stmt} {todo : List Stmt}
    (hpc : w.pcs i = .writing (stmt :: todo))
    (hfree : ∀ k ∈ stmt.target, ∀ j, j ≠ i → k ∉ w.dirty j) :
    Tracks ings (w.wrote i stmt todo) := by
  obtain ⟨hsettles, hrows⟩ : Settles (ings i) w.db (stmt :: todo) (w.dirty i) ∧
      ∀ row, .upsertUnit row ∈ stmt :: todo → SourceId row.sourceId := by
    have hplace := h.inPlace i
    rw [hpc] at hplace
    exact hplace
  have hdirty : ∀ j, ∀ k ∈ w.dirty j, k ∈ (w.wrote i stmt todo).dirty j := by
    intro j k hk
    by_cases hj : j = i
    · subst hj
      simp [Feed.wrote, hk]
    · simpa [Feed.wrote, Function.update_of_ne hj] using hk
  have hself : ∀ k ∈ stmt.target, k ∈ (w.wrote i stmt todo).dirty i := by
    intro k hk
    simp [Feed.wrote, hk]
  refine ⟨h.wf.exec stmt, exec_sources h.sources (fun row heq => hrows row (by simp [heq])),
    fun j => ?_, fun units hconn => ?_, fun hconn s e hs hnone => ?_⟩
  · by_cases hj : j = i
    · subst hj
      simp only [Feed.wrote, Function.update_self]
      exact ⟨hsettles.wrote, fun row hrow => hrows row (List.mem_cons_of_mem _ hrow)⟩
    · simp only [Feed.wrote, Function.update_of_ne hj]
      exact (h.inPlace j).exec (fun k hk => hfree k hk j hj)
  · obtain ⟨hshown, hsince⟩ := h.read units hconn
    refine ⟨fun s e hs hmem => ?_, fun k hk => ?_⟩
    · rw [Feed.wrote, List.mem_append, not_or] at hmem
      exact (hshown s e hs hmem.2).trans (status_of_not_target w.db hmem.1).symm
    · rcases List.mem_append.mp hk with hk | hk
      · exact ⟨i, hself k hk⟩
      · obtain ⟨j, hj⟩ := hsince k hk
        exact ⟨j, hdirty j k hj⟩
  · have htarget : (s, e) ∉ stmt.target := fun hk => hnone i (hself _ hk)
    exact (h.sent hconn s e hs (fun j hj => hnone j (hdirty j _ hj))).trans
      (status_of_not_target w.db htarget).symm

theorem Tracks.pruned (h : Tracks ings w) (hpc : w.pcs i = .writing [])
    (hprune : (ings i).prune w.db = w.db) :
    Tracks ings { w with
      db := (ings i).prune w.db, pcs := Function.update w.pcs i .announcing } := by
  rw [hprune]
  refine ⟨h.wf, h.sources, fun j => ?_, h.read, h.sent⟩
  by_cases hj : j = i
  · subst hj
    have hplace := h.inPlace j
    rw [hpc] at hplace
    simp only [Function.update_self]
    exact hplace.1
  · simp only [Function.update_of_ne hj]
    exact h.inPlace j

/-- A broadcast reports every unit the ingest has written, and no other. -/
theorem Tracks.announced (h : Tracks ings w) (hsrc : ∀ i, SourceId (ings i).call.sourceId)
    (hpc : w.pcs i = .announcing)
    (hlate : ∀ units, w.conn = .read units → ∀ k ∈ w.dirty i, k ∉ w.sinceRead) :
    Tracks ings (w.announced i (ings i)) := by
  have hsettles : Settles (ings i) w.db [] (w.dirty i) := by
    have hplace := h.inPlace i
    rw [hpc] at hplace
    exact hplace
  have hothers : ∀ j, j ≠ i → (w.announced i (ings i)).dirty j = w.dirty j :=
    fun j hj => Function.update_of_ne hj _ _
  refine ⟨h.wf, h.sources, fun j => ?_, fun units hconn => ?_, fun hconn s e hs hnone => ?_⟩
  · by_cases hj : j = i
    · subst hj
      simp only [Feed.announced, Function.update_self]
      rfl
    · simp only [Feed.announced, Function.update_of_ne hj]
      exact h.inPlace j
  · -- the snapshot that was read does not change, and no unit written since is announced
    have hconn' : w.conn = .read units := hconn
    obtain ⟨hshown, hsince⟩ := h.read units hconn'
    refine ⟨fun s e hs hmem => ?_, fun k hk => ?_⟩
    · refine Eq.trans ?_ (hshown s e hs hmem)
      simp only [Feed.shown, Feed.announced, hconn']
    · obtain ⟨j, hj⟩ := hsince k hk
      have hne : j ≠ i := fun heq => hlate units hconn' k (heq ▸ hj) hk
      exact ⟨j, by rw [hothers j hne]; exact hj⟩
  · have hconn' : w.conn = .sent := hconn
    have hshown' : (w.announced i (ings i)).shown s e
        = latest (w.shown s e) ((ings i).call.reports s e) := by
      simp only [Feed.shown, Feed.announced, hconn', Connection.listens, if_true, Ingest.patch]
      split
      · rename_i hunits
        have hreports : (ings i).call.reports s e = [] := by
          rw [Call.reports, Call.samplesOf, hunits]
          split <;> rfl
        rw [hreports, latest_nil, List.append_nil]
      · rw [statusOf_append, ← statuses_call (hsrc i) hs]
        rfl
    rw [hshown']
    by_cases hmem : (s, e) ∈ w.dirty i
    · obtain ⟨hne, hstored⟩ := (hsettles s e).2 hmem
      have hnil : written s e ([] : List Stmt) = [] := rfl
      rw [hnil, latest_nil] at hstored
      exact (latest_of_ne_nil hne).trans hstored.symm
    · have hreports : (ings i).call.reports s e = [] := ((hsettles s e).1 hmem).symm
      rw [hreports, latest_nil]
      refine h.sent hconn' s e hs (fun j hj => ?_)
      by_cases hji : j = i
      · exact hmem (hji ▸ hj)
      · exact hnone j (by rw [hothers j hji]; exact hj)

theorem Tracks.connection (h : Tracks ings w) (hstep : w.connectionStep = some w') :
    Tracks ings w' := by
  unfold Feed.connectionStep at hstep
  split at hstep
  · obtain rfl := Option.some.inj hstep
    exact ⟨h.wf, h.sources, h.inPlace, fun _ hconn => absurd hconn (by simp),
      fun hconn => absurd hconn (by simp)⟩
  · obtain rfl := Option.some.inj hstep
    refine ⟨h.wf, h.sources, h.inPlace, fun units hconn => ⟨fun s e hs _ => ?_, by simp⟩,
      fun hconn => absurd hconn (by simp)⟩
    exact statuses_snapshot h.wf h.sources hs e
  · rename_i units hread
    obtain rfl := Option.some.inj hstep
    obtain ⟨hshown, hsince⟩ := h.read units hread
    refine ⟨h.wf, h.sources, h.inPlace, fun _ hconn => absurd hconn (by simp),
      fun _ s e hs hnone => ?_⟩
    -- a unit written since the snapshot was read is still unannounced
    have hmem : (s, e) ∉ w.sinceRead := by
      intro hk
      obtain ⟨j, hj⟩ := hsince _ hk
      exact hnone j hj
    rw [← hshown s e hs hmem]
    simp only [Feed.shown, hread, statusOf_append]
    rfl
  · exact absurd hstep (by simp)

/-- One step, by who moves. -/
theorem Tracks.step (h : Tracks ings w) (hsrc : ∀ i, SourceId (ings i).call.sourceId) {task : Task}
    (horderly : ∀ i, task = .ingest i → Orderly ings w i)
    (hstep : (liveFeed ings).step w task = some w') : Tracks ings w' := by
  cases task with
  | connection => exact h.connection hstep
  | ingest i =>
    have hord := horderly i rfl
    simp only [liveFeed, Feed.ingestStep] at hstep
    split at hstep
    · rename_i hpc
      obtain rfl := Option.some.inj hstep
      exact h.started hsrc hpc
    · rename_i stmt todo hpc
      obtain rfl := Option.some.inj hstep
      exact h.wrote hpc (hord.write stmt todo hpc)
    · rename_i hpc
      obtain rfl := Option.some.inj hstep
      exact h.pruned hpc (hord.prune hpc)
    · rename_i hpc
      obtain rfl := Option.some.inj hstep
      exact h.announced hsrc hpc (hord.announce hpc)
    · exact absurd hstep (by simp)

end Steps

/-! ### Runs -/

/-- Where runs start: a database with its keys, no ingest begun and no operator connected. -/
structure Feed.Initial (w : Feed) : Prop where
  wf : w.db.WF
  sources : ∀ r ∈ w.db.unitStates, SourceId r.sourceId
  idle : ∀ i, w.pcs i = .start ∧ w.dirty i = []
  closed : w.conn = .closed
  messages : w.messages = []

theorem Feed.Initial.tracks {w : Feed} (h : w.Initial) (ings : ℕ → Ingest) : Tracks ings w where
  wf := h.wf
  sources := h.sources
  inPlace i := by
    rw [(h.idle i).1]
    exact (h.idle i).2
  read := by simp [h.closed]
  sent := by simp [h.closed]

/-- No ingest is under way. -/
def Feed.Quiet (w : Feed) : Prop := ∀ i, w.pcs i = .start ∨ w.pcs i = .done

/-- **Convergence.**  After every orderly run of one connection and any ingests, once the
    snapshot is sent and no ingest is under way, the client shows of every unit the status that
    is stored, whenever the messages arrive. -/
theorem live_converges {ings : ℕ → Ingest} (hsrc : ∀ i, SourceId (ings i).call.sourceId)
    {w w' : Feed} {tasks : List Task} (hinit : w.Initial)
    (horderly : (liveFeed ings).Meets (fun w task => ∀ i, task = .ingest i → Orderly ings w i) w
      tasks)
    (hrun : (liveFeed ings).exec w tasks = some w') (hsent : w'.conn = .sent) (hquiet : w'.Quiet)
    {delivered : List (ℕ × LiveMessage)} (hdelivered : delivered.map Prod.snd = w'.messages) :
    ∀ s e, SourceId s →
      ((deliver delivered) (unitKey s e)).map LiveUnit.status = w'.db.status s e := by
  have htracks : Tracks ings w' :=
    Machine.inv_of_exec (I := Tracks ings) (fun _ _ _ h hord hstep => h.step hsrc hord hstep)
      (hinit.tracks ings) horderly hrun
  intro s e hs
  have hclean : ∀ i, (s, e) ∉ w'.dirty i := by
    intro i hmem
    have hplace := htracks.inPlace i
    rcases hquiet i with hpc | hpc <;> rw [hpc] at hplace <;>
      exact absurd hmem (by rw [show w'.dirty i = [] from hplace]; simp)
  rw [deliver_status, hdelivered, ← htracks.sent hsent s e hs hclean]
  simp only [Feed.shown, hsent]

/-! ### A service that goes down while an operator connects -/

namespace Sample

/-- The service of agent `a` is stored as up. -/
def stored : Feed where
  db := { TelemetryDb.empty with unitStates := [⟨"a", "svc", .up, none, false, none, 0⟩] }
  pcs _ := .start
  conn := .closed
  messages := []
  dirty _ := []
  sinceRead := []

/-- Ingest `0` reports it down; the service is the agent's only monitor. -/
def ings (i : ℕ) : Ingest :=
  if i = 0 then ⟨⟨"a", [{ entity := "svc", status := .down }], 0⟩, some ["svc"]⟩
  else ⟨⟨"a", [], 0⟩, none⟩

theorem stored_initial : stored.Initial :=
  ⟨⟨by decide, by decide⟩, by simp [stored, SourceId], fun _ => ⟨rfl, rfl⟩, rfl, rfl⟩

theorem ings_sources (i : ℕ) : SourceId (ings i).call.sourceId := by
  unfold ings
  split <;> simp [SourceId]

/-- Snapshot, event, log line, notification, baseline, prune and broadcast of ingest `0`. -/
def ingest : List Task := List.replicate 7 (.ingest 0)

end Sample

/-- An ingest after the snapshot is sent, beside which nobody has anything to broadcast. -/
theorem orderly_alone {ings : ℕ → Ingest} {w : Feed} {i : ℕ}
    (hothers : ∀ j, j ≠ i → w.dirty j = []) (hsent : w.conn = .sent)
    (hprune : (ings i).prune w.db = w.db) : Orderly ings w i where
  write _ _ _ k _ j hj := by simp [hothers j hj]
  announce _ units hread := by
    rw [hsent] at hread
    exact absurd hread (by simp)
  prune _ := hprune

open Sample in
/-- The ingest comes after the snapshot is sent. -/
theorem live_converges_after :
    ∃ w', (liveFeed ings).exec stored ([.connection, .connection, .connection] ++ ingest)
        = some w' ∧
      w'.db.status "a" "svc" = some .down ∧
      ((deliver (w'.messages.map (fun m => (0, m)))) (unitKey "a" "svc")).map LiveUnit.status
        = w'.db.status "a" "svc" := by
  have horderly : (liveFeed ings).Meets (fun w task => ∀ i, task = .ingest i → Orderly ings w i)
      stored ([.connection, .connection, .connection] ++ ingest) := by
    refine .cons (fun i hi => absurd hi (by simp)) rfl (.cons (fun i hi => absurd hi (by simp)) rfl
      (.cons (fun i hi => absurd hi (by simp)) rfl ?_))
    repeat
      refine .cons (fun i hi => ?_) rfl ?_
      · obtain rfl : 0 = i := by simpa using hi
        refine orderly_alone (fun j hj => ?_) rfl rfl
        match j with
        | 0 => exact absurd rfl hj
        | n + 1 => rfl
    trivial
  refine ⟨_, rfl, by decide, live_converges ings_sources stored_initial horderly rfl rfl
    (fun i => ?_) rfl "a" "svc" (by simp [SourceId])⟩
  match i with
  | 0 => exact Or.inr rfl
  | n + 1 => exact Or.inl rfl

open Sample in
/-- The patch overtakes the snapshot: the service is stored as down and shown as up. -/
theorem live_diverges :
    stored.Initial ∧ (∀ i, SourceId (ings i).call.sourceId) ∧
    ∃ w', (liveFeed ings).exec stored
        ([.connection, .connection] ++ ingest ++ [.connection]) = some w' ∧
      w'.conn = .sent ∧ w'.Quiet ∧ w'.db.status "a" "svc" = some .down ∧
      ((deliver (w'.messages.map (fun m => (0, m)))) (unitKey "a" "svc")).map LiveUnit.status
        = some .up := by
  refine ⟨stored_initial, ings_sources, _, rfl, rfl, fun i => ?_, by decide, by decide⟩
  match i with
  | 0 => exact Or.inr rfl
  | n + 1 => exact Or.inl rfl

end Argus.Pipeline
