import Argus.Pipeline.Units

namespace Argus.Pipeline

/-!
# What the statements of a call do to the baseline

* `TelemetryDb.WF` — the unique keys of the two upserted tables; every statement keeps them.
* `prevOf_selectUnits` — the snapshot of a source holds the stored row of each of its entities.
* `column_execAll`, `columns_pending` — what a call writes to one column of one baseline row:
  the values of its samples of that entity, in order.
-/

open ChangeLog

/-! ### Unique keys -/

/-- The keys of the two upserted tables are unique. -/
structure TelemetryDb.WF (db : TelemetryDb) : Prop where
  units : (db.unitStates.map UnitState.key).Nodup
  buckets : (db.uptimeBuckets.map UptimeBucket.key).Nodup

theorem TelemetryDb.WF.empty : TelemetryDb.empty.WF := ⟨List.nodup_nil, List.nodup_nil⟩

/-- Every statement keeps the keys unique. -/
theorem TelemetryDb.WF.exec {db : TelemetryDb} (h : db.WF) (stmt : Stmt) :
    (stmt.exec db).WF := by
  cases stmt with
  | insertEvents rows => exact ⟨h.units, h.buckets⟩
  | insertLogs rows => exact ⟨h.units, h.buckets⟩
  | insertNotifications rows => exact ⟨h.units, h.buckets⟩
  | addUptime bucket => exact ⟨h.units, Table.nodup_upsert bucket.key_add h.buckets⟩
  | upsertUnit row => exact ⟨Table.nodup_upsert row.key_refresh h.units, h.buckets⟩

theorem TelemetryDb.WF.execAll {db : TelemetryDb} (h : db.WF) (stmts : List Stmt) :
    (execAll db stmts).WF := by
  induction stmts generalizing db with
  | nil => exact h
  | cons stmt stmts ih => exact ih (h.exec stmt)

theorem TelemetryDb.WF.processUnits {db : TelemetryDb} (h : db.WF) (c : Call) :
    (processUnits db c).WF := by
  rw [processUnits_eq]
  exact h.execAll _

/-- The snapshot of a source holds the stored row of each of its entities. -/
theorem TelemetryDb.WF.prevOf_selectUnits {db : TelemetryDb} (h : db.WF) (sourceId e : String) :
    prevOf (db.selectUnits sourceId) e = db.unit sourceId e := by
  -- with unique keys it does not matter that `prevOf` takes the last row and `unit` the first
  cases hprev : prevOf (db.selectUnits sourceId) e with
  | none =>
    symm
    refine Table.lookup_eq_none.mpr (fun r hr hkey => ?_)
    obtain ⟨hsrc, hent⟩ := Prod.mk.inj hkey
    refine Table.lookup_eq_none.mp hprev r ?_ hent
    rw [List.mem_reverse, TelemetryDb.selectUnits, List.mem_filter]
    exact ⟨hr, decide_eq_true hsrc⟩
  | some r =>
    obtain ⟨hmem, hent⟩ := Table.lookup_some hprev
    rw [List.mem_reverse, TelemetryDb.selectUnits, List.mem_filter] at hmem
    have hkey : r.key = (sourceId, e) := Prod.ext (of_decide_eq_true hmem.2) hent
    rw [TelemetryDb.unit, ← hkey]
    exact (Table.lookup_of_mem h.units hmem.1).symm

/-! ### The columns of a baseline row -/

/-- The samples of one entity of a source that a call brings, in order. -/
def Call.samplesOf (c : Call) (sourceId e : String) : List UnitSample :=
  if c.sourceId = sourceId then c.units.filter (fun u => decide (u.entity = e)) else []

/-- The value that a statement writes to column `f` of the row of an entity. -/
def Stmt.columnOf {β : Type} (f : UnitState → β) (sourceId e : String) : Stmt → List β
  | .upsertUnit row => if row.key = (sourceId, e) then [f row] else []
  | _ => []

/-- The values that a list of statements writes to the column, in order. -/
def columns {β : Type} (f : UnitState → β) (sourceId e : String) (stmts : List Stmt) : List β :=
  stmts.flatMap (Stmt.columnOf f sourceId e)

section Columns

variable {β : Type} {f : UnitState → β} (sourceId e : String)

theorem columns_append (a b : List Stmt) :
    columns f sourceId e (a ++ b) = columns f sourceId e a ++ columns f sourceId e b :=
  List.flatMap_append

/-- A statement overwrites the column with the value it writes. -/
theorem column_exec (hf : ∀ new stored : UnitState, f (new.refresh stored) = f new)
    (db : TelemetryDb) (stmt : Stmt) :
    ((stmt.exec db).unit sourceId e).map f
      = latest ((db.unit sourceId e).map f) (stmt.columnOf f sourceId e) := by
  cases stmt with
  | insertEvents rows => rfl
  | insertLogs rows => rfl
  | insertNotifications rows => rfl
  | addUptime bucket => rfl
  | upsertUnit row =>
    unfold TelemetryDb.unit Stmt.columnOf Stmt.exec
    dsimp only
    by_cases hkey : row.key = (sourceId, e)
    -- inserted or refreshed, the column has the value of the new row
    · rw [if_pos hkey, ← hkey, Table.lookup_upsert_self row.key_refresh, latest_cons, latest_nil]
      cases Table.lookup UnitState.key row.key db.unitStates with
      | none => rfl
      | some stored => exact congrArg some (hf row stored)
    · rw [if_neg hkey, Table.lookup_upsert_of_ne row.key_refresh hkey, latest_nil]

theorem column_execAll (hf : ∀ new stored : UnitState, f (new.refresh stored) = f new)
    (db : TelemetryDb) (stmts : List Stmt) :
    ((execAll db stmts).unit sourceId e).map f
      = latest ((db.unit sourceId e).map f) (columns f sourceId e stmts) := by
  induction stmts generalizing db with
  | nil => rfl
  | cons stmt stmts ih =>
    show ((execAll (stmt.exec db) stmts).unit sourceId e).map f = _
    rw [ih, column_exec sourceId e hf, ← latest_append]
    rfl

/-- The baseline writes bring the values of the samples, in order. -/
theorem columns_baselineWrites (c : Call) :
    columns f sourceId e c.baselineWrites
      = (c.samplesOf sourceId e).map (fun u => f (c.baseline u)) := by
  unfold Call.samplesOf Call.baselineWrites
  induction c.units with
  | nil => split <;> rfl
  | cons u units ih =>
    have hcons : columns f sourceId e ((u :: units).map (fun u => .upsertUnit (c.baseline u)))
        = Stmt.columnOf f sourceId e (.upsertUnit (c.baseline u))
          ++ columns f sourceId e (units.map (fun u => .upsertUnit (c.baseline u))) := rfl
    have hkey : (c.baseline u).key = (c.sourceId, u.entity) := rfl
    rw [hcons, ih, Stmt.columnOf, hkey]
    by_cases hsrc : c.sourceId = sourceId <;> by_cases hent : u.entity = e <;> simp [hsrc, hent]

/-- Of the statements of a call only the baseline writes touch the baseline. -/
theorem columns_writes (c : Call) (prevRows : List UnitState) :
    columns f sourceId e (c.writes prevRows)
      = (c.samplesOf sourceId e).map (fun u => f (c.baseline u)) := by
  have hinserts : columns f sourceId e (c.inserts prevRows) = [] := by
    refine List.flatMap_eq_nil_iff.mpr (fun stmt hstmt => ?_)
    obtain ⟨rows, rfl⟩ | ⟨rows, rfl⟩ | ⟨rows, rfl⟩ := Call.mem_inserts hstmt <;> rfl
  have huptime : columns f sourceId e (c.uptimeWrites prevRows) = [] := by
    refine List.flatMap_eq_nil_iff.mpr (fun stmt hstmt => ?_)
    obtain ⟨bucket, rfl⟩ := Call.mem_uptimeWrites hstmt
    rfl
  rw [Call.writes, columns_append, columns_append, hinserts, huptime, List.nil_append,
    List.nil_append, columns_baselineWrites]

/-- **Call lemma, baseline.** A call writes the values of its samples. -/
theorem columns_pending (db : TelemetryDb) (c : Call) :
    columns f sourceId e (c.pending db)
      = (c.samplesOf sourceId e).map (fun u => f (c.baseline u)) := by
  unfold Call.pending
  by_cases hnil : c.units = []
  · rw [if_pos hnil, Call.samplesOf, hnil]
    split <;> rfl
  · rw [if_neg hnil, columns_writes]

end Columns

end Argus.Pipeline
