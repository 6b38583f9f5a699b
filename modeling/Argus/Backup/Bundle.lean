import Argus.Backup.Tables

namespace Argus.Backup

open Relational

/-!
# Backup — bundles, export and import

`exportDatabases` reads the tables of the two orders into a bundle; `importDatabases` empties
those tables and fills them again, one statement after the other and outside of any
transaction.

* `restoreStmts`, `importStmts` — the statements of a restore, in the order they are issued.
* `runFrom` — they are executed up to the first one that fails: because of a constraint, or
  for a reason outside the data (`Faults`), such as a lost connection.
* `importDatabases_stmts` — an import is that run, with the error named after the database.
-/

variable {E : Engine}

abbrev Rows := List (String × List Row)

/-- The contents of both databases. -/
abbrev Databases := Db TableName Row

/-- The version of every bundle that is written, `1`. -/
def bundleVersion : JsonNumber := ⟨['1'], by decide⟩

/-- A snapshot; a database that the bundle omits is `none`. -/
structure BackupBundle where
  version : JsonNumber
  createdAt : String
  scope : Option BackupScope
  master : Option Rows
  telemetry : Option Rows

/-! ### Export -/

/-- `dumpTables`. -/
def dumpTables (db : Databases) (order : List TableName) : Rows :=
  order.map (fun t => (t.name, db t))

/-- `exportDatabases`. -/
def exportDatabases (db : Databases) (createdAt : String) (scope : BackupScope) : BackupBundle where
  version := bundleVersion
  createdAt := createdAt
  scope := some scope
  master := if scope ≠ .data then some (dumpTables db masterTableOrder) else none
  telemetry := if scope ≠ .config then some (dumpTables db telemetryTableOrder) else none

/-! ### The statements of an import -/

/-- `INSERT_CHUNK`. -/
def insertChunk : ℕ := 500

/-- The chunks of a table, from the rows that are left; the first argument bounds their
    number. -/
def chunksFrom : ℕ → List Row → List (List Row)
  | 0, _ => []
  | n + 1, rows =>
    if rows.isEmpty then [] else rows.take insertChunk :: chunksFrom n (rows.drop insertChunk)

def chunks (rows : List Row) : List (List Row) := chunksFrom rows.length rows

/-- The inserts of one table: none when its key is missing or its list is empty. -/
def insertStmts (data : Rows) (t : TableName) : List (Stmt TableName Row) :=
  match data.lookup t.name with
  | none => []
  | some rows => if rows.length = 0 then [] else (chunks rows).map (.insert t)

/-- The statements of `restoreOne`: deletes from the last table to the first, then inserts
    from the first to the last. -/
def restoreStmts (order : List TableName) (data : Rows) : List (Stmt TableName Row) :=
  order.reverse.map .delete ++ order.flatMap (insertStmts data)

/-- What a database restores of a bundle: nothing when the bundle omits it. -/
def sliceStmts (order : List TableName) : Option Rows → List (Stmt TableName Row)
  | none => []
  | some data => restoreStmts order data

def importStmts (bundle : BackupBundle) : List (Stmt TableName Row) :=
  sliceStmts masterTableOrder bundle.master ++ sliceStmts telemetryTableOrder bundle.telemetry

/-! ### Running them -/

/-- The statements that fail for a reason outside the data, by their position in the import,
    with the text of the error. -/
abbrev Faults := ℕ → Option String

/-- One statement.  A statement that fails changes nothing. -/
def Engine.exec (E : Engine) (fault : Option String) (db : Databases)
    (s : Stmt TableName Row) : Except String Databases :=
  match fault with
  | some msg => .error msg
  | none =>
    match E.schema.exec db s with
    | some db' => .ok db'
    | none => .error (E.message s)

/-- The statements from position `n` on: the error of the first one that fails, and the
    databases as they are then. -/
def Engine.runFrom (E : Engine) (faults : Faults) :
    ℕ → List (Stmt TableName Row) → Databases → Except String Unit × Databases
  | _, [], db => (.ok (), db)
  | n, s :: ss, db =>
    match E.exec (faults n) db s with
    | .error msg => (.error msg, db)
    | .ok db' => E.runFrom faults (n + 1) ss db'

/-- `restoreOne`, from statement `n` of the import on. -/
def Engine.restoreOne (E : Engine) (faults : Faults) (n : ℕ) (db : Databases)
    (order : List TableName) (data : Rows) : Except String Unit × Databases :=
  E.runFrom faults n (restoreStmts order data) db

/-- One of the two blocks of `importDatabases`. -/
def Engine.restoreSlice (E : Engine) (faults : Faults) (n : ℕ) (db : Databases) (label : String)
    (order : List TableName) (slice : Option Rows) : Except String Unit × Databases :=
  match slice with
  | none => (.ok (), db)
  | some data =>
    match E.restoreOne faults n db order data with
    | (.error msg, db') => (.error (label ++ " restore failed: " ++ msg), db')
    | (.ok (), db') => (.ok (), db')

/-- `importDatabases`. -/
def Engine.importDatabases (E : Engine) (faults : Faults) (db : Databases)
    (bundle : BackupBundle) : Except String Unit × Databases :=
  match E.restoreSlice faults 0 db "master" masterTableOrder bundle.master with
  | (.error msg, db') => (.error msg, db')
  | (.ok (), db') =>
    E.restoreSlice faults (sliceStmts masterTableOrder bundle.master).length db' "telemetry"
      telemetryTableOrder bundle.telemetry

/-! ### The statements rebuild the tables of the orders -/

theorem flatten_chunksFrom (n : ℕ) (rows : List Row) (h : rows.length ≤ n) :
    (chunksFrom n rows).flatten = rows := by
  induction n generalizing rows with
  | zero =>
    rw [List.eq_nil_of_length_eq_zero (Nat.le_zero.mp h)]
    rfl
  | succ n ih =>
    cases rows with
    | nil => rfl
    | cons r rows =>
      have hdrop : ((r :: rows).drop insertChunk).length ≤ n := by
        simp only [List.length_drop, List.length_cons, insertChunk] at h ⊢
        omega
      rw [chunksFrom, if_neg (by simp), List.flatten_cons, ih _ hdrop, List.take_append_drop]

theorem flatten_chunks (rows : List Row) : (chunks rows).flatten = rows :=
  flatten_chunksFrom rows.length rows le_rfl

/-- The chunks of a table in a slice. -/
def tableChunks (data : Rows) (t : TableName) : List (List Row) :=
  chunks ((data.lookup t.name).getD [])

theorem restoreStmts_eq (order : List TableName) (data : Rows) :
    restoreStmts order data = Schema.rebuild order (tableChunks data) := by
  have hinsert : insertStmts data = fun t => (tableChunks data t).map (.insert t) := by
    funext t
    rw [insertStmts, tableChunks]
    cases data.lookup t.name with
    | none => rfl
    | some rows => cases rows <;> rfl
  rw [restoreStmts, Schema.rebuild, hinsert]

theorem clean_sliceStmts {order : List TableName} (hord : E.schema.Ordered order)
    (slice : Option Rows) : E.schema.Clean [] (sliceStmts order slice) := by
  cases slice with
  | none => trivial
  | some data =>
    rw [sliceStmts, restoreStmts_eq]
    exact Schema.clean_rebuild hord

theorem clean_importStmts (bundle : BackupBundle) : E.schema.Clean [] (importStmts bundle) :=
  (clean_sliceStmts ordered_master bundle.master).append
    (clean_sliceStmts ordered_telemetry bundle.telemetry)

/-- The tables a slice empties are those of its order. -/
theorem deletes_sliceStmts (order : List TableName) (slice : Option Rows) (t : TableName) :
    Schema.deletes t (sliceStmts order slice) = (slice.isSome && decide (t ∈ order)) := by
  cases slice with
  | none => rfl
  | some data =>
    rw [sliceStmts, restoreStmts_eq, Schema.deletes_rebuild]
    rfl

theorem rebuilds_sliceStmts (order : List TableName) (slice : Option Rows) :
    Schema.Rebuilds (sliceStmts order slice) := by
  cases slice with
  | none => exact fun t rows a b h => absurd h (by simp [sliceStmts])
  | some data =>
    rw [sliceStmts, restoreStmts_eq]
    exact Schema.rebuilds_rebuild

theorem rebuilds_importStmts (bundle : BackupBundle) : Schema.Rebuilds (importStmts bundle) := by
  refine (rebuilds_sliceStmts _ _).append (rebuilds_sliceStmts _ _) (fun t ht => ?_)
  rw [deletes_sliceStmts, Bool.and_eq_true, decide_eq_true_eq] at ht
  rw [deletes_sliceStmts]
  simp [disjoint_orders t ht.2]

/-! ### Runs -/

theorem exec_eq_ok {fault : Option String} {db db' : Databases} {s : Stmt TableName Row} :
    E.exec fault db s = .ok db' ↔ fault = none ∧ E.schema.exec db s = some db' := by
  unfold Engine.exec
  cases fault <;> cases E.schema.exec db s <;> simp

theorem exec_eq_error {fault : Option String} {db : Databases} {s : Stmt TableName Row} :
    (∃ msg, E.exec fault db s = .error msg) ↔ fault ≠ none ∨ E.schema.exec db s = none := by
  unfold Engine.exec
  cases fault <;> cases E.schema.exec db s <;> simp

theorem runFrom_append (faults : Faults) (a b : List (Stmt TableName Row)) (n : ℕ)
    (db : Databases) :
    E.runFrom faults n (a ++ b) db
      = match E.runFrom faults n a db with
        | (.error msg, db') => (.error msg, db')
        | (.ok (), db') => E.runFrom faults (n + a.length) b db' := by
  induction a generalizing n db with
  | nil => rfl
  | cons s a ih =>
    rw [List.cons_append, Engine.runFrom, Engine.runFrom]
    cases E.exec (faults n) db s with
    | error msg => rfl
    | ok db' =>
      simp only [ih, List.length_cons]
      rw [Nat.add_right_comm, Nat.add_assoc]

/-- A run that ends without an error has met no fault, and no statement of it was refused. -/
theorem runFrom_eq_ok {faults : Faults} {n : ℕ} {ss : List (Stmt TableName Row)}
    {db db' : Databases} :
    E.runFrom faults n ss db = (.ok (), db') ↔
      (∀ i < ss.length, faults (n + i) = none) ∧ E.schema.run ss db = some db' := by
  induction ss generalizing n db with
  | nil => simp [Engine.runFrom, Schema.run]
  | cons s ss ih =>
    have hquiet : (∀ i < (s :: ss).length, faults (n + i) = none) ↔
        faults n = none ∧ ∀ i < ss.length, faults (n + 1 + i) = none := by
      rw [List.length_cons, Nat.forall_lt_succ_left]
      simp only [Nat.add_zero, Nat.add_assoc, Nat.add_comm 1]
    rw [Engine.runFrom, hquiet, Schema.run]
    cases hexec : E.exec (faults n) db s with
    | error msg =>
      have hfail := exec_eq_error.mp ⟨msg, hexec⟩
      simp only [Prod.mk.injEq, reduceCtorEq, false_and, false_iff, not_and]
      rintro ⟨hnone, -⟩ hrun
      rw [hfail.resolve_left (not_not_intro hnone)] at hrun
      exact absurd hrun (by simp)
    | ok db₁ =>
      obtain ⟨hnone, hsome⟩ := exec_eq_ok.mp hexec
      simp only [hsome, Option.bind_some, hnone, true_and]
      exact ih

/-- The statements of `done` go through and `s`, the next one, fails. -/
structure FailsAfter (E : Engine) (faults : Faults) (n : ℕ) (done : List (Stmt TableName Row))
    (s : Stmt TableName Row) (db db' : Databases) : Prop where
  run : E.schema.run done db = some db'
  quiet : ∀ i < done.length, faults (n + i) = none
  fails : faults (n + done.length) ≠ none ∨ E.schema.exec db' s = none

/-- A run that ends with an error stops at a first statement that fails, with the databases
    as the ones before it left them. -/
theorem runFrom_eq_error {faults : Faults} {n : ℕ} {ss : List (Stmt TableName Row)}
    {db db' : Databases} :
    (∃ msg, E.runFrom faults n ss db = (.error msg, db')) ↔
      ∃ done s rest, ss = done ++ s :: rest ∧ FailsAfter E faults n done s db db' := by
  constructor
  · rintro ⟨msg, h⟩
    induction ss generalizing n db with
    | nil => simp [Engine.runFrom] at h
    | cons s ss ih =>
      rw [Engine.runFrom] at h
      cases hexec : E.exec (faults n) db s with
      | error msg' =>
        simp only [hexec, Prod.mk.injEq] at h
        obtain ⟨-, rfl⟩ := h
        exact ⟨[], s, ss, rfl, rfl, by simp, exec_eq_error.mp ⟨msg', hexec⟩⟩
      | ok db₁ =>
        simp only [hexec] at h
        obtain ⟨hnone, hsome⟩ := exec_eq_ok.mp hexec
        obtain ⟨done, s', rest, rfl, hfails⟩ := ih h
        refine ⟨s :: done, s', rest, rfl, ?_, ?_, ?_⟩
        · rw [Schema.run, hsome]
          exact hfails.run
        · rw [List.length_cons, Nat.forall_lt_succ_left]
          refine ⟨hnone, fun i hi => ?_⟩
          rw [Nat.add_comm i 1, ← Nat.add_assoc]
          exact hfails.quiet i hi
        · rw [List.length_cons, Nat.add_comm done.length 1, ← Nat.add_assoc]
          exact hfails.fails
  · rintro ⟨done, s, rest, rfl, hfails⟩
    have hdone := runFrom_eq_ok.mpr ⟨hfails.quiet, hfails.run⟩
    obtain ⟨msg, hexec⟩ := exec_eq_error.mpr hfails.fails
    rw [runFrom_append, hdone]
    refine ⟨msg, ?_⟩
    simp only [Engine.runFrom, hexec]

/-- The restore of a slice runs its statements and only words the error anew. -/
theorem restoreSlice_runFrom {faults : Faults} {n : ℕ} {db db' : Databases} {label : String}
    {order : List TableName} {slice : Option Rows} :
    (E.restoreSlice faults n db label order slice = (.ok (), db') ↔
      E.runFrom faults n (sliceStmts order slice) db = (.ok (), db')) ∧
    ((∃ msg, E.restoreSlice faults n db label order slice = (.error msg, db')) ↔
      ∃ msg, E.runFrom faults n (sliceStmts order slice) db = (.error msg, db')) := by
  cases slice with
  | none => exact ⟨Iff.rfl, Iff.rfl⟩
  | some data =>
    rw [Engine.restoreSlice, Engine.restoreOne, sliceStmts]
    rcases E.runFrom faults n (restoreStmts order data) db with ⟨_ | _, _⟩ <;> simp

/-- An import runs its statements, one database after the other. -/
theorem importDatabases_runFrom (faults : Faults) (db : Databases) (bundle : BackupBundle)
    (db' : Databases) :
    (E.importDatabases faults db bundle = (.ok (), db') ↔
      E.runFrom faults 0 (importStmts bundle) db = (.ok (), db')) ∧
    ((∃ msg, E.importDatabases faults db bundle = (.error msg, db')) ↔
      ∃ msg, E.runFrom faults 0 (importStmts bundle) db = (.error msg, db')) := by
  rw [importStmts, runFrom_append, Nat.zero_add, Engine.importDatabases]
  match hmaster : E.runFrom faults 0 (sliceStmts masterTableOrder bundle.master) db with
  | (.error msg, db₁) =>
    obtain ⟨msg', hslice⟩ := restoreSlice_runFrom.2.mpr ⟨msg, hmaster⟩
    rw [hslice]
    simp
  | (.ok (), db₁) =>
    rw [restoreSlice_runFrom.1.mpr hmaster]
    exact restoreSlice_runFrom

theorem importDatabases_eq_ok {faults : Faults} {db db' : Databases} {bundle : BackupBundle} :
    E.importDatabases faults db bundle = (.ok (), db') ↔
      (∀ i < (importStmts bundle).length, faults i = none) ∧
        E.schema.run (importStmts bundle) db = some db' := by
  rw [(importDatabases_runFrom faults db bundle db').1, runFrom_eq_ok]
  simp only [Nat.zero_add]

theorem importDatabases_eq_error {faults : Faults} {db db' : Databases}
    {bundle : BackupBundle} :
    (∃ msg, E.importDatabases faults db bundle = (.error msg, db')) ↔
      ∃ done s rest, importStmts bundle = done ++ s :: rest ∧
        FailsAfter E faults 0 done s db db' :=
  (importDatabases_runFrom faults db bundle db').2.trans runFrom_eq_error

/-- What a table holds when a part of the statements of an import has been executed. -/
theorem rows_of_importStmts {bundle : BackupBundle} {done rest : List (Stmt TableName Row)}
    {db db' : Databases} (hsplit : importStmts bundle = done ++ rest)
    (hrun : E.schema.run done db = some db') (t : TableName) :
    db' t = if Schema.deletes t done then E.schema.inserted t done else db t := by
  have hclean : E.schema.Clean [] (importStmts bundle) := clean_importStmts bundle
  have hrebuilds : Schema.Rebuilds (importStmts bundle) := rebuilds_importStmts bundle
  rw [hsplit] at hclean hrebuilds
  rw [Schema.run_clean hclean.of_append (by simp) hrun t, hrebuilds.of_append.foldl_on]

end Argus.Backup
