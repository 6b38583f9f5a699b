import Argus.Backup.Bundle

namespace Argus.Backup

open Relational TableName

/-!
# Backup — what a restore leaves

The content of a table is its list of rows up to their order.

* `failed_import_content` — an import that throws has executed the statements in front of the
  one that failed and no others: nothing is rolled back.  The data is as it was only if every
  table emptied by then held just the rows that had been put back.
* `import_export_restores` — an import of an export puts the rows of the source into the tables
  of the two orders, parents first; the tables of the schema that the orders miss keep the
  rows of the target.
* `restoreOne_absent` — a table that a slice does not mention is emptied like the others.
-/

variable {E : Engine} {faults : Faults} {bundle : BackupBundle} {db db' : Databases}

/-! ### A restore that fails -/

/-- **Nothing is rolled back.**  At the first statement that fails every table emptied so far
    holds the rows put into it since, and every other table is untouched; so both databases
    have the content they had if and only if each table emptied so far held just those
    rows. -/
theorem failed_import_content {msg : String}
    (h : E.importDatabases faults db bundle = (.error msg, db')) :
    (∃ done s rest, importStmts bundle = done ++ s :: rest ∧
      FailsAfter E faults 0 done s db db') ∧
    ∀ done s rest, importStmts bundle = done ++ s :: rest →
      FailsAfter E faults 0 done s db db' →
      (∀ t, db' t = if Schema.deletes t done then E.schema.inserted t done else db t) ∧
      ((∀ t, (db' t).Perm (db t)) ↔
        ∀ t, Schema.deletes t done = true → (db t).Perm (E.schema.inserted t done)) := by
  refine ⟨importDatabases_eq_error.mp ⟨msg, h⟩, fun done s rest hsplit hfails => ?_⟩
  have hrows := rows_of_importStmts hsplit hfails.run
  refine ⟨hrows, fun hsame t ht => ?_, fun hback t => ?_⟩
  · have hperm := hsame t
    rw [hrows t, if_pos ht] at hperm
    exact hperm.symm
  · rw [hrows t]
    cases ht : Schema.deletes t done with
    | true => exact (hback t ht).symm
    | false => exact List.Perm.refl _

/-- A table with unique ids and no other constraint of its own. -/
def keyedEngine : Engine where
  store := fun _ r => r
  ok := fun _ rows => decide (rows.filterMap (Row.column "id")).Nodup
  ok_of_append := by
    intro _ xs ys h
    rw [decide_eq_true_eq, List.filterMap_append] at h
    exact decide_eq_true (List.nodup_append.mp h).1
  message := fun _ => "violates a constraint"

/-- The databases with rows in one table only. -/
def only (t : TableName) (rows : List Row) : Databases := fun u => if u = t then rows else []

def keyedRow (id : String) : Row := ⟨.obj [("id", .str id)], by simp [Json.wf, Json.wfMembers]⟩

/-- A row that belongs to a user. -/
def ownedRow (id userId : String) : Row :=
  ⟨.obj [("id", .str id), ("userId", .str userId)], by simp [Json.wf, Json.wfMembers]⟩

def oneUser : Databases := only users [keyedRow "alice"]

/-- A bundle with an attribute of a user that it lacks. -/
def danglingBundle : BackupBundle where
  version := bundleVersion
  createdAt := "2026-01-01T00:00:00.000Z"
  scope := some .config
  master := some [("userAttributes", [ownedRow "a1" "ghost"])]
  telemetry := none

/-- The insert of the attribute is refused when every user has been deleted. -/
theorem failed_import_loses :
    ¬ ∀ (E : Engine) (faults : Faults) (bundle : BackupBundle) (db db' : Databases)
      (msg : String), E.importDatabases faults db bundle = (.error msg, db') →
        ∀ t, (db' t).Perm (db t) := by
  intro h
  have hfails : keyedEngine.importDatabases (fun _ => none) oneUser danglingBundle
      = (.error "master restore failed: violates a constraint",
        (keyedEngine.importDatabases (fun _ => none) oneUser danglingBundle).2) :=
    Prod.ext (by rfl) rfl
  have hperm := (h _ _ _ _ _ _ hfails users).length_eq
  exact absurd hperm (by decide +kernel)

/-- When the first statement fails nothing has happened yet. -/
theorem failed_import_content_first :
    ∃ db', keyedEngine.importDatabases (fun _ => some "connection lost") oneUser danglingBundle
        = (.error "master restore failed: connection lost", db') ∧
      (db' users).Perm (oneUser users) := by
  have hfails : keyedEngine.importDatabases (fun _ => some "connection lost") oneUser
      danglingBundle = (.error "master restore failed: connection lost", oneUser) := rfl
  have hcontent := (failed_import_content hfails).2 [] (.delete publicConfig) _ rfl
    ⟨rfl, by simp, Or.inl (by simp)⟩
  have hkept := hcontent.2.mpr (fun t ht => absurd ht (by simp [Schema.deletes]))
  exact ⟨oneUser, hfails, hkept users⟩

/-! ### Restoring what was exported -/

theorem lookup_dumpTables (db : Databases) {order : List TableName} {t : TableName}
    (ht : t ∈ order) : (dumpTables db order).lookup t.name = some (db t) := by
  induction order with
  | nil => exact absurd ht List.not_mem_nil
  | cons u order ih =>
    rw [dumpTables, List.map_cons, List.lookup_cons]
    by_cases heq : t = u
    · subst heq
      simp
    · have hname : (t.name == u.name) = false := by
        rw [beq_eq_false_iff_ne]
        exact fun h => heq (name_injective h)
      rw [hname]
      exact ih (List.mem_of_ne_of_mem heq ht)

/-- The chunks of an exported table are its rows. -/
theorem flatten_tableChunks (db : Databases) {order : List TableName} {t : TableName}
    (ht : t ∈ order) : (tableChunks (dumpTables db order) t).flatten = db t := by
  rw [tableChunks, lookup_dumpTables db ht, Option.getD_some, flatten_chunks]

/-- The rows a slice puts into a table: those of its chunks, for a table of the order. -/
theorem inserted_sliceStmts {order : List TableName} (hnodup : order.Nodup)
    (slice : Option Rows) (t : TableName) : E.schema.inserted t (sliceStmts order slice)
      = if t ∈ order then ((slice.elim [] (tableChunks · t)).flatten).map (E.store t) else [] := by
  cases slice with
  | none => simp [sliceStmts, Schema.inserted]
  | some data =>
    rw [sliceStmts, restoreStmts_eq, Schema.inserted_rebuild hnodup]
    rfl

/-- The tables a backup knows. -/
def listed : List TableName := masterTableOrder ++ telemetryTableOrder

/-- An import of an export empties the known tables of the databases in its scope. -/
theorem deletes_export (source : Databases) (createdAt : String) (scope : BackupScope)
    (t : TableName) :
    Schema.deletes t (importStmts (exportDatabases source createdAt scope))
      = (scope.captures t.database && decide (t ∈ listed)) := by
  rw [importStmts, Schema.deletes_append, deletes_sliceStmts, deletes_sliceStmts]
  cases scope <;> cases t <;> rfl

/-- It puts the rows of the source into them. -/
theorem inserted_export (source : Databases) (createdAt : String) {scope : BackupScope}
    {t : TableName} (hscope : scope.captures t.database = true) (ht : t ∈ listed) :
    E.schema.inserted t (importStmts (exportDatabases source createdAt scope))
      = (source t).map (E.store t) := by
  rw [importStmts, Schema.inserted_append, inserted_sliceStmts (by decide),
    inserted_sliceStmts (by decide)]
  rcases List.mem_append.mp ht with hmaster | htelemetry
  · have hne : scope ≠ .data := by
      rw [database_of_master t hmaster] at hscope
      rintro rfl
      exact Bool.noConfusion hscope
    rw [if_pos hmaster, if_neg (disjoint_orders t hmaster), List.append_nil]
    simp only [exportDatabases, if_pos hne, Option.elim_some, flatten_tableChunks source hmaster]
  · have hne : scope ≠ .config := by
      rw [database_of_telemetry t htelemetry] at hscope
      rintro rfl
      exact Bool.noConfusion hscope
    have hnot : t ∉ masterTableOrder := fun hmaster => disjoint_orders t hmaster htelemetry
    rw [if_neg hnot, if_pos htelemetry, List.nil_append]
    simp only [exportDatabases, if_pos hne, Option.elim_some,
      flatten_tableChunks source htelemetry]

/-- Every row that an insert refers to has been inserted before. -/
def ParentsFirst (E : Engine) (ss : List (Stmt TableName Row)) : Prop :=
  ∀ done t rows rest, ss = done ++ .insert t rows :: rest →
    ∀ r ∈ rows, ∀ fk ∈ foreignKeys t, ∀ k, fk.column r = some k →
      ∃ p ∈ E.schema.inserted fk.parent done, p.column "id" = some k

theorem map_store {source : Databases} (hvalid : E.schema.Valid source) (t : TableName) :
    (source t).map (E.store t) = source t := by
  conv_rhs => rw [← List.map_id (source t)]
  exact List.map_congr_left (hvalid.stored t)

/-- What an import of an export leaves. -/
theorem rows_of_import_export {source target target' : Databases} {createdAt : String}
    {scope : BackupScope} (hvalid : E.schema.Valid source)
    (h : E.importDatabases faults target (exportDatabases source createdAt scope)
      = (.ok (), target')) (t : TableName) :
    target' t = if scope.captures t.database = true ∧ t ∈ listed then source t else target t := by
  have hrun := (importDatabases_eq_ok.mp h).2
  rw [rows_of_importStmts (List.append_nil _).symm hrun t, deletes_export]
  simp only [Bool.and_eq_true, decide_eq_true_eq]
  split
  · rename_i hboth
    rw [inserted_export source createdAt hboth.1 hboth.2, map_store hvalid]
  · rfl

/-- An insert of a slice is a chunk of a table of its order. -/
theorem insert_of_sliceStmts {order : List TableName} {slice : Option Rows} {t : TableName}
    {rows : List Row} {a b : List (Stmt TableName Row)}
    (h : sliceStmts order slice = a ++ .insert t rows :: b) :
    ∃ data, slice = some data ∧ t ∈ order ∧ rows ∈ tableChunks data t := by
  cases slice with
  | none => exact absurd h (by simp [sliceStmts])
  | some data =>
    rw [sliceStmts, restoreStmts_eq] at h
    obtain ⟨ht, hrows, -⟩ := Schema.rebuild_split h
    exact ⟨data, rfl, ht, hrows⟩

/-- Telemetry tables refer to nothing. -/
theorem foreignKeys_telemetry : ∀ t ∈ telemetryTableOrder, foreignKeys t = [] := by decide

/-- The rows of a master slice refer to rows that the slice has put in before. -/
theorem parentsFirst_master {source : Databases} (hvalid : E.schema.Valid source) :
    ParentsFirst E (sliceStmts masterTableOrder (some (dumpTables source masterTableOrder))) := by
  intro done t rows rest heq r hr fk hfk k hk
  obtain ⟨data, hdata, ht, hrows⟩ := insert_of_sliceStmts heq
  obtain rfl := Option.some.inj hdata
  have hparent : fk.parent ∈ masterTableOrder := ((ordered_master (E := E)).closed t fk hfk).mp ht
  have hall : E.schema.inserted fk.parent done = source fk.parent := by
    rw [sliceStmts, restoreStmts_eq] at heq
    rw [Schema.inserted_parent ordered_master heq hfk, Schema.inserted_rebuild (by decide),
      if_pos hparent, flatten_tableChunks source hparent]
    exact map_store hvalid fk.parent
  have hsource : r ∈ source t := by
    rw [← flatten_tableChunks source ht]
    exact List.mem_flatten_of_mem hrows hr
  have hrefers := hvalid.refers t r hsource fk hfk
  simp only [Schema.refers, hk, Option.all_some, List.any_eq_true, decide_eq_true_eq] at hrefers
  rw [hall]
  exact hrefers

theorem parentsFirst_export {source : Databases} (hvalid : E.schema.Valid source)
    (createdAt : String) (scope : BackupScope) :
    ParentsFirst E (importStmts (exportDatabases source createdAt scope)) := by
  intro done t rows rest heq r hr fk hfk k hk
  -- a table that refers to another one is not filled by the telemetry slice
  have htelemetry : ∀ slice a b,
      sliceStmts telemetryTableOrder slice ≠ a ++ .insert t rows :: b := by
    intro slice a b hslice
    obtain ⟨-, -, ht, -⟩ := insert_of_sliceStmts hslice
    rw [foreignKeys_telemetry t ht] at hfk
    exact absurd hfk List.not_mem_nil
  rw [importStmts] at heq
  rcases List.append_eq_append_iff.mp heq with ⟨u, -, hslice⟩ | ⟨u, hmaster, hrest⟩
  · exact absurd hslice (htelemetry _ u rest)
  · cases u with
    | nil => exact absurd hrest.symm (htelemetry _ [] rest)
    | cons s u =>
      obtain ⟨rfl, -⟩ := List.cons.inj hrest
      have hscope : (exportDatabases source createdAt scope).master
          = some (dumpTables source masterTableOrder) := by
        obtain ⟨data, hdata, -⟩ := insert_of_sliceStmts hmaster
        simp only [exportDatabases] at hdata ⊢
        split at hdata
        · rename_i hne
          exact if_pos hne
        · exact absurd hdata (by simp)
      rw [hscope] at hmaster
      exact parentsFirst_master hvalid done t rows u hmaster r hr fk hfk k hk

/-- A slice with the tables of a valid source is not refused, whatever the database held. -/
theorem run_sliceStmts {source : Databases} (hvalid : E.schema.Valid source)
    {order : List TableName} (hord : E.schema.Ordered order) (slice : Option Rows)
    (hslice : slice = some (dumpTables source order) ∨ slice = none) (db : Databases) :
    ∃ db', E.schema.run (sliceStmts order slice) db = some db' := by
  rcases hslice with rfl | rfl
  · rw [sliceStmts, restoreStmts_eq]
    exact Schema.run_rebuild hord hvalid (fun t ht => flatten_tableChunks source ht) db
  · exact ⟨db, rfl⟩

/-- An import of an export succeeds on every target, unless something outside the data
    fails. -/
theorem import_export_ok {source : Databases} (hvalid : E.schema.Valid source)
    (target : Databases) (createdAt : String) (scope : BackupScope)
    (hquiet : ∀ n, faults n = none) :
    ∃ target', E.importDatabases faults target (exportDatabases source createdAt scope)
      = (.ok (), target') := by
  obtain ⟨db₁, hmaster⟩ := run_sliceStmts hvalid ordered_master
    (exportDatabases source createdAt scope).master (ite_eq_or_eq _ _ _) target
  obtain ⟨db₂, htelemetry⟩ := run_sliceStmts hvalid ordered_telemetry
    (exportDatabases source createdAt scope).telemetry (ite_eq_or_eq _ _ _) db₁
  refine ⟨db₂, importDatabases_eq_ok.mpr ⟨fun i _ => hquiet i, ?_⟩⟩
  rw [importStmts, Schema.run_append, hmaster, Option.bind_some, htelemetry]

/-- What a restore of a backup is to do: the captured databases get the source's content,
    every insert finds the rows it refers to, a database outside the scope is untouched, and
    a second restore changes nothing. -/
structure Restores (E : Engine) (source target target' : Databases) (createdAt : String)
    (scope : BackupScope) : Prop where
  captured : ∀ t, scope.captures t.database = true → (target' t).Perm (source t)
  parentsFirst : ParentsFirst E (importStmts (exportDatabases source createdAt scope))
  outside : ∀ t, scope.captures t.database = false → target' t = target t
  twice : E.importDatabases (fun _ => none) target' (exportDatabases source createdAt scope)
    = (.ok (), target')

/-- **Import after export.**  It does all of this if and only if the target already agreed
    with the source on the captured tables that are in none of the two orders. -/
theorem import_export_restores {source target target' : Databases} {createdAt : String}
    {scope : BackupScope} (hvalid : E.schema.Valid source)
    (h : E.importDatabases faults target (exportDatabases source createdAt scope)
      = (.ok (), target')) :
    Restores E source target target' createdAt scope ↔
      ∀ t, scope.captures t.database = true → t ∉ listed → (target t).Perm (source t) := by
  have hrows := rows_of_import_export hvalid h
  constructor
  · intro hrestores t hscope hnot
    have hperm := hrestores.captured t hscope
    rwa [hrows t, if_neg (fun hboth => hnot hboth.2)] at hperm
  · intro hmissed
    refine ⟨fun t hscope => ?_, parentsFirst_export hvalid createdAt scope,
      fun t hscope => ?_, ?_⟩
    · rw [hrows t]
      by_cases ht : t ∈ listed
      · rw [if_pos ⟨hscope, ht⟩]
      · rw [if_neg (fun hboth => ht hboth.2)]
        exact hmissed t hscope ht
    · rw [hrows t, if_neg]
      rintro ⟨hcaptured, -⟩
      rw [hscope] at hcaptured
      exact Bool.noConfusion hcaptured
    · obtain ⟨target'', htwice⟩ :=
        import_export_ok hvalid target' createdAt scope (fun _ => rfl)
      obtain rfl : target'' = target' := by
        funext t
        rw [rows_of_import_export hvalid htwice t, hrows t]
        split <;> rfl
      exact htwice

/-- A table of one row that refers to nothing is a valid source. -/
theorem valid_only {t : TableName} (hfk : foreignKeys t = []) (r : Row) :
    keyedEngine.schema.Valid (only t [r]) where
  ok := by
    intro u
    show decide ((only t [r] u).filterMap (Row.column "id")).Nodup = true
    rw [decide_eq_true_eq]
    by_cases hu : u = t
    · rw [only, if_pos hu]
      cases hid : r.column "id" <;> simp [hid]
    · rw [only, if_neg hu]
      exact List.nodup_nil
  stored := fun u r _ => rfl
  refers := by
    intro u r' hr' fk hmem
    by_cases hu : u = t
    · subst hu
      have hnone : fk ∈ foreignKeys u := hmem
      rw [hfk] at hnone
      exact absurd hnone List.not_mem_nil
    · rw [only, if_neg hu] at hr'
      exact absurd hr' List.not_mem_nil

/-- A user is restored into empty databases. -/
theorem import_export_restores_alice :
    ∃ target', keyedEngine.importDatabases (fun _ => none) (fun _ => [])
        (exportDatabases oneUser "2026-01-01T00:00:00.000Z" .all)
        = (.ok (), target') ∧
      Restores keyedEngine oneUser (fun _ => []) target'
        "2026-01-01T00:00:00.000Z" .all := by
  have hvalid := valid_only (t := users) rfl (keyedRow "alice")
  obtain ⟨target', h⟩ : ∃ target', keyedEngine.importDatabases (fun _ => none) (fun _ => [])
      (exportDatabases oneUser "2026-01-01T00:00:00.000Z" .all)
      = (.ok (), target') := import_export_ok hvalid _ _ _ (fun _ => rfl)
  refine ⟨target', h, (import_export_restores hvalid h).mpr (fun t _ hnot => ?_)⟩
  have hne : t ≠ users := fun heq => hnot (by rw [heq]; decide)
  show ([] : List Row).Perm (only users [keyedRow "alice"] t)
  rw [only, if_neg hne]

/-- An SNMP profile is in no backup. -/
theorem import_export_misses :
    ¬ ∀ (E : Engine) (faults : Faults) (source target target' : Databases) (createdAt : String)
      (scope : BackupScope), E.schema.Valid source →
      E.importDatabases faults target (exportDatabases source createdAt scope)
        = (.ok (), target') → Restores E source target target' createdAt scope := by
  intro hall
  have hvalid := valid_only (t := snmpProfiles) rfl (keyedRow "switches")
  obtain ⟨target', h⟩ : ∃ target', keyedEngine.importDatabases (fun _ => none) (fun _ => [])
      (exportDatabases (only snmpProfiles [keyedRow "switches"]) "2026-01-01T00:00:00.000Z" .config)
      = (.ok (), target') := import_export_ok hvalid _ _ _ (fun _ => rfl)
  have hrestores := hall _ _ _ _ _ _ _ hvalid h
  have hlen := (hrestores.captured snmpProfiles rfl).length_eq
  rw [rows_of_import_export hvalid h snmpProfiles] at hlen
  exact absurd hlen (by decide)

/-! ### Tables that a slice does not mention -/

/-- The row refers to a row of a table that the slice replaces, and goes with it. -/
def cascadesFrom (E : Engine) (db : Databases) (data : Rows) (t : TableName) (r : Row) : Bool :=
  (foreignKeys t).any (fun fk => fk.cascade && (data.lookup fk.parent.name).isSome &&
    E.schema.hits db fk.parent fk r)

theorem restoreOne_rows {n : ℕ} {d : Database} {data : Rows}
    (h : E.restoreOne faults n db d.tableOrder data = (.ok (), db')) {t : TableName}
    (ht : t ∈ d.tableOrder) :
    db' t = (tableChunks data t).flatten.map (E.store t) := by
  have hrun := (runFrom_eq_ok.mp h).2
  rw [restoreStmts_eq] at hrun
  rw [Schema.rows_of_done (ordered_tableOrder d) (List.append_nil _).symm hrun t,
    Schema.deletes_rebuild, Schema.inserted_rebuild (ordered_tableOrder (E := E) d).nodup]
  simp only [ht, decide_true, if_true]
  rfl

/-- **Absent tables.**  After a restore of one database the tables its slice does not mention
    are as they were, cascades from replaced parents apart, if and only if every row of theirs
    was to go with a replaced parent: they are emptied like the others. -/
theorem restoreOne_absent {n : ℕ} {d : Database} {data : Rows}
    (h : E.restoreOne faults n db d.tableOrder data = (.ok (), db')) :
    (∀ t ∈ d.tableOrder, data.lookup t.name = none →
      (db' t).Perm ((db t).filter (fun r => !cascadesFrom E db data t r))) ↔
    ∀ t ∈ d.tableOrder, data.lookup t.name = none →
      ∀ r ∈ db t, cascadesFrom E db data t r = true := by
  have hempty : ∀ t ∈ d.tableOrder, data.lookup t.name = none → db' t = [] := by
    intro t ht habsent
    rw [restoreOne_rows h ht, tableChunks, habsent]
    rfl
  refine forall_congr' fun t => forall_congr' fun ht => forall_congr' fun habsent => ?_
  rw [hempty t ht habsent, List.nil_perm, List.filter_eq_nil_iff]
  simp

/-- A user with a session; the slice has the user only. -/
def signedIn : Databases := fun t =>
  match t with
  | users => [keyedRow "alice"]
  | refreshTokens => [ownedRow "r1" "alice"]
  | _ => []

/-- The session goes with the user. -/
theorem restoreOne_absent_session :
    ((keyedEngine.restoreOne (fun _ => none) 0 signedIn masterTableOrder
      [("users", [keyedRow "alice"])]).2 refreshTokens).Perm
        ((signedIn refreshTokens).filter (fun r =>
          !cascadesFrom keyedEngine signedIn [("users", [keyedRow "alice"])] refreshTokens r)) := by
  have h : keyedEngine.restoreOne (fun _ => none) 0 signedIn Database.master.tableOrder
      [("users", [keyedRow "alice"])] = (.ok (), (keyedEngine.restoreOne (fun _ => none) 0 signedIn
        Database.master.tableOrder [("users", [keyedRow "alice"])]).2) := Prod.ext (by rfl) rfl
  exact (restoreOne_absent h).mpr (by decide +kernel) refreshTokens (by decide) (by decide)

/-- A slice without any table empties the logs. -/
theorem restoreOne_clears :
    ¬ ∀ (E : Engine) (faults : Faults) (n : ℕ) (d : Database) (data : Rows)
      (db db' : Databases), E.restoreOne faults n db d.tableOrder data = (.ok (), db') →
      ∀ t ∈ d.tableOrder, data.lookup t.name = none →
        (db' t).Perm ((db t).filter (fun r => !cascadesFrom E db data t r)) := by
  intro hall
  have h : keyedEngine.restoreOne (fun _ => none) 0 (only logs [keyedRow "boot"])
      Database.telemetry.tableOrder []
      = (.ok (), (keyedEngine.restoreOne (fun _ => none) 0 (only logs [keyedRow "boot"])
        Database.telemetry.tableOrder []).2) := Prod.ext (by rfl) rfl
  have hlen := (hall _ _ _ _ _ _ _ h logs (by decide) rfl).length_eq
  exact absurd hlen (by decide +kernel)

end Argus.Backup
