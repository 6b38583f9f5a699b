import Argus.Lib.Table
import Argus.Mib.Parse

namespace Argus.Mib

/-!
# The table of MIB objects

`importMib` deletes the rows of a module and inserts the objects of the new text in chunks.  The
conflict clause of the insert assigns the columns of the table to themselves, so a row that
another module owns stays as it is.

* `MibTable` — the rows; the identifier is the primary key.
* `importMib` — the function of the source.
* `insertAll_eq` — what the inserts come to: the rows whose identifier is not there yet.
* `Stored` — what an import is to achieve.
* `importMib_stores_iff` — it does exactly if no other module owns one of the identifiers.
-/

/-! ### The code -/

structure MibRow where
  oid : String
  name : String
  unit : Option String
  description : Option String
  mib : String
  createdAt : String
  updatedAt : String
deriving DecidableEq, Repr

/-- The row of an object, with the defaults of the table. -/
def MibObject.row (o : MibObject) (mibName now : String) : MibRow where
  oid := o.oid
  name := o.name
  unit := o.unit
  description := o.description
  mib := mibName
  createdAt := now
  updatedAt := now

/-- The `set` of `onConflictDoUpdate`: each column of the row that is there, from itself. -/
def conflictSet (old : MibRow) : MibRow :=
  { old with name := old.name, unit := old.unit, description := old.description, mib := old.mib }

/-- One `INSERT`. -/
def insertAll (rows new : List MibRow) : List MibRow :=
  new.foldl (fun rows r => Table.upsert MibRow.oid r conflictSet rows) rows

/-- `rows.slice(i, i + n)` for every `i` of the loop. -/
def chunks (n : ℕ) : ℕ → List MibRow → List (List MibRow)
  | 0, _ => []
  | fuel + 1, rows => if rows = [] then [] else rows.take n :: chunks n fuel (rows.drop n)

/-- The statements of an import. -/
def importRows (rows : List MibRow) (mibName now : String) (objects : List MibObject) :
    List MibRow :=
  let new := objects.map (·.row mibName now)
  (chunks 500 new.length new).foldl insertAll (rows.filter (·.mib ≠ mibName))

/-- The table; its primary key is the identifier. -/
structure MibTable where
  rows : List MibRow
  key : (rows.map MibRow.oid).Nodup

theorem nodup_insertAll {rows new : List MibRow} (h : (rows.map MibRow.oid).Nodup) :
    ((insertAll rows new).map MibRow.oid).Nodup := by
  unfold insertAll
  induction new generalizing rows with
  | nil => exact h
  | cons r new ih => exact ih (Table.nodup_upsert (fun _ => rfl) h)

theorem nodup_importRows {rows : List MibRow} (h : (rows.map MibRow.oid).Nodup)
    (mibName now : String) (objects : List MibObject) :
    ((importRows rows mibName now objects).map MibRow.oid).Nodup := by
  have hfold : ∀ (cs : List (List MibRow)) (rows : List MibRow), (rows.map MibRow.oid).Nodup →
      ((cs.foldl insertAll rows).map MibRow.oid).Nodup := by
    intro cs
    induction cs with
    | nil => exact fun _ h => h
    | cons c cs ih => exact fun rows h => ih _ (nodup_insertAll h)
  exact hfold _ _ ((List.filter_sublist.map MibRow.oid).nodup h)

/-- What `importMib` returns. -/
structure Imported where
  imported : ℕ
  parsed : ℕ
deriving DecidableEq, Repr

def importMib (db : MibTable) (mibName text now : String) : Option (MibTable × Imported) :=
  (parseMib text).map fun p =>
    if p.objects = [] then (db, ⟨0, p.parsed⟩)
    else (⟨importRows db.rows mibName now p.objects,
      nodup_importRows db.key mibName now p.objects⟩, ⟨p.objects.length, p.parsed⟩)

/-! ### What the inserts come to -/

theorem flatten_chunks {n : ℕ} (hn : 0 < n) (fuel : ℕ) (rows : List MibRow)
    (h : rows.length ≤ fuel) : (chunks n fuel rows).flatten = rows := by
  induction fuel generalizing rows with
  | zero =>
    obtain rfl : rows = [] := List.eq_nil_of_length_eq_zero (by omega)
    rfl
  | succ fuel ih =>
    rw [chunks]
    split
    · rename_i hnil
      rw [hnil]
      rfl
    · rename_i hne
      have hpos : 0 < rows.length := List.length_pos_iff.mpr hne
      have hlen : (rows.drop n).length ≤ fuel := by
        rw [List.length_drop]
        omega
      rw [List.flatten_cons, ih _ hlen, List.take_append_drop]

theorem foldl_insertAll (cs : List (List MibRow)) (rows : List MibRow) :
    cs.foldl insertAll rows = insertAll rows cs.flatten := by
  induction cs generalizing rows with
  | nil => rfl
  | cons c cs ih =>
    rw [List.foldl_cons, ih, List.flatten_cons, insertAll, insertAll, insertAll, List.foldl_append]

theorem upsert_conflictSet (rows : List MibRow) (r : MibRow) :
    Table.upsert MibRow.oid r conflictSet rows =
      if r.oid ∈ rows.map MibRow.oid then rows else rows ++ [r] := by
  have hsame : Table.update (fun s => decide (s.oid = r.oid)) conflictSet rows = rows := by
    unfold Table.update
    conv_rhs => rw [← List.map_id rows]
    refine List.map_congr_left fun s _ => ?_
    split <;> rfl
  rw [Table.upsert, hsame]
  by_cases hmem : r.oid ∈ rows.map MibRow.oid
  · obtain ⟨s, hs, hoid⟩ := List.mem_map.mp hmem
    rw [if_pos hmem, if_pos (List.any_eq_true.mpr ⟨s, hs, decide_eq_true hoid⟩)]
  · rw [if_neg hmem, if_neg]
    intro hany
    obtain ⟨s, hs, hoid⟩ := List.any_eq_true.mp hany
    exact hmem (List.mem_map.mpr ⟨s, hs, of_decide_eq_true hoid⟩)

/-- Only the rows with an identifier that is not there yet are inserted, and nothing is changed. -/
theorem insertAll_eq (rows : List MibRow) {new : List MibRow} (h : (new.map MibRow.oid).Nodup) :
    insertAll rows new = rows ++ new.filter (fun r => r.oid ∉ rows.map MibRow.oid) := by
  induction new generalizing rows with
  | nil => simp [insertAll]
  | cons r new ih =>
    rw [List.map_cons, List.nodup_cons] at h
    have hstep : insertAll rows (r :: new) =
        insertAll (Table.upsert MibRow.oid r conflictSet rows) new := rfl
    rw [hstep, upsert_conflictSet]
    by_cases hmem : r.oid ∈ rows.map MibRow.oid
    · rw [if_pos hmem, ih rows h.2, List.filter_cons_of_neg (by simpa using hmem)]
    · rw [if_neg hmem, ih _ h.2, List.filter_cons_of_pos (by simpa using hmem),
        List.append_assoc, List.singleton_append]
      -- the identifiers of the others differ from the one that was just inserted
      have hrest : new.filter (fun s => s.oid ∉ (rows ++ [r]).map MibRow.oid) =
          new.filter (fun s => s.oid ∉ rows.map MibRow.oid) := by
        refine List.filter_congr fun s hs => ?_
        have hne : s.oid ≠ r.oid := fun heq => h.1 (heq ▸ List.mem_map_of_mem hs)
        simp [hne]
      rw [hrest]

/-- The objects of a text have different identifiers. -/
theorem nodup_objectsOf (map : String → Option Oid) (raws : List Raw) :
    ((objectsOf map raws).map MibObject.oid).Nodup := by
  have hfold : ∀ (os : List MibObject) (acc : Fields MibObject), acc.WF →
      (∀ f ∈ acc, f.1 = f.2.oid) →
      (os.foldl (fun (m : Fields MibObject) o => m.set o.oid o) acc).WF ∧
        ∀ f ∈ os.foldl (fun (m : Fields MibObject) o => m.set o.oid o) acc, f.1 = f.2.oid := by
    intro os
    induction os with
    | nil => exact fun acc hwf hkey => ⟨hwf, hkey⟩
    | cons o os ih =>
      intro acc hwf hkey
      refine ih _ (hwf.set o.oid o) fun f hf => ?_
      rcases Fields.mem_set hf with rfl | hmem
      · rfl
      · exact hkey f hmem
  obtain ⟨hwf, hkey⟩ := hfold (raws.filterMap (objectOf map)) [] List.nodup_nil
    (fun f hf => absurd hf List.not_mem_nil)
  rw [objectsOf, List.map_map]
  have hsame := List.map_congr_left (l := (raws.filterMap (objectOf map)).foldl
    (fun (m : Fields MibObject) o => m.set o.oid o) []) (f := Prod.fst)
    (g := MibObject.oid ∘ Prod.snd) hkey
  rw [← hsame]
  exact hwf

theorem objects_of_parseMib {text : String} {p : Parsed} (h : parseMib text = some p) :
    ∃ map, p.objects = objectsOf map (rawsOf text) := by
  obtain ⟨map, -, rfl⟩ := Option.map_eq_some_iff.mp h
  exact ⟨map, rfl⟩

theorem nodup_of_parseMib {text : String} {p : Parsed} (h : parseMib text = some p) :
    (p.objects.map MibObject.oid).Nodup := by
  obtain ⟨map, hobjects⟩ := objects_of_parseMib h
  rw [hobjects]
  exact nodup_objectsOf map _

/-- The rows after an import: those of the other modules, and the objects whose identifier none of
    them has. -/
theorem importRows_eq (rows : List MibRow) (mibName now : String) {objects : List MibObject}
    (h : (objects.map MibObject.oid).Nodup) :
    importRows rows mibName now objects =
      rows.filter (·.mib ≠ mibName) ++ (objects.map (·.row mibName now)).filter
        (fun r => r.oid ∉ (rows.filter (·.mib ≠ mibName)).map MibRow.oid) := by
  have hnew : ((objects.map (·.row mibName now)).map MibRow.oid).Nodup := by
    rw [List.map_map]
    exact h
  show (chunks 500 _ _).foldl insertAll _ = _
  rw [foldl_insertAll, flatten_chunks (by omega) _ _ le_rfl, insertAll_eq _ hnew]

/-! ### What an import is to achieve -/

/-- A row without its timestamps. -/
def MibRow.content (r : MibRow) : MibObject × String :=
  (⟨r.oid, r.name, r.unit, r.description⟩, r.mib)

@[simp] theorem content_row (o : MibObject) (mibName now : String) :
    (o.row mibName now).content = (o, mibName) := rfl

/-- The objects are stored under the module, nothing else is, and the rest is as before. -/
structure Stored (mibName : String) (objects : List MibObject) (rows rows' : List MibRow) :
    Prop where
  carried : ∀ o ∈ objects,
    (Table.lookup MibRow.oid o.oid rows').map MibRow.content = some (o, mibName)
  only : ∀ r ∈ rows', r.mib = mibName → ∃ o ∈ objects, o.oid = r.oid
  others : ∀ r, r.mib ≠ mibName → (∀ o ∈ objects, o.oid ≠ r.oid) → (r ∈ rows' ↔ r ∈ rows)

/-- No other module owns an identifier of the objects. -/
def Unowned (mibName : String) (objects : List MibObject) (rows : List MibRow) : Prop :=
  ∀ r ∈ rows, r.mib ≠ mibName → ∀ o ∈ objects, o.oid ≠ r.oid

section Import

variable {mibName now : String} {objects : List MibObject} {rows : List MibRow}

theorem importRows_of_unowned (hnodup : (objects.map MibObject.oid).Nodup)
    (h : Unowned mibName objects rows) :
    importRows rows mibName now objects =
      rows.filter (·.mib ≠ mibName) ++ objects.map (·.row mibName now) := by
  rw [importRows_eq rows mibName now hnodup]
  congr 1
  refine List.filter_eq_self.mpr fun r hr => ?_
  obtain ⟨o, ho, rfl⟩ := List.mem_map.mp hr
  refine decide_eq_true fun hmem => ?_
  obtain ⟨s, hs, hoid⟩ := List.mem_map.mp hmem
  obtain ⟨hs, hmib⟩ := List.mem_filter.mp hs
  exact h s hs (of_decide_eq_true hmib) o ho hoid.symm

theorem stored_of_unowned (hkey : (rows.map MibRow.oid).Nodup)
    (hnodup : (objects.map MibObject.oid).Nodup) (h : Unowned mibName objects rows) :
    Stored mibName objects rows (importRows rows mibName now objects) := by
  have hkey' := nodup_importRows hkey mibName now objects
  rw [importRows_of_unowned hnodup h] at hkey' ⊢
  have hfilter : ∀ r, r ∈ rows.filter (·.mib ≠ mibName) ↔ r ∈ rows ∧ r.mib ≠ mibName := by
    intro r
    rw [List.mem_filter, decide_eq_true_eq]
  refine ⟨fun o ho => ?_, fun r hr hmib => ?_, fun r hmib hoid => ?_⟩
  · have hrow := List.mem_append_right (rows.filter (·.mib ≠ mibName))
      (List.mem_map_of_mem (f := (·.row mibName now)) ho)
    have hlookup := Table.lookup_of_mem hkey' hrow
    have hoid : (o.row mibName now).oid = o.oid := rfl
    rw [← hoid, hlookup, Option.map_some, content_row]
  · rcases List.mem_append.mp hr with hold | hnew
    · exact absurd hmib ((hfilter r).mp hold).2
    · obtain ⟨o, ho, rfl⟩ := List.mem_map.mp hnew
      exact ⟨o, ho, rfl⟩
  · rw [List.mem_append, hfilter]
    constructor
    · rintro (hold | hnew)
      · exact hold.1
      · obtain ⟨o, ho, rfl⟩ := List.mem_map.mp hnew
        exact absurd rfl (hoid o ho)
    · exact fun hr => Or.inl ⟨hr, hmib⟩

/-- A row of another module stays, so the object with its identifier is not stored. -/
theorem unowned_of_stored (hkey : (rows.map MibRow.oid).Nodup)
    (hnodup : (objects.map MibObject.oid).Nodup)
    (h : Stored mibName objects rows (importRows rows mibName now objects)) :
    Unowned mibName objects rows := by
  intro r hr hmib o ho hoid
  have hkey' := nodup_importRows hkey mibName now objects
  have hstays : r ∈ importRows rows mibName now objects := by
    rw [importRows_eq rows mibName now hnodup]
    exact List.mem_append_left _ (List.mem_filter.mpr ⟨hr, decide_eq_true hmib⟩)
  have hcarried := h.carried o ho
  rw [hoid, Table.lookup_of_mem hkey' hstays, Option.map_some] at hcarried
  exact hmib (congrArg Prod.snd (Option.some.inj hcarried))

/-- A second import of the same objects leaves the contents as they are. -/
theorem content_importRows_twice (hnodup : (objects.map MibObject.oid).Nodup) (now' : String) :
    (importRows (importRows rows mibName now objects) mibName now' objects).map MibRow.content =
      (importRows rows mibName now objects).map MibRow.content := by
  -- the second import deletes what the first inserted
  have hkept : (importRows rows mibName now objects).filter (·.mib ≠ mibName) =
      rows.filter (·.mib ≠ mibName) := by
    rw [importRows_eq rows mibName now hnodup, List.filter_append, List.filter_filter]
    have hnone : ((objects.map (·.row mibName now)).filter
        (fun r => r.oid ∉ (rows.filter (·.mib ≠ mibName)).map MibRow.oid)).filter
          (·.mib ≠ mibName) = [] := by
      refine List.filter_eq_nil_iff.mpr fun r hr => ?_
      obtain ⟨o, -, rfl⟩ := List.mem_map.mp (List.mem_filter.mp hr).1
      simp [MibObject.row]
    rw [hnone, List.append_nil]
    simp
  have hnew : ∀ at' : String, ((objects.map (·.row mibName at')).filter
      (fun r => r.oid ∉ (rows.filter (·.mib ≠ mibName)).map MibRow.oid)).map MibRow.content =
        (objects.filter fun o =>
          o.oid ∉ (rows.filter (·.mib ≠ mibName)).map MibRow.oid).map (·, mibName) := by
    intro at'
    rw [List.filter_map, List.map_map]
    rfl
  rw [importRows_eq _ mibName now' hnodup, hkept, importRows_eq rows mibName now hnodup,
    List.map_append, List.map_append, hnew, hnew]

end Import

/-- **Import.**  An import of at least one object ends, and a second one changes nothing but the
    timestamps.  The objects are stored if and only if no other module owns one of their
    identifiers. -/
theorem importMib_stores_iff (db : MibTable) (mibName text now : String) {p : Parsed}
    (hparse : parseMib text = some p) (hne : p.objects ≠ []) :
    ∃ db' counts, importMib db mibName text now = some (db', counts) ∧
      ((Stored mibName p.objects db.rows db'.rows ∧
        ∀ now', ∃ db'' counts', importMib db' mibName text now' = some (db'', counts') ∧
          db''.rows.map MibRow.content = db'.rows.map MibRow.content) ↔
        Unowned mibName p.objects db.rows) := by
  have hnodup := nodup_of_parseMib hparse
  have himport : ∀ (db : MibTable) (now : String), importMib db mibName text now =
      some (⟨importRows db.rows mibName now p.objects,
        nodup_importRows db.key mibName now p.objects⟩, ⟨p.objects.length, p.parsed⟩) := by
    intro db now
    rw [importMib, hparse, Option.map_some, if_neg hne]
  refine ⟨_, _, himport db now, fun h => unowned_of_stored db.key hnodup h.1, fun h => ?_⟩
  exact ⟨stored_of_unowned db.key hnodup h, fun now' =>
    ⟨_, _, himport _ now', content_importRows_twice hnodup now'⟩⟩

namespace Sample

/-- A module of one definition. -/
def rootModule : String := "a OBJECT IDENTIFIER ::= \x7b iso 1 \x7d"

def noRows : MibTable := ⟨[], List.nodup_nil⟩

/-- Another module owns the identifier. -/
def owned : MibTable :=
  ⟨[⟨"1.1", "old", none, none, "OTHER-MIB", "2026-01-01", "2026-01-01"⟩], by decide⟩

theorem parse_rootModule :
    (parseMib rootModule).map Parsed.objects = some [⟨"1.1", "a", none, none⟩] := by
  decide +kernel

end Sample

open Sample in
theorem importMib_stores_rootModule :
    ∃ p, parseMib rootModule = some p ∧ p.objects ≠ [] ∧ ∃ db' counts,
      importMib noRows "A-MIB" rootModule "2026-01-02" = some (db', counts) ∧
        Stored "A-MIB" p.objects noRows.rows db'.rows := by
  obtain ⟨p, hparse, hobjects⟩ := Option.map_eq_some_iff.mp parse_rootModule
  have hne : p.objects ≠ [] := hobjects ▸ List.cons_ne_nil _ _
  obtain ⟨db', counts, himport, hiff⟩ :=
    importMib_stores_iff noRows "A-MIB" rootModule "2026-01-02" hparse hne
  have hunowned : Unowned "A-MIB" p.objects noRows.rows := fun r hr => absurd hr List.not_mem_nil
  exact ⟨p, hparse, hne, db', counts, himport, (hiff.mpr hunowned).1⟩

open Sample in
/-- The row of the other module keeps its name, and the object of the new one is not stored. -/
theorem importMib_keeps_owner :
    ∃ p, parseMib rootModule = some p ∧ p.objects ≠ [] ∧ ∃ db' counts,
      importMib owned "A-MIB" rootModule "2026-01-02" = some (db', counts) ∧
        counts.imported = 1 ∧ db'.rows = owned.rows ∧
        ¬ Stored "A-MIB" p.objects owned.rows db'.rows := by
  obtain ⟨p, hparse, hobjects⟩ := Option.map_eq_some_iff.mp parse_rootModule
  have hrows : importRows owned.rows "A-MIB" "2026-01-02" p.objects = owned.rows := by
    rw [hobjects]
    decide
  have hne : p.objects ≠ [] := hobjects ▸ List.cons_ne_nil _ _
  refine ⟨p, hparse, hne, _, _, by rw [importMib, hparse, Option.map_some, if_neg hne], ?_,
    hrows, ?_⟩
  · show p.objects.length = 1
    rw [hobjects]
    rfl
  · intro h
    have hcarried := h.carried ⟨"1.1", "a", none, none⟩ (hobjects ▸ List.mem_singleton_self _)
    rw [show (MibTable.mk (importRows owned.rows "A-MIB" "2026-01-02" p.objects) _).rows =
      owned.rows from hrows] at hcarried
    revert hcarried
    decide

end Argus.Mib
