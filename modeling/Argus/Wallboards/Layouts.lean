import Argus.Lib.Interleaving
import Argus.Lib.JsValue
import Argus.Lib.Table

namespace Argus.Wallboards

/-!
# Wallboard layouts

One layout is the default, which `/wall` opens.  To set it, a call looks the layout up, clears the
flag everywhere and sets it on one row; to delete a layout, it looks at the flag first.  Each is a
statement of its own, and nothing keeps other calls out in between.

* `LayoutTable` — the rows; the id is the primary key.
* `Call`, `Pc`, `Call.step` — the functions of the source, statement by statement.
* `layouts` — all interleavings of any number of calls.
* `Orderly` — a clear finds its layout and no other call between its clear and its set; a delete
  finds its layout not to be, or become, the default.
* `one_default` — then there is one default whenever no call is under way.
-/

/-! ### Rows -/

structure LayoutRow where
  id : String
  name : String
  description : String
  isDefault : Bool
  isSystem : Bool
  layout : Fields JsValue
  rotateSec : ℤ
  template : String
  panelConfig : Fields JsValue
  createdAt : String
  updatedAt : String

/-- The table; the ids are distinct. -/
structure LayoutTable where
  rows : List LayoutRow
  key : (rows.map LayoutRow.id).Nodup

namespace LayoutTable

variable (t : LayoutTable)

/-- `SELECT … WHERE id = … LIMIT 1`. -/
def get (id : String) : Option LayoutRow := Table.lookup LayoutRow.id id t.rows

/-- `UPDATE … SET f WHERE p`, for an `f` that keeps the id. -/
def update (p : LayoutRow → Bool) (f : LayoutRow → LayoutRow) (hf : ∀ r, (f r).id = r.id) :
    LayoutTable where
  rows := Table.update p f t.rows
  key := (Table.map_update LayoutRow.id hf t.rows).symm ▸ t.key

/-- `DELETE … WHERE id = …`. -/
def delete (id : String) : LayoutTable where
  rows := t.rows.filter fun r => r.id ≠ id
  key := (List.filter_sublist.map LayoutRow.id).nodup t.key

/-- `INSERT`, under an id that is not taken. -/
def insert (r : LayoutRow) (h : ∀ s ∈ t.rows, s.id ≠ r.id) : LayoutTable where
  rows := t.rows ++ [r]
  key := Table.nodup_append_singleton t.key h

end LayoutTable

/-- What the calls share: the layouts, and the ids that devices and groups refer to. -/
structure Db where
  layouts : LayoutTable
  referenced : List String

/-! ### Calls -/

structure CreateLayoutInput where
  name : String
  description : Option String
  layout : Option (Fields JsValue)

structure UpdateLayoutInput where
  name : Option String
  description : Option String
  layout : Option (Fields JsValue)

inductive Call
  | createLayout (input : CreateLayoutInput)
  | updateLayout (id : String) (patch : UpdateLayoutInput)
  | setDefaultLayout (id : String)
  | deleteLayout (id : String)
  | cloneLayout (id name : String)

/-- How a call ends. -/
inductive Outcome
  | undefined
  | layout (r : LayoutRow)
  | deleted (ok : Bool)
  /-- A `ProtectedEntityError`. -/
  | protectedEntity (message : String)
  /-- The database refuses to delete a row that is referred to. -/
  | referenced

/-- Where a call stands: before its first statement, behind a select, behind the clear of
    `setDefaultLayout`, or at its end. -/
inductive Pc
  | start
  | selected (r : LayoutRow)
  | cleared
  | done (o : Outcome)

/-- What a statement draws: the id of a new row, and the time. -/
structure Draw where
  id : String
  now : String

/-- The row of `createLayout`, with the defaults of the table. -/
def CreateLayoutInput.row (input : CreateLayoutInput) (d : Draw) : LayoutRow where
  id := d.id
  name := input.name
  description := input.description.getD ""
  isDefault := false
  isSystem := false
  layout := input.layout.getD []
  rotateSec := 10
  template := "flex"
  panelConfig := []
  createdAt := d.now
  updatedAt := d.now

/-- The row of `cloneLayout`. -/
def LayoutRow.clone (src : LayoutRow) (name : String) (d : Draw) : LayoutRow :=
  { CreateLayoutInput.row ⟨name, src.description, src.layout⟩ d with
    isDefault := false
    isSystem := false }

/-- The `set` of `updateLayout`. -/
def UpdateLayoutInput.set (patch : UpdateLayoutInput) (now : String) (r : LayoutRow) : LayoutRow :=
  { r with
    updatedAt := now
    name := patch.name.getD r.name
    description := patch.description.getD r.description
    layout := patch.layout.getD r.layout }

def LayoutRow.cleared (r : LayoutRow) : LayoutRow := { r with isDefault := false }

def LayoutRow.asDefault (now : String) (r : LayoutRow) : LayoutRow :=
  { r with isDefault := true, updatedAt := now }

/-- `assertMutable`, with the message it throws. -/
def assertMutable (r : LayoutRow) : Option String :=
  if r.isSystem then
    some ("Wallboard \"" ++ r.name
      ++ "\" is a protected system entity and cannot be modified or deleted.")
  else none

/-- The checks of `deleteLayout`. -/
def deleteChecks (r : LayoutRow) : Option String :=
  (assertMutable r).or
    (if r.isDefault then
      some ("Wallboard \"" ++ r.name ++ "\" is the default layout and cannot be deleted.")
    else none)

namespace Db

variable (db : Db)

def updateId (id : String) (f : LayoutRow → LayoutRow) (hf : ∀ r, (f r).id = r.id) : Db :=
  { db with layouts := db.layouts.update (fun r => decide (r.id = id)) f hf }

/-- What an `UPDATE … WHERE id` returns. -/
def returning (id : String) : Outcome := (db.layouts.get id).elim .undefined .layout

/-- The insert of a new row; the id that is drawn is not taken. -/
def insert (r : LayoutRow) : Option (Db × Pc) :=
  if h : ∀ s ∈ db.layouts.rows, s.id ≠ r.id then
    some ({ db with layouts := db.layouts.insert r h }, .done (.layout r))
  else none

/-- The first statement of a call that looks a row up; `next` checks it. -/
def select (id : String) (missing : Outcome) (next : LayoutRow → Pc) : Option (Db × Pc) :=
  some (db, (db.layouts.get id).elim (.done missing) next)

end Db

/-- The next statement of a call. -/
def Call.step (c : Call) (d : Draw) (db : Db) (pc : Pc) : Option (Db × Pc) :=
  match c, pc with
  | .createLayout input, .start => db.insert (input.row d)
  | .updateLayout id _, .start =>
    db.select id .undefined fun r => (assertMutable r).elim (.selected r) (.done ∘ .protectedEntity)
  | .updateLayout id patch, .selected _ =>
    let db' := db.updateId id (patch.set d.now) fun _ => rfl
    some (db', .done (db'.returning id))
  | .setDefaultLayout id, .start => db.select id .undefined .selected
  | .setDefaultLayout _, .selected _ =>
    some ({ db with layouts := db.layouts.update LayoutRow.isDefault .cleared fun _ => rfl },
      .cleared)
  | .setDefaultLayout id, .cleared =>
    let db' := db.updateId id (.asDefault d.now) fun _ => rfl
    some (db', .done (db'.returning id))
  | .deleteLayout id, .start =>
    db.select id (.deleted false) fun r =>
      (deleteChecks r).elim (.selected r) (.done ∘ .protectedEntity)
  | .deleteLayout id, .selected _ =>
    if id ∈ db.referenced then some (db, .done .referenced)
    else some ({ db with layouts := db.layouts.delete id }, .done (.deleted true))
  | .cloneLayout id _, .start => db.select id .undefined .selected
  | .cloneLayout _ name, .selected src => db.insert (src.clone name d)
  | _, _ => none

/-- The calls, in any order of their statements. -/
def layouts (calls : ℕ → Call) : Machine (Interleaving.World Db Pc) (ℕ × Draw) :=
  Interleaving.machine fun i d db pc => (calls i).step d db pc

/-! ### The default -/

/-- The number of default layouts. -/
def Db.defaults (db : Db) : ℕ := db.layouts.rows.countP LayoutRow.isDefault

section Defaults

variable {db : Db}

theorem countP_update {p : LayoutRow → Bool} {f : LayoutRow → LayoutRow}
    (hf : ∀ r, (f r).isDefault = r.isDefault) (rows : List LayoutRow) :
    (Table.update p f rows).countP LayoutRow.isDefault = rows.countP LayoutRow.isDefault := by
  rw [Table.update, List.countP_map]
  refine List.countP_congr fun r _ => ?_
  simp only [Function.comp_apply]
  split
  · rw [hf]
  · rfl

theorem countP_cleared (rows : List LayoutRow) :
    (Table.update LayoutRow.isDefault LayoutRow.cleared rows).countP LayoutRow.isDefault = 0 := by
  rw [List.countP_eq_zero]
  intro r hr
  obtain ⟨s, -, rfl⟩ := Table.mem_update.mp hr
  split
  · exact Bool.false_ne_true
  · assumption

/-- Where no row is a default, setting one makes one. -/
theorem countP_asDefault {id now : String} {rows : List LayoutRow}
    (hkey : (rows.map LayoutRow.id).Nodup) (hmem : id ∈ rows.map LayoutRow.id)
    (hnone : rows.countP LayoutRow.isDefault = 0) :
    (Table.update (fun r => decide (r.id = id)) (.asDefault now) rows).countP
      LayoutRow.isDefault = 1 := by
  have hcount : (Table.update (fun r => decide (r.id = id)) (.asDefault now) rows).countP
      LayoutRow.isDefault = (rows.map LayoutRow.id).count id := by
    rw [Table.update, List.countP_map, List.count, List.countP_map]
    refine List.countP_congr fun r hr => ?_
    have hr : r.isDefault = false := by
      simpa using List.countP_eq_zero.mp hnone r hr
    by_cases hid : r.id = id
    · simp [hid, LayoutRow.asDefault]
    · simp [hid, hr]
  rw [hcount, List.count_eq_one_of_mem hkey hmem]

theorem countP_delete {id : String} {rows : List LayoutRow}
    (h : ∀ r ∈ rows, r.id = id → r.isDefault = false) :
    (rows.filter fun r => r.id ≠ id).countP LayoutRow.isDefault =
      rows.countP LayoutRow.isDefault := by
  rw [List.countP_filter]
  refine List.countP_congr fun r hr => ?_
  by_cases hid : r.id = id
  · simp [hid, h r hr hid]
  · simp [hid]

theorem isSome_get {t : LayoutTable} {id : String} :
    (t.get id).isSome ↔ id ∈ t.rows.map LayoutRow.id := by
  rw [LayoutTable.get, Option.isSome_iff_ne_none, Ne, Table.lookup_eq_none, List.mem_map]
  simp

end Defaults

/-! ### One statement -/

/-- What a statement of a call does: it keeps the number of defaults and every row, it is one of
    the two updates of `setDefaultLayout`, or it deletes a row. -/
inductive Effect (c : Call) (db : Db) : Pc → Db → Pc → Prop
  | keeps {pc pc' : Pc} {db' : Db} (hpc : pc ≠ .cleared) (hpc' : pc' ≠ .cleared)
      (hdefaults : db'.defaults = db.defaults)
      (hrows : ∀ id, (db.layouts.get id).isSome → (db'.layouts.get id).isSome) :
      Effect c db pc db' pc'
  | clears {id : String} {r : LayoutRow} {db' : Db} (hc : c = .setDefaultLayout id)
      (hdefaults : db'.defaults = 0)
      (hrows : ∀ id, (db.layouts.get id).isSome → (db'.layouts.get id).isSome) :
      Effect c db (.selected r) db' .cleared
  | sets {id : String} {db' : Db} {o : Outcome} (hc : c = .setDefaultLayout id)
      (hdefaults : (db.layouts.get id).isSome → db.defaults = 0 → db'.defaults = 1) :
      Effect c db .cleared db' (.done o)
  | deletes {id : String} {r : LayoutRow} {db' : Db} (hc : c = .deleteLayout id)
      (hdefaults : (∀ r, db.layouts.get id = some r → r.isDefault = false) →
        db'.defaults = db.defaults)
      (hrows : ∀ id', id' ≠ id → (db.layouts.get id').isSome → (db'.layouts.get id').isSome) :
      Effect c db (.selected r) db' (.done (.deleted true))

theorem isSome_updateId (db : Db) (p : LayoutRow → Bool) (f : LayoutRow → LayoutRow)
    (hf : ∀ r, (f r).id = r.id) (id : String) :
    ((db.layouts.update p f hf).get id).isSome ↔ (db.layouts.get id).isSome := by
  rw [isSome_get, isSome_get, LayoutTable.update, Table.map_update LayoutRow.id hf]

theorem effect_insert {c : Call} {db db' : Db} {pc pc' : Pc} {r : LayoutRow} (hpc : pc ≠ .cleared)
    (hr : r.isDefault = false) (h : db.insert r = some (db', pc')) : Effect c db pc db' pc' := by
  rw [Db.insert] at h
  split at h
  · obtain ⟨rfl, rfl⟩ := Prod.mk.inj (Option.some.inj h)
    refine .keeps hpc (by simp) ?_ fun id hid => ?_
    · simp [Db.defaults, LayoutTable.insert, hr]
    · rw [isSome_get] at hid ⊢
      rw [LayoutTable.insert, List.map_append]
      exact List.mem_append_left _ hid
  · cases h

theorem effect_select {c : Call} {db db' : Db} {pc pc' : Pc} {id : String} {missing : Outcome}
    {next : LayoutRow → Pc} (hpc : pc ≠ .cleared) (hnext : ∀ r, next r ≠ .cleared)
    (h : db.select id missing next = some (db', pc')) : Effect c db pc db' pc' := by
  obtain ⟨rfl, rfl⟩ := Prod.mk.inj (Option.some.inj h)
  refine .keeps hpc ?_ rfl fun _ hid => hid
  cases db.layouts.get id with
  | none => simp
  | some r => exact hnext r

/-- What a step can do. -/
theorem step_effect {c : Call} {d : Draw} {db db' : Db} {pc pc' : Pc}
    (h : c.step d db pc = some (db', pc')) : Effect c db pc db' pc' := by
  -- the calls in the order of `Call.step`, each with the places its statements start from
  cases c with
  | createLayout input =>
    cases pc with
    | start => exact effect_insert (by simp) rfl h
    | selected | cleared | done => cases h
  | updateLayout id patch =>
    cases pc with
    | start =>
      refine effect_select (by simp) (fun r => ?_) h
      cases assertMutable r <;> simp
    | selected r =>
      obtain ⟨rfl, rfl⟩ := Prod.mk.inj (Option.some.inj h)
      refine .keeps (by simp) (by simp) ?_ fun id' hid => ?_
      · have hset : ∀ r : LayoutRow, (patch.set d.now r).isDefault = r.isDefault := fun _ => rfl
        exact countP_update hset _
      · exact (isSome_updateId db _ (patch.set d.now) (fun _ => rfl) id').mpr hid
    | cleared | done => cases h
  | setDefaultLayout id =>
    cases pc with
    | start => exact effect_select (by simp) (fun r => by simp) h
    | selected r =>
      obtain ⟨rfl, rfl⟩ := Prod.mk.inj (Option.some.inj h)
      refine .clears rfl (countP_cleared _) fun id' hid => ?_
      exact (isSome_updateId db _ LayoutRow.cleared (fun _ => rfl) id').mpr hid
    | cleared =>
      obtain ⟨rfl, rfl⟩ := Prod.mk.inj (Option.some.inj h)
      refine .sets rfl fun hid hnone => ?_
      exact countP_asDefault db.layouts.key (isSome_get.mp hid) hnone
    | done => cases h
  | deleteLayout id =>
    cases pc with
    | start =>
      refine effect_select (by simp) (fun r => ?_) h
      cases deleteChecks r <;> simp
    | selected r =>
      rw [Call.step] at h
      split at h
      · obtain ⟨rfl, rfl⟩ := Prod.mk.inj (Option.some.inj h)
        exact .keeps (by simp) (by simp) rfl fun _ hid => hid
      · obtain ⟨rfl, rfl⟩ := Prod.mk.inj (Option.some.inj h)
        refine .deletes rfl (fun hdefault => ?_) fun id' hne hid => ?_
        · refine countP_delete fun s hs hid => ?_
          exact hdefault s (hid ▸ Table.lookup_of_mem db.layouts.key hs)
        · rw [isSome_get] at hid ⊢
          obtain ⟨s, hs, rfl⟩ := List.mem_map.mp hid
          exact List.mem_map_of_mem (List.mem_filter.mpr ⟨hs, by simpa using hne⟩)
    | cleared | done => cases h
  | cloneLayout id name =>
    cases pc with
    | start => exact effect_select (by simp) (fun r => by simp) h
    | selected src => exact effect_insert (by simp) rfl h
    | cleared | done => cases h

/-! ### Runs -/

open Interleaving (World Exclusive)

variable {calls : ℕ → Call}

/-- A clear finds its layout, and no other call between its clear and its set; a delete finds its
    layout not to be the default, and no call between the two that is about to make it so. -/
def Orderly (calls : ℕ → Call) (w : World Db Pc) (l : ℕ × Draw) : Prop :=
  match calls l.1, w.pcs l.1 with
  | .setDefaultLayout id, .selected _ =>
    (w.db.layouts.get id).isSome ∧ ∀ j, w.pcs j ≠ .cleared
  | .deleteLayout id, .selected _ =>
    (∀ r, w.db.layouts.get id = some r → r.isDefault = false) ∧
      ∀ j, calls j = .setDefaultLayout id → w.pcs j ≠ .cleared
  | _, _ => True

/-- There is one default, except between the two updates of one call, whose layout is there. -/
structure Steady (calls : ℕ → Call) (w : World Db Pc) : Prop where
  alone : Exclusive (fun _ pc => pc = .cleared) w.pcs
  between : ∀ i, w.pcs i = .cleared → w.db.defaults = 0 ∧
    ∃ id, calls i = .setDefaultLayout id ∧ (w.db.layouts.get id).isSome
  settled : (∀ i, w.pcs i ≠ .cleared) → w.db.defaults = 1

section Step

variable {w : World Db Pc} {i : ℕ} {db : Db} {pc : Pc}

/-- The calls between their updates, after a step that neither enters nor leaves. -/
theorem cleared_update_iff (hbefore : w.pcs i ≠ .cleared) (hafter : pc ≠ .cleared) (j : ℕ) :
    Function.update w.pcs i pc j = .cleared ↔ w.pcs j = .cleared := by
  by_cases hj : j = i
  · subst hj
    rw [Function.update_self]
    exact iff_of_false hafter hbefore
  · rw [Function.update_of_ne hj]

/-- A step that keeps the number of defaults and the rows that are to become one. -/
theorem Steady.keep (h : Steady calls w) (hbefore : w.pcs i ≠ .cleared) (hafter : pc ≠ .cleared)
    (hdefaults : db.defaults = w.db.defaults)
    (hrows : ∀ j id, calls j = .setDefaultLayout id → w.pcs j = .cleared →
      (w.db.layouts.get id).isSome → (db.layouts.get id).isSome) :
    Steady calls ⟨db, Function.update w.pcs i pc⟩ := by
  have hiff := cleared_update_iff hbefore hafter
  refine ⟨h.alone.update fun hpc => absurd hpc hafter, fun j hj => ?_, fun hnone => ?_⟩
  · have hj := (hiff j).mp hj
    obtain ⟨hzero, id, hcall, hsome⟩ := h.between j hj
    exact ⟨hdefaults.trans hzero, id, hcall, hrows j id hcall hj hsome⟩
  · exact hdefaults.trans (h.settled fun j hj => hnone j ((hiff j).mpr hj))

theorem Steady.step (h : Steady calls w) {d : Draw} (hG : Orderly calls w (i, d))
    (heffect : Effect (calls i) w.db (w.pcs i) db pc) :
    Steady calls ⟨db, Function.update w.pcs i pc⟩ := by
  generalize hpcs : w.pcs i = before at heffect
  cases heffect with
  | keeps hpc hpc' hdefaults hrows =>
    exact h.keep (hpcs ▸ hpc) hpc' hdefaults fun _ id _ _ => hrows id
  | clears hc hdefaults hrows =>
    rename_i id r
    rw [Orderly, hc, hpcs] at hG
    refine ⟨h.alone.update fun _ => Or.inr fun j _ => hG.2 j, fun j hj => ?_, fun hnone => ?_⟩
    · obtain rfl : j = i := by
        by_contra hne
        change Function.update w.pcs i .cleared j = .cleared at hj
        rw [Function.update_of_ne hne] at hj
        exact hG.2 j hj
      exact ⟨hdefaults, id, hc, hrows id hG.1⟩
    · exact absurd (Function.update_self i .cleared w.pcs) (hnone i)
  | sets hc hdefaults =>
    rename_i id o
    obtain ⟨hzero, id', hcall, hsome⟩ := h.between i hpcs
    obtain rfl : id = id' := Call.setDefaultLayout.inj (hc.symm.trans hcall)
    have hothers : ∀ j, Function.update w.pcs i (.done o) j ≠ .cleared := by
      intro j hj
      by_cases hji : j = i
      · rw [hji, Function.update_self] at hj
        cases hj
      · rw [Function.update_of_ne hji] at hj
        exact hji (h.alone j i hj hpcs)
    refine ⟨h.alone.update fun hpc => ?_, fun j hj => absurd hj (hothers j), fun _ => ?_⟩
    · cases hpc
    · exact hdefaults hsome hzero
  | deletes hc hdefaults hrows =>
    rename_i id r
    rw [Orderly, hc, hpcs] at hG
    refine h.keep (hpcs ▸ by simp) (by simp) (hdefaults hG.1) fun j id' hcall hj hsome => ?_
    refine hrows id' ?_ hsome
    rintro rfl
    exact hG.2 j hcall hj

end Step

theorem Steady.exec {w w' : World Db Pc} {ls : List (ℕ × Draw)} (h : Steady calls w)
    (hG : (layouts calls).Meets (Orderly calls) w ls)
    (hrun : (layouts calls).exec w ls = some w') : Steady calls w' := by
  refine Machine.inv_of_exec (I := Steady calls) ?_ h hG hrun
  rintro w ⟨i, d⟩ w' hsteady hG hmove
  obtain ⟨db, pc, hcall, rfl⟩ := Interleaving.machine_step.mp hmove
  exact hsteady.step hG (step_effect hcall)

/-- No call is under way. -/
def Quiet (w : World Db Pc) : Prop := ∀ i, w.pcs i = .start ∨ ∃ o, w.pcs i = .done o

theorem Quiet.ne_cleared {w : World Db Pc} (h : Quiet w) (i : ℕ) : w.pcs i ≠ .cleared := by
  rcases h i with hpc | ⟨o, hpc⟩ <;> simp [hpc]

/-- **The default.**  From one default, any number of calls in any order of their statements lead
    to one default whenever no call is under way, if every clear and every delete is orderly. -/
theorem one_default {calls : ℕ → Call} {w w' : World Db Pc} {ls : List (ℕ × Draw)}
    (hquiet : Quiet w) (hone : w.db.defaults = 1)
    (hG : (layouts calls).Meets (Orderly calls) w ls)
    (hrun : (layouts calls).exec w ls = some w') (hquiet' : Quiet w') : w'.db.defaults = 1 := by
  have hsteady : Steady calls w :=
    ⟨fun i _ hi => absurd hi (hquiet.ne_cleared i), fun i hi => absurd hi (hquiet.ne_cleared i),
      fun _ => hone⟩
  exact (hsteady.exec hG hrun).settled hquiet'.ne_cleared

namespace Sample

def board (id : String) (isDefault : Bool) : LayoutRow where
  id := id
  name := id
  description := ""
  isDefault := isDefault
  isSystem := false
  layout := []
  rotateSec := 10
  template := "flex"
  panelConfig := []
  createdAt := ""
  updatedAt := ""

/-- Three boards, the first of them the default. -/
def boards : World Db Pc where
  db := ⟨⟨[board "a" true, board "b" false, board "c" false], by decide⟩, []⟩
  pcs := fun _ => .start

/-- Two operators choose a default. -/
def twoOperators : ℕ → Call
  | 0 => .setDefaultLayout "b"
  | _ => .setDefaultLayout "c"

def now : Draw := ⟨"", ""⟩

end Sample

open Sample in
theorem one_default_chosen :
    ∃ w', (layouts twoOperators).exec boards [(0, now), (0, now), (0, now)] = some w' ∧
      w'.db.defaults = 1 := by
  have hquiet : Quiet boards := fun _ => Or.inl rfl
  have hrun : ∃ w', (layouts twoOperators).exec boards [(0, now), (0, now), (0, now)] = some w' ∧
      Quiet w' := by
    refine ⟨_, rfl, fun j => ?_⟩
    simp only [Function.update_apply]
    split
    · exact Or.inr ⟨_, rfl⟩
    · exact Or.inl rfl
  obtain ⟨w', hrun, hquiet'⟩ := hrun
  refine ⟨w', hrun, one_default hquiet rfl ?_ hrun hquiet'⟩
  refine .cons trivial rfl (.cons ⟨rfl, fun j => ?_⟩ rfl (.cons trivial rfl trivial))
  simp only [Function.update_apply]
  split
  · change Pc.selected (board "b" false) ≠ Pc.cleared
    simp
  · simp [boards]

open Sample in
/-- Both clear, and then both set. -/
theorem two_defaults :
    ∃ w', Quiet boards ∧ boards.db.defaults = 1 ∧ (layouts twoOperators).exec boards
        [(0, now), (1, now), (0, now), (1, now), (0, now), (1, now)] = some w' ∧
      Quiet w' ∧ w'.db.defaults = 2 := by
  refine ⟨_, fun _ => Or.inl rfl, rfl, rfl, fun j => ?_, rfl⟩
  simp only [Function.update_apply]
  split
  · exact Or.inr ⟨_, rfl⟩
  · split
    · exact Or.inr ⟨_, rfl⟩
    · exact Or.inl rfl

end Argus.Wallboards
