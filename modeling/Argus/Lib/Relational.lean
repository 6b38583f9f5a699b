import Mathlib.Data.List.Basic
import Mathlib.Data.List.Induction
import Mathlib.Logic.Function.Basic

/-!
# Tables with foreign keys, and rebuilding them

A database is a list of rows for each table.  A `Schema` says which rows a table takes and
which columns refer to the `id` of another table's rows; a statement empties a table or adds
rows to one, or is refused and changes nothing.

* `Schema.exec`, `Schema.run` — one statement, and a list of them; `none` when one is refused.
* `Stmt.on` — what a statement does to its own table.  In a `Clean` list, where a table is
  emptied only after the tables that refer to it, no cascade ever fires, so the rows of a
  table are what its own statements leave (`run_clean`).
* `rebuild order chunks` — empty the tables of `order` from the last to the first, then fill
  them from the first to the last.  When `order` puts parents first (`Ordered`), the list is
  clean (`clean_rebuild`), and it succeeds with the rows of a valid database
  (`run_rebuild`).
-/

namespace Relational

variable {τ ρ κ : Type*} [DecidableEq τ]

/-- A column that refers to the `id` of a row of `parent`; `none` is SQL's `NULL`. -/
structure ForeignKey (τ ρ κ : Type*) where
  parent : τ
  column : ρ → Option κ
  /-- `ON DELETE CASCADE`; otherwise a row that is referred to cannot be deleted. -/
  cascade : Bool

/-- What a database checks.  `ok` stands for the constraints of a table on its own rows
    (types, `NOT NULL`, keys): taking rows away never breaks one. -/
structure Schema (τ ρ κ : Type*) where
  tables : List τ
  foreignKeys : τ → List (ForeignKey τ ρ κ)
  id : ρ → Option κ
  /-- The row a table keeps for one that is inserted, with its defaults filled in. -/
  store : τ → ρ → ρ
  ok : τ → List ρ → Bool
  ok_of_append : ∀ t xs ys, ok t (xs ++ ys) = true → ok t xs = true

/-- The rows of every table. -/
abbrev Db (τ ρ : Type*) := τ → List ρ

inductive Stmt (τ ρ : Type*)
  | delete (t : τ)
  | insert (t : τ) (rows : List ρ)

namespace Schema

variable (S : Schema τ ρ κ)

/-- What a statement does to the rows of `t`, cascades apart. -/
def on (t : τ) (rows : List ρ) : Stmt τ ρ → List ρ
  | .delete t' => if t' = t then [] else rows
  | .insert t' new => if t' = t then rows ++ new.map (S.store t) else rows

/-! ### Clean lists -/

/-- Every table is emptied when the tables that refer to it are empty; `E` holds the tables
    that are known to be. -/
def Clean (E : List τ) : List (Stmt τ ρ) → Prop
  | [] => True
  | .delete t :: ss =>
    (∀ c, ∀ fk ∈ S.foreignKeys c, fk.parent = t → c ∈ t :: E) ∧ Clean (t :: E) ss
  | .insert t _ :: ss => Clean (E.filter (fun c => decide (c ≠ t))) ss

variable {S}

theorem Clean.mono {E E' : List τ} {ss : List (Stmt τ ρ)} (h : S.Clean E ss) (hE : E ⊆ E') :
    S.Clean E' ss := by
  induction ss generalizing E E' with
  | nil => trivial
  | cons s ss ih =>
    cases s with
    | delete t =>
      refine ⟨fun c fk hfk hp => ?_, ih h.2 (List.cons_subset_cons t hE)⟩
      exact List.cons_subset_cons t hE (h.1 c fk hfk hp)
    | insert t rows =>
      refine ih (E := E.filter (fun c => decide (c ≠ t))) h (fun c hc => ?_)
      obtain ⟨hmem, hne⟩ := List.mem_filter.mp hc
      exact List.mem_filter.mpr ⟨hE hmem, hne⟩

theorem Clean.of_append {E : List τ} {a b : List (Stmt τ ρ)} (h : S.Clean E (a ++ b)) :
    S.Clean E a := by
  induction a generalizing E with
  | nil => trivial
  | cons s a ih =>
    cases s with
    | delete t => exact ⟨h.1, ih h.2⟩
    | insert t rows => exact ih (E := E.filter (fun c => decide (c ≠ t))) h

/-- A clean list after a clean list is clean: it needs nothing to be empty at its start. -/
theorem Clean.append {E : List τ} {a b : List (Stmt τ ρ)} (ha : S.Clean E a)
    (hb : S.Clean [] b) : S.Clean E (a ++ b) := by
  induction a generalizing E with
  | nil => exact hb.mono (List.nil_subset E)
  | cons s a ih =>
    cases s with
    | delete t => exact ⟨ha.1, ih ha.2⟩
    | insert t rows => exact ih (E := E.filter (fun c => decide (c ≠ t))) ha

/-! ### Rebuilding tables in an order that puts parents first -/

variable (S)

/-- The order lists every table that refers or is referred to, and parents before the tables
    that refer to them. -/
structure Ordered (order : List τ) : Prop where
  nodup : order.Nodup
  parents : order.Pairwise (fun a b => ∀ fk ∈ S.foreignKeys a, fk.parent ≠ b)
  irrefl : ∀ t, ∀ fk ∈ S.foreignKeys t, fk.parent ≠ t
  closed : ∀ t, ∀ fk ∈ S.foreignKeys t, (t ∈ order ↔ fk.parent ∈ order)

/-- Empty the tables of `order` from the last to the first, then fill them in order. -/
def rebuild (order : List τ) (chunks : τ → List (List ρ)) : List (Stmt τ ρ) :=
  order.reverse.map .delete ++ order.flatMap (fun t => (chunks t).map (.insert t))

variable {S} {order : List τ} {chunks : τ → List (List ρ)}

theorem clean_inserts {E : List τ} (ss : List (τ × List ρ)) :
    S.Clean E (ss.map (fun s => .insert s.1 s.2)) := by
  induction ss generalizing E with
  | nil => trivial
  | cons s ss ih => exact ih (E := E.filter (fun c => decide (c ≠ s.1)))

/-- The delete pass, from the tables `suf` at the end of the order that are empty already. -/
theorem clean_deletes (hord : S.Ordered order) {pre suf : List τ} (h : order = pre ++ suf) :
    S.Clean suf (pre.reverse.map .delete) := by
  induction pre using List.reverseRecOn generalizing suf with
  | nil => trivial
  | append_singleton pre t ih =>
    rw [List.reverse_append, List.reverse_singleton, List.singleton_append, List.map_cons]
    have hsplit : order = pre ++ t :: suf := by rw [h, List.append_assoc, List.singleton_append]
    refine ⟨fun c fk hfk hp => ?_, ih hsplit⟩
    -- a table that refers to `t` stands behind it
    subst hp
    have hc : c ∈ pre ++ fk.parent :: suf := by
      rw [← hsplit]
      exact (hord.closed c fk hfk).mpr (by rw [hsplit]; simp)
    rcases List.mem_append.mp hc with hpre | hsuf
    · have hpair := hord.parents
      rw [hsplit, List.pairwise_append] at hpair
      exact absurd rfl (hpair.2.2 c hpre fk.parent List.mem_cons_self fk hfk)
    · exact hsuf

/-- Rebuilding in a good order is clean. -/
theorem clean_rebuild (hord : S.Ordered order) : S.Clean [] (rebuild order chunks) := by
  refine (clean_deletes hord (List.append_nil order).symm).append ?_
  have hinserts : order.flatMap (fun t => (chunks t).map (.insert t))
      = (order.flatMap (fun t => (chunks t).map (fun rows => (t, rows)))).map
        (fun s => (.insert s.1 s.2 : Stmt τ ρ)) := by
    rw [List.map_flatMap]
    simp [Function.comp_def]
  rw [hinserts]
  exact clean_inserts _

/-! ### What a list of statements leaves of a table -/

/-- A statement of the list empties `t`. -/
def deletes (t : τ) (ss : List (Stmt τ ρ)) : Bool :=
  ss.any (fun s => match s with
    | .delete t' => decide (t' = t)
    | .insert _ _ => false)

variable (S)

/-- The rows the statements of the list put into `t`. -/
def inserted (t : τ) (ss : List (Stmt τ ρ)) : List ρ :=
  ss.flatMap (fun s => match s with
    | .delete _ => []
    | .insert t' rows => if t' = t then rows.map (S.store t) else [])

variable {S}

/-- Rows are put into a table only after it has been emptied, and then stay. -/
def Rebuilds (ss : List (Stmt τ ρ)) : Prop :=
  ∀ t rows a b, ss = a ++ .insert t rows :: b → deletes t a = true ∧ deletes t b = false

theorem deletes_append (t : τ) (a b : List (Stmt τ ρ)) :
    deletes t (a ++ b) = (deletes t a || deletes t b) := List.any_append

theorem inserted_append (t : τ) (a b : List (Stmt τ ρ)) :
    S.inserted t (a ++ b) = S.inserted t a ++ S.inserted t b := List.flatMap_append

theorem Rebuilds.of_append {a b : List (Stmt τ ρ)} (h : Rebuilds (a ++ b)) : Rebuilds a := by
  intro t rows a₁ a₂ heq
  obtain ⟨hdel, hrest⟩ := h t rows a₁ (a₂ ++ b) (by rw [heq]; simp)
  rw [deletes_append, Bool.or_eq_false_iff] at hrest
  exact ⟨hdel, hrest.1⟩

/-- A list without inserts into a table puts nothing into it. -/
theorem inserted_eq_nil {t : τ} {ss : List (Stmt τ ρ)} (h : ∀ rows, .insert t rows ∉ ss) :
    S.inserted t ss = [] := by
  rw [inserted, List.flatMap_eq_nil_iff]
  intro s hs
  cases s with
  | delete u => rfl
  | insert u rows =>
    refine if_neg ?_
    rintro rfl
    exact h rows hs

/-- The rows such a list leaves: those it puts in, where it empties the table at all. -/
theorem Rebuilds.foldl_on {ss : List (Stmt τ ρ)} (h : Rebuilds ss) (t : τ) (rows : List ρ) :
    ss.foldl (S.on t) rows = if deletes t ss then S.inserted t ss else rows := by
  induction ss using List.reverseRecOn with
  | nil => rfl
  | append_singleton ss s ih =>
    have hss := h.of_append
    rw [List.foldl_append, ih hss, deletes_append, inserted_append, List.foldl_cons, List.foldl_nil]
    cases s with
    | delete t' =>
      by_cases heq : t' = t
      · subst heq
        -- nothing was put in before
        have hnone : S.inserted t' ss = [] := by
          apply inserted_eq_nil
          intro rows hs
          obtain ⟨a, b, hsplit⟩ := List.append_of_mem hs
          have hlater := (h t' rows a (b ++ [.delete t']) (by rw [hsplit]; simp)).2
          rw [deletes_append] at hlater
          exact absurd hlater (by simp [deletes])
        have hone : S.inserted t' [.delete t'] = [] := rfl
        rw [hnone, hone]
        simp [on, deletes]
      · simp [on, deletes, heq, inserted]
    | insert t' new =>
      by_cases heq : t' = t
      · subst heq
        have hdel := (h t' new ss [] rfl).1
        simp [on, hdel, inserted]
      · simp [on, deletes, heq, inserted]

/-- Two lists over different tables. -/
theorem Rebuilds.append {a b : List (Stmt τ ρ)} (ha : Rebuilds a) (hb : Rebuilds b)
    (hne : ∀ t, deletes t a = true → deletes t b = false) : Rebuilds (a ++ b) := by
  intro t rows x y heq
  rcases List.append_eq_append_iff.mp heq with ⟨u, hx, hb'⟩ | ⟨u, ha', hy⟩
  · obtain ⟨hdel, hlater⟩ := hb t rows u y hb'
    rw [hx, deletes_append, hdel, Bool.or_true]
    exact ⟨rfl, hlater⟩
  · cases u with
    | nil =>
      obtain ⟨hdel, hlater⟩ := hb t rows [] y hy.symm
      exact absurd hdel (by simp [deletes])
    | cons s u =>
      obtain ⟨rfl, rfl⟩ := List.cons.inj hy
      obtain ⟨hdel, hlater⟩ := ha t rows x u ha'
      show deletes t x = true ∧ deletes t (u ++ b) = false
      rw [deletes_append, hlater, Bool.false_or]
      refine ⟨hdel, hne t ?_⟩
      rw [ha', deletes_append, hdel, Bool.true_or]

/-! ### Rebuilding empties and refills every table of the order -/

omit [DecidableEq τ] in
/-- The insert pass of `rebuild`. -/
theorem mem_inserts {s : Stmt τ ρ} :
    s ∈ order.flatMap (fun t => (chunks t).map (.insert t)) ↔
      ∃ t ∈ order, ∃ rows ∈ chunks t, s = .insert t rows := by
  simp only [List.mem_flatMap, List.mem_map]
  constructor
  · rintro ⟨t, ht, rows, hrows, rfl⟩
    exact ⟨t, ht, rows, hrows, rfl⟩
  · rintro ⟨t, ht, rows, hrows, rfl⟩
    exact ⟨t, ht, rows, hrows, rfl⟩

theorem deletes_inserts (t : τ) :
    deletes t (order.flatMap (fun u => (chunks u).map (.insert u))) = false := by
  rw [deletes, List.any_eq_false]
  intro s hs
  obtain ⟨u, -, rows, -, rfl⟩ := mem_inserts.mp hs
  simp

theorem deletes_map_delete (t : τ) (ts : List τ) :
    deletes t (ts.map (.delete : τ → Stmt τ ρ)) = decide (t ∈ ts) := by
  rw [deletes, List.any_map]
  by_cases h : t ∈ ts
  · simp only [h, decide_true, List.any_eq_true]
    exact ⟨t, h, by simp⟩
  · simp only [h, decide_false, List.any_eq_false]
    intro u hu
    have hne : u ≠ t := fun heq => h (heq ▸ hu)
    simpa using hne

theorem deletes_rebuild (t : τ) : deletes t (rebuild order chunks) = decide (t ∈ order) := by
  rw [rebuild, deletes_append, deletes_map_delete, deletes_inserts, Bool.or_false]
  simp

theorem inserted_map_delete (t : τ) (ts : List τ) :
    S.inserted t (ts.map (.delete : τ → Stmt τ ρ)) = [] := by
  apply inserted_eq_nil
  intro rows hs
  obtain ⟨u, -, hu⟩ := List.mem_map.mp hs
  exact absurd hu (by simp)

theorem inserted_map_insert (t u : τ) (cs : List (List ρ)) :
    S.inserted t (cs.map (.insert u)) = if u = t then cs.flatten.map (S.store t) else [] := by
  induction cs with
  | nil => simp [inserted]
  | cons c cs ih =>
    have hcons : S.inserted t ((c :: cs).map (.insert u))
        = (if u = t then c.map (S.store t) else []) ++ S.inserted t (cs.map (.insert u)) := rfl
    rw [hcons, ih]
    split <;> simp

/-- The rows a rebuild puts into a table. -/
theorem inserted_rebuild (hnodup : order.Nodup) (t : τ) :
    S.inserted t (rebuild order chunks)
      = if t ∈ order then (chunks t).flatten.map (S.store t) else [] := by
  rw [rebuild, inserted_append, inserted_map_delete, List.nil_append]
  induction order with
  | nil => rfl
  | cons u order ih =>
    rw [List.nodup_cons] at hnodup
    rw [List.flatMap_cons, inserted_append, inserted_map_insert, ih hnodup.2]
    by_cases hu : u = t
    · subst hu
      simp [hnodup.1]
    · have hmem : t ∈ u :: order ↔ t ∈ order := by simp [Ne.symm hu]
      simp only [hu, if_false, List.nil_append, hmem]

omit [DecidableEq τ] in
/-- An insert of a rebuild stands behind the whole delete pass, and its table in the order. -/
theorem rebuild_split {t : τ} {rows : List ρ} {a b : List (Stmt τ ρ)}
    (heq : rebuild order chunks = a ++ .insert t rows :: b) :
    t ∈ order ∧ rows ∈ chunks t ∧ ∃ u, a = order.reverse.map .delete ++ u ∧
      order.flatMap (fun t => (chunks t).map (.insert t)) = u ++ .insert t rows :: b := by
  have hdone : ∃ u, a = order.reverse.map .delete ++ u ∧
      order.flatMap (fun t => (chunks t).map (.insert t)) = u ++ .insert t rows :: b := by
    rcases List.append_eq_append_iff.mp heq with ⟨u, ha, hb⟩ | ⟨u, hd, hb⟩
    · exact ⟨u, ha, hb⟩
    · cases u with
      | nil => exact ⟨[], by simpa using hd.symm, hb.symm⟩
      | cons s u =>
        obtain ⟨rfl, -⟩ := List.cons.inj hb
        have hmem : (.insert t rows : Stmt τ ρ) ∈ order.reverse.map .delete := by
          rw [hd]
          simp
        obtain ⟨v, -, hv⟩ := List.mem_map.mp hmem
        exact absurd hv (by simp)
  obtain ⟨u, ha, hins⟩ := hdone
  have hs : (.insert t rows : Stmt τ ρ) ∈ order.flatMap (fun t => (chunks t).map (.insert t)) := by
    rw [hins]
    simp
  obtain ⟨v, hv, rows', hrows, hs'⟩ := mem_inserts.mp hs
  obtain ⟨rfl, rfl⟩ := Stmt.insert.inj hs'
  exact ⟨hv, hrows, u, ha, hins⟩

/-- By then every table of the order has been emptied. -/
theorem deletes_of_split {t : τ} {rows : List ρ} {a b : List (Stmt τ ρ)}
    (heq : rebuild order chunks = a ++ .insert t rows :: b) {u : τ} (hu : u ∈ order) :
    deletes u a = true := by
  obtain ⟨-, -, v, rfl, -⟩ := rebuild_split heq
  rw [deletes_append, deletes_map_delete]
  simp [hu]

theorem rebuilds_rebuild : Rebuilds (rebuild order chunks) := by
  intro t rows a b heq
  obtain ⟨ht, -, u, -, hins⟩ := rebuild_split heq
  refine ⟨deletes_of_split heq ht, ?_⟩
  have hnone : deletes t (order.flatMap (fun u => (chunks u).map (.insert u))) = false :=
    deletes_inserts t
  rw [hins, deletes_append, Bool.or_eq_false_iff] at hnone
  have hcons := hnone.2
  rw [← List.singleton_append, deletes_append, Bool.or_eq_false_iff] at hcons
  exact hcons.2

variable (S) in
/-- `y` puts no rows into a table that `x` refers to. -/
def Fills (x y : Stmt τ ρ) : Prop :=
  ∀ t rows u rows', x = .insert t rows → y = .insert u rows' →
    ∀ fk ∈ S.foreignKeys t, fk.parent ≠ u

omit [DecidableEq τ] in
theorem fills_insert {t u : τ} {rows rows' : List ρ}
    (h : ∀ fk ∈ S.foreignKeys t, fk.parent ≠ u) : S.Fills (.insert t rows) (.insert u rows') := by
  intro t' _ u' _ hx hy
  obtain ⟨rfl, -⟩ := Stmt.insert.inj hx
  obtain ⟨rfl, -⟩ := Stmt.insert.inj hy
  exact h

omit [DecidableEq τ] in
/-- Along a rebuild no table is filled behind one that refers to it. -/
theorem pairwise_rebuild (hord : S.Ordered order) : (rebuild order chunks).Pairwise S.Fills := by
  have hdelete : ∀ x ∈ order.reverse.map (.delete : τ → Stmt τ ρ), ∀ y, S.Fills x y := by
    intro x hx y t rows u rows' hx'
    obtain ⟨v, -, rfl⟩ := List.mem_map.mp hx
    exact absurd hx' (by simp)
  rw [rebuild, List.pairwise_append, List.pairwise_flatMap]
  refine ⟨List.pairwise_of_forall_mem_list (fun x hx y _ => hdelete x hx y), ⟨?_, ?_⟩,
    fun x hx y _ => hdelete x hx y⟩
  · intro v hv
    refine List.pairwise_of_forall_mem_list (fun x hx y hy => ?_)
    obtain ⟨_, -, rfl⟩ := List.mem_map.mp hx
    obtain ⟨_, -, rfl⟩ := List.mem_map.mp hy
    exact fills_insert (hord.irrefl v)
  · refine hord.parents.imp (fun hparents x hx y hy => ?_)
    obtain ⟨_, -, rfl⟩ := List.mem_map.mp hx
    obtain ⟨_, -, rfl⟩ := List.mem_map.mp hy
    exact fills_insert hparents

/-- **Parents first.** When a rebuild comes to put rows into `t`, it has put in every row of
    the tables that `t` refers to. -/
theorem inserted_parent (hord : S.Ordered order) {t : τ} {rows : List ρ}
    {done rest : List (Stmt τ ρ)} (heq : rebuild order chunks = done ++ .insert t rows :: rest)
    {fk : ForeignKey τ ρ κ} (hfk : fk ∈ S.foreignKeys t) :
    S.inserted fk.parent done = S.inserted fk.parent (rebuild order chunks) := by
  have hpair : (rebuild order chunks).Pairwise S.Fills := pairwise_rebuild hord
  rw [heq, List.pairwise_append] at hpair
  have hrest := (List.pairwise_cons.mp hpair.2.1).1
  have hnone : S.inserted fk.parent (.insert t rows :: rest) = [] := by
    apply inserted_eq_nil
    intro rows' hs
    rcases List.mem_cons.mp hs with hs' | hs'
    · obtain ⟨hself, -⟩ := Stmt.insert.inj hs'
      exact hord.irrefl t fk hfk hself
    · exact hrest _ hs' t rows fk.parent rows' rfl rfl fk hfk rfl
  rw [heq, inserted_append, hnone, List.append_nil]

/-! ### Executing statements -/

variable (S) [DecidableEq κ]

/-- The row that `r` refers to is there. -/
def refers (db : Db τ ρ) (fk : ForeignKey τ ρ κ) (r : ρ) : Bool :=
  (fk.column r).all (fun k => (db fk.parent).any (fun p => decide (S.id p = some k)))

/-- The row `r` refers to a row of `t`. -/
def hits (db : Db τ ρ) (t : τ) (fk : ForeignKey τ ρ κ) (r : ρ) : Bool :=
  decide (fk.parent = t) &&
    (fk.column r).any (fun k => (db t).any (fun p => decide (S.id p = some k)))

/-- The rows that `DELETE FROM t` takes from another table. -/
def cascades (db : Db τ ρ) (t c : τ) (r : ρ) : Bool :=
  (S.foreignKeys c).any (fun fk => fk.cascade && S.hits db t fk r)

/-- The tables after `DELETE FROM t`, with one level of cascades: enough for a schema in which
    no table that cascades is referred to itself. -/
def cleared (db : Db τ ρ) (t : τ) : Db τ ρ := fun c =>
  if c = t then [] else (db c).filter (fun r => !S.cascades db t c r)

/-- One statement; `none` when a constraint refuses it. -/
def exec (db : Db τ ρ) : Stmt τ ρ → Option (Db τ ρ)
  | .delete t =>
    if S.tables.any (fun c => (S.cleared db t c).any (fun r =>
        (S.foreignKeys c).any (fun fk => S.hits db t fk r))) then none
    else some (S.cleared db t)
  | .insert t rows =>
    let db' := Function.update db t (db t ++ rows.map (S.store t))
    if S.ok t (db' t) && (rows.map (S.store t)).all (fun r =>
        (S.foreignKeys t).all (fun fk => S.refers db' fk r)) then some db'
    else none

/-- A list of statements, up to the first one that is refused. -/
def run : List (Stmt τ ρ) → Db τ ρ → Option (Db τ ρ)
  | [], db => some db
  | s :: ss, db => (S.exec db s).bind (run ss)

/-- The database keeps its constraints, and stores its rows as they are. -/
structure Valid (db : Db τ ρ) : Prop where
  ok : ∀ t, S.ok t (db t) = true
  stored : ∀ t, ∀ r ∈ db t, S.store t r = r
  refers : ∀ t, ∀ r ∈ db t, ∀ fk ∈ S.foreignKeys t, S.refers db fk r = true

variable {S}

theorem run_append (a b : List (Stmt τ ρ)) (db : Db τ ρ) :
    S.run (a ++ b) db = (S.run a db).bind (S.run b) := by
  induction a generalizing db with
  | nil => rfl
  | cons s a ih =>
    rw [List.cons_append, run, run, Option.bind_assoc]
    congr 1
    funext db'
    exact ih db'

/-- Emptying a table nothing refers to. -/
theorem exec_delete {db : Db τ ρ} {t : τ}
    (h : ∀ c, ∀ fk ∈ S.foreignKeys c, fk.parent = t → c = t ∨ db c = []) :
    S.exec db (.delete t) = some (Function.update db t []) := by
  -- a table that refers to `t` is `t` itself or empty, so nothing is hit
  have hhit : ∀ c, c ≠ t → ∀ r ∈ db c, ∀ fk ∈ S.foreignKeys c, S.hits db t fk r = false := by
    intro c hc r hr fk hfk
    by_cases hp : fk.parent = t
    · rcases h c fk hfk hp with heq | hnil
      · exact absurd heq hc
      · rw [hnil] at hr
        exact absurd hr List.not_mem_nil
    · simp [hits, hp]
  have hcleared : S.cleared db t = Function.update db t [] := by
    funext c
    by_cases hc : c = t
    · simp [cleared, hc]
    · rw [cleared, if_neg hc, Function.update_of_ne hc]
      refine List.filter_eq_self.mpr (fun r hr => ?_)
      simp only [cascades, Bool.not_eq_true', List.any_eq_false, Bool.and_eq_true, not_and]
      intro fk hfk _
      simp [hhit c hc r hr fk hfk]
  rw [exec, hcleared, if_neg]
  simp only [List.any_eq_true, not_exists, not_and]
  intro c _ r hr fk hfk
  by_cases hc : c = t
  · subst hc
    rw [Function.update_self] at hr
    exact absurd hr List.not_mem_nil
  · rw [Function.update_of_ne hc] at hr
    simp [hhit c hc r hr fk hfk]

/-- The next delete of a clean list. -/
theorem exec_delete_of_clean {E : List τ} {t : τ} {ss : List (Stmt τ ρ)} {db : Db τ ρ}
    (hclean : S.Clean E (.delete t :: ss)) (hE : ∀ c ∈ E, db c = []) :
    S.exec db (.delete t) = some (Function.update db t []) ∧
      ∀ c ∈ t :: E, Function.update db t [] c = [] := by
  constructor
  · apply exec_delete
    intro c fk hfk hp
    rcases List.mem_cons.mp (hclean.1 c fk hfk hp) with heq | hmem
    · exact Or.inl heq
    · exact Or.inr (hE c hmem)
  · intro c hc
    by_cases hct : c = t
    · subst hct
      exact Function.update_self _ _ _
    · rw [Function.update_of_ne hct]
      exact hE c (List.mem_of_ne_of_mem hct hc)

theorem exec_insert {db db' : Db τ ρ} {t : τ} {rows : List ρ}
    (h : S.exec db (.insert t rows) = some db') :
    db' = Function.update db t (db t ++ rows.map (S.store t)) := by
  simp only [exec] at h
  split at h
  · exact (Option.some.inj h).symm
  · exact absurd h (by simp)

/-- **Frame.** In a clean list the rows of a table are what its own statements leave. -/
theorem run_clean {E : List τ} {ss : List (Stmt τ ρ)} {db db' : Db τ ρ} (hclean : S.Clean E ss)
    (hE : ∀ c ∈ E, db c = []) (hrun : S.run ss db = some db') (t : τ) :
    db' t = ss.foldl (S.on t) (db t) := by
  induction ss generalizing E db with
  | nil =>
    obtain rfl : db = db' := by simpa [run] using hrun
    rfl
  | cons s ss ih =>
    obtain ⟨db₁, hexec, hrest⟩ := Option.bind_eq_some_iff.mp hrun
    cases s with
    | delete t' =>
      obtain ⟨hempty, hE'⟩ := exec_delete_of_clean hclean hE
      obtain rfl : Function.update db t' [] = db₁ := Option.some.inj (hempty.symm.trans hexec)
      rw [ih hclean.2 hE' hrest, List.foldl_cons, on]
      by_cases ht : t' = t
      · subst ht
        rw [Function.update_self, if_pos rfl]
      · rw [Function.update_of_ne (Ne.symm ht), if_neg ht]
    | insert t' rows =>
      obtain rfl := exec_insert hexec
      have hE' : ∀ c ∈ E.filter (fun c => decide (c ≠ t')),
          Function.update db t' (db t' ++ rows.map (S.store t')) c = [] := by
        intro c hc
        obtain ⟨hmem, hne⟩ := List.mem_filter.mp hc
        rw [Function.update_of_ne (of_decide_eq_true hne)]
        exact hE c hmem
      rw [ih hclean hE' hrest, List.foldl_cons, on]
      by_cases ht : t' = t
      · subst ht
        rw [Function.update_self, if_pos rfl]
      · rw [Function.update_of_ne (Ne.symm ht), if_neg ht]

/-! ### A rebuild with the rows of a valid database succeeds -/

/-- A clean list of deletes is not refused. -/
theorem run_deletes {E ts : List τ} {db : Db τ ρ} (hclean : S.Clean E (ts.map .delete))
    (hE : ∀ c ∈ E, db c = []) : ∃ db', S.run (ts.map .delete) db = some db' := by
  induction ts generalizing E db with
  | nil => exact ⟨db, rfl⟩
  | cons t ts ih =>
    obtain ⟨hempty, hE'⟩ := exec_delete_of_clean hclean hE
    rw [List.map_cons, run, hempty, Option.bind_some]
    exact ih hclean.2 hE'

/-- What a table holds while a rebuild is under way. -/
theorem rows_of_done (hord : S.Ordered order) {done rest : List (Stmt τ ρ)} {db db' : Db τ ρ}
    (heq : rebuild order chunks = done ++ rest) (hrun : S.run done db = some db') (t : τ) :
    db' t = if deletes t done then S.inserted t done else db t := by
  have hclean : S.Clean [] done := by
    have hwhole : S.Clean [] (rebuild order chunks) := clean_rebuild hord
    rw [heq] at hwhole
    exact hwhole.of_append
  have hrebuilds : Rebuilds done := by
    have hwhole : Rebuilds (rebuild order chunks) := rebuilds_rebuild
    rw [heq] at hwhole
    exact hwhole.of_append
  rw [run_clean hclean (by simp) hrun t, hrebuilds.foldl_on]

/-- The next insert of a rebuild with the rows of a valid database is not refused. -/
theorem exec_insert_of_valid (hord : S.Ordered order) {source : Db τ ρ} (hvalid : S.Valid source)
    (hchunks : ∀ t ∈ order, (chunks t).flatten = source t) {done rest : List (Stmt τ ρ)}
    {t : τ} {rows : List ρ} {db db' : Db τ ρ}
    (heq : rebuild order chunks = done ++ .insert t rows :: rest)
    (hrun : S.run done db = some db') : ∃ db'', S.exec db' (.insert t rows) = some db'' := by
  obtain ⟨ht, -⟩ := rebuild_split heq
  have hrows : ∀ u ∈ order, db' u = S.inserted u done := by
    intro u hu
    rw [rows_of_done hord heq hrun u, if_pos (deletes_of_split heq hu)]
  -- all that goes into a table, stored, is the table of the source
  have hall : ∀ u ∈ order, S.inserted u (rebuild order chunks) = source u := by
    intro u hu
    rw [inserted_rebuild hord.nodup, if_pos hu, hchunks u hu]
    conv_rhs => rw [← List.map_id (source u)]
    exact List.map_congr_left (hvalid.stored u)
  have hsplit : S.inserted t (rebuild order chunks)
      = (db' t ++ rows.map (S.store t)) ++ S.inserted t rest := by
    have hone : S.inserted t (.insert t rows :: rest)
        = rows.map (S.store t) ++ S.inserted t rest := by
      simp [inserted]
    rw [heq, inserted_append, hone, hrows t ht, List.append_assoc]
  have hok : S.ok t (db' t ++ rows.map (S.store t)) = true := by
    refine S.ok_of_append t _ (S.inserted t rest) ?_
    rw [← hsplit, hall t ht]
    exact hvalid.ok t
  have hrefers : ∀ r ∈ rows.map (S.store t), ∀ fk ∈ S.foreignKeys t,
      S.refers (Function.update db' t (db' t ++ rows.map (S.store t))) fk r = true := by
    intro r hr fk hfk
    have hsource : r ∈ source t := by
      rw [← hall t ht, hsplit]
      simp only [List.mem_append]
      exact Or.inl (Or.inr hr)
    have hparent : Function.update db' t (db' t ++ rows.map (S.store t)) fk.parent
        = source fk.parent := by
      have hp : fk.parent ∈ order := (hord.closed t fk hfk).mp ht
      rw [Function.update_of_ne (hord.irrefl t fk hfk), hrows _ hp, inserted_parent hord heq hfk,
        hall _ hp]
    rw [refers, hparent]
    exact hvalid.refers t r hsource fk hfk
  refine ⟨Function.update db' t (db' t ++ rows.map (S.store t)), ?_⟩
  simp only [exec, Function.update_self, hok, Bool.true_and]
  rw [if_pos]
  exact List.all_eq_true.mpr (fun r hr => List.all_eq_true.mpr (hrefers r hr))

/-- **A rebuild succeeds.** With the rows of a valid database, cut into chunks in any way, no
    statement is refused, whatever the tables held before. -/
theorem run_rebuild (hord : S.Ordered order) {source : Db τ ρ} (hvalid : S.Valid source)
    (hchunks : ∀ t ∈ order, (chunks t).flatten = source t) (db : Db τ ρ) :
    ∃ db', S.run (rebuild order chunks) db = some db' := by
  obtain ⟨db₀, hdel⟩ : ∃ db₀, S.run (order.reverse.map .delete) db = some db₀ :=
    run_deletes (clean_deletes hord (List.append_nil order).symm) (by simp)
  -- every part of the insert pass runs through, by induction on its length
  have hgen : ∀ ins rest, order.flatMap (fun t => (chunks t).map (.insert t)) = ins ++ rest →
      ∃ db', S.run (order.reverse.map .delete ++ ins) db = some db' := by
    intro ins
    induction ins using List.reverseRecOn with
    | nil => exact fun rest _ => ⟨db₀, by rw [List.append_nil]; exact hdel⟩
    | append_singleton ins s ih =>
      intro rest heq
      obtain ⟨db₁, hrun⟩ := ih (s :: rest) (by rw [heq, List.append_assoc]; rfl)
      obtain ⟨t, -, rows, -, rfl⟩ : ∃ t ∈ order, ∃ rows ∈ chunks t, s = .insert t rows := by
        refine mem_inserts.mp ?_
        rw [heq]
        simp
      have hwhole : rebuild order chunks
          = (order.reverse.map .delete ++ ins) ++ .insert t rows :: rest := by
        rw [rebuild, heq]
        simp
      obtain ⟨db₂, hexec⟩ := exec_insert_of_valid hord hvalid hchunks hwhole hrun
      refine ⟨db₂, ?_⟩
      rw [← List.append_assoc, run_append, hrun, Option.bind_some, run, hexec]
      rfl
  exact hgen _ [] (List.append_nil _).symm

end Schema

end Relational
