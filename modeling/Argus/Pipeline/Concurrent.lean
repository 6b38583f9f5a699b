import Argus.Pipeline.History

namespace Argus.Pipeline

/-!
# Concurrent ingests

The agent's push, the check scheduler and the SNMP scheduler call `processUnits` for one
source independently of each other.  A call compares its samples with a snapshot it read
before, so a call that overlaps a change of the same entity records it again, or records one
that starts from a status that is no longer stored.

* `Clear`, `Steady` — the statements a call has still to send do not touch an entity, or only
  repeat its stored status.
* `Exclusive` — the step condition: a snapshot is read when nothing about the entity is
  pending, or when nothing that is pending or reported changes it.
* `Coherent` — the invariant: the log together with the pending inserts of at most one call is
  a history of the status that is stored once that call is done.
* `interleaved_history` — in every interleaving whose steps meet the condition, the log is a
  history of the stored status as soon as nothing about the entity is pending.
-/

open ChangeLog
open Argus.Core (HealthStatus)

variable {calls : ℕ → Call} {sourceId e : String}

/-- The statements a call has still to send. -/
def Pc.todo : Pc → List Stmt
  | .start => []
  | .writing todo => todo

/-- The statements do not touch the entity. -/
def Clear (sourceId e : String) (todo : List Stmt) : Prop :=
  logged sourceId e todo = [] ∧ written sourceId e todo = []

/-- The statements record no change of the entity, and store only the status it has. -/
def Steady (sourceId e : String) (db : TelemetryDb) (todo : List Stmt) : Prop :=
  logged sourceId e todo = [] ∧ ∀ s ∈ written sourceId e todo, db.status sourceId e = some s

/-- **Step condition.** A call that reports the entity reads its snapshot when no call has
    statements about it pending (and its batch meets the condition of a call that runs alone),
    or when neither what is pending nor what it reports changes the entity. -/
def Exclusive (calls : ℕ → Call) (sourceId e : String) (w : World) (i : ℕ) : Prop :=
  w.pcs i = .start → (calls i).reports sourceId e ≠ [] →
    ((∀ j, Clear sourceId e (w.pcs j).todo) ∧ (calls i).Repeats sourceId e w.db) ∨
    ((∀ j, Steady sourceId e w.db (w.pcs j).todo) ∧
      ∀ s ∈ (calls i).reports sourceId e, w.db.status sourceId e = some s)

/-! ### Statements -/

theorem logged_cons (sourceId e : String) (stmt : Stmt) (todo : List Stmt) :
    logged sourceId e (stmt :: todo) = stmt.changesOf sourceId e ++ logged sourceId e todo := rfl

theorem written_cons (sourceId e : String) (stmt : Stmt) (todo : List Stmt) :
    written sourceId e (stmt :: todo)
      = stmt.columnOf UnitState.status sourceId e ++ written sourceId e todo := rfl

theorem status_exec (sourceId e : String) (db : TelemetryDb) (stmt : Stmt) :
    (stmt.exec db).status sourceId e
      = latest (db.status sourceId e) (stmt.columnOf UnitState.status sourceId e) :=
  column_exec sourceId e (fun _ _ => rfl) db stmt

theorem Clear.steady {todo : List Stmt} (h : Clear sourceId e todo) (db : TelemetryDb) :
    Steady sourceId e db todo := by
  refine ⟨h.1, fun s hs => ?_⟩
  rw [h.2] at hs
  exact absurd hs List.not_mem_nil

/-- The first statement of a clear list leaves log and status as they are. -/
theorem Clear.exec {stmt : Stmt} {todo : List Stmt} (h : Clear sourceId e (stmt :: todo))
    (db : TelemetryDb) :
    (stmt.exec db).changes sourceId e = db.changes sourceId e ∧
      (stmt.exec db).status sourceId e = db.status sourceId e ∧ Clear sourceId e todo := by
  obtain ⟨hlog, hwrite⟩ := h
  rw [logged_cons, List.append_eq_nil_iff] at hlog
  rw [written_cons, List.append_eq_nil_iff] at hwrite
  rw [changes_exec, status_exec, hlog.1, hwrite.1, List.append_nil]
  exact ⟨rfl, rfl, hlog.2, hwrite.2⟩

/-- So does the first statement of a steady list. -/
theorem Steady.exec {db : TelemetryDb} {stmt : Stmt} {todo : List Stmt}
    (h : Steady sourceId e db (stmt :: todo)) :
    (stmt.exec db).changes sourceId e = db.changes sourceId e ∧
      (stmt.exec db).status sourceId e = db.status sourceId e ∧ Steady sourceId e db todo := by
  obtain ⟨hlog, hwrite⟩ := h
  rw [logged_cons, List.append_eq_nil_iff] at hlog
  rw [written_cons] at hwrite
  have hsame : latest (db.status sourceId e) (stmt.columnOf UnitState.status sourceId e)
      = db.status sourceId e :=
    latest_of_forall (fun s hs => hwrite s (List.mem_append_left _ hs))
  rw [changes_exec, status_exec, hlog.1, List.append_nil]
  exact ⟨rfl, hsame, hlog.2, fun s hs => hwrite s (List.mem_append_right _ hs)⟩

/-! ### The invariant -/

/-- The log is a history of the stored status, counting what one call has pending. -/
def Expected (sourceId e : String) (db : TelemetryDb) (todo : List Stmt) : Prop :=
  Replays none (db.changes sourceId e ++ logged sourceId e todo)
    (latest (db.status sourceId e) (written sourceId e todo))

/-- **Invariant.** Either nothing that is pending changes the entity, or one call at most has
    statements about it pending; in both cases the log is a history of the status that is
    stored in the end. -/
def Coherent (sourceId e : String) (w : World) : Prop :=
  ((∀ j, Steady sourceId e w.db (w.pcs j).todo) ∧
      Replays none (w.db.changes sourceId e) (w.db.status sourceId e)) ∨
    ∃ i, (∀ j, j ≠ i → Clear sourceId e (w.pcs j).todo) ∧
      Expected sourceId e w.db (w.pcs i).todo

/-- When nothing that is pending changes the entity, the log is a history as it stands. -/
theorem Coherent.replays {w : World} (h : Coherent sourceId e w)
    (hsteady : ∀ j, Steady sourceId e w.db (w.pcs j).todo) :
    Replays none (w.db.changes sourceId e) (w.db.status sourceId e) := by
  rcases h with ⟨-, hchain⟩ | ⟨i, -, hexp⟩
  · exact hchain
  · obtain ⟨hlog, hwrite⟩ := hsteady i
    unfold Expected at hexp
    rw [hlog, List.append_nil, latest_of_forall hwrite] at hexp
    exact hexp

/-- What a position has pending after the step of call `i`. -/
theorem todo_update (pcs : ℕ → Pc) (i : ℕ) (todo : List Stmt) (j : ℕ) :
    ((Function.update pcs i (.writing todo)) j).todo = if j = i then todo else (pcs j).todo := by
  by_cases hj : j = i
  · rw [hj, Function.update_self, if_pos rfl]
    rfl
  · rw [Function.update_of_ne hj, if_neg hj]

/-- **Step lemma, snapshot.** -/
theorem Coherent.start {w : World} (hwf : w.db.WF) (h : Coherent sourceId e w) {i : ℕ}
    (hi : w.pcs i = .start) (hex : Exclusive calls sourceId e w i) :
    Coherent sourceId e
      { db := w.db, pcs := Function.update w.pcs i (.writing ((calls i).pending w.db)) } := by
  have hlog := logged_pending hwf sourceId e (calls i)
  have hwrite := written_pending sourceId e w.db (calls i)
  have htodo : (w.pcs i).todo = [] := by rw [hi]; rfl
  unfold Coherent
  simp only [todo_update]
  by_cases hrep : (calls i).reports sourceId e = []
  · -- the call is not about the entity: it had nothing pending and has nothing now
    rw [hrep] at hlog hwrite
    have hclear : Clear sourceId e ((calls i).pending w.db) := ⟨hlog, hwrite⟩
    rcases h with ⟨hsteady, hchain⟩ | ⟨k, hothers, hexp⟩
    · refine Or.inl ⟨fun j => ?_, hchain⟩
      split
      · exact hclear.steady w.db
      · exact hsteady j
    · refine Or.inr ⟨k, fun j hj => ?_, ?_⟩
      · split
        · exact hclear
        · exact hothers j hj
      · split
        · rename_i hki
          rw [hki, htodo] at hexp
          unfold Expected at hexp ⊢
          rw [hclear.1, hclear.2]
          exact hexp
        · exact hexp
  · rcases hex hi hrep with ⟨hclear, hrepeats⟩ | ⟨hsteady, hsame⟩
    · -- nothing is pending: the call becomes the one with pending statements
      have hchain := h.replays (fun j => (hclear j).steady w.db)
      refine Or.inr ⟨i, fun j hj => ?_, ?_⟩
      · rw [if_neg hj]
        exact hclear j
      · rw [if_pos rfl]
        unfold Expected
        rw [hlog, hwrite]
        exact replays_append_diffLog.mpr ⟨hchain, hrepeats⟩
    · -- nothing changes: the call is as steady as those that are pending
      refine Or.inl ⟨fun j => ?_, h.replays hsteady⟩
      split
      · refine ⟨hlog.trans (diffLog_eq_nil.mpr hsame), ?_⟩
        rw [hwrite]
        exact hsame
      · exact hsteady j

/-- **Step lemma, write.** -/
theorem Coherent.write {w : World} (h : Coherent sourceId e w) {i : ℕ} {stmt : Stmt}
    {todo : List Stmt} (hi : w.pcs i = .writing (stmt :: todo)) :
    Coherent sourceId e
      { db := stmt.exec w.db, pcs := Function.update w.pcs i (.writing todo) } := by
  have htodo : (w.pcs i).todo = stmt :: todo := by rw [hi]; rfl
  unfold Coherent
  simp only [todo_update]
  rcases h with ⟨hsteady, hchain⟩ | ⟨k, hothers, hexp⟩
  · -- a steady statement changes neither the log nor the status
    have hthis := hsteady i
    rw [htodo] at hthis
    obtain ⟨hchanges, hstatus, hrest⟩ := hthis.exec
    rw [hchanges, hstatus]
    refine Or.inl ⟨fun j => ?_, hchain⟩
    unfold Steady at hrest ⊢
    rw [hstatus]
    split
    · exact hrest
    · exact hsteady j
  · by_cases hki : i = k
    · -- the statement moves from what is pending to what is stored
      subst hki
      rw [htodo] at hexp
      refine Or.inr ⟨i, fun j hj => ?_, ?_⟩
      · rw [if_neg hj]
        exact hothers j hj
      · rw [if_pos rfl]
        unfold Expected at hexp ⊢
        rw [changes_exec, status_exec, List.append_assoc, ← latest_append]
        exact hexp
    · -- the statement is not about the entity
      have hthis := hothers i hki
      rw [htodo] at hthis
      obtain ⟨hchanges, hstatus, hrest⟩ := hthis.exec w.db
      refine Or.inr ⟨k, fun j hj => ?_, ?_⟩
      · split
        · exact hrest
        · exact hothers j hj
      · rw [if_neg (Ne.symm hki)]
        unfold Expected at hexp ⊢
        rw [hchanges, hstatus]
        exact hexp

/-- What a step is: a snapshot or a write. -/
theorem interleaving_step {w w' : World} {i : ℕ} (h : (interleaving calls).step w i = some w') :
    (w.pcs i = .start ∧
      w' = { db := w.db, pcs := Function.update w.pcs i (.writing ((calls i).pending w.db)) }) ∨
    ∃ stmt todo, w.pcs i = .writing (stmt :: todo) ∧
      w' = { db := stmt.exec w.db, pcs := Function.update w.pcs i (.writing todo) } := by
  obtain ⟨r, hr, rfl⟩ := Option.map_eq_some_iff.mp h
  cases hpc : w.pcs i with
  | start =>
    rw [hpc] at hr
    obtain rfl := Option.some.inj hr
    exact Or.inl ⟨rfl, rfl⟩
  | writing todo =>
    rw [hpc] at hr
    cases todo with
    | nil => exact absurd hr.symm (Option.some_ne_none r)
    | cons stmt todo =>
      obtain rfl := Option.some.inj hr
      exact Or.inr ⟨stmt, todo, rfl, rfl⟩

/-- **Step lemma.** -/
theorem Coherent.step {w w' : World} {i : ℕ} (h : w.db.WF ∧ Coherent sourceId e w)
    (hex : Exclusive calls sourceId e w i) (hstep : (interleaving calls).step w i = some w') :
    w'.db.WF ∧ Coherent sourceId e w' := by
  rcases interleaving_step hstep with ⟨hi, rfl⟩ | ⟨stmt, todo, hi, rfl⟩
  · exact ⟨h.1, h.2.start h.1 hi hex⟩
  · exact ⟨h.1.exec stmt, h.2.write hi⟩

/-- Before the first step there is no log and no stored status. -/
theorem Coherent.initial : Coherent sourceId e World.initial := by
  refine Or.inl ⟨fun j => ?_, rfl⟩
  exact Clear.steady ⟨rfl, rfl⟩ _

/-- **Concurrent ingests.** In every interleaving of any number of calls whose steps meet the
    condition, the recorded changes of the entity are a history of its stored status whenever
    no call has statements about it pending. -/
theorem interleaved_history {ls : List ℕ} {w : World}
    (hmeets : (interleaving calls).Meets (Exclusive calls sourceId e) World.initial ls)
    (hrun : (interleaving calls).exec World.initial ls = some w)
    (hdone : ∀ j, Clear sourceId e (w.pcs j).todo) : w.db.History sourceId e := by
  have hinv : w.db.WF ∧ Coherent sourceId e w :=
    Machine.inv_of_exec (I := fun w => w.db.WF ∧ Coherent sourceId e w)
      (fun s i s' hs hex hstep => Coherent.step hs hex hstep)
      ⟨TelemetryDb.WF.empty, Coherent.initial⟩ hmeets hrun
  refine (history_iff hinv.1).mpr ?_
  exact hinv.2.replays (fun j => (hdone j).steady w.db)

/-! ### Runs that are evaluated -/

/-- A position that has begun meets the condition at its writes. -/
theorem meets_write {w : World} {i : ℕ} {ls : List ℕ} {stmt : Stmt} {todo : List Stmt}
    (hi : w.pcs i = .writing (stmt :: todo))
    (hrest : (interleaving calls).Meets (Exclusive calls sourceId e)
      { db := stmt.exec w.db, pcs := Function.update w.pcs i (.writing todo) } ls) :
    (interleaving calls).Meets (Exclusive calls sourceId e) w (i :: ls) := by
  refine ⟨fun hstart => ?_, fun w' hw' => ?_⟩
  · rw [hi] at hstart
    exact Pc.noConfusion hstart
  · rcases interleaving_step hw' with ⟨hstart, -⟩ | ⟨stmt', todo', hi', rfl⟩
    · rw [hi] at hstart
      exact Pc.noConfusion hstart
    · rw [hi] at hi'
      obtain ⟨rfl, rfl⟩ := List.cons.inj (Pc.writing.inj hi')
      exact hrest

/-- A position that has not begun meets the condition where the condition says so. -/
theorem meets_start {w : World} {i : ℕ} {ls : List ℕ} (hi : w.pcs i = .start)
    (hex : Exclusive calls sourceId e w i)
    (hrest : (interleaving calls).Meets (Exclusive calls sourceId e)
      { db := w.db, pcs := Function.update w.pcs i (.writing ((calls i).pending w.db)) } ls) :
    (interleaving calls).Meets (Exclusive calls sourceId e) w (i :: ls) := by
  refine ⟨hex, fun w' hw' => ?_⟩
  rcases interleaving_step hw' with ⟨-, rfl⟩ | ⟨stmt, todo, hi', -⟩
  · exact hrest
  · rw [hi] at hi'
    exact Pc.noConfusion hi'

/-- A call that does not move stays where it is. -/
theorem pcs_of_not_mem {w w' : World} {ls : List ℕ} {j : ℕ} (hj : j ∉ ls)
    (hrun : (interleaving calls).exec w ls = some w') : w'.pcs j = w.pcs j := by
  induction ls generalizing w with
  | nil =>
    obtain rfl : w = w' := Option.some.inj hrun
    rfl
  | cons i ls ih =>
    obtain ⟨v, hv, hrest⟩ := (interleaving calls).exec_cons_eq_some.mp hrun
    have hne : j ≠ i := fun h => hj (h ▸ List.mem_cons_self)
    rw [ih (fun h => hj (List.mem_cons_of_mem i h)) hrest]
    rcases interleaving_step hv with ⟨-, rfl⟩ | ⟨stmt, todo, -, rfl⟩ <;>
      exact Function.update_of_ne hne _ _

/-- A run leaves nothing pending when the calls that moved are done. -/
theorem todo_of_exec {w : World} {ls : List ℕ}
    (hrun : (interleaving calls).exec World.initial ls = some w)
    (hdone : ∀ j ∈ ls, (w.pcs j).todo = []) (j : ℕ) : (w.pcs j).todo = [] := by
  by_cases hj : j ∈ ls
  · exact hdone j hj
  · rw [pcs_of_not_mem hj hrun]
    rfl

namespace Sample

/-- A batch with one sample. -/
def single (entity : String) (status : HealthStatus) : Call :=
  { sourceId := "agent-1", units := [{ entity := entity, status := status }], now := 0 }

end Sample

open Sample

/-- A first push, and then two pushes with the same status that interleave: one change is
    recorded. -/
theorem interleaved_history_steady :
    ∃ w, (interleaving fun _ => single "svcA" .unknown).exec World.initial
        [0, 0, 0, 0, 1, 2, 1, 2] = some w ∧
      w.db.History "agent-1" "svcA" ∧ w.db.changes "agent-1" "svcA" = [(none, .unknown)] := by
  have hmeets : (interleaving fun _ => single "svcA" .unknown).Meets
      (Exclusive (fun _ => single "svcA" .unknown) "agent-1" "svcA") World.initial
      [0, 0, 0, 0, 1, 2, 1, 2] := by
    refine meets_start rfl ?_ (meets_write rfl (meets_write rfl (meets_write rfl
      (meets_start rfl ?_ (meets_start rfl ?_ (meets_write rfl (meets_write rfl trivial)))))))
    · exact fun _ _ => Or.inl ⟨fun _ => ⟨rfl, rfl⟩, fun s hs => absurd hs List.not_mem_nil⟩
    · refine fun _ _ => Or.inr ⟨fun j => ?_, fun s hs => ?_⟩
      · simp only [todo_update]
        split_ifs <;> exact ⟨rfl, fun s hs => absurd hs List.not_mem_nil⟩
      · obtain rfl := List.mem_singleton.mp hs
        rfl
    · refine fun _ _ => Or.inr ⟨fun j => ?_, fun s hs => ?_⟩
      · simp only [todo_update]
        split_ifs
        · -- the overlapping call has the same status to store
          refine ⟨rfl, fun s hs => ?_⟩
          obtain rfl := List.mem_singleton.mp hs
          rfl
        all_goals exact ⟨rfl, fun s hs => absurd hs List.not_mem_nil⟩
      · obtain rfl := List.mem_singleton.mp hs
        rfl
  obtain ⟨w, hrun, hends, hchanges⟩ : ∃ w,
      (interleaving fun _ => single "svcA" .unknown).exec World.initial
        [0, 0, 0, 0, 1, 2, 1, 2] = some w ∧
      ((w.pcs 0).todo = [] ∧ (w.pcs 1).todo = [] ∧ (w.pcs 2).todo = []) ∧
      w.db.changes "agent-1" "svcA" = [(none, .unknown)] := ⟨_, rfl, ⟨rfl, rfl, rfl⟩, rfl⟩
  have hdone := todo_of_exec hrun (by simp [hends])
  refine ⟨w, hrun, interleaved_history hmeets hrun (fun j => ?_), hchanges⟩
  rw [hdone j]
  exact ⟨rfl, rfl⟩

/-- Two calls with the same sample, both with the snapshot of an empty table: the first change
    of the unit is recorded twice. -/
theorem interleaved_history_forks :
    ¬ ∀ (calls : ℕ → Call) (sourceId e : String) (ls : List ℕ) (w : World),
      (∀ i, (calls i).sourceId = sourceId) →
      (interleaving calls).exec World.initial ls = some w → (∀ j, (w.pcs j).todo = []) →
      w.db.History sourceId e := by
  intro h
  obtain ⟨w, hrun, hends, hchanges⟩ : ∃ w,
      (interleaving fun _ => single "svcA" .unknown).exec World.initial
        [0, 1, 0, 0, 0, 1, 1, 1] = some w ∧
      ((w.pcs 0).todo = [] ∧ (w.pcs 1).todo = []) ∧
      w.db.changes "agent-1" "svcA" = [(none, .unknown), (none, .unknown)] :=
    ⟨_, rfl, ⟨rfl, rfl⟩, rfl⟩
  have hdone := todo_of_exec hrun (by simp [hends])
  have hchain := (h _ "agent-1" "svcA" _ w (fun _ => rfl) hrun hdone).chain
  rw [hchanges] at hchain
  exact absurd hchain.2.2.1 (by simp)

end Argus.Pipeline
