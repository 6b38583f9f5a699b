import Argus.Agents.Settings
import Argus.Lib.Interleaving

namespace Argus.Agents

open Argus.Auth (sha256 truthy)
open Interleaving (Exclusive)

/-!
# Registrations that overlap

`registerAgent` decides from the key row that its request was authenticated with, and binds the key
behind the insert.  A second registration that reads the key in between sees it unbound, and
inserts an agent of its own.

* `RegisterPc`, `registerStep` — a registration, statement by statement: the key, the update of the
  agent it is bound to, or the insert and the binding.
* `exec_alone` — without other registrations in between, it is `registerAgent`.
* `registrations` — all interleavings of registrations with one key.
* `ReadsAlone` — a registration reads the key while no other one holds it unbound.
* `one_agent` — then one agent is created for the key, and every registration returns it.
-/

/-! ### Statements -/

/-- Where a registration stands: before it reads the key; with the key row it has read; with a key
    whose agent is gone; behind the insert; or at its end. -/
inductive RegisterPc
  | start
  | holding (key : AgentKey)
  | unattached (key : AgentKey)
  | created (key : AgentKey) (response : RegisterResponse)
  | done (response : RegisterResponse)
  | refused
deriving DecidableEq

/-- What a request brings, and what its statements draw. -/
structure RegisterDraw where
  newId : String
  now : String

def AgentStore.resolveAgentKey (db : AgentStore) (rawKey : String) : Option AgentKey :=
  (Table.lookup AgentKey.keyHash (sha256 rawKey) db.agentKeys).filter fun k => !k.disabled

/-- The insert; the id that is drawn is not empty and not taken. -/
def AgentStore.insertAgent (db : AgentStore) (key : AgentKey) (req : RegisterRequest)
    (d : RegisterDraw) :
    Option (AgentStore × RegisterPc) :=
  if d.newId = "" ∨ (Table.lookup AgentRow.id d.newId db.agents).isSome then none
  else some ({ db with agents := db.agents ++ [newAgent req d.newId d.now] },
    .created key ⟨d.newId, .pending⟩)

def AgentStore.bindKey (db : AgentStore) (keyId agentId : String) : AgentStore :=
  { db with
    agentKeys := Table.update (fun k => decide (k.id = keyId))
      (fun k => { k with agentId := some agentId }) db.agentKeys }

/-- The next statement of a registration. -/
def registerStep (rawKey : String) (req : RegisterRequest) (d : RegisterDraw) (db : AgentStore) :
    RegisterPc → Option (AgentStore × RegisterPc)
  | .start => some (db, (db.resolveAgentKey rawKey).elim .refused .holding)
  | .holding key =>
    match truthy key.agentId with
    | none => db.insertAgent key req d
    | some id =>
      match Table.lookup AgentRow.id id db.agents with
      | some a => some (db.set id (withFacts req d.now), .done ⟨a.id, a.status⟩)
      | none => some (db, .unattached key)
  | .unattached key => db.insertAgent key req d
  | .created key response => some (db.bindKey key.id response.agentId, .done response)
  | .done _ | .refused => none

abbrev RegisterWorld := Interleaving.World AgentStore RegisterPc

/-- The registrations with one key, in any order of their statements. -/
def registrations (rawKey : String) (reqs : ℕ → RegisterRequest) :
    Machine RegisterWorld (ℕ × RegisterDraw) :=
  Interleaving.machine fun i d db pc => registerStep rawKey (reqs i) d db pc

theorem insertAgent_eq {db : AgentStore} {key : AgentKey} {req : RegisterRequest}
    {d : RegisterDraw} (hne : d.newId ≠ "")
    (hfresh : (Table.lookup AgentRow.id d.newId db.agents).isSome = false) :
    db.insertAgent key req d =
      some ({ db with agents := db.agents ++ [newAgent req d.newId d.now] },
        .created key ⟨d.newId, .pending⟩) := by
  rw [AgentStore.insertAgent, if_neg]
  simp [hne, hfresh]

/-- A registration whose statements nothing interrupts does what `registerAgent` does. -/
theorem exec_alone {rawKey : String} {reqs : ℕ → RegisterRequest} {w : RegisterWorld} {i : ℕ}
    {key : AgentKey} {d : RegisterDraw} {db : AgentStore} {response : RegisterResponse}
    (hresolve : w.db.resolveAgentKey rawKey = some key) (hpc : w.pcs i = .start)
    (hne : d.newId ≠ "")
    (h : w.db.registerAgent key (reqs i) d.newId d.now = (db, some response)) :
    ∃ ls, (∀ l ∈ ls, l = (i, d)) ∧ (registrations rawKey reqs).exec w ls =
      some ⟨db, Function.update w.pcs i (.done response)⟩ := by
  have hread : registerStep rawKey (reqs i) d w.db (w.pcs i) = some (w.db, .holding key) := by
    rw [hpc, registerStep, hresolve]
    rfl
  rw [AgentStore.registerAgent] at h
  cases hfound : (truthy key.agentId).bind fun id => Table.lookup AgentRow.id id w.db.agents with
  | some a =>
    rw [hfound] at h
    obtain ⟨rfl, hresponse⟩ := Prod.mk.inj h
    obtain rfl := Option.some.inj hresponse
    obtain ⟨id, hbound, ha⟩ := Option.bind_eq_some_iff.mp hfound
    have hupdate : registerStep rawKey (reqs i) d w.db
        (Function.update w.pcs i (.holding key) i) =
          some (w.db.set a.id (withFacts (reqs i) d.now), .done ⟨a.id, a.status⟩) := by
      rw [Function.update_self, registerStep, hbound]
      dsimp only
      rw [ha]
      simp only [(Table.lookup_some ha).2]
    refine ⟨[(i, d), (i, d)], by simp, Interleaving.exec_cons hread
      (Interleaving.exec_cons hupdate ?_)⟩
    rw [Machine.exec_nil, Function.update_idem]
  | none =>
    rw [hfound] at h
    dsimp only at h
    split at h
    · cases (Prod.mk.inj h).2
    · rename_i hfresh
      obtain ⟨rfl, hresponse⟩ := Prod.mk.inj h
      obtain rfl := Option.some.inj hresponse
      rw [Bool.not_eq_true] at hfresh
      have hbind : ∀ pcs : ℕ → RegisterPc, registerStep rawKey (reqs i) d
          { w.db with agents := w.db.agents ++ [newAgent (reqs i) d.newId d.now] }
          (Function.update pcs i (.created key ⟨d.newId, .pending⟩) i) =
            some (AgentStore.bindKey
              { w.db with agents := w.db.agents ++ [newAgent (reqs i) d.newId d.now] }
              key.id d.newId, .done ⟨d.newId, .pending⟩) := by
        intro pcs
        rw [Function.update_self, registerStep]
      cases hbound : truthy key.agentId with
      | none =>
        have hinsert : registerStep rawKey (reqs i) d w.db
            (Function.update w.pcs i (.holding key) i) =
              some ({ w.db with agents := w.db.agents ++ [newAgent (reqs i) d.newId d.now] },
                .created key ⟨d.newId, .pending⟩) := by
          rw [Function.update_self, registerStep, hbound]
          exact insertAgent_eq hne hfresh
        refine ⟨[(i, d), (i, d), (i, d)], by simp, Interleaving.exec_cons hread
          (Interleaving.exec_cons hinsert (Interleaving.exec_cons (hbind _) ?_))⟩
        rw [Machine.exec_nil, Function.update_idem, Function.update_idem]
        rfl
      | some id =>
        rw [hbound, Option.bind_some] at hfound
        have hgone : registerStep rawKey (reqs i) d w.db
            (Function.update w.pcs i (.holding key) i) = some (w.db, .unattached key) := by
          rw [Function.update_self, registerStep, hbound]
          dsimp only
          rw [hfound]
        have hinsert : registerStep rawKey (reqs i) d w.db (Function.update
            (Function.update w.pcs i (.holding key)) i (.unattached key) i) =
              some ({ w.db with agents := w.db.agents ++ [newAgent (reqs i) d.newId d.now] },
                .created key ⟨d.newId, .pending⟩) := by
          rw [Function.update_self, registerStep]
          exact insertAgent_eq hne hfresh
        refine ⟨[(i, d), (i, d), (i, d), (i, d)], by simp, Interleaving.exec_cons hread
          (Interleaving.exec_cons hgone (Interleaving.exec_cons hinsert
            (Interleaving.exec_cons (hbind _) ?_)))⟩
        rw [Machine.exec_nil, Function.update_idem, Function.update_idem, Function.update_idem]
        rfl

/-! ### Which key is held -/

/-- The registration has read the key unbound, and has not bound it. -/
def RegisterPc.HoldsUnbound : RegisterPc → Prop
  | .holding key => truthy key.agentId = none
  | .unattached _ | .created _ _ => True
  | .start | .done _ | .refused => False

/-- A registration reads the key while no other one holds it unbound. -/
def ReadsAlone (w : RegisterWorld) (l : ℕ × RegisterDraw) : Prop :=
  w.pcs l.1 = .start → ∀ j, ¬ (w.pcs j).HoldsUnbound

def AgentStore.ids (db : AgentStore) : List String := db.agents.map AgentRow.id

theorem truthy_of_ne {id : String} (h : id ≠ "") : truthy (some id) = some id := by
  simp [truthy, h]

theorem ids_set (db : AgentStore) (id : String) (req : RegisterRequest) (now : String) :
    (db.set id (withFacts req now)).ids = db.ids := by
  have hkeep : ∀ a, (withFacts req now a).id = a.id := fun _ => rfl
  exact Table.map_update AgentRow.id hkeep db.agents

theorem mem_ids {db : AgentStore} {id : String} (h : id ∈ db.ids) :
    ∃ a, Table.lookup AgentRow.id id db.agents = some a ∧ a.id = id := by
  cases hlookup : Table.lookup AgentRow.id id db.agents with
  | none =>
    obtain ⟨a, ha, rfl⟩ := List.mem_map.mp h
    exact absurd rfl (Table.lookup_eq_none.mp hlookup a ha)
  | some a => exact ⟨a, rfl, (Table.lookup_some hlookup).2⟩

/-- After the binding the key is found with its agent. -/
theorem resolve_bindKey {db : AgentStore} {rawKey id : String} {key : AgentKey}
    (h : db.resolveAgentKey rawKey = some key) :
    (db.bindKey key.id id).resolveAgentKey rawKey = some { key with agentId := some id } := by
  rw [AgentStore.resolveAgentKey, Option.filter_eq_some_iff] at h
  have hkeep : ∀ k : AgentKey, { k with agentId := some id }.keyHash = k.keyHash := fun _ => rfl
  rw [AgentStore.resolveAgentKey, AgentStore.bindKey, Table.lookup_update hkeep, h.1]
  simpa using h.2

/-! ### Phases -/

/-- Where a registration may stand while the key is unbound. -/
def UnboundPlace (key : AgentKey) (ids : List String) (db : AgentStore) : RegisterPc → Prop
  | .start => True
  | .holding k => k = key ∧ db.ids = ids
  | .created k r => k = key ∧ r.agentId ≠ "" ∧ db.ids = ids ++ [r.agentId]
  | .unattached _ | .done _ | .refused => False

/-- Where it may stand when the key is bound to an agent. -/
def BoundPlace (id : String) : RegisterPc → Prop
  | .start => True
  | .holding k => truthy k.agentId = some id
  | .done r => r.agentId = id
  | .unattached _ | .created _ _ | .refused => False

section Phases

variable (rawKey : String) (key : AgentKey) (ids : List String)

/-- The key is unbound: at most one registration holds it, and it may have inserted its agent. -/
structure Unbound (w : RegisterWorld) : Prop where
  resolve : w.db.resolveAgentKey rawKey = some key
  alone : Exclusive (fun _ => RegisterPc.HoldsUnbound) w.pcs
  places : ∀ i, UnboundPlace key ids w.db (w.pcs i)
  idle : (∀ i, ¬ (w.pcs i).HoldsUnbound) → w.db.ids = ids

/-- The key is bound to the one agent that was created. -/
structure Bound (id : String) (w : RegisterWorld) : Prop where
  resolve : w.db.resolveAgentKey rawKey = some { key with agentId := some id }
  ids : w.db.ids = ids ++ [id]
  places : ∀ i, BoundPlace id (w.pcs i)

end Phases

variable {rawKey : String} {reqs : ℕ → RegisterRequest} {key : AgentKey} {ids : List String}
  {w w' : RegisterWorld} {i : ℕ} {d : RegisterDraw}

/-- A registration that does not hold the key is at its start. -/
theorem UnboundPlace.start {db : AgentStore} {pc : RegisterPc} (hkey : truthy key.agentId = none)
    (h : UnboundPlace key ids db pc) (hnot : ¬ pc.HoldsUnbound) : pc = .start := by
  cases pc with
  | start => rfl
  | holding k => exact absurd (h.1 ▸ hkey) hnot
  | created k r => exact absurd trivial hnot
  | unattached | done | refused => exact h.elim

/-- The one that moves holds the key before or after, and the others are at their start. -/
theorem Unbound.moved (hkey : truthy key.agentId = none) (h : Unbound rawKey key ids w)
    {db : AgentStore} {pc : RegisterPc} (hothers : ∀ j, j ≠ i → ¬ (w.pcs j).HoldsUnbound)
    (hresolve : db.resolveAgentKey rawKey = some key) (hholds : pc.HoldsUnbound)
    (hplace : UnboundPlace key ids db pc) :
    Unbound rawKey key ids ⟨db, Function.update w.pcs i pc⟩ := by
  refine ⟨hresolve, h.alone.update fun _ => Or.inr hothers, ?_, fun hnobody => ?_⟩
  · refine Interleaving.forall_update hplace fun j hj => ?_
    rw [(h.places j).start hkey (hothers j hj)]
    trivial
  · have hi : ¬ (Function.update w.pcs i pc i).HoldsUnbound := hnobody i
    rw [Function.update_self] at hi
    exact absurd hholds hi

theorem Unbound.step (hkey : truthy key.agentId = none) (h : Unbound rawKey key ids w)
    (hG : ReadsAlone w (i, d)) (hstep : (registrations rawKey reqs).step w (i, d) = some w') :
    Unbound rawKey key ids w' ∨ ∃ id, id ≠ "" ∧ Bound rawKey key ids id w' := by
  obtain ⟨db, pc, hcall, rfl⟩ := Interleaving.machine_step.mp hstep
  have hplace := h.places i
  cases hpc : w.pcs i with
  | start =>
    rw [hpc, registerStep, h.resolve] at hcall
    obtain ⟨rfl, rfl⟩ := Prod.mk.inj (Option.some.inj hcall)
    have hnobody := hG hpc
    exact Or.inl (h.moved hkey (fun j _ => hnobody j) h.resolve hkey ⟨rfl, h.idle hnobody⟩)
  | holding k =>
    rw [hpc] at hplace
    obtain ⟨rfl, hids⟩ := hplace
    have hothers : ∀ j, j ≠ i → ¬ (w.pcs j).HoldsUnbound :=
      fun j hj hholds => hj (h.alone j i hholds (by rw [hpc]; exact hkey))
    rw [hpc, registerStep, hkey] at hcall
    dsimp only at hcall
    rw [AgentStore.insertAgent] at hcall
    split at hcall
    · cases hcall
    · rename_i hfresh
      obtain ⟨rfl, rfl⟩ := Prod.mk.inj (Option.some.inj hcall)
      refine Or.inl (h.moved hkey hothers h.resolve trivial ⟨rfl, fun hempty => ?_, ?_⟩)
      · exact hfresh (Or.inl hempty)
      · rw [← hids, AgentStore.ids, AgentStore.ids, List.map_append]
        rfl
  | created k r =>
    rw [hpc] at hplace
    obtain ⟨rfl, hne, hids⟩ := hplace
    have hothers : ∀ j, j ≠ i → ¬ (w.pcs j).HoldsUnbound :=
      fun j hj hholds => hj (h.alone j i hholds (by rw [hpc]; trivial))
    rw [hpc, registerStep] at hcall
    obtain ⟨rfl, rfl⟩ := Prod.mk.inj (Option.some.inj hcall)
    refine Or.inr ⟨r.agentId, hne, resolve_bindKey h.resolve, hids, ?_⟩
    refine Interleaving.forall_update rfl fun j hj => ?_
    rw [(h.places j).start hkey (hothers j hj)]
    trivial
  | unattached | done | refused =>
    rw [hpc] at hplace
    exact hplace.elim

theorem Bound.step {id : String} (hid : id ≠ "") (h : Bound rawKey key ids id w)
    (hstep : (registrations rawKey reqs).step w (i, d) = some w') :
    Bound rawKey key ids id w' := by
  obtain ⟨db, pc, hcall, rfl⟩ := Interleaving.machine_step.mp hstep
  have hplace := h.places i
  cases hpc : w.pcs i with
  | start =>
    rw [hpc, registerStep, h.resolve] at hcall
    obtain ⟨rfl, rfl⟩ := Prod.mk.inj (Option.some.inj hcall)
    exact ⟨h.resolve, h.ids, Interleaving.forall_update (truthy_of_ne hid) fun j _ => h.places j⟩
  | holding k =>
    -- the agent is there, so the update finds it
    rw [hpc] at hplace
    have hmem : id ∈ w.db.ids := h.ids ▸ List.mem_append_right ids (List.mem_singleton_self id)
    obtain ⟨a, ha, haid⟩ := mem_ids hmem
    rw [hpc, registerStep, show truthy k.agentId = some id from hplace] at hcall
    dsimp only at hcall
    rw [ha] at hcall
    obtain ⟨rfl, rfl⟩ := Prod.mk.inj (Option.some.inj hcall)
    exact ⟨h.resolve, (ids_set w.db id (reqs i) d.now).trans h.ids,
      Interleaving.forall_update haid fun j _ => h.places j⟩
  | done r =>
    rw [hpc] at hcall
    cases hcall
  | unattached | created | refused =>
    rw [hpc] at hplace
    exact hplace.elim

/-! ### Runs -/

/-- The registrations that have returned have returned the one agent that was created, and the key
    is bound to it. -/
structure OneAgent (rawKey : String) (ids : List String) (w : RegisterWorld) : Prop where
  accepted : ∀ i, w.pcs i ≠ .refused
  created : ∃ new : Option String, w.db.ids = ids ++ new.toList ∧
    ∀ i r, w.pcs i = .done r → new = some r.agentId ∧
      (w.db.resolveAgentKey rawKey).bind AgentKey.agentId = some r.agentId

theorem Unbound.oneAgent (h : Unbound rawKey key ids w) : OneAgent rawKey ids w := by
  have hnot : ∀ i r, w.pcs i ≠ .done r := by
    intro i r hpc
    have hplace := h.places i
    rw [hpc] at hplace
    exact hplace
  refine ⟨fun i hpc => ?_, ?_⟩
  · have hplace := h.places i
    rw [hpc] at hplace
    exact hplace
  · by_cases hnobody : ∀ i, ¬ (w.pcs i).HoldsUnbound
    · exact ⟨none, by simpa using h.idle hnobody, fun i r hr => absurd hr (hnot i r)⟩
    · obtain ⟨i, hi⟩ := not_forall_not.mp hnobody
      have hplace := h.places i
      cases hpc : w.pcs i with
      | holding k =>
        rw [hpc] at hplace
        exact ⟨none, by simpa using hplace.2, fun j r hr => absurd hr (hnot j r)⟩
      | created k r =>
        rw [hpc] at hplace
        exact ⟨some r.agentId, hplace.2.2, fun j r hr => absurd hr (hnot j r)⟩
      | start | unattached | done | refused =>
        rw [hpc] at hi hplace
        first | exact hi.elim | exact hplace.elim

theorem Bound.oneAgent {id : String} (h : Bound rawKey key ids id w) : OneAgent rawKey ids w := by
  refine ⟨fun i hpc => ?_, some id, h.ids, fun i r hr => ?_⟩
  · have hplace := h.places i
    rw [hpc] at hplace
    exact hplace
  · have hplace := h.places i
    rw [hr] at hplace
    rw [show r.agentId = id from hplace, h.resolve]
    exact ⟨rfl, rfl⟩

/-- **Registration.**  From a key that is not bound, any number of registrations with it, in any
    order of their statements, create one agent and return it, if each reads the key while no
    other one holds it unbound. -/
theorem one_agent (hresolve : w.db.resolveAgentKey rawKey = some key)
    (hkey : truthy key.agentId = none) (hstart : ∀ i, w.pcs i = .start)
    {ls : List (ℕ × RegisterDraw)}
    (hG : (registrations rawKey reqs).Meets ReadsAlone w ls)
    (hrun : (registrations rawKey reqs).exec w ls = some w') : OneAgent rawKey w.db.ids w' := by
  have hholds : ∀ i, ¬ (w.pcs i).HoldsUnbound := by
    intro i hi
    rw [hstart i] at hi
    exact hi
  have hplaces : ∀ i, UnboundPlace key w.db.ids w.db (w.pcs i) := by
    intro i
    rw [hstart i]
    trivial
  have hinit : Unbound rawKey key w.db.ids w :=
    ⟨hresolve, fun i _ hi => absurd hi (hholds i), hplaces, fun _ => rfl⟩
  have hstep : ∀ w₁ l w₂,
      (Unbound rawKey key w.db.ids w₁ ∨ ∃ id, id ≠ "" ∧ Bound rawKey key w.db.ids id w₁) →
      ReadsAlone w₁ l → (registrations rawKey reqs).step w₁ l = some w₂ →
      Unbound rawKey key w.db.ids w₂ ∨ ∃ id, id ≠ "" ∧ Bound rawKey key w.db.ids id w₂ := by
    rintro w₁ l w₂ (hunbound | ⟨id, hne, hbound⟩) hGl hmove
    · exact hunbound.step hkey hGl hmove
    · exact Or.inr ⟨id, hne, hbound.step hne hmove⟩
  rcases Machine.inv_of_exec hstep (Or.inl hinit) hG hrun with hunbound | ⟨id, -, hbound⟩
  · exact hunbound.oneAgent
  · exact hbound.oneAgent

namespace Sample

/-- A key that was minted and not used yet. -/
def minted : RegisterWorld where
  db := ⟨[], [{ id := "k", keyHash := sha256 "raw", agentId := none }], none⟩
  pcs := fun _ => .start

def hello (_ : ℕ) : RegisterRequest := { hostname := some "web-1" }

def draw (newId : String) : RegisterDraw := ⟨newId, "2026-01-01"⟩

/-- The second registration begins when the first has returned. -/
def inTurn : List (ℕ × RegisterDraw) :=
  [(0, draw "x"), (0, draw "x"), (0, draw "x"), (1, draw "y"), (1, draw "y")]

/-- Both registrations read the key, and then both insert. -/
def overlapping : List (ℕ × RegisterDraw) :=
  [(0, draw "x"), (1, draw "y"), (0, draw "x"), (1, draw "y"), (0, draw "x"), (1, draw "y")]

end Sample

open Sample in
theorem one_agent_inTurn :
    ∃ w', (registrations "raw" hello).exec minted inTurn = some w' ∧
      OneAgent "raw" minted.db.ids w' ∧ w'.pcs 1 = .done ⟨"x", .pending⟩ := by
  have hrun : ∃ w', (registrations "raw" hello).exec minted inTurn = some w' ∧
      w'.pcs 1 = .done ⟨"x", .pending⟩ := ⟨_, rfl, rfl⟩
  have hG : (registrations "raw" hello).Meets ReadsAlone minted inTurn := by
    refine .cons (fun _ _ => id) rfl (.cons (fun h => ?_) rfl (.cons (fun h => ?_) rfl
      (.cons (fun _ => ?_) rfl (.cons (fun h => ?_) rfl trivial))))
    · cases h
    · cases h
    · -- the first registration has returned, and no other has begun
      refine Interleaving.forall_update (P := fun pc => ¬ RegisterPc.HoldsUnbound pc) id ?_
      intro j hj
      simp [Function.update_of_ne hj, minted, RegisterPc.HoldsUnbound]
    · cases h
  obtain ⟨w', hrun, hdone⟩ := hrun
  have hkey : minted.db.resolveAgentKey "raw" =
      some { id := "k", keyHash := sha256 "raw", agentId := none } := rfl
  exact ⟨w', hrun, one_agent hkey rfl (fun _ => rfl) hG hrun, hdone⟩

open Sample in
/-- Two agents for one key, and the two calls return different ones. -/
theorem two_agents :
    ∃ w', (registrations "raw" hello).exec minted overlapping = some w' ∧
      w'.db.ids = ["x", "y"] ∧ w'.pcs 0 = .done ⟨"x", .pending⟩ ∧
      w'.pcs 1 = .done ⟨"y", .pending⟩ ∧ ¬ OneAgent "raw" minted.db.ids w' := by
  refine ⟨_, rfl, rfl, rfl, rfl, fun h => ?_⟩
  obtain ⟨new, -, hdone⟩ := h.created
  have hfirst := (hdone 0 ⟨"x", .pending⟩ rfl).1
  have hsecond := (hdone 1 ⟨"y", .pending⟩ rfl).1
  exact absurd (hfirst.symm.trans hsecond) (by decide)

end Argus.Agents
