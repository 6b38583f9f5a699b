import Argus.Agents.Channel

namespace Argus.Agents

/-!
# What a step of the channel can do to a command

Everything the invariants of the queue need to know about the twenty places a call can
stand at, said once:

* `Proc.unsent`, `Proc.marks` — the commands a call has read and not pushed yet, and the one
  it has pushed and not yet marked; `Proc.inHand` is both.
* `World.pushes` — the command a call writes with its next step, and the socket it goes to.
* `World.commandsOn` — the commands written to a socket so far, in order.
* `Effect` — the five things a step can do to the queue; `step_effect` is the inversion.
* `Touch` — the seven things a step can do to the hub, the sockets and the state of scans;
  `step_touch` is the inversion.
-/

/-! ### Calls and the commands they hold -/

namespace Proc

/-- The command a call has pushed, while its `markSent` is outstanding. -/
def marks : Proc → Option AgentCommand
  | .markSent c => some c
  | .flushSent _ c _ => some c
  | _ => none

/-- The commands a call has read from the table and may still push. -/
def unsent : Proc → List AgentCommand
  | .enqueued c => [c]
  | .flush _ cs => cs
  | .flushSent _ _ rest => rest
  | _ => []

/-- The commands between their `INSERT` or `SELECT` and their `markSent` in this call. -/
def inHand (pc : Proc) : List AgentCommand := pc.marks.toList ++ pc.unsent

/-- The status the next step of a call writes, and the id it writes it to. -/
def writes : Proc → Option (String × CommandStatus)
  | .markSent c => some (c.id, .sent)
  | .flushSent _ c _ => some (c.id, .sent)
  | .markAcked _ _ id => some (id, .acked)
  | _ => none

/-- A call that writes no status has no `markSent` outstanding. -/
theorem marks_of_writes {pc : Proc} (h : pc.writes = none) : pc.marks = none := by
  cases pc <;> first | rfl | simp [writes] at h

theorem mem_inHand {pc : Proc} {c : AgentCommand} :
    c ∈ pc.inHand ↔ pc.marks = some c ∨ c ∈ pc.unsent := by
  simp [inHand]

end Proc

/-! ### Sockets -/

namespace World

variable (w : World)

/-- Everything written to a socket. -/
def wire (s : ℕ) : List ServerToAgent := (w.sockets s).elim [] Socket.wire

end World

/-- The command of a message that carries one. -/
def ServerToAgent.command? : ServerToAgent → Option AgentCommand
  | .command c => some c
  | _ => none

namespace World

variable {w : World}

/-- The commands written to a socket, in order. -/
def commandsOn (w : World) (s : ℕ) : List AgentCommand :=
  (w.wire s).filterMap ServerToAgent.command?

/-- The socket a push to an agent goes to; `none` when the hub has none that is open. -/
def target (w : World) (agentId : String) : Option ℕ := (w.hub agentId).filter w.isOpen

theorem target_eq_some {agentId : String} {s : ℕ} :
    w.target agentId = some s ↔ w.hub agentId = some s ∧ w.isOpen s = true := by
  simp [target, Option.filter_eq_some_iff]

theorem hubSend_eq (agentId : String) (msg : ServerToAgent) :
    w.hubSend agentId msg = (w.target agentId).map (fun s => w.send s msg) := by
  rw [hubSend, target]
  cases w.hub agentId with
  | none => rfl
  | some s => by_cases hs : w.isOpen s <;> simp [hs, Option.filter]

/-- A push that answers false does so for every command, so the loop of `flushPending`
    pushes the first one or none. -/
theorem pushFirst_eq (agentId : String) (cs : List AgentCommand) :
    w.pushFirst agentId cs = (w.target agentId).bind (fun s =>
      cs.head?.map (fun c => (w.send s (.command c), c, cs.tail))) := by
  induction cs with
  | nil => cases w.target agentId <;> rfl
  | cons c cs ih =>
    rw [pushFirst, hubSend_eq]
    cases hs : w.target agentId with
    | none => rw [Option.map_none, ih, hs]; rfl
    | some s => rfl

/-- The socket and the command that the next step of a call at `pc` writes. -/
def pushes (w : World) : Proc → Option (ℕ × AgentCommand)
  | .enqueued c => (w.target c.agentId).map (fun s => (s, c))
  | .flush r cs => (w.target r.agentId).bind (fun s => cs.head?.map (fun c => (s, c)))
  | _ => none

/-- What is pushed was held. -/
theorem unsent_of_pushes {pc : Proc} {s : ℕ} {c : AgentCommand}
    (h : w.pushes pc = some (s, c)) : ∃ rest, pc.unsent = c :: rest := by
  cases pc <;> simp only [pushes, reduceCtorEq] at h
  case enqueued c' =>
    obtain ⟨s', -, heq⟩ := Option.map_eq_some_iff.mp h
    obtain ⟨rfl, rfl⟩ := Prod.mk.inj heq
    exact ⟨[], rfl⟩
  case flush r cs =>
    obtain ⟨s', -, heq⟩ := Option.bind_eq_some_iff.mp h
    obtain ⟨c', hhead, heq⟩ := Option.map_eq_some_iff.mp heq
    obtain ⟨rfl, rfl⟩ := Prod.mk.inj heq
    cases cs with
    | nil => simp at hhead
    | cons c'' rest =>
      obtain rfl : c'' = c' := by simpa using hhead
      exact ⟨rest, rfl⟩

/-- A call that pushes has no `markSent` outstanding. -/
theorem marks_of_pushes {pc : Proc} {s : ℕ} {c : AgentCommand}
    (h : w.pushes pc = some (s, c)) : pc.marks = none := by
  cases pc <;> first | rfl | simp [pushes] at h

/-- What is pushed goes to an open socket. -/
theorem isOpen_of_pushes {pc : Proc} {s : ℕ} {c : AgentCommand}
    (h : w.pushes pc = some (s, c)) : w.isOpen s = true := by
  cases pc <;> simp only [pushes, reduceCtorEq] at h
  case enqueued c' =>
    obtain ⟨s', hs, heq⟩ := Option.map_eq_some_iff.mp h
    obtain ⟨rfl, -⟩ := Prod.mk.inj heq
    exact (target_eq_some.mp hs).2
  case flush r cs =>
    obtain ⟨s', hs, heq⟩ := Option.bind_eq_some_iff.mp h
    obtain ⟨c', -, heq⟩ := Option.map_eq_some_iff.mp heq
    obtain ⟨rfl, -⟩ := Prod.mk.inj heq
    exact (target_eq_some.mp hs).2

/-! ### What is written to a socket -/

@[simp] theorem commandsOn_goto (w : World) (p : ℕ) (pc : Proc) (s : ℕ) :
    (w.goto p pc).commandsOn s = w.commandsOn s := rfl

@[simp] theorem commandsOn_setStatus (w : World) (id : String) (st : CommandStatus) (s : ℕ) :
    (w.setStatus id st).commandsOn s = w.commandsOn s := rfl

/-- A change to a socket that leaves its wire alone does not show. -/
theorem commandsOn_modifySocket {f : Socket → Socket} (hf : ∀ k, (f k).wire = k.wire) (w : World)
    (s s' : ℕ) : (w.modifySocket s f).commandsOn s' = w.commandsOn s' := by
  rw [commandsOn, commandsOn, wire, wire, modifySocket]
  by_cases h : s' = s
  · subst h
    cases w.sockets s' <;> simp [hf]
  · simp [Function.update_of_ne h]

@[simp] theorem commandsOn_close (w : World) (s s' : ℕ) :
    (w.close s).commandsOn s' = w.commandsOn s' := by
  refine commandsOn_modifySocket (fun k => ?_) w s s'
  split <;> rfl

@[simp] theorem commandsOn_hubAdd (w : World) (a : String) (s s' : ℕ) :
    (w.hubAdd a s).commandsOn s' = w.commandsOn s' := by
  show (w.modifySocket s (fun k => { k with agentId := some a })).commandsOn s' = _
  refine commandsOn_modifySocket (fun k => ?_) w s s'
  rfl

@[simp] theorem commandsOn_hubRemove (w : World) (a : Option String) (s : ℕ) :
    (w.hubRemove a).commandsOn s = w.commandsOn s := by
  cases a <;> rfl

/-- An open socket gets the message, every other wire stays. -/
theorem commandsOn_send (w : World) (s : ℕ) (msg : ServerToAgent) (s' : ℕ) :
    (w.send s msg).commandsOn s'
      = w.commandsOn s' ++ if s' = s ∧ w.isOpen s then msg.command?.toList else [] := by
  rw [commandsOn, commandsOn, wire, wire, send, modifySocket, isOpen]
  by_cases h : s' = s
  · subst h
    cases w.sockets s' with
    | none => simp
    | some k =>
      by_cases hk : k.readyState = .opened <;> cases msg <;> simp [hk, ServerToAgent.command?]
  · simp [h]

/-- A message without a command does not show. -/
theorem commandsOn_send_of_none {msg : ServerToAgent} (hmsg : msg.command? = none) (w : World)
    (s s' : ℕ) : (w.send s msg).commandsOn s' = w.commandsOn s' := by
  rw [commandsOn_send, hmsg]
  simp

end World

/-! ### The inversion of a step -/

/-- The call that an event starts or moves. -/
def Label.caller : Label → Option ℕ
  | .receive _ p _ => some p
  | .dispatch p _ _ _ => some p
  | .run p _ => some p
  | _ => none

/-- What a step does to the queue: the table, the commands calls hold, and the wires. -/
inductive Effect (w : World) : Label → World → Prop
  /-- The `INSERT` of `dispatchCommand`. -/
  | insert {p : ℕ} {env : Env} {c : AgentCommand}
      (hpc : w.procs p = .enqueue c.agentId c.type c.payload) (hpending : c.status = .pending)
      (hfresh : ∀ c' ∈ w.agentCommands, c'.id ≠ c.id) :
      Effect w (.run p env)
        ({ w with agentCommands := w.agentCommands ++ [c] }.goto p (.enqueued c))
  /-- A push that answers true, of `dispatchCommand` or `flushPending`. -/
  | push {p : ℕ} {env : Env} {s : ℕ} {c : AgentCommand} {pc : Proc}
      (hpush : w.pushes (w.procs p) = some (s, c)) (hmarks : pc.marks = some c)
      (hunsent : pc.unsent = (w.procs p).unsent.tail) :
      Effect w (.run p env) ((w.send s (.command c)).goto p pc)
  /-- The `UPDATE` of `markSent` or `markAcked`. -/
  | mark {p : ℕ} {env : Env} {id : String} {st : CommandStatus} {pc : Proc}
      (hwrites : (w.procs p).writes = some (id, st)) (hmarks : pc.marks = none)
      (hunsent : pc.unsent = (w.procs p).unsent) :
      Effect w (.run p env) ((w.setStatus id st).goto p pc)
  /-- The `SELECT` of `flushPending`. -/
  | select {p : ℕ} {env : Env} {r : Registration} (hpc : w.procs p = .listUndelivered r) :
      Effect w (.run p env) (w.goto p (.flush r (w.listUndelivered r.agentId)))
  /-- Anything else: a call may let go of what it holds, but takes nothing up. -/
  | quiet {l : Label} {w' : World}
      (hpush : ∀ p env, l = .run p env → w.pushes (w.procs p) = none)
      (hwrites : ∀ p env, l = .run p env → (w.procs p).writes = none)
      (hcommands : w'.agentCommands = w.agentCommands)
      (hwire : ∀ s, w'.commandsOn s = w.commandsOn s)
      (hprocs : ∀ q, w'.procs q = w.procs q ∨
        l.caller = some q ∧ (w.procs q).marks = none ∧ (w'.procs q).inHand = []) : Effect w l w'

variable {w w' : World}

/-- A step that only moves the call `p`, to a place where it holds nothing. -/
theorem Effect.move {p : ℕ} {env : Env} {w₁ : World} {pc : Proc}
    (hpush : w.pushes (w.procs p) = none) (hwrites : (w.procs p).writes = none)
    (hcommands : w₁.agentCommands = w.agentCommands)
    (hwire : ∀ s, w₁.commandsOn s = w.commandsOn s) (hprocs : w₁.procs = w.procs)
    (hpc : pc.inHand = []) : Effect w (.run p env) (w₁.goto p pc) := by
  refine .quiet (fun q e hl => ?_) (fun q e hl => ?_) hcommands hwire (fun q => ?_)
  · obtain ⟨rfl, -⟩ := Label.run.inj hl
    exact hpush
  · obtain ⟨rfl, -⟩ := Label.run.inj hl
    exact hwrites
  · by_cases hq : q = p
    · subst hq
      right
      refine ⟨rfl, Proc.marks_of_writes hwrites, ?_⟩
      show (Function.update w₁.procs q pc q).inHand = []
      rw [Function.update_self]
      exact hpc
    · left
      show Function.update w₁.procs p pc q = w.procs q
      rw [Function.update_of_ne hq, hprocs]

/-- A step that only moves a call on from a place where it neither pushes nor writes. -/
theorem Effect.goto {p : ℕ} {env : Env} {pc pc' : Proc} (hpc : w.procs p = pc)
    (hpush : w.pushes pc = none) (hwrites : pc.writes = none) (hhand : pc'.inHand = []) :
    Effect w (.run p env) (w.goto p pc') := by
  subst hpc
  exact .move hpush hwrites rfl (fun _ => rfl) rfl hhand

/-- The handler behind `resolveAgentKey` does nothing to the queue itself. -/
theorem handle_effect {p : ℕ} {env : Env} {s : ℕ} {key : Option AgentKey}
    {data : Option AgentToServer} (hpc : w.procs p = .handle s key data) :
    Effect w (.run p env) (w.handle p env.now s key data) := by
  have hpush : w.pushes (w.procs p) = none := by rw [hpc]; rfl
  have hwrites : (w.procs p).writes = none := by rw [hpc]; rfl
  rw [World.handle.eq_def]
  split
  · exact .move hpush hwrites rfl (w.commandsOn_close s) rfl rfl
  · exact .move hpush hwrites rfl (fun _ => rfl) rfl rfl
  · split <;> exact .move hpush hwrites rfl (fun _ => rfl) rfl rfl
  · split
    · exact .move hpush hwrites rfl (fun _ => rfl) rfl rfl
    · exact .move hpush hwrites rfl (World.commandsOn_send_of_none rfl w s) rfl rfl
  · exact .move hpush hwrites rfl (fun _ => rfl) rfl rfl
  · exact .move hpush hwrites rfl (fun _ => rfl) rfl rfl
  · exact .move hpush hwrites rfl (fun _ => rfl) rfl rfl

/-- A step of a call has one of the five effects. -/
theorem advance_effect {p : ℕ} {env : Env} (h : w.advance p env (w.procs p) = some w') :
    Effect w (.run p env) w' := by
  cases hpc : w.procs p <;> rw [hpc] at h <;> simp only [World.advance, Option.some.injEq,
    reduceCtorEq] at h
  case enqueue a type payload =>
    split at h
    · obtain rfl := Option.some.inj h
      exact .goto hpc rfl rfl rfl
    · split at h
      · exact absurd h (by simp)
      · rename_i hused
        obtain rfl := Option.some.inj h
        refine .insert (by rw [hpc]) rfl (fun c' hc' heq => hused ?_)
        exact List.any_eq_true.mpr ⟨c', hc', decide_eq_true heq⟩
  case enqueued c =>
    rw [World.hubSend_eq] at h
    cases hs : w.target c.agentId with
    | none =>
      rw [hs] at h
      obtain rfl := Option.some.inj h
      exact .goto hpc (by simp [World.pushes, hs]) rfl rfl
    | some s =>
      rw [hs] at h
      obtain rfl := Option.some.inj h
      exact .push (by simp [hpc, World.pushes, hs]) rfl (by rw [hpc]; rfl)
  case markSent c =>
    subst h
    exact .mark (by rw [hpc]; rfl) rfl (by rw [hpc]; rfl)
  case handle s key data =>
    subst h
    exact handle_effect hpc
  case reattach s key a req =>
    split at h <;> obtain rfl := Option.some.inj h <;>
      exact .move (by rw [hpc]; rfl) (by rw [hpc]; rfl) rfl (fun _ => rfl) rfl rfl
  case create s key req =>
    split at h
    · exact absurd h (by simp)
    · obtain rfl := Option.some.inj h
      exact .move (by rw [hpc]; rfl) (by rw [hpc]; rfl) rfl (fun _ => rfl) rfl rfl
  case attach r =>
    subst h
    exact .move (by rw [hpc]; rfl) (by rw [hpc]; rfl) rfl (w.commandsOn_hubAdd _ _) rfl rfl
  case greet r =>
    subst h
    exact .move (by rw [hpc]; rfl) (by rw [hpc]; rfl) rfl (World.commandsOn_send_of_none rfl w _) rfl rfl
  case listUndelivered r =>
    subst h
    exact .select hpc
  case flush r cs =>
    rw [World.pushFirst_eq] at h
    cases hs : w.target r.agentId with
    | none =>
      rw [hs] at h
      obtain rfl := Option.some.inj h
      exact .goto hpc (by simp [World.pushes, hs]) rfl rfl
    | some s =>
      rw [hs] at h
      cases cs with
      | nil =>
        obtain rfl := Option.some.inj h
        exact .goto hpc (by simp [World.pushes]) rfl rfl
      | cons c rest =>
        obtain rfl := Option.some.inj h
        exact .push (by simp [hpc, World.pushes, hs]) rfl (by rw [hpc]; rfl)
  case flushSent r c rest =>
    subst h
    exact .mark (by rw [hpc]; rfl) rfl (by rw [hpc]; rfl)
  case flushed r =>
    split at h
    · split at h <;> obtain rfl := Option.some.inj h <;> exact .goto hpc rfl rfl rfl
    · obtain rfl := Option.some.inj h
      exact .goto hpc rfl rfl rfl
  case findPing r address =>
    split at h <;> obtain rfl := Option.some.inj h <;> exact .goto hpc rfl rfl rfl
  case createPing r address =>
    split at h
    · exact absurd h (by simp)
    · obtain rfl := Option.some.inj h
      exact .move (by rw [hpc]; rfl) (by rw [hpc]; rfl) rfl (fun _ => rfl) rfl rfl
  case pong s =>
    subst h
    exact .move (by rw [hpc]; rfl) (by rw [hpc]; rfl) rfl (World.commandsOn_send_of_none rfl w _) rfl rfl
  case markAcked s key id =>
    subst h
    exact .mark (by rw [hpc]; rfl) rfl (by rw [hpc]; rfl)
  all_goals
    subst h
    exact .move (by rw [hpc]; rfl) (by rw [hpc]; rfl) rfl (fun _ => rfl) rfl rfl

/-- **Inversion.** Every event of the channel has one of the five effects. -/
theorem step_effect {l : Label} (h : step w l = some w') : Effect w l w' := by
  have hnorun : (∀ p env, l ≠ .run p env) → w'.agentCommands = w.agentCommands →
      (∀ s, w'.commandsOn s = w.commandsOn s) →
      (∀ q, w'.procs q = w.procs q ∨
        l.caller = some q ∧ (w.procs q).marks = none ∧ (w'.procs q).inHand = []) →
      Effect w l w' :=
    fun hl => .quiet (fun p env hrun => absurd hrun (hl p env))
      (fun p env hrun => absurd hrun (hl p env))
  have hgoto : ∀ {w₁ : World} {p : ℕ} {pc : Proc}, l.caller = some p → w.procs p = .idle →
      w₁.procs = w.procs → pc.inHand = [] → ∀ q, (w₁.goto p pc).procs q = w.procs q ∨
        l.caller = some q ∧ (w.procs q).marks = none ∧ ((w₁.goto p pc).procs q).inHand = [] := by
    intro w₁ p pc hcaller hidle hprocs hpc q
    by_cases hq : q = p
    · exact Or.inr ⟨hq ▸ hcaller, by rw [hq, hidle]; rfl, by simp [World.goto, hq, hpc]⟩
    · exact Or.inl (by simp [World.goto, Function.update_of_ne hq, hprocs])
  cases l with
  | connect s rawKey =>
    simp only [step] at h
    split at h
    · exact absurd h (by simp)
    · rename_i hnone
      obtain rfl := Option.some.inj h
      refine hnorun (by simp) rfl (fun s' => ?_) (fun q => Or.inl rfl)
      by_cases hs : s' = s
      · simp [World.commandsOn, World.wire, hs, hnone]
      · simp [World.commandsOn, World.wire, Function.update_of_ne hs]
  | receive s p data =>
    simp only [step] at h
    split at h
    · exact absurd h (by simp)
    · split at h
      · exact absurd h (by simp)
      · rename_i hbusy
        have hidle : w.procs p = .idle := by
          by_contra hne
          exact hbusy (Or.inl hne)
        split at h <;> obtain rfl := Option.some.inj h
        · exact hnorun (by simp) rfl (w.commandsOn_close s) (hgoto rfl hidle rfl rfl)
        · exact hnorun (by simp) rfl (fun _ => rfl) (hgoto rfl hidle rfl rfl)
  | dispatch p a type payload =>
    simp only [step] at h
    split at h
    · exact absurd h (by simp)
    · rename_i hbusy
      obtain rfl := Option.some.inj h
      exact hnorun (by simp) rfl (fun _ => rfl) (hgoto rfl (not_not.mp hbusy) rfl rfl)
  | run p env => exact advance_effect h
  | hangup s =>
    simp only [step] at h
    split at h
    · obtain rfl := Option.some.inj h
      exact hnorun (by simp) rfl (w.commandsOn_close s) (fun q => Or.inl rfl)
    · exact absurd h (by simp)
  | closed s =>
    simp only [step] at h
    split at h
    · exact absurd h (by simp)
    · split at h
      · exact absurd h (by simp)
      · rename_i k _ _
        obtain rfl := Option.some.inj h
        refine hnorun (by simp) (by cases k.agentId <;> rfl) (fun s' => ?_)
          (fun q => Or.inl (by cases k.agentId <;> rfl))
        rw [World.commandsOn_hubRemove]
        refine World.commandsOn_modifySocket (fun k => ?_) w s s'
        rfl

/-- An event moves no call but its own. -/
theorem procs_of_step {l : Label} (h : step w l = some w') {q : ℕ} (hq : l.caller ≠ some q) :
    w'.procs q = w.procs q := by
  have hgoto : ∀ {w₁ : World} {p : ℕ} {pc : Proc}, Label.caller (.run p {}) ≠ some q →
      w₁.procs = w.procs → (w₁.goto p pc).procs q = w.procs q := by
    intro w₁ p pc hne hprocs
    have hqp : q ≠ p := fun heq => hne (congrArg some heq.symm)
    rw [World.goto, hprocs]
    exact Function.update_of_ne hqp _ _
  cases step_effect h with
  | insert hpc hpending hfresh => exact hgoto hq rfl
  | push hpush hmarks hunsent => exact hgoto hq rfl
  | mark hwrites hmarks hunsent => exact hgoto hq rfl
  | select hpc => exact hgoto hq rfl
  | quiet hpush hwrites hcommands hwire hprocs =>
    rcases hprocs q with hsame | ⟨hcaller, -⟩
    · exact hsame
    · exact absurd hcaller hq

/-- A call that has started is moved by its own steps only. -/
theorem run_of_caller {l : Label} (h : step w l = some w') {p : ℕ} (hcaller : l.caller = some p)
    (hbusy : w.procs p ≠ .idle) : ∃ env, l = .run p env := by
  cases l <;> simp only [Label.caller, Option.some.injEq, reduceCtorEq] at hcaller <;>
    subst hcaller
  case receive s p' data =>
    simp only [step] at h
    split at h
    · exact absurd h (by simp)
    · rw [if_pos (Or.inl hbusy)] at h
      exact absurd h (by simp)
  case dispatch p' a type payload =>
    rw [step, if_pos hbusy] at h
    exact absurd h (by simp)
  case run p' env => exact ⟨env, rfl⟩

/-! ### The hub, the sockets and the scans -/

/-- The registration an event completes: `agentHub.add` is its next code. -/
def World.attaches (w : World) : Label → Option Registration
  | .run p _ =>
    match w.procs p with
    | .attach r => some r
    | _ => none
  | _ => none

/-- What a step does outside the tables: `w₁` is the world before the call moves on. -/
inductive Touch (w : World) : Label → World → Prop
  | none {l : Label} (hl : w.attaches l = none) (hc : ∀ s, l ≠ .closed s) : Touch w l w
  | connect {s : ℕ} {rawKey : Option String} (hs : w.sockets s = .none) :
      Touch w (.connect s rawKey)
        { w with sockets := Function.update w.sockets s (some { rawKey }) }
  | send {l : Label} {s : ℕ} {msg : ServerToAgent} (hl : w.attaches l = .none)
      (hc : ∀ s, l ≠ .closed s) : Touch w l (w.send s msg)
  | close {l : Label} {s : ℕ} (hl : w.attaches l = .none) (hc : ∀ s, l ≠ .closed s) :
      Touch w l (w.close s)
  | attach {l : Label} {r : Registration} (hl : w.attaches l = some r) :
      Touch w l (w.hubAdd r.agentId r.socket)
  | scan {p : ℕ} {env : Env} {s : ℕ} {key : AgentKey} {m : String} {status : ScanStatus}
      {progress : ScanProgress} {state : ScanState}
      (hpc : w.procs p = .handle s (some key) (some (.scan m status progress))) :
      Touch w (.run p env) { w with scans := Function.update w.scans m (some state) }
  | closed {s : ℕ} {k : Socket} (hs : w.sockets s = some k) (hk : k.readyState ≠ .closed) :
      Touch w (.closed s)
        ((w.modifySocket s (fun k => { k with readyState := .closed })).hubRemove k.agentId)

/-- The world `w'` agrees with `w₁` outside the tables and the calls. -/
structure World.Same (w₁ w' : World) : Prop where
  hub : w'.hub = w₁.hub
  sockets : w'.sockets = w₁.sockets
  scans : w'.scans = w₁.scans

theorem handle_touch {p : ℕ} {env : Env} {s : ℕ} {key : Option AgentKey}
    {data : Option AgentToServer} (hpc : w.procs p = .handle s key data) :
    ∃ w₁, Touch w (.run p env) w₁ ∧ w₁.Same (w.handle p env.now s key data) := by
  have hl : w.attaches (.run p env) = none := by rw [World.attaches, hpc]
  have hc : ∀ s, Label.run p env ≠ .closed s := by simp
  rw [World.handle.eq_def]
  split
  · exact ⟨_, .close hl hc, rfl, rfl, rfl⟩
  · exact ⟨_, .none hl hc, rfl, rfl, rfl⟩
  · split <;> exact ⟨_, .none hl hc, rfl, rfl, rfl⟩
  · split
    · exact ⟨_, .none hl hc, rfl, rfl, rfl⟩
    · exact ⟨_, .send hl hc, rfl, rfl, rfl⟩
  · exact ⟨_, .none hl hc, rfl, rfl, rfl⟩
  · exact ⟨_, .scan hpc, rfl, rfl, rfl⟩
  · exact ⟨_, .none hl hc, rfl, rfl, rfl⟩

theorem advance_touch {p : ℕ} {env : Env} (h : w.advance p env (w.procs p) = some w') :
    ∃ w₁, Touch w (.run p env) w₁ ∧ w₁.Same w' := by
  have hc : ∀ s, Label.run p env ≠ .closed s := by simp
  cases hpc : w.procs p <;> rw [hpc] at h <;>
    simp only [World.advance, World.hubSend_eq, World.pushFirst_eq, Option.some.injEq,
      reduceCtorEq] at h
  case attach r =>
    subst h
    exact ⟨_, .attach (by rw [World.attaches, hpc]), rfl, rfl, rfl⟩
  case handle s key data =>
    subst h
    exact handle_touch hpc
  all_goals have hl : w.attaches (.run p env) = none := by rw [World.attaches, hpc]
  case enqueued c =>
    cases hs : w.target c.agentId <;> rw [hs] at h <;> obtain rfl := Option.some.inj h
    · exact ⟨_, .none hl hc, rfl, rfl, rfl⟩
    · exact ⟨_, .send hl hc, rfl, rfl, rfl⟩
  case flush r cs =>
    cases hs : w.target r.agentId with
    | none =>
      rw [hs] at h
      obtain rfl := Option.some.inj h
      exact ⟨_, .none hl hc, rfl, rfl, rfl⟩
    | some s =>
      rw [hs] at h
      cases cs <;> obtain rfl := Option.some.inj h
      · exact ⟨_, .none hl hc, rfl, rfl, rfl⟩
      · exact ⟨_, .send hl hc, rfl, rfl, rfl⟩
  case greet r =>
    subst h
    exact ⟨_, .send hl hc, rfl, rfl, rfl⟩
  case pong s =>
    subst h
    exact ⟨_, .send hl hc, rfl, rfl, rfl⟩
  -- the other places write to the tables only
  all_goals
    refine ⟨w, .none hl hc, ?_⟩
    try split at h
    all_goals try split at h
    all_goals first
      | (obtain rfl := Option.some.inj h; exact ⟨rfl, rfl, rfl⟩)
      | (subst h; exact ⟨rfl, rfl, rfl⟩)
      | cases h

/-- **Inversion.** What an event does to the hub, the sockets and the scans. -/
theorem step_touch {l : Label} (h : step w l = some w') : ∃ w₁, Touch w l w₁ ∧ w₁.Same w' := by
  cases l with
  | connect s rawKey =>
    simp only [step] at h
    split at h
    · exact absurd h (by simp)
    · rename_i hs
      obtain rfl := Option.some.inj h
      exact ⟨_, .connect hs, rfl, rfl, rfl⟩
  | receive s p data =>
    simp only [step] at h
    split at h
    · exact absurd h (by simp)
    · split at h
      · exact absurd h (by simp)
      · split at h <;> obtain rfl := Option.some.inj h
        · exact ⟨_, .close rfl (by simp), rfl, rfl, rfl⟩
        · exact ⟨_, .none rfl (by simp), rfl, rfl, rfl⟩
  | dispatch p a type payload =>
    simp only [step] at h
    split at h
    · exact absurd h (by simp)
    · obtain rfl := Option.some.inj h
      exact ⟨_, .none rfl (by simp), rfl, rfl, rfl⟩
  | run p env => exact advance_touch h
  | hangup s =>
    simp only [step] at h
    split at h
    · obtain rfl := Option.some.inj h
      exact ⟨_, .close rfl (by simp), rfl, rfl, rfl⟩
    · exact absurd h (by simp)
  | closed s =>
    simp only [step] at h
    split at h
    · exact absurd h (by simp)
    · rename_i hs
      split at h
      · exact absurd h (by simp)
      · rename_i hk
        obtain rfl := Option.some.inj h
        exact ⟨_, .closed hs hk, rfl, rfl, rfl⟩

/-- What is written to a socket stays written. -/
theorem commandsOn_of_step {l : Label} (h : step w l = some w') {s : ℕ} {c : AgentCommand}
    (hc : c ∈ w.commandsOn s) : c ∈ w'.commandsOn s := by
  cases step_effect h with
  | insert hpc hpending hfresh => exact hc
  | push hpush hmarks hunsent =>
    rw [World.commandsOn_goto, World.commandsOn_send]
    exact List.mem_append_left _ hc
  | mark hwrites hmarks hunsent => exact hc
  | select hpc => exact hc
  | quiet hpush hwrites hcommands hwire hprocs => exact (hwire s).symm ▸ hc

end Argus.Agents
