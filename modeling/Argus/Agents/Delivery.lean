import Argus.Agents.Commands

namespace Argus.Agents

open Argus.Auth (sha256)

/-!
# What a reconnecting agent is sent

`flushPending` runs once, when a register message completes, and reads the commands whose
status is `pending`.  `markSent` is set when a command leaves on a socket, so a command that
was lost with its socket is not read again.

* `Redelivered` — the condition on a flush: what is stored as `sent` is on the flush's own
  socket already, and the hub keeps that socket, open, at every push.
* `flush_delivers` — then every command that is not acked when the flush reads the queue has
  been written to the socket when the flush returns.
* `flush_strands` — a command written to a dying socket is not sent again.
-/

/-- A flush reads the queue only when what is stored as `sent` has been written to its own
    socket, and pushes only while the hub has that socket and it is open. -/
def Redelivered (w : World) : Label → Prop
  | .run p _ =>
    (∀ r, w.procs p = .listUndelivered r → ∀ c ∈ w.agentCommands, c.agentId = r.agentId →
      c.status = .sent → ∃ d ∈ w.commandsOn r.socket, d.id = c.id) ∧
    ∀ r c rest, w.procs p = .flush r (c :: rest) →
      w.hub r.agentId = some r.socket ∧ w.isOpen r.socket = true
  | _ => True

/-- A flush that has `rest` still to push. -/
def Flushing (r : Registration) (rest : List AgentCommand) (pc : Proc) : Prop :=
  pc = .flush r rest ∨ ∃ c, pc = .flushSent r c rest

/-- A command has been written to the socket of a registration. -/
def World.Delivered (w : World) (r : Registration) (id : String) : Prop :=
  ∃ d ∈ w.commandsOn r.socket, d.id = id

/-- The flush of call `p` owes the commands `due`: each is written, or still to be pushed. -/
def Owes (r : Registration) (p : ℕ) (due : List String) (w : World) : Prop :=
  (∃ rest, Flushing r rest (w.procs p) ∧
    ∀ id ∈ due, (∃ c ∈ rest, c.id = id) ∨ w.Delivered r id) ∨
  ∀ id ∈ due, w.Delivered r id

variable {w w' : World} {l : Label} {r : Registration} {p : ℕ} {due : List String}

theorem World.Delivered.step {id : String} (h : w.Delivered r id) (hstep : step w l = some w') :
    w'.Delivered r id := by
  obtain ⟨d, hd, hid⟩ := h
  exact ⟨d, commandsOn_of_step hstep hd, hid⟩

/-- The next push of a flush that has its socket. -/
theorem flush_push {env : Env} {c : AgentCommand} {rest : List AgentCommand}
    (hpc : w.procs p = .flush r (c :: rest)) (hhub : w.hub r.agentId = some r.socket)
    (hopen : w.isOpen r.socket = true) (h : step w (.run p env) = some w') :
    w'.procs p = .flushSent r c rest ∧ c ∈ w'.commandsOn r.socket := by
  have htarget : w.target r.agentId = some r.socket := World.target_eq_some.mpr ⟨hhub, hopen⟩
  have hw : (w.send r.socket (.command c)).goto p (.flushSent r c rest) = w' := by
    simpa [Agents.step, World.advance, hpc, World.pushFirst_eq, htarget] using h
  subst hw
  refine ⟨by simp [World.goto], ?_⟩
  rw [World.commandsOn_goto, World.commandsOn_send, hopen]
  simp [ServerToAgent.command?]

/-- **Step.** A flush keeps owing only what it will still push. -/
theorem Owes.step (hI : Owes r p due w) (hG : Redelivered w l) (h : step w l = some w') :
    Owes r p due w' := by
  rcases hI with ⟨rest, hpc, hdue⟩ | hall
  swap
  · exact Or.inr (fun id hid => (hall id hid).step h)
  have hold : ∀ {rest' : List AgentCommand}, rest ⊆ rest' → ∀ id ∈ due,
      (∃ c ∈ rest', c.id = id) ∨ w'.Delivered r id := by
    intro rest' hsub id hid
    rcases hdue id hid with ⟨c, hc, hcid⟩ | hdel
    · exact Or.inl ⟨c, hsub hc, hcid⟩
    · exact Or.inr (hdel.step h)
  by_cases hcaller : l.caller = some p
  · have hbusy : w.procs p ≠ .idle := by
      rcases hpc with hpc | ⟨c, hpc⟩ <;> rw [hpc] <;> simp
    obtain ⟨env, rfl⟩ := run_of_caller h hcaller hbusy
    rcases hpc with hpc | ⟨c, hpc⟩
    · -- the loop pushes its next command, or is through
      cases rest with
      | nil =>
        right
        intro id hid
        rcases hold (List.Subset.refl _) id hid with ⟨c, hc, -⟩ | hdel
        · exact absurd hc (by simp)
        · exact hdel
      | cons c rest =>
        obtain ⟨hhub, hopen⟩ := hG.2 r c rest hpc
        obtain ⟨hpc', hon⟩ := flush_push hpc hhub hopen h
        refine Or.inl ⟨rest, Or.inr ⟨c, hpc'⟩, fun id hid => ?_⟩
        rcases hdue id hid with ⟨c', hc', hcid⟩ | hdel
        · rcases List.mem_cons.mp hc' with rfl | hc'
          · exact Or.inr ⟨c', hon, hcid⟩
          · exact Or.inl ⟨c', hc', hcid⟩
        · exact Or.inr (hdel.step h)
    · have hw : (w.setStatus c.id .sent).goto p (.flush r rest) = w' := by
        simpa [Agents.step, World.advance, hpc] using h
      refine Or.inl ⟨rest, Or.inl ?_, hold (List.Subset.refl _)⟩
      rw [← hw]
      simp [World.goto]
  · refine Or.inl ⟨rest, ?_, hold (List.Subset.refl _)⟩
    rw [procs_of_step h hcaller]
    exact hpc

/-- What a flush owes when it has read the queue. -/
theorem Owes.of_select {env : Env} (hpc : w.procs p = .listUndelivered r)
    (hG : Redelivered w (.run p env)) (h : Agents.step w (.run p env) = some w') :
    Owes r p ((w.agentCommands.filter (fun c =>
      decide (c.agentId = r.agentId ∧ c.status ≠ .acked))).map AgentCommand.id) w' := by
  have hw : w.goto p (.flush r (w.listUndelivered r.agentId)) = w' := by
    simpa [Agents.step, World.advance, hpc] using h
  subst hw
  refine Or.inl ⟨w.listUndelivered r.agentId, Or.inl (by simp [World.goto]), fun id hid => ?_⟩
  obtain ⟨c, hc, rfl⟩ := List.mem_map.mp hid
  obtain ⟨hmem, hsel⟩ := List.mem_filter.mp hc
  obtain ⟨hagent, hacked⟩ := of_decide_eq_true hsel
  cases hst : c.status with
  | pending => exact Or.inl ⟨c, List.mem_filter.mpr ⟨hmem, by simp [hagent, hst]⟩, rfl⟩
  | sent => exact Or.inr (hG.1 r hpc c hmem hagent hst)
  | acked => exact absurd hst hacked

/-- **No command is lost.**  When every flush of a run finds the commands stored as `sent` on
    its own socket and keeps that socket, a flush that returns has written every command of
    its agent that was not acked when it read the queue. -/
theorem flush_delivers {w₀ : World} {before after : List Label} {env : Env}
    (hG : machine.Meets Redelivered w₀ (before ++ .run p env :: after))
    (hbefore : machine.exec w₀ before = some w) (hpc : w.procs p = .listUndelivered r)
    (hafter : machine.exec w (.run p env :: after) = some w') (hdone : w'.procs p = .flushed r)
    {c : AgentCommand} (hc : c ∈ w.agentCommands) (hagent : c.agentId = r.agentId)
    (hacked : c.status ≠ .acked) : w'.Delivered r c.id := by
  obtain ⟨-, hGstep, hGafter⟩ := hG.split hbefore
  obtain ⟨v, hv, hrest⟩ := machine.exec_cons_eq_some.mp hafter
  have hI := Machine.inv_of_exec (G := Redelivered)
    (fun _ _ _ hI hG h => Owes.step hI hG h) (Owes.of_select hpc hGstep hv) (hGafter v hv) hrest
  have hdue : c.id ∈ (w.agentCommands.filter (fun c =>
      decide (c.agentId = r.agentId ∧ c.status ≠ .acked))).map AgentCommand.id := by
    refine List.mem_map_of_mem (List.mem_filter.mpr ⟨hc, ?_⟩)
    simp [hagent, hacked]
  rcases hI with ⟨rest, hflush | ⟨d, hflush⟩, -⟩ | hall
  · exact absurd (hdone.symm.trans hflush) (by simp)
  · exact absurd (hdone.symm.trans hflush) (by simp)
  · exact hall c.id hdue

/-- A command queued while the agent was away, delivered by the flush of its register. -/
theorem flush_delivers_reconnect :
    let c : AgentCommand := { id := "c", agentId := "a", type := .restart }
    let key : AgentKey := { id := "1", keyHash := sha256 "key-a", agentId := some "a" }
    let r : Registration :=
      { socket := 0, key, agentId := "a", status := .pending, address := none }
    ∃ w w', machine.exec (Sample.world [c]) (Sample.attach 0 0 "key-a") = some w ∧
      w.procs 0 = .listUndelivered r ∧
      machine.exec w [.run 0 {}, .run 0 {}, .run 0 {}, .run 0 {}] = some w' ∧
      w'.procs 0 = .flushed r ∧ w'.Delivered r "c" := by
  intro c key r
  have hG : machine.Meets Redelivered (Sample.world [c])
      (Sample.attach 0 0 "key-a" ++ [.run 0 {}, .run 0 {}, .run 0 {}, .run 0 {}]) := by
    refine .cons trivial rfl (.cons trivial rfl (.cons ⟨?_, ?_⟩ rfl (.cons ⟨?_, ?_⟩ rfl
      (.cons ⟨?_, ?_⟩ rfl (.cons ⟨?_, ?_⟩ rfl (.cons ⟨?_, ?_⟩ rfl (.cons ⟨?_, ?_⟩ rfl
      (.cons ⟨?_, ?_⟩ rfl (.cons ⟨?_, ?_⟩ rfl (.cons ⟨?_, ?_⟩ rfl (.cons ⟨?_, ?_⟩ rfl
      trivial)))))))))))
    case refine_13 =>
      -- the `SELECT`: nothing is stored as sent
      intro r' _ d hd _ hsent
      obtain rfl : d = c := List.mem_singleton.mp hd
      exact absurd hsent (by simp [c])
    case refine_16 => exact fun r' d rest hpc => by cases hpc; exact ⟨rfl, rfl⟩
    all_goals first
      | exact fun r' hpc => Proc.noConfusion hpc
      | exact fun r' d rest hpc => Proc.noConfusion hpc
      | exact fun r' d rest hpc => by cases hpc
  refine ⟨_, _, rfl, rfl, rfl, rfl, ?_⟩
  exact flush_delivers (c := c) hG rfl rfl rfl rfl (List.mem_singleton_self c) rfl (by simp [c])

/-- **A command is stranded.**  It is written to a socket that dies before the agent reads it;
    the agent reconnects and its flush returns, with nothing on the new socket. -/
theorem flush_strands :
    (Sample.world []).Init ∧ ∃ w r,
      machine.exec (Sample.world []) (Sample.attach 0 0 "key-a" ++ [.run 0 {}, .run 0 {}] ++
        [.dispatch 1 "a" .restart none, .run 1 { id := "c" }, .run 1 {}, .run 1 {},
          .hangup 0, .closed 0] ++ Sample.attach 1 2 "key-a" ++ [.run 2 {}, .run 2 {}]) = some w ∧
      w.procs 2 = .flushed r ∧ r.socket = 1 ∧ r.agentId = "a" ∧
      w.status "c" = some .sent ∧ w.commandsOn 1 = [] :=
  ⟨Sample.world_init (by decide), _, _, rfl, rfl, rfl, rfl, rfl, rfl⟩

end Argus.Agents
