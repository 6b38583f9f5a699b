import Argus.Agents.Commands

namespace Argus.Agents

open Argus.Auth (sha256 truthy_some)

/-!
# Who may ack a command or report a scan

The handler of a message knows the key the socket presented, and acts on the ids in the body
of the message: `markAcked` takes any command id and `setAgentScanState` any monitor id.

* `OwnIds` — the condition on the messages: an ack names a command of the agent that the
  sender's key is bound to, and a scan report a monitor of that agent.
* `Traced` — a call that handles a message goes back to one that was received on its socket,
  and its key row to the key that socket presented.
* `acks_and_scans_own` — under `OwnIds` a command becomes acked only by an ack of its own
  agent, and the scan state of a monitor changes only by a report of its own agent.
* `acks_and_scans_foreign` — agent `b` acks a command and reports a scan of agent `a`.
-/

/-- Acks and scan reports name commands and monitors of the agent of the sender's key. -/
def OwnIds (w : World) : Label → Prop
  | .run p _ =>
    (∀ s key id, w.procs p = .markAcked s key id → ∀ c ∈ w.agentCommands, c.id = id →
      c.status ≠ .acked → key.agentId = some c.agentId) ∧
    ∀ s key id status progress, w.procs p = .handle s (some key) (some (.scan id status progress)) →
      ∀ m ∈ w.monitors, m.id = id → key.agentId = some m.agentId
  | _ => True

/-- The row `key` is that of the key the socket presented. -/
def World.Presented (w : World) (s : ℕ) (key : AgentKey) : Prop :=
  ∃ k rawKey, w.sockets s = some k ∧ k.rawKey = some rawKey ∧ key.keyHash = sha256 rawKey

/-- Where the message of a call comes from, and the key it is handled under. -/
def Traced (past : List Label) (w : World) (p : ℕ) : Proc → Prop
  | .resolve s rawKey data =>
    .receive s p data ∈ past ∧ ∃ k, w.sockets s = some k ∧ k.rawKey = some rawKey
  | .handle s (some key) data => .receive s p data ∈ past ∧ w.Presented s key
  | .markAcked s key id => .receive s p (some (.ack id)) ∈ past ∧ w.Presented s key
  | _ => True

section Trace

variable {w w' : World} {l : Label} {past : List Label} {p : ℕ}

/-- A socket keeps the key it presented. -/
theorem rawKey_of_step (h : step w l = some w') {s : ℕ} {k : Socket} (hk : w.sockets s = some k) :
    ∃ k', w'.sockets s = some k' ∧ k'.rawKey = k.rawKey := by
  -- a change to one socket that keeps its key
  have hmodify : ∀ (s' : ℕ) (f : Socket → Socket), (∀ k, (f k).rawKey = k.rawKey) →
      ∃ k', (w.modifySocket s' f).sockets s = some k' ∧ k'.rawKey = k.rawKey := by
    intro s' f hf
    by_cases hs : s = s'
    · subst hs
      exact ⟨f k, by simp [World.modifySocket, hk], hf k⟩
    · exact ⟨k, by simp [World.modifySocket, Function.update_of_ne hs, hk], rfl⟩
  obtain ⟨w₁, htouch, hsame⟩ := step_touch h
  rw [hsame.sockets]
  cases htouch with
  | none hl hc => exact ⟨k, hk, rfl⟩
  | @connect s' rawKey hs' =>
    have hne : s ≠ s' := by
      rintro rfl
      exact absurd (hk.symm.trans hs') (by simp)
    exact ⟨k, by simp [Function.update_of_ne hne, hk], rfl⟩
  | send hl hc => exact hmodify _ _ (fun k => by split <;> rfl)
  | close hl hc => exact hmodify _ _ (fun k => by split <;> rfl)
  | attach hl => exact hmodify _ _ (fun _ => rfl)
  | scan hpc => exact ⟨k, hk, rfl⟩
  | @closed s' k' hs hk' =>
    have hsockets : ∀ (v : World) (a : Option String), (v.hubRemove a).sockets = v.sockets := by
      intro v a
      cases a <;> rfl
    rw [hsockets]
    exact hmodify _ _ (fun _ => rfl)

theorem World.Presented.step {s : ℕ} {key : AgentKey} (h : w.Presented s key)
    (hstep : Agents.step w l = some w') : w'.Presented s key := by
  obtain ⟨k, rawKey, hk, hraw, hhash⟩ := h
  obtain ⟨k', hk', hraw'⟩ := rawKey_of_step hstep hk
  exact ⟨k', rawKey, hk', hraw'.trans hraw, hhash⟩

/-- A trace stays good while its call waits. -/
theorem Traced.wait {pc : Proc} (h : Traced past w p pc) (hstep : step w l = some w') :
    Traced (past ++ [l]) w' p pc := by
  unfold Traced at h ⊢
  split at h
  · obtain ⟨hmem, k, hk, hraw⟩ := h
    obtain ⟨k', hk', hraw'⟩ := rawKey_of_step hstep hk
    exact ⟨List.mem_append_left _ hmem, k', hk', hraw'.trans hraw⟩
  · exact ⟨List.mem_append_left _ h.1, h.2.step hstep⟩
  · exact ⟨List.mem_append_left _ h.1, h.2.step hstep⟩
  · trivial

/-- The key row the handler works with is the one of the socket's key. -/
theorem keyHash_of_resolveAgentKey {rawKey : String} {key : AgentKey}
    (h : w.resolveAgentKey rawKey = some key) : key.keyHash = sha256 rawKey := by
  obtain ⟨hlookup, -⟩ := Option.filter_eq_some_iff.mp h
  exact (Table.lookup_some hlookup).2

/-- An ack goes on to `markAcked` under the key it was handled with. -/
theorem handle_traced {now s : ℕ} {key : Option AgentKey} {data : Option AgentToServer}
    (h : Traced past (w.handle p now s key data) p (.handle s key data)) :
    Traced past (w.handle p now s key data) p ((w.handle p now s key data).procs p) := by
  have hself : ∀ (v : World) (pc : Proc), (v.goto p pc).procs p = pc := by simp [World.goto]
  cases key with
  | none =>
    simp only [World.handle, hself]
    trivial
  | some key =>
    cases data with
    | none =>
      simp only [World.handle, hself]
      trivial
    | some msg =>
      cases msg with
      | ack id =>
        simp only [World.handle, hself] at h ⊢
        exact h
      | register req =>
        simp only [World.handle]
        split <;> rw [hself] <;> trivial
      | heartbeat =>
        simp only [World.handle]
        split <;> rw [hself] <;> trivial
      | scan id status progress =>
        simp only [World.handle, hself]
        trivial
      | other =>
        simp only [World.handle, hself]
        trivial

/-- **Step.** Every call is traced to the message it handles. -/
theorem Traced.step (hI : ∀ p, Traced past w p (w.procs p)) (h : Agents.step w l = some w') :
    ∀ p, Traced (past ++ [l]) w' p (w'.procs p) := by
  intro p
  by_cases hcaller : l.caller = some p
  swap
  · rw [procs_of_step h hcaller]
    exact (hI p).wait h
  have hp := (hI p).wait h
  have hself : ∀ (v : World) (pc : Proc), (v.goto p pc).procs p = pc := by simp [World.goto]
  cases l <;> simp only [Label.caller, Option.some.injEq, reduceCtorEq] at hcaller <;>
    subst hcaller
  case receive s p data =>
    simp only [Agents.step] at h
    split at h
    · exact absurd h (by simp)
    · rename_i k hk
      split at h
      · exact absurd h (by simp)
      · split at h
        · obtain rfl := Option.some.inj h
          rw [hself]
          trivial
        · rename_i rawKey hraw
          obtain rfl := Option.some.inj h
          rw [hself]
          exact ⟨by simp, k, hk, truthy_some hraw⟩
  case dispatch p a type payload =>
    simp only [Agents.step] at h
    split at h
    · exact absurd h (by simp)
    · obtain rfl := Option.some.inj h
      rw [hself]
      trivial
  case run p env =>
    simp only [Agents.step] at h
    cases hpc : w.procs p <;> rw [hpc] at h hp <;>
      simp only [World.advance, World.hubSend_eq, World.pushFirst_eq, Option.some.injEq,
        reduceCtorEq] at h
    case resolve s rawKey data =>
      subst h
      rw [hself]
      cases hkey : w.resolveAgentKey rawKey with
      | none => trivial
      | some key =>
        obtain ⟨hmem, k, hk, hraw⟩ := hp
        exact ⟨hmem, k, rawKey, hk, hraw, keyHash_of_resolveAgentKey hkey⟩
    case handle s key data =>
      subst h
      exact handle_traced hp
    -- no other place leads to one that holds a message
    all_goals
      try split at h
      all_goals try split at h
      all_goals first
        | (obtain rfl := Option.some.inj h; rw [hself]; trivial)
        | (subst h; rw [hself]; trivial)
        | cases h

end Trace

/-! ### The two messages that act on ids -/

section Own

variable {w w' : World} {l : Label}

/-- The step stores an ack of `c`, received on a socket whose key is bound to its agent. -/
def AckedByOwner (past : List Label) (w : World) (l : Label) (c : AgentCommand) : Prop :=
  ∃ p env s key, l = .run p env ∧ w.procs p = .markAcked s key c.id ∧
    .receive s p (some (.ack c.id)) ∈ past ∧ w.Presented s key ∧ key.agentId = some c.agentId

/-- The step handles a scan report of `m`, received on a socket whose key is bound to its
    agent. -/
def ScannedByOwner (past : List Label) (w : World) (l : Label) (m : Monitor) : Prop :=
  ∃ p env s key status progress, l = .run p env ∧
    w.procs p = .handle s (some key) (some (.scan m.id status progress)) ∧
    .receive s p (some (.scan m.id status progress)) ∈ past ∧ w.Presented s key ∧
    key.agentId = some m.agentId

/-- A row that is acked after a step was so before, or its ack is what the step executes. -/
theorem acked_of_step (h : step w l = some w') {c : AgentCommand} (hc : c ∈ w'.agentCommands)
    (hacked : c.status = .acked) :
    ∃ c₀ ∈ w.agentCommands, c₀.id = c.id ∧ c₀.agentId = c.agentId ∧ (c₀.status = .acked ∨
      ∃ p env s key, l = .run p env ∧ w.procs p = .markAcked s key c.id) := by
  cases step_effect h with
  | @insert p env c' hpc hpending hfresh =>
    rcases List.mem_append.mp hc with hold | hnew
    · exact ⟨c, hold, rfl, rfl, Or.inl hacked⟩
    · obtain rfl := List.mem_singleton.mp hnew
      exact absurd (hpending.symm.trans hacked) (by simp)
  | push hpush hmarks hunsent => exact ⟨c, hc, rfl, rfl, Or.inl hacked⟩
  | @mark p env id st pc hwrites hmarks hunsent =>
    obtain ⟨c₀, hc₀, rfl⟩ := Table.mem_update.mp hc
    by_cases hid : c₀.id = id
    · subst hid
      refine ⟨c₀, hc₀, by simp, by simp, ?_⟩
      have hst : st = .acked := by simpa using hacked
      subst hst
      right
      cases hpc : w.procs p <;> simp only [hpc, Proc.writes, Option.some.injEq, Prod.mk.injEq,
        reduceCtorEq, and_false] at hwrites
      case markAcked s key id' => exact ⟨p, env, s, key, rfl, by simp [hpc, hwrites.1]⟩
    · have hsame : c₀.status = .acked := by simpa [hid] using hacked
      exact ⟨c₀, hc₀, by simp [hid], by simp [hid], Or.inl hsame⟩
  | select hpc => exact ⟨c, hc, rfl, rfl, Or.inl hacked⟩
  | quiet hpush hwrites hcommands hwire hprocs =>
    exact ⟨c, hcommands ▸ hc, rfl, rfl, Or.inl hacked⟩

/-- A scan state changes only in the handler of a report that names its monitor. -/
theorem scans_of_step (h : step w l = some w') (id : String) :
    w'.scans id = w.scans id ∨ ∃ p env s key status progress, l = .run p env ∧
      w.procs p = .handle s (some key) (some (.scan id status progress)) := by
  obtain ⟨w₁, htouch, hsame⟩ := step_touch h
  rw [hsame.scans]
  cases htouch with
  | none hl hc => exact Or.inl rfl
  | connect hs => exact Or.inl rfl
  | send hl hc => exact Or.inl rfl
  | close hl hc => exact Or.inl rfl
  | attach hl => exact Or.inl rfl
  | @scan p env s key m status progress state hpc =>
    by_cases hid : id = m
    · subst hid
      exact Or.inr ⟨p, env, s, key, status, progress, rfl, hpc⟩
    · exact Or.inl (Function.update_of_ne hid _ _)
  | @closed s k hs hk =>
    left
    cases k.agentId <;> rfl

/-- **Acks and scan reports stay with their agent.**  When every ack and every scan report
    names a command or a monitor of the agent its sender's key is bound to, a command becomes
    acked only by an ack of its own agent, and the scan state of a monitor changes only by a
    report of the agent that owns it. -/
theorem acks_and_scans_own {w₀ : World} {before : List Label} (h₀ : w₀.Init)
    (hG : machine.Meets OwnIds w₀ (before ++ [l])) (hbefore : machine.exec w₀ before = some w)
    (hstep : step w l = some w') :
    (∀ c ∈ w'.agentCommands, c.status = .acked →
      (∃ c₀ ∈ w.agentCommands, c₀.id = c.id ∧ c₀.agentId = c.agentId ∧ c₀.status = .acked) ∨
        AckedByOwner before w l c) ∧
    ∀ m ∈ w.monitors, w'.scans m.id = w.scans m.id ∨ ScannedByOwner before w l m := by
  have hI : ∀ p, Traced before w p (w.procs p) := by
    refine Machine.inv_of_history (G := fun _ _ => True)
      (I := fun past v => ∀ p, Traced past v p (v.procs p)) ?_ ?_ (fun _ _ _ _ => trivial) hbefore
    · exact fun past v l v' hI _ h => Traced.step hI h
    · intro p
      rw [h₀.procs p]
      trivial
  obtain ⟨-, hl, -⟩ := hG.split hbefore
  constructor
  · intro c hc hacked
    obtain ⟨c₀, hc₀, hid, hagent, hst | ⟨p, env, s, key, rfl, hpc⟩⟩ := acked_of_step hstep hc hacked
    · exact Or.inl ⟨c₀, hc₀, hid, hagent, hst⟩
    · by_cases hst : c₀.status = .acked
      · exact Or.inl ⟨c₀, hc₀, hid, hagent, hst⟩
      · have htrace := hI p
        rw [hpc] at htrace
        have hown := hl.1 s key c.id hpc c₀ hc₀ hid hst
        exact Or.inr ⟨p, env, s, key, rfl, hpc, htrace.1, htrace.2, hagent ▸ hown⟩
  · intro m hm
    rcases scans_of_step hstep m.id with hsame | ⟨p, env, s, key, status, progress, rfl, hpc⟩
    · exact Or.inl hsame
    · have htrace := hI p
      rw [hpc] at htrace
      have hown := hl.2 s key m.id status progress hpc m hm rfl
      exact Or.inr ⟨p, env, s, key, status, progress, rfl, hpc, htrace.1, htrace.2, hown⟩

end Own

/-- Agent `a` acks its own command. -/
theorem acks_and_scans_own_ack :
    let c : AgentCommand := { id := "c", agentId := "a", type := .restart, status := .sent }
    let ls : List Label :=
      [.connect 0 (some "key-a"), .receive 0 0 (some (.ack "c")), .run 0 {}, .run 0 {}]
    ∃ w w', machine.exec (Sample.world [c]) ls = some w ∧ step w (.run 0 {}) = some w' ∧
      { c with status := .acked } ∈ w'.agentCommands ∧
      AckedByOwner ls w (.run 0 {}) { c with status := .acked } := by
  intro c ls
  have hG : machine.Meets OwnIds (Sample.world [c]) (ls ++ [.run 0 {}]) := by
    refine .cons trivial rfl (.cons trivial rfl (.cons ⟨?_, ?_⟩ rfl (.cons ⟨?_, ?_⟩ rfl
      (.cons ⟨?_, ?_⟩ rfl trivial))))
    · exact fun s key id hpc => Proc.noConfusion hpc
    · exact fun s key id status progress hpc => Proc.noConfusion hpc
    · exact fun s key id hpc => Proc.noConfusion hpc
    · intro s key id status progress hpc m hm
      exact absurd hm (List.not_mem_nil)
    · -- the `UPDATE`: the key is bound to the agent of the command
      intro s key id hpc d hd _ _
      obtain rfl : d = c := List.mem_singleton.mp hd
      cases hpc
      rfl
    · exact fun s key id status progress hpc => Proc.noConfusion hpc
  refine ⟨_, _, rfl, rfl, List.mem_singleton_self _, ?_⟩
  have hown := (acks_and_scans_own (Sample.world_init (by decide)) hG rfl rfl).1
    { c with status := .acked } (List.mem_singleton_self _) rfl
  refine hown.resolve_left ?_
  rintro ⟨c₀, hc₀, -, -, hst⟩
  obtain rfl : c₀ = c := List.mem_singleton.mp hc₀
  exact absurd hst (by simp [c])

/-- **Another agent acks and reports.**  The only connection presents the key of agent `b`,
    and does not even register; it acks a command and starts a scan of agent `a`. -/
theorem acks_and_scans_foreign :
    let c : AgentCommand := { id := "c", agentId := "a", type := .restart, status := .sent }
    let m : Monitor := { id := "m", agentId := "a", type := "storage", name := "disk" }
    let w₀ : World := { Sample.world [c] with monitors := [m] }
    w₀.Init ∧ (w₀.resolveAgentKey "key-b").map AgentKey.agentId = some (some "b") ∧
      ∃ w, machine.exec w₀ [.connect 0 (some "key-b"), .receive 0 0 (some (.ack "c")), .run 0 {},
          .run 0 {}, .run 0 {}, .receive 0 1 (some (.scan "m" .running ⟨0, 0, 0, ""⟩)),
          .run 1 {}, .run 1 {}] = some w ∧
        w₀.status "c" = some .sent ∧ w.status "c" = some .acked ∧
        w₀.scans "m" = none ∧ (w.scans "m").map ScanState.status = some .running :=
  ⟨⟨fun _ => rfl, fun _ => rfl, fun _ => rfl, by decide⟩, rfl, _, rfl, rfl, rfl, rfl, rfl⟩

end Argus.Agents
