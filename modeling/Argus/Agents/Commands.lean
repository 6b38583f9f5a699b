import Argus.Agents.Steps

namespace Argus.Agents

open Argus.Auth (sha256)

/-!
# Command status and pushes

`markSent` and `markAcked` update a row by its id, whatever its status is, and `markSent` is
issued only after the command has left on the socket.  What this costs:

* `status_monotone` — the stored status of a command only moves forward in every run in
  which no acked command is pushed and no ack is stored while a `markSent` of the same
  command is outstanding; `status_regresses` is a run where the ack comes in between.
* `pushed_at_most_once` — every command is written to a socket at most once in every run
  in which `flushPending` reads the queue only while no other call has a command of the
  agent in hand; `pushed_twice` is a run where `dispatchCommand` has one.
-/

/-! ### The stored status -/

/-- The order `pending → sent → acked`. -/
def CommandStatus.rank : CommandStatus → ℕ
  | .pending => 0
  | .sent => 1
  | .acked => 2

/-- The stored status of a command. -/
def World.status (w : World) (id : String) : Option CommandStatus :=
  (Table.lookup AgentCommand.id id w.agentCommands).map AgentCommand.status

/-- The two statements that race.  No acked command is pushed, and no ack is stored while a
    `markSent` of its command is outstanding. -/
def AckedInTurn (w : World) : Label → Prop
  | .run p _ =>
    (∀ s c, w.pushes (w.procs p) = some (s, c) → w.status c.id ≠ some .acked) ∧
    ∀ id, (w.procs p).writes = some (id, .acked) →
      ∀ q c, (w.procs q).marks = some c → c.id ≠ id
  | _ => True

/-- No `markSent` is outstanding for an acked command. -/
def MarksUnacked (w : World) : Prop :=
  ∀ q c, (w.procs q).marks = some c → w.status c.id ≠ some .acked

section Status

variable {w w' : World} {l : Label}

theorem status_goto (w : World) (p : ℕ) (pc : Proc) (id : String) :
    (w.goto p pc).status id = w.status id := rfl

theorem status_setStatus (w : World) (id : String) (st : CommandStatus) (id' : String) :
    (w.setStatus id st).status id'
      = if id' = id then (w.status id').map (fun _ => st) else w.status id' := by
  have hkey : ∀ c : AgentCommand, ({ c with status := st } : AgentCommand).id = c.id :=
    fun _ => rfl
  rw [World.status, World.status, World.setStatus, Table.lookup_update hkey]
  cases h : Table.lookup AgentCommand.id id' w.agentCommands with
  | none => split <;> rfl
  | some c =>
    obtain rfl := (Table.lookup_some h).2
    by_cases hid : c.id = id <;> simp [hid]

/-- A new row hides no old one. -/
theorem status_insert {c : AgentCommand} {id : String} {st : CommandStatus}
    (h : w.status id = some st) :
    ({ w with agentCommands := w.agentCommands ++ [c] } : World).status id = some st := by
  obtain ⟨c', hc', rfl⟩ := Option.map_eq_some_iff.mp h
  rw [World.status, Table.lookup_append_singleton, hc', Option.some_or, Option.map_some]

/-- A row of a new id has the status it is inserted with. -/
theorem status_insert_of_none {c : AgentCommand} {id : String} (h : w.status id = none) :
    ({ w with agentCommands := w.agentCommands ++ [c] } : World).status id
      = if c.id = id then some c.status else none := by
  rw [World.status, Table.lookup_append_singleton, Option.map_eq_none_iff.mp h, Option.none_or]
  split <;> rfl

/-- What a call writes to a row is `sent` for the command it marks, or an ack. -/
theorem writes_eq_some {pc : Proc} {id : String} {st : CommandStatus}
    (h : pc.writes = some (id, st)) :
    (st = .sent ∧ ∃ c, pc.marks = some c ∧ c.id = id) ∨ st = .acked := by
  cases pc <;> simp only [Proc.writes, Option.some.injEq, Prod.mk.injEq, reduceCtorEq] at h
  case markSent c => exact Or.inl ⟨h.2.symm, c, rfl, h.1⟩
  case flushSent r c rest => exact Or.inl ⟨h.2.symm, c, rfl, h.1⟩
  case markAcked s key id' => exact Or.inr h.2.symm

/-- **Step.** A guarded step leaves no `markSent` outstanding for an acked command. -/
theorem MarksUnacked.step (hI : MarksUnacked w) (hG : AckedInTurn w l)
    (h : step w l = some w') : MarksUnacked w' := by
  intro q c hq
  cases step_effect h with
  | @insert p env c' hpc hpending hfresh =>
    by_cases hqp : q = p
    · subst hqp
      simp [World.goto, Proc.marks] at hq
    · have hmarks : (w.procs q).marks = some c := by
        simpa [World.goto, Function.update_of_ne hqp] using hq
      rw [status_goto]
      cases hst : w.status c.id with
      | none =>
        rw [status_insert_of_none hst, hpending]
        split <;> simp
      | some st =>
        rw [status_insert hst]
        exact hst ▸ hI q c hmarks
  | @push p env s c' pc hpush hmarks hunsent =>
    show w.status c.id ≠ some .acked
    by_cases hqp : q = p
    · subst hqp
      have hc : c' = c := by simpa [World.goto, hmarks] using hq
      exact hc ▸ hG.1 s c' hpush
    · exact hI q c (by simpa [World.goto, World.send, World.modifySocket,
        Function.update_of_ne hqp] using hq)
  | @mark p env id st pc hwrites hmarks hunsent =>
    by_cases hqp : q = p
    · subst hqp
      simp [World.goto, hmarks] at hq
    · have hq' : (w.procs q).marks = some c := by
        simpa [World.goto, World.setStatus, Function.update_of_ne hqp] using hq
      rw [status_goto, status_setStatus]
      rcases writes_eq_some hwrites with ⟨rfl, -⟩ | rfl
      · split
        · simp [Option.map_eq_some_iff]
        · exact hI q c hq'
      · rw [if_neg (hG.2 id hwrites q c hq')]
        exact hI q c hq'
  | @select p env r hpc =>
    by_cases hqp : q = p
    · subst hqp
      simp [World.goto, Proc.marks] at hq
    · exact hI q c (by simpa [World.goto, Function.update_of_ne hqp] using hq)
  | quiet hpush hwrites hcommands hwire hprocs =>
    rw [World.status, hcommands]
    rcases hprocs q with hsame | ⟨-, -, hnone⟩
    · exact hI q c (hsame ▸ hq)
    · rw [Proc.inHand, hq] at hnone
      exact absurd hnone (by simp)

/-- **Step.** A guarded step moves no status back. -/
theorem status_step (hI : MarksUnacked w) (h : step w l = some w') {id : String}
    {st : CommandStatus} (hst : w.status id = some st) :
    ∃ st', w'.status id = some st' ∧ st.rank ≤ st'.rank := by
  cases step_effect h with
  | insert hpc hpending hfresh => exact ⟨st, status_insert hst, le_refl _⟩
  | push hpush hmarks hunsent => exact ⟨st, hst, le_refl _⟩
  | @mark p env id' st' pc hwrites hmarks hunsent =>
    rw [status_goto, status_setStatus, hst]
    by_cases hid : id = id'
    · subst hid
      refine ⟨st', by simp, ?_⟩
      rcases writes_eq_some hwrites with ⟨rfl, c, hc, rfl⟩ | rfl
      · -- the row is not acked, so `sent` is no step back
        have hne := hI p c hc
        rw [hst] at hne
        cases st <;> simp_all [CommandStatus.rank]
      · cases st <;> simp [CommandStatus.rank]
    · exact ⟨st, by simp [hid], le_refl _⟩
  | select hpc => exact ⟨st, hst, le_refl _⟩
  | quiet hpush hwrites hcommands hwire hprocs =>
    exact ⟨st, by rw [World.status, hcommands]; exact hst, le_refl _⟩

theorem World.Init.marksUnacked (h : w.Init) : MarksUnacked w := by
  intro q c hq
  rw [h.procs q] at hq
  exact absurd hq (by simp [Proc.marks])

/-- **Status is monotone.**  In a run in which no acked command is pushed and no ack is stored
    under an outstanding `markSent`, a status that is stored at some moment is never followed
    by an earlier one. -/
theorem status_monotone {w₀ : World} {before after : List Label} (h₀ : w₀.Init)
    (hG : machine.Meets AckedInTurn w₀ (before ++ after))
    (hbefore : machine.exec w₀ before = some w) (hafter : machine.exec w after = some w')
    {id : String} {st : CommandStatus} (hst : w.status id = some st) :
    ∃ st', w'.status id = some st' ∧ st.rank ≤ st'.rank := by
  obtain ⟨hG₁, hG₂⟩ := hG.split hbefore
  have hI : MarksUnacked w := Machine.inv_of_exec (fun _ _ _ hI hG h => hI.step hG h)
    h₀.marksUnacked hG₁ hbefore
  -- along the second part the invariant and the bound are carried together
  have hboth : MarksUnacked w' ∧ ∃ st', w'.status id = some st' ∧ st.rank ≤ st'.rank := by
    refine Machine.inv_of_exec (I := fun v => MarksUnacked v ∧
      ∃ st', v.status id = some st' ∧ st.rank ≤ st'.rank) ?_ ⟨hI, st, hst, le_refl _⟩ hG₂ hafter
    rintro v l v' ⟨hv, st₁, hst₁, hle₁⟩ hGl hstep
    obtain ⟨st₂, hst₂, hle₂⟩ := status_step hv hstep hst₁
    exact ⟨hv.step hGl hstep, st₂, hst₂, hle₁.trans hle₂⟩
  exact hboth.2

end Status

namespace Sample

/-- Two agents, `a` and `b`, each with its own connection key, and a queue. -/
def world (commands : List AgentCommand) : World :=
  { agents := [{ id := "a", name := "alpha" }, { id := "b", name := "beta" }]
    agentKeys := [{ id := "1", keyHash := sha256 "key-a", agentId := some "a" },
      { id := "2", keyHash := sha256 "key-b", agentId := some "b" }]
    agentCommands := commands }

theorem world_init {commands : List AgentCommand}
    (h : (commands.map AgentCommand.id).Nodup) : (world commands).Init :=
  ⟨fun _ => rfl, fun _ => rfl, fun _ => rfl, h⟩

/-- Socket `s` connects and its register message runs up to the `SELECT` of the flush. -/
def attach (s p : ℕ) (key : String) : List Label :=
  [.connect s (some key), .receive s p (some (.register {})), .run p {}, .run p {}, .run p {},
    .run p {}, .run p {}, .run p {}]

end Sample

/-- An ack of a command that was sent before the server started. -/
theorem status_monotone_ack :
    let c : AgentCommand := { id := "c", agentId := "a", type := .restart, status := .sent }
    ∃ w w', machine.exec (Sample.world [c])
        [.connect 0 (some "key-a"), .receive 0 0 (some (.ack "c")), .run 0 {}, .run 0 {}] = some w ∧
      machine.exec w [.run 0 {}] = some w' ∧
      ∃ st, w'.status "c" = some st ∧ CommandStatus.sent.rank ≤ st.rank := by
  intro c
  refine ⟨_, _, rfl, rfl, ?_⟩
  have hG : machine.Meets AckedInTurn (Sample.world [c])
      ([.connect 0 (some "key-a"), .receive 0 0 (some (.ack "c")), .run 0 {}, .run 0 {}]
        ++ [.run 0 {}]) := by
    refine .cons trivial rfl (.cons trivial rfl (.cons ⟨?_, ?_⟩ rfl (.cons ⟨?_, ?_⟩ rfl
      (.cons ⟨?_, ?_⟩ rfl trivial))))
    · exact fun s d h => absurd (show none = some (s, d) from h) (by simp)
    · exact fun id h => absurd (show none = some (id, _) from h) (by simp)
    · exact fun s d h => absurd (show none = some (s, d) from h) (by simp)
    · exact fun id h => absurd (show none = some (id, _) from h) (by simp)
    · exact fun s d h => absurd (show none = some (s, d) from h) (by simp)
    · -- the only call under way is the ack itself
      intro id _ q d hq
      cases q with
      | zero => exact absurd (show none = some d from hq) (by simp)
      | succ n => exact absurd (show none = some d from hq) (by simp)
  exact status_monotone (Sample.world_init (by decide)) hG rfl rfl rfl

/-- **A status moves back.**  The agent acks as soon as the command arrives, and the server
    marks it sent afterwards. -/
theorem status_regresses :
    (Sample.world []).Init ∧ ∃ w w',
      machine.exec (Sample.world []) (Sample.attach 0 0 "key-a" ++
        [.dispatch 1 "a" .restart none, .run 1 { id := "c" }, .run 1 {},
          .receive 0 2 (some (.ack "c")), .run 2 {}, .run 2 {}, .run 2 {}]) = some w ∧
      machine.exec w [.run 1 {}] = some w' ∧
      w.status "c" = some .acked ∧ w'.status "c" = some .sent :=
  ⟨Sample.world_init (by decide), _, _, rfl, rfl, rfl, rfl⟩

/-! ### Pushes -/

/-- The `SELECT` of a flush runs while no other call has a command of the agent in hand. -/
def FlushAlone (w : World) : Label → Prop
  | .run p _ => ∀ r, w.procs p = .listUndelivered r →
    ∀ q, q ≠ p → ∀ c ∈ (w.procs q).inHand, c.agentId ≠ r.agentId
  | _ => True

/-- A command is on no wire. -/
def World.Unpushed (w : World) (id : String) : Prop := ∀ s, ∀ d ∈ w.commandsOn s, d.id ≠ id

/-- The queue while flushes run alone: a command is in at most one hand, and once it has been
    pushed it is in hand or no longer pending. -/
structure PushedOnce (w : World) : Prop where
  ids : (w.agentCommands.map AgentCommand.id).Nodup
  /-- What is in hand is in the table. -/
  stored : ∀ q, ∀ c ∈ (w.procs q).inHand, ∃ c' ∈ w.agentCommands,
    c'.id = c.id ∧ c'.agentId = c.agentId
  /-- What is on a wire is in the table. -/
  wired : ∀ s, ∀ c ∈ w.commandsOn s, ∃ c' ∈ w.agentCommands, c'.id = c.id
  hand : ∀ q, ((w.procs q).inHand.map AgentCommand.id).Nodup
  apart : ∀ q q', q ≠ q' → ∀ c ∈ (w.procs q).inHand, ∀ c' ∈ (w.procs q').inHand, c.id ≠ c'.id
  unsent : ∀ q, ∀ c ∈ (w.procs q).unsent, w.Unpushed c.id
  waiting : ∀ c ∈ w.agentCommands, c.status = .pending →
    (∀ q, ∀ d ∈ (w.procs q).inHand, d.id ≠ c.id) → w.Unpushed c.id
  once : ∀ s, ((w.commandsOn s).map AgentCommand.id).Nodup

namespace PushedOnce

variable {w w' : World} {l : Label}

theorem init (h : w.Init) : PushedOnce w := by
  have hhand : ∀ q, (w.procs q).inHand = [] := fun q => by rw [h.procs q]; rfl
  have hwire : ∀ s, w.commandsOn s = [] := fun s => by
    rw [World.commandsOn, World.wire, h.sockets s]; rfl
  exact
    { ids := h.ids
      stored := fun q c hc => absurd hc (by simp [hhand])
      wired := fun s c hc => absurd hc (by simp [hwire])
      hand := fun q => by simp [hhand]
      apart := fun q q' _ c hc => absurd hc (by simp [hhand])
      unsent := fun q c hc => absurd hc (by simp [h.procs q, Proc.unsent])
      waiting := fun c _ _ _ s d hd => absurd hd (by simp [hwire])
      once := fun s => by simp [hwire] }

/-- The invariant stays when rows keep their identity, nothing is written to a socket, and
    calls only let go of commands that are unsent or no longer pending. -/
theorem shrink (hI : PushedOnce w) {f : AgentCommand → AgentCommand}
    (hrows : w'.agentCommands = w.agentCommands.map f)
    (hf : ∀ c, (f c).id = c.id ∧ (f c).agentId = c.agentId ∧
      ((f c).status = .pending → c.status = .pending))
    (hwire : ∀ s, w'.commandsOn s = w.commandsOn s)
    (hhand : ∀ q, (w'.procs q).inHand.Sublist (w.procs q).inHand)
    (hunsent : ∀ q, (w'.procs q).unsent ⊆ (w.procs q).unsent)
    (hgone : ∀ q, ∀ d ∈ (w.procs q).inHand, d ∈ (w'.procs q).inHand ∨ d ∈ (w.procs q).unsent ∨
      ∀ c ∈ w'.agentCommands, c.id = d.id → c.status ≠ .pending) : PushedOnce w' := by
  have hunpushed : ∀ id, w.Unpushed id → w'.Unpushed id := by
    intro id h s d hd
    exact h s d (hwire s ▸ hd)
  have hmem : ∀ c ∈ w.agentCommands, f c ∈ w'.agentCommands := by
    intro c hc
    rw [hrows]
    exact List.mem_map_of_mem hc
  constructor
  · rw [hrows, Table.map_map_keep (fun c => (hf c).1)]
    exact hI.ids
  · intro q c hc
    obtain ⟨c', hc', hid, hagent⟩ := hI.stored q c ((hhand q).subset hc)
    exact ⟨f c', hmem c' hc', (hf c').1.trans hid, (hf c').2.1.trans hagent⟩
  · intro s c hc
    obtain ⟨c', hc', hid⟩ := hI.wired s c (hwire s ▸ hc)
    exact ⟨f c', hmem c' hc', (hf c').1.trans hid⟩
  · exact fun q => (hI.hand q).sublist ((hhand q).map _)
  · exact fun q q' hne c hc c' hc' =>
      hI.apart q q' hne c ((hhand q).subset hc) c' ((hhand q').subset hc')
  · exact fun q c hc => hunpushed _ (hI.unsent q c (hunsent q hc))
  · intro c' hc' hpending hfree
    have hc'' := hc'
    rw [hrows] at hc''
    obtain ⟨c, hc, rfl⟩ := List.mem_map.mp hc''
    refine hunpushed _ ?_
    rw [(hf c).1]
    -- a call that has let go of the command had it unsent
    by_cases hheld : ∃ q, ∃ d ∈ (w.procs q).inHand, d.id = c.id
    · obtain ⟨q, d, hd, hid⟩ := hheld
      rcases hgone q d hd with hstill | huns | hdone
      · exact absurd (hid.trans (hf c).1.symm) (hfree q d hstill)
      · exact hid ▸ hI.unsent q d huns
      · exact absurd hpending (hdone (f c) hc' ((hf c).1.trans hid.symm))
    · refine hI.waiting c hc ((hf c).2.2 hpending) (fun q d hd hid => hheld ⟨q, d, hd, hid⟩)
  · intro s
    rw [hwire s]
    exact hI.once s

/-- Where the call that moves stands, and where the others stay. -/
theorem procs_goto (w : World) (p : ℕ) (pc : Proc) (q : ℕ) :
    (w.goto p pc).procs q = if q = p then pc else w.procs q := by
  simp [World.goto, Function.update_apply]

/-- A call with an empty hand takes up commands of the table, old or new, that nobody has in
    hand and nobody has pushed. -/
theorem take (hI : PushedOnce w) {p : ℕ} {pc : Proc} {rows : List AgentCommand}
    (hempty : (w.procs p).inHand = []) (hids : (rows.map AgentCommand.id).Nodup)
    (hrows : ∀ c ∈ w.agentCommands, c ∈ rows)
    (hnew : ∀ c ∈ rows, c ∈ w.agentCommands ∨ c ∈ pc.inHand)
    (hnodup : (pc.inHand.map AgentCommand.id).Nodup)
    (htaken : ∀ c ∈ pc.inHand, c ∈ rows ∧ (∀ q, ∀ d ∈ (w.procs q).inHand, d.id ≠ c.id) ∧
      w.Unpushed c.id) :
    PushedOnce ({ w with agentCommands := rows }.goto p pc) := by
  have hprocs : ∀ q, ({ w with agentCommands := rows }.goto p pc).procs q
      = if q = p then pc else w.procs q := procs_goto _ p pc
  have hhand : ∀ {q d}, d ∈ (if q = p then pc else w.procs q).inHand →
      (q = p ∧ d ∈ pc.inHand) ∨ (q ≠ p ∧ d ∈ (w.procs q).inHand) := by
    intro q d hd
    by_cases hq : q = p
    · exact Or.inl ⟨hq, by simpa [hq] using hd⟩
    · exact Or.inr ⟨hq, by simpa [hq] using hd⟩
  constructor
  · exact hids
  · intro q d hd
    rw [hprocs] at hd
    rcases hhand hd with ⟨-, hd'⟩ | ⟨-, hd'⟩
    · exact ⟨d, (htaken d hd').1, rfl, rfl⟩
    · obtain ⟨c', hc', h⟩ := hI.stored q d hd'
      exact ⟨c', hrows c' hc', h⟩
  · intro s d hd
    obtain ⟨c', hc', h⟩ := hI.wired s d hd
    exact ⟨c', hrows c' hc', h⟩
  · intro q
    rw [hprocs]
    split
    · exact hnodup
    · exact hI.hand q
  · intro q q' hne d hd d' hd'
    rw [hprocs] at hd hd'
    rcases hhand hd with ⟨hq, htook⟩ | ⟨-, hold⟩ <;>
      rcases hhand hd' with ⟨hq', htook'⟩ | ⟨-, hold'⟩
    · exact absurd (hq.trans hq'.symm) hne
    · exact Ne.symm ((htaken d htook).2.1 q' d' hold')
    · exact (htaken d' htook').2.1 q d hold
    · exact hI.apart q q' hne d hold d' hold'
  · intro q d hd
    rw [hprocs] at hd
    rcases hhand (Proc.mem_inHand.mpr (Or.inr hd)) with ⟨-, htook⟩ | ⟨hq, -⟩
    · exact (htaken d htook).2.2
    · rw [if_neg hq] at hd
      exact hI.unsent q d hd
  · intro c hc hpending hfree
    rcases hnew c hc with hold | htook
    · refine hI.waiting c hold hpending (fun q d hd => ?_)
      have hq : q ≠ p := by
        rintro rfl
        rw [hempty] at hd
        exact absurd hd (by simp)
      exact hfree q d (by rw [hprocs, if_neg hq]; exact hd)
    · exact (htaken c htook).2.2
  · exact hI.once

/-- A new command is in the hand of its call only. -/
theorem insert (hI : PushedOnce w) {p : ℕ} {c : AgentCommand} (hempty : (w.procs p).inHand = [])
    (hfresh : ∀ c' ∈ w.agentCommands, c'.id ≠ c.id) :
    PushedOnce ({ w with agentCommands := w.agentCommands ++ [c] }.goto p (.enqueued c)) := by
  have hhand : (Proc.enqueued c).inHand = [c] := rfl
  -- the id is used neither in a hand nor on a wire, since both come from the table
  have hnohand : ∀ q, ∀ d ∈ (w.procs q).inHand, d.id ≠ c.id := by
    intro q d hd hid
    obtain ⟨c', hc', hid', -⟩ := hI.stored q d hd
    exact hfresh c' hc' (hid'.trans hid)
  have hnowire : w.Unpushed c.id := by
    intro s d hd hid
    obtain ⟨c', hc', hid'⟩ := hI.wired s d hd
    exact hfresh c' hc' (hid'.trans hid)
  refine hI.take hempty (Table.nodup_append_singleton hI.ids hfresh)
    (fun c' hc' => List.mem_append_left _ hc') ?_ ?_ ?_
  · intro c' hc'
    rw [hhand]
    exact List.mem_append.mp hc'
  · rw [hhand]
    exact List.nodup_singleton _
  · intro d hd
    rw [hhand] at hd
    obtain rfl := List.mem_singleton.mp hd
    exact ⟨List.mem_append_right _ hd, hnohand, hnowire⟩

section

variable {p s : ℕ} {c : AgentCommand} {pc : Proc}
  (hpush : w.pushes (w.procs p) = some (s, c)) (hmarks : pc.marks = some c)
  (hunsent : pc.unsent = (w.procs p).unsent.tail)

include hpush

/-- The pushed command is the first unsent one. -/
theorem mem_unsent_of_pushes : c ∈ (w.procs p).unsent := by
  obtain ⟨rest, hrest⟩ := World.unsent_of_pushes hpush
  rw [hrest]
  exact List.mem_cons_self

/-- A push puts the command on one wire. -/
theorem commandsOn_push (s' : ℕ) : ((w.send s (.command c)).goto p pc).commandsOn s'
    = w.commandsOn s' ++ if s' = s then [c] else [] := by
  rw [World.commandsOn_goto, World.commandsOn_send, World.isOpen_of_pushes hpush]
  simp [ServerToAgent.command?]

theorem mem_commandsOn_push {s' : ℕ} {d : AgentCommand}
    (hd : d ∈ ((w.send s (.command c)).goto p pc).commandsOn s') :
    d ∈ w.commandsOn s' ∨ (s' = s ∧ d = c) := by
  rw [commandsOn_push hpush] at hd
  rcases List.mem_append.mp hd with hd | hd
  · exact Or.inl hd
  · split at hd
    · rename_i hs
      exact Or.inr ⟨hs, List.mem_singleton.mp hd⟩
    · exact absurd hd (by simp)

/-- The other commands stay off the wires. -/
theorem unpushed_push {id : String} (hne : c.id ≠ id) (h : w.Unpushed id) :
    ((w.send s (.command c)).goto p pc).Unpushed id := by
  intro s' d hd
  rcases mem_commandsOn_push hpush hd with hd | ⟨-, rfl⟩
  · exact h s' d hd
  · exact hne

include hmarks hunsent

/-- The call keeps the command in hand, to mark it. -/
theorem inHand_push (q : ℕ) : (((w.send s (.command c)).goto p pc).procs q).inHand
    = (w.procs q).inHand := by
  rw [procs_goto]
  split
  · rename_i hq
    obtain ⟨rest, hrest⟩ := World.unsent_of_pushes hpush
    rw [hq, Proc.inHand, Proc.inHand, hmarks, hunsent, World.marks_of_pushes hpush, hrest]
    rfl
  · rfl

omit hmarks in
/-- What is left unsent differs from the command just pushed. -/
theorem ne_of_mem_unsent_tail (hnodup : ((w.procs p).unsent.map AgentCommand.id).Nodup)
    {d : AgentCommand} (hd : d ∈ pc.unsent) : d ∈ (w.procs p).unsent ∧ c.id ≠ d.id := by
  obtain ⟨rest, hrest⟩ := World.unsent_of_pushes hpush
  rw [hunsent, hrest, List.tail_cons] at hd
  rw [hrest, List.map_cons, List.nodup_cons] at hnodup
  refine ⟨by rw [hrest]; exact List.mem_cons_of_mem c hd, fun hid => hnodup.1 ?_⟩
  rw [hid]
  exact List.mem_map_of_mem hd

/-- A push moves the command from the unsent ones to a wire it is not on yet. -/
theorem push (hI : PushedOnce w) : PushedOnce ((w.send s (.command c)).goto p pc) := by
  have hprocs := inHand_push hpush hmarks hunsent
  have hcunsent := mem_unsent_of_pushes hpush
  have hcin : c ∈ (w.procs p).inHand := Proc.mem_inHand.mpr (Or.inr hcunsent)
  constructor
  · exact hI.ids
  · intro q d hd
    rw [hprocs] at hd
    exact hI.stored q d hd
  · intro s' d hd
    rcases mem_commandsOn_push hpush hd with hd | ⟨-, rfl⟩
    · exact hI.wired s' d hd
    · obtain ⟨c', hc', hid, -⟩ := hI.stored p d hcin
      exact ⟨c', hc', hid⟩
  · intro q
    rw [hprocs]
    exact hI.hand q
  · intro q q' hne d hd d' hd'
    rw [hprocs] at hd hd'
    exact hI.apart q q' hne d hd d' hd'
  · intro q d hd
    rw [procs_goto] at hd
    split at hd
    · have hnodup : ((w.procs p).unsent.map AgentCommand.id).Nodup := by
        have hhand := hI.hand p
        rw [Proc.inHand, World.marks_of_pushes hpush] at hhand
        exact hhand
      obtain ⟨hold, hne⟩ := ne_of_mem_unsent_tail hpush hunsent hnodup hd
      exact unpushed_push hpush hne (hI.unsent p d hold)
    · rename_i hq
      have hdq : d ∈ (w.procs q).unsent := hd
      have hne := hI.apart p q (Ne.symm hq) c hcin d (Proc.mem_inHand.mpr (Or.inr hdq))
      exact unpushed_push hpush hne (hI.unsent q d hdq)
  · intro c' hc' hpending hfree
    have hfree' : ∀ q, ∀ d ∈ (w.procs q).inHand, d.id ≠ c'.id := by
      intro q d hd
      exact hfree q d (by rw [hprocs]; exact hd)
    exact unpushed_push hpush (hfree' p c hcin) (hI.waiting c' hc' hpending hfree')
  · intro s'
    rw [commandsOn_push hpush]
    split
    · rename_i hs
      subst hs
      exact Table.nodup_append_singleton (hI.once s') (hI.unsent p c hcunsent s')
    · rw [List.append_nil]
      exact hI.once s'

end

/-- The `SELECT` of a flush that runs alone takes up commands nobody has pushed. -/
theorem select (hI : PushedOnce w) {p : ℕ} {r : Registration}
    (hempty : (w.procs p).inHand = [])
    (halone : ∀ q, q ≠ p → ∀ c ∈ (w.procs q).inHand, c.agentId ≠ r.agentId) :
    PushedOnce (w.goto p (.flush r (w.listUndelivered r.agentId))) := by
  have hlisted : ∀ c ∈ w.listUndelivered r.agentId,
      c ∈ w.agentCommands ∧ c.agentId = r.agentId ∧ c.status = .pending := by
    intro c hc
    obtain ⟨hmem, hsel⟩ := List.mem_filter.mp hc
    exact ⟨hmem, of_decide_eq_true hsel⟩
  -- a row in another hand would be a command of the agent
  have hfree : ∀ c ∈ w.listUndelivered r.agentId, ∀ q, ∀ d ∈ (w.procs q).inHand,
      d.id ≠ c.id := by
    intro c hc q d hd hid
    obtain ⟨hmem, hagent, -⟩ := hlisted c hc
    by_cases hq : q = p
    · subst hq
      rw [hempty] at hd
      exact absurd hd (by simp)
    · obtain ⟨d', hd', hid', hagent'⟩ := hI.stored q d hd
      obtain rfl := List.inj_on_of_nodup_map hI.ids hd' hmem (hid'.trans hid)
      exact halone q hq d hd (hagent'.symm.trans hagent)
  refine hI.take hempty hI.ids (fun c hc => hc) (fun c hc => Or.inl hc) ?_ ?_
  · show ((w.listUndelivered r.agentId).map AgentCommand.id).Nodup
    exact hI.ids.sublist (List.filter_sublist.map _)
  · intro c hc
    obtain ⟨hmem, -, hpending⟩ := hlisted c hc
    exact ⟨hmem, hfree c hc, hI.waiting c hmem hpending (hfree c hc)⟩

/-- An `UPDATE` lets its call go of the command it marks, which is pending no longer. -/
theorem mark (hI : PushedOnce w) {p : ℕ} {id : String} {st : CommandStatus} {pc : Proc}
    (hwrites : (w.procs p).writes = some (id, st)) (hmarks : pc.marks = none)
    (hunsent : pc.unsent = (w.procs p).unsent) :
    PushedOnce ((w.setStatus id st).goto p pc) := by
  have hst : st ≠ .pending := by
    rcases writes_eq_some hwrites with ⟨rfl, -⟩ | rfl <;> simp
  have hprocs : ∀ q, ((w.setStatus id st).goto p pc).procs q
      = if q = p then pc else w.procs q := procs_goto _ p pc
  have hhand : pc.inHand = (w.procs p).unsent := by rw [Proc.inHand, hmarks, hunsent]; rfl
  refine shrink hI (f := fun c => if decide (c.id = id) then { c with status := st } else c) rfl ?_
    (fun s => rfl) ?_ ?_ ?_
  · intro c
    split
    · exact ⟨rfl, rfl, fun h => absurd h hst⟩
    · exact ⟨rfl, rfl, fun h => h⟩
  · intro q
    rw [hprocs]
    split
    · rename_i hq
      rw [hq, hhand]
      exact List.sublist_append_right _ _
    · exact List.Sublist.refl _
  · intro q
    rw [hprocs]
    split
    · rename_i hq
      rw [hq, hunsent]
      exact List.Subset.refl _
    · exact List.Subset.refl _
  · intro q d hd
    rw [hprocs]
    by_cases hq : q = p
    · subst hq
      rcases Proc.mem_inHand.mp hd with hm | hu
      · -- the command it marks
        right; right
        intro c hc hid
        obtain ⟨c₀, -, rfl⟩ := Table.mem_update.mp hc
        rcases writes_eq_some hwrites with ⟨-, c', hc', rfl⟩ | rfl
        · obtain rfl : c' = d := by simpa [hc'] using hm
          by_cases h : c₀.id = c'.id <;> simp_all
        · exact absurd hm (by cases hpc : w.procs q <;> simp_all [Proc.writes, Proc.marks])
      · exact Or.inr (Or.inl hu)
    · exact Or.inl (by rw [if_neg hq]; exact hd)

/-- **Step.** -/
theorem step (hI : PushedOnce w) (hG : FlushAlone w l) (h : Agents.step w l = some w') :
    PushedOnce w' := by
  cases step_effect h with
  | insert hpc hpending hfresh => exact hI.insert (by rw [hpc]; rfl) hfresh
  | push hpush hmarks hunsent => exact hI.push hpush hmarks hunsent
  | mark hwrites hmarks hunsent => exact hI.mark hwrites hmarks hunsent
  | select hpc => exact hI.select (by rw [hpc]; rfl) (hG _ hpc)
  | quiet hpush hwrites hcommands hwire hprocs =>
    refine hI.shrink (f := id) (by rw [hcommands, List.map_id]) (fun c => ⟨rfl, rfl, fun h => h⟩)
      hwire (fun q => ?_) (fun q => ?_) (fun q d hd => ?_)
    · rcases hprocs q with hsame | ⟨-, -, hnone⟩
      · rw [hsame]
      · rw [hnone]
        exact List.nil_sublist _
    · rcases hprocs q with hsame | ⟨-, -, hnone⟩
      · rw [hsame]
        exact List.Subset.refl _
      · rw [(List.append_eq_nil_iff.mp hnone).2]
        exact List.nil_subset _
    · rcases hprocs q with hsame | ⟨-, hmarks, -⟩
      · exact Or.inl (hsame ▸ hd)
      · rcases Proc.mem_inHand.mp hd with hm | hu
        · exact absurd (hmarks.symm.trans hm) (by simp)
        · exact Or.inr (Or.inl hu)

end PushedOnce

/-- **At most one push.**  In a run whose flushes read the queue while no other call has a
    command of the agent in hand, every command is written to a socket at most once. -/
theorem pushed_at_most_once {w₀ w : World} {ls : List Label} (h₀ : w₀.Init)
    (hG : machine.Meets FlushAlone w₀ ls) (hrun : machine.exec w₀ ls = some w) (s : ℕ) :
    ((w.commandsOn s).map AgentCommand.id).Nodup := by
  have hI : PushedOnce w := Machine.inv_of_exec (fun _ _ _ hI hG h => hI.step hG h)
    (PushedOnce.init h₀) hG hrun
  exact hI.once s

/-- The flush of a reconnecting agent delivers what was queued while it was away. -/
theorem pushed_at_most_once_reconnect :
    let c : AgentCommand := { id := "c", agentId := "a", type := .restart }
    ∃ w, machine.exec (Sample.world [c]) (Sample.attach 0 0 "key-a" ++ [.run 0 {}, .run 0 {}])
        = some w ∧
      w.commandsOn 0 = [c] ∧ ((w.commandsOn 0).map AgentCommand.id).Nodup := by
  intro c
  have h₀ : (Sample.world [c]).Init := Sample.world_init (List.nodup_singleton _)
  have hG : machine.Meets FlushAlone (Sample.world [c])
      (Sample.attach 0 0 "key-a" ++ [.run 0 {}, .run 0 {}]) := by
    refine .cons trivial rfl (.cons trivial rfl (.cons ?_ rfl (.cons ?_ rfl (.cons ?_ rfl
      (.cons ?_ rfl (.cons ?_ rfl (.cons ?_ rfl (.cons ?_ rfl (.cons ?_ rfl trivial)))))))))
    case refine_7 =>
      -- the `SELECT`: no other call has started
      intro r _ q hq d hd
      cases q with
      | zero => exact absurd rfl hq
      | succ n => exact absurd (show d ∈ [] from hd) (by simp)
    all_goals exact fun r hr => Proc.noConfusion hr
  exact ⟨_, rfl, rfl, pushed_at_most_once h₀ hG rfl 0⟩

/-- **A command is pushed twice.**  `dispatchCommand` has inserted it and is about to push it
    when the flush reads it as pending. -/
theorem pushed_twice :
    (Sample.world []).Init ∧ ∃ w,
      machine.exec (Sample.world []) (Sample.attach 0 0 "key-a" ++
        [.dispatch 1 "a" .restart none, .run 1 { id := "c" }, .run 0 {}, .run 1 {}, .run 0 {}])
          = some w ∧
      (w.commandsOn 0).map AgentCommand.id = ["c", "c"] :=
  ⟨Sample.world_init (by decide), _, rfl, rfl⟩

end Argus.Agents
