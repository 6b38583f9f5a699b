import Argus.Agents.Commands
import Mathlib.Data.List.Find

namespace Argus.Agents

/-!
# The hub and the open sockets

`AgentHub` keeps one socket for each agent: `add` overwrites, and the `close` handler removes
by the agent's id, whichever socket the hub has.  Registration is asynchronous, so the order
of events decides what is left.

* `registered` — the registrations of a run, newest first.
* `InOrder` — the condition: a register completes while its socket is not closed yet and has
  not registered as another agent, and when a registered socket closes, no other registered
  socket of its agent is left.
* `hub_reflects` — then an agent is online exactly when a registered socket of it is open, and
  a push goes to the one that registered last; in every state where no registered socket is
  between its close frame and its `close` event.
* `hub_forgets` — a live agent disappears, and a dead one stays.
-/

/-- The socket has not had its `close` event. -/
def World.lives (w : World) (s : ℕ) : Bool :=
  (w.sockets s).any (fun k => decide (k.readyState ≠ .closed))

/-- The registrations completed so far, newest first. -/
def registered (w : World) (l : Label) (regs : List (String × ℕ)) : List (String × ℕ) :=
  (w.attaches l).elim regs (fun r => (r.agentId, r.socket) :: regs)

/-- The most recently registered socket of an agent that is open. -/
def World.latestOpen (w : World) (regs : List (String × ℕ)) (a : String) : Option ℕ :=
  (regs.find? (fun e => decide (e.1 = a) && w.isOpen e.2)).map Prod.snd

/-- Registrations and closings do not overlap. -/
def InOrder (w : World) (l : Label) : Prop :=
  (∀ r, w.attaches l = some r → ∃ k, w.sockets r.socket = some k ∧ k.readyState ≠ .closed ∧
    (k.agentId = none ∨ k.agentId = some r.agentId)) ∧
  ∀ s k a, l = .closed s → w.sockets s = some k → k.agentId = some a →
    ∀ s' k', s' ≠ s → w.sockets s' = some k' → k'.agentId = some a → k'.readyState = .closed

/-- No registered socket is between its close frame and its `close` event. -/
def World.Settled (w : World) : Prop :=
  ∀ s k a, w.sockets s = some k → k.agentId = some a → k.readyState ≠ .closing

/-- The hub, in terms of the registrations: the agent's most recent one whose socket lives. -/
structure Mirrors (w : World) (regs : List (String × ℕ)) : Prop where
  mem : ∀ a s, (a, s) ∈ regs ↔ ∃ k, w.sockets s = some k ∧ k.agentId = some a
  hub : ∀ a, w.hub a = (regs.find? (fun e => decide (e.1 = a) && w.lives e.2)).map Prod.snd

namespace Mirrors

variable {w w₁ w' : World} {l : Label} {regs : List (String × ℕ)}

theorem init (h : w.Init) : Mirrors w [] := by
  constructor
  · intro a s
    simp [h.sockets s]
  · intro a
    simp [h.hub a]

/-- Only the hub and what is known of the sockets count. -/
theorem congr (hI : Mirrors w regs) (hhub : w₁.hub = w.hub)
    (hagent : ∀ s, (w₁.sockets s).bind Socket.agentId = (w.sockets s).bind Socket.agentId)
    (hlives : ∀ s, w₁.lives s = w.lives s) : Mirrors w₁ regs := by
  constructor
  · intro a s
    rw [hI.mem, ← Option.bind_eq_some_iff, ← Option.bind_eq_some_iff, hagent]
  · intro a
    rw [hhub, hI.hub]
    simp only [hlives]

/-- A change to one socket that keeps its agent and its `close` event. -/
theorem modifySocket (hI : Mirrors w regs) {s : ℕ} {f : Socket → Socket}
    (hagent : ∀ k, (f k).agentId = k.agentId)
    (hclosed : ∀ k, (f k).readyState = .closed ↔ k.readyState = .closed) :
    Mirrors (w.modifySocket s f) regs := by
  refine hI.congr rfl (fun s' => ?_) (fun s' => ?_)
  · by_cases hs : s' = s
    · subst hs
      cases hk : w.sockets s' <;> simp [World.modifySocket, hk, hagent]
    · simp [World.modifySocket, Function.update_of_ne hs]
  · by_cases hs : s' = s
    · subst hs
      cases hk : w.sockets s' <;> simp [World.lives, World.modifySocket, hk, hclosed]
    · simp [World.lives, World.modifySocket, Function.update_of_ne hs]

/-- A socket that is just accepted has not registered. -/
theorem connect (hI : Mirrors w regs) {s : ℕ} {rawKey : Option String}
    (hs : w.sockets s = none) :
    Mirrors { w with sockets := Function.update w.sockets s (some { rawKey }) } regs := by
  have hnot : ∀ a, (a, s) ∉ regs := by
    intro a hmem
    obtain ⟨k, hk, -⟩ := (hI.mem a s).mp hmem
    exact absurd (hk.symm.trans hs) (by simp)
  constructor
  · intro a s'
    rw [hI.mem]
    by_cases h : s' = s
    · subst h
      simp [hs]
    · simp [Function.update_of_ne h]
  · intro a
    rw [hI.hub]
    congr 1
    refine List.find?_congr (fun e he => ?_)
    have hne : e.2 ≠ s := by
      rintro rfl
      exact hnot e.1 he
    simp [World.lives, Function.update_of_ne hne]

/-- A register that completes on a living socket is the agent's most recent one. -/
theorem attach (hI : Mirrors w regs) {a : String} {s : ℕ} {k : Socket}
    (hk : w.sockets s = some k) (hlives : k.readyState ≠ .closed)
    (hown : k.agentId = none ∨ k.agentId = some a) :
    Mirrors (w.hubAdd a s) ((a, s) :: regs) := by
  have hlives' : ∀ s', (w.hubAdd a s).lives s' = w.lives s' := by
    intro s'
    by_cases h : s' = s
    · subst h
      simp [World.lives, World.hubAdd, World.modifySocket, hk]
    · simp [World.lives, World.hubAdd, World.modifySocket, Function.update_of_ne h]
  constructor
  · intro a' s'
    rw [List.mem_cons, hI.mem]
    by_cases h : s' = s
    · subst h
      rcases hown with hnone | hsome
      · simp [World.hubAdd, World.modifySocket, hk, hnone, eq_comm]
      · simp [World.hubAdd, World.modifySocket, hk, hsome, eq_comm]
    · simp [World.hubAdd, World.modifySocket, h]
  · intro a'
    have hs : w.lives s = true := by simp [World.lives, hk, hlives]
    by_cases ha : a = a'
    · subst ha
      have hhub : (w.hubAdd a s).hub a = some s := Function.update_self _ _ _
      rw [hhub]
      simp [hlives', hs]
    · have ha' : a' ≠ a := Ne.symm ha
      have hhub : (w.hubAdd a s).hub a' = w.hub a' := Function.update_of_ne ha' _ _
      rw [hhub, hI.hub]
      simp [ha, hlives']

/-- The `close` event of an agent's last living socket leaves the agent without one. -/
theorem closed (hI : Mirrors w regs) {s : ℕ} {k : Socket} (hk : w.sockets s = some k)
    (halone : ∀ a, k.agentId = some a → ∀ s' k', s' ≠ s → w.sockets s' = some k' →
      k'.agentId = some a → k'.readyState = .closed) :
    Mirrors ((w.modifySocket s (fun k => { k with readyState := .closed })).hubRemove k.agentId)
      regs := by
  have hsockets : ∀ (v : World) (a : Option String), (v.hubRemove a).sockets = v.sockets := by
    intro v a
    cases a <;> rfl
  -- a registration of another socket is as good as before
  have hother : ∀ s', s' ≠ s →
      ((w.modifySocket s (fun k => { k with readyState := .closed })).hubRemove k.agentId).lives s'
        = w.lives s' := by
    intro s' hne
    simp [World.lives, hsockets, World.modifySocket, Function.update_of_ne hne]
  have hself :
      ((w.modifySocket s (fun k => { k with readyState := .closed })).hubRemove k.agentId).lives s
        = false := by
    simp [World.lives, hsockets, World.modifySocket, hk]
  constructor
  · intro a s'
    rw [hI.mem, hsockets]
    by_cases h : s' = s
    · subst h
      simp [World.modifySocket, hk]
    · simp [World.modifySocket, Function.update_of_ne h]
  · intro a
    by_cases ha : k.agentId = some a
    · -- no registration of this agent has a living socket any more
      have hnone : regs.find? (fun e => decide (e.1 = a) && ((w.modifySocket s
          (fun k => { k with readyState := .closed })).hubRemove k.agentId).lives e.2) = none := by
        rw [List.find?_eq_none]
        intro e he hsel
        obtain ⟨hea, hlive⟩ := Bool.and_eq_true_iff.mp hsel
        obtain rfl := of_decide_eq_true hea
        by_cases hes : e.2 = s
        · rw [hes, hself] at hlive
          exact Bool.noConfusion hlive
        · obtain ⟨k', hk', hk'a⟩ := (hI.mem e.1 e.2).mp he
          rw [hother e.2 hes] at hlive
          simp [World.lives, hk', halone e.1 ha e.2 k' hes hk' hk'a] at hlive
      rw [hnone, ha]
      exact Function.update_self _ _ _
    · have hhub : ((w.modifySocket s (fun k => { k with readyState := .closed })).hubRemove
          k.agentId).hub a = w.hub a := by
        cases hka : k.agentId with
        | none => rfl
        | some a' =>
          have hne : a ≠ a' := by
            rintro rfl
            exact ha hka
          exact Function.update_of_ne hne _ _
      rw [hhub, hI.hub]
      congr 1
      refine List.find?_congr (fun e he => ?_)
      by_cases hea : e.1 = a
      · have hes : e.2 ≠ s := by
          rintro rfl
          obtain ⟨k', hk', hk'a⟩ := (hI.mem e.1 e.2).mp he
          obtain rfl : k = k' := Option.some.inj (hk.symm.trans hk')
          exact ha (hea ▸ hk'a)
        rw [hother e.2 hes]
      · simp [hea]

/-- **Step.** -/
theorem step (hI : Mirrors w regs) (hG : InOrder w l) (h : Agents.step w l = some w') :
    Mirrors w' (registered w l regs) := by
  obtain ⟨w₁, htouch, hsame⟩ := step_touch h
  have hw₁ : Mirrors w₁ (registered w l regs) := by
    cases htouch with
    | none hl hc =>
      rw [registered, hl]
      exact hI
    | connect hs => exact hI.connect hs
    | send hl hc =>
      rw [registered, hl]
      exact hI.modifySocket (fun k => by split <;> rfl) (fun k => by split <;> rfl)
    | close hl hc =>
      rw [registered, hl]
      refine hI.modifySocket (fun k => by split <;> rfl) (fun k => ?_)
      split
      · rename_i hk
        simp [hk]
      · rfl
    | attach hl =>
      obtain ⟨k, hk, hlives, hown⟩ := hG.1 _ hl
      rw [registered, hl]
      exact hI.attach hk hlives hown
    | @scan p env s key m status progress state hpc =>
      have hl : w.attaches (.run p env) = none := by rw [World.attaches, hpc]
      rw [registered, hl]
      exact ⟨hI.mem, hI.hub⟩
    | @closed s k hs hk => exact hI.closed hs (fun a ha => hG.2 s k a rfl hs ha)
  refine hw₁.congr hsame.hub (fun s => by rw [hsame.sockets]) (fun s => ?_)
  rw [World.lives, World.lives, hsame.sockets]

end Mirrors

/-- **The hub reflects the open sockets.**  In a run whose registrations and closings do not
    overlap, in every state in which no registered socket is half closed: an agent is online
    exactly when a registered socket of it is open, and a push goes to the one that
    registered last. -/
theorem hub_reflects {w₀ w : World} {ls : List Label} (h₀ : w₀.Init)
    (hG : machine.Meets InOrder w₀ ls) (hrun : machine.exec w₀ ls = some w)
    (hsettled : w.Settled) (a : String) :
    (w.isOnline a = true ↔ ∃ s, (a, s) ∈ machine.track registered w₀ ls [] ∧
      w.isOpen s = true) ∧
    ∀ msg, w.hubSend a msg
      = (w.latestOpen (machine.track registered w₀ ls []) a).map (fun s => w.send s msg) := by
  generalize hregs : machine.track registered w₀ ls [] = regs
  have hI : Mirrors w regs := by
    rw [← hregs]
    exact Machine.rel_of_track (fun _ _ _ _ hI hG h => hI.step hG h) (Mirrors.init h₀) hG hrun
  -- a registered socket that has not had its `close` event is open
  have hlives : ∀ e ∈ regs, w.lives e.2 = w.isOpen e.2 := by
    intro e he
    obtain ⟨k, hk, hka⟩ := (hI.mem e.1 e.2).mp he
    have hne := hsettled e.2 k e.1 hk hka
    cases hst : k.readyState <;> simp_all [World.lives, World.isOpen]
  have hhub : w.hub a = w.latestOpen regs a := by
    rw [hI.hub, World.latestOpen]
    congr 1
    refine List.find?_congr (fun e he => ?_)
    rw [hlives e he]
  have hlatest : ∀ s, w.latestOpen regs a = some s → (a, s) ∈ regs ∧ w.isOpen s = true := by
    intro s hs
    obtain ⟨e, he, rfl⟩ := Option.map_eq_some_iff.mp hs
    have hsel := List.find?_some he
    obtain ⟨hea, hopen⟩ := Bool.and_eq_true_iff.mp hsel
    obtain rfl := of_decide_eq_true hea
    exact ⟨List.mem_of_find?_eq_some he, hopen⟩
  constructor
  · rw [World.isOnline, hhub]
    constructor
    · intro honline
      obtain ⟨s, hs⟩ := Option.isSome_iff_exists.mp honline
      exact ⟨s, hlatest s hs⟩
    · rintro ⟨s, hmem, hopen⟩
      rw [World.latestOpen, Option.isSome_map, List.find?_isSome]
      exact ⟨(a, s), hmem, by simp [hopen]⟩
  · intro msg
    rw [World.hubSend_eq, World.target, hhub]
    cases hs : w.latestOpen regs a with
    | none => rfl
    | some s => rw [Option.filter_some_pos (hlatest s hs).2]

/-- A single connection registers and stays. -/
theorem hub_reflects_connected :
    ∃ w, machine.exec (Sample.world []) (Sample.attach 0 0 "key-a") = some w ∧
      (w.isOnline "a" = true ↔ ∃ s, ("a", s) ∈
        machine.track registered (Sample.world []) (Sample.attach 0 0 "key-a") [] ∧
          w.isOpen s = true) ∧
      w.isOnline "a" = true := by
  have hG : machine.Meets InOrder (Sample.world []) (Sample.attach 0 0 "key-a") := by
    refine .cons ⟨?_, ?_⟩ rfl (.cons ⟨?_, ?_⟩ rfl (.cons ⟨?_, ?_⟩ rfl (.cons ⟨?_, ?_⟩ rfl
      (.cons ⟨?_, ?_⟩ rfl (.cons ⟨?_, ?_⟩ rfl (.cons ⟨?_, ?_⟩ rfl (.cons ⟨?_, ?_⟩ rfl
      trivial)))))))
    case refine_11 =>
      intro r hr
      obtain rfl := Option.some.inj hr
      exact ⟨_, rfl, by simp, Or.inl rfl⟩
    all_goals first
      | exact fun s k a hl => Label.noConfusion hl
      | exact fun r hr => absurd (show none = some r from hr) (by simp)
  have hsettled : ∀ w, machine.exec (Sample.world []) (Sample.attach 0 0 "key-a") = some w →
      w.Settled := by
    intro w hw s k a hk _
    obtain rfl := Option.some.inj hw
    cases s with
    | zero =>
      obtain rfl := Option.some.inj hk
      simp
    | succ n => exact absurd (show none = some k from hk) (by simp)
  exact ⟨_, rfl, (hub_reflects (Sample.world_init (by decide)) hG rfl (hsettled _ rfl) "a").1, rfl⟩

/-- **A live agent disappears, a dead one stays.**  The second socket of an agent registers
    before the first closes, and its `close` handler removes the second from the hub; a
    register that completes after its socket has closed leaves that socket there. -/
theorem hub_forgets :
    (Sample.world []).Init ∧
    (∃ w, machine.exec (Sample.world []) (Sample.attach 0 0 "key-a" ++
        Sample.attach 1 1 "key-a" ++ [.hangup 0, .closed 0]) = some w ∧
      w.isOpen 1 = true ∧ (w.sockets 1).bind Socket.agentId = some "a" ∧
      w.isOnline "a" = false) ∧
    ∃ w, machine.exec (Sample.world []) [.connect 0 (some "key-a"),
        .receive 0 0 (some (.register {})), .run 0 {}, .run 0 {}, .run 0 {}, .hangup 0, .closed 0,
        .run 0 {}] = some w ∧
      w.isOpen 0 = false ∧ w.sockets 1 = none ∧ w.isOnline "a" = true :=
  ⟨Sample.world_init (by decide), ⟨_, rfl, rfl, rfl, rfl⟩, _, rfl, rfl, rfl, rfl⟩

end Argus.Agents
