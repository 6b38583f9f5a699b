import Mathlib.Logic.Function.Basic
import Mathlib.Order.Defs.PartialOrder

/-!
# Labelled machines and their guarded runs

A `Machine σ ℓ` takes a state and a label to the next state, or refuses the label.  The
labels carry every choice the machine does not make itself (which process moves, what it
draws, how far the clock advances), so a list of labels determines a run and a run can be
evaluated.

* `exec` runs a list of labels; `exec_append` cuts a run in two.
* `Meets G s ls` — every step of the run of `ls` from `s` meets the guard `G` in the state
  it is taken from.
* `inv_of_exec` — an invariant that every guarded step keeps holds after every guarded run.
* `inv_of_history` — the same for an invariant that refers to the labels taken so far.
* `until_of_exec` — a property that every guarded step keeps unless it does `E` holds after
  a run in which no step did `E`.
* `track` — a second state that follows a run, step by step, without influence on it: a
  history, or the state of an abstract model; `rel_of_track` is the simulation rule, and
  `rel_iff_meets` the one for a guard that is also necessary.
* `rel_of_exec` — a preorder that every step respects relates both ends of a run.
* `family` — copies of a machine that share nothing, one for each index.
-/

/-- A labelled machine: `step s l` is the state after label `l` is taken in `s`, or `none`
    when `l` is not enabled there. -/
structure Machine (σ ℓ : Type*) where
  step : σ → ℓ → Option σ

namespace Machine

variable {σ ℓ : Type*} (M : Machine σ ℓ)

/-- Run a list of labels; `none` when one of them is not enabled. -/
def exec (s : σ) : List ℓ → Option σ
  | [] => some s
  | l :: ls => (M.step s l).bind (fun s' => exec s' ls)

@[simp] theorem exec_nil (s : σ) : M.exec s [] = some s := rfl

theorem exec_cons (s : σ) (l : ℓ) (ls : List ℓ) :
    M.exec s (l :: ls) = (M.step s l).bind (fun s' => M.exec s' ls) := rfl

/-- A run of `l :: ls` takes `l` first and then runs `ls`. -/
theorem exec_cons_eq_some {s s' : σ} {l : ℓ} {ls : List ℓ} :
    M.exec s (l :: ls) = some s' ↔ ∃ t, M.step s l = some t ∧ M.exec t ls = some s' := by
  rw [exec_cons, Option.bind_eq_some_iff]

/-- A run over `a ++ b` is a run over `a` followed by one over `b`. -/
theorem exec_append (s : σ) (a b : List ℓ) :
    M.exec s (a ++ b) = (M.exec s a).bind (fun t => M.exec t b) := by
  induction a generalizing s with
  | nil => rfl
  | cons l ls ih =>
    rw [List.cons_append, exec_cons, exec_cons, Option.bind_assoc]
    exact congrArg _ (funext ih)

/-- Every step of the run of `ls` from `s` meets `G` in the state it is taken from. -/
def Meets (G : σ → ℓ → Prop) (s : σ) : List ℓ → Prop
  | [] => True
  | l :: ls => G s l ∧ ∀ s', M.step s l = some s' → Meets G s' ls

variable {M}

/-- The guard of a run holds along its first part and, from where that ends, along the
    second. -/
theorem Meets.split {G : σ → ℓ → Prop} {s t : σ} {a b : List ℓ}
    (h : M.Meets G s (a ++ b)) (ha : M.exec s a = some t) : M.Meets G s a ∧ M.Meets G t b := by
  induction a generalizing s with
  | nil =>
    obtain rfl : s = t := by simpa using ha
    exact ⟨trivial, h⟩
  | cons l ls ih =>
    obtain ⟨u, hu, hls⟩ := M.exec_cons_eq_some.mp ha
    obtain ⟨hG, hrest⟩ := h
    have hboth := ih (hrest u hu) hls
    refine ⟨⟨hG, fun u' hu' => ?_⟩, hboth.2⟩
    obtain rfl : u = u' := Option.some.inj (hu.symm.trans hu')
    exact hboth.1

/-- The guard of a run, from that of its first step and of the rest. -/
theorem Meets.cons {G : σ → ℓ → Prop} {s t : σ} {l : ℓ} {ls : List ℓ} (hG : G s l)
    (hstep : M.step s l = some t) (hrest : M.Meets G t ls) : M.Meets G s (l :: ls) := by
  refine ⟨hG, fun s' hs' => ?_⟩
  obtain rfl : t = s' := Option.some.inj (hstep.symm.trans hs')
  exact hrest

/-- The guard of a run can be evaluated. -/
instance decidableMeets (G : σ → ℓ → Prop) [∀ s l, Decidable (G s l)] :
    (s : σ) → (ls : List ℓ) → Decidable (M.Meets G s ls)
  | _, [] => isTrue trivial
  | s, l :: ls =>
    match hstep : M.step s l with
    | none =>
      decidable_of_iff (G s l)
        ⟨fun hG => ⟨hG, fun _ h => absurd (hstep.symm.trans h) (by simp)⟩, fun h => h.1⟩
    | some t =>
      have := decidableMeets G t ls
      decidable_of_iff (G s l ∧ M.Meets G t ls)
        ⟨fun h => .cons h.1 hstep h.2, fun h => ⟨h.1, h.2 t hstep⟩⟩

/-- Two guards hold along a run together. -/
theorem Meets.and {G H : σ → ℓ → Prop} {s : σ} {ls : List ℓ} (hG : M.Meets G s ls)
    (hH : M.Meets H s ls) : M.Meets (fun s l => G s l ∧ H s l) s ls := by
  induction ls generalizing s with
  | nil => trivial
  | cons l ls ih => exact ⟨⟨hG.1, hH.1⟩, fun s' hs' => ih (hG.2 s' hs') (hH.2 s' hs')⟩

/-- The guard that is always true holds along every run. -/
theorem Meets.always (s : σ) (ls : List ℓ) : M.Meets (fun _ _ => True) s ls := by
  induction ls generalizing s with
  | nil => trivial
  | cons l ls ih => exact ⟨trivial, fun s' _ => ih s'⟩

/-- **Invariant rule.** What every guarded step keeps, every guarded run keeps. -/
theorem inv_of_exec {G : σ → ℓ → Prop} {I : σ → Prop}
    (hstep : ∀ s l s', I s → G s l → M.step s l = some s' → I s')
    {s s' : σ} {ls : List ℓ} (hs : I s) (hG : M.Meets G s ls) (hrun : M.exec s ls = some s') :
    I s' := by
  induction ls generalizing s with
  | nil =>
    obtain rfl : s = s' := by simpa using hrun
    exact hs
  | cons l ls ih =>
    obtain ⟨t, ht, hls⟩ := M.exec_cons_eq_some.mp hrun
    exact ih (hstep s l t hs hG.1 ht) (hG.2 t ht) hls

/-- **History rule.** An invariant of the labels taken so far and the state, kept by every step
    that meets a condition on them, holds after every run whose steps meet it. -/
theorem inv_of_history {G : List ℓ → ℓ → Prop} {I : List ℓ → σ → Prop}
    (hstep : ∀ past s l s', I past s → G past l → M.step s l = some s' → I (past ++ [l]) s')
    {s s' : σ} {ls : List ℓ} (hs : I [] s)
    (hG : ∀ past l rest, ls = past ++ l :: rest → G past l) (hrun : M.exec s ls = some s') :
    I ls s' := by
  -- the induction is on what is still to be run, after an arbitrary past
  have hgen : ∀ (todo past : List ℓ) (t : σ), ls = past ++ todo → I past t →
      M.exec t todo = some s' → I ls s' := by
    intro todo
    induction todo with
    | nil =>
      intro past t hls hI hexec
      obtain rfl : t = s' := by simpa using hexec
      rw [hls, List.append_nil]
      exact hI
    | cons l todo ih =>
      intro past t hls hI hexec
      obtain ⟨u, hu, hrest⟩ := M.exec_cons_eq_some.mp hexec
      refine ih (past ++ [l]) u (by simp [hls]) ?_ hrest
      exact hstep past t l u hI (hG past l todo hls) hu
  exact hgen ls [] s rfl hs hrun

/-- **Until rule.** If every guarded step keeps `I` or does `E`, then after a guarded run `I`
    still holds, or some step of the run did `E` in a state where `I` held. -/
theorem until_of_exec {G : σ → ℓ → Prop} {I : σ → Prop} {E : σ → ℓ → σ → Prop}
    (hstep : ∀ s l s', I s → G s l → M.step s l = some s' → I s' ∨ E s l s')
    {s s' : σ} {ls : List ℓ} (hs : I s) (hG : M.Meets G s ls) (hrun : M.exec s ls = some s') :
    I s' ∨ ∃ a l b t t', ls = a ++ l :: b ∧ M.exec s a = some t ∧ I t ∧
      M.step t l = some t' ∧ E t l t' := by
  induction ls generalizing s with
  | nil =>
    obtain rfl : s = s' := by simpa using hrun
    exact Or.inl hs
  | cons l ls ih =>
    obtain ⟨t, ht, hls⟩ := M.exec_cons_eq_some.mp hrun
    -- the first step that does `E` ends the stretch in which `I` is known
    rcases hstep s l t hs hG.1 ht with hkeep | hend
    · rcases ih hkeep (hG.2 t ht) hls with hI | ⟨a, l', b, u, u', rfl, hu, hIu, hu', hE⟩
      · exact Or.inl hI
      · exact Or.inr ⟨l :: a, l', b, u, u', rfl, M.exec_cons_eq_some.mpr ⟨t, ht, hu⟩, hIu, hu', hE⟩
    · exact Or.inr ⟨[], l, ls, s, t, rfl, rfl, hs, ht, hend⟩

/-- **Preorder rule.** A reflexive and transitive relation that every step respects relates
    the two ends of every run. -/
theorem rel_of_exec {R : σ → σ → Prop} (hrefl : ∀ s, R s s)
    (htrans : ∀ {a b c}, R a b → R b c → R a c)
    (hstep : ∀ s l s', M.step s l = some s' → R s s')
    {s s' : σ} {ls : List ℓ} (hrun : M.exec s ls = some s') : R s s' := by
  induction ls generalizing s with
  | nil =>
    obtain rfl : s = s' := by simpa using hrun
    exact hrefl s
  | cons l ls ih =>
    obtain ⟨t, ht, hls⟩ := M.exec_cons_eq_some.mp hrun
    exact htrans (hstep s l t ht) (ih hls)

/-! ### Following a run -/

section Track

variable {α : Type*} (M) (next : σ → ℓ → α → α)

/-- The state of a follower after a run: it moves by `next` with every step. -/
def track (s : σ) : List ℓ → α → α
  | [], a => a
  | l :: ls, a => (M.step s l).elim a (fun s' => track s' ls (next s l a))

variable {M next}

/-- **Simulation rule.** A relation that every guarded step keeps, when the follower moves
    with it, holds after every guarded run. -/
theorem rel_of_track {G : σ → ℓ → Prop} {R : σ → α → Prop}
    (hstep : ∀ s l s' a, R s a → G s l → M.step s l = some s' → R s' (next s l a))
    {s s' : σ} {ls : List ℓ} {a : α} (hs : R s a) (hG : M.Meets G s ls)
    (hrun : M.exec s ls = some s') : R s' (M.track next s ls a) := by
  -- the follower's state changes along the run, so it is generalised with the machine's
  induction ls generalizing s a with
  | nil =>
    obtain rfl : s = s' := by simpa using hrun
    exact hs
  | cons l ls ih =>
    obtain ⟨t, ht, hls⟩ := M.exec_cons_eq_some.mp hrun
    have hrest := ih (hstep s l t a hs hG.1 ht) (hG.2 t ht) hls
    rw [track, ht, Option.elim_some]
    exact hrest

/-- **Exactness rule.** If a step keeps a relation to the follower exactly when it is guarded, the
    relation holds in every state of a run exactly when the run is guarded. -/
theorem rel_iff_meets {G : σ → ℓ → Prop} {R : σ → α → Prop}
    (hstep : ∀ s l s' a, R s a → M.step s l = some s' → (R s' (next s l a) ↔ G s l))
    {s s' : σ} {ls : List ℓ} {a : α} (hs : R s a) (hrun : M.exec s ls = some s') :
    (∀ past rest t, ls = past ++ rest → M.exec s past = some t → R t (M.track next s past a)) ↔
      M.Meets G s ls := by
  induction ls generalizing s a with
  | nil =>
    refine ⟨fun _ => trivial, fun _ past rest t hls hpast => ?_⟩
    obtain ⟨rfl, -⟩ := List.append_eq_nil_iff.mp hls.symm
    obtain rfl : s = t := by simpa using hpast
    exact hs
  | cons l ls ih =>
    obtain ⟨t, ht, hls⟩ := M.exec_cons_eq_some.mp hrun
    constructor
    · intro h
      have hfirst := h [l] ls t rfl (M.exec_cons_eq_some.mpr ⟨t, ht, rfl⟩)
      rw [track, ht, Option.elim_some, track] at hfirst
      refine Meets.cons ((hstep s l t a hs ht).mp hfirst) ht ((ih hfirst hls).mp ?_)
      intro past rest u hsplit hu
      have hlater := h (l :: past) rest u (by rw [hsplit, List.cons_append])
        (M.exec_cons_eq_some.mpr ⟨t, ht, hu⟩)
      rwa [track, ht, Option.elim_some] at hlater
    · intro hmeets past rest u hsplit hu
      cases past with
      | nil =>
        obtain rfl : s = u := by simpa using hu
        exact hs
      | cons l' past =>
        obtain ⟨rfl, hrest⟩ := List.cons.inj hsplit
        obtain ⟨t', ht', hpast⟩ := M.exec_cons_eq_some.mp hu
        obtain rfl : t = t' := Option.some.inj (ht.symm.trans ht')
        rw [track, ht, Option.elim_some]
        exact (ih ((hstep s l t a hs ht).mpr hmeets.1) hls).mpr (hmeets.2 t ht) past rest u hrest
          hpast

end Track

/-! ### Copies of a machine -/

section Family

variable {ι : Type*} [DecidableEq ι]

/-- A machine for each index; a label moves one of them. -/
def family (M : Machine σ ℓ) : Machine (ι → σ) (ι × ℓ) where
  step s l := (M.step (s l.1) l.2).map (Function.update s l.1)

theorem family_step {s s' : ι → σ} {i : ι} {l : ℓ} :
    M.family.step s (i, l) = some s' ↔
      ∃ t, M.step (s i) l = some t ∧ Function.update s i t = s' :=
  Option.map_eq_some_iff

/-- What every step of one machine keeps, every run of the family keeps at every index. -/
theorem inv_of_family {I : σ → Prop} (hstep : ∀ s l s', I s → M.step s l = some s' → I s')
    {s s' : ι → σ} {ls : List (ι × ℓ)} (hs : ∀ i, I (s i)) (hrun : M.family.exec s ls = some s')
    (i : ι) : I (s' i) := by
  refine inv_of_exec (I := fun s : ι → σ => ∀ i, I (s i)) ?_ hs (Meets.always s ls) hrun i
  rintro s ⟨j, l⟩ s' hI - hmove k
  obtain ⟨t, ht, rfl⟩ := family_step.mp hmove
  by_cases hk : k = j
  · subst hk
    rw [Function.update_self]
    exact hstep (s k) l t (hI k) ht
  · rw [Function.update_of_ne hk]
    exact hI k

end Family

end Machine
