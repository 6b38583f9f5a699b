import Mathlib.Data.Nat.Notation
import Mathlib.Data.Option.Basic

/-!
# Polling a flag

Work that can be called off: now and then it looks at a flag that somebody else may set, and once
it is set it stays so.  When that happens is told by the number of the first look that sees it.

* `Run`, `Polled` — such a piece of work, and computations in it; without a `Run` nobody can call
  them off.
* `poll`, `report` — a look at the flag, and a change of what is reported.
* `observed` — whether a look has seen it, for what is to be said about the work.
* `Cooperative` — the computation behaves as if nobody could call it off until it sees the flag.
* `Cooperative.bind` — sequences of such computations do so, too.
* `Cooperative.seen_after_iff`, `Cooperative.apply_of_not_seen` — what this says of a whole
  computation.
-/

namespace Polling

variable {π α β : Type}

/-- Work that is going on.  The flag is set when it has been looked at `cancelAt` times. -/
structure Run (π : Type) where
  cancelAt : Option ℕ
  checks : ℕ
  progress : π
deriving DecidableEq, Repr

namespace Run

/-- A look has seen the flag. -/
def seen (r : Run π) : Bool := r.cancelAt.any (· < r.checks)

/-- The same work, but nobody calls it off. -/
def unstopped (r : Run π) : Run π := { r with cancelAt := none }

/-- The same work, called off at another time. -/
def stopAt (r : Run π) (k : ℕ) : Run π := { r with cancelAt := some k }

/-- The work after one more look. -/
def looked (r : Run π) : Run π := { r with checks := r.checks + 1 }

theorem seen_mono {r r' : Run π} (hcancel : r'.cancelAt = r.cancelAt)
    (hchecks : r.checks ≤ r'.checks) (h : r.seen = true) : r'.seen = true := by
  rw [seen] at h ⊢
  rw [hcancel]
  cases hk : r.cancelAt with
  | none =>
    rw [hk] at h
    cases h
  | some k =>
    rw [hk] at h
    simp only [Option.any_some, decide_eq_true_eq] at h ⊢
    omega

end Run

/-- Computations in such a piece of work. -/
abbrev Polled (π : Type) := StateM (Option (Run π))

/-- A look at the flag. -/
def poll : Polled π Bool
  | none => (false, none)
  | some r => (r.cancelAt.any (· ≤ r.checks), some r.looked)

/-- Whether a look has seen the flag.  This is not a look. -/
def observed : Polled π Bool := fun run => (run.any Run.seen, run)

/-- What is reported changes. -/
def report (f : π → π) : Polled π Unit := fun run =>
  ((), run.map fun r => { r with progress := f r.progress })

/-- The computation behaves as if nobody could call it off until it sees the flag. -/
structure Cooperative (x : Polled π α) : Prop where
  quiet : (x none).2 = none
  mono : ∀ r, ∃ r', (x (some r)).2 = some r' ∧ r'.cancelAt = r.cancelAt ∧ r.checks ≤ r'.checks
  unstopped : ∀ r, r.cancelAt = none → (x (some r)).1 = (x none).1
  agrees : ∀ r r' f, r.seen = false → (x (some r)).2 = some r' →
    (x (some r.unstopped)).2 = some f →
    r'.seen = r.cancelAt.any (· < f.checks) ∧
      (r'.seen = false → (x (some r)).1 = (x none).1 ∧ r' = { f with cancelAt := r.cancelAt })

namespace Cooperative

variable {x : Polled π α} {y : Polled π α} {f : α → Polled π β}

theorem pure (a : α) : Cooperative (Pure.pure a : Polled π α) where
  quiet := rfl
  mono r := ⟨r, rfl, rfl, Nat.le_refl _⟩
  unstopped _ _ := rfl
  agrees := by
    rintro r r' f - hr hf
    obtain rfl := Option.some.inj hr
    obtain rfl := Option.some.inj hf
    exact ⟨rfl, fun _ => ⟨rfl, rfl⟩⟩

theorem poll : Cooperative (Polling.poll : Polled π Bool) where
  quiet := rfl
  mono r := ⟨_, rfl, rfl, Nat.le_succ _⟩
  unstopped r h := by
    show r.cancelAt.any (· ≤ r.checks) = false
    rw [h]
    rfl
  agrees := by
    rintro r r' f - hr hf
    obtain rfl := Option.some.inj hr
    obtain rfl := Option.some.inj hf
    refine ⟨rfl, fun hseen => ⟨?_, rfl⟩⟩
    show r.cancelAt.any (· ≤ r.checks) = false
    rw [← hseen]
    congr 1
    funext k
    exact decide_eq_decide.mpr Nat.lt_succ_iff.symm

theorem observed : Cooperative (Polling.observed : Polled π Bool) where
  quiet := rfl
  mono r := ⟨r, rfl, rfl, Nat.le_refl _⟩
  unstopped r h := by
    show r.cancelAt.any (· < r.checks) = false
    rw [h]
    rfl
  agrees := by
    rintro r r' f hseen hr hf
    obtain rfl := Option.some.inj hr
    obtain rfl := Option.some.inj hf
    exact ⟨rfl, fun _ => ⟨hseen, rfl⟩⟩

theorem report (g : π → π) : Cooperative (Polling.report g) where
  quiet := rfl
  mono r := ⟨_, rfl, rfl, Nat.le_refl _⟩
  unstopped _ _ := rfl
  agrees := by
    rintro r r' f - hr hf
    obtain rfl := Option.some.inj hr
    obtain rfl := Option.some.inj hf
    exact ⟨rfl, fun _ => ⟨rfl, rfl⟩⟩

theorem bind_none (hx : Cooperative x) : (x >>= f) none = f (x none).1 none := by
  show f (x none).1 (x none).2 = _
  rw [hx.quiet]

theorem bind (hx : Cooperative x) (hf : ∀ a, Cooperative (f a)) : Cooperative (x >>= f) where
  quiet := by
    rw [bind_none hx]
    exact (hf _).quiet
  mono r := by
    obtain ⟨r₁, hr₁, hcancel₁, hchecks₁⟩ := hx.mono r
    obtain ⟨r₂, hr₂, hcancel₂, hchecks₂⟩ := (hf (x (some r)).1).mono r₁
    refine ⟨r₂, ?_, hcancel₂.trans hcancel₁, Nat.le_trans hchecks₁ hchecks₂⟩
    show (f (x (some r)).1 (x (some r)).2).2 = some r₂
    rw [hr₁, hr₂]
  unstopped r h := by
    obtain ⟨r₁, hr₁, hcancel₁, -⟩ := hx.mono r
    rw [bind_none hx]
    show (f (x (some r)).1 (x (some r)).2).1 = _
    rw [hr₁, hx.unstopped r h]
    exact (hf _).unstopped r₁ (hcancel₁.trans h)
  agrees := by
    intro r r' g hseen hr hg
    obtain ⟨r₁, hr₁, hcancel₁, -⟩ := hx.mono r
    obtain ⟨g₁, hg₁, hfree₁, -⟩ := hx.mono r.unstopped
    obtain ⟨hsame, hagree⟩ := hx.agrees r r₁ g₁ hseen hr₁ hg₁
    have hvalue := hx.unstopped r.unstopped rfl
    have hr' : (f (x (some r)).1 (some r₁)).2 = some r' := by
      rw [← hr₁]
      exact hr
    have hg' : (f (x none).1 (some g₁)).2 = some g := by
      rw [← hg₁, ← hvalue]
      exact hg
    obtain ⟨r₂, hr₂, hcancel₂, hchecks₂⟩ := (hf (x (some r)).1).mono r₁
    obtain rfl : r₂ = r' := Option.some.inj (hr₂.symm.trans hr')
    obtain ⟨g₂, hg₂, -, hlater⟩ := (hf (x none).1).mono g₁
    obtain rfl : g₂ = g := Option.some.inj (hg₂.symm.trans hg')
    cases hfirst : r₁.seen with
    | true =>
      -- The first part has seen the flag, and both runs go on from there.
      have hlast := Run.seen_mono hcancel₂ hchecks₂ hfirst
      have hstopped : Run.seen { g₂ with cancelAt := r.cancelAt } = true :=
        Run.seen_mono (r := { g₁ with cancelAt := r.cancelAt }) rfl hlater
          (hsame.symm.trans hfirst)
      refine ⟨hlast.trans hstopped.symm, fun hnot => ?_⟩
      rw [hlast] at hnot
      cases hnot
    | false =>
      obtain ⟨hval, rfl⟩ := hagree hfirst
      rw [hval] at hr'
      have hback : Run.unstopped { g₁ with cancelAt := r.cancelAt } = g₁ := by
        have hnone : g₁.cancelAt = none := hfree₁
        rw [Run.unstopped, ← hnone]
      have hsecond := (hf (x none).1).agrees _ r₂ g₂ hfirst hr' (by rw [hback]; exact hg')
      refine ⟨hsecond.1, fun hnot => ?_⟩
      obtain ⟨hval', hstate⟩ := hsecond.2 hnot
      refine ⟨?_, hstate⟩
      rw [bind_none hx, ← hval', ← hval, ← hr₁]
      rfl

theorem ite {c : Prop} [Decidable c] (hx : Cooperative x) (hy : Cooperative y) :
    Cooperative (if c then x else y) := by
  split
  · exact hx
  · exact hy

/-! ### Whole computations -/

/-- The work after a computation. -/
def after (x : Polled π α) (r : Run π) : Run π := (x (some r)).2.getD r

section

variable (hx : Cooperative x) {r : Run π}

include hx

theorem apply_some : x (some r) = ((x (some r)).1, some (after x r)) := by
  obtain ⟨r', hr', -⟩ := hx.mono r
  rw [after, hr', Option.getD_some, ← hr']
  rfl

theorem cancelAt_after : (after x r).cancelAt = r.cancelAt := by
  obtain ⟨r', hr', hcancel, -⟩ := hx.mono r
  rw [after, hr', Option.getD_some]
  exact hcancel

theorem checks_le_after : r.checks ≤ (after x r).checks := by
  obtain ⟨r', hr', -, hchecks⟩ := hx.mono r
  rw [after, hr', Option.getD_some]
  exact hchecks

/-- A flag that has been seen has been seen in what follows. -/
theorem seen_after (h : r.seen = true) : (after x r).seen = true :=
  Run.seen_mono (cancelAt_after hx) (checks_le_after hx) h

/-- The flag is seen exactly if it is set before the computation has looked for the last time. -/
theorem seen_after_iff (hseen : r.seen = false) :
    (after x r).seen = r.cancelAt.any (· < (after x r.unstopped).checks) :=
  (hx.agrees r _ _ hseen (congrArg Prod.snd (apply_some hx)) (congrArg Prod.snd (apply_some hx))).1

/-- A computation that does not see the flag does what it does when nobody can set it. -/
theorem apply_of_not_seen (hnot : (after x r).seen = false) :
    x (some r) = ((x none).1, some { after x r.unstopped with cancelAt := r.cancelAt }) := by
  have hseen : r.seen = false := by
    refine Bool.eq_false_iff.mpr (fun hseen => ?_)
    rw [seen_after hx hseen] at hnot
    cases hnot
  have hagree := (hx.agrees r _ _ hseen (congrArg Prod.snd (apply_some hx))
    (congrArg Prod.snd (apply_some hx))).2 hnot
  rw [apply_some hx, hagree.1, hagree.2]

end

end Cooperative

end Polling
