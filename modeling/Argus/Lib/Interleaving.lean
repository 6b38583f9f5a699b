import Argus.Lib.Machine
import Mathlib.Data.Nat.Notation

/-!
# Calls that interleave over one store

Any number of calls share a store.  Each stands somewhere in its program, and a step executes the
next statement of one of them: it may change the store, and it moves that call.

* `World`, `machine` — the store and the calls, and all interleavings.
* `forall_update` — what a step establishes of its own call and keeps of the others.
* `Exclusive` — at most one call is in a section of its program; `Exclusive.update` keeps that,
  if a call enters only when no other one is inside.
-/

namespace Interleaving

variable {δ π ℓ : Type*}

/-- The store, and where every call stands. -/
structure World (δ π : Type*) where
  db : δ
  pcs : ℕ → π

/-- Label `(i, l)` executes the next statement of call `i`, with what it draws in `l`. -/
def machine (step : ℕ → ℓ → δ → π → Option (δ × π)) : Machine (World δ π) (ℕ × ℓ) where
  step w l := (step l.1 l.2 w.db (w.pcs l.1)).map fun r =>
    ⟨r.1, Function.update w.pcs l.1 r.2⟩

variable {step : ℕ → ℓ → δ → π → Option (δ × π)}

theorem machine_step {w w' : World δ π} {i : ℕ} {l : ℓ} :
    (machine step).step w (i, l) = some w' ↔
      ∃ db pc, step i l w.db (w.pcs i) = some (db, pc) ∧
        ⟨db, Function.update w.pcs i pc⟩ = w' := by
  simp [machine, Option.map_eq_some_iff]

/-- A run whose first step is one of call `i`. -/
theorem exec_cons {w w' : World δ π} {i : ℕ} {l : ℓ} {ls : List (ℕ × ℓ)} {db : δ} {pc : π}
    (hcall : step i l w.db (w.pcs i) = some (db, pc))
    (hrest : (machine step).exec ⟨db, Function.update w.pcs i pc⟩ ls = some w') :
    (machine step).exec w ((i, l) :: ls) = some w' :=
  (machine step).exec_cons_eq_some.mpr ⟨_, machine_step.mpr ⟨db, pc, hcall, rfl⟩, hrest⟩

/-- What holds of the call that moved and of the others holds of all. -/
theorem forall_update {P : π → Prop} {pcs : ℕ → π} {i : ℕ} {pc : π} (hself : P pc)
    (hothers : ∀ j, j ≠ i → P (pcs j)) (j : ℕ) : P (Function.update pcs i pc j) := by
  by_cases hj : j = i
  · rw [hj, Function.update_self]
    exact hself
  · rw [Function.update_of_ne hj]
    exact hothers j hj

/-! ### Sections with one call inside -/

/-- At most one call is at a place that satisfies `p`. -/
def Exclusive (p : ℕ → π → Prop) (pcs : ℕ → π) : Prop :=
  ∀ i j, p i (pcs i) → p j (pcs j) → i = j

theorem Exclusive.update {p : ℕ → π → Prop} {pcs : ℕ → π} (h : Exclusive p pcs) {i : ℕ} {pc : π}
    (henter : p i pc → p i (pcs i) ∨ ∀ j, j ≠ i → ¬ p j (pcs j)) :
    Exclusive p (Function.update pcs i pc) := by
  -- a call that was inside before keeps the others out, and one that enters finds nobody
  have hout : p i pc → ∀ j, j ≠ i → ¬ p j (pcs j) := by
    intro hpc j hj hpj
    rcases henter hpc with hinside | hnobody
    · exact hj (h j i hpj hinside)
    · exact hnobody j hj hpj
  intro j k hj hk
  by_cases hji : j = i
  · by_cases hki : k = i
    · exact hji.trans hki.symm
    · rw [hji, Function.update_self] at hj
      rw [Function.update_of_ne hki] at hk
      exact absurd hk (hout hj k hki)
  · rw [Function.update_of_ne hji] at hj
    by_cases hki : k = i
    · rw [hki, Function.update_self] at hk
      exact absurd hj (hout hk j hji)
    · rw [Function.update_of_ne hki] at hk
      exact h j k hj hk

end Interleaving
