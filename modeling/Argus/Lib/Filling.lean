import Mathlib.Logic.Function.Basic

/-!
# Maps that are filled one entry after another

* `assign` — an entry goes into a map under its key, if it has one, over what was there.
* `foldl_assign` — the last entry with a key is the one that stays.
* `find?_eq_of_unique` — where the entry with a property is the only one, its place does not
  matter.
-/

namespace Filling

variable {α κ : Type*} [DecidableEq κ]

def assign (key : α → Option κ) (m : κ → Option α) (a : α) : κ → Option α :=
  match key a with
  | none => m
  | some k => Function.update m k (some a)

theorem assign_apply (key : α → Option κ) (m : κ → Option α) (a : α) (k : κ) :
    assign key m a k = if key a = some k then some a else m k := by
  rw [assign]
  cases hkey : key a with
  | none => exact (if_neg nofun).symm
  | some k' =>
    show Function.update m k' (some a) k = _
    rw [Function.update_apply]
    by_cases hk : k = k'
    · rw [if_pos hk, if_pos (congrArg some hk.symm)]
    · rw [if_neg hk, if_neg fun h => hk (Option.some.inj h).symm]

theorem foldl_assign (key : α → Option κ) (m : κ → Option α) (l : List α) (k : κ) :
    l.foldl (assign key) m k = (l.reverse.find? fun a => decide (key a = some k)).or (m k) := by
  induction l generalizing m with
  | nil => rfl
  | cons a l ih =>
    rw [List.foldl_cons, ih, assign_apply, List.reverse_cons, List.find?_append]
    rw [List.find?_singleton, Option.or_assoc]
    by_cases hk : key a = some k
    · rw [if_pos hk, if_pos (decide_eq_true hk), Option.some_or]
    · rw [if_neg hk, if_neg (by simpa using hk), Option.none_or]

omit [DecidableEq κ] in
/-- An entry that is the only one with a property is found in any place. -/
theorem find?_eq_of_unique {p : α → Bool} {l l' : List α}
    (hunique : ∀ a ∈ l, ∀ b ∈ l, p a = true → p b = true → a = b) (hmem : ∀ a, a ∈ l' ↔ a ∈ l) :
    l'.find? p = l.find? p := by
  cases h : l.find? p with
  | none =>
    rw [List.find?_eq_none] at h ⊢
    exact fun a ha => h a ((hmem a).mp ha)
  | some a =>
    have ha : a ∈ l := List.mem_of_find?_eq_some h
    have hp : p a = true := List.find?_some h
    cases h' : l'.find? p with
    | none => exact absurd hp (List.find?_eq_none.mp h' a ((hmem a).mpr ha))
    | some b =>
      have hb : b ∈ l := (hmem b).mp (List.mem_of_find?_eq_some h')
      rw [hunique a ha b hb hp (List.find?_some h')]

end Filling
