import Mathlib.Data.List.Induction
import Mathlib.Data.List.Perm.Basic

/-!
# Groups in the order they are first seen

* `push`, `grouped` — values sorted into groups by a key, as a `Map` with arrays for values keeps
  them.
* `perm_grouped` — nothing is lost or doubled by it, and no group is empty (`ne_nil_of_mem_grouped`).
-/

namespace Grouping

variable {κ α : Type*} [DecidableEq κ]

/-- Into its group, or a new one at the end. -/
def push : List (κ × List α) → κ → α → List (κ × List α)
  | [], k, x => [(k, [x])]
  | (j, xs) :: groups, k, x =>
    if j = k then (j, xs ++ [x]) :: groups else (j, xs) :: push groups k x

/-- The groups of values with their keys. -/
def grouped (entries : List (κ × α)) : List (κ × List α) :=
  entries.foldl (fun groups e => push groups e.1 e.2) []

theorem grouped_concat (entries : List (κ × α)) (e : κ × α) :
    grouped (entries ++ [e]) = push (grouped entries) e.1 e.2 := by
  rw [grouped, List.foldl_append]
  rfl

theorem perm_push (groups : List (κ × List α)) (k : κ) (x : α) :
    ((push groups k x).flatMap Prod.snd).Perm (groups.flatMap Prod.snd ++ [x]) := by
  induction groups with
  | nil => exact List.Perm.refl _
  | cons g groups ih =>
    obtain ⟨j, xs⟩ := g
    rw [push]
    split
    · rw [List.flatMap_cons, List.flatMap_cons, List.append_assoc, List.append_assoc]
      exact List.perm_append_comm.append_left xs
    · rw [List.flatMap_cons, List.flatMap_cons, List.append_assoc]
      exact ih.append_left xs

theorem ne_nil_of_mem_push {groups : List (κ × List α)} (hne : ∀ g ∈ groups, g.2 ≠ []) {k : κ}
    {x : α} : ∀ g ∈ push groups k x, g.2 ≠ [] := by
  induction groups with
  | nil =>
    intro g hg
    rw [List.mem_singleton.mp hg]
    exact List.cons_ne_nil x []
  | cons h groups ih =>
    obtain ⟨j, xs⟩ := h
    rw [List.forall_mem_cons] at hne
    rw [push]
    split
    · rw [List.forall_mem_cons]
      exact ⟨List.append_ne_nil_of_right_ne_nil xs (List.cons_ne_nil x []), hne.2⟩
    · rw [List.forall_mem_cons]
      exact ⟨hne.1, ih hne.2⟩

theorem perm_grouped (entries : List (κ × α)) :
    ((grouped entries).flatMap Prod.snd).Perm (entries.map Prod.snd) := by
  induction entries using List.reverseRecOn with
  | nil => exact List.Perm.refl _
  | append_singleton entries e ih =>
    rw [grouped_concat, List.map_append]
    exact (perm_push _ _ _).trans (ih.append_right [e.2])

theorem ne_nil_of_mem_grouped (entries : List (κ × α)) : ∀ g ∈ grouped entries, g.2 ≠ [] := by
  induction entries using List.reverseRecOn with
  | nil => exact fun g hg => nomatch hg
  | append_singleton entries e ih =>
    rw [grouped_concat]
    exact ne_nil_of_mem_push ih

theorem mem_grouped {entries : List (κ × α)} {x : α} :
    (∃ g ∈ grouped entries, x ∈ g.2) ↔ ∃ e ∈ entries, e.2 = x := by
  rw [← List.mem_map, ← (perm_grouped entries).mem_iff, List.mem_flatMap]

end Grouping
