import Mathlib.Algebra.BigOperators.Group.List.Basic
import Mathlib.Algebra.GroupWithZero.Nat

/-!
# Counting the elements of lists

* `perm_of_sums` — lists that weigh the same, whatever their elements weigh.
* `count_flatMap_nodup` — how often an element comes in several lists, each of which has it once.
-/

namespace Counting

variable {α β : Type*} [BEq α] [LawfulBEq α]

theorem sum_map_indicator [DecidableEq α] (l : List α) (a : α) :
    (l.map fun b => if b = a then 1 else 0).sum = l.count a := by
  induction l with
  | nil => rfl
  | cons b l ih =>
    rw [List.map_cons, List.sum_cons, ih, List.count_cons, Nat.add_comm]
    simp only [beq_iff_eq]

theorem perm_of_sums [DecidableEq α] {l l' : List α}
    (h : ∀ g : α → ℕ, (l.map g).sum = (l'.map g).sum) : l.Perm l' := by
  rw [List.perm_iff_count]
  intro a
  rw [← sum_map_indicator, ← sum_map_indicator, h]

theorem count_flatMap_nodup {l : List β} {f : β → List α} (h : ∀ b ∈ l, (f b).Nodup) (a : α) :
    (l.flatMap f).count a = l.countP fun b => decide (a ∈ f b) := by
  induction l with
  | nil => rfl
  | cons b l ih =>
    rw [List.forall_mem_cons] at h
    rw [List.flatMap_cons, List.count_append, ih h.2, List.countP_cons, h.1.count, Nat.add_comm]
    simp only [decide_eq_true_eq]

end Counting
