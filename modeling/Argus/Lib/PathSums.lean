import Mathlib.Algebra.BigOperators.Group.List.Basic
import Mathlib.Algebra.Order.Ring.Nat
import Mathlib.Data.List.Infix
import Mathlib.Data.List.Nodup

/-!
# Sums over paths

Entries that are filed under paths, such as files under the folders they are in.  What is at a path
or below it adds up over the paths one name further down.

* `atPath`, `belowPath` — the entries filed at a path, and those filed at it or below it.
* `sum_belowPath` — what is below a path is what is at it and what is below its children.
-/

namespace PathSums

variable {α β : Type*}

/-- One name further down. -/
def IsChild (p c : List α) : Prop := ∃ name, c = p ++ [name]

theorem isChild_iff {p c : List α} : IsChild p c ↔ c ≠ [] ∧ c.dropLast = p := by
  constructor
  · rintro ⟨name, rfl⟩
    exact ⟨by simp, List.dropLast_concat⟩
  · rintro ⟨hne, rfl⟩
    exact ⟨c.getLast hne, (List.dropLast_append_getLast hne).symm⟩

theorem IsChild.leads {p c : List α} (h : IsChild p c) : p <+: c := by
  obtain ⟨name, rfl⟩ := h
  exact List.prefix_append p [name]

/-- A path further down begins with one child. -/
theorem isChild_prefix_unique {p c c' q : List α} (h : IsChild p c) (h' : IsChild p c')
    (hq : c <+: q) (hq' : c' <+: q) : c = c' := by
  obtain ⟨name, rfl⟩ := h
  obtain ⟨name', rfl⟩ := h'
  have hlength : (p ++ [name]).length = (p ++ [name']).length := by
    rw [List.length_append, List.length_append, List.length_singleton, List.length_singleton]
  exact (List.prefix_of_prefix_length_le hq hq' hlength.le).eq_of_length hlength

variable [DecidableEq α]

instance (p c : List α) : Decidable (IsChild p c) := decidable_of_iff _ isChild_iff.symm

/-- The entries filed at the path. -/
def atPath (entries : List (List α × β)) (p : List α) : List (List α × β) :=
  entries.filter fun e => e.1 == p

/-- The entries filed at the path, or further down. -/
def belowPath (entries : List (List α × β)) (p : List α) : List (List α × β) :=
  entries.filter fun e => p.isPrefixOf e.1

/-- A sum in which one summand counts. -/
theorem sum_map_ite_of_unique {l : List β} {a : β} (hnodup : l.Nodup) (ha : a ∈ l) (p : β → Prop)
    [DecidablePred p] (hp : ∀ b ∈ l, p b ↔ b = a) (x : ℕ) :
    (l.map fun b => if p b then x else 0).sum = x := by
  induction l with
  | nil => exact absurd ha List.not_mem_nil
  | cons b l ih =>
    obtain ⟨hb, hl⟩ := List.nodup_cons.mp hnodup
    rw [List.map_cons, List.sum_cons]
    by_cases hba : b = a
    · have hrest : (l.map fun b => if p b then x else 0).sum = 0 := by
        apply List.sum_eq_zero
        intro y hy
        obtain ⟨c, hc, rfl⟩ := List.mem_map.mp hy
        apply if_neg
        intro hpc
        have hca := (hp c (List.mem_cons_of_mem b hc)).mp hpc
        rw [hca, ← hba] at hc
        exact hb hc
      rw [if_pos ((hp b List.mem_cons_self).mpr hba), hrest, Nat.add_zero]
    · have hmem : a ∈ l := (List.mem_cons.mp ha).resolve_left (Ne.symm hba)
      rw [if_neg (fun hpb => hba ((hp b List.mem_cons_self).mp hpb)), Nat.zero_add]
      exact ih hl hmem (fun c hc => hp c (List.mem_cons_of_mem b hc))

theorem sum_map_filter (l : List β) (p : β → Bool) (v : β → ℕ) :
    ((l.filter p).map v).sum = (l.map fun b => if p b then v b else 0).sum := by
  induction l with
  | nil => rfl
  | cons b l ih =>
    rw [List.map_cons, List.sum_cons, ← ih, List.filter_cons]
    split
    · rw [List.map_cons, List.sum_cons]
    · rw [Nat.zero_add]

/-- What one entry adds below a path, it adds at the path or below one of its children. -/
theorem entry_below {paths : List (List α)} (hnodup : paths.Nodup) {q : List α}
    (hclosed : ∀ a, a <+: q → a ∈ paths) (p : List α) (x : ℕ) :
    (if p <+: q then x else 0) = (if q = p then x else 0) +
      ((paths.filter fun c => IsChild p c).map fun c => if c <+: q then x else 0).sum := by
  have hzero : (∀ c, IsChild p c → ¬ c <+: q) →
      ((paths.filter fun c => IsChild p c).map fun c => if c <+: q then x else 0).sum = 0 := by
    intro hnone
    apply List.sum_eq_zero
    intro y hy
    obtain ⟨c, hc, rfl⟩ := List.mem_map.mp hy
    exact if_neg (hnone c (of_decide_eq_true (List.mem_filter.mp hc).2))
  by_cases hpq : p <+: q
  · obtain ⟨s, rfl⟩ := hpq
    cases s with
    | nil =>
      have hnone : ∀ c, IsChild p c → ¬ c <+: p ++ [] := by
        rintro c ⟨name, rfl⟩ hc
        have hlength := hc.length_le
        simp at hlength
      rw [if_pos (List.prefix_append p []), if_pos (List.append_nil p), hzero hnone, Nat.add_zero]
    | cons name s =>
      have hchild : IsChild p (p ++ [name]) := ⟨name, rfl⟩
      have hprefix : p ++ [name] <+: p ++ name :: s := ⟨s, by simp⟩
      rw [if_pos (List.prefix_append p _), if_neg (by simp), Nat.zero_add]
      symm
      apply sum_map_ite_of_unique (hnodup.filter _)
        (List.mem_filter.mpr ⟨hclosed _ hprefix, decide_eq_true hchild⟩)
      intro c hc
      have hc' : IsChild p c := of_decide_eq_true (List.mem_filter.mp hc).2
      constructor
      · intro hcq
        exact isChild_prefix_unique hc' hchild hcq hprefix
      · rintro rfl
        exact hprefix
  · have hnone : ∀ c, IsChild p c → ¬ c <+: q := fun c hc hcq => hpq (hc.leads.trans hcq)
    have hne : q ≠ p := by
      rintro rfl
      exact hpq (List.prefix_refl q)
    rw [if_neg hpq, if_neg hne, hzero hnone]

theorem sum_belowPath_cons (e : List α × β) (entries : List (List α × β)) (p : List α)
    (v : List α × β → ℕ) :
    ((belowPath (e :: entries) p).map v).sum
      = (if p <+: e.1 then v e else 0) + ((belowPath entries p).map v).sum := by
  simp only [belowPath, sum_map_filter, List.isPrefixOf_iff_prefix, List.map_cons, List.sum_cons]

theorem sum_atPath_cons (e : List α × β) (entries : List (List α × β)) (p : List α)
    (v : List α × β → ℕ) :
    ((atPath (e :: entries) p).map v).sum
      = (if e.1 = p then v e else 0) + ((atPath entries p).map v).sum := by
  simp only [atPath, sum_map_filter, beq_iff_eq, List.map_cons, List.sum_cons]

/-- **Roll-up.**  If all paths on the way to an entry are there, what is below a path is what is at
    it and what is below its children. -/
theorem sum_belowPath {entries : List (List α × β)} {paths : List (List α)} (hnodup : paths.Nodup)
    (hclosed : ∀ e ∈ entries, ∀ a, a <+: e.1 → a ∈ paths) (p : List α) (v : List α × β → ℕ) :
    ((belowPath entries p).map v).sum = ((atPath entries p).map v).sum +
      ((paths.filter fun c => IsChild p c).map
        fun c => ((belowPath entries c).map v).sum).sum := by
  induction entries with
  | nil => simp [belowPath, atPath]
  | cons e entries ih =>
    rw [List.forall_mem_cons] at hclosed
    rw [sum_atPath_cons, sum_belowPath_cons, ih hclosed.2, entry_below hnodup hclosed.1 p (v e)]
    simp only [sum_belowPath_cons, List.sum_map_add]
    omega

end PathSums
