import Mathlib.Data.List.Perm.Basic
import Mathlib.Data.List.Sort

/-!
# Sorting with a comparator

A sort that takes a comparator is correct for consistent comparators only, those that put the
elements in classes and order the classes.

* `Consistent cmp l` — a comparator is that on the elements of `l`.
* `LawfulSort sort` — a sort that is correct for them.  Of other comparators nothing is known but
  that the elements are the same afterwards.
* `sort_eq_of_perm` — where only equal elements compare equal, the elements are all that matters.
* `sortOrKeep` — such a sort that leaves the elements as they are for every other comparator.
* `pairwise_insertionSort_of` — a relation that is an order on the elements of a list sorts it.
-/

namespace Comparators

variable {α : Type*}

structure Consistent (cmp : α → α → Ordering) (l : List α) : Prop where
  refl : ∀ a ∈ l, cmp a a = .eq
  symm : ∀ a ∈ l, ∀ b ∈ l, cmp a b = .eq → cmp b a = .eq
  eq_trans : ∀ a ∈ l, ∀ b ∈ l, ∀ c ∈ l, cmp a b = .eq → cmp b c = .eq → cmp a c = .eq
  lt_trans : ∀ a ∈ l, ∀ b ∈ l, ∀ c ∈ l, cmp a b = .lt → cmp b c = .lt → cmp a c = .lt
  gt_trans : ∀ a ∈ l, ∀ b ∈ l, ∀ c ∈ l, cmp a b = .gt → cmp b c = .gt → cmp a c = .gt

structure LawfulSort (sort : (α → α → Ordering) → List α → List α) : Prop where
  perm : ∀ cmp l, (sort cmp l).Perm l
  sorted : ∀ cmp l, Consistent cmp l → (sort cmp l).Pairwise fun a b => cmp a b ≠ .gt

namespace Consistent

variable {cmp : α → α → Ordering} {l : List α}

theorem of_subset (h : Consistent cmp l) {l' : List α} (hsub : l' ⊆ l) : Consistent cmp l' where
  refl a ha := h.refl a (hsub ha)
  symm a ha b hb := h.symm a (hsub ha) b (hsub hb)
  eq_trans a ha b hb c hc := h.eq_trans a (hsub ha) b (hsub hb) c (hsub hc)
  lt_trans a ha b hb c hc := h.lt_trans a (hsub ha) b (hsub hb) c (hsub hc)
  gt_trans a ha b hb c hc := h.gt_trans a (hsub ha) b (hsub hb) c (hsub hc)

theorem gt_of_lt (h : Consistent cmp l) {a b : α} (ha : a ∈ l) (hb : b ∈ l) (hab : cmp a b = .lt) :
    cmp b a = .gt := by
  cases hba : cmp b a with
  | lt =>
    have hloop := h.lt_trans a ha b hb a ha hab hba
    rw [h.refl a ha] at hloop
    cases hloop
  | eq =>
    rw [h.symm b hb a ha hba] at hab
    cases hab
  | gt => rfl

theorem lt_of_gt (h : Consistent cmp l) {a b : α} (ha : a ∈ l) (hb : b ∈ l) (hab : cmp a b = .gt) :
    cmp b a = .lt := by
  cases hba : cmp b a with
  | lt => rfl
  | eq =>
    rw [h.symm b hb a ha hba] at hab
    cases hab
  | gt =>
    have hloop := h.gt_trans a ha b hb a ha hab hba
    rw [h.refl a ha] at hloop
    cases hloop

theorem total (h : Consistent cmp l) {a b : α} (ha : a ∈ l) (hb : b ∈ l) :
    cmp a b ≠ .gt ∨ cmp b a ≠ .gt := by
  by_cases hab : cmp a b = .gt
  · right
    rw [h.lt_of_gt ha hb hab]
    exact Ordering.noConfusion
  · exact Or.inl hab

/-- What is not greater goes on to be not greater. -/
theorem trans (h : Consistent cmp l) {a b c : α} (ha : a ∈ l) (hb : b ∈ l) (hc : c ∈ l)
    (hab : cmp a b ≠ .gt) (hbc : cmp b c ≠ .gt) : cmp a c ≠ .gt := by
  intro hac
  have hca : cmp c a = .lt := h.lt_of_gt ha hc hac
  cases hab' : cmp a b with
  | gt => exact hab hab'
  | lt =>
    have hcb := h.lt_trans c hc a ha b hb hca hab'
    exact hbc (h.gt_of_lt hc hb hcb)
  | eq =>
    cases hbc' : cmp b c with
    | gt => exact hbc hbc'
    | lt =>
      have hba := h.lt_trans b hb c hc a ha hbc' hca
      rw [h.symm a ha b hb hab'] at hba
      cases hba
    | eq =>
      rw [h.eq_trans a ha b hb c hc hab' hbc'] at hac
      cases hac

/-- The elements can be sorted. -/
theorem exists_sorted (h : Consistent cmp l) :
    ∃ l' : List α, l'.Perm l ∧ l'.Pairwise fun a b => cmp a b ≠ .gt := by
  -- on the elements of the list the comparator is a total preorder
  let r : {a // a ∈ l} → {a // a ∈ l} → Prop := fun a b => cmp a.1 b.1 ≠ .gt
  have htotal : Std.Total r := ⟨fun a b => h.total a.2 b.2⟩
  have htrans : IsTrans {a // a ∈ l} r := ⟨fun a b c => h.trans a.2 b.2 c.2⟩
  have hdec : DecidableRel r := fun a b => inferInstanceAs (Decidable (cmp a.1 b.1 ≠ .gt))
  refine ⟨(l.attach.insertionSort r).map Subtype.val, ?_, ?_⟩
  · have hperm := (List.perm_insertionSort r l.attach).map Subtype.val
    rwa [List.attach_map_subtype_val] at hperm
  · rw [List.pairwise_map]
    exact List.pairwise_insertionSort r l.attach

end Consistent

/-- Two orders of some elements are sorted alike, where only equal elements compare equal. -/
theorem sort_eq_of_perm {sort : (α → α → Ordering) → List α → List α} (hsort : LawfulSort sort)
    {cmp : α → α → Ordering} {l l' : List α} (h : Consistent cmp l) (hperm : l'.Perm l)
    (heq : ∀ a ∈ l, ∀ b ∈ l, cmp a b = .eq → a = b) : sort cmp l' = sort cmp l := by
  have hsame : (sort cmp l').Perm (sort cmp l) :=
    ((hsort.perm cmp l').trans hperm).trans (hsort.perm cmp l).symm
  apply List.Perm.eq_of_pairwise ?_ (hsort.sorted cmp l' (h.of_subset hperm.subset))
    (hsort.sorted cmp l h) hsame
  intro a b ha hb hab hba
  have ha' : a ∈ l := hperm.subset ((hsort.perm cmp l').subset ha)
  have hb' : b ∈ l := (hsort.perm cmp l).subset hb
  apply heq a ha' b hb'
  cases hcmp : cmp a b with
  | eq => rfl
  | gt => exact absurd hcmp hab
  | lt => exact absurd (h.gt_of_lt ha' hb' hcmp) hba

open Classical in
/-- A sort that leaves the elements as they are where the comparator is not consistent. -/
noncomputable def sortOrKeep (cmp : α → α → Ordering) (l : List α) : List α :=
  if h : Consistent cmp l then Classical.choose h.exists_sorted else l

theorem sortOrKeep_of_not {cmp : α → α → Ordering} {l : List α} (h : ¬ Consistent cmp l) :
    sortOrKeep cmp l = l := dif_neg h

theorem lawfulSort_sortOrKeep : LawfulSort (sortOrKeep (α := α)) where
  perm cmp l := by
    rw [sortOrKeep]
    split
    · rename_i h
      exact (Classical.choose_spec h.exists_sorted).1
    · exact List.Perm.refl l
  sorted cmp l h := by
    rw [sortOrKeep, dif_pos h]
    exact (Classical.choose_spec h.exists_sorted).2

/-- A comparator has nothing to be inconsistent about with one element. -/
theorem consistent_of_forall_eq {cmp : α → α → Ordering} {l : List α} {x : α}
    (hrefl : cmp x x = .eq) (h : ∀ a ∈ l, a = x) : Consistent cmp l where
  refl a ha := by
    rw [h a ha]
    exact hrefl
  symm a ha b hb _ := by
    rw [h a ha, h b hb]
    exact hrefl
  eq_trans a ha _ _ c hc _ _ := by
    rw [h a ha, h c hc]
    exact hrefl
  lt_trans a ha b hb _ _ hab _ := by
    rw [h a ha, h b hb, hrefl] at hab
    cases hab
  gt_trans a ha b hb _ _ hab _ := by
    rw [h a ha, h b hb, hrefl] at hab
    cases hab

/-- Insertion sort with a relation that is total and transitive on the elements of the list. -/
theorem pairwise_insertionSort_of {r : α → α → Prop} [DecidableRel r] {l : List α}
    (htotal : ∀ a ∈ l, ∀ b ∈ l, r a b ∨ r b a)
    (htrans : ∀ a ∈ l, ∀ b ∈ l, ∀ c ∈ l, r a b → r b c → r a c) :
    (l.insertionSort r).Pairwise r := by
  let s : { a // a ∈ l } → { a // a ∈ l } → Prop := fun a b => r a.val b.val
  have : DecidableRel s := fun a b => inferInstanceAs (Decidable (r a.val b.val))
  have : Std.Total s := ⟨fun a b => htotal a.val a.property b.val b.property⟩
  have : IsTrans { a // a ∈ l } s :=
    ⟨fun a b c => htrans a.val a.property b.val b.property c.val c.property⟩
  have hsorted := List.pairwise_insertionSort s l.attach
  have hmap : (l.attach.insertionSort s).map Subtype.val = l.insertionSort r := by
    rw [List.map_insertionSort s r Subtype.val l.attach (fun _ _ _ _ => Iff.rfl),
      List.attach_map_subtype_val]
  rw [← hmap, List.pairwise_map]
  exact hsorted

end Comparators
