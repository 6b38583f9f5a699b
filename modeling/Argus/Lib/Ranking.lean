import Mathlib.Data.List.Sort
import Mathlib.Data.Finset.Card
import Mathlib.Data.Finset.Image
import Mathlib.Data.Finset.Dedup

/-!
# Ranks in a list, and the first element of each group

A list that is sorted with the best element first, and rules that pick elements by what
stands in front of them.

* `ahead xs b` — the elements in front of `b`; its length is the rank of `b`.
* `firsts key xs` — the first element of every group of elements with one key.
* `Bucketed key n xs b` — `b` is the first of its group and the group is one of the first `n`;
  these are the elements of `(firsts key xs).take n` (`mem_take_firsts`).  A sublist keeps the
  elements it has in their place (`Bucketed.of_sublist`).
* `Precedes r l` — the order a stable sort of `l` by `r` puts the elements in
  (`pairwise_insertionSort`).
* `FirstBest r l` — the element that a search in the sorted list finds
  (`firstBest_of_find?`).
-/

namespace Ranking

variable {α κ : Type*} [DecidableEq α] [DecidableEq κ]

/-- The elements in front of the first `b`. -/
def ahead (xs : List α) (b : α) : List α := xs.takeWhile (fun a => decide (a ≠ b))

theorem ahead_cons_self (xs : List α) (b : α) : ahead (b :: xs) b = [] := by
  simp [ahead]

theorem ahead_cons_of_ne {x b : α} (h : x ≠ b) (xs : List α) :
    ahead (x :: xs) b = x :: ahead xs b := by
  simp [ahead, h]

/-- The first `n` elements are those with less than `n` in front of them. -/
theorem mem_take_iff {xs : List α} {b : α} (hb : b ∈ xs) (n : ℕ) :
    b ∈ xs.take n ↔ (ahead xs b).length < n := by
  induction xs generalizing n with
  | nil => exact absurd hb List.not_mem_nil
  | cons x xs ih =>
    cases n with
    | zero => simp
    | succ n =>
      rw [List.take_succ_cons, List.mem_cons]
      by_cases hx : x = b
      · subst hx
        simp [ahead_cons_self]
      · rw [ahead_cons_of_ne hx, List.length_cons, Nat.succ_lt_succ_iff,
          ← ih (List.mem_of_ne_of_mem (Ne.symm hx) hb)]
        simp [Ne.symm hx]

/-- A sublist has less in front of its elements. -/
theorem ahead_sublist {xs ys : List α} (h : ys.Sublist xs) (hnodup : xs.Nodup) {b : α}
    (hb : b ∈ ys) : (ahead ys b).Sublist (ahead xs b) := by
  induction h with
  | slnil => exact absurd hb List.not_mem_nil
  | @cons ys xs x hsub ih =>
    rw [List.nodup_cons] at hnodup
    have hx : x ≠ b := fun heq => hnodup.1 (heq ▸ hsub.subset hb)
    rw [ahead_cons_of_ne hx]
    exact (ih hnodup.2 hb).cons x
  | @cons_cons ys xs x hsub ih =>
    rw [List.nodup_cons] at hnodup
    by_cases hx : x = b
    · subst hx
      rw [ahead_cons_self]
      exact List.nil_sublist _
    · rw [ahead_cons_of_ne hx, ahead_cons_of_ne hx]
      exact (ih hnodup.2 (List.mem_of_ne_of_mem (Ne.symm hx) hb)).cons_cons x

/-- In a sorted list the elements in front of `b` are those that the order puts there. -/
theorem mem_ahead_iff {r : α → α → Prop} (hasymm : ∀ a b, r a b → ¬ r b a) {xs : List α}
    (hsorted : xs.Pairwise r) {a b : α} (hb : b ∈ xs) :
    a ∈ ahead xs b ↔ a ∈ xs ∧ r a b := by
  induction xs with
  | nil => exact absurd hb List.not_mem_nil
  | cons x xs ih =>
    rw [List.pairwise_cons] at hsorted
    by_cases hx : x = b
    · subst hx
      rw [ahead_cons_self]
      simp only [List.not_mem_nil, false_iff, not_and]
      intro ha hab
      rcases List.mem_cons.mp ha with rfl | hmem
      · exact hasymm a a hab hab
      · exact hasymm a x hab (hsorted.1 a hmem)
    · have hmem := List.mem_of_ne_of_mem (Ne.symm hx) hb
      rw [ahead_cons_of_ne hx, List.mem_cons, ih hsorted.2 hmem, List.mem_cons]
      constructor
      · rintro (rfl | ⟨ha, hab⟩)
        · exact ⟨Or.inl rfl, hsorted.1 b hmem⟩
        · exact ⟨Or.inr ha, hab⟩
      · rintro ⟨rfl | ha, hab⟩
        · exact Or.inl rfl
        · exact Or.inr ⟨ha, hab⟩

/-! ### The first of each group -/

/-- The elements whose key is neither in `seen` nor that of an element in front. -/
def firstsAfter (key : α → κ) : List κ → List α → List α
  | _, [] => []
  | seen, x :: xs =>
    if key x ∈ seen then firstsAfter key seen xs
    else x :: firstsAfter key (seen ++ [key x]) xs

def firsts (key : α → κ) (xs : List α) : List α := firstsAfter key [] xs

/-- `b` is the first of its group, and less than `n` groups start in front of it. -/
def Bucketed (key : α → κ) (n : ℕ) (xs : List α) (b : α) : Prop :=
  key b ∉ (ahead xs b).map key ∧ ((ahead xs b).map key).toFinset.card < n

omit [DecidableEq α] in
theorem key_of_mem_firstsAfter {key : α → κ} {seen : List κ} {xs : List α} {b : α}
    (h : b ∈ firstsAfter key seen xs) : key b ∉ seen := by
  induction xs generalizing seen with
  | nil => exact absurd h List.not_mem_nil
  | cons x xs ih =>
    rw [firstsAfter] at h
    split at h
    · exact ih h
    · rename_i hx
      rcases List.mem_cons.mp h with rfl | hmem
      · exact hx
      · exact fun hb => ih hmem (List.mem_append_left _ hb)

theorem mem_take_firstsAfter {key : α → κ} {xs : List α} {b : α} (hb : b ∈ xs)
    (seen : List κ) (n : ℕ) :
    b ∈ (firstsAfter key seen xs).take n ↔ key b ∉ seen ∧ key b ∉ (ahead xs b).map key ∧
      (((ahead xs b).map key).toFinset \ seen.toFinset).card < n := by
  induction xs generalizing seen n with
  | nil => exact absurd hb List.not_mem_nil
  | cons x xs ih =>
    rw [firstsAfter]
    by_cases hx : x = b
    · subst hx
      rw [ahead_cons_self]
      split
      · rename_i hseen
        simp only [hseen, not_true_eq_false, false_and, iff_false]
        exact fun hmem => key_of_mem_firstsAfter (List.mem_of_mem_take hmem) hseen
      · rename_i hseen
        cases n <;> simp [hseen]
    · have hmem := List.mem_of_ne_of_mem (Ne.symm hx) hb
      rw [ahead_cons_of_ne hx, List.map_cons, List.toFinset_cons, List.mem_cons, not_or]
      split
      · rename_i hseen
        have hdiff : insert (key x) ((ahead xs b).map key).toFinset \ seen.toFinset
            = ((ahead xs b).map key).toFinset \ seen.toFinset :=
          Finset.insert_sdiff_of_mem _ (List.mem_toFinset.mpr hseen)
        rw [ih hmem, hdiff]
        constructor
        · rintro ⟨hnot, hfirst, hcard⟩
          exact ⟨hnot, ⟨fun heq => hnot (heq ▸ hseen), hfirst⟩, hcard⟩
        · rintro ⟨hnot, ⟨-, hfirst⟩, hcard⟩
          exact ⟨hnot, hfirst, hcard⟩
      · rename_i hseen
        cases n with
        | zero => simp
        | succ n =>
          -- the group of `x` is one more
          have hcard : (insert (key x) ((ahead xs b).map key).toFinset \ seen.toFinset).card
              = (((ahead xs b).map key).toFinset \ (seen ++ [key x]).toFinset).card + 1 := by
            have hsplit : insert (key x) ((ahead xs b).map key).toFinset \ seen.toFinset
                = insert (key x)
                  (((ahead xs b).map key).toFinset \ (seen ++ [key x]).toFinset) := by
              ext k
              by_cases hk : k = key x
              · simp [hk, hseen]
              · simp [hk]
            rw [hsplit, Finset.card_insert_of_notMem (by simp)]
          rw [List.take_succ_cons, List.mem_cons, ih hmem, hcard, Nat.succ_lt_succ_iff,
            List.mem_append, not_or, List.mem_singleton]
          simp only [Ne.symm hx, false_or, and_assoc]

/-- The first elements of the first `n` groups. -/
theorem mem_take_firsts {key : α → κ} {xs : List α} {b : α} (hb : b ∈ xs) (n : ℕ) :
    b ∈ (firsts key xs).take n ↔ Bucketed key n xs b := by
  rw [firsts, mem_take_firstsAfter hb]
  simp [Bucketed]

omit [DecidableEq α] in
theorem firstsAfter_sublist {key : α → κ} {seen : List κ} {xs : List α} :
    (firstsAfter key seen xs).Sublist xs := by
  induction xs generalizing seen with
  | nil => exact List.Sublist.refl _
  | cons x xs ih =>
    rw [firstsAfter]
    split
    · exact ih.cons x
    · exact ih.cons_cons x

omit [DecidableEq κ] in
theorem mem_of_seen {k k' : κ} {seen keys : List κ} (h : k' ∈ seen) :
    k ∈ (seen ++ [k']) ++ keys ↔ k ∈ seen ++ keys := by
  simp only [List.mem_append, List.mem_singleton]
  constructor
  · rintro ((hmem | rfl) | hmem)
    · exact Or.inl hmem
    · exact Or.inl h
    · exact Or.inr hmem
  · rintro (hmem | hmem)
    · exact Or.inl (Or.inl hmem)
    · exact Or.inr hmem

/-- The groups start in the same places when the first elements are the same. -/
theorem firstsAfter_congr {κ' : Type*} [DecidableEq κ'] {key : α → κ} {key' : α → κ'}
    {seen : List κ} {seen' : List κ'} {xs : List α} (hnodup : xs.Nodup)
    (h : ∀ b ∈ xs, key b ∈ seen ++ (ahead xs b).map key ↔
      key' b ∈ seen' ++ (ahead xs b).map key') :
    firstsAfter key seen xs = firstsAfter key' seen' xs := by
  induction xs generalizing seen seen' with
  | nil => rfl
  | cons x xs ih =>
    rw [List.nodup_cons] at hnodup
    have hx : key x ∈ seen ↔ key' x ∈ seen' := by
      have hself := h x List.mem_cons_self
      rwa [ahead_cons_self, List.map_nil, List.append_nil, List.map_nil, List.append_nil] at hself
    have htail : ∀ b ∈ xs, key b ∈ (seen ++ [key x]) ++ (ahead xs b).map key ↔
        key' b ∈ (seen' ++ [key' x]) ++ (ahead xs b).map key' := by
      intro b hb
      have hne : x ≠ b := fun heq => hnodup.1 (heq ▸ hb)
      have hcons := h b (List.mem_cons_of_mem x hb)
      rw [ahead_cons_of_ne hne] at hcons
      simpa only [List.append_assoc, List.singleton_append, List.map_cons] using hcons
    rw [firstsAfter, firstsAfter]
    by_cases hseen : key x ∈ seen
    · rw [if_pos hseen, if_pos (hx.mp hseen)]
      refine ih hnodup.2 (fun b hb => ?_)
      rw [← mem_of_seen hseen, ← mem_of_seen (hx.mp hseen)]
      exact htail b hb
    · rw [if_neg hseen, if_neg (fun h' => hseen (hx.mpr h')), ih hnodup.2 htail]

/-- Only the first elements of the groups matter, not the keys. -/
theorem bucketed_congr {κ' : Type*} [DecidableEq κ'] {key : α → κ} {key' : α → κ'}
    {xs : List α} (hnodup : xs.Nodup)
    (h : ∀ b ∈ xs, key b ∈ (ahead xs b).map key ↔ key' b ∈ (ahead xs b).map key') {b : α}
    (hb : b ∈ xs) (n : ℕ) : Bucketed key n xs b ↔ Bucketed key' n xs b := by
  have hfirsts : firsts key xs = firsts key' xs := firstsAfter_congr hnodup (by simpa using h)
  rw [← mem_take_firsts hb, ← mem_take_firsts hb, hfirsts]

theorem Bucketed.of_sublist {key : α → κ} {n : ℕ} {xs ys : List α} {b : α}
    (h : Bucketed key n xs b) (hsub : ys.Sublist xs) (hnodup : xs.Nodup) (hb : b ∈ ys) :
    Bucketed key n ys b := by
  have hsubset : (ahead ys b).map key ⊆ (ahead xs b).map key :=
    ((ahead_sublist hsub hnodup hb).map key).subset
  refine ⟨fun hmem => h.1 (hsubset hmem), lt_of_le_of_lt (Finset.card_le_card ?_) h.2⟩
  intro k hk
  rw [List.mem_toFinset] at hk ⊢
  exact hsubset hk

theorem Bucketed.mono {key : α → κ} {n m : ℕ} {xs : List α} {b : α} (h : Bucketed key n xs b)
    (hnm : n ≤ m) : Bucketed key m xs b := ⟨h.1, lt_of_lt_of_le h.2 hnm⟩

/-- With room for every element only the first of each group counts. -/
theorem bucketed_of_length_lt {key : α → κ} {n : ℕ} {xs : List α} {b : α} (h : xs.length < n) :
    Bucketed key n xs b ↔ key b ∉ (ahead xs b).map key := by
  refine and_iff_left_of_imp (fun _ => ?_)
  calc ((ahead xs b).map key).toFinset.card ≤ ((ahead xs b).map key).length :=
        List.toFinset_card_le _
    _ = (ahead xs b).length := List.length_map _
    _ ≤ xs.length := (List.takeWhile_sublist _).length_le
    _ < n := h

omit [DecidableEq α] in
theorem nodup_firstsAfter {key : α → κ} {seen : List κ} {xs : List α} :
    ((firstsAfter key seen xs).map key).Nodup := by
  induction xs generalizing seen with
  | nil => exact List.nodup_nil
  | cons x xs ih =>
    rw [firstsAfter]
    split
    · exact ih
    · rw [List.map_cons, List.nodup_cons]
      refine ⟨fun hmem => ?_, ih⟩
      obtain ⟨y, hy, heq⟩ := List.mem_map.mp hmem
      exact key_of_mem_firstsAfter hy (heq ▸ List.mem_append_right seen List.mem_cons_self)

omit [DecidableEq α] in
/-- Whatever is not seen yet has the first of its group at its place or in front of it. -/
theorem exists_firstsAfter {key : α → κ} {r : α → α → Prop} {seen : List κ} {xs : List α}
    (hxs : xs.Pairwise r) {b : α} (hb : b ∈ xs) (hseen : key b ∉ seen) :
    ∃ a ∈ firstsAfter key seen xs, key a = key b ∧ (a = b ∨ r a b) := by
  induction xs generalizing seen with
  | nil => exact absurd hb List.not_mem_nil
  | cons x xs ih =>
    rw [List.pairwise_cons] at hxs
    rw [firstsAfter]
    by_cases hx : key x = key b
    · rw [if_neg (hx ▸ hseen)]
      refine ⟨x, List.mem_cons_self, hx, ?_⟩
      rcases List.mem_cons.mp hb with rfl | hmem
      · exact Or.inl rfl
      · exact Or.inr (hxs.1 b hmem)
    · have hmem : b ∈ xs := List.mem_of_ne_of_mem (fun heq => hx (heq ▸ rfl)) hb
      split
      · exact ih hxs.2 hmem hseen
      · have hseen' : key b ∉ seen ++ [key x] := by
          rw [List.mem_append, List.mem_singleton, not_or]
          exact ⟨hseen, Ne.symm hx⟩
        obtain ⟨a, ha, hab⟩ := ih hxs.2 hmem hseen'
        exact ⟨a, List.mem_cons_of_mem x ha, hab⟩

omit [DecidableEq α] in
theorem firstsAfter_append (key : α → κ) (seen : List κ) (xs ys : List α) :
    firstsAfter key seen (xs ++ ys) = firstsAfter key seen xs
      ++ firstsAfter key (seen ++ (firstsAfter key seen xs).map key) ys := by
  induction xs generalizing seen with
  | nil => simp [firstsAfter]
  | cons x xs ih =>
    rw [List.cons_append, firstsAfter, firstsAfter]
    split
    · exact ih seen
    · rw [ih, List.cons_append, List.map_cons, List.append_assoc, List.singleton_append]

omit [DecidableEq α] in
/-- The first ones of the first elements come first. -/
theorem firsts_take_initial (key : α → κ) (n : ℕ) (xs : List α) :
    firsts key (xs.take n) <+: firsts key xs := by
  have happ := firstsAfter_append key [] (xs.take n) (xs.drop n)
  rw [List.take_append_drop] at happ
  exact ⟨_, happ.symm⟩

omit [DecidableEq α] in
/-- There are as many firsts as groups. -/
theorem length_firsts (key : α → κ) (xs : List α) :
    (firsts key xs).length = (xs.map key).toFinset.card := by
  have hset : ((firsts key xs).map key).toFinset = (xs.map key).toFinset := by
    ext k
    rw [List.mem_toFinset, List.mem_toFinset]
    constructor
    · intro h
      have hsub : (firsts key xs).Sublist xs := firstsAfter_sublist
      exact (hsub.map key).subset h
    · intro h
      obtain ⟨b, hb, rfl⟩ := List.mem_map.mp h
      have htrue : xs.Pairwise (fun _ _ => True) := List.pairwise_of_forall fun _ _ => trivial
      have hseen : key b ∉ ([] : List κ) := List.not_mem_nil
      obtain ⟨a, ha, hab, -⟩ := exists_firstsAfter htrue hb hseen
      exact List.mem_map.mpr ⟨a, ha, hab⟩
  have hnodup : ((firsts key xs).map key).Nodup := nodup_firstsAfter
  rw [← hset, List.toFinset_card_of_nodup hnodup, List.length_map]

/-! ### Stable sorting -/

omit [DecidableEq α]

/-- The order of a stable sort by `r`: elements that `r` does not tell apart stay as they stand
    in `l`. -/
def Precedes (r : α → α → Prop) (l : List α) (a b : α) : Prop :=
  r a b ∧ (r b a → [a, b].Sublist l)

theorem pair_sublist_total {l : List α} {a b : α} (ha : a ∈ l) (hb : b ∈ l) (hne : a ≠ b) :
    [a, b].Sublist l ∨ [b, a].Sublist l := by
  induction l with
  | nil => exact absurd ha List.not_mem_nil
  | cons x l ih =>
    rcases List.mem_cons.mp ha with rfl | ha'
    · exact Or.inl ((List.singleton_sublist.mpr (List.mem_of_ne_of_mem hne.symm hb)).cons_cons a)
    · rcases List.mem_cons.mp hb with rfl | hb'
      · exact Or.inr ((List.singleton_sublist.mpr ha').cons_cons b)
      · exact (ih ha' hb').imp (fun h => h.cons x) (fun h => h.cons x)

theorem pair_sublist_asymm {l : List α} (hnodup : l.Nodup) {a b : α} (h : [a, b].Sublist l) :
    ¬ [b, a].Sublist l := by
  intro h'
  induction l with
  | nil => simp at h
  | cons x l ih =>
    rw [List.nodup_cons] at hnodup
    cases h with
    | cons _ h =>
      cases h' with
      | cons _ h' => exact ih hnodup.2 h h'
      | cons_cons _ h' => exact hnodup.1 (h.subset (by simp))
    | cons_cons _ h =>
      cases h' with
      | cons _ h' => exact hnodup.1 (h'.subset (by simp))
      | cons_cons _ h' => exact hnodup.1 (h.subset (by simp))

theorem Precedes.asymm {r : α → α → Prop} {l : List α} (hnodup : l.Nodup) {a b : α}
    (h : Precedes r l a b) : ¬ Precedes r l b a := by
  intro h'
  exact pair_sublist_asymm hnodup (h.2 h'.1) (h'.2 h.1)

theorem Precedes.of_sublist {r : α → α → Prop} {l l' : List α} {a b : α}
    (h : Precedes r l a b) (hsub : l.Sublist l') : Precedes r l' a b :=
  ⟨h.1, fun hba => (h.2 hba).trans hsub⟩

variable (r : α → α → Prop) [DecidableRel r] [Std.Total r] [IsTrans α r]

/-- Insertion sort is stable. -/
theorem pairwise_insertionSort {l : List α} (hnodup : l.Nodup) :
    (l.insertionSort r).Pairwise (Precedes r l) := by
  have hperm := List.perm_insertionSort r l
  have hsorted := List.pairwise_insertionSort r l
  have hnodup' : (l.insertionSort r).Nodup := hperm.nodup_iff.mpr hnodup
  rw [List.pairwise_iff_forall_sublist] at hsorted ⊢
  intro a b hab
  refine ⟨hsorted hab, fun hba => ?_⟩
  have ha : a ∈ l := hperm.subset (hab.subset (by simp))
  have hb : b ∈ l := hperm.subset (hab.subset (by simp))
  have hne : a ≠ b := by
    rintro rfl
    exact pair_sublist_asymm hnodup' hab hab
  refine (pair_sublist_total ha hb hne).resolve_right (fun hsub => ?_)
  exact pair_sublist_asymm hnodup' hab (List.pair_sublist_insertionSort hba hsub)

/-- A stable sort of a sublist is a sublist of the sorted list. -/
theorem insertionSort_filter {l : List α} (hnodup : l.Nodup) (p : α → Bool) :
    (l.filter p).insertionSort r = (l.insertionSort r).filter p := by
  have hsub : (l.filter p).Sublist l := List.filter_sublist
  refine List.Perm.eq_of_pairwise (fun a b _ _ (hab : Precedes r l a b) hba =>
    absurd hba (hab.asymm hnodup)) ?_ ?_ ?_
  · exact (pairwise_insertionSort r (hnodup.sublist hsub)).imp (fun h => h.of_sublist hsub)
  · exact (pairwise_insertionSort r hnodup).filter p
  · exact (List.perm_insertionSort r _).trans ((List.perm_insertionSort r l).symm.filter p)

/-! ### The first of the best -/

/-- `a` is the best element of the list; of equally good ones it is the first. -/
def FirstBest (r : α → α → Prop) (l : List α) (a : α) : Prop :=
  ∃ before after, l = before ++ a :: after ∧ (∀ x ∈ before, ¬ r x a) ∧ ∀ y ∈ after, r a y

omit [DecidableEq α] in
theorem FirstBest.best {r : α → α → Prop} [Std.Total r] {l : List α} {a b : α}
    (h : FirstBest r l a) (hb : b ∈ l) : r a b := by
  obtain ⟨before, after, rfl, hworse, hbest⟩ := h
  rcases List.mem_append.mp hb with hbefore | hrest
  · exact (Std.Total.total a b).resolve_right (hworse b hbefore)
  · rcases List.mem_cons.mp hrest with rfl | hafter
    · exact (Std.Total.total b b).elim id id
    · exact hbest b hafter

/-- Every other place of the list holds an element that it outdoes. -/
theorem FirstBest.outdoes {r : α → α → Prop} {l : List α} {a : α} (h : FirstBest r l a)
    {before after : List α} {b : α} (hsplit : l = before ++ b :: after) :
    a = b ∨ a ∈ before ∧ r a b ∨ a ∈ after ∧ ¬ r b a := by
  obtain ⟨before', after', hl, hworse, hbest⟩ := h
  rcases List.append_eq_append_iff.mp (hl.symm.trans hsplit) with
    ⟨middle, hbefore, htail⟩ | ⟨middle, hbefore, htail⟩
  · cases middle with
    | nil => exact .inl (List.cons.inj htail).1
    | cons x middle =>
      obtain ⟨rfl, rfl⟩ := List.cons.inj htail
      refine .inr (.inl ⟨?_, hbest b (by simp)⟩)
      rw [hbefore]
      simp
  · cases middle with
    | nil => exact .inl (List.cons.inj htail).1.symm
    | cons x middle =>
      obtain ⟨rfl, rfl⟩ := List.cons.inj htail
      refine .inr (.inr ⟨by simp, hworse b ?_⟩)
      rw [hbefore]
      simp

omit [Std.Total r] in
/-- Where a search in a sorted list ends after an element is inserted. -/
theorem find?_orderedInsert {s : List α} (hs : s.Pairwise r) (p : α → Bool) (a : α) :
    (s.orderedInsert r a).find? p = if p a then
      (match s.find? p with
        | some b => if r a b then some a else some b
        | none => some a)
      else s.find? p := by
  induction s with
  | nil => simp [List.find?_cons]; cases p a <;> rfl
  | cons x s ih =>
    obtain ⟨hx, hs⟩ := List.pairwise_cons.mp hs
    rw [List.orderedInsert_cons]
    by_cases hax : r a x
    · rw [if_pos hax, List.find?_cons]
      cases hpa : p a with
      | false => rfl
      | true =>
        rw [if_pos rfl]
        dsimp only
        -- `a` comes before all of them
        cases hfind : (x :: s).find? p with
        | none => rfl
        | some b =>
          have hab : r a b := by
            rcases List.mem_cons.mp (List.mem_of_find?_eq_some hfind) with rfl | hb
            · exact hax
            · exact Trans.trans hax (hx b hb)
          simp [hab]
    · rw [if_neg hax, List.find?_cons, List.find?_cons, ih hs]
      cases hpx : p x with
      | false => rfl
      | true =>
        dsimp only
        rw [if_neg hax]
        split <;> rfl

/-- **Searching a sorted list.**  The first of the best that is asked for. -/
theorem firstBest_of_find? {l : List α} {p : α → Bool} {a : α}
    (h : (l.insertionSort r).find? p = some a) : FirstBest r (l.filter p) a := by
  induction l generalizing a with
  | nil => cases h
  | cons x l ih =>
    rw [List.insertionSort_cons, find?_orderedInsert r (List.pairwise_insertionSort r l)] at h
    cases hpx : p x with
    | false =>
      rw [hpx] at h
      rw [List.filter_cons_of_neg (by simp [hpx])]
      exact ih h
    | true =>
      rw [hpx, if_pos rfl] at h
      rw [List.filter_cons_of_pos hpx]
      cases hfind : (l.insertionSort r).find? p with
      | none =>
        rw [hfind] at h
        obtain rfl := Option.some.inj h
        refine ⟨[], l.filter p, rfl, fun y hy => absurd hy List.not_mem_nil, fun y hy => ?_⟩
        obtain ⟨hmem, hpy⟩ := List.mem_filter.mp hy
        have hnone := List.find?_eq_none.mp hfind y ((List.mem_insertionSort r).mpr hmem)
        exact absurd hpy hnone
      | some b =>
        rw [hfind] at h
        dsimp only at h
        obtain ⟨before, after, hl, hworse, hbest⟩ := ih hfind
        split at h
        · next hxb =>
          obtain rfl := Option.some.inj h
          refine ⟨[], l.filter p, rfl, fun y hy => absurd hy List.not_mem_nil, fun y hy => ?_⟩
          rw [hl] at hy
          rcases List.mem_append.mp hy with hy | hy
          · have hby : r b y := (Std.Total.total b y).resolve_right (hworse y hy)
            exact Trans.trans hxb hby
          · rcases List.mem_cons.mp hy with rfl | hy
            · exact hxb
            · exact Trans.trans hxb (hbest y hy)
        · next hxb =>
          obtain rfl := Option.some.inj h
          refine ⟨x :: before, after, by rw [hl, List.cons_append], ?_, hbest⟩
          exact List.forall_mem_cons.mpr ⟨hxb, hworse⟩

end Ranking
