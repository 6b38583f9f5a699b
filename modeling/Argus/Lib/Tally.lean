import Mathlib.Algebra.BigOperators.Group.List.Basic
import Mathlib.Algebra.GroupWithZero.Nat
import Mathlib.Data.List.Induction
import Mathlib.Data.List.Sort

/-!
# Tallies

Entries counted by a key, in a map whose keys stand in the order they were first met, and the map
sorted by its keys.

* `bump` — the value of one key changed, from zero where there is none yet.
* `tally` — a list of entries, each added to the value of its key.
* `mem_tally` — the value of a key is made of the entries of that key, in their order.
* `sum_tally` — what is added up over the keys is what is added up over the entries.
* `sorted` — by the keys; each comes once (`pairwise_sorted`).
-/

namespace Tally

variable {α β κ : Type*} [DecidableEq κ]

def bump (f : β → β) (zero : β) (k : κ) : List (κ × β) → List (κ × β)
  | [] => [(k, f zero)]
  | e :: es => if e.1 = k then (k, f e.2) :: es else e :: bump f zero k es

def tally (key : α → κ) (add : β → α → β) (zero : β) (xs : List α) : List (κ × β) :=
  xs.foldl (fun m x => bump (add · x) zero (key x) m) []

/-! ### One step -/

variable {f : β → β} {zero : β} {k : κ}

theorem mem_keys_bump {m : List (κ × β)} {j : κ} :
    j ∈ (bump f zero k m).map Prod.fst ↔ j = k ∨ j ∈ m.map Prod.fst := by
  induction m with
  | nil => simp [bump]
  | cons e m ih =>
    rw [bump]
    split
    · rename_i he
      simp [he]
    · rw [List.map_cons, List.mem_cons, ih, List.map_cons, List.mem_cons]
      exact or_left_comm

theorem nodup_bump {m : List (κ × β)} (h : (m.map Prod.fst).Nodup) :
    ((bump f zero k m).map Prod.fst).Nodup := by
  induction m with
  | nil => simp [bump]
  | cons e m ih =>
    rw [List.map_cons, List.nodup_cons] at h
    rw [bump]
    split
    · rename_i he
      rw [List.map_cons, List.nodup_cons]
      exact ⟨he ▸ h.1, h.2⟩
    · rename_i he
      rw [List.map_cons, List.nodup_cons, mem_keys_bump, not_or]
      exact ⟨⟨he, h.1⟩, ih h.2⟩

/-- The value of the key is changed, or made from zero; those of others stay. -/
theorem mem_bump {m : List (κ × β)} (h : (m.map Prod.fst).Nodup) {j : κ} {b : β} :
    (j, b) ∈ bump f zero k m ↔
      j ≠ k ∧ (j, b) ∈ m ∨
      j = k ∧ ((∃ c, (k, c) ∈ m ∧ b = f c) ∨ k ∉ m.map Prod.fst ∧ b = f zero) := by
  induction m with
  | nil => simp [bump]
  | cons e m ih =>
    obtain ⟨i, c⟩ := e
    rw [List.map_cons, List.nodup_cons] at h
    rw [bump]
    by_cases hi : i = k
    · subst hi
      have hnone : ∀ c', (i, c') ∉ m := fun c' hc => h.1 (List.mem_map.mpr ⟨(i, c'), hc, rfl⟩)
      rw [if_pos rfl]
      by_cases hj : j = i
      · subst hj
        simp [hnone]
      · simp [hj]
    · have hik : k ≠ i := Ne.symm hi
      rw [if_neg hi, List.mem_cons, ih h.2]
      by_cases hj : j = k
      · subst hj
        simp [hik]
      · simp [hj]

/-! ### A run -/

variable {key : α → κ} {add : β → α → β}

theorem tally_concat (xs : List α) (x : α) :
    tally key add zero (xs ++ [x]) = bump (add · x) zero (key x) (tally key add zero xs) := by
  rw [tally, tally, List.foldl_append]
  rfl

theorem mem_keys_tally {xs : List α} :
    k ∈ (tally key add zero xs).map Prod.fst ↔ ∃ x ∈ xs, key x = k := by
  induction xs using List.reverseRecOn with
  | nil => simp [tally]
  | append_singleton xs x ih =>
    rw [tally_concat, mem_keys_bump, ih]
    simp only [List.mem_append, List.mem_singleton]
    constructor
    · rintro (rfl | ⟨y, hy, rfl⟩)
      · exact ⟨x, Or.inr rfl, rfl⟩
      · exact ⟨y, Or.inl hy, rfl⟩
    · rintro ⟨y, hy | rfl, rfl⟩
      · exact Or.inr ⟨y, hy, rfl⟩
      · exact Or.inl rfl

theorem nodup_tally (xs : List α) : ((tally key add zero xs).map Prod.fst).Nodup := by
  induction xs using List.reverseRecOn with
  | nil => exact List.nodup_nil
  | append_singleton xs x ih =>
    rw [tally_concat]
    exact nodup_bump ih

/-- **The value of a key.** -/
theorem mem_tally {xs : List α} {b : β} :
    (k, b) ∈ tally key add zero xs ↔
      (∃ x ∈ xs, key x = k) ∧ b = (xs.filter (fun x => decide (key x = k))).foldl add zero := by
  induction xs using List.reverseRecOn generalizing k b with
  | nil => simp [tally]
  | append_singleton xs x ih =>
    rw [tally_concat, mem_bump (nodup_tally xs), List.filter_append, List.foldl_append]
    by_cases hx : k = key x
    · -- the entry has this key, which is new or not
      have hlast : [x].filter (fun y => decide (key y = k)) = [x] := by simp [hx]
      have hmem : ∃ y ∈ xs ++ [x], key y = k := ⟨x, by simp, hx.symm⟩
      rw [hlast]
      simp only [hx, ne_eq, not_true_eq_false, false_and, true_and, false_or, ih, mem_keys_tally]
      rw [hx] at hmem
      simp only [hmem, true_and]
      by_cases hknown : ∃ y ∈ xs, key y = key x
      · simp [hknown]
      · have hnil : xs.filter (fun y => decide (key y = key x)) = [] := by
          rw [List.filter_eq_nil_iff]
          intro y hy
          simpa using fun h => hknown ⟨y, hy, h⟩
        simp [hknown, hnil]
    · have hlast : [x].filter (fun y => decide (key y = k)) = [] := by simp [Ne.symm hx]
      rw [hlast, ih]
      simp only [ne_eq, hx, not_false_eq_true, true_and, false_and, or_false, List.foldl_nil,
        List.mem_append, List.mem_singleton, or_and_right, exists_or, exists_eq_left,
        Ne.symm hx]

theorem lookup_eq_some_iff [BEq κ] [LawfulBEq κ] {m : List (κ × β)}
    (h : (m.map Prod.fst).Nodup) {b : β} : m.lookup k = some b ↔ (k, b) ∈ m := by
  induction m with
  | nil => simp
  | cons e m ih =>
    obtain ⟨j, c⟩ := e
    rw [List.map_cons, List.nodup_cons] at h
    rw [List.lookup_cons, List.mem_cons]
    by_cases hk : k = j
    · subst hk
      have hnone : (k, b) ∉ m := fun hmem => h.1 (List.mem_map.mpr ⟨(k, b), hmem, rfl⟩)
      simp [hnone, eq_comm]
    · rw [beq_eq_false_iff_ne.mpr hk]
      simpa [hk] using ih h.2

/-- A key that no entry has is not there. -/
theorem lookup_tally [BEq κ] [LawfulBEq κ] (xs : List α) :
    (tally key add zero xs).lookup k
      = if ∃ x ∈ xs, key x = k then
          some ((xs.filter (fun x => decide (key x = k))).foldl add zero)
        else none := by
  split
  · rename_i h
    exact (lookup_eq_some_iff (nodup_tally xs)).mpr (mem_tally.mpr ⟨h, rfl⟩)
  · rename_i h
    rw [Option.eq_none_iff_forall_ne_some]
    intro b hb
    exact h (mem_tally.mp ((lookup_eq_some_iff (nodup_tally xs)).mp hb)).1

theorem sum_bump {w : β → ℕ} {n : ℕ} (hf : ∀ b, w (f b) = w b + n) (hzero : w zero = 0)
    {m : List (κ × β)} :
    ((bump f zero k m).map (fun e => w e.2)).sum = (m.map (fun e => w e.2)).sum + n := by
  induction m with
  | nil => simp [bump, hf, hzero]
  | cons e m ih =>
    rw [bump]
    split
    · rw [List.map_cons, List.sum_cons, List.map_cons, List.sum_cons, hf]
      omega
    · rw [List.map_cons, List.sum_cons, ih, List.map_cons, List.sum_cons, Nat.add_assoc]

/-- **Sums.**  Nothing is lost or counted twice. -/
theorem sum_tally {w : β → ℕ} {g : α → ℕ} (hadd : ∀ b x, w (add b x) = w b + g x)
    (hzero : w zero = 0) (xs : List α) :
    ((tally key add zero xs).map (fun e => w e.2)).sum = (xs.map g).sum := by
  induction xs using List.reverseRecOn with
  | nil => rfl
  | append_singleton xs x ih =>
    rw [tally_concat, sum_bump (fun b => hadd b x) hzero, ih, List.map_append, List.sum_append]
    simp

/-! ### In order -/

variable [LinearOrder κ]

def sorted (m : List (κ × β)) : List (κ × β) := m.insertionSort (fun a b => a.1 ≤ b.1)

omit [DecidableEq κ] in
theorem perm_sorted (m : List (κ × β)) : (sorted m).Perm m := List.perm_insertionSort _ m

omit [DecidableEq κ] in
theorem pairwise_sorted {m : List (κ × β)} (h : (m.map Prod.fst).Nodup) :
    (sorted m).Pairwise (fun a b => a.1 < b.1) := by
  have : Std.Total (fun a b : κ × β => a.1 ≤ b.1) := ⟨fun a b => le_total a.1 b.1⟩
  have : IsTrans (κ × β) (fun a b => a.1 ≤ b.1) := ⟨fun a b c => le_trans⟩
  have hle : (sorted m).Pairwise (fun a b => a.1 ≤ b.1) := List.pairwise_insertionSort _ m
  have hne : (sorted m).Pairwise (fun a b => a.1 ≠ b.1) :=
    List.pairwise_map.mp (((perm_sorted m).map Prod.fst).nodup_iff.mpr h)
  exact (hle.and hne).imp fun h => lt_of_le_of_ne h.1 h.2

end Tally
