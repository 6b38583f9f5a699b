import Mathlib.Data.List.Infix
import Mathlib.Data.List.Nodup
import Mathlib.Order.Basic

/-!
# Breadth-first search

A search with a queue, which takes an element from the front and puts its `kids` at the end.

* `level`, `before` — the elements by their distance from the start, and those nearer than it.
* `Between` — what a search has taken, and what waits in its queue.
* `Between.start`, `Between.step` — how the two come about.
* `Between.leading`, `Between.finished` — a search takes the elements level by level; at its end it
  has taken those of every level.
* `nodup_before` — and each only once, where an element has one parent.
-/

namespace BreadthFirst

variable {α : Type*} (kids : α → List α) (a : α)

/-- The elements `n` steps from the start. -/
def level : ℕ → List α
  | 0 => [a]
  | n + 1 => (level n).flatMap kids

/-- The elements less than `n` steps from it. -/
def before : ℕ → List α
  | 0 => []
  | n + 1 => before n ++ level kids a n

/-- The search has taken the elements of some levels and the first ones of the next level; their
    kids follow the rest of it in the queue. -/
def Between (done queue : List α) : Prop :=
  ∃ n taken left, level kids a n = taken ++ left ∧ done = before kids a n ++ taken ∧
    queue = left ++ taken.flatMap kids

variable {kids a} {done queue : List α} {x : α}

theorem mem_before {n : ℕ} : x ∈ before kids a n ↔ ∃ k < n, x ∈ level kids a k := by
  induction n with
  | zero => simp [before]
  | succ n ih =>
    rw [before, List.mem_append, ih]
    constructor
    · rintro (⟨k, hk, hx⟩ | hx)
      · exact ⟨k, by omega, hx⟩
      · exact ⟨n, by omega, hx⟩
    · rintro ⟨k, hk, hx⟩
      rcases Nat.lt_succ_iff_lt_or_eq.mp hk with hlt | rfl
      · exact Or.inl ⟨k, hlt, hx⟩
      · exact Or.inr hx

theorem mem_level_succ {n : ℕ} : x ∈ level kids a (n + 1) ↔ ∃ y ∈ level kids a n, x ∈ kids y := by
  rw [level, List.mem_flatMap]

theorem level_eq_nil {m n : ℕ} (h : level kids a m = []) (hle : m ≤ n) : level kids a n = [] := by
  induction n, hle using Nat.le_induction with
  | base => exact h
  | succ n hle ih => rw [level, ih, List.flatMap_nil]

theorem before_leading {m n : ℕ} (hle : m ≤ n) : before kids a m <+: before kids a n := by
  induction n, hle using Nat.le_induction with
  | base => exact List.prefix_rfl
  | succ n hle ih => exact ih.trans (List.prefix_append _ _)

theorem before_eq {m n : ℕ} (h : level kids a m = []) (hle : m ≤ n) :
    before kids a n = before kids a m := by
  induction n, hle using Nat.le_induction with
  | base => rfl
  | succ n hle ih => rw [before, level_eq_nil h hle, List.append_nil, ih]

theorem before_leading_of_nil {m n : ℕ} (h : level kids a m = []) :
    before kids a n <+: before kids a m := by
  rcases Nat.le_total n m with hle | hle
  · exact before_leading hle
  · rw [before_eq h hle]

/-! ### The search -/

theorem Between.start : Between kids a [] [a] := ⟨0, [], [a], rfl, rfl, rfl⟩

theorem Between.step (h : Between kids a done (x :: queue)) :
    Between kids a (done ++ [x]) (queue ++ kids x) := by
  obtain ⟨n, taken, left, hlevel, rfl, hqueue⟩ := h
  cases left with
  | cons y left =>
    rw [List.cons_append, List.cons.injEq] at hqueue
    obtain ⟨rfl, rfl⟩ := hqueue
    refine ⟨n, taken ++ [x], left, ?_, ?_, ?_⟩
    · rw [hlevel, List.append_assoc, List.singleton_append]
    · rw [List.append_assoc]
    · rw [List.flatMap_append, List.flatMap_singleton, List.append_assoc]
  | nil =>
    -- The level is used up, so what is in front is the first element of the next one.
    rw [List.append_nil] at hlevel
    rw [List.nil_append] at hqueue
    refine ⟨n + 1, [x], queue, ?_, ?_, ?_⟩
    · rw [level, hlevel, ← hqueue, List.singleton_append]
    · rw [before, hlevel]
    · rw [List.flatMap_singleton]

/-- What has been taken and what waits are the first elements, level by level. -/
theorem Between.leading {m : ℕ} (hend : level kids a m = []) (h : Between kids a done queue) :
    done ++ queue <+: before kids a m := by
  obtain ⟨n, taken, left, hlevel, rfl, rfl⟩ := h
  refine List.IsPrefix.trans ⟨left.flatMap kids, ?_⟩ (before_leading_of_nil (n := n + 2) hend)
  rw [before, before, level, hlevel, List.flatMap_append]
  simp only [List.append_assoc]

theorem Between.finished {m : ℕ} (hend : level kids a m = []) (h : Between kids a done []) :
    done = before kids a m := by
  obtain ⟨n, taken, left, hlevel, rfl, hqueue⟩ := h
  obtain ⟨rfl, hkids⟩ := List.append_eq_nil_iff.mp hqueue.symm
  rw [List.append_nil] at hlevel
  have hnil : level kids a (n + 1) = [] := by rw [level, hlevel, hkids]
  rw [← hlevel]
  show before kids a (n + 1) = before kids a m
  rcases Nat.le_total (n + 1) m with hle | hle
  · exact (before_eq hnil hle).symm
  · exact before_eq hend hle

/-- A search that has taken nothing has only its start to take. -/
theorem Between.queue_of_nil (h : Between kids a [] queue) : queue = [a] := by
  obtain ⟨n, taken, left, hlevel, hdone, rfl⟩ := h
  obtain ⟨hbefore, rfl⟩ := List.append_eq_nil_iff.mp hdone.symm
  cases n with
  | zero =>
    rw [List.nil_append] at hlevel
    rw [← hlevel, List.flatMap_nil, List.append_nil]
    rfl
  | succ n =>
    have hstart : a ∈ before kids a (n + 1) :=
      mem_before.mpr ⟨0, by omega, List.mem_singleton_self a⟩
    rw [hbefore] at hstart
    exact absurd hstart List.not_mem_nil

/-- Whatever it has come to, it has come to from something it has taken. -/
theorem Between.parent (h : Between kids a done queue) {y : α} (hy : y ∈ done ++ queue) :
    y = a ∨ ∃ x ∈ done, y ∈ kids x := by
  obtain ⟨n, taken, left, hlevel, rfl, rfl⟩ := h
  have hup : ∀ k ≤ n, y ∈ level kids a k →
      y = a ∨ ∃ x ∈ before kids a n ++ taken, y ∈ kids x := by
    intro k hk hy
    cases k with
    | zero => exact Or.inl (List.mem_singleton.mp hy)
    | succ k =>
      obtain ⟨x, hx, hy⟩ := mem_level_succ.mp hy
      exact Or.inr ⟨x, List.mem_append_left _ (mem_before.mpr ⟨k, hk, hx⟩), hy⟩
  rcases List.mem_append.mp hy with hy | hy
  · rcases List.mem_append.mp hy with hy | hy
    · obtain ⟨k, hk, hy⟩ := mem_before.mp hy
      exact hup k hk.le hy
    · exact hup n le_rfl (hlevel ▸ List.mem_append_left left hy)
  · rcases List.mem_append.mp hy with hy | hy
    · exact hup n le_rfl (hlevel ▸ List.mem_append_right taken hy)
    · obtain ⟨x, hx, hy⟩ := List.mem_flatMap.mp hy
      exact Or.inr ⟨x, List.mem_append_right _ hx, hy⟩

/-! ### Elements with one parent -/

variable (rank : α → ℕ)

theorem rank_of_mem_level (hrank : ∀ x, ∀ y ∈ kids x, rank y = rank x + 1) {n : ℕ}
    (h : x ∈ level kids a n) : rank x = rank a + n := by
  induction n generalizing x with
  | zero =>
    obtain rfl := List.mem_singleton.mp h
    rfl
  | succ n ih =>
    obtain ⟨y, hy, hx⟩ := mem_level_succ.mp h
    have hstep := hrank y x hx
    have hparent := ih hy
    omega

theorem nodup_level (hnodup : ∀ x, (kids x).Nodup)
    (hparent : ∀ x x' y, y ∈ kids x → y ∈ kids x' → x = x') (n : ℕ) :
    (level kids a n).Nodup := by
  induction n with
  | zero => exact List.nodup_singleton a
  | succ n ih =>
    refine List.nodup_flatMap.mpr ⟨fun x _ => hnodup x, ?_⟩
    refine ih.imp (fun {x x'} hne y hy hy' => hne (hparent x x' y hy hy'))

theorem nodup_before (hrank : ∀ x, ∀ y ∈ kids x, rank y = rank x + 1)
    (hnodup : ∀ x, (kids x).Nodup) (hparent : ∀ x x' y, y ∈ kids x → y ∈ kids x' → x = x')
    (n : ℕ) : (before kids a n).Nodup := by
  induction n with
  | zero => exact List.nodup_nil
  | succ n ih =>
    refine List.nodup_append'.mpr ⟨ih, nodup_level hnodup hparent n, fun x hx hx' => ?_⟩
    obtain ⟨k, hk, hlevel⟩ := mem_before.mp hx
    have h := rank_of_mem_level rank hrank hlevel
    have h' := rank_of_mem_level rank hrank hx'
    omega

end BreadthFirst
