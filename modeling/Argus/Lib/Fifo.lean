import Mathlib.Data.List.Basic

/-!
# Queues that remember what left them

A `Fifo` is a queue together with the items that have left it, oldest first, each with the
way it left: delivered, or dropped.  Items only ever leave from the front, so what was pushed
is always what left followed by what waits.

* `push`, `leave` — an item joins at the end; the oldest `n` items leave.
* `pushed_push`, `pushed_leave` — only a push changes what was pushed.
* `delivered_sublist` — the delivered items are a subsequence of the pushed ones.
* `mem_pushed` — a pushed item was delivered, was dropped, or waits.
-/

/-- A queue and the record of the items that have left it. -/
structure Fifo (α : Type*) where
  /-- What has left, in order; `true` for an item that was delivered. -/
  gone : List (α × Bool)
  queue : List α

namespace Fifo

variable {α : Type*} (f : Fifo α)

def empty : Fifo α := ⟨[], []⟩

/-- Everything that was ever pushed, in order. -/
def pushed : List α := f.gone.map Prod.fst ++ f.queue

def delivered : List α := (f.gone.filter (fun g => g.2)).map Prod.fst

def dropped : List α := (f.gone.filter (fun g => !g.2)).map Prod.fst

def push (x : α) : Fifo α := { f with queue := f.queue ++ [x] }

/-- The oldest `n` items leave, all in the same way. -/
def leave (n : ℕ) (way : Bool) : Fifo α where
  gone := f.gone ++ (f.queue.take n).map (fun x => (x, way))
  queue := f.queue.drop n

@[simp] theorem queue_push (x : α) : (f.push x).queue = f.queue ++ [x] := rfl

@[simp] theorem queue_leave (n : ℕ) (way : Bool) : (f.leave n way).queue = f.queue.drop n := rfl

@[simp] theorem pushed_push (x : α) : (f.push x).pushed = f.pushed ++ [x] := by
  simp [pushed, push]

@[simp] theorem delivered_push (x : α) : (f.push x).delivered = f.delivered := rfl

@[simp] theorem dropped_push (x : α) : (f.push x).dropped = f.dropped := rfl

@[simp] theorem pushed_leave (n : ℕ) (way : Bool) : (f.leave n way).pushed = f.pushed := by
  have hkeep : ((f.queue.take n).map (fun x => (x, way))).map Prod.fst = f.queue.take n := by
    rw [List.map_map]
    exact List.map_id _
  rw [pushed, leave, List.map_append, hkeep, List.append_assoc, List.take_append_drop, pushed]

/-- A selection by the way of leaving takes all of a group that left together, or nothing. -/
theorem filter_together (p : Bool → Bool) (way : Bool) (xs : List α) :
    ((xs.map (fun x => (x, way))).filter (fun g => p g.2)).map Prod.fst
      = if p way then xs else [] := by
  induction xs with
  | nil => simp
  | cons x xs ih =>
    cases hp : p way with
    | true => simpa [hp] using ih
    | false => simp [hp]

@[simp] theorem delivered_leave (n : ℕ) (way : Bool) :
    (f.leave n way).delivered = f.delivered ++ if way then f.queue.take n else [] := by
  rw [delivered, leave, List.filter_append, List.map_append, delivered]
  exact congrArg _ (filter_together (fun b => b) way _)

@[simp] theorem dropped_leave (n : ℕ) (way : Bool) :
    (f.leave n way).dropped = f.dropped ++ if way then [] else f.queue.take n := by
  rw [dropped, leave, List.filter_append, List.map_append, dropped]
  cases way with
  | true => exact congrArg _ (filter_together (fun b => !b) true _)
  | false => exact congrArg _ (filter_together (fun b => !b) false _)

/-- Every pushed item is in one place. -/
theorem pushed_perm : f.pushed.Perm (f.delivered ++ f.dropped ++ f.queue) := by
  have hgone : (f.gone.map Prod.fst).Perm (f.delivered ++ f.dropped) := by
    rw [delivered, dropped, ← List.map_append]
    exact ((List.filter_append_perm (fun g => g.2) f.gone).map Prod.fst).symm
  exact hgone.append_right f.queue

/-- The delivered items are a subsequence of the pushed ones. -/
theorem delivered_sublist : f.delivered.Sublist f.pushed :=
  (List.filter_sublist.map _).trans (List.sublist_append_left _ _)

/-- What waits is the newest part of what was pushed. -/
theorem queue_suffix : f.queue <:+ f.pushed := List.suffix_append _ _

/-- A pushed item was delivered, was dropped, or waits. -/
theorem mem_pushed {x : α} :
    x ∈ f.pushed ↔ x ∈ f.delivered ∨ x ∈ f.dropped ∨ x ∈ f.queue := by
  have hgone : x ∈ f.gone.map Prod.fst ↔ x ∈ f.delivered ∨ x ∈ f.dropped := by
    simp only [delivered, dropped, List.mem_map, List.mem_filter, Prod.exists]
    constructor
    · rintro ⟨a, way, hmem, rfl⟩
      cases way with
      | true => exact Or.inl ⟨a, true, ⟨hmem, rfl⟩, rfl⟩
      | false => exact Or.inr ⟨a, false, ⟨hmem, rfl⟩, rfl⟩
    · rintro (⟨a, way, ⟨hmem, -⟩, rfl⟩ | ⟨a, way, ⟨hmem, -⟩, rfl⟩)
      · exact ⟨a, way, hmem, rfl⟩
      · exact ⟨a, way, hmem, rfl⟩
  rw [pushed, List.mem_append, hgone, or_assoc]

end Fifo
