import Mathlib.Data.List.Basic
import Mathlib.Data.List.TakeDrop

/-!
# Texts of lines

A text whose lines are ended by a separator, and what remains of it when its end is cut off
somewhere and begun again after the first separator.

* `render` — the text of lines, which `List.splitOn` takes apart (`render_splitOn`).
* `afterFirst` — what follows the first separator.
* `afterFirst_drop_render` — of a text of lines a whole number of lines remains.
-/

namespace Lines

variable {α : Type*} (nl : α)

/-- The text of the lines, each ended by a separator. -/
def render (lines : List (List α)) : List α := lines.flatMap (· ++ [nl])

@[simp] theorem render_nil : render nl [] = [] := rfl

theorem render_cons (l : List α) (ls : List (List α)) :
    render nl (l :: ls) = l ++ nl :: render nl ls := by
  simp [render]

@[simp] theorem render_append (xs ys : List (List α)) :
    render nl (xs ++ ys) = render nl xs ++ render nl ys := List.flatMap_append

variable [DecidableEq α]

/-- What follows the first separator; a text without one is kept. -/
def afterFirst (b : List α) : List α :=
  match b.dropWhile (fun c => decide (c ≠ nl)) with
  | [] => b
  | _ :: rest => rest

variable {nl}

/-- No line has a separator in it. -/
theorem not_mem_splitOn {b l : List α} (h : l ∈ b.splitOn nl) : nl ∉ l := by
  induction b generalizing l with
  | nil =>
    obtain rfl := List.mem_singleton.mp h
    exact List.not_mem_nil
  | cons c cs ih =>
    obtain ⟨first, rest, hsplit⟩ := List.exists_cons_of_ne_nil (List.splitOn_ne_nil nl cs)
    rw [List.splitOn_cons_eq_if_modifyHead] at h
    split at h
    · rcases List.mem_cons.mp h with rfl | h
      · exact List.not_mem_nil
      · exact ih h
    · rename_i hc
      rw [hsplit] at h ih
      rcases List.mem_cons.mp h with rfl | h
      · rw [List.mem_cons, not_or]
        exact ⟨fun heq => hc (beq_iff_eq.mpr heq.symm), ih List.mem_cons_self⟩
      · exact ih (List.mem_cons_of_mem _ h)

/-- The lines of a text give the text back, ended by a separator. -/
theorem render_splitOn (b : List α) : render nl (b.splitOn nl) = b ++ [nl] := by
  induction b with
  | nil => rfl
  | cons c cs ih =>
    obtain ⟨first, rest, hsplit⟩ := List.exists_cons_of_ne_nil (List.splitOn_ne_nil nl cs)
    rw [List.splitOn_cons_eq_if_modifyHead]
    split
    · rename_i hc
      rw [render_cons, ih, beq_iff_eq.mp hc]
      rfl
    · rw [hsplit, render_cons] at ih
      rw [hsplit, List.modifyHead_cons, render_cons, List.cons_append, ih, List.cons_append]

theorem length_afterFirst_le (b : List α) : (afterFirst nl b).length ≤ b.length := by
  unfold afterFirst
  split
  · exact Nat.le_refl _
  · rename_i c rest heq
    have hle := (List.dropWhile_suffix (fun c => decide (c ≠ nl)) (l := b)).length_le
    rw [heq, List.length_cons] at hle
    omega

/-- The separator that ends the piece is the first one. -/
theorem afterFirst_append {l rest : List α} (hl : nl ∉ l) :
    afterFirst nl (l ++ nl :: rest) = rest := by
  have hdrop : (l ++ nl :: rest).dropWhile (fun c => decide (c ≠ nl)) = nl :: rest := by
    rw [List.dropWhile_append_of_pos]
    · simp
    · intro c hc
      exact decide_eq_true (fun heq => hl (heq ▸ hc))
  rw [afterFirst, hdrop]

/-- **A cut keeps whole lines.**  What follows the first separator after a cut is a text of the
    last lines; each line left out begins at the cut or before it. -/
theorem afterFirst_drop_render {lines : List (List α)} (h : ∀ l ∈ lines, nl ∉ l) (k : ℕ) :
    ∃ j, afterFirst nl ((render nl lines).drop k) = render nl (lines.drop j) ∧
      ∀ i < j, ((render nl lines).drop k).length ≤ (render nl (lines.drop i)).length := by
  induction lines generalizing k with
  | nil => exact ⟨0, by simp [afterFirst], fun i hi => absurd hi (Nat.not_lt_zero i)⟩
  | cons l ls ih =>
    rw [List.forall_mem_cons] at h
    rcases Nat.lt_or_ge l.length k with hlt | hge
    · -- the cut lies behind the first line
      obtain ⟨j, heq, hle⟩ := ih h.2 (k - l.length - 1)
      have hdrop : (render nl (l :: ls)).drop k = (render nl ls).drop (k - l.length - 1) := by
        rw [render_cons, List.drop_append, List.drop_eq_nil_of_le (by omega), List.nil_append,
          show k - l.length = (k - l.length - 1) + 1 by omega, List.drop_succ_cons,
          Nat.add_sub_cancel]
      refine ⟨j + 1, by rw [hdrop, heq, List.drop_succ_cons], fun i hi => ?_⟩
      rw [hdrop]
      cases i with
      | zero =>
        rw [List.drop_zero, render_cons, List.length_append, List.length_cons, List.length_drop]
        omega
      | succ i =>
        rw [List.drop_succ_cons]
        exact hle i (by omega)
    · -- the cut lies in the first line or at its end
      have hdrop : (render nl (l :: ls)).drop k = l.drop k ++ nl :: render nl ls := by
        rw [render_cons, List.drop_append, show k - l.length = 0 by omega, List.drop_zero]
      refine ⟨1, ?_, fun i hi => ?_⟩
      · rw [hdrop, List.drop_one, List.tail_cons]
        exact afterFirst_append (fun hmem => h.1 (List.mem_of_mem_drop hmem))
      · obtain rfl : i = 0 := by omega
        rw [List.drop_zero, List.length_drop]
        omega

end Lines
