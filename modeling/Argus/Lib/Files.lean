import Mathlib.Logic.Function.Basic

/-!
# Files, and operations on them that may fail

What each path holds, and the operations of an operating system on it.  Whether an operation goes
through is an outcome that is given to it; one that fails leaves everything as it was.

* `Disk` — the content of each path that has a file.
* `write`, `remove`, `rename`, `removeAll` — the operations.
* `rename_of_some` — a file that is there is renamed if and only if the outcome lets it.
-/

namespace Files

/-- Whether an operation fails, and what its error says then. -/
structure Outcome where
  fails : Bool
  cause : String
deriving DecidableEq, Repr

def Outcome.success : Outcome := ⟨false, ""⟩

def Outcome.failure (cause : String) : Outcome := ⟨true, cause⟩

section

variable {π β : Type*}

/-- The content of each path that has a file. -/
abbrev Disk (π β : Type*) := π → Option β

/-- Removing some files at once. -/
def removeAll (gone : π → Bool) (fs : Disk π β) : Disk π β :=
  fun p => if gone p then none else fs p

variable [DecidableEq π]

def write (fs : Disk π β) (p : π) (content : β) : Disk π β :=
  Function.update fs p (some content)

def remove (o : Outcome) (fs : Disk π β) (p : π) : Disk π β :=
  if o.fails then fs else Function.update fs p none

/-- A file at the new path is replaced; there has to be one at the old path. -/
def rename (o : Outcome) (fs : Disk π β) (source target : π) : Except String (Disk π β) :=
  match fs source with
  | some content =>
    if o.fails then .error o.cause else .ok (write (Function.update fs source none) target content)
  | none => .error o.cause

variable {fs : Disk π β} {o : Outcome} {p q source target : π} {content : β}

@[simp] theorem write_self : write fs p content p = some content := Function.update_self ..

theorem write_of_ne (h : q ≠ p) : write fs p content q = fs q := Function.update_of_ne h ..

theorem remove_self (h : o.fails = false) : remove o fs p p = none := by
  rw [remove, h]
  exact Function.update_self ..

theorem remove_of_ne (h : q ≠ p) : remove o fs p q = fs q := by
  rw [remove]
  split
  · rfl
  · exact Function.update_of_ne h ..

theorem remove_eq_none (h : fs q = none) : remove o fs p q = none := by
  by_cases hq : q = p
  · subst hq
    rw [remove]
    split
    · exact h
    · exact Function.update_self ..
  · rw [remove_of_ne hq]
    exact h

omit [DecidableEq π] in
theorem removeAll_eq_none {gone : π → Bool} (h : fs q = none) : removeAll gone fs q = none := by
  rw [removeAll]
  split
  · rfl
  · exact h

/-- With a file to rename, what comes of it is the outcome. -/
theorem rename_of_some (h : fs source = some content) :
    rename o fs source target = if o.fails then .error o.cause
      else .ok (write (Function.update fs source none) target content) := by
  rw [rename, h]

end

end Files
