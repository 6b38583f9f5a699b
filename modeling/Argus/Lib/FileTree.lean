import Mathlib.Data.Nat.Notation

/-!
# File trees

Directories as a program sees them through a file system, and the walk of `filepath.WalkDir`: a
function is called for every file and directory, and what it answers steers the walk.

* `Entries`, `Dir` — what is in a directory, in the order in which it is listed.
* `Visit`, `Control` — what the function is called for, and what it answers.
* `walk`, `walkDir` — the walk, in the monad of the function.
-/

namespace FileTree

/-- The entries of a directory.  A file may not tell its size, and a directory may not be listed
    to its end. -/
inductive Entries
  | nil
  | file (name : String) (info : Option ℕ) (rest : Entries)
  | dir (name : String) (readable : Bool) (inside rest : Entries)
deriving DecidableEq, Repr

structure Dir where
  readable : Bool
  entries : Entries
deriving DecidableEq, Repr

/-- What the function of a walk is called for. -/
inductive Visit
  /-- The directory the walk begins with. -/
  | root
  | file (name : String) (info : Option ℕ)
  | dir (name : String)
  /-- Once more for a directory that could not be listed. -/
  | unread
deriving DecidableEq, Repr

/-- `nil`, `SkipDir`, `SkipAll`. -/
inductive Control
  | next
  | skipDir
  | skipAll
deriving DecidableEq, Repr

variable {m : Type → Type} [Monad m] {σ : Type}

/-- A directory that cannot be listed is visited once more. -/
def listed (fn : Visit → σ → m (σ × Control)) (readable : Bool) (s : σ) : m (σ × Control) :=
  if readable then pure (s, .next) else fn .unread s

/-- The entries of a directory, one after the other. -/
def walk (fn : Visit → σ → m (σ × Control)) : Entries → σ → m (σ × Control)
  | .nil, s => pure (s, .next)
  | .file name info rest, s => do
    match ← fn (.file name info) s with
    | (s, .next) => walk fn rest s
    | (s, .skipDir) => pure (s, .next)
    | (s, .skipAll) => pure (s, .skipAll)
  | .dir name readable inside rest, s => do
    match ← fn (.dir name) s with
    | (s, .skipDir) => walk fn rest s
    | (s, .skipAll) => pure (s, .skipAll)
    | (s, .next) =>
      match ← listed fn readable s with
      | (s, .skipDir) => walk fn rest s
      | (s, .skipAll) => pure (s, .skipAll)
      | (s, .next) =>
        match ← walk fn inside s with
        | (s, .skipAll) => pure (s, .skipAll)
        | (s, _) => walk fn rest s

/-- `filepath.WalkDir`. -/
def walkDir (fn : Visit → σ → m (σ × Control)) (d : Dir) (s : σ) : m σ := do
  match ← fn .root s with
  | (s, .next) =>
    match ← listed fn d.readable s with
    | (s, .next) =>
      let (s, _) ← walk fn d.entries s
      pure s
    | (s, _) => pure s
  | (s, _) => pure s

end FileTree
