import Mathlib.Data.List.Infix

/-!
# Paths of a POSIX file system

Absolute paths as lists of segments, and `resolve` and `basename` of Node's `path.posix`.

* `normalize` — the segments of a path, with empty ones, `.` and `..` worked off.
* `Plain` — the segments that a path keeps as they are.
* `resolve_plain` — a name without separators resolves to an entry of the directory, to the
  directory itself or to its parent.
-/

namespace PosixPath

/-- One segment onto the ones before it; `..` at the root stays there. -/
def push (stack : List (List Char)) (segment : List Char) : List (List Char) :=
  if segment = [] ∨ segment = ['.'] then stack
  else if segment = ['.', '.'] then stack.dropLast
  else stack ++ [segment]

/-- The segments of an absolute path. -/
def normalize (path : List Char) : List (List Char) := (path.splitOn '/').foldl push []

/-- The absolute path of some segments. -/
def render (segments : List (List Char)) : List Char := '/' :: ['/'].intercalate segments

def isAbsolute (path : List Char) : Bool := path.head? = some '/'

/-- `resolve(dir, …paths)` for an absolute `dir`: an absolute path starts over. -/
def resolve (dir : List Char) (paths : List (List Char)) : List Char :=
  render (normalize (paths.foldl
    (fun path p => if isAbsolute p then p else path ++ '/' :: p) dir))

/-- `basename(path)`: the last segment, trailing separators aside. -/
def basename (path : List Char) : List Char :=
  (((path.splitOn '/').filter (fun s => !s.isEmpty)).getLast?).getD []

/-- A segment that stands for itself. -/
structure Plain (segment : List Char) : Prop where
  ne_nil : segment ≠ []
  ne_dot : segment ≠ ['.']
  ne_dots : segment ≠ ['.', '.']
  no_slash : '/' ∉ segment

instance (segment : List Char) : Decidable (Plain segment) :=
  decidable_of_iff (segment ≠ [] ∧ segment ≠ ['.'] ∧ segment ≠ ['.', '.'] ∧ '/' ∉ segment)
    ⟨fun h => ⟨h.1, h.2.1, h.2.2.1, h.2.2.2⟩, fun h => ⟨h.1, h.2, h.3, h.4⟩⟩

theorem push_plain {segment : List Char} (h : Plain segment) (stack : List (List Char)) :
    push stack segment = stack ++ [segment] := by
  rw [push, if_neg (fun h' => h'.elim h.ne_nil h.ne_dot), if_neg h.ne_dots]

theorem foldl_push_plain {segments : List (List Char)} (h : ∀ s ∈ segments, Plain s)
    (stack : List (List Char)) : segments.foldl push stack = stack ++ segments := by
  induction segments generalizing stack with
  | nil => exact (List.append_nil _).symm
  | cons s segments ih =>
    rw [List.forall_mem_cons] at h
    rw [List.foldl_cons, push_plain h.1, ih h.2, List.append_assoc, List.singleton_append]

/-- A path of plain segments is normal. -/
theorem normalize_render {segments : List (List Char)} (h : ∀ s ∈ segments, Plain s) :
    normalize (render segments) = segments := by
  have hsplit : (render segments).splitOn '/' = [] :: (['/'].intercalate segments).splitOn '/' := by
    exact List.splitOn_append_cons_self_of_not_mem List.not_mem_nil _
  rw [normalize, hsplit, List.foldl_cons]
  cases segments with
  | nil => rfl
  | cons s segments =>
    rw [List.splitOn_intercalate '/' (fun l hl => (h l hl).no_slash) (List.cons_ne_nil _ _)]
    exact foldl_push_plain h []

/-- What is appended to a path is worked off where the path has led. -/
theorem normalize_append (path rest : List Char) :
    normalize (path ++ '/' :: rest) = (rest.splitOn '/').foldl push (normalize path) := by
  rw [normalize, List.splitOn_append_cons_self, List.foldl_append, normalize]

theorem not_isAbsolute {p : List Char} (h : '/' ∉ p) : isAbsolute p = false := by
  rw [isAbsolute, decide_eq_false_iff_not]
  intro hhead
  exact h (List.mem_of_mem_head? hhead)

section Directory

variable {segments : List (List Char)}

/-- A name without separators, resolved in a directory. -/
theorem resolve_name (h : ∀ s ∈ segments, Plain s) {name : List Char} (hname : '/' ∉ name) :
    resolve (render segments) [name] = render (push segments name) := by
  rw [resolve, List.foldl_cons, List.foldl_nil, not_isAbsolute hname, if_neg Bool.false_ne_true,
    normalize_append, normalize_render h, List.splitOn_eq_singleton hname, List.foldl_cons,
    List.foldl_nil]

/-- A plain name resolves to an entry of the directory, and two of them to an entry one below. -/
theorem resolve_plain (h : ∀ s ∈ segments, Plain s) {names : List (List Char)}
    (hnames : ∀ s ∈ names, Plain s) :
    resolve (render segments) names = render (segments ++ names) := by
  have hjoin : ∀ path : List Char, normalize (names.foldl
      (fun path p => if isAbsolute p then p else path ++ '/' :: p) path)
      = normalize path ++ names := by
    induction names with
    | nil => exact fun path => (List.append_nil _).symm
    | cons name names ih =>
      intro path
      rw [List.forall_mem_cons] at hnames
      rw [List.foldl_cons, not_isAbsolute hnames.1.no_slash, if_neg Bool.false_ne_true,
        ih hnames.2, normalize_append, List.splitOn_eq_singleton hnames.1.no_slash,
        List.foldl_cons, List.foldl_nil, push_plain hnames.1, List.append_assoc,
        List.singleton_append]
  rw [resolve, hjoin, normalize_render h]

/-- The path of an entry of a directory other than the root. -/
theorem render_append_singleton (hne : segments ≠ []) (name : List Char) :
    render (segments ++ [name]) = render segments ++ '/' :: name := by
  rw [render, render, List.cons_append]
  congr 1
  induction segments with
  | nil => exact absurd rfl hne
  | cons s segments ih =>
    cases segments with
    | nil => simp
    | cons s' segments =>
      simp only [List.cons_append, List.intercalate_cons_cons, List.append_assoc] at ih ⊢
      rw [ih (List.cons_ne_nil _ _)]

theorem basename_name {name : List Char} (hname : '/' ∉ name) : basename name = name := by
  rw [basename, List.splitOn_eq_singleton hname]
  cases name <;> rfl

end Directory

end PosixPath
