import Argus.Lib.FileTree
import Argus.Lib.Polling
import Mathlib.Data.List.Perm.Basic

namespace Argus.Collect

/-!
# Folders of a share

The agent walks a share twice over: `enumFolders` lists the folders, level by level, and `dirSize`
adds up what is in each of them.  A scan that a user has asked for can be cancelled, which both look
at now and then; the walk of a tick has no scan.

* `sizeEntry`, `dirSize` — the sizes.
* `enumEntries`, `enumFolders` — the folders, out of a budget that all levels share.
* `total`, `foldersWithin` — what a directory holds.
* `dirSize_none` — without a scan, `dirSize` counts it.
-/

open FileTree Polling

/-- `maxTopFolders`. -/
def maxTopFolders : ℕ := 1000

/-- `maxFolderNodes`. -/
def maxFolderNodes : ℕ := 8000

/-- `maxFilesWalked`. -/
def maxFilesWalked : ℕ := 1000000

structure FolderNode where
  name : String
  sizeBytes : ℕ
  fileCount : ℕ
  folderCount : ℕ
deriving DecidableEq, Repr

/-- Folders that are left out: hidden ones, and those of the system. -/
def isSystemFolder (name : String) : Bool :=
  match name.toList with
  | [] => false
  | c :: _ => c == '@' || c == '.' ||
    ["#recycle", "$RECYCLE.BIN", "System Volume Information", "lost+found"].contains name

/-! ### A scan -/

structure ScanProgress where
  status : String
  folders : ℕ
  files : ℕ
  bytes : ℕ
  current : String
deriving DecidableEq, Repr

/-- What goes on in a walk, with the scan it belongs to. -/
abbrev ScanM := Polled ScanProgress

/-- `prog.cancelled()`. -/
def cancelled : ScanM Bool := poll

/-- `prog.folder(current)`: false if the scan is cancelled. -/
def folder (current : String) : ScanM Bool := do
  if ← cancelled then pure false
  else
    report fun p => { p with folders := p.folders + 1, current := current }
    pure true

/-! ### Sizes -/

/-- What `dirSize` has counted. -/
structure Tally where
  size : ℕ := 0
  files : ℕ := 0
  dirs : ℕ := 0
deriving DecidableEq, Repr

/-- The scan is asked for after every so many files, and after every so many folders. -/
def cancelledEvery (step n : ℕ) : ScanM Bool := if n % step = 0 then cancelled else pure false

/-- The end of the function of `dirSize`, for a directory. -/
def sizeDir (t : Tally) : ScanM (Tally × Control) := do
  if ← cancelledEvery 256 t.dirs then pure (t, .skipAll) else pure (t, .next)

/-- The function of `dirSize`, when it goes on. -/
def sizeVisit (t : Tally) : Visit → ScanM (Tally × Control)
  | .root => sizeDir t
  | .dir name =>
    if isSystemFolder name then pure (t, .skipDir) else sizeDir { t with dirs := t.dirs + 1 }
  | .file _ (some size) =>
    pure ({ t with size := t.size + size, files := t.files + 1 }, .next)
  | .file _ none => pure (t, .next)
  | .unread => pure (t, .next)

/-- The function that `dirSize` gives to `filepath.WalkDir`. -/
def sizeEntry (v : Visit) (t : Tally) : ScanM (Tally × Control) :=
  if v = .unread then pure (t, .next)
  else if maxFilesWalked ≤ t.files then pure (t, .skipAll)
  else do
    if ← cancelledEvery 8192 t.files then pure (t, .skipAll) else sizeVisit t v

def dirSize (d : Dir) : ScanM Tally := walkDir sizeEntry d {}

/-! ### Folders -/

/-- `sort.Slice` by size, the largest first.  It may change the order of folders of one size. -/
structure SizeSort where
  sort : List FolderNode → List FolderNode
  perm : ∀ l, (sort l).Perm l
  sorted : ∀ l, (sort l).Pairwise fun a b => b.sizeBytes ≤ a.sizeBytes

/-- The label of a folder in another one. -/
def joinLabel (label name : String) : String := if label = "" then name else label ++ "/" ++ name

variable (sortSize : SizeSort)

/-- `enumFolders`, as far as it does not depend on what is in the directory: the budget is used up,
    the scan is cancelled, or the directory cannot be listed. -/
def enumDir (readable : Bool) (budget : ℕ) (loop : ℕ → ScanM (List FolderNode × ℕ)) :
    ScanM (List FolderNode × ℕ) := do
  if budget = 0 then pure ([], budget)
  else if ← cancelled then pure ([], budget)
  else if readable then
    let (out, budget) ← loop budget
    pure (sortSize.sort out, budget)
  else pure ([], budget)

/-- The folders of a folder, if they are not too deep. -/
def enumDeeper (depth budget : ℕ) (x : ScanM (List FolderNode × ℕ)) :
    ScanM (List FolderNode × ℕ) :=
  if 1 < depth then x else pure ([], budget)

/-- The loop of `enumFolders` over the entries of a directory; `count` folders of it are listed. -/
def enumEntries : Entries → String → ℕ → ℕ → ℕ → ScanM (List FolderNode × ℕ)
  | .nil, _, _, _, budget => pure ([], budget)
  | .file _ _ rest, label, depth, count, budget => enumEntries rest label depth count budget
  | .dir name readable inside rest, label, depth, count, budget =>
    if isSystemFolder name then enumEntries rest label depth count budget
    else if maxTopFolders ≤ count ∨ budget = 0 then pure ([], budget)
    else do
      let label' := joinLabel label name
      if ← folder label' then
        let t ← dirSize ⟨readable, inside⟩
        let (sub, budget) ← enumDeeper depth (budget - 1)
          (enumDir sortSize readable (budget - 1) (enumEntries inside label' (depth - 1) 0))
        let (more, budget) ← enumEntries rest label depth (count + 1) budget
        pure (⟨label', t.size, t.files, t.dirs⟩ :: sub ++ more, budget)
      else pure ([], budget - 1)

/-- The folders of a directory, `depth` levels down, and what is left of the budget. -/
def enumFolders (d : Dir) (label : String) (depth budget : ℕ) : ScanM (List FolderNode × ℕ) :=
  enumDir sortSize d.readable budget (enumEntries sortSize d.entries label depth 0)

/-! ### What a directory holds -/

namespace Tally

variable (t u : Tally)

/-- Two counts together. -/
def add : Tally := ⟨t.size + u.size, t.files + u.files, t.dirs + u.dirs⟩

@[simp] theorem add_files : (t.add u).files = t.files + u.files := rfl

@[simp] theorem empty_add : add {} t = t := by
  rw [add, Nat.zero_add, Nat.zero_add, Nat.zero_add]

theorem add_comm : t.add u = u.add t := by
  simp only [add, Nat.add_comm]

theorem add_assoc (v : Tally) : (t.add u).add v = t.add (u.add v) := by
  simp only [add, Nat.add_assoc]

end Tally

/-- A file that tells its size. -/
def fileTally : Option ℕ → Tally
  | some size => ⟨size, 1, 0⟩
  | none => {}

/-- Everything in a directory, system folders apart. -/
def total : Entries → Tally
  | .nil => {}
  | .file _ info rest => (fileTally info).add (total rest)
  | .dir name _ inside rest =>
    if isSystemFolder name then total rest
    else (Tally.add ⟨0, 0, 1⟩ (total inside)).add (total rest)

/-- The folders below a directory that are not left out, with the path to each. -/
def foldersBelow : Entries → List (List String × Dir)
  | .nil => []
  | .file _ _ rest => foldersBelow rest
  | .dir name readable inside rest =>
    if isSystemFolder name then foldersBelow rest
    else ([name], ⟨readable, inside⟩) ::
      (foldersBelow inside).map (fun e => (name :: e.1, e.2)) ++ foldersBelow rest

/-- Those at most `depth` levels down. -/
def foldersWithin (depth : ℕ) (es : Entries) : List (List String × Dir) :=
  (foldersBelow es).filter fun e => e.1.length ≤ depth

/-- How many folders are in the directory itself. -/
def subfolders : Entries → ℕ
  | .nil => 0
  | .file _ _ rest => subfolders rest
  | .dir name _ _ rest => if isSystemFolder name then subfolders rest else subfolders rest + 1

/-- The node of a folder. -/
def nodeAt (label : String) (e : List String × Dir) : FolderNode :=
  ⟨e.1.foldl joinLabel label, (total e.2.entries).size, (total e.2.entries).files,
    (total e.2.entries).dirs⟩

/-! ### Walks of a tick -/

section

variable {α β : Type}

theorem bind_apply (x : ScanM α) (f : α → ScanM β) (run : Option (Run ScanProgress)) :
    (x >>= f) run = f (x run).1 (x run).2 := rfl

theorem folder_none (current : String) : folder current none = (true, none) := rfl

theorem cancelledEvery_none (step n : ℕ) : cancelledEvery step n none = (false, none) := by
  rw [cancelledEvery]
  split
  · rfl
  · rfl

theorem sizeDir_none (t : Tally) : sizeDir t none = ((t, .next), none) := by
  rw [sizeDir, bind_apply, cancelledEvery_none]
  rfl

theorem listed_sizeEntry (readable : Bool) (t : Tally) :
    listed sizeEntry readable t none = ((t, .next), none) := by
  rw [listed]
  split
  · rfl
  · rfl

theorem sizeEntry_file {t : Tally} (h : t.files < maxFilesWalked) (name : String)
    (info : Option ℕ) :
    sizeEntry (.file name info) t none = ((t.add (fileTally info), .next), none) := by
  rw [sizeEntry, if_neg (by simp), if_neg (Nat.not_le.mpr h), bind_apply, cancelledEvery_none]
  cases info with
  | none => rfl
  | some size => rfl

theorem sizeEntry_dir {t : Tally} (h : t.files < maxFilesWalked) (name : String) :
    sizeEntry (.dir name) t none
      = (if isSystemFolder name then (t, .skipDir) else (t.add ⟨0, 0, 1⟩, .next), none) := by
  rw [sizeEntry, if_neg (by simp), if_neg (Nat.not_le.mpr h), bind_apply, cancelledEvery_none]
  show sizeVisit t (.dir name) none = _
  rw [sizeVisit]
  split
  · rfl
  · exact sizeDir_none _

/-- Below the limit, everything is counted. -/
theorem walk_sizeEntry (es : Entries) {t : Tally}
    (h : t.files + (total es).files < maxFilesWalked) :
    walk sizeEntry es t none = ((t.add (total es), .next), none) := by
  induction es generalizing t with
  | nil => rfl
  | file name info rest ih =>
    rw [total, Tally.add_files] at h
    rw [walk, bind_apply, sizeEntry_file (by omega)]
    show walk sizeEntry rest (t.add (fileTally info)) none = _
    rw [ih (by rw [Tally.add_files]; omega), total, Tally.add_assoc]
  | dir name readable inside rest ihInside ihRest =>
    rw [walk, bind_apply]
    by_cases hsystem : isSystemFolder name = true
    · rw [total, if_pos hsystem] at h
      rw [sizeEntry_dir (by omega), if_pos hsystem]
      show walk sizeEntry rest t none = _
      rw [ihRest h, total, if_pos hsystem]
    · rw [total, if_neg hsystem, Tally.add_files, Tally.add_files] at h
      rw [sizeEntry_dir (by omega), if_neg hsystem]
      show (listed sizeEntry readable (t.add ⟨0, 0, 1⟩) >>= _) none = _
      rw [bind_apply, listed_sizeEntry]
      show (walk sizeEntry inside (t.add ⟨0, 0, 1⟩) >>= _) none = _
      rw [bind_apply, ihInside (by rw [Tally.add_files]; omega)]
      show walk sizeEntry rest ((t.add ⟨0, 0, 1⟩).add (total inside)) none = _
      rw [ihRest (by rw [Tally.add_files, Tally.add_files]; omega), total, if_neg hsystem,
        Tally.add_assoc, Tally.add_assoc, Tally.add_assoc]

theorem dirSize_none {d : Dir} (h : (total d.entries).files < maxFilesWalked) :
    dirSize d none = (total d.entries, none) := by
  have hroot : sizeEntry .root {} none = (({}, .next), none) := rfl
  rw [dirSize, walkDir, bind_apply, hroot]
  show (listed sizeEntry d.readable {} >>= _) none = _
  rw [bind_apply, listed_sizeEntry]
  show (walk sizeEntry d.entries {} >>= _) none = _
  rw [bind_apply, walk_sizeEntry d.entries (by simpa using h), Tally.empty_add]
  rfl

end

end Argus.Collect
