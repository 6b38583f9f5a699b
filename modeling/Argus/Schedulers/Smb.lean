import Argus.Lib.JsText
import Mathlib.Data.Rat.Defs
import Mathlib.Algebra.Order.Ring.Rat

namespace Argus.Schedulers

/-!
# The probe of a share

`smbProbe` reads the capacity of a share and walks its watched folders, breadth first, one `ls`
for each directory.  A walk waits at every turn of its loop, so it is cut here at its `await`s:
what stands between two of them is a function from a `Walk` to the `Pause` it comes to next.

* `parseUnc`, `shareRoots` — what is walked.
* `Walk` — the variables of `smbProbe` and of the `walkRoot` it waits for.
* `Walk.head` — the head of the loop: budget, `isCancelled`, `waitIfPaused`, in this order.
* `Walk.shift`, `Walk.absorb` — a directory is taken from the queue; its listing is counted.
* `Walk.next` — the loop over the roots, from the end of one `walkRoot`.
* `Walk.ReachesCheck` — the walk comes to `isCancelled` once more.
* `Walk.head_cancelled`, `Walk.next_cancelled` — a cancelled walk that does, throws.
-/

/-! ### Paths -/

structure Unc where
  host : String
  share : String
  base : String
deriving DecidableEq, Repr

/-- What separates the parts of a path. -/
def isSeparator (c : Char) : Bool := c == '\\' || c == '/'

/-- What `.` does not match in a regular expression. -/
def isLineEnd (c : Char) : Bool := c == '\n' || c == '\r' || c == '\u2028' || c == '\u2029'

/-- `replace(/\//g, "\\")`. -/
def backslashes (s : List Char) : List Char := s.map fun c => if c == '/' then '\\' else c

/-- Host, share and base of `\\host\share[\sub...]`. -/
def parseUnc (path : String) : Option Unc :=
  let s := JsText.trimChars path.toList
  let afterSlashes := s.dropWhile (· == '\\')
  let host := afterSlashes.takeWhile (!isSeparator ·)
  let afterHost := (afterSlashes.dropWhile (!isSeparator ·)).dropWhile isSeparator
  let share := afterHost.takeWhile (!isSeparator ·)
  let base := (afterHost.dropWhile (!isSeparator ·)).dropWhile isSeparator
  if 2 ≤ (s.takeWhile (· == '\\')).length ∧ host ≠ [] ∧ share ≠ [] ∧ base.all (!isLineEnd ·) then
    some ⟨String.ofList host, String.ofList share, String.ofList (backslashes base)⟩
  else none

/-- A text of at most so many characters, all of them letters, digits or among `others`. -/
def matchesClass (others : List Char) (least most : ℕ) (s : String) : Bool :=
  s.toList.all (fun c => c.isAlphanum || others.contains c) && least ≤ s.length && s.length ≤ most

def hostRe : String → Bool := matchesClass ['.', '-'] 1 253

def shareRe : String → Bool := matchesClass [' ', '.', '_', '$', '-'] 1 80

def subRe : String → Bool := matchesClass [' ', '.', '_', '-', '/', '\\'] 0 255

/-- The path of `smbProbe`, when it is one. -/
def validUnc (path : String) : Option Unc :=
  (parseUnc path).filter fun unc => hostRe unc.host && shareRe unc.share

/-- `.`, the empty text and a lone separator mean the root of the share. -/
def normSub (sub : String) : String :=
  let s := backslashes (JsText.trimChars sub.toList)
  let s := String.ofList ((s.dropWhile (· == '\\')).rdropWhile (· == '\\'))
  if s = "." then "" else s

/-- `a\b`, where either part may be missing. -/
def joinPath (a b : String) : String :=
  if a = "" then b else if b = "" then a else a ++ "\\" ++ b

structure SmbWatch where
  sub : String
  depth : ℚ
deriving DecidableEq, Repr

structure Root where
  sub : String
  depth : ℚ
  label : String
deriving DecidableEq, Repr

/-- The root of one watched folder; a folder with characters that `smbclient` would read as
    commands has none. -/
def watchedRoot (base : String) (w : SmbWatch) : Option Root :=
  let sub := normSub w.sub
  let full := joinPath base sub
  if subRe full then
    some ⟨full, max 1 (min 6 (if w.depth = 0 then 1 else w.depth)), sub⟩
  else none

def shareRoots (base : String) (folders : Bool) (watch : List SmbWatch) : List Root :=
  let roots := watch.filterMap (watchedRoot base)
  if folders = true ∧ roots = [] then [⟨base, 1, ""⟩] else roots

/-! ### Samples -/

structure FolderNode where
  name : String
  sizeBytes : ℕ
  fileCount : ℕ
  folderCount : ℕ
deriving DecidableEq, Repr

/-- The numbers in "blocks of size/available". -/
structure Capacity where
  blocks : ℕ
  blockSize : ℕ
  available : ℕ
deriving DecidableEq, Repr

structure StorageSample where
  reachable : Bool
  totalBytes : Option ℕ := none
  freeBytes : Option ℕ := none
  usedBytes : Option ℕ := none
  usedPct : Option ℚ := none
  folders : Option (List FolderNode) := none
  error : Option String := none
deriving DecidableEq, Repr

def StorageSample.unreachable (error : String) : StorageSample :=
  { reachable := false, error := some error }

/-- The sample of a share that answered, before its folders are known. -/
def StorageSample.ofCapacity : Option Capacity → StorageSample
  | none => { reachable := true }
  | some c =>
    let total := c.blocks * c.blockSize
    let free := c.available * c.blockSize
    { reachable := true
      totalBytes := some total
      freeBytes := some free
      usedBytes := some (total - free)
      usedPct := if 0 < total then some ((total - free : ℕ) / total * 100) else none }

/-! ### The walk -/

structure DirListing where
  dirs : List String
  fileBytes : ℕ
  fileCount : ℕ
deriving DecidableEq, Repr

/-- A directory below a root, with what it holds as far as it has been seen. -/
structure Node where
  rel : String
  bytes : ℕ := 0
  files : ℕ := 0
  subdirs : ℕ := 0
  depth : ℕ
deriving DecidableEq, Repr

structure Totals where
  folders : ℕ := 0
  files : ℕ := 0
  bytes : ℕ := 0
deriving DecidableEq, Repr

/-- `node(rel, depth)`: the map of nodes has an entry for `rel` afterwards. -/
def ensureNode (rel : String) (depth : ℕ) (nodes : List Node) : List Node :=
  if nodes.any (·.rel == rel) then nodes else nodes ++ [{ rel := rel, depth := depth }]

/-- `p.slice(0, p.lastIndexOf("\\"))`, or the empty text. -/
def parentDir (p : List Char) : List Char := (p.rdropWhile (· != '\\')).dropLast

/-- A directory and its ancestors, the root last. -/
def ancestors : ℕ → List Char → List String
  | 0, _ => [""]
  | fuel + 1, p => if p = [] then [""] else String.ofList p :: ancestors fuel (parentDir p)

def depthOf (p : String) : ℕ := if p = "" then 0 else p.toList.count '\\' + 1

/-- The files and subfolders of a listing, credited to the directory `p`. -/
def credit (l : DirListing) (nodes : List Node) (p : String) : List Node :=
  (ensureNode p (depthOf p) nodes).map fun n =>
    if n.rel = p then
      { n with
        bytes := n.bytes + l.fileBytes
        files := n.files + l.fileCount
        subdirs := n.subdirs + l.dirs.length }
    else n

def maxSubdirsPerDir : ℕ := 4000

def maxLsCalls : ℕ := 6000

def walkBudgetMs : ℕ := 180000

def maxFolders : ℕ := 3000

def truncatedError : String :=
  "folder tree truncated — very large share; lower the depth or it will fill in over successive scans"

/-- The variables of `smbProbe`, and of the `walkRoot` it waits for. -/
structure Walk where
  /-- What is known of the share without its folders. -/
  sample : StorageSample
  root : Root
  later : List Root
  queue : List (String × ℕ)
  nodes : List Node
  /-- `partial` of the root. -/
  cut : Bool
  calls : ℕ
  deadline : ℕ
  totals : Totals
  folders : List FolderNode
  /-- `partial` of the roots before. -/
  truncated : Bool
deriving DecidableEq, Repr

/-- Where the probe waits after a stretch of its code. -/
inductive Pause
  /-- In `waitIfPaused`, for a call of `resumeScan` or `cancelScan`. -/
  | waiting (w : Walk)
  /-- In `waitIfPaused`, whose promise one of these has resolved. -/
  | woken (w : Walk)
  /-- For `waitIfPaused`, which has returned. -/
  | ready (w : Walk)
  /-- For the `ls` of a directory. -/
  | listing (w : Walk) (rel : String) (depth : ℕ)
  /-- For `walkRoot`, which has returned. -/
  | walked (w : Walk)
  /-- It has returned. -/
  | probed (sample : StorageSample)
deriving DecidableEq, Repr

namespace Walk

variable (w : Walk)

def full (rel : String) : String := joinPath w.root.sub rel

/-- The head of the loop of `walkRoot`; `none` stands for `ScanCancelled`. -/
def head (isCancelled paused : Bool) (now : ℕ) : Option Pause :=
  if w.queue = [] then some (.walked w)
  else if w.calls = 0 ∨ w.deadline < now then some (.walked { w with cut := true })
  else if isCancelled then none
  else if paused then some (.waiting w)
  else some (.ready w)

/-- The loop after `waitIfPaused`: the next directory is listed, or left out. -/
def shift (isCancelled paused : Bool) (now : ℕ) : Option Pause :=
  match w.queue with
  | [] => some (.walked w)
  | (rel, depth) :: queue =>
    let w := { w with queue := queue }
    if subRe (w.full rel) then some (.listing { w with calls := w.calls - 1 } rel depth)
    else w.head isCancelled paused now

/-- The children of a directory, for the queue. -/
def children (rel : String) (depth : ℕ) (l : DirListing) : List (String × ℕ) :=
  if (depth : ℚ) < w.root.depth then
    (l.dirs.take maxSubdirsPerDir).map fun d =>
      (if rel = "" then d else rel ++ "\\" ++ d, depth + 1)
  else []

/-- The listing of a directory is counted; one that failed leaves the tree incomplete. -/
def absorb (rel : String) (depth : ℕ) : Option DirListing → Walk
  | none => { w with cut := true }
  | some l =>
    let children := w.children rel depth l
    { w with
      queue := w.queue ++ children
      nodes := children.foldl (fun nodes child => ensureNode child.1 child.2 nodes)
        ((ancestors rel.length rel.toList).foldl (credit l) w.nodes)
      cut := w.cut || (decide ((depth : ℚ) < w.root.depth) && maxSubdirsPerDir < l.dirs.length)
      totals :=
        { folders := w.totals.folders + 1
          files := w.totals.files + l.fileCount
          bytes := w.totals.bytes + l.fileBytes } }

/-- The loop after a listing. -/
def listed (isCancelled paused : Bool) (now : ℕ) (rel : String) (depth : ℕ)
    (l : Option DirListing) : Option Pause :=
  (w.absorb rel depth l).head isCancelled paused now

/-- The folders of the root that is done. -/
def rootFolders : List FolderNode :=
  (w.nodes.filter fun n => !(w.root.label == "" && n.depth < 1)).map fun n =>
    let rel := String.ofList (n.rel.toList.map fun c => if c == '\\' then '/' else c)
    { name := if w.root.label = "" then rel else if n.rel = "" then w.root.label
        else w.root.label ++ "/" ++ rel
      sizeBytes := n.bytes, fileCount := n.files, folderCount := n.subdirs }

variable (localeLe : String → String → Bool)

/-- What `smbProbe` returns; `localeLe` is the order of `localeCompare`. -/
def result : StorageSample :=
  { w.sample with
    folders := if w.folders = [] then none
      else some ((w.folders.mergeSort fun a b => localeLe a.name b.name).take maxFolders)
    error := if w.truncated then some truncatedError else none }

/-- The loop over the roots: the next one that may be walked, or the end. -/
def roots (isCancelled paused : Bool) (now : ℕ) : Option Pause :=
  match w.later.dropWhile (!subRe ·.sub) with
  | [] => some (.probed (w.result localeLe))
  | root :: later =>
    head { w with root := root, later := later, queue := [("", 0)], nodes := [], cut := false }
      isCancelled paused now

/-- The same, when the `walkRoot` it waited for has returned. -/
def next (isCancelled paused : Bool) (now : ℕ) : Option Pause :=
  roots { w with folders := w.folders ++ w.rootFolders, truncated := w.truncated || w.cut }
    localeLe isCancelled paused now

/-- The first part of `smbProbe`, when the share has answered. -/
def start (roots : List Root) (now : ℕ) (capacity : Option Capacity) : Walk where
  sample := StorageSample.ofCapacity capacity
  root := ⟨"", 0, ""⟩
  later := roots
  queue := []
  nodes := []
  cut := false
  calls := maxLsCalls
  deadline := now + walkBudgetMs
  totals := {}
  folders := []
  truncated := false

end Walk

/-! ### Pauses -/

namespace Walk

variable {w v : Walk} {isCancelled paused : Bool} {now : ℕ}

theorem head_waiting (h : w.head isCancelled paused now = some (.waiting v)) : paused = true := by
  rw [head] at h
  split at h
  · cases h
  · split at h
    · cases h
    · split at h
      · cases h
      · split at h
        · assumption
        · cases h

theorem shift_waiting (h : w.shift isCancelled paused now = some (.waiting v)) :
    paused = true := by
  rw [shift] at h
  split at h
  · cases h
  · dsimp only at h
    split at h
    · cases h
    · exact head_waiting h

theorem shift_cons {rel : String} {depth : ℕ} {queue : List (String × ℕ)}
    (hqueue : w.queue = (rel, depth) :: queue) (isCancelled paused : Bool) (now : ℕ) :
    w.shift isCancelled paused now
      = if subRe (w.full rel) = true then
          some (.listing { w with queue := queue, calls := w.calls - 1 } rel depth)
        else head { w with queue := queue } isCancelled paused now := by
  rw [shift, hqueue]
  rfl

theorem roots_waiting {localeLe : String → String → Bool}
    (h : w.roots localeLe isCancelled paused now = some (.waiting v)) : paused = true := by
  rw [roots] at h
  split at h
  · cases h
  · exact head_waiting h

end Walk

/-! ### A cancelled walk -/

namespace Walk

variable (w : Walk)

/-- There are calls and time left. -/
def InBudget (now : ℕ) : Prop := w.calls ≠ 0 ∧ now ≤ w.deadline

/-- A root comes that may be walked. -/
def MoreRoots : Prop := ∃ root ∈ w.later, subRe root.sub = true

/-- The walk comes to `isCancelled` once more: a directory is left, of this root or of another,
    and the budget is not used up. -/
def ReachesCheck (now : ℕ) : Prop := w.InBudget now ∧ (w.queue ≠ [] ∨ w.MoreRoots)

instance (now : ℕ) : Decidable (w.InBudget now) := inferInstanceAs (Decidable (_ ∧ _))

instance : Decidable w.MoreRoots := inferInstanceAs (Decidable (∃ _ ∈ _, _))

instance (now : ℕ) : Decidable (w.ReachesCheck now) := inferInstanceAs (Decidable (_ ∧ _))

/-- The directory in front is left out, and then the walk comes to `isCancelled` once more. -/
def leavesOut (now : ℕ) : Bool :=
  match w.queue with
  | [] => false
  | (rel, _) :: queue =>
    !subRe (w.full rel) && decide (ReachesCheck { w with queue := queue } now)

variable {w} {now : ℕ} {paused : Bool}

theorem head_of_queue (hbudget : w.InBudget now) (hqueue : w.queue ≠ []) :
    w.head true paused now = none := by
  have hleft : ¬ (w.calls = 0 ∨ w.deadline < now) := by
    rintro (hcalls | hlate)
    · exact hbudget.1 hcalls
    · exact absurd hbudget.2 (by omega)
  rw [head, if_neg hqueue, if_neg hleft, if_pos rfl]

/-- At the head of the loop a cancelled walk throws, or it is done with its root. -/
theorem head_cancelled (h : w.ReachesCheck now) :
    w.head true paused now = none ∨ w.head true paused now = some (.walked w) := by
  by_cases hqueue : w.queue = []
  · right
    rw [head, if_pos hqueue]
  · left
    exact head_of_queue h.1 hqueue

theorem shift_cancelled (paused : Bool) (h : w.leavesOut now = true) :
    ∃ v : Walk, v.ReachesCheck now ∧ w.shift true paused now = v.head true paused now := by
  rw [leavesOut] at h
  split at h
  · cases h
  · rename_i rel depth queue hqueue
    simp only [Bool.and_eq_true, Bool.not_eq_true', decide_eq_true_eq] at h
    refine ⟨{ w with queue := queue }, h.2, ?_⟩
    have hskip : subRe (full { w with queue := queue } rel) = false := h.1
    rw [shift, hqueue]
    dsimp only
    rw [if_neg (by simp [hskip])]

/-- A cancelled probe throws with the first directory of its next root. -/
theorem roots_cancelled {localeLe : String → String → Bool} (hbudget : w.InBudget now)
    (hmore : w.MoreRoots) : w.roots localeLe true paused now = none := by
  obtain ⟨root, hroot, hsub⟩ := hmore
  have hne : w.later.dropWhile (!subRe ·.sub) ≠ [] := by
    intro hnil
    have hall := List.dropWhile_eq_nil_iff.mp hnil root hroot
    rw [hsub] at hall
    exact absurd hall (by simp)
  rw [roots]
  split
  · rename_i hnil
    exact absurd hnil hne
  · exact head_of_queue hbudget (List.cons_ne_nil _ _)

theorem next_cancelled {localeLe : String → String → Bool} (hbudget : w.InBudget now)
    (hmore : w.MoreRoots) : w.next localeLe true paused now = none :=
  roots_cancelled (w := { w with
    folders := w.folders ++ w.rootFolders, truncated := w.truncated || w.cut }) hbudget hmore

end Walk

end Argus.Schedulers
