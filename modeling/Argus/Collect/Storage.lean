import Argus.Collect.Folders
import Argus.Collect.ScanTimes
import Argus.Lib.JsValue
import Mathlib.Logic.Function.Basic

namespace Argus.Collect

/-!
# Storage monitors of the agent

A storage monitor watches a share: its capacity at every tick, and its folders, which are walked now
and then and kept in a cache in between.  A user may have them walked at once.

* `watchSpecs`, `storageScanParams` — the folders in the configuration of a monitor.
* `walkWatch` — the walk of one of them.
* `cachedFolders`, `storage` — what a tick reports.
* `runScan`, `Scan` — a scan that a user has asked for.
-/

open FileTree Polling

/-! ### Configuration -/

/-- A folder to watch.  `ScanTimes` go before `RefreshMin`. -/
structure WatchSpec where
  sub : String
  depth : ℤ := 0
  refreshMin : ℤ := 0
  scanTimes : List String := []
  scanTZ : String := ""
deriving DecidableEq, Repr

def stringField (cfg : Fields JsValue) (key : String) : String :=
  match cfg.get key with
  | some (.str s) => s
  | _ => ""

/-- `intField`, for numbers that an `int` can hold. -/
def intField (cfg : Fields JsValue) (key : String) : ℤ :=
  match cfg.get key with
  | some (.num x) => ⌊x.trunc.val⌋
  | _ => 0

def boolField (cfg : Fields JsValue) (key : String) : Bool :=
  match cfg.get key with
  | some (.bool b) => b
  | _ => false

def stringSlice (cfg : Fields JsValue) (key : String) : List String :=
  match cfg.get key with
  | some (.arr xs) => xs.filterMap fun x => match x with
    | .str s => if GoText.trimSpace s = "" then none else some (GoText.trimSpace s)
    | _ => none
  | _ => []

/-- A folder in the configuration: a path, or an object with one.  Blank paths are skipped. -/
def watchSpec : JsValue → Option WatchSpec
  | .str v =>
    let s := GoText.trimSpace v
    if s = "" then none else some { sub := s }
  | .obj v =>
    let p := GoText.trimSpace (stringField v "path")
    if p = "" then none
    else some { sub := p, depth := intField v "depth", refreshMin := intField v "refreshMin",
                scanTimes := stringSlice v "scanTimes", scanTZ := stringField v "scanTimezone" }
  | _ => none

def watchSpecs (cfg : Fields JsValue) (key : String) : List WatchSpec :=
  match cfg.get key with
  | some (.arr xs) => xs.filterMap watchSpec
  | _ => []

def storageScanParams (cfg : Fields JsValue) : String × Bool × List WatchSpec :=
  (stringField cfg "path", boolField cfg "folders", watchSpecs cfg "watchFolders")

/-- `unlimitedDepth`. -/
def unlimitedDepth : ℕ := 64

def scanDepth (d : ℤ) : ℕ := if d < 1 then unlimitedDepth else d.toNat

/-! ### Walks -/

/-- What there is at a path. -/
inductive Found
  | file (info : Option ℕ)
  | dir (d : Dir)
deriving DecidableEq, Repr

/-- The directory that `os.ReadDir` lists; a file cannot be listed. -/
def Found.listing : Found → Dir
  | .file _ => ⟨false, .nil⟩
  | .dir d => d

/-- `dirSize`, also of a file. -/
def Found.size : Found → ScanM Tally
  | .file info => do
    let (t, _) ← sizeEntry (.file "" info) {}
    pure t
  | .dir d => dirSize d

/-- A share, by the paths below its own. -/
abbrev Share := String → Option Found

variable (sortSize : SizeSort)

def walkWatch (share : Share) (w : WatchSpec) : ScanM (List FolderNode) :=
  match share w.sub with
  | none => pure []
  | some full =>
    let depth := scanDepth w.depth
    if w.sub = "" ∨ w.sub = "." then do
      let (folders, _) ← enumFolders sortSize full.listing "" depth maxFolderNodes
      pure folders
    else do
      let t ← full.size
      let (folders, _) ← enumDeeper depth maxFolderNodes
        (enumFolders sortSize full.listing w.sub (depth - 1) maxFolderNodes)
      pure (⟨w.sub, t.size, t.files, t.dirs⟩ :: folders)

/-! ### The cache -/

structure FolderCacheEntry where
  folders : List FolderNode
  stamp : ℤ
deriving DecidableEq, Repr

abbrev FolderCache := String → Option FolderCacheEntry

def folderKey (path sub : String) (depth : ℕ) : String :=
  path ++ "|" ++ sub ++ "|" ++ toString depth

/-- The key of a watched folder. -/
def WatchSpec.key (w : WatchSpec) (path : String) : String :=
  folderKey path w.sub (scanDepth w.depth)

def setFolderCache (cache : FolderCache) (key : String) (folders : List FolderNode) (now : ℤ) :
    FolderCache :=
  Function.update cache key (some ⟨folders, now⟩)

/-- The cache, and the keys for which folders have been walked. -/
structure Folders where
  cache : FolderCache
  walked : List String := []

def cachedFolders (now : ℤ) (key : String) (due : ℤ → Bool) (compute : List FolderNode) :
    StateM Folders (List FolderNode) := fun s =>
  match (s.cache key).filter fun entry => !due entry.stamp with
  | some entry => (entry.folders, s)
  | none => (compute, ⟨setFolderCache s.cache key compute now, s.walked ++ [key]⟩)

/-! ### Ticks -/

/-- A number of 64 bits with a sign. -/
def int64 (n : ℤ) : ℤ := n.bmod (2 ^ 64)

/-- `folderRefresh`. -/
def folderRefresh : ℤ := 15 * minute

/-- How long a walk of the folder lasts, if it has no fixed times.  A `time.Duration` has 64
    bits. -/
def WatchSpec.ttl (w : WatchSpec) : ℤ :=
  if 0 < w.refreshMin then int64 (w.refreshMin * minute) else folderRefresh

inductive MonitorStatus
  | UNKNOWN
  | DOWN
  | UP
  | DEGRADED
deriving DecidableEq, Repr

structure StorageSample where
  reachable : Bool
  totalBytes : Option ℤ := none
  freeBytes : Option ℤ := none
  usedBytes : Option ℤ := none
  usedPct : Option ℚ := none
  folders : List FolderNode := []
deriving DecidableEq

structure MonitorUnit where
  entity : String
  status : MonitorStatus
  storage : Option StorageSample := none
deriving DecidableEq

/-- The folders of a report. -/
def MonitorUnit.folders (u : MonitorUnit) : List FolderNode :=
  (u.storage.map StorageSample.folders).getD []

/-- `capacityThresholdPct`. -/
def capacityThresholdPct : ℚ := 90

/-- What is used of so many bytes. -/
def usedBytes (total free : ℕ) : ℤ := if free < total then int64 (total - free) else 0

/-- The same as a percentage, in floating point. -/
def usedPct (total free : ℕ) : ℚ :=
  if 0 < total then
    JsNumber.round (JsNumber.round (JsNumber.round (usedBytes total free) / JsNumber.round total)
      * 100)
  else 0

variable (zones : Zones)

/-- The folders of the watch list, one after the other. -/
def watchFolders (now : ℤ) (share : Share) (path : String) :
    List WatchSpec → StateM Folders (List FolderNode)
  | [] => pure []
  | w :: watch => do
    let nodes ← cachedFolders now (w.key path)
      (fun last => dueAt zones now last w.ttl w.scanTimes w.scanTZ)
      (walkWatch sortSize share w none).1
    let more ← watchFolders now share path watch
    pure (nodes ++ more)

/-- The folders of a whole share, if no folder is watched. -/
def topFolders (now : ℤ) (share : Share) (path : String) : StateM Folders (List FolderNode) :=
  cachedFolders now (path ++ "|top") (fun last => decide (folderRefresh ≤ now - last))
    (enumFolders sortSize (((share "").map Found.listing).getD ⟨false, .nil⟩) "" 1 maxFolderNodes
      none).1.1

def reportedFolders (now : ℤ) (share : Share) (path : String) (withFolders : Bool)
    (watch : List WatchSpec) : StateM Folders (List FolderNode) :=
  if watch.isEmpty && withFolders then topFolders sortSize now share path
  else watchFolders sortSize zones now share path watch

/-- The report on a share that can be reached. -/
def capacityUnit (name : String) (total free : ℕ) (folders : List FolderNode) : MonitorUnit where
  entity := name
  status := if capacityThresholdPct ≤ usedPct total free then .DEGRADED else .UP
  storage := some
    { reachable := true, totalBytes := some (int64 total), freeBytes := some (int64 free)
      usedBytes := some (usedBytes total free), usedPct := some (usedPct total free)
      folders := if folders = [] then [] else sortSize.sort folders }

/-- `Storage`, at an instant; `capacity` is what `storageCapacity` finds. -/
def storage (now : ℤ) (share : Share) (capacity : Option (ℕ × ℕ)) (name path : String)
    (withFolders : Bool) (watch : List WatchSpec) : StateM Folders MonitorUnit :=
  if path = "" then pure ⟨name, .UNKNOWN, none⟩
  else match capacity with
    | none => pure ⟨name, .DOWN, some { reachable := false }⟩
    | some (total, free) => do
      let folders ← reportedFolders sortSize zones now share path withFolders watch
      pure (capacityUnit sortSize name total free folders)

/-! ### Scans -/

/-- The folders that a scan walks. -/
def scanSpecs (withFolders : Bool) (watch : List WatchSpec) : List WatchSpec :=
  if watch.isEmpty && withFolders then [{ sub := ".", depth := 1 }] else watch

/-- What a scan stores for a folder. -/
structure Stored where
  spec : WatchSpec
  nodes : List FolderNode
  /-- Whether the scan was seen to be cancelled by then.  The agent does not look at this here. -/
  cut : Bool
deriving DecidableEq, Repr

/-- The loop of `RunScan`: what it stores, in this order. -/
def scanFolders (share : Share) : List WatchSpec → ScanM (List Stored)
  | [] => pure []
  | w :: specs => do
    if ← cancelled then pure []
    else
      let nodes ← walkWatch sortSize share w
      let cut ← observed
      let more ← scanFolders share specs
      pure (⟨w, nodes, cut⟩ :: more)

/-- The final totals are those of the nodes without a slash in their names. -/
def topLevel (folders : List FolderNode) : List FolderNode :=
  folders.filter fun n => !n.name.toList.contains '/'

/-- `RunScan`, once it has begun. -/
def runScan (share : Share) (withFolders : Bool) (watch : List WatchSpec) :
    ScanM (List Stored) := do
  let stored ← scanFolders sortSize share (scanSpecs withFolders watch)
  let top := topLevel (stored.flatMap Stored.nodes)
  let stopped ← cancelled
  report fun p =>
    { p with files := (top.map FolderNode.fileCount).sum
             bytes := (top.map FolderNode.sizeBytes).sum
             status := if stopped then "cancelled" else "done" }
  pure stored

/-- A scan when it begins; its flag is set when it has been looked at `cancelAt` times. -/
def scanStart (cancelAt : Option ℕ) : Run ScanProgress := ⟨cancelAt, 0, ⟨"running", 0, 0, 0, ""⟩⟩

/-- What a scan has stored, and what it reports in the end. -/
structure Scan where
  stored : List Stored
  progress : ScanProgress
deriving DecidableEq, Repr

/-- A whole scan. -/
def scan (share : Share) (withFolders : Bool) (watch : List WatchSpec) (cancelAt : Option ℕ) :
    Scan :=
  let out := runScan sortSize share withFolders watch (some (scanStart cancelAt))
  ⟨out.1, (out.2.getD (scanStart cancelAt)).progress⟩

/-- The folders that a scan has found. -/
def Scan.folders (s : Scan) : List FolderNode := s.stored.flatMap Stored.nodes

/-- The cache after a scan that stores its folders at these instants. -/
def storeAll (path : String) (clock : ℕ → ℤ) : List Stored → FolderCache → FolderCache
  | [], cache => cache
  | s :: stored, cache =>
    storeAll path (fun n => clock (n + 1)) stored
      (setFolderCache cache (s.spec.key path) s.nodes (clock 0))

end Argus.Collect
