import Argus.Lib.Ranking
import Argus.Reports.Storage

namespace Argus.Reports

open Ranking

/-!
# The detailed storage report

`buildStorageDetailData` of `reports.ts`: the capacity report with the largest folders of the last
walk.  It finds the capacity of a monitor by its name, and takes for the last walk the rows of the
last six hours, in which a folder may come more than once.

* `buildStorageDetailData` — the report, for a database that may put rows of one size in any order.
* `IsTop`, `Right` — what an entry should be: the capacity of its own monitor, and the largest
  folders by the most recent row of each.
* `Fresh` — when the largest row of a folder does for its most recent one.
* `detail_right_iff` — which databases the report is right about.
-/

/-! ### The report -/

/-- A row of `folder_metrics`. -/
structure FolderMetric where
  storageId : String
  folder : String
  sizeBytes : Option ℤ
  fileCount : Option ℤ
  folderCount : Option ℤ
  ts : ℤ
deriving DecidableEq, Repr

structure TopFolder where
  folder : String
  sizeBytes : Option ℤ
  fileCount : Option ℤ
  folderCount : Option ℤ
deriving DecidableEq, Repr

def topFolder (r : FolderMetric) : TopFolder := ⟨r.folder, r.sizeBytes, r.fileCount, r.folderCount⟩

structure StorageDetailMonitor where
  name : String
  current : StorageCurrent
  freeBytes : Option ℤ
  days : List StorageDay
  topFolders : List TopFolder
  capturedAt : Option ℤ

def TOP_FOLDERS : ℕ := 30

/-- `WALK_WINDOW_MS`. -/
def walkWindowMs : ℤ := 6 * 60 * 60 * 1000

/-- The newest time of the folders of a monitor. -/
def latestWalk (metrics : List FolderMetric) (id : String) : Option ℤ :=
  ((metrics.filter (fun r => r.storageId == id)).map FolderMetric.ts).max?

/-- The rows from six hours before it; `Date.parse` leaves out what is less than a millisecond. -/
def walkRows (metrics : List FolderMetric) (id : String) : List FolderMetric :=
  match latestWalk metrics id with
  | some latest =>
    let sinceWalk := (latest / 1000 - walkWindowMs) * 1000
    metrics.filter (fun r => r.storageId == id && decide (sinceWalk ≤ r.ts))
  | none => []

/-- The loop over the rows, with `n` folders still to be shown. -/
def pickFolders (seen : List String) : ℕ → List FolderMetric → List TopFolder
  | 0, _ => []
  | _ + 1, [] => []
  | n + 1, r :: rows =>
    if r.folder ∈ seen then pickFolders seen (n + 1) rows
    else topFolder r :: pickFolders (seen ++ [r.folder]) n rows

section

/- What the database makes of `ORDER BY ts` and of `ORDER BY size_bytes DESC`. -/
variable (dateOf : ℤ → String) (byTime : List StorageMetric → List StorageMetric)
  (bySize : List FolderMetric → List FolderMetric)

structure ReportDb where
  monitors : List MonitorRow
  storageMetrics : List StorageMetric
  folderMetrics : List FolderMetric

def storageDetailMonitor (db : ReportDb) (base : List StorageMonitor) (m : MonitorRow) :
    StorageDetailMonitor :=
  let baseMon := base.find? (fun b => b.name == m.name)
  let cur := (baseMon.map StorageMonitor.current).getD ⟨none, none, none⟩
  { name := m.name
    current := cur
    freeBytes := cur.totalBytes.bind fun total => cur.usedBytes.map fun used => total - used
    days := (baseMon.map StorageMonitor.days).getD []
    topFolders := pickFolders [] TOP_FOLDERS ((bySize (walkRows db.folderMetrics m.id)).take 200)
    capturedAt := latestWalk db.folderMetrics m.id }

def buildStorageDetailData (db : ReportDb) (scope : ReportScope) (win : TimeWindow) :
    List StorageDetailMonitor :=
  let base := buildStorageData dateOf byTime db.monitors db.storageMetrics scope win
  (resolveStorageMonitors db.monitors scope).map (storageDetailMonitor bySize db base)

end

/-! ### What an entry should be -/

/-- `a` is no larger than `b`; a size that is not known is not large. -/
def sizeLe : Option ℤ → Option ℤ → Prop
  | none, _ => True
  | some _, none => False
  | some x, some y => x ≤ y

instance : DecidableRel sizeLe := fun
  | none, _ => .isTrue trivial
  | some _, none => .isFalse id
  | some x, some y => inferInstanceAs (Decidable (x ≤ y))

theorem eq_none_of_sizeLe {a : Option ℤ} (h : sizeLe a none) : a = none := by
  cases a with
  | none => rfl
  | some x => exact h.elim

/-- Of its folder, no row is newer. -/
def IsLatest (rows : List FolderMetric) (r : FolderMetric) : Prop :=
  ∀ r' ∈ rows, r'.folder = r.folder → r'.ts ≤ r.ts

instance (rows : List FolderMetric) (r : FolderMetric) : Decidable (IsLatest rows r) :=
  inferInstanceAs (Decidable (∀ r' ∈ rows, _))

def folderCard (rows : List FolderMetric) : ℕ := (rows.map FolderMetric.folder).toFinset.card

/-- The largest folders of a walk, by the latest row of each, and as many as there is room for. -/
structure IsTop (rows : List FolderMetric) (top : List TopFolder) : Prop where
  length : top.length = min TOP_FOLDERS (folderCard rows)
  nodup : (top.map TopFolder.folder).Nodup
  latest : ∀ t ∈ top, ∃ r ∈ rows, IsLatest rows r ∧ topFolder r = t
  sorted : top.Pairwise (fun s t => sizeLe t.sizeBytes s.sizeBytes)
  largest : ∀ r ∈ rows, IsLatest rows r → r.folder ∉ top.map TopFolder.folder →
    ∀ t ∈ top, sizeLe r.sizeBytes t.sizeBytes

/-! ### The rows that are shown -/

theorem pickFolders_eq (seen : List String) (n : ℕ) (rows : List FolderMetric) :
    pickFolders seen n rows
      = ((firstsAfter FolderMetric.folder seen rows).take n).map topFolder := by
  induction rows generalizing seen n with
  | nil => cases n <;> rfl
  | cons r rows ih =>
    cases n with
    | zero => rfl
    | succ n =>
      rw [pickFolders, firstsAfter]
      split
      · exact ih seen (n + 1)
      · rw [ih, List.take_succ_cons, List.map_cons]

/-- `ORDER BY size_bytes DESC`, in which `NULL` comes first. -/
def sizeBefore (a b : FolderMetric) : Prop :=
  a.sizeBytes = none ∨ (b.sizeBytes ≠ none ∧ sizeLe b.sizeBytes a.sizeBytes)

instance : DecidableRel sizeBefore := fun _ _ => inferInstanceAs (Decidable (_ ∨ _))

/-- What the database promises of it. -/
structure OrdersBySize (bySize : List FolderMetric → List FolderMetric) : Prop where
  perm : ∀ rows, (bySize rows).Perm rows
  sorted : ∀ rows, (bySize rows).Pairwise sizeBefore

theorem sizeBefore_trans_of_known {a b c : FolderMetric} (ha : a.sizeBytes ≠ none)
    (hab : sizeBefore a b) (hbc : b = c ∨ sizeBefore b c) : sizeLe c.sizeBytes a.sizeBytes := by
  obtain ⟨hb, hle⟩ := hab.resolve_left ha
  rcases hbc with rfl | hbc
  · exact hle
  · obtain ⟨hc, hle'⟩ := hbc.resolve_left hb
    cases hx : a.sizeBytes with
    | none => exact absurd hx ha
    | some x =>
      cases hy : b.sizeBytes with
      | none => exact absurd hy hb
      | some y =>
        cases hz : c.sizeBytes with
        | none => exact absurd hz hc
        | some z =>
          rw [hx, hy] at hle
          rw [hy, hz] at hle'
          exact le_trans hle' hle

/-- The first rows of the first folders: for each of the largest folders its largest row. -/
def leaders (ranked : List FolderMetric) : List FolderMetric :=
  (firsts FolderMetric.folder ranked).take TOP_FOLDERS

/-- The largest rows do for the latest ones: two hundred of them are of enough folders, the largest
    row of each folder shown says what its latest one does, and no unknown size stands before a
    known one. -/
structure Fresh (ranked : List FolderMetric) : Prop where
  enough : min TOP_FOLDERS (folderCard (ranked.take 200)) = min TOP_FOLDERS (folderCard ranked)
  latest : ∀ r ∈ leaders ranked, ∃ r' ∈ ranked, IsLatest ranked r' ∧ topFolder r' = topFolder r
  known : (∀ r ∈ leaders ranked, r.sizeBytes ≠ none) ∨
    ((∀ r ∈ leaders ranked, r.sizeBytes = none) ∧ ∀ r ∈ ranked, IsLatest ranked r →
      r.folder ∉ (leaders ranked).map FolderMetric.folder → r.sizeBytes = none)

theorem length_pickFolders (rows : List FolderMetric) :
    (pickFolders [] TOP_FOLDERS rows).length = min TOP_FOLDERS (folderCard rows) := by
  rw [pickFolders_eq, List.length_map, List.length_take]
  exact congrArg (min TOP_FOLDERS) (length_firsts _ _)

/-- With enough folders among the rows that are read, none of the others would be shown. -/
theorem pickFolders_take {ranked : List FolderMetric} {n : ℕ}
    (h : min TOP_FOLDERS (folderCard (ranked.take n)) = min TOP_FOLDERS (folderCard ranked)) :
    pickFolders [] TOP_FOLDERS (ranked.take n) = (leaders ranked).map topFolder := by
  have hinitial : (firsts FolderMetric.folder (ranked.take n)).take TOP_FOLDERS
      <+: (firsts FolderMetric.folder ranked).take TOP_FOLDERS :=
    (firsts_take_initial FolderMetric.folder n ranked).take TOP_FOLDERS
  have hlength : ((firsts FolderMetric.folder (ranked.take n)).take TOP_FOLDERS).length
      = ((firsts FolderMetric.folder ranked).take TOP_FOLDERS).length := by
    rw [List.length_take, List.length_take, length_firsts, length_firsts]
    exact h
  rw [pickFolders_eq]
  exact congrArg (List.map topFolder) (hinitial.eq_of_length hlength)

section

variable {ranked : List FolderMetric} (hsorted : ranked.Pairwise sizeBefore)

include hsorted in
theorem pairwise_leaders : (leaders ranked).Pairwise sizeBefore :=
  hsorted.sublist ((List.take_sublist _ _).trans firstsAfter_sublist)

theorem map_folder_map_topFolder (rows : List FolderMetric) :
    (rows.map topFolder).map TopFolder.folder = rows.map FolderMetric.folder := by
  rw [List.map_map]
  rfl

include hsorted in
/-- What is before an unknown size is unknown in the order of the database, and what is behind it
    in the order of the sizes. -/
theorem leaders_alike
    (hsizes : (leaders ranked).Pairwise fun a b => sizeLe b.sizeBytes a.sizeBytes)
    {r r' : FolderMetric} (hr : r ∈ leaders ranked) (hr' : r' ∈ leaders ranked) :
    r.sizeBytes = none ↔ r'.sizeBytes = none := by
  let alike : FolderMetric → FolderMetric → Prop := fun a b =>
    a.sizeBytes = none ↔ b.sizeBytes = none
  have halike : (leaders ranked).Pairwise alike := by
    refine ((pairwise_leaders hsorted).and hsizes).imp ?_
    rintro a b ⟨hbefore, hle⟩
    constructor
    · intro ha
      rw [ha] at hle
      exact eq_none_of_sizeLe hle
    · intro hb
      exact hbefore.resolve_right fun h => h.1 hb
  exact List.Pairwise.forall_of_forall_of_flip (R := alike) (fun _ _ => Iff.rfl) halike
    (halike.imp fun hab => hab.symm) hr hr'

include hsorted in
theorem fresh_of_isTop (h : IsTop ranked (pickFolders [] TOP_FOLDERS (ranked.take 200))) :
    Fresh ranked := by
  have henough := (length_pickFolders (ranked.take 200)).symm.trans h.length
  rw [pickFolders_take henough] at h
  refine ⟨henough, fun r hr => h.latest _ (List.mem_map_of_mem hr), ?_⟩
  by_cases hknown : ∀ r ∈ leaders ranked, r.sizeBytes ≠ none
  · exact Or.inl hknown
  · push Not at hknown
    obtain ⟨r₀, hr₀, hnone⟩ := hknown
    have hsizes := List.pairwise_map.mp h.sorted
    refine Or.inr ⟨fun r hr => (leaders_alike hsorted hsizes hr hr₀).mpr hnone, ?_⟩
    -- the folders that are not shown are no larger than one of an unknown size
    intro r hr hlatest hfolder
    rw [← map_folder_map_topFolder] at hfolder
    have hle : sizeLe r.sizeBytes r₀.sizeBytes :=
      h.largest r hr hlatest hfolder _ (List.mem_map_of_mem hr₀)
    rw [hnone] at hle
    exact eq_none_of_sizeLe hle

include hsorted in
/-- The first row of a folder that is not shown is behind all rows that are. -/
theorem leader_before {l r : FolderMetric} (hl : l ∈ leaders ranked) (hr : r ∈ ranked)
    (hfolder : r.folder ∉ (leaders ranked).map FolderMetric.folder) :
    ∃ x, sizeBefore l x ∧ (x = r ∨ sizeBefore x r) := by
  have hsplit : leaders ranked ++ (firsts FolderMetric.folder ranked).drop TOP_FOLDERS
      = firsts FolderMetric.folder ranked := List.take_append_drop _ _
  obtain ⟨x, hx, hfirst, hxr⟩ := exists_firstsAfter hsorted hr (List.not_mem_nil (a := r.folder))
  have hdrop : x ∈ (firsts FolderMetric.folder ranked).drop TOP_FOLDERS := by
    have hmem : x ∈ leaders ranked ++ (firsts FolderMetric.folder ranked).drop TOP_FOLDERS := by
      rw [hsplit]
      exact hx
    refine (List.mem_append.mp hmem).resolve_left fun hleader => hfolder ?_
    exact List.mem_map.mpr ⟨x, hleader, hfirst⟩
  have hfirsts : (leaders ranked
      ++ (firsts FolderMetric.folder ranked).drop TOP_FOLDERS).Pairwise sizeBefore := by
    rw [hsplit]
    exact hsorted.sublist firstsAfter_sublist
  exact ⟨x, (List.pairwise_append.mp hfirsts).2.2 l hl x hdrop, hxr⟩

include hsorted in
theorem isTop_of_fresh (h : Fresh ranked) :
    IsTop ranked (pickFolders [] TOP_FOLDERS (ranked.take 200)) := by
  refine ⟨(length_pickFolders _).trans h.enough, ?_, ?_, ?_, ?_⟩
  all_goals rw [pickFolders_take h.enough]
  · rw [map_folder_map_topFolder]
    exact (List.take_sublist _ _).map _ |>.nodup nodup_firstsAfter
  · rw [List.forall_mem_map]
    exact h.latest
  · refine List.pairwise_map.mpr ?_
    rcases h.known with hknown | ⟨hnone, -⟩
    · refine (pairwise_leaders hsorted).imp_of_mem fun ha _ hab => ?_
      exact (hab.resolve_left (hknown _ ha)).2
    · refine (pairwise_leaders hsorted).imp_of_mem fun _ hb _ => ?_
      show sizeLe (FolderMetric.sizeBytes _) _
      rw [hnone _ hb]
      trivial
  · intro r hr hlatest hfolder t ht
    rw [map_folder_map_topFolder] at hfolder
    obtain ⟨l, hl, rfl⟩ := List.mem_map.mp ht
    rcases h.known with hknown | ⟨-, hnone⟩
    · obtain ⟨x, hbefore, hxr⟩ := leader_before hsorted hl hr hfolder
      exact sizeBefore_trans_of_known (hknown l hl) hbefore hxr
    · show sizeLe r.sizeBytes _
      rw [hnone r hr hlatest hfolder]
      trivial

end

/-! ### Which databases the report is right about -/

theorem isLatest_perm {rows rows' : List FolderMetric} (h : rows.Perm rows') (r : FolderMetric) :
    IsLatest rows r ↔ IsLatest rows' r :=
  forall_congr' fun _ => imp_congr_left h.mem_iff

theorem folderCard_perm {rows rows' : List FolderMetric} (h : rows.Perm rows') :
    folderCard rows = folderCard rows' :=
  congrArg Finset.card (List.toFinset_eq_of_perm _ _ (h.map _))

theorem IsTop.perm {rows rows' : List FolderMetric} {top : List TopFolder} (h : rows.Perm rows')
    (htop : IsTop rows top) : IsTop rows' top where
  length := (folderCard_perm h) ▸ htop.length
  nodup := htop.nodup
  latest := by
    intro t ht
    obtain ⟨r, hr, hlatest, hrt⟩ := htop.latest t ht
    exact ⟨r, h.mem_iff.mp hr, (isLatest_perm h r).mp hlatest, hrt⟩
  sorted := htop.sorted
  largest r hr hlatest := htop.largest r (h.mem_iff.mpr hr) ((isLatest_perm h r).mpr hlatest)

section

variable (dateOf : ℤ → String) (byTime : List StorageMetric → List StorageMetric)

/-- The capacity of the monitor itself, as `buildStorageData` has it, and its largest folders. -/
structure Right (db : ReportDb) (win : TimeWindow) (m : MonitorRow) (e : StorageDetailMonitor) :
    Prop where
  name : e.name = m.name
  current : e.current = (storageMonitor dateOf byTime db.storageMetrics win m).current
  days : e.days = (storageMonitor dateOf byTime db.storageMetrics win m).days
  folders : IsTop (walkRows db.folderMetrics m.id) e.topFolders

/-- The first storage monitor in scope that has the name of `m` has its capacity too. -/
def SameCapacity (db : ReportDb) (scope : ReportScope) (win : TimeWindow) (m : MonitorRow) : Prop :=
  ∀ b, (resolveStorageMonitors db.monitors scope).find? (fun b => b.name == m.name) = some b →
    (storageMonitor dateOf byTime db.storageMetrics win b).current
        = (storageMonitor dateOf byTime db.storageMetrics win m).current ∧
      (storageMonitor dateOf byTime db.storageMetrics win b).days
        = (storageMonitor dateOf byTime db.storageMetrics win m).days

theorem exists_find?_name {storage : List MonitorRow} {m : MonitorRow} (hm : m ∈ storage) :
    ∃ b, storage.find? (fun b => b.name == m.name) = some b := by
  apply Option.isSome_iff_exists.mp
  rw [List.find?_isSome]
  exact ⟨m, hm, beq_self_eq_true m.name⟩

/-- What is found in the capacity report is the entry of the first monitor of the name. -/
theorem find?_buildStorageData (db : ReportDb) (scope : ReportScope) (win : TimeWindow)
    (name : String) :
    (buildStorageData dateOf byTime db.monitors db.storageMetrics scope win).find?
        (fun b => b.name == name)
      = ((resolveStorageMonitors db.monitors scope).find? (fun b => b.name == name)).map
          (storageMonitor dateOf byTime db.storageMetrics win) := by
  rw [buildStorageData, List.find?_map]
  rfl

section

variable {bySize : List FolderMetric → List FolderMetric} (horder : OrdersBySize bySize)

include horder in
theorem isTop_pickFolders_iff (rows : List FolderMetric) :
    IsTop rows (pickFolders [] TOP_FOLDERS ((bySize rows).take 200)) ↔ Fresh (bySize rows) := by
  constructor
  · intro h
    exact fresh_of_isTop (horder.sorted rows) (h.perm (horder.perm rows).symm)
  · intro h
    exact (isTop_of_fresh (horder.sorted rows) h).perm (horder.perm rows)

include horder in
theorem right_storageDetailMonitor_iff (db : ReportDb) (scope : ReportScope) (win : TimeWindow)
    {m : MonitorRow} (hm : m ∈ resolveStorageMonitors db.monitors scope) :
    Right dateOf byTime db win m (storageDetailMonitor bySize db
        (buildStorageData dateOf byTime db.monitors db.storageMetrics scope win) m)
      ↔ SameCapacity dateOf byTime db scope win m ∧
        Fresh (bySize (walkRows db.folderMetrics m.id)) := by
  obtain ⟨b, hb⟩ := exists_find?_name hm
  have hbase := find?_buildStorageData dateOf byTime db scope win m.name
  rw [hb, Option.map_some] at hbase
  have hsame : SameCapacity dateOf byTime db scope win m ↔
      (storageMonitor dateOf byTime db.storageMetrics win b).current
          = (storageMonitor dateOf byTime db.storageMetrics win m).current ∧
        (storageMonitor dateOf byTime db.storageMetrics win b).days
          = (storageMonitor dateOf byTime db.storageMetrics win m).days := by
    rw [SameCapacity, hb]
    simp only [Option.some.injEq, forall_eq']
  rw [hsame, ← isTop_pickFolders_iff horder]
  constructor
  · intro h
    have hcurrent := h.current
    have hdays := h.days
    simp only [storageDetailMonitor, hbase, Option.map_some, Option.getD_some] at hcurrent hdays
    exact ⟨⟨hcurrent, hdays⟩, h.folders⟩
  · rintro ⟨⟨hcurrent, hdays⟩, hfolders⟩
    constructor
    · rfl
    · simpa only [storageDetailMonitor, hbase, Option.map_some, Option.getD_some] using hcurrent
    · simpa only [storageDetailMonitor, hbase, Option.map_some, Option.getD_some] using hdays
    · exact hfolders

end

theorem forall₂_detail_iff (bySize : List FolderMetric → List FolderMetric) (db : ReportDb)
    (scope : ReportScope) (win : TimeWindow) (P : MonitorRow → StorageDetailMonitor → Prop) :
    List.Forall₂ P (resolveStorageMonitors db.monitors scope)
        (buildStorageDetailData dateOf byTime bySize db scope win)
      ↔ ∀ m ∈ resolveStorageMonitors db.monitors scope, P m (storageDetailMonitor bySize db
          (buildStorageData dateOf byTime db.monitors db.storageMetrics scope win) m) := by
  rw [buildStorageDetailData, List.forall₂_map_right_iff, List.forall₂_same]

/-- The report is right when no other monitor lends its capacity to one of the same name and no
    folder has shrunk since an earlier row of the window. -/
theorem detail_right_iff {bySize : List FolderMetric → List FolderMetric}
    (horder : OrdersBySize bySize) (db : ReportDb) (scope : ReportScope) (win : TimeWindow) :
    List.Forall₂ (Right dateOf byTime db win) (resolveStorageMonitors db.monitors scope)
        (buildStorageDetailData dateOf byTime bySize db scope win)
      ↔ ∀ m ∈ resolveStorageMonitors db.monitors scope,
          SameCapacity dateOf byTime db scope win m ∧
            Fresh (bySize (walkRows db.folderMetrics m.id)) := by
  rw [forall₂_detail_iff]
  exact forall₂_congr fun _ hm =>
    right_storageDetailMonitor_iff dateOf byTime horder db scope win hm

end

namespace Sample

/-- Rows of one size stay as they are. -/
def bySizeDesc (rows : List FolderMetric) : List FolderMetric := rows.insertionSort sizeBefore

def byTimeAsc (rows : List StorageMetric) : List StorageMetric :=
  rows.insertionSort (fun a b => a.ts ≤ b.ts)

def nas (id agentId : String) : MonitorRow := ⟨id, agentId, "storage", "nas"⟩

def walked (size ts : ℤ) : FolderMetric := ⟨"s1", "/home", some size, some 3, some 0, ts⟩

/-- A folder that grew within the hour. -/
def grown : ReportDb where
  monitors := [nas "s1" "a1"]
  storageMetrics := [⟨"s1", none, some 10, some 100, 0⟩]
  folderMetrics := [walked 40 0, walked 50 3600000000]

/-- A folder that shrank within the hour. -/
def shrunk : ReportDb := { grown with folderMetrics := [walked 50 0, walked 40 3600000000] }

/-- Two agents with a share of one name. -/
def clash : ReportDb where
  monitors := [nas "s1" "a1", nas "s2" "a2"]
  storageMetrics := [⟨"s1", none, some 10, some 100, 0⟩, ⟨"s2", none, some 90, some 100, 0⟩]
  folderMetrics := []

def everything : ReportScope := ⟨.all, none⟩

def oneDay : TimeWindow := ⟨0, 86400000000⟩

def newYear : ℤ → String := fun _ => "2024-01-01"

end Sample

theorem sizeBefore_total (a b : FolderMetric) : sizeBefore a b ∨ sizeBefore b a := by
  unfold sizeBefore
  cases a.sizeBytes with
  | none => exact Or.inl (Or.inl rfl)
  | some x =>
    cases b.sizeBytes with
    | none => exact Or.inr (Or.inl rfl)
    | some y =>
      rcases le_total y x with h | h
      · exact Or.inl (Or.inr ⟨Option.some_ne_none y, h⟩)
      · exact Or.inr (Or.inr ⟨Option.some_ne_none x, h⟩)

theorem sizeBefore_trans {a b c : FolderMetric} (hab : sizeBefore a b) (hbc : sizeBefore b c) :
    sizeBefore a c := by
  by_cases ha : a.sizeBytes = none
  · exact Or.inl ha
  · have hb := (hab.resolve_left ha).1
    exact Or.inr ⟨(hbc.resolve_left hb).1, sizeBefore_trans_of_known ha hab (Or.inr hbc)⟩

instance : Std.Total sizeBefore := ⟨sizeBefore_total⟩

instance : IsTrans FolderMetric sizeBefore := ⟨fun _ _ _ => sizeBefore_trans⟩

theorem ordersBySize_bySizeDesc : OrdersBySize Sample.bySizeDesc where
  perm _ := List.perm_insertionSort _ _
  sorted _ := List.pairwise_insertionSort _ _

open Sample in
theorem detail_right_iff_grown :
    List.Forall₂ (Right newYear byTimeAsc grown oneDay) [nas "s1" "a1"]
      (buildStorageDetailData newYear byTimeAsc bySizeDesc grown everything oneDay) := by
  refine (detail_right_iff newYear byTimeAsc ordersBySize_bySizeDesc grown everything oneDay).mpr ?_
  intro m hm
  obtain rfl : m = nas "s1" "a1" := List.mem_singleton.mp hm
  refine ⟨?_, ?_, ?_, ?_⟩
  · intro b hb
    obtain rfl : nas "s1" "a1" = b := Option.some.inj hb
    exact ⟨rfl, rfl⟩
  · decide +kernel
  · decide +kernel
  · left
    decide +kernel

open Sample in
/-- The second share has the capacity of the first; the folder has the size it had before. -/
theorem not_detail_right :
    (¬ List.Forall₂ (Right newYear byTimeAsc clash oneDay)
        (resolveStorageMonitors clash.monitors everything)
        (buildStorageDetailData newYear byTimeAsc bySizeDesc clash everything oneDay)) ∧
      ¬ List.Forall₂ (Right newYear byTimeAsc shrunk oneDay)
        (resolveStorageMonitors shrunk.monitors everything)
        (buildStorageDetailData newYear byTimeAsc bySizeDesc shrunk everything oneDay) := by
  constructor
  · intro h
    rw [forall₂_detail_iff] at h
    have hm : nas "s2" "a2" ∈ resolveStorageMonitors clash.monitors everything := by decide
    have hused := congrArg StorageCurrent.usedBytes (h _ hm).current
    exact absurd hused (by decide +kernel)
  · intro h
    rw [forall₂_detail_iff] at h
    have hm : nas "s1" "a1" ∈ resolveStorageMonitors shrunk.monitors everything := by decide
    have hlatest := (h _ hm).folders.latest ⟨"/home", some 50, some 3, some 0⟩
    exact absurd hlatest (by decide +kernel)

end Argus.Reports
