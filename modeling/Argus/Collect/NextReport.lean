import Argus.Collect.Cancelled
import Argus.Lib.Numerals

namespace Argus.Collect

/-!
# What a report shows of a scan

A scan stores its folders under the keys that the next report looks for, watched folder by watched
folder.  The folders of a whole share that is not watched have a key of their own, which a scan does
not know.

* `key_inj` — a key tells the folder and the depth.
* `scan_stored_of_done` — a scan that is not cancelled stores whole walks.
* `WatchSpec.Fresh` — the refresh period of a folder is not over.
* `showsScan_iff` — for which configurations a report shows what the last scan has found.
-/

open FileTree Polling

variable {sortSize : SizeSort} {share : Share} {specs : List WatchSpec}

/-! ### Keys -/

theorem folderKey_inj {path sub sub' : String} {depth depth' : ℕ}
    (h : folderKey path sub depth = folderKey path sub' depth') : sub = sub' ∧ depth = depth' := by
  rw [folderKey, folderKey] at h
  simp only [String.append_assoc, String.append_right_inj] at h
  have hchars := congrArg (fun s => s.toList.reverse) h
  simp only [String.toList_append, List.reverse_append] at hchars
  have hbar : "|".toList.reverse = ['|'] := rfl
  rw [hbar, List.append_assoc, List.append_assoc, List.singleton_append, List.singleton_append]
    at hchars
  -- There is no bar in a number, so that the last one stands before the depth.
  have hdigits : ∀ n : ℕ, '|' ∉ (toString n).toList.reverse := by
    intro n hmem
    rw [List.mem_reverse, Nat.toString_eq_ofList_toDigits, String.toList_ofList] at hmem
    exact absurd (Nat.isDigit_of_mem_toDigits (by decide) (by decide) hmem) (by decide)
  obtain ⟨hdepth, hsub⟩ :=
    (Numerals.append_cons_inj (hdigits depth) (hdigits depth')).mp hchars
  refine ⟨String.toList_inj.mp (List.reverse_injective hsub), ?_⟩
  have hnumber := List.reverse_injective hdepth
  rw [Nat.toString_eq_ofList_toDigits, Nat.toString_eq_ofList_toDigits, String.toList_ofList,
    String.toList_ofList] at hnumber
  have hvalue := congrArg (Nat.ofDigitChars 10 · 0) hnumber
  simpa only [Nat.ofDigitChars_ten_toDigits] using hvalue

/-- Folders with one key are walked in the same way. -/
theorem walkWatch_of_key {path : String} {w w' : WatchSpec} (h : w.key path = w'.key path) :
    walkWatch sortSize share w = walkWatch sortSize share w' := by
  obtain ⟨hsub, hdepth⟩ := folderKey_inj h
  rw [walkWatch, walkWatch, hsub, hdepth]

/-! ### Scans that are not cancelled -/

theorem scanFolders_none (specs : List WatchSpec) :
    scanFolders sortSize share specs none
      = (specs.map fun w => ⟨w, (walkWatch sortSize share w none).1, false⟩, none) := by
  induction specs with
  | nil => rfl
  | cons w specs ih =>
    have hquiet := (cooperative_walkWatch sortSize share w).quiet
    rw [scanFolders, bind_apply]
    show (walkWatch sortSize share w >>= _) none = _
    rw [bind_apply, hquiet, bind_apply]
    show (scanFolders sortSize share specs >>= _) none = _
    rw [bind_apply, ih]
    rfl

theorem scan_stored_of_done {withFolders : Bool} {watch : List WatchSpec} {cancelAt : Option ℕ}
    (h : (scan sortSize share withFolders watch cancelAt).progress.status = "done") :
    (scan sortSize share withFolders watch cancelAt).stored
      = (scanSpecs withFolders watch).map fun w =>
          ⟨w, (walkWatch sortSize share w none).1, false⟩ := by
  have hnot : (Cooperative.after (scanFolders sortSize share (scanSpecs withFolders watch))
      (scanStart cancelAt)).seen = false := by
    rw [scan_status] at h
    rw [Run.seen, Cooperative.cancelAt_after (cooperative_scanFolders sortSize share _)]
    cases cancelAt with
    | none => rfl
    | some k =>
      refine decide_eq_false (fun hlt => ?_)
      rw [Option.any_some, if_pos (decide_eq_true (Nat.le_of_lt hlt))] at h
      exact absurd h (by decide)
  rw [scan_stored, Cooperative.apply_of_not_seen (cooperative_scanFolders sortSize share _) hnot,
    scanFolders_none]

theorem scan_done_of_none (withFolders : Bool) (watch : List WatchSpec) :
    (scan sortSize share withFolders watch none).progress.status = "done" := by
  rw [scan_status]
  rfl

/-- Every folder of such a scan is found under its key. -/
theorem storeAll_walks {path : String} {clock : ℕ → ℤ} {cache : FolderCache} {w : WatchSpec}
    (hw : w ∈ specs) :
    ∃ n, storeAll path clock (specs.map fun w => ⟨w, (walkWatch sortSize share w none).1, false⟩)
      cache (w.key path) = some ⟨(walkWatch sortSize share w none).1, clock n⟩ := by
  rcases storeAll_cases path clock
    (specs.map fun w => ⟨w, (walkWatch sortSize share w none).1, false⟩) cache (w.key path)
    with ⟨-, hnone⟩ | ⟨st, hst, hkey, n, hn⟩
  · have hkey := hnone _ (List.mem_map.mpr ⟨w, hw, rfl⟩)
    exact absurd rfl hkey
  · obtain ⟨w', hw', rfl⟩ := List.mem_map.mp hst
    refine ⟨n, ?_⟩
    rw [hn]
    show some (FolderCacheEntry.mk (walkWatch sortSize share w' none).1 _) = _
    rw [walkWatch_of_key hkey]

/-! ### Reports -/

/-- The refresh period of a folder that was walked at `last` is not over. -/
def WatchSpec.Fresh (zones : Zones) (w : WatchSpec) (last now : ℤ) : Prop :=
  if w.scanTimes = [] then now - last < w.ttl
  else ∀ s, Scheduled (zones.find w.scanTZ) w.scanTimes s → last < s → now < s

theorem WatchSpec.Fresh.not_due {zones : Zones} {w : WatchSpec} {last now : ℤ}
    (h : w.Fresh zones last now) :
    dueAt zones now last w.ttl w.scanTimes w.scanTZ = false := by
  rw [WatchSpec.Fresh] at h
  rw [dueAt]
  by_cases htimes : w.scanTimes = []
  · rw [if_pos htimes] at h
    rw [if_neg (by rw [htimes]; decide)]
    exact decide_eq_false (Int.not_le.mpr h)
  · rw [if_neg htimes] at h
    rw [if_pos (List.length_pos_iff.mpr htimes)]
    refine Bool.eq_false_iff.mpr (fun hdue => ?_)
    obtain ⟨s, hs, hsince, hpast⟩ := dueToday_scheduled hdue
    exact absurd (h s hs hsince) (Int.not_lt.mpr hpast)

theorem watchFolders_cons (zones : Zones) (now : ℤ) (share : Share) (path : String) (w : WatchSpec)
    (watch : List WatchSpec) (s : Folders) :
    watchFolders sortSize zones now share path (w :: watch) s
      = (let out := cachedFolders now (w.key path)
          (fun last => dueAt zones now last w.ttl w.scanTimes w.scanTZ)
          (walkWatch sortSize share w none).1 s
        let more := watchFolders sortSize zones now share path watch out.2
        (out.1 ++ more.1, more.2)) := rfl

/-- Folders that are in the cache and not due are not walked. -/
theorem watchFolders_of_cached {zones : Zones} {now : ℤ} {share : Share} {path : String}
    {watch : List WatchSpec} {s : Folders} {nodes : WatchSpec → List FolderNode}
    (h : ∀ w ∈ watch, ∃ last, s.cache (w.key path) = some ⟨nodes w, last⟩ ∧
      dueAt zones now last w.ttl w.scanTimes w.scanTZ = false) :
    watchFolders sortSize zones now share path watch s = (watch.flatMap nodes, s) := by
  induction watch with
  | nil => rfl
  | cons w watch ih =>
    rw [List.forall_mem_cons] at h
    obtain ⟨last, hlast, hnot⟩ := h.1
    have hcached : cachedFolders now (w.key path)
        (fun last => dueAt zones now last w.ttl w.scanTimes w.scanTZ)
        (walkWatch sortSize share w none).1 s = (nodes w, s) := by
      rw [cachedFolders, hlast, Option.filter_some, if_pos]
      rw [hnot]
      rfl
    rw [watchFolders_cons, hcached, List.flatMap_cons]
    show (nodes w ++ (watchFolders sortSize zones now share path watch s).1, _) = _
    rw [ih h.2]

/-- The share can be reported on at all. -/
def Reachable (path : String) (capacity : Option (ℕ × ℕ)) : Prop :=
  path ≠ "" ∧ capacity.isSome = true

theorem storage_of_not_reachable {zones : Zones} {now : ℤ} {capacity : Option (ℕ × ℕ)}
    {path : String} (h : ¬ Reachable path capacity) (name : String) (withFolders : Bool)
    (watch : List WatchSpec) (s : Folders) :
    let report := storage sortSize zones now share capacity name path withFolders watch s
    report.1.folders = [] ∧ report.2 = s := by
  intro report
  by_cases hpath : path = ""
  · have hreport : report = (⟨name, .UNKNOWN, none⟩, s) := by
      show storage sortSize zones now share capacity name path withFolders watch s = _
      rw [storage.eq_def, if_pos hpath]
      rfl
    rw [hreport]
    exact ⟨rfl, rfl⟩
  · cases capacity with
    | none =>
      have hreport : report = (⟨name, .DOWN, some { reachable := false }⟩, s) := by
        show storage sortSize zones now share none name path withFolders watch s = _
        rw [storage, if_neg hpath]
        rfl
      rw [hreport]
      exact ⟨rfl, rfl⟩
    | some c => exact absurd ⟨hpath, rfl⟩ h

theorem storage_of_reachable {zones : Zones} {now : ℤ} {capacity : Option (ℕ × ℕ)} {path : String}
    (h : Reachable path capacity) (name : String) (withFolders : Bool) (watch : List WatchSpec)
    (s : Folders) :
    let found := reportedFolders sortSize zones now share path withFolders watch s
    let report := storage sortSize zones now share capacity name path withFolders watch s
    report.1.folders.Perm found.1 ∧ report.2 = found.2 := by
  intro found report
  obtain ⟨⟨total, free⟩, rfl⟩ := Option.isSome_iff_exists.mp h.2
  have hreport : report = (capacityUnit sortSize name total free found.1, found.2) := by
    show storage sortSize zones now share (some (total, free)) name path withFolders watch s = _
    rw [storage, if_neg h.1]
    rfl
  rw [hreport]
  refine ⟨?_, rfl⟩
  show ((if found.1 = [] then [] else sortSize.sort found.1) : List FolderNode).Perm _
  split
  · rename_i hempty
    rw [hempty]
  · exact sortSize.perm _

/-! ### What is shown -/

/-- The next report shows what a scan has found: for every share, also if it has changed since, a
    report before the refresh periods are over has the folders of the scan, and nothing is walked
    for it. -/
def ShowsScan (sortSize : SizeSort) (zones : Zones) (capacity : Option (ℕ × ℕ)) (path : String)
    (withFolders : Bool) (watch : List WatchSpec) : Prop :=
  ∀ (share later : Share) (cancelAt : Option ℕ) (clock : ℕ → ℤ) (cache : FolderCache) (now : ℤ)
    (name : String),
    let done := scan sortSize share withFolders watch cancelAt
    let cache := storeAll path clock done.stored cache
    done.progress.status = "done" →
    (∀ w ∈ scanSpecs withFolders watch, ∀ entry, cache (w.key path) = some entry →
      w.Fresh zones entry.stamp now) →
    let report := storage sortSize zones now later capacity name path withFolders watch ⟨cache, []⟩
    report.1.folders.Perm done.folders ∧ report.2.walked = []

theorem one_le_scanDepth (d : ℤ) : 1 ≤ scanDepth d := by
  rw [scanDepth]
  split
  · decide
  · omega

namespace Sample

/-- Whatever is looked for in it, there is a folder with a folder. -/
def nested : Share := fun _ => some (.dir ⟨true, .dir "f" true .nil .nil⟩)

theorem nested_fits : Fits ⟨true, .dir "f" true .nil .nil⟩ where
  readable := rfl
  narrow := by decide
  below := by decide
  files := by decide

end Sample

open Sample in
/-- A scan of such a share finds something, whatever it walks. -/
theorem walkWatch_nested_ne_nil (w : WatchSpec) : (walkWatch sortSize nested w none).1 ≠ [] := by
  rw [walkWatch]
  show ((if w.sub = "" ∨ w.sub = "." then _ else _ : ScanM (List FolderNode)) none).1 ≠ []
  split
  · have hdepth := one_le_scanDepth w.depth
    have hwithin : foldersWithin (scanDepth w.depth) (.dir "f" true .nil .nil)
        = [(["f"], ⟨true, .nil⟩)] := by
      rw [foldersWithin_dir (by decide) hdepth]
      rfl
    have hbudget : (foldersWithin (scanDepth w.depth) (.dir "f" true .nil .nil)).length
        ≤ maxFolderNodes := by
      rw [hwithin]
      decide
    obtain ⟨out, left, hout, -, hperm⟩ := enumFolders_lists sortSize (by decide) nested_fits
      hdepth hbudget ""
    rw [bind_apply]
    show (enumFolders sortSize ⟨true, .dir "f" true .nil .nil⟩ "" (scanDepth w.depth)
      maxFolderNodes none).1.1 ≠ []
    rw [hout]
    rintro rfl
    rw [hwithin] at hperm
    exact absurd hperm.length_eq (by decide)
  · rw [bind_apply, bind_apply]
    exact List.cons_ne_nil _ _

theorem walked_topFolders {path : String} {now : ℤ} {s : Folders}
    (h : s.cache (path ++ "|top") = none) :
    (topFolders sortSize now share path s).2.walked = s.walked ++ [path ++ "|top"] := by
  rw [topFolders, cachedFolders, h]
  rfl

/-- A report on the past finds everything fresh. -/
theorem WatchSpec.fresh_of_past (zones : Zones) (w : WatchSpec) {last now : ℤ}
    (h : now < last - 2 ^ 63) : w.Fresh zones last now := by
  have hlow : -2 ^ 63 ≤ w.ttl := by
    rw [WatchSpec.ttl]
    split
    · exact Int.le_bmod (by decide)
    · decide
  rw [WatchSpec.Fresh]
  split
  · omega
  · intro s _ hs
    omega

section

variable {zones : Zones} {capacity : Option (ℕ × ℕ)} {path : String} {withFolders : Bool}
  {watch : List WatchSpec}

/-- Watched folders are found where the scan has stored them. -/
theorem showsScan_of_watched (hwatch : watch ≠ []) (hreach : Reachable path capacity) :
    ShowsScan sortSize zones capacity path withFolders watch := by
  intro share later cancelAt clock cache now name done after hdone hfresh
  have hnotTop : ¬ (watch.isEmpty && withFolders) = true := by
    simpa using fun hempty => absurd hempty hwatch
  have hspecs : scanSpecs withFolders watch = watch := by
    rw [scanSpecs, if_neg hnotTop]
  have hstored := scan_stored_of_done hdone
  rw [hspecs] at hstored hfresh
  have hcached : ∀ w ∈ watch, ∃ last,
      after (w.key path) = some ⟨(walkWatch sortSize share w none).1, last⟩ ∧
        dueAt zones now last w.ttl w.scanTimes w.scanTZ = false := by
    intro w hw
    obtain ⟨n, hn⟩ := @storeAll_walks sortSize share _ path clock cache w hw
    rw [← hstored] at hn
    exact ⟨clock n, hn, (hfresh w hw _ hn).not_due⟩
  have hfound : reportedFolders sortSize zones now later path withFolders watch ⟨after, []⟩
      = (watch.flatMap fun w => (walkWatch sortSize share w none).1, ⟨after, []⟩) := by
    rw [reportedFolders, if_neg hnotTop]
    exact watchFolders_of_cached hcached
  have hscan : done.folders = watch.flatMap fun w => (walkWatch sortSize share w none).1 := by
    rw [Scan.folders, hstored, List.flatMap_map]
  obtain ⟨hperm, hafter⟩ := @storage_of_reachable sortSize later zones now _ _ hreach name
    withFolders watch ⟨after, []⟩
  rw [hfound] at hperm hafter
  rw [hscan]
  exact ⟨hperm, congrArg Folders.walked hafter⟩

theorem showsScan_of_nothing : ShowsScan sortSize zones capacity path false [] := by
  intro share later cancelAt clock cache now name done after hdone _
  have hscan : done.folders = [] := by
    rw [Scan.folders, scan_stored_of_done hdone]
    rfl
  rw [hscan]
  by_cases hreach : Reachable path capacity
  · obtain ⟨hperm, hafter⟩ := @storage_of_reachable sortSize later zones now _ _ hreach name false
      [] ⟨after, []⟩
    exact ⟨hperm, congrArg Folders.walked hafter⟩
  · obtain ⟨hnone, hafter⟩ := @storage_of_not_reachable sortSize later zones now _ _ hreach name
      false [] ⟨after, []⟩
    intro report
    have hempty : report.1.folders = [] := hnone
    rw [hempty]
    exact ⟨List.Perm.nil, congrArg Folders.walked hafter⟩

/-- A report after a scan of `nested`; the clock has been set back, so that no refresh period is
    over. -/
theorem ShowsScan.nested (h : ShowsScan sortSize zones capacity path withFolders watch) :
    let done := scan sortSize Sample.nested withFolders watch none
    let report := storage sortSize zones (-2 ^ 64) Sample.nested capacity "share" path withFolders
      watch ⟨storeAll path (fun _ => 0) done.stored (fun _ => none), []⟩
    report.1.folders.Perm done.folders ∧ report.2.walked = [] := by
  apply h Sample.nested Sample.nested none (fun _ => 0) (fun _ => none) (-2 ^ 64) "share"
    (scan_done_of_none _ _)
  intro w _ entry hentry
  rcases storeAll_cases path (fun _ => 0)
    (scan sortSize Sample.nested withFolders watch none).stored (fun _ => none) (w.key path)
    with ⟨hsame, -⟩ | ⟨st, -, -, n, hn⟩
  · rw [hsame] at hentry
    cases hentry
  · rw [hn] at hentry
    obtain rfl := Option.some.inj hentry
    apply w.fresh_of_past zones
    show (-2 ^ 64 : ℤ) < 0 - 2 ^ 63
    decide

theorem ShowsScan.reachable (h : ShowsScan sortSize zones capacity path withFolders watch)
    (hspecs : scanSpecs withFolders watch ≠ []) : Reachable path capacity := by
  by_contra hreach
  obtain ⟨hperm, -⟩ := h.nested
  rw [(storage_of_not_reachable hreach _ _ _ _).1] at hperm
  have hnone := hperm.symm.eq_nil
  rw [Scan.folders, scan_stored_of_done (scan_done_of_none withFolders watch),
    List.flatMap_eq_nil_iff] at hnone
  obtain ⟨w, hw⟩ := List.exists_mem_of_ne_nil _ hspecs
  exact walkWatch_nested_ne_nil w (hnone _ (List.mem_map.mpr ⟨w, hw, rfl⟩))

/-- The folders of a share that is not watched are walked again. -/
theorem not_showsScan_top (hreach : Reachable path capacity) :
    ¬ ShowsScan sortSize zones capacity path true [] := by
  intro h
  obtain ⟨-, hwalked⟩ := h.nested
  have htop : storeAll path (fun _ => 0) (scan sortSize Sample.nested true [] none).stored
      (fun _ => none) (path ++ "|top") = none := by
    rcases storeAll_cases path (fun _ => 0) (scan sortSize Sample.nested true [] none).stored
      (fun _ => none) (path ++ "|top") with ⟨hsame, -⟩ | ⟨st, hst, hkey, -⟩
    · exact hsame
    · rw [scan_stored_of_done (scan_done_of_none true [])] at hst
      obtain rfl := List.mem_singleton.mp hst
      have hdot : path ++ "|.|1" = path ++ "|top" := by
        rw [← hkey]
        show path ++ "|.|1" = path ++ "|" ++ "." ++ "|" ++ toString 1
        rw [String.append_assoc, String.append_assoc, String.append_assoc]
        rfl
      exact absurd ((String.append_right_inj _).mp hdot) (by decide)
  rw [(storage_of_reachable hreach _ _ _ _).2] at hwalked
  have hreported : reportedFolders sortSize zones (-2 ^ 64) Sample.nested path true []
      = topFolders sortSize (-2 ^ 64) Sample.nested path := rfl
  rw [hreported, walked_topFolders htop] at hwalked
  exact absurd hwalked (List.cons_ne_nil _ _)

end

/-- A report shows what a scan has found if folders are watched and the share can be reached, or if
    there is nothing to scan; otherwise it does not. -/
theorem showsScan_iff (sortSize : SizeSort) (zones : Zones) (capacity : Option (ℕ × ℕ))
    (path : String) (withFolders : Bool) (watch : List WatchSpec) :
    ShowsScan sortSize zones capacity path withFolders watch ↔
      watch ≠ [] ∧ Reachable path capacity ∨ watch = [] ∧ withFolders = false := by
  constructor
  · intro h
    cases watch with
    | cons w watch =>
      refine Or.inl ⟨List.cons_ne_nil _ _, h.reachable ?_⟩
      exact List.cons_ne_nil _ _
    | nil =>
      cases withFolders with
      | false => exact Or.inr ⟨rfl, rfl⟩
      | true =>
        have hreach := h.reachable (List.cons_ne_nil _ _)
        exact absurd h (not_showsScan_top hreach)
  · rintro (⟨hwatch, hreach⟩ | ⟨rfl, rfl⟩)
    · exact showsScan_of_watched hwatch hreach
    · exact showsScan_of_nothing

namespace Sample

/-- A monitor that reports the folders of a whole share. -/
def wholeShare : Fields JsValue := [("path", .str "/share"), ("folders", .bool true)]

end Sample

open Sample in
theorem not_showsScan_wholeShare :
    ¬ ∀ (sortSize : SizeSort) (zones : Zones) (capacity : ℕ × ℕ) (cfg : Fields JsValue),
      ShowsScan sortSize zones (some capacity) (storageScanParams cfg).1
        (storageScanParams cfg).2.1 (storageScanParams cfg).2.2 := by
  intro h
  have hparams : storageScanParams wholeShare = ("/share", true, []) := by
    simp [storageScanParams, stringField, boolField, watchSpecs, wholeShare, Fields.get_cons]
  have hshows := h stableSizeSort ⟨.fixed 0, fun _ => none⟩ (100, 50) wholeShare
  rw [hparams] at hshows
  exact not_showsScan_top ⟨by decide, rfl⟩ hshows

end Argus.Collect
