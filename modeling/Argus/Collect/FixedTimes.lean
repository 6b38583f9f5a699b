import Argus.Collect.NextReport

namespace Argus.Collect

/-!
# Folders that are walked at fixed times

The cache of a folder tells when it was walked.  At every tick, the agent compares this with the
times of the day it is, so that a time near midnight is lost if no tick comes between the two.

* `watchFolders_walks` — when a tick walks a folder, and what the cache has of it then.
* `Ticks`, `Ticks.walks` — the ticks of an agent.
* `walked_last` — what is known of the last walk before a tick.
* `onTime_iff` — when every scheduled walk is made.
-/

/-! ### What a tick walks -/

variable {sortSize : SizeSort} {zones : Zones} {share : Share} {path : String}

/-- The folder is walked at `now`: it is not in the cache, or a walk is due. -/
def Due (zones : Zones) (path : String) (w : WatchSpec) (now : ℤ) (cache : FolderCache) : Prop :=
  ∀ entry, cache (w.key path) = some entry →
    dueToday (zones.find w.scanTZ) now entry.stamp w.scanTimes = true

theorem cachedFolders_of_ne {now : ℤ} {key other : String} {due : ℤ → Bool}
    {compute : List FolderNode} {s : Folders} (hne : other ≠ key) :
    (other ∈ (cachedFolders now key due compute s).2.walked ↔ other ∈ s.walked) ∧
      (cachedFolders now key due compute s).2.cache other = s.cache other := by
  rw [cachedFolders]
  split
  · exact ⟨Iff.rfl, rfl⟩
  · refine ⟨?_, Function.update_of_ne hne _ _⟩
    rw [List.mem_append, List.mem_singleton]
    exact or_iff_left hne

/-- With fixed times, the duration of a walk does not matter. -/
theorem dueAt_times {w : WatchSpec} (htimes : w.scanTimes ≠ []) (now last : ℤ) :
    dueAt zones now last w.ttl w.scanTimes w.scanTZ
      = dueToday (zones.find w.scanTZ) now last w.scanTimes :=
  if_pos (List.length_pos_iff.mpr htimes)

theorem cachedFolders_walks {now : ℤ} {w : WatchSpec} {compute : List FolderNode} {s : Folders}
    (htimes : w.scanTimes ≠ []) :
    let after := (cachedFolders now (w.key path)
      (fun last => dueAt zones now last w.ttl w.scanTimes w.scanTZ) compute s).2
    (Due zones path w now s.cache → w.key path ∈ after.walked ∧
        ∃ nodes, after.cache (w.key path) = some ⟨nodes, now⟩) ∧
      (¬ Due zones path w now s.cache → after = s) := by
  intro after
  have hafter : after = (cachedFolders now (w.key path)
      (fun last => dueAt zones now last w.ttl w.scanTimes w.scanTZ) compute s).2 := rfl
  rw [cachedFolders] at hafter
  cases hentry : s.cache (w.key path) with
  | none =>
    rw [hentry] at hafter
    refine ⟨fun _ => ?_, fun hnot => absurd (fun e he => ?_) hnot⟩
    · rw [hafter]
      exact ⟨List.mem_append_right _ List.mem_cons_self, compute, Function.update_self _ _ _⟩
    · rw [hentry] at he
      cases he
  | some entry =>
    rw [hentry, Option.filter_some, dueAt_times htimes] at hafter
    cases hdue : dueToday (zones.find w.scanTZ) now entry.stamp w.scanTimes with
    | true =>
      rw [hdue] at hafter
      refine ⟨fun _ => ?_, fun hnot => absurd (fun e he => ?_) hnot⟩
      · rw [hafter]
        exact ⟨List.mem_append_right _ List.mem_cons_self, compute, Function.update_self _ _ _⟩
      · rw [hentry] at he
        obtain rfl := Option.some.inj he
        exact hdue
    | false =>
      rw [hdue] at hafter
      refine ⟨fun h => ?_, fun _ => hafter⟩
      have htrue := h entry hentry
      rw [hdue] at htrue
      cases htrue

/-- A folder that has just been walked is not due. -/
theorem not_due_now {now : ℤ} {w : WatchSpec} {cache : FolderCache} {nodes : List FolderNode}
    (h : cache (w.key path) = some ⟨nodes, now⟩) : ¬ Due zones path w now cache := by
  intro hdue
  obtain ⟨s, -, hsince, hpast⟩ := dueToday_scheduled (hdue _ h)
  exact absurd hsince (Int.not_lt.mpr hpast)

/-- A folder of the watch list is walked exactly if it is due, and otherwise the cache keeps what it
    has of it.  No other folder has its key. -/
theorem watchFolders_walks {now : ℤ} {w : WatchSpec} (htimes : w.scanTimes ≠ [])
    {watch : List WatchSpec} (honly : ∀ w' ∈ watch, w'.key path = w.key path → w' = w)
    (s : Folders) :
    let after := (watchFolders sortSize zones now share path watch s).2
    (w ∈ watch → Due zones path w now s.cache → w.key path ∈ after.walked ∧
        ∃ nodes, after.cache (w.key path) = some ⟨nodes, now⟩) ∧
      (¬ (w ∈ watch ∧ Due zones path w now s.cache) →
        (w.key path ∈ after.walked ↔ w.key path ∈ s.walked) ∧
          after.cache (w.key path) = s.cache (w.key path)) := by
  induction watch generalizing s with
  | nil => exact ⟨fun h => absurd h List.not_mem_nil, fun _ => ⟨Iff.rfl, rfl⟩⟩
  | cons w' watch ih =>
    rw [List.forall_mem_cons] at honly
    have htail := ih honly.2 (cachedFolders now (w'.key path)
      (fun last => dueAt zones now last w'.ttl w'.scanTimes w'.scanTZ)
      (walkWatch sortSize share w' none).1 s).2
    have hcons : (watchFolders sortSize zones now share path (w' :: watch) s).2
        = (watchFolders sortSize zones now share path watch (cachedFolders now (w'.key path)
            (fun last => dueAt zones now last w'.ttl w'.scanTimes w'.scanTZ)
            (walkWatch sortSize share w' none).1 s).2).2 := rfl
    rw [hcons]
    by_cases hkey : w'.key path = w.key path
    · obtain rfl := honly.1 hkey
      obtain ⟨hwalks, hrests⟩ := @cachedFolders_walks zones path now w'
        (walkWatch sortSize share w' none).1 s htimes
      by_cases hdue : Due zones path w' now s.cache
      · -- It is walked here, and not due any more.
        obtain ⟨hmem, nodes, hnodes⟩ := hwalks hdue
        obtain ⟨hkeep, hcache⟩ := htail.2 (fun h => not_due_now hnodes h.2)
        refine ⟨fun _ _ => ⟨hkeep.mpr hmem, nodes, hcache.trans hnodes⟩, fun hnot => ?_⟩
        exact absurd ⟨List.mem_cons_self, hdue⟩ hnot
      · rw [hrests hdue] at htail ⊢
        exact ⟨fun _ h => absurd h hdue, fun _ => htail.2 (fun h => hdue h.2)⟩
    · obtain ⟨hmem, hcache⟩ := @cachedFolders_of_ne now _ _
        (fun last => dueAt zones now last w'.ttl w'.scanTimes w'.scanTZ)
        (walkWatch sortSize share w' none).1 s (Ne.symm hkey)
      have hin : w ∈ w' :: watch ↔ w ∈ watch := by
        rw [List.mem_cons]
        exact or_iff_right (fun heq => hkey (heq ▸ rfl))
      have hdue : Due zones path w now (cachedFolders now (w'.key path)
          (fun last => dueAt zones now last w'.ttl w'.scanTimes w'.scanTZ)
          (walkWatch sortSize share w' none).1 s).2.cache ↔ Due zones path w now s.cache := by
        rw [Due, Due, hcache]
      rw [hdue, hmem, hcache] at htail
      rw [hin]
      exact htail

/-! ### Ticks -/

/-- A tick of the agent, at which the share can be reached. -/
structure Tick where
  now : ℤ
  share : Share
  capacity : ℕ × ℕ

variable (sortSize zones)

/-- What a tick does to the cache, and what it walks. -/
def Tick.report (t : Tick) (path : String) (withFolders : Bool) (watch : List WatchSpec)
    (cache : FolderCache) : Folders :=
  (storage sortSize zones t.now t.share (some t.capacity) "storage" path withFolders watch
    ⟨cache, []⟩).2

/-- The cache after these ticks. -/
def cacheAfter (path : String) (withFolders : Bool) (watch : List WatchSpec) (ticks : List Tick)
    (cache : FolderCache) : FolderCache :=
  ticks.foldl (fun cache t => (t.report sortSize zones path withFolders watch cache).cache) cache

/-- What the tick walks that comes after these. -/
def walkedAt (path : String) (withFolders : Bool) (watch : List WatchSpec) (before : List Tick)
    (t : Tick) (cache : FolderCache) : List String :=
  (t.report sortSize zones path withFolders watch
    (cacheAfter sortSize zones path withFolders watch before cache)).walked

variable {sortSize zones} {withFolders : Bool} {watch : List WatchSpec} {w : WatchSpec}

theorem Tick.report_eq (hpath : path ≠ "") (hw : w ∈ watch) (t : Tick) (cache : FolderCache) :
    t.report sortSize zones path withFolders watch cache
      = (watchFolders sortSize zones t.now t.share path watch ⟨cache, []⟩).2 := by
  have hnotTop : ¬ (watch.isEmpty && withFolders) = true := by
    simpa using fun hempty => absurd (hempty ▸ hw) List.not_mem_nil
  rw [Tick.report, (storage_of_reachable ⟨hpath, rfl⟩ _ _ _ _).2, reportedFolders, if_neg hnotTop]

theorem cacheAfter_append (before : List Tick) (t : Tick) (cache : FolderCache) :
    cacheAfter sortSize zones path withFolders watch (before ++ [t]) cache
      = (t.report sortSize zones path withFolders watch
          (cacheAfter sortSize zones path withFolders watch before cache)).cache :=
  List.foldl_concat _ _ _ _

section

variable (hpath : path ≠ "") (hw : w ∈ watch) (htimes : w.scanTimes ≠ [])
  (honly : ∀ w' ∈ watch, w'.key path = w.key path → w' = w)

include hpath hw htimes honly

theorem mem_walkedAt_iff (before : List Tick) (t : Tick) (cache : FolderCache) :
    w.key path ∈ walkedAt sortSize zones path withFolders watch before t cache ↔
      Due zones path w t.now (cacheAfter sortSize zones path withFolders watch before cache) := by
  obtain ⟨hwalks, hrests⟩ := @watchFolders_walks sortSize zones t.share path t.now w htimes watch
    honly ⟨cacheAfter sortSize zones path withFolders watch before cache, []⟩
  rw [walkedAt, Tick.report_eq hpath hw]
  refine ⟨fun hmem => by_contra fun hnot => ?_, fun hdue => (hwalks hw hdue).1⟩
  exact absurd ((hrests (fun h => hnot h.2)).1.mp hmem) List.not_mem_nil

theorem Tick.report_stamp {t : Tick} {cache : FolderCache}
    (hle : ∀ entry, cache (w.key path) = some entry → entry.stamp ≤ t.now) :
    ∃ entry, (t.report sortSize zones path withFolders watch cache).cache (w.key path)
      = some entry ∧ entry.stamp ≤ t.now := by
  obtain ⟨hwalks, hrests⟩ := @watchFolders_walks sortSize zones t.share path t.now w htimes watch
    honly ⟨cache, []⟩
  rw [Tick.report_eq hpath hw]
  by_cases hdue : Due zones path w t.now cache
  · obtain ⟨-, nodes, hnodes⟩ := hwalks hw hdue
    exact ⟨_, hnodes, le_rfl⟩
  · have hkeep := (hrests (fun h => hdue h.2)).2
    cases hentry : cache (w.key path) with
    | none => exact absurd (fun e he => by rw [hentry] at he; cases he) hdue
    | some entry => exact ⟨entry, hkeep.trans hentry, hle entry hentry⟩

/-- After a tick, the folder has been walked, and not later than at that tick. -/
theorem walked_last {cache : FolderCache} {before : List Tick} {last : Tick}
    (horder : (before ++ [last]).Pairwise fun a b => a.now < b.now)
    (hstart : ∀ entry, cache (w.key path) = some entry →
      ∀ t ∈ before ++ [last], entry.stamp < t.now) :
    ∃ entry, cacheAfter sortSize zones path withFolders watch (before ++ [last]) cache (w.key path)
      = some entry ∧ entry.stamp ≤ last.now := by
  rw [cacheAfter_append]
  apply Tick.report_stamp hpath hw htimes honly
  induction before using List.reverseRecOn generalizing last with
  | nil => exact fun entry hentry => (hstart entry hentry last List.mem_cons_self).le
  | append_singleton before p ih =>
    obtain ⟨hbefore, -, hlast⟩ := List.pairwise_append.mp horder
    have hprevious := ih hbefore (fun entry h t ht => hstart entry h t (List.mem_append_left _ ht))
    obtain ⟨entry, hentry, hle⟩ := @Tick.report_stamp sortSize zones path withFolders watch w hpath
      hw htimes honly p _ hprevious
    intro e he
    rw [cacheAfter_append, hentry] at he
    obtain rfl := Option.some.inj he
    exact hle.trans (hlast p (List.mem_append_right _ List.mem_cons_self) last
      List.mem_cons_self).le

end

/-! ### Scheduled walks -/

/-- The tick after `before` is the first one at or after an instant that the ticks cover. -/
def FirstAt (before : List Tick) (t : Tick) (s : ℤ) : Prop :=
  (∀ p ∈ before, p.now < s) ∧ s ≤ t.now ∧ (before ≠ [] ∨ s = t.now)

/-- The scheduled walks of a folder are made: at the first tick after each of them, and at no tick
    for which there is none since the last walk. -/
structure OnTime (sortSize : SizeSort) (zones : Zones) (path : String) (withFolders : Bool)
    (watch : List WatchSpec) (w : WatchSpec) (cache : FolderCache) (ticks : List Tick) : Prop where
  made : ∀ before t after, ticks = before ++ t :: after →
    ∀ s, Scheduled (zones.find w.scanTZ) w.scanTimes s → FirstAt before t s →
      w.key path ∈ walkedAt sortSize zones path withFolders watch before t cache
  needed : ∀ before t after, ticks = before ++ t :: after →
    w.key path ∈ walkedAt sortSize zones path withFolders watch before t cache →
      ∀ entry, cacheAfter sortSize zones path withFolders watch before cache (w.key path)
          = some entry →
        ∃ s, Scheduled (zones.find w.scanTZ) w.scanTimes s ∧ entry.stamp < s ∧ s ≤ t.now

/-- By the time of the tick, there has been a scheduled time on that day. -/
def ScheduledToday (loc : Location) (times : List String) (now : ℤ) : Prop :=
  ∃ r, Scheduled loc times r ∧ loc.day r = loc.day now ∧ r ≤ now

section

variable (hpath : path ≠ "") (hw : w ∈ watch) (htimes : w.scanTimes ≠ [])
  (honly : ∀ w' ∈ watch, w'.key path = w.key path → w' = w) {offset : ℤ}
  (hzone : zones.find w.scanTZ = Location.fixed offset) {cache : FolderCache} {before : List Tick}
  {t : Tick} {s : ℤ} (horder : (before ++ [t]).Pairwise fun a b => a.now < b.now)
  (hstart : ∀ entry, cache (w.key path) = some entry → ∀ p ∈ before ++ [t], entry.stamp < p.now)
  (hs : Scheduled (zones.find w.scanTZ) w.scanTimes s) (hfirst : FirstAt before t s)

include hpath hw htimes honly hzone horder hstart hs hfirst

/-- The walk of a scheduled time is made at the first tick after it only if a scheduled time of that
    day is past. -/
theorem scheduledToday_of_walked
    (h : w.key path ∈ walkedAt sortSize zones path withFolders watch before t cache) :
    ScheduledToday (zones.find w.scanTZ) w.scanTimes t.now := by
  obtain ⟨hbefore, hle, hcover⟩ := hfirst
  rcases List.eq_nil_or_concat' before with rfl | ⟨before, p, rfl⟩
  · obtain rfl := hcover.resolve_left (fun hne => hne rfl)
    exact ⟨t.now, hs, rfl, le_rfl⟩
  · obtain ⟨hearlier, -, -⟩ := List.pairwise_append.mp horder
    obtain ⟨entry, hentry, -⟩ := @walked_last sortSize zones path withFolders watch w hpath hw
      htimes honly cache before p hearlier
      (fun e he t ht => hstart e he t (List.mem_append_left _ ht))
    have hdue := (mem_walkedAt_iff hpath hw htimes honly _ _ _).mp h entry hentry
    obtain ⟨text, htext, time, htime, hpast, -⟩ := dueToday_iff.mp hdue
    refine ⟨_, ⟨_, text, htext, time, htime, rfl⟩, ?_, hpast⟩
    rw [hzone]
    exact Location.day_fixed htime _

/-- If one is, the walk is made. -/
theorem walked_of_scheduledToday
    (h : ScheduledToday (zones.find w.scanTZ) w.scanTimes t.now) :
    w.key path ∈ walkedAt sortSize zones path withFolders watch before t cache := by
  obtain ⟨hbefore, hle, hcover⟩ := hfirst
  obtain ⟨r, hr, hday, hpast⟩ := h
  rw [mem_walkedAt_iff hpath hw htimes honly]
  intro entry hentry
  rw [hzone] at hs hr hday ⊢
  rcases List.eq_nil_or_concat' before with rfl | ⟨before, p, rfl⟩
  · obtain rfl := hcover.resolve_left (fun hne => hne rfl)
    exact dueToday_of_scheduled hs rfl le_rfl (hstart entry hentry t List.mem_cons_self)
  · obtain ⟨hearlier, -, -⟩ := List.pairwise_append.mp horder
    obtain ⟨e, he, hlast⟩ := @walked_last sortSize zones path withFolders watch w hpath hw htimes
      honly cache before p hearlier
      (fun e he t ht => hstart e he t (List.mem_append_left _ ht))
    obtain rfl := Option.some.inj (he.symm.trans hentry)
    have hsince : e.stamp < s :=
      hlast.trans_lt (hbefore p (List.mem_append_right _ List.mem_cons_self))
    rcases Int.lt_or_le r s with hlt | hge
    · -- The scheduled time itself is on the day of the tick.
      have hsame : (Location.fixed offset).day s = (Location.fixed offset).day t.now :=
        le_antisymm (Location.day_mono hle) (hday.symm.le.trans (Location.day_mono hlt.le))
      exact dueToday_of_scheduled hs hsame hle hsince
    · exact dueToday_of_scheduled hr hday hpast (hsince.trans_le hge)

end

/-- The scheduled walks of a folder are made exactly if a scheduled time of the day is past at every
    tick that is the first one after a scheduled time. -/
theorem onTime_iff (sortSize : SizeSort) (hpath : path ≠ "") (hw : w ∈ watch)
    (htimes : w.scanTimes ≠ []) (honly : ∀ w' ∈ watch, w'.key path = w.key path → w' = w)
    {offset : ℤ} (hzone : zones.find w.scanTZ = Location.fixed offset) {cache : FolderCache}
    {ticks : List Tick} (horder : ticks.Pairwise fun a b => a.now < b.now)
    (hstart : ∀ entry, cache (w.key path) = some entry → ∀ t ∈ ticks, entry.stamp < t.now) :
    OnTime sortSize zones path withFolders watch w cache ticks ↔
      ∀ before t after, ticks = before ++ t :: after →
        ∀ s, Scheduled (zones.find w.scanTZ) w.scanTimes s → FirstAt before t s →
          ScheduledToday (zones.find w.scanTZ) w.scanTimes t.now := by
  have hsplit : ∀ {before t after}, ticks = before ++ t :: after →
      (before ++ [t]).Pairwise (fun a b => a.now < b.now) ∧
        ∀ entry, cache (w.key path) = some entry → ∀ p ∈ before ++ [t], entry.stamp < p.now := by
    rintro before t after rfl
    have hsub : List.Sublist (before ++ [t]) (before ++ t :: after) := by simp
    exact ⟨horder.sublist hsub, fun e he p hp => hstart e he p (hsub.subset hp)⟩
  constructor
  · intro h before t after hticks s hs hfirst
    obtain ⟨hbefore, hentries⟩ := hsplit hticks
    exact scheduledToday_of_walked hpath hw htimes honly hzone hbefore hentries hs hfirst
      (h.made before t after hticks s hs hfirst)
  · intro h
    constructor
    · intro before t after hticks s hs hfirst
      obtain ⟨hbefore, hentries⟩ := hsplit hticks
      exact walked_of_scheduledToday hpath hw htimes honly hzone hbefore hentries hs hfirst
        (h before t after hticks s hs hfirst)
    · intro before t after hticks hmem entry he
      exact dueToday_scheduled ((mem_walkedAt_iff hpath hw htimes honly _ _ _).mp hmem entry he)

namespace Sample

/-- A folder that is walked ten minutes before midnight. -/
def evening : WatchSpec := { sub := "photos", depth := 1, scanTimes := ["23:50"] }

/-- A tick so many minutes after a midnight. -/
def tickAt (m : ℤ) : Tick := ⟨m * minute, photos, 100, 50⟩

/-- An agent that knows no zone but its own. -/
def gmt : Zones := ⟨.fixed 0, fun _ => none⟩

theorem scheduled_evening_iff {s : ℤ} :
    Scheduled (gmt.find evening.scanTZ) evening.scanTimes s ↔
      ∃ day, s = (day * 1440 + 1430) * minute := by
  have htext : scanTime "23:50" = some (23, 50) := by decide +kernel
  have hdate : ∀ day, (gmt.find evening.scanTZ).date day 23 50 = (day * 1440 + 1430) * minute := by
    intro day
    show (day * 1440 + 23 * 60 + 50) * minute - 0 = _
    rw [minute]
    omega
  constructor
  · rintro ⟨day, t, ht, time, htime, rfl⟩
    obtain rfl := List.mem_singleton.mp ht
    obtain rfl := Option.some.inj (htext.symm.trans htime)
    exact ⟨day, hdate day⟩
  · rintro ⟨day, rfl⟩
    exact ⟨day, "23:50", List.mem_singleton.mpr rfl, (23, 50), htext, hdate day⟩

end Sample

open Sample in
theorem onTime_iff_evening :
    OnTime stableSizeSort gmt "/share" false [evening] evening (fun _ => none)
      [tickAt 1420, tickAt 1435] := by
  have hzone : gmt.find evening.scanTZ = Location.fixed 0 := rfl
  refine (onTime_iff stableSizeSort (by decide) List.mem_cons_self (by decide)
    (fun w hw _ => List.mem_singleton.mp hw) hzone (by simp [tickAt, minute])
    (fun e he => by cases he)).mpr ?_
  intro before t after hticks s hs hfirst
  obtain ⟨day, rfl⟩ := scheduled_evening_iff.mp hs
  obtain ⟨-, hle, hcover⟩ := hfirst
  rcases before with - | ⟨p, - | ⟨q, before⟩⟩
  · -- The first tick is at no scheduled time.
    obtain ⟨rfl, -⟩ := List.cons.inj hticks
    have hnow := hcover.resolve_left (fun hne => hne rfl)
    have hminutes : (day * 1440 + 1430) * minute = 1420 * minute := hnow
    rw [minute] at hminutes
    omega
  · obtain ⟨-, hticks⟩ := List.cons.inj hticks
    obtain ⟨rfl, -⟩ := List.cons.inj hticks
    refine ⟨(0 * 1440 + 1430) * minute, scheduled_evening_iff.mpr ⟨0, rfl⟩, by decide, ?_⟩
    show (0 * 1440 + 1430) * minute ≤ 1435 * minute
    decide
  · have hlong := congrArg List.length hticks
    simp at hlong

open Sample in
/-- The tick after midnight does not make the walk of the day before. -/
theorem not_onTime_midnight :
    ¬ ∀ (sortSize : SizeSort) (zones : Zones) (path : String) (withFolders : Bool)
      (watch : List WatchSpec) (w : WatchSpec) (offset : ℤ) (cache : FolderCache)
      (ticks : List Tick), path ≠ "" → w ∈ watch → w.scanTimes ≠ [] →
      (∀ t ∈ w.scanTimes, (scanTime t).isSome = true) →
      (∀ w' ∈ watch, w'.key path = w.key path → w' = w) →
      zones.find w.scanTZ = .fixed offset → ticks.Pairwise (fun a b => a.now < b.now) →
      ticks.IsChain (fun a b => b.now - a.now ≤ 60 * minute) →
      (∀ entry, cache (w.key path) = some entry → ∀ t ∈ ticks, entry.stamp < t.now) →
      OnTime sortSize zones path withFolders watch w cache ticks := by
  intro h
  have htimes : evening.scanTimes ≠ [] := by decide
  have honTime := h stableSizeSort gmt "/share" false [evening] evening 0 (fun _ => none)
    [tickAt 1420, tickAt 1460] (by decide) List.mem_cons_self htimes (by decide +kernel)
    (fun w hw _ => List.mem_singleton.mp hw) rfl (by simp [tickAt, minute])
    (by simp [tickAt, minute]) (fun e he => by cases he)
  have hs := scheduled_evening_iff.mpr ⟨0, rfl⟩
  have hfirst : FirstAt [tickAt 1420] (tickAt 1460) ((0 * 1440 + 1430) * minute) := by
    refine ⟨fun p hp => ?_, ?_, Or.inl (List.cons_ne_nil _ _)⟩
    · obtain rfl := List.mem_singleton.mp hp
      show 1420 * minute < (0 * 1440 + 1430) * minute
      decide
    · show (0 * 1440 + 1430) * minute ≤ 1460 * minute
      decide
  have hmade := honTime.made [tickAt 1420] (tickAt 1460) [] rfl _ hs hfirst
  have hzone : gmt.find evening.scanTZ = Location.fixed 0 := rfl
  obtain ⟨r, hr, hday, hpast⟩ := scheduledToday_of_walked (by decide) List.mem_cons_self htimes
    (fun w hw _ => List.mem_singleton.mp hw) hzone (by simp [tickAt, minute])
    (fun e he => by cases he) hs hfirst hmade
  -- Ten minutes before midnight of the day of the tick is still to come.
  obtain ⟨day, rfl⟩ := scheduled_evening_iff.mp hr
  have hone : ((day * 1440 + 1430) * minute + 0) / (1440 * minute)
      = (1460 * minute + 0) / (1440 * minute) := hday
  have hlate : (day * 1440 + 1430) * minute ≤ 1460 * minute := hpast
  rw [minute] at hone hlate
  omega

end Argus.Collect
