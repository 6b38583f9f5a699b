import Argus.Collect.Enumeration
import Argus.Collect.Storage

namespace Argus.Collect

/-!
# Scans that are cancelled

A walk that sees that the scan is cancelled returns what it has so far, and `RunScan` stores what a
walk returns.  It asks itself before every folder and at the end.

* `cooperative_walkWatch` — until it is seen to be cancelled, a scan does what it does anyway.
* `ownLooks` — when a scan asks itself.
* `forall_uncut_iff`, `le_checks_iff` — what it stores, and how it ends.
* `cancelsCleanly_iff` — it leaves whole walks behind exactly if it is cancelled right before that.
-/

open FileTree Polling

/-! ### Until it is seen -/

section

variable {σ : Type} {fn : Visit → σ → ScanM (σ × Control)}

theorem cooperative_listed (hfn : ∀ v s, Cooperative (fn v s)) (readable : Bool) (s : σ) :
    Cooperative (listed fn readable s) := by
  rw [listed]
  split
  · exact Cooperative.pure _
  · exact hfn _ _

theorem cooperative_walk (hfn : ∀ v s, Cooperative (fn v s)) (es : Entries) (s : σ) :
    Cooperative (walk fn es s) := by
  induction es generalizing s with
  | nil => exact Cooperative.pure _
  | file name info rest ih =>
    rw [walk]
    apply Cooperative.bind (hfn _ _)
    rintro ⟨s, control⟩
    cases control with
    | next => exact ih s
    | skipDir => exact Cooperative.pure _
    | skipAll => exact Cooperative.pure _
  | dir name readable inside rest ihInside ihRest =>
    rw [walk]
    apply Cooperative.bind (hfn _ _)
    rintro ⟨s, control⟩
    cases control with
    | skipDir => exact ihRest s
    | skipAll => exact Cooperative.pure _
    | next =>
      apply Cooperative.bind (cooperative_listed hfn readable s)
      rintro ⟨s, control⟩
      cases control with
      | skipDir => exact ihRest s
      | skipAll => exact Cooperative.pure _
      | next =>
        apply Cooperative.bind (ihInside s)
        rintro ⟨s, control⟩
        cases control with
        | skipAll => exact Cooperative.pure _
        | next => exact ihRest s
        | skipDir => exact ihRest s

theorem cooperative_walkDir (hfn : ∀ v s, Cooperative (fn v s)) (d : Dir) (s : σ) :
    Cooperative (walkDir fn d s) := by
  rw [walkDir]
  apply Cooperative.bind (hfn _ _)
  rintro ⟨s, control⟩
  cases control with
  | skipDir => exact Cooperative.pure _
  | skipAll => exact Cooperative.pure _
  | next =>
    apply Cooperative.bind (cooperative_listed hfn d.readable s)
    rintro ⟨s, control⟩
    cases control with
    | skipDir => exact Cooperative.pure _
    | skipAll => exact Cooperative.pure _
    | next => exact Cooperative.bind (cooperative_walk hfn d.entries s) fun _ => Cooperative.pure _

end

theorem cooperative_cancelledEvery (step n : ℕ) : Cooperative (cancelledEvery step n) :=
  Cooperative.ite Cooperative.poll (Cooperative.pure _)

theorem cooperative_sizeDir (t : Tally) : Cooperative (sizeDir t) := by
  apply Cooperative.bind (cooperative_cancelledEvery _ _)
  intro stop
  exact Cooperative.ite (Cooperative.pure _) (Cooperative.pure _)

theorem cooperative_sizeVisit (t : Tally) (v : Visit) : Cooperative (sizeVisit t v) := by
  cases v with
  | root => exact cooperative_sizeDir t
  | file name info =>
    cases info with
    | none => exact Cooperative.pure _
    | some size => exact Cooperative.pure _
  | dir name => exact Cooperative.ite (Cooperative.pure _) (cooperative_sizeDir _)
  | unread => exact Cooperative.pure _

theorem cooperative_sizeEntry (v : Visit) (t : Tally) : Cooperative (sizeEntry v t) := by
  apply Cooperative.ite (Cooperative.pure _)
  apply Cooperative.ite (Cooperative.pure _)
  apply Cooperative.bind (cooperative_cancelledEvery _ _)
  intro stop
  exact Cooperative.ite (Cooperative.pure _) (cooperative_sizeVisit t v)

theorem cooperative_dirSize (d : Dir) : Cooperative (dirSize d) :=
  cooperative_walkDir cooperative_sizeEntry d {}

theorem cooperative_size (full : Found) : Cooperative full.size := by
  cases full with
  | file info => exact Cooperative.bind (cooperative_sizeEntry _ _) fun _ => Cooperative.pure _
  | dir d => exact cooperative_dirSize d

theorem cooperative_folder (current : String) : Cooperative (folder current) := by
  apply Cooperative.bind Cooperative.poll
  intro stop
  apply Cooperative.ite (Cooperative.pure _)
  exact Cooperative.bind (Cooperative.report _) fun _ => Cooperative.pure _

variable (sortSize : SizeSort)

theorem cooperative_enumDir {readable : Bool} {budget : ℕ}
    {loop : ℕ → ScanM (List FolderNode × ℕ)} (hloop : ∀ left, Cooperative (loop left)) :
    Cooperative (enumDir sortSize readable budget loop) := by
  apply Cooperative.ite (Cooperative.pure _)
  apply Cooperative.bind Cooperative.poll
  intro stop
  apply Cooperative.ite (Cooperative.pure _)
  apply Cooperative.ite
  · exact Cooperative.bind (hloop _) fun _ => Cooperative.pure _
  · exact Cooperative.pure _

theorem cooperative_enumEntries (es : Entries) (label : String) (depth count budget : ℕ) :
    Cooperative (enumEntries sortSize es label depth count budget) := by
  induction es generalizing label depth count budget with
  | nil => exact Cooperative.pure _
  | file name info rest ih => exact ih label depth count budget
  | dir name readable inside rest ihInside ihRest =>
    apply Cooperative.ite (ihRest label depth count budget)
    apply Cooperative.ite (Cooperative.pure _)
    apply Cooperative.bind (cooperative_folder _)
    intro goOn
    apply Cooperative.ite
    · apply Cooperative.bind (cooperative_dirSize _)
      intro t
      apply Cooperative.bind
      · apply Cooperative.ite _ (Cooperative.pure _)
        exact cooperative_enumDir sortSize fun left => ihInside _ _ _ left
      · intro sub
        exact Cooperative.bind (ihRest label depth (count + 1) _) fun _ => Cooperative.pure _
    · exact Cooperative.pure _

theorem cooperative_enumFolders (d : Dir) (label : String) (depth budget : ℕ) :
    Cooperative (enumFolders sortSize d label depth budget) :=
  cooperative_enumDir sortSize fun left => cooperative_enumEntries sortSize _ _ _ _ left

theorem cooperative_walkWatch (share : Share) (w : WatchSpec) :
    Cooperative (walkWatch sortSize share w) := by
  rw [walkWatch]
  split
  · exact Cooperative.pure _
  · apply Cooperative.ite
    · exact Cooperative.bind (cooperative_enumFolders sortSize _ _ _ _) fun _ => Cooperative.pure _
    · apply Cooperative.bind (cooperative_size _)
      intro t
      apply Cooperative.bind _ fun _ => Cooperative.pure _
      exact Cooperative.ite (cooperative_enumFolders sortSize _ _ _ _) (Cooperative.pure _)

theorem cooperative_scanFolders (share : Share) (specs : List WatchSpec) :
    Cooperative (scanFolders sortSize share specs) := by
  induction specs with
  | nil => exact Cooperative.pure _
  | cons w specs ih =>
    apply Cooperative.bind Cooperative.poll
    intro stop
    apply Cooperative.ite (Cooperative.pure _)
    apply Cooperative.bind (cooperative_walkWatch sortSize share w)
    intro nodes
    apply Cooperative.bind Cooperative.observed
    intro cut
    exact Cooperative.bind ih fun _ => Cooperative.pure _

/-! ### The loop of a scan -/

/-- The numbers of the looks that the scan takes between its folders and at its end, when nobody
    cancels it. -/
def ownLooks (share : Share) : List WatchSpec → Run ScanProgress → List ℕ
  | [], r => [r.checks]
  | w :: specs, r =>
    r.checks :: ownLooks share specs
      (Cooperative.after (walkWatch sortSize share w) r.looked.unstopped)

section

variable {sortSize} {share : Share} {specs : List WatchSpec} {r : Run ScanProgress}

theorem le_of_mem_ownLooks {n : ℕ} (h : n ∈ ownLooks sortSize share specs r) : r.checks ≤ n := by
  induction specs generalizing r with
  | nil => exact (List.mem_singleton.mp h).ge
  | cons w specs ih =>
    rcases List.mem_cons.mp h with rfl | h
    · exact le_rfl
    · have hlater := Cooperative.checks_le_after (cooperative_walkWatch sortSize share w)
        (r := r.looked.unstopped)
      exact (Nat.le_succ _).trans (hlater.trans (ih h))

/-- There is a look at the end. -/
theorem exists_mem_ownLooks (specs : List WatchSpec) (r : Run ScanProgress) :
    ∃ n, n ∈ ownLooks sortSize share specs r := by
  cases specs with
  | nil => exact ⟨_, List.mem_cons_self⟩
  | cons w specs => exact ⟨_, List.mem_cons_self⟩

/-- The scan is stopped before a folder, or the folder is walked and stored. -/
theorem scanFolders_cons (w : WatchSpec) :
    scanFolders sortSize share (w :: specs) (some r)
      = if r.cancelAt.any (· ≤ r.checks) then ([], some r.looked)
        else
          let next := Cooperative.after (walkWatch sortSize share w) r.looked
          (⟨w, (walkWatch sortSize share w (some r.looked)).1, next.seen⟩ ::
            (scanFolders sortSize share specs (some next)).1,
            (scanFolders sortSize share specs (some next)).2) := by
  rw [scanFolders, bind_apply]
  show (if r.cancelAt.any (· ≤ r.checks) then _ else _ : ScanM (List Stored)) (some r.looked) = _
  split
  · rfl
  · rw [bind_apply, Cooperative.apply_some (cooperative_walkWatch sortSize share w)]
    rfl

/-- A folder that is stored before the scan is seen to be cancelled is stored as it is. -/
theorem mem_scanFolders {st : Stored} (h : st ∈ (scanFolders sortSize share specs (some r)).1) :
    st.spec ∈ specs ∧ (st.cut = false → st.nodes = (walkWatch sortSize share st.spec none).1) := by
  induction specs generalizing r with
  | nil => exact absurd h List.not_mem_nil
  | cons w specs ih =>
    rw [scanFolders_cons] at h
    split at h
    · exact absurd h List.not_mem_nil
    · rcases List.mem_cons.mp h with rfl | h
      · refine ⟨List.mem_cons_self, fun hnot => ?_⟩
        rw [Cooperative.apply_of_not_seen (cooperative_walkWatch sortSize share w) hnot]
      · exact ⟨List.mem_cons_of_mem w (ih h).1, (ih h).2⟩

variable {k : ℕ}

/-- The walk of a folder, in a scan that will be cancelled: it sees that, or it ends as if it were
    not to be. -/
theorem walk_cases (hlt : r.checks < k) (w : WatchSpec) :
    let next := Cooperative.after (walkWatch sortSize share w) (r.stopAt k).looked
    let free := Cooperative.after (walkWatch sortSize share w) r.looked.unstopped
    (next.seen = true ∧ k < free.checks) ∨
      (next = free.stopAt k ∧ next.seen = false ∧ free.checks ≤ k) := by
  intro next free
  have hwalk := cooperative_walkWatch sortSize share w
  have hstart : (r.stopAt k).looked.seen = false := decide_eq_false (Nat.not_lt.mpr hlt)
  have hiff : next.seen = decide (k < free.checks) := Cooperative.seen_after_iff hwalk hstart
  cases hnext : next.seen with
  | true =>
    rw [hnext] at hiff
    exact Or.inl ⟨rfl, of_decide_eq_true hiff.symm⟩
  | false =>
    rw [hnext] at hiff
    refine Or.inr ⟨?_, rfl, Nat.not_lt.mp (of_decide_eq_false hiff.symm)⟩
    have hsame := congrArg Prod.snd (Cooperative.apply_of_not_seen hwalk hnext)
    rw [Cooperative.apply_some hwalk] at hsame
    exact Option.some.inj hsame

/-- The loop goes on after a folder. -/
theorem scanFolders_goOn (hlt : r.checks < k) (w : WatchSpec) :
    let next := Cooperative.after (walkWatch sortSize share w) (r.stopAt k).looked
    scanFolders sortSize share (w :: specs) (some (r.stopAt k))
      = (⟨w, (walkWatch sortSize share w (some (r.stopAt k).looked)).1, next.seen⟩ ::
          (scanFolders sortSize share specs (some next)).1,
          (scanFolders sortSize share specs (some next)).2) := by
  rw [scanFolders_cons, if_neg]
  show ¬ decide (k ≤ r.checks) = true
  rw [decide_eq_true_eq]
  exact Nat.not_le.mpr hlt

/-- No walk of a folder sees that the scan is cancelled exactly if the scan sees it between them, or
    has ended. -/
theorem forall_uncut_iff (hle : r.checks ≤ k) :
    (∀ st ∈ (scanFolders sortSize share specs (some (r.stopAt k))).1, st.cut = false) ↔
      k ∈ ownLooks sortSize share specs r ∨ ∀ n ∈ ownLooks sortSize share specs r, n < k := by
  induction specs generalizing r with
  | nil =>
    refine iff_of_true (fun st h => absurd h List.not_mem_nil) ?_
    rw [ownLooks, List.forall_mem_singleton, List.mem_singleton]
    omega
  | cons w specs ih =>
    rw [ownLooks]
    rcases Nat.eq_or_lt_of_le hle with rfl | hlt
    · have hstop : (r.stopAt r.checks).cancelAt.any (· ≤ (r.stopAt r.checks).checks) = true :=
        decide_eq_true le_rfl
      rw [scanFolders_cons]
      exact iff_of_true (by rw [if_pos hstop]; exact fun st h => absurd h List.not_mem_nil)
        (Or.inl List.mem_cons_self)
    · rw [scanFolders_goOn hlt, List.forall_mem_cons, List.forall_mem_cons]
      rcases walk_cases hlt w with ⟨hseen, hk⟩ | ⟨hnext, hseen, hk⟩
      · -- The walk sees it, and all looks of the scan that are left come later.
        refine iff_of_false (fun h => Bool.false_ne_true (h.1.symm.trans hseen)) ?_
        rintro (hmem | ⟨-, hall⟩)
        · rcases List.mem_cons.mp hmem with rfl | hmem
          · exact lt_irrefl _ hlt
          · exact absurd (le_of_mem_ownLooks hmem) (Nat.not_le.mpr hk)
        · obtain ⟨n, hn⟩ := @exists_mem_ownLooks sortSize share specs
            (Cooperative.after (walkWatch sortSize share w) r.looked.unstopped)
          exact absurd ((le_of_mem_ownLooks hn).trans_lt (hall n hn)) (Nat.not_lt.mpr hk.le)
      · have hne : k ≠ r.checks := hlt.ne'
        rw [hseen, hnext, ih hk, List.mem_cons]
        simp only [hne, hlt, true_and, false_or]

/-- The scan sees that it is cancelled exactly if it is by its last look. -/
theorem le_checks_iff (hle : r.checks ≤ k) :
    k ≤ (Cooperative.after (scanFolders sortSize share specs) (r.stopAt k)).checks ↔
      ∃ n ∈ ownLooks sortSize share specs r, k ≤ n := by
  induction specs generalizing r with
  | nil =>
    rw [ownLooks]
    simp only [List.mem_singleton, exists_eq_left]
    exact Iff.rfl
  | cons w specs ih =>
    rw [ownLooks, List.exists_mem_cons_iff]
    rcases Nat.eq_or_lt_of_le hle with rfl | hlt
    · have hlater := Cooperative.checks_le_after
        (cooperative_scanFolders sortSize share (w :: specs)) (r := r.stopAt r.checks)
      exact iff_of_true hlater (Or.inl le_rfl)
    · have hnext : Cooperative.after (scanFolders sortSize share (w :: specs)) (r.stopAt k)
          = Cooperative.after (scanFolders sortSize share specs)
            (Cooperative.after (walkWatch sortSize share w) (r.stopAt k).looked) := by
        rw [Cooperative.after, scanFolders_goOn hlt,
          Cooperative.apply_some (cooperative_scanFolders sortSize share specs)]
        rfl
      rw [hnext, or_iff_right (Nat.not_le.mpr hlt)]
      rcases walk_cases hlt w with ⟨hseen, hk⟩ | ⟨hnext, -, hk⟩
      · have hlast := Cooperative.seen_after (cooperative_scanFolders sortSize share specs) hseen
        obtain ⟨n, hn⟩ := @exists_mem_ownLooks sortSize share specs
          (Cooperative.after (walkWatch sortSize share w) r.looked.unstopped)
        refine iff_of_true ?_ ⟨n, hn, hk.le.trans (le_of_mem_ownLooks hn)⟩
        rw [Run.seen, Cooperative.cancelAt_after (cooperative_scanFolders sortSize share specs),
          Cooperative.cancelAt_after (cooperative_walkWatch sortSize share w)] at hlast
        exact (of_decide_eq_true hlast).le
      · rw [hnext, ih hk]

/-! ### Whole scans -/

variable {withFolders : Bool} {watch : List WatchSpec}

theorem scan_stored (cancelAt : Option ℕ) :
    (scan sortSize share withFolders watch cancelAt).stored
      = (scanFolders sortSize share (scanSpecs withFolders watch)
          (some (scanStart cancelAt))).1 := by
  rw [scan, runScan, bind_apply]
  rfl

theorem scan_status (cancelAt : Option ℕ) :
    (scan sortSize share withFolders watch cancelAt).progress.status
      = if cancelAt.any (· ≤ (Cooperative.after (scanFolders sortSize share
            (scanSpecs withFolders watch)) (scanStart cancelAt)).checks)
        then "cancelled" else "done" := by
  have hloop := cooperative_scanFolders sortSize share (scanSpecs withFolders watch)
  have hcancel := Cooperative.cancelAt_after hloop (r := scanStart cancelAt)
  rw [scan, runScan, bind_apply, Cooperative.apply_some hloop]
  show (if (Cooperative.after (scanFolders sortSize share (scanSpecs withFolders watch))
    (scanStart cancelAt)).cancelAt.any _ then "cancelled" else "done") = _
  rw [hcancel]
  rfl

/-- The status of a scan tells whether it was cancelled by its last look. -/
theorem scan_cancelled_iff (k : ℕ) :
    (scan sortSize share withFolders watch (some k)).progress.status = "cancelled" ↔
      ∃ n ∈ ownLooks sortSize share (scanSpecs withFolders watch) (scanStart none), k ≤ n := by
  rw [scan_status, ← le_checks_iff (Nat.zero_le k)]
  show (if decide _ then "cancelled" else "done") = "cancelled" ↔ _
  split
  · rename_i h
    exact iff_of_true rfl (of_decide_eq_true h)
  · rename_i h
    refine iff_of_false (by decide) (fun hle => h (decide_eq_true hle))

theorem storeAll_cases (path : String) (clock : ℕ → ℤ) (stored : List Stored) (cache : FolderCache)
    (key : String) :
    (storeAll path clock stored cache key = cache key ∧
        ∀ st ∈ stored, st.spec.key path ≠ key) ∨
      ∃ st ∈ stored, st.spec.key path = key ∧
        ∃ n, storeAll path clock stored cache key = some ⟨st.nodes, clock n⟩ := by
  induction stored generalizing clock cache with
  | nil => exact Or.inl ⟨rfl, fun st h => absurd h List.not_mem_nil⟩
  | cons s stored ih =>
    rcases ih (fun n => clock (n + 1)) (setFolderCache cache (s.spec.key path) s.nodes (clock 0))
      with ⟨hsame, hnone⟩ | ⟨st, hst, hkey, n, hn⟩
    · by_cases hkey : s.spec.key path = key
      · refine Or.inr ⟨s, List.mem_cons_self, hkey, 0, ?_⟩
        rw [storeAll, hsame, setFolderCache, hkey, Function.update_self]
      · refine Or.inl ⟨?_, List.forall_mem_cons.mpr ⟨hkey, hnone⟩⟩
        rw [storeAll, hsame, setFolderCache, Function.update_of_ne (Ne.symm hkey)]
    · exact Or.inr ⟨st, List.mem_cons_of_mem s hst, hkey, n + 1, hn⟩

end

/-- A scan that is cancelled leaves good data behind: it walks every folder that it stores to the
    end, so that the cache has what was there or a whole walk. -/
structure CancelsCleanly (share : Share) (withFolders : Bool) (watch : List WatchSpec) (k : ℕ) :
    Prop where
  status : (scan sortSize share withFolders watch (some k)).progress.status = "cancelled"
  uncut : ∀ st ∈ (scan sortSize share withFolders watch (some k)).stored, st.cut = false
  cached : ∀ path clock cache key,
    storeAll path clock (scan sortSize share withFolders watch (some k)).stored cache key
        = cache key ∨
      ∃ w ∈ scanSpecs withFolders watch, w.key path = key ∧
        ∃ n, storeAll path clock (scan sortSize share withFolders watch (some k)).stored cache key
          = some ⟨(walkWatch sortSize share w none).1, clock n⟩

/-- It does so exactly if it is cancelled just before it asks itself whether it is. -/
theorem cancelsCleanly_iff (share : Share) (withFolders : Bool) (watch : List WatchSpec) (k : ℕ) :
    CancelsCleanly sortSize share withFolders watch k ↔
      k ∈ ownLooks sortSize share (scanSpecs withFolders watch) (scanStart none) := by
  have huncut := @forall_uncut_iff sortSize share (scanSpecs withFolders watch) (scanStart none) k
    (Nat.zero_le k)
  constructor
  · intro h
    obtain ⟨n, hn, hle⟩ := (scan_cancelled_iff k).mp h.status
    have hwhole := h.uncut
    rw [scan_stored] at hwhole
    exact (huncut.mp hwhole).resolve_right (fun hall => absurd (hall n hn) (Nat.not_lt.mpr hle))
  · intro hk
    have hwhole := huncut.mpr (Or.inl hk)
    refine ⟨(scan_cancelled_iff k).mpr ⟨k, hk, le_rfl⟩, ?_, fun path clock cache key => ?_⟩
    · rw [scan_stored]
      exact hwhole
    · rcases storeAll_cases path clock (scan sortSize share withFolders watch (some k)).stored cache
        key with ⟨hsame, -⟩ | ⟨st, hst, hkey, n, hn⟩
      · exact Or.inl hsame
      · rw [scan_stored] at hst
        obtain ⟨hspec, hnodes⟩ := mem_scanFolders hst
        refine Or.inr ⟨st.spec, hspec, hkey, n, ?_⟩
        rw [hn, hnodes (hwhole st hst)]

namespace Sample

/-- A share with one folder in it. -/
def photos : Share := fun sub =>
  if sub = "photos" then some (.dir ⟨true, .file "a" (some 10) .nil⟩) else none

/-- What the cache has of it. -/
def lastWalk : FolderCache := fun key =>
  if key = "/share|photos|1" then some ⟨[⟨"photos", 10, 1, 0⟩], 0⟩ else none

end Sample

open Sample in
/-- The walk of the only folder sees that the scan is cancelled, and nothing is stored for it. -/
theorem scan_stores_cut_walk :
    ¬ ∀ (sortSize : SizeSort) (share : Share) (withFolders : Bool) (watch : List WatchSpec)
      (k : ℕ) (path : String) (clock : ℕ → ℤ) (cache : FolderCache) (key : String),
      (scan sortSize share withFolders watch (some k)).progress.status = "cancelled" →
      storeAll path clock (scan sortSize share withFolders watch (some k)).stored cache key
          = cache key ∨
        ∃ w ∈ scanSpecs withFolders watch, w.key path = key ∧
          ∃ n, storeAll path clock (scan sortSize share withFolders watch (some k)).stored cache
            key = some ⟨(walkWatch sortSize share w none).1, clock n⟩ := by
  intro h
  have hstored : storeAll "/share" (fun _ => 60) (scan stableSizeSort photos false
      [{ sub := "photos", depth := 1 }] (some 1)).stored lastWalk "/share|photos|1"
        = some ⟨[⟨"photos", 0, 0, 0⟩], 60⟩ := by decide +kernel
  have hwhole : (walkWatch stableSizeSort photos { sub := "photos", depth := 1 } none).1
      = [⟨"photos", 10, 1, 0⟩] := by decide +kernel
  rcases h stableSizeSort photos false [{ sub := "photos", depth := 1 }] 1 "/share" (fun _ => 60)
    lastWalk "/share|photos|1" (by decide +kernel) with hsame | ⟨w, hw, -, n, hn⟩
  · rw [hstored] at hsame
    exact absurd hsame (by decide +kernel)
  · obtain rfl := List.mem_singleton.mp hw
    rw [hstored, hwhole] at hn
    exact absurd hn (by decide +kernel)

end Argus.Collect
