import Argus.Core.Diff
import Argus.Lib.Machine
import Argus.Schedulers.Smb

namespace Argus.Schedulers

open Core (HealthStatus)

/-!
# Folder scans

The scan manager runs the folder walk of a storage monitor, with `pauseScan`, `resumeScan` and
`cancelScan` as flags that the walk polls at the head of its loop.  The flag `cancelled` is read
before the walk waits for a pause and never after it, and not at all once the queue is empty or
the budget is used up.

* `Scan` — the entry of a monitor, its asynchronous runs, and what they have left behind.
* `Scan.continues` — a run goes on from where it waits; `Scan.step` — and the four calls.
* `scanManager` — the entries of all monitors; they share nothing.
* `Scan.Single` — one run at most, and a waiter only while the run is paused.
* `ReachesCheck` — the step condition: a cancelled run comes to `isCancelled` once more.
* `scans_cancelled` — `Scan.Single` in every run; and in those that meet the condition a cancel
  takes effect: the scan ends as cancelled, within three steps of its own, and leaves nothing.
-/

/-! ### The code -/

inductive ScanStatus
  | idle | running | paused | done | cancelled | error
deriving DecidableEq, Repr

/-- What `getMonitor` returns, as far as a scan reads it. -/
structure StorageMonitor where
  isStorage : Bool
  agentId : String
  name : String
  path : String
  folders : Bool
  watchFolders : List SmbWatch
deriving DecidableEq, Repr

/-- What a run waits for. -/
inductive ScanPhase
  /-- `getMonitor`. -/
  | loading
  /-- `credPass`. -/
  | unlocking (m : StorageMonitor)
  /-- The `ls` that tells the capacity of the share. -/
  | probing (m : StorageMonitor) (unc : Unc)
  /-- The rest of `smbProbe`. -/
  | walking (m : StorageMonitor) (pause : Pause)
  /-- `processUnits`. -/
  | applying (m : StorageMonitor) (sample : StorageSample)
  /-- The row of `storage_metrics`. -/
  | measuring (m : StorageMonitor) (sample : StorageSample)
  /-- The rows of `folder_metrics`. -/
  | recording (m : StorageMonitor) (sample : StorageSample)
deriving DecidableEq, Repr

/-- A call of `runScan` that did not join another; the ticket is the identity of its promise. -/
structure ScanRun where
  ticket : ℕ
  phase : ScanPhase
deriving DecidableEq, Repr

/-- A unit, as a scan gives it to `processUnits`. -/
structure StorageUnit where
  agentId : String
  entity : String
  status : HealthStatus
  storage : StorageSample
deriving DecidableEq, Repr

/-- What the scans of a monitor have left behind: the cached result of its entry, the units given
    to the pipeline, the rows of the two tables, and the directories that were listed. -/
structure ScanResults where
  cachedAt : Option ℕ := none
  folders : Option (List FolderNode) := none
  cacheError : Option String := none
  units : List StorageUnit := []
  storageMetrics : List StorageSample := []
  folderMetrics : List FolderNode := []
  listed : List String := []
deriving DecidableEq, Repr

structure ScanProgress extends Totals where
  current : String := ""
deriving DecidableEq, Repr

/-- The entry of a monitor, and its runs. -/
structure Scan where
  status : ScanStatus := .idle
  progress : ScanProgress := {}
  error : Option String := none
  paused : Bool := false
  cancelled : Bool := false
  resumeWaiters : List ℕ := []
  running : Option ℕ := none
  /-- The next ticket. -/
  fresh : ℕ := 0
  runs : List ScanRun := []
  lastFolderRecord : ℕ := 0
  results : ScanResults := {}
deriving DecidableEq, Repr

/-- `cachedFolders`. -/
def ScanResults.cachedFolders (r : ScanResults) (ttlMs now : ℕ) :
    Option (Option (List FolderNode) × Option String) :=
  r.cachedAt.bind fun t => if ttlMs < now - t then none else some (r.folders, r.cacheError)

def statusFor (s : StorageSample) : HealthStatus :=
  if s.reachable = false then .down
  else if 90 ≤ s.usedPct.getD 0 then .degraded
  else .up

/-- What ends a wait. -/
inductive ScanAnswer
  | monitor (row : Except String (Option StorageMonitor))
  | credential (ok : Except String Unit)
  | capacity (answer : Except String (Option Capacity))
  | listing (answer : Option DirListing)
  | written (ok : Except String Unit)
  /-- The promise was resolved by the program itself. -/
  | turn

inductive ScanEvent
  | runScan
  | pauseScan
  | resumeScan
  | cancelScan
  /-- The run with this ticket goes on, at this time. -/
  | continues (ticket now : ℕ) (answer : ScanAnswer)

def ScanEvent.isContinues : ScanEvent → Bool
  | .continues _ _ _ => true
  | _ => false

/-- A waiter is called. -/
def ScanPhase.wake : ScanPhase → ScanPhase
  | .walking m (.waiting w) => .walking m (.woken w)
  | phase => phase

namespace Scan

variable (e : Scan)

/-- The run waits for something else. -/
def park (ticket : ℕ) (phase : ScanPhase) : Scan :=
  { e with runs := e.runs.map fun r => if r.ticket = ticket then { r with phase := phase } else r }

/-- `catch` and `finally`. -/
def finish (ticket : ℕ) (status : ScanStatus) (error : Option String) : Scan :=
  { e with
    status := status
    error := error
    running := none
    runs := e.runs.filter fun r => r.ticket ≠ ticket }

def fail (ticket : ℕ) (message : String) : Scan := e.finish ticket .error (some message)

/-- The run is left where a stretch of the probe comes to. -/
def goOn (ticket : ℕ) (m : StorageMonitor) : Option Pause → Scan
  | none => e.finish ticket .cancelled e.error
  | some (.waiting w) =>
    park { e with status := .paused, resumeWaiters := e.resumeWaiters ++ [ticket] } ticket
      (.walking m (.waiting w))
  | some (.listing w rel depth) =>
    park { e with results := { e.results with listed := e.results.listed ++ [w.full rel] } } ticket
      (.walking m (.listing w rel depth))
  | some pause => e.park ticket (.walking m pause)

/-- `onProgress`, which is not called for a listing that failed. -/
def onProgress (w : Walk) (rel : String) (depth : ℕ) : Option DirListing → Scan
  | none => e
  | some l =>
    { e with progress :=
      { (w.absorb rel depth (some l)).totals with
        current := if w.full rel = "" then "/" else w.full rel } }

def wakeAll : Scan :=
  { e with
    resumeWaiters := []
    runs := e.runs.map fun r =>
      if r.ticket ∈ e.resumeWaiters then { r with phase := r.phase.wake } else r }

def folderHistoryMin : ℕ := 60

/-- The result of a share that answered is cached. -/
def cache (now : ℕ) (sample : StorageSample) : Scan :=
  if sample.reachable then
    { e with results := { e.results with
      cachedAt := some now, folders := sample.folders, cacheError := sample.error } }
  else e

/-- `applyStorageSample` calls `processUnits`. -/
def apply (m : StorageMonitor) (sample : StorageSample) : Scan :=
  { e with results := { e.results with
    units := e.results.units ++ [⟨m.agentId, m.name, statusFor sample, sample⟩] } }

def insertStorage (sample : StorageSample) : Scan :=
  { e with results := { e.results with
    storageMetrics := e.results.storageMetrics ++ [sample] } }

def insertFolders (now : ℕ) (folders : List FolderNode) : Scan :=
  { e with
    lastFolderRecord := now
    results := { e.results with folderMetrics := e.results.folderMetrics ++ folders } }

/-- `recordFolderMetrics`: the history of folders has a row an hour. -/
def record (ticket now : ℕ) (m : StorageMonitor) (sample : StorageSample) : Scan :=
  let folders := sample.folders.getD []
  if folders = [] ∨ now - e.lastFolderRecord < folderHistoryMin * 60000 then
    e.finish ticket .done sample.error
  else (e.insertFolders now folders).park ticket (.recording m sample)

variable (localeLe : String → String → Bool)

/-- The code of a run between two waits. -/
def continues (ticket now : ℕ) : ScanPhase → ScanAnswer → Option Scan
  | .loading, .monitor (.error message) => some (e.fail ticket message)
  | .loading, .monitor (.ok none) => some (e.fail ticket "not a storage monitor")
  | .loading, .monitor (.ok (some m)) =>
    if m.isStorage = false then some (e.fail ticket "not a storage monitor")
    else if m.path = "" then some (e.fail ticket "monitor has no path")
    else some (e.park ticket (.unlocking m))
  | .unlocking _, .credential (.error message) => some (e.fail ticket message)
  | .unlocking m, .credential (.ok ()) =>
    match validUnc m.path with
    | none =>
      some (e.park ticket (.walking m (.probed (.unreachable "invalid \\\\host\\share path"))))
    | some unc => some (e.park ticket (.probing m unc))
  | .probing m _, .capacity (.error message) =>
    let message := if message = "" then "smb error" else message
    some (e.park ticket
      (.walking m (.probed (.unreachable (String.ofList (message.toList.take 200))))))
  | .probing m unc, .capacity (.ok capacity) =>
    let walk := Walk.start (shareRoots unc.base m.folders m.watchFolders) now capacity
    some (e.goOn ticket m (walk.roots localeLe e.cancelled e.paused now))
  | .walking m (.woken w), .turn =>
    some (park { e with status := if e.cancelled then e.status else .running } ticket
      (.walking m (.ready w)))
  | .walking m (.ready w), .turn => some (e.goOn ticket m (w.shift e.cancelled e.paused now))
  | .walking m (.listing w rel depth), .listing l =>
    some ((e.onProgress w rel depth l).goOn ticket m
      (w.listed e.cancelled e.paused now rel depth l))
  | .walking m (.walked w), .turn =>
    some (e.goOn ticket m (w.next localeLe e.cancelled e.paused now))
  | .walking m (.probed sample), .turn =>
    some (((e.cache now sample).apply m sample).park ticket (.applying m sample))
  | .applying _ _, .written (.error message) => some (e.fail ticket message)
  | .applying m sample, .written (.ok ()) =>
    if sample.reachable then
      some ((e.insertStorage sample).park ticket (.measuring m sample))
    else some (e.finish ticket .done sample.error)
  | .measuring _ _, .written (.error message) => some (e.fail ticket message)
  | .measuring m sample, .written (.ok ()) => some (e.record ticket now m sample)
  | .recording _ _, .written (.error message) => some (e.fail ticket message)
  | .recording _ sample, .written (.ok ()) => some (e.finish ticket .done sample.error)
  | _, _ => none

/-- `runScan`, when nothing runs. -/
def begin : Scan :=
  { e with
    cancelled := false
    paused := false
    status := .running
    error := none
    progress := {}
    running := some e.fresh
    fresh := e.fresh + 1
    runs := e.runs ++ [⟨e.fresh, .loading⟩] }

def step : ScanEvent → Option Scan
  | .runScan => some (if e.running.isSome then e else e.begin)
  | .pauseScan => some (if e.running.isSome then { e with paused := true } else e)
  | .resumeScan => some (wakeAll { e with paused := false })
  | .cancelScan =>
    some (if e.running.isSome then wakeAll { e with cancelled := true, paused := false } else e)
  | .continues ticket now answer =>
    (e.runs.find? fun r => r.ticket = ticket).bind fun r =>
      e.continues localeLe ticket now r.phase answer

end Scan

/-- The entry of one monitor. -/
def scan (localeLe : String → String → Bool) : Machine Scan ScanEvent where
  step e event := e.step localeLe event

/-- The registry: an entry for each monitor. -/
def scanManager (localeLe : String → String → Bool) :
    Machine (String → Scan) (String × ScanEvent) :=
  (scan localeLe).family

/-! ### The step condition -/

def ScanPhase.isWaiting : ScanPhase → Bool
  | .walking _ (.waiting _) => true
  | _ => false

/-- The walk has not returned. -/
def ScanPhase.walks : ScanPhase → Bool
  | .loading => true
  | .unlocking _ => true
  | .probing _ _ => true
  | .walking _ (.probed _) => false
  | .walking _ _ => true
  | _ => false

/-- The walk comes to `isCancelled` once more, before it lists a directory: it gets as far as a
    root to walk; it is not past the check of this turn, unless it leaves the directory out; and
    when it is done with a directory there is another one, and budget. -/
def ScanPhase.reachesCheck (now : ℕ) : ScanPhase → ScanAnswer → Bool
  | .loading, .monitor (.ok (some m)) => m.isStorage && m.path != ""
  | .loading, .monitor _ => false
  | .unlocking m, .credential (.ok ()) => (validUnc m.path).isSome
  | .unlocking _, .credential (.error _) => false
  | .probing m unc, .capacity (.ok _) =>
    (shareRoots unc.base m.folders m.watchFolders).any (subRe ·.sub)
  | .probing _ _, .capacity (.error _) => false
  | .walking _ (.ready w), .turn => w.leavesOut now
  | .walking _ (.listing w rel depth), .listing l => decide ((w.absorb rel depth l).ReachesCheck now)
  | .walking _ (.walked w), .turn => decide (w.InBudget now ∧ w.MoreRoots)
  | _, _ => true

def Scan.reachesCheck (e : Scan) : ScanEvent → Bool
  | .continues ticket now answer =>
    !e.cancelled || e.runs.all fun r => r.ticket != ticket || r.phase.reachesCheck now answer
  | _ => true

/-- **Step condition.**  A run that has been cancelled comes to `isCancelled` once more. -/
def ReachesCheck (reg : String → Scan) (l : String × ScanEvent) : Prop :=
  (reg l.1).reachesCheck l.2 = true

instance (reg : String → Scan) (l : String × ScanEvent) : Decidable (ReachesCheck reg l) :=
  inferInstanceAs (Decidable (_ = true))

/-! ### One run -/

/-- **Invariant.**  There is one run at most, the one `running` holds, and its waiter is in the
    list exactly while it waits, in a pause. -/
structure Scan.Single (e : Scan) : Prop where
  one : e.runs.map ScanRun.ticket = e.running.toList
  waiters : e.resumeWaiters = (e.runs.filter fun r => r.phase.isWaiting).map ScanRun.ticket
  paused : e.resumeWaiters ≠ [] → e.paused = true

/-- What decides about waiting is the same. -/
structure Scan.Frame (e f : Scan) : Prop where
  runs : f.runs = e.runs
  waiters : f.resumeWaiters = e.resumeWaiters
  running : f.running = e.running
  paused : f.paused = e.paused
  fresh : f.fresh = e.fresh

/-- What a run does between two waits: it comes to the next one, or it ends. -/
inductive Scan.Moves (e : Scan) (ticket : ℕ) : Scan → Prop
  | parks {f : Scan} {phase : ScanPhase} (hframe : e.Frame f) (hphase : phase.isWaiting = false) :
      Moves e ticket (f.park ticket phase)
  | waits {f : Scan} {m : StorageMonitor} {w : Walk} (hframe : e.Frame f) (hpaused : e.paused = true) :
      Moves e ticket (park { f with resumeWaiters := f.resumeWaiters ++ [ticket] } ticket
        (.walking m (.waiting w)))
  | ends {f : Scan} {status : ScanStatus} {error : Option String} (hframe : e.Frame f) :
      Moves e ticket (f.finish ticket status error)

namespace Scan

variable {e e' : Scan} {ticket now : ℕ} {localeLe : String → String → Bool}

theorem Frame.refl (e : Scan) : e.Frame e := ⟨rfl, rfl, rfl, rfl, rfl⟩

theorem Frame.cache {sample : StorageSample} {m : StorageMonitor} :
    e.Frame ((e.cache now sample).apply m sample) := by
  rw [Scan.cache]
  split <;> exact ⟨rfl, rfl, rfl, rfl, rfl⟩

theorem Frame.onProgress {w : Walk} {rel : String} {depth : ℕ} {l : Option DirListing} :
    e.Frame (e.onProgress w rel depth l) := by
  cases l <;> exact ⟨rfl, rfl, rfl, rfl, rfl⟩

theorem Moves.goOn {f : Scan} {m : StorageMonitor} {pause : Option Pause} (hframe : e.Frame f)
    (hwait : ∀ w, pause = some (.waiting w) → e.paused = true) :
    e.Moves ticket (f.goOn ticket m pause) := by
  have hsame : e.Frame f := hframe
  obtain ⟨hruns, hwaiters, hrunning, hpaused, hfresh⟩ := hframe
  cases pause with
  | none => exact .ends hsame
  | some pause =>
    cases pause with
    | waiting w =>
      exact .waits (f := { f with status := .paused }) ⟨hruns, hwaiters, hrunning, hpaused, hfresh⟩
        (hwait w rfl)
    | woken w => exact .parks hsame rfl
    | ready w => exact .parks hsame rfl
    | listing w rel depth =>
      exact .parks (f := { f with
        results := { f.results with listed := f.results.listed ++ [w.full rel] } })
        ⟨hruns, hwaiters, hrunning, hpaused, hfresh⟩ rfl
    | walked w => exact .parks hsame rfl
    | probed sample => exact .parks hsame rfl

theorem Moves.record {m : StorageMonitor} {sample : StorageSample} :
    e.Moves ticket (e.record ticket now m sample) := by
  rw [Scan.record]
  split
  · exact .ends (.refl e)
  · exact .parks ⟨rfl, rfl, rfl, rfl, rfl⟩ rfl

/-- **Inversion.**  A run that goes on was not waiting in a pause. -/
theorem continues_cases {phase : ScanPhase} {answer : ScanAnswer}
    (h : e.continues localeLe ticket now phase answer = some e') :
    phase.isWaiting = false ∧ e.Moves ticket e' := by
  revert h
  -- one case for each line of the code; the last is that of an answer to another question
  fun_cases Scan.continues e localeLe ticket now phase answer <;> intro h <;> cases h <;>
    refine ⟨rfl, ?_⟩
  case case1 | case2 | case3 | case4 | case6 | case16 | case18 | case19 | case21 | case22 =>
    exact .ends (.refl e)
  case case5 | case7 | case8 | case9 => exact .parks (.refl e) rfl
  case case10 => exact .goOn (.refl e) fun _ hwaiting => Walk.roots_waiting hwaiting
  case case11 => exact .parks ⟨rfl, rfl, rfl, rfl, rfl⟩ rfl
  case case12 => exact .goOn (.refl e) fun _ hwaiting => Walk.shift_waiting hwaiting
  case case13 => exact .goOn .onProgress fun _ hwaiting => Walk.head_waiting hwaiting
  case case14 => exact .goOn (.refl e) fun _ hwaiting => Walk.roots_waiting hwaiting
  case case15 => exact .parks .cache rfl
  case case17 => exact .parks ⟨rfl, rfl, rfl, rfl, rfl⟩ rfl
  case case20 => exact .record

/-- The run is the only one. -/
theorem Single.eq_singleton (h : e.Single) {r : ScanRun} (hr : r ∈ e.runs) :
    e.runs = [r] ∧ e.running = some r.ticket := by
  have hmem : r.ticket ∈ e.running.toList := h.one ▸ List.mem_map_of_mem hr
  have hrunning : e.running = some r.ticket := Option.mem_toList.mp hmem
  have hone : e.runs.map ScanRun.ticket = [r.ticket] := by rw [h.one, hrunning]; rfl
  obtain ⟨r', hr', -⟩ := List.map_eq_singleton_iff.mp hone
  rw [hr', List.mem_singleton] at hr
  exact ⟨hr ▸ hr', hrunning⟩

/-- With no run, nothing waits. -/
theorem Single.eq_nil (h : e.Single) (hidle : e.running = none) :
    e.runs = [] ∧ e.resumeWaiters = [] := by
  have hnone : e.runs.map ScanRun.ticket = [] := by rw [h.one, hidle]; rfl
  have hruns : e.runs = [] := List.map_eq_nil_iff.mp hnone
  refine ⟨hruns, ?_⟩
  rw [h.waiters, hruns]
  rfl

theorem Single.moves (h : e.Single) {r : ScanRun} (hr : r ∈ e.runs)
    (hphase : r.phase.isWaiting = false) (hmoves : e.Moves r.ticket e') : e'.Single := by
  obtain ⟨hruns, hrunning⟩ := h.eq_singleton hr
  have hwaiters : e.resumeWaiters = [] := by
    rw [h.waiters, hruns]
    simp [hphase]
  cases hmoves with
  | parks hframe hnext =>
    refine ⟨?_, ?_, ?_⟩
    · simp [park, hframe.runs, hframe.running, hruns, hrunning]
    · simp [park, hframe.runs, hframe.waiters, hruns, hwaiters, hnext]
    · simp [park, hframe.waiters, hwaiters]
  | waits hframe hpaused =>
    refine ⟨?_, ?_, ?_⟩
    · simp [park, hframe.runs, hframe.running, hruns, hrunning]
    · simp [park, hframe.runs, hframe.waiters, hruns, hwaiters, ScanPhase.isWaiting]
    · intro _
      exact hframe.paused.trans hpaused
  | ends hframe =>
    refine ⟨?_, ?_, ?_⟩
    · simp [finish, hframe.runs, hruns]
    · simp [finish, hframe.runs, hframe.waiters, hruns, hwaiters]
    · simp [finish, hframe.waiters, hwaiters]

theorem isWaiting_wake (phase : ScanPhase) : phase.wake.isWaiting = false := by
  unfold ScanPhase.wake
  split
  · rfl
  · rename_i hne
    unfold ScanPhase.isWaiting
    split
    · exact absurd rfl (hne _ _)
    · rfl

theorem wake_of_not_waiting {phase : ScanPhase} (h : phase.isWaiting = false) :
    phase.wake = phase := by
  unfold ScanPhase.wake
  split
  · exact absurd h (by simp [ScanPhase.isWaiting])
  · rfl

theorem walks_wake (phase : ScanPhase) : phase.wake.walks = phase.walks := by
  unfold ScanPhase.wake
  split <;> rfl

/-- All waiters are called, whether or not the pause is over. -/
theorem Single.wakeAll (h : e.Single) : e.wakeAll.Single := by
  refine ⟨?_, ?_, fun hne => absurd rfl hne⟩
  · have hsame : (fun r : ScanRun => ScanRun.ticket
        (if r.ticket ∈ e.resumeWaiters then { r with phase := r.phase.wake } else r)) =
        ScanRun.ticket := by
      funext r
      split <;> rfl
    simp only [Scan.wakeAll, List.map_map, Function.comp_def, hsame]
    exact h.one
  · have hawake : ∀ r ∈ e.wakeAll.runs, r.phase.isWaiting = false := by
      intro r hr
      obtain ⟨r', hr', rfl⟩ := List.mem_map.mp hr
      split
      · exact isWaiting_wake r'.phase
      · -- a run that waits has its waiter in the list
        rename_i hnot
        by_contra hwaits
        apply hnot
        rw [h.waiters]
        exact List.mem_map_of_mem (List.mem_filter.mpr ⟨hr', by simpa using hwaits⟩)
    have hnone : e.wakeAll.runs.filter (fun r => r.phase.isWaiting) = [] := by
      rw [List.filter_eq_nil_iff]
      intro r hr
      simp [hawake r hr]
    rw [hnone]
    rfl

theorem Single.begin (h : e.Single) (hidle : e.running = none) : e.begin.Single := by
  obtain ⟨hruns, hwaiters⟩ := h.eq_nil hidle
  refine ⟨?_, ?_, ?_⟩
  · simp [Scan.begin, hruns]
  · simp [Scan.begin, hruns, hwaiters, ScanPhase.isWaiting]
  · simp [Scan.begin, hwaiters]

/-- **Step lemma.** -/
theorem Single.step {event : ScanEvent} (h : e.Single) (hstep : e.step localeLe event = some e') :
    e'.Single := by
  cases event with
  | runScan =>
    obtain rfl := Option.some.inj hstep
    split
    · exact h
    · rename_i hidle
      exact h.begin (by simpa using hidle)
  | pauseScan =>
    obtain rfl := Option.some.inj hstep
    split
    · exact ⟨h.one, h.waiters, fun _ => rfl⟩
    · exact h
  | resumeScan =>
    obtain rfl := Option.some.inj hstep
    exact ⟨h.wakeAll.one, h.wakeAll.waiters, fun hne => absurd rfl hne⟩
  | cancelScan =>
    obtain rfl := Option.some.inj hstep
    split
    · exact ⟨h.wakeAll.one, h.wakeAll.waiters, fun hne => absurd rfl hne⟩
    · exact h
  | continues ticket now answer =>
    obtain ⟨r, hfind, hgo⟩ := Option.bind_eq_some_iff.mp hstep
    have hticket : r.ticket = ticket := by simpa using List.find?_some hfind
    obtain ⟨hphase, hmoves⟩ := continues_cases hgo
    exact h.moves (List.mem_of_find?_eq_some hfind) hphase (hticket ▸ hmoves)

theorem Single.initial : Single {} := ⟨rfl, rfl, fun hne => absurd rfl hne⟩

end Scan

/-! ### A cancelled run -/

/-- So many steps a cancelled run takes to the check, at most. -/
def ScanPhase.stepsLeft : ScanPhase → ℕ
  | .loading => 3
  | .unlocking _ => 2
  | .probing _ _ => 1
  | .walking _ (.woken _) => 3
  | .walking _ (.ready _) => 2
  | .walking _ (.listing _ _ _) => 2
  | .walking _ (.walked _) => 1
  | _ => 0

theorem ScanPhase.stepsLeft_le (phase : ScanPhase) : phase.stepsLeft ≤ 3 := by
  fun_cases ScanPhase.stepsLeft phase <;> decide

/-- A cancelled run, before its walk has returned, and what it found. -/
structure Scan.Doomed (ticket : ℕ) (phase : ScanPhase) (results : ScanResults) (e : Scan) :
    Prop where
  runs : e.runs = [⟨ticket, phase⟩]
  running : e.running = some ticket
  waiters : e.resumeWaiters = []
  cancelled : e.cancelled = true
  walks : phase.walks = true
  awake : phase.isWaiting = false
  results : e.results = results

/-- The run has ended as cancelled, and has left nothing. -/
structure Scan.EndedCancelled (results : ScanResults) (e : Scan) : Prop where
  runs : e.runs = []
  running : e.running = none
  status : e.status = .cancelled
  results : e.results = results

namespace Scan

variable {e e' : Scan} {ticket now : ℕ} {phase : ScanPhase} {results : ScanResults}
  {localeLe : String → String → Bool}

theorem Doomed.stepsLeft_pos (h : e.Doomed ticket phase results) : 0 < phase.stepsLeft := by
  have hwalks := h.walks
  cases phase with
  | loading => decide
  | unlocking m => exact Nat.succ_pos 1
  | probing m unc => exact Nat.one_pos
  | walking m pause =>
    cases pause with
    | waiting w => exact absurd h.awake (by simp [ScanPhase.isWaiting])
    | woken w => exact Nat.succ_pos 2
    | ready w => exact Nat.succ_pos 1
    | listing w rel depth => exact Nat.succ_pos 1
    | walked w => exact Nat.one_pos
    | probed sample => exact absurd hwalks Bool.false_ne_true
  | applying m sample => exact absurd hwalks Bool.false_ne_true
  | measuring m sample => exact absurd hwalks Bool.false_ne_true
  | recording m sample => exact absurd hwalks Bool.false_ne_true

theorem Doomed.park (h : e.Doomed ticket phase results) {next : ScanPhase}
    (hwalks : next.walks = true) (hawake : next.isWaiting = false) :
    (e.park ticket next).Doomed ticket next results where
  runs := by simp [Scan.park, h.runs]
  running := h.running
  waiters := h.waiters
  cancelled := h.cancelled
  walks := hwalks
  awake := hawake
  results := h.results

theorem Doomed.finish (h : e.Doomed ticket phase results) {error : Option String} :
    (e.finish ticket .cancelled error).EndedCancelled results where
  runs := by simp [Scan.finish, h.runs]
  running := rfl
  status := rfl
  results := h.results

/-- At the head of its loop the run ends, or it goes to its next root. -/
theorem Doomed.head (h : e.Doomed ticket phase results) {m : StorageMonitor} {w : Walk}
    {paused : Bool} (hcheck : w.ReachesCheck now) :
    (∃ next, (e.goOn ticket m (w.head true paused now)).Doomed ticket next results ∧
        next.stepsLeft < 2) ∨
      (e.goOn ticket m (w.head true paused now)).EndedCancelled results := by
  rcases Walk.head_cancelled hcheck with hthrows | hwalked
  · right
    rw [hthrows]
    exact h.finish
  · left
    rw [hwalked]
    exact ⟨.walking m (.walked w), h.park rfl rfl, Nat.lt_succ_self 1⟩

theorem Doomed.withStatus (h : e.Doomed ticket phase results) {status : ScanStatus} :
    Doomed ticket phase results { e with status := status } :=
  ⟨h.runs, h.running, h.waiters, h.cancelled, h.walks, h.awake, h.results⟩

theorem Doomed.onProgress (h : e.Doomed ticket phase results) {w : Walk} {rel : String}
    {depth : ℕ} {l : Option DirListing} :
    (e.onProgress w rel depth l).Doomed ticket phase results := by
  cases l with
  | none => exact h
  | some l =>
    exact ⟨h.runs, h.running, h.waiters, h.cancelled, h.walks, h.awake, h.results⟩

/-- **Step lemma.**  A step of its own brings a cancelled run nearer to its end. -/
theorem Doomed.continues (h : e.Doomed ticket phase results) {answer : ScanAnswer}
    (hcheck : phase.reachesCheck now answer = true)
    (hgo : e.continues localeLe ticket now phase answer = some e') :
    (∃ next, e'.Doomed ticket next results ∧ next.stepsLeft < phase.stepsLeft) ∨
      e'.EndedCancelled results := by
  have hcancelled := h.cancelled
  have hwalks := h.walks
  revert hgo
  fun_cases Scan.continues e localeLe ticket now phase answer <;> intro hgo <;> cases hgo
  -- on its way to the walk
  case case1 | case2 | case6 | case9 => exact absurd hcheck Bool.false_ne_true
  case case3 m hnot => exact absurd hcheck (by simp [ScanPhase.reachesCheck, hnot])
  case case4 m _ hempty => exact absurd hcheck (by simp [ScanPhase.reachesCheck, hempty])
  case case5 m _ _ => exact Or.inl ⟨_, h.park rfl rfl, Nat.lt_succ_self 2⟩
  case case7 m hinvalid => exact absurd hcheck (by simp [ScanPhase.reachesCheck, hinvalid])
  case case8 m unc _ => exact Or.inl ⟨_, h.park rfl rfl, Nat.lt_succ_self 1⟩
  case case10 m unc capacity walk =>
    right
    have hroot : walk.MoreRoots := List.any_eq_true.mp hcheck
    have hcalls : maxLsCalls ≠ 0 := by decide
    have hbudget : walk.InBudget now := ⟨hcalls, Nat.le_add_right now walkBudgetMs⟩
    rw [hcancelled, Walk.roots_cancelled hbudget hroot]
    exact h.finish
  -- in the walk
  case case11 m w =>
    refine Or.inl ⟨.walking m (.ready w), ?_, Nat.lt_succ_self 2⟩
    exact h.withStatus.park rfl rfl
  case case12 m w =>
    obtain ⟨v, hreaches, hshift⟩ := Walk.shift_cancelled e.paused hcheck
    rw [hcancelled, hshift]
    exact h.head hreaches
  case case13 m w rel depth l =>
    have hreaches : (w.absorb rel depth l).ReachesCheck now := of_decide_eq_true hcheck
    rw [hcancelled, Walk.listed]
    exact h.onProgress.head hreaches
  case case14 m w =>
    right
    have hmore : w.InBudget now ∧ w.MoreRoots := of_decide_eq_true hcheck
    rw [hcancelled, Walk.next_cancelled hmore.1 hmore.2]
    exact h.finish
  -- the walk has returned
  case case15 | case16 | case17 | case18 | case19 | case20 | case21 | case22 =>
    exact absurd hwalks Bool.false_ne_true

/-- **Step lemma.**  Nothing that is called keeps a cancelled run from its end. -/
theorem Doomed.step (h : e.Doomed ticket phase results) {event : ScanEvent}
    (hcheck : e.reachesCheck event = true) (hstep : e.step localeLe event = some e') :
    (∃ next, e'.Doomed ticket next results ∧
        event.isContinues.toNat + next.stepsLeft ≤ phase.stepsLeft) ∨
      e'.EndedCancelled results := by
  have hsome : e.running.isSome = true := by rw [h.running]; rfl
  cases event with
  | runScan =>
    rw [Scan.step, if_pos hsome] at hstep
    obtain rfl := Option.some.inj hstep
    exact Or.inl ⟨phase, h, (Nat.zero_add _).le⟩
  | pauseScan =>
    rw [Scan.step, if_pos hsome] at hstep
    obtain rfl := Option.some.inj hstep
    refine Or.inl ⟨phase, ?_, (Nat.zero_add _).le⟩
    exact ⟨h.runs, h.running, h.waiters, h.cancelled, h.walks, h.awake, h.results⟩
  | resumeScan =>
    obtain rfl := Option.some.inj hstep
    refine Or.inl ⟨phase, ?_, (Nat.zero_add _).le⟩
    exact ⟨by simp [Scan.wakeAll, h.waiters, h.runs], h.running, rfl, h.cancelled, h.walks, h.awake,
      h.results⟩
  | cancelScan =>
    rw [Scan.step, if_pos hsome] at hstep
    obtain rfl := Option.some.inj hstep
    refine Or.inl ⟨phase, ?_, (Nat.zero_add _).le⟩
    exact ⟨by simp [Scan.wakeAll, h.waiters, h.runs], h.running, rfl, rfl, h.walks, h.awake,
      h.results⟩
  | continues other now answer =>
    obtain ⟨r, hfind, hgo⟩ := Option.bind_eq_some_iff.mp hstep
    have hother : r.ticket = other := by simpa using List.find?_some hfind
    have hr : r ∈ e.runs := List.mem_of_find?_eq_some hfind
    obtain rfl : r = ⟨ticket, phase⟩ := by rwa [h.runs, List.mem_singleton] at hr
    obtain rfl : ticket = other := hother
    have hphase : phase.reachesCheck now answer = true := by
      simpa [Scan.reachesCheck, h.cancelled, h.runs] using hcheck
    rcases h.continues hphase hgo with ⟨next, hnext, hlt⟩ | hended
    · refine Or.inl ⟨next, hnext, ?_⟩
      show 1 + next.stepsLeft ≤ phase.stepsLeft
      omega
    · exact Or.inr hended

/-- A run is cancelled before its walk has returned; if it waited, it does not any more. -/
theorem Single.cancel (h : e.Single) {r : ScanRun} (hr : r ∈ e.runs)
    (hwalks : r.phase.walks = true) (hstep : e.step localeLe .cancelScan = some e') :
    e'.Doomed r.ticket r.phase.wake e.results := by
  obtain ⟨hruns, hrunning⟩ := h.eq_singleton hr
  rw [Scan.step, if_pos (by rw [hrunning]; rfl)] at hstep
  obtain rfl := Option.some.inj hstep
  refine ⟨?_, hrunning, rfl, rfl, ?_, isWaiting_wake r.phase, rfl⟩
  · have hwaits : r.phase.isWaiting = true → r.ticket ∈ e.resumeWaiters := by
      intro hwaiting
      rw [h.waiters]
      exact List.mem_map_of_mem (List.mem_filter.mpr ⟨hr, hwaiting⟩)
    simp only [Scan.wakeAll, hruns, List.map_cons, List.map_nil]
    by_cases hmem : r.ticket ∈ e.resumeWaiters
    · rw [if_pos hmem]
    · rw [if_neg hmem, wake_of_not_waiting (by simpa using fun hwaiting => hmem (hwaits hwaiting))]
  · rw [walks_wake]
    exact hwalks

theorem EndedCancelled.step (h : e.EndedCancelled results) {event : ScanEvent}
    (hstep : e.step localeLe event = some e') :
    e'.EndedCancelled results ∨ e.fresh < e'.fresh := by
  have hidle : ¬ e.running.isSome = true := by simp [h.running]
  cases event with
  | runScan =>
    rw [Scan.step, if_neg hidle] at hstep
    obtain rfl := Option.some.inj hstep
    exact Or.inr (Nat.lt_succ_self e.fresh)
  | pauseScan =>
    rw [Scan.step, if_neg hidle] at hstep
    obtain rfl := Option.some.inj hstep
    exact Or.inl h
  | resumeScan =>
    obtain rfl := Option.some.inj hstep
    exact Or.inl ⟨by simp [Scan.wakeAll, h.runs], h.running, h.status, h.results⟩
  | cancelScan =>
    rw [Scan.step, if_neg hidle] at hstep
    obtain rfl := Option.some.inj hstep
    exact Or.inl h
  | continues ticket now answer =>
    rw [Scan.step, h.runs] at hstep
    cases hstep

theorem fresh_le {event : ScanEvent} (hstep : e.step localeLe event = some e') :
    e.fresh ≤ e'.fresh := by
  cases event with
  | runScan =>
    obtain rfl := Option.some.inj hstep
    split
    · exact le_rfl
    · exact Nat.le_succ e.fresh
  | pauseScan =>
    obtain rfl := Option.some.inj hstep
    split <;> exact le_rfl
  | resumeScan =>
    obtain rfl := Option.some.inj hstep
    exact le_rfl
  | cancelScan =>
    obtain rfl := Option.some.inj hstep
    split <;> exact le_rfl
  | continues ticket now answer =>
    obtain ⟨r, -, hgo⟩ := Option.bind_eq_some_iff.mp hstep
    obtain ⟨-, hmoves⟩ := continues_cases hgo
    cases hmoves with
    | parks hframe _ => exact hframe.fresh.ge
    | waits hframe _ => exact hframe.fresh.ge
    | ends hframe => exact hframe.fresh.ge

/-- A cancelled run with at most `k` steps to go, or ended; or another one has been begun. -/
def Settles (results : ScanResults) (fresh k : ℕ) (e : Scan) : Prop :=
  (∃ ticket phase, e.Doomed ticket phase results ∧ phase.stepsLeft ≤ k) ∨
    e.EndedCancelled results ∨ fresh < e.fresh

theorem Settles.step {fresh k : ℕ} (h : e.Settles results fresh k) (hfresh : fresh ≤ e.fresh)
    {event : ScanEvent} (hcheck : e.reachesCheck event = true)
    (hstep : e.step localeLe event = some e') :
    e'.Settles results fresh (k - event.isContinues.toNat) := by
  have hle := fresh_le hstep
  rcases h with ⟨ticket, phase, hdoomed, hk⟩ | hended | hlt
  · rcases hdoomed.step hcheck hstep with ⟨next, hnext, hfewer⟩ | hended
    · exact Or.inl ⟨ticket, next, hnext, by omega⟩
    · exact Or.inr (Or.inl hended)
  · rcases hended.step hstep with hstill | hanother
    · exact Or.inr (Or.inl hstill)
    · exact Or.inr (Or.inr (by omega))
  · exact Or.inr (Or.inr (by omega))

end Scan

/-! ### Cancelling is effective -/

section Registry

variable {localeLe : String → String → Bool} {id : String}

/-- The steps that the runs of a monitor have taken. -/
def ownSteps (id : String) (events : List (String × ScanEvent)) : ℕ :=
  events.countP fun l => l.1 == id && l.2.isContinues

/-- **Run lemma.** -/
theorem settles_run {results : ScanResults} {fresh k : ℕ} {events : List (String × ScanEvent)}
    {reg reg' : String → Scan} (h : (reg id).Settles results fresh k)
    (hfresh : fresh ≤ (reg id).fresh)
    (hcheck : (scanManager localeLe).Meets ReachesCheck reg events)
    (hrun : (scanManager localeLe).exec reg events = some reg') :
    (reg' id).Settles results fresh (k - ownSteps id events) := by
  induction events generalizing reg k with
  | nil =>
    obtain rfl : reg = reg' := by simpa using hrun
    exact h
  | cons l events ih =>
    obtain ⟨mid, hmid, hrest⟩ := (scanManager localeLe).exec_cons_eq_some.mp hrun
    obtain ⟨i, event⟩ := l
    obtain ⟨e', he', rfl⟩ := Machine.family_step.mp hmid
    by_cases hi : i = id
    · subst hi
      have hsettles : e'.Settles results fresh (k - event.isContinues.toNat) :=
        h.step hfresh hcheck.1 he'
      have hlater : fresh ≤ e'.fresh := hfresh.trans (Scan.fresh_le he')
      have hend := ih (by rwa [Function.update_self]) (by rwa [Function.update_self])
        (hcheck.2 _ hmid) hrest
      have hcount : ownSteps i ((i, event) :: events) =
          event.isContinues.toNat + ownSteps i events := by
        rw [ownSteps, List.countP_cons, Nat.add_comm]
        cases event.isContinues <;> simp [ownSteps]
      rwa [hcount, ← Nat.sub_sub]
    · -- the entries of the other monitors are none of its business
      have hsame : Function.update reg i e' id = reg id := Function.update_of_ne (Ne.symm hi) _ _
      have hend := ih (by rwa [hsame]) (by rwa [hsame]) (hcheck.2 _ hmid) hrest
      have hcount : ownSteps id ((i, event) :: events) = ownSteps id events := by
        rw [ownSteps, List.countP_cons, if_neg (by simp [hi])]
        rfl
      rwa [hcount]

/-- The scan of a monitor is cancelled in `reg₀`, before its walk has returned, and no other one
    has begun since. -/
structure CancelledAt (localeLe : String → String → Bool) (id : String)
    (before since : List (String × ScanEvent)) (reg₀ reg : String → Scan) : Prop where
  reached : (scanManager localeLe).exec (fun _ => {}) before = some reg₀
  walks : ∃ r ∈ (reg₀ id).runs, r.phase.walks = true
  run : (scanManager localeLe).exec reg₀ ((id, .cancelScan) :: since) = some reg
  same : (reg id).fresh = (reg₀ id).fresh

/-- What was there before the cancel is not touched and no other directory is listed, the scan can
    end only as cancelled, and after three steps of its own it has. -/
structure CancelHolds (id : String) (since : List (String × ScanEvent)) (reg₀ reg : String → Scan) :
    Prop where
  results : (reg id).results = (reg₀ id).results
  status : (reg id).runs = [] → (reg id).status = .cancelled
  ends : 3 ≤ ownSteps id since → (reg id).runs = []

theorem single_of_exec {events : List (String × ScanEvent)} {reg : String → Scan}
    (hrun : (scanManager localeLe).exec (fun _ => {}) events = some reg) (id : String) :
    (reg id).Single :=
  Machine.inv_of_family (I := Scan.Single) (fun _ _ _ h hstep => h.step hstep)
    (fun _ => .initial) hrun id

theorem Scan.Single.length_le {e : Scan} (h : e.Single) : e.runs.length ≤ 1 := by
  have hlength := congrArg List.length h.one
  rw [List.length_map] at hlength
  rw [hlength]
  cases e.running with
  | none => exact Nat.zero_le 1
  | some ticket => exact le_rfl

theorem cancelHolds_of_reachesCheck {before since : List (String × ScanEvent)}
    {reg₀ reg : String → Scan} (h : CancelledAt localeLe id before since reg₀ reg)
    (hcheck : (scanManager localeLe).Meets ReachesCheck reg₀ ((id, .cancelScan) :: since)) :
    CancelHolds id since reg₀ reg := by
  obtain ⟨r, hr, hwalks⟩ := h.walks
  obtain ⟨mid, hmid, hrest⟩ := (scanManager localeLe).exec_cons_eq_some.mp h.run
  have hthen := hcheck.2 mid hmid
  obtain ⟨e, he, rfl⟩ := Machine.family_step.mp hmid
  have hcancel : (reg₀ id).step localeLe .cancelScan = some e := he
  have hdoomed : e.Doomed r.ticket r.phase.wake (reg₀ id).results :=
    (single_of_exec h.reached id).cancel hr hwalks hcancel
  have hsettles : (Function.update reg₀ id e id).Settles (reg₀ id).results (reg₀ id).fresh 3 := by
    rw [Function.update_self]
    exact Or.inl ⟨_, _, hdoomed, r.phase.wake.stepsLeft_le⟩
  have hlater : (reg₀ id).fresh ≤ (Function.update reg₀ id e id).fresh := by
    rw [Function.update_self]
    exact Scan.fresh_le hcancel
  have hsame := h.same
  rcases settles_run hsettles hlater hthen hrest with ⟨ticket, phase, hend, hk⟩ | hend | hlt
  · have hpos := hend.stepsLeft_pos
    refine ⟨hend.results, fun hnone => ?_, fun hsteps => ?_⟩
    · rw [hend.runs] at hnone
      cases hnone
    · omega
  · exact ⟨hend.results, fun _ => hend.status, fun _ => hend.runs⟩
  · omega

end Registry

/-- **Scans.**  Whatever the order of the calls and of the steps of the walks, a monitor has one
    run at most; a waiter is there only in a pause, and that of every run that waits is.  A scan
    that is cancelled before its walk has returned ends as cancelled, without another directory
    and without a trace, in every run in which it comes to `isCancelled` once more. -/
theorem scans_cancelled (localeLe : String → String → Bool) :
    (∀ (events : List (String × ScanEvent)) (reg : String → Scan),
      (scanManager localeLe).exec (fun _ => {}) events = some reg →
      ∀ id, (reg id).runs.length ≤ 1 ∧
        ((reg id).resumeWaiters ≠ [] → (reg id).paused = true) ∧
        ∀ r ∈ (reg id).runs, r.phase.isWaiting = true → r.ticket ∈ (reg id).resumeWaiters) ∧
    ∀ (id : String) (before since : List (String × ScanEvent)) (reg₀ reg : String → Scan),
      CancelledAt localeLe id before since reg₀ reg →
      (scanManager localeLe).Meets ReachesCheck reg₀ ((id, .cancelScan) :: since) →
      CancelHolds id since reg₀ reg := by
  constructor
  · intro events reg hrun id
    have h := single_of_exec hrun id
    refine ⟨h.length_le, h.paused, fun r hr hwaits => ?_⟩
    rw [h.waiters]
    exact List.mem_map_of_mem (List.mem_filter.mpr ⟨hr, hwaits⟩)
  · intro id before since reg₀ reg h hcheck
    exact cancelHolds_of_reachesCheck h hcheck

namespace Sample

def share : StorageMonitor where
  isStorage := true
  agentId := "host"
  name := "NAS"
  path := "\\\\nas\\public"
  folders := true
  watchFolders := []

def ofNas (events : List ScanEvent) : List (String × ScanEvent) := events.map fun e => ("nas", e)

/-- A scan lists the root of the share. -/
def begun : List ScanEvent :=
  [.runScan, .continues 0 1000 (.monitor (.ok (some share))),
    .continues 0 1000 (.credential (.ok ())), .continues 0 1100 (.capacity (.ok none)),
    .continues 0 1100 .turn]

/-- The root has two folders; the first of them is listed. -/
def twoFolders : List ScanEvent :=
  begun ++ [.continues 0 1200 (.listing (some ⟨["a", "b"], 0, 0⟩)), .continues 0 1200 .turn]

/-- The same, and the scan waits in a pause. -/
def inPause : List ScanEvent :=
  begun ++ [.pauseScan, .continues 0 1200 (.listing (some ⟨["a", "b"], 0, 0⟩))]

def textLe (a b : String) : Bool := a ≤ b

/-- The registry after calls and steps of one monitor. -/
def after (events : List ScanEvent) : String → Scan :=
  ((scanManager textLe).exec (fun _ => {}) (ofNas events)).getD fun _ => {}

theorem exec_ofNas {events : List ScanEvent}
    (h : ((scanManager textLe).exec (fun _ => {}) (ofNas events)).isSome = true) :
    (scanManager textLe).exec (fun _ => {}) (ofNas events) = some (after events) := by
  obtain ⟨reg, hreg⟩ := Option.isSome_iff_exists.mp h
  rw [after, hreg]
  rfl

theorem cancelledAt_ofNas (before since : List ScanEvent)
    (hrun : ((scanManager textLe).exec (fun _ => {})
      (ofNas (before ++ .cancelScan :: since))).isSome = true)
    (hwalks : (after before "nas").runs.any (·.phase.walks) = true)
    (hsame : (after (before ++ .cancelScan :: since) "nas").fresh = (after before "nas").fresh) :
    CancelledAt textLe "nas" (ofNas before) (ofNas since) (after before)
      (after (before ++ .cancelScan :: since)) := by
  have hall := exec_ofNas hrun
  have hcut : ofNas (before ++ .cancelScan :: since) =
      ofNas before ++ ("nas", .cancelScan) :: ofNas since := by
    simp [ofNas]
  rw [hcut, Machine.exec_append] at hall
  obtain ⟨reg₀, hreg, hrest⟩ := Option.bind_eq_some_iff.mp hall
  have hbefore := exec_ofNas (Option.isSome_of_eq_some hreg)
  obtain rfl : reg₀ = after before := Option.some.inj (hreg.symm.trans hbefore)
  exact ⟨hbefore, List.any_eq_true.mp hwalks, hrest, hsame⟩

end Sample

open Sample in
/-- The scan is cancelled while the first of two folders is listed. -/
theorem scans_cancelled_twoFolders :
    ∃ since reg₀ reg, CancelledAt textLe "nas" (ofNas twoFolders) since reg₀ reg ∧
      CancelHolds "nas" since reg₀ reg ∧ (reg "nas").status = .cancelled := by
  have h := cancelledAt_ofNas twoFolders [.continues 0 1300 (.listing (some ⟨[], 10, 1⟩))]
    (by decide +kernel) (by decide +kernel) (by decide +kernel)
  exact ⟨_, _, _, h, (scans_cancelled textLe).2 _ _ _ _ _ h (by decide +kernel), by decide +kernel⟩

open Sample in
/-- A cancel is lost when it comes while the last directory is listed: the scan is done, and its
    result is kept.  One that ends a pause lists a further directory. -/
theorem scans_not_cancelled :
    (¬ ∀ id before since reg₀ reg, CancelledAt textLe id before since reg₀ reg →
      (reg id).runs = [] → (reg id).status = .cancelled ∧
        (reg id).results.cachedAt = (reg₀ id).results.cachedAt) ∧
    ¬ ∀ id before since reg₀ reg, CancelledAt textLe id before since reg₀ reg →
      (reg id).results.listed = (reg₀ id).results.listed := by
  constructor
  · intro h
    have hdone := h _ _ _ _ _ (cancelledAt_ofNas begun
      [.continues 0 1200 (.listing (some ⟨[], 10, 1⟩)), .continues 0 1200 .turn,
        .continues 0 1200 .turn, .continues 0 1300 (.written (.ok ())),
        .continues 0 1400 (.written (.ok ()))]
      (by decide +kernel) (by decide +kernel) (by decide +kernel)) (by decide +kernel)
    exact absurd hdone.1 (by decide +kernel)
  · intro h
    have hlisted := h _ _ _ _ _ (cancelledAt_ofNas inPause
      [.continues 0 5000 .turn, .continues 0 5000 .turn]
      (by decide +kernel) (by decide +kernel) (by decide +kernel))
    exact absurd hlisted (by decide +kernel)

end Argus.Schedulers
