import Argus.Lib.Machine
import Mathlib.Data.List.Nodup
import Mathlib.Data.Nat.Basic

namespace Argus.Schedulers

/-!
# The scheduler of server-side checks

Each monitor has an entry with its next due time and an in-flight flag.  A tick of the timer,
after a refresh of the worklist now and then, starts the monitors that are due; the end of a run
clears the flag of the entry it was started with.  A refresh deletes the entries of monitors that
are gone, and an entry that is deleted while its run goes on guards nothing any more.

* `Entry`, `Run`, `Checks` — entries are objects: a run keeps the one it was started with.
* `Checks.visit`, `Checks.loop` — the body of a tick; `Checks.refresh` — its first part.
* `Exclusive`, `Spaced` — no overlap, and the interval between runs of a monitor that stays.
* `KeepsRunning` — the step condition: a refresh keeps the monitors whose run is in flight.
* `checks_exclusive` — in every run that meets it, both hold in every state; a refresh that does
  not meet it can be followed by an overlap.
-/

/-! ### The code -/

/-- A monitor of the worklist, with the schedule `monitorSchedule` reads from its config. -/
structure Check where
  id : String
  intervalSec : ℕ
  retries : ℕ
deriving DecidableEq, Repr

structure Entry where
  nextDue : ℕ
  inflight : Bool
deriving DecidableEq, Repr

/-- Where `run` waits. -/
inductive RunPc
  /-- For the probe; so many retries are left. -/
  | probing (retries : ℕ)
  /-- Between two probes. -/
  | sleeping (retries : ℕ)
  /-- For the pipeline and the sample. -/
  | recording
deriving DecidableEq, Repr

/-- A call of `run`, with the entry of its `finally`. -/
structure Run where
  monitor : Check
  entry : ℕ
  pc : RunPc
deriving DecidableEq, Repr

/-- Two consecutive runs of a monitor that stayed in the worklist. -/
structure Gap where
  ended : ℕ
  intervalSec : ℕ
  started : ℕ
deriving DecidableEq, Repr

/-- The scheduler, on a clock in milliseconds.  Recorded beside it: when the last run of each
    monitor ended, unless the monitor has left the worklist since, and the gaps so far. -/
structure Checks where
  clock : ℕ
  lastRefresh : ℕ
  worklist : List Check
  /-- The map `state`; its values are references to entries. -/
  state : String → Option ℕ
  entries : ℕ → Entry
  /-- The next reference. -/
  fresh : ℕ
  /-- The ticks that wait for their refresh, by the time they have read. -/
  refreshing : List ℕ
  /-- The ticks whose refresh is done. -/
  refreshed : List ℕ
  runs : List Run
  ended : String → Option (ℕ × ℕ)
  gaps : List Gap

def refreshMs : ℕ := 15000

/-- A scheduler that has just been started. -/
def Checks.initial (clock : ℕ) : Checks where
  clock := clock
  lastRefresh := 0
  worklist := []
  state := fun _ => none
  entries := fun _ => ⟨0, false⟩
  fresh := 0
  refreshing := []
  refreshed := []
  runs := []
  ended := fun _ => none
  gaps := []

namespace Checks

variable (w : Checks)

/-- `run(m)` is called, with the entry `ref`. -/
def start (m : Check) (ref : ℕ) : Checks :=
  { w with
    entries := Function.update w.entries ref { w.entries ref with inflight := true }
    runs := { monitor := m, entry := ref, pc := .probing m.retries } :: w.runs
    gaps := match w.ended m.id with
      | some (ended, intervalSec) => ⟨ended, intervalSec, w.clock⟩ :: w.gaps
      | none => w.gaps }

/-- A monitor without an entry gets one that is due. -/
def ensure (now : ℕ) (m : Check) : Checks × ℕ :=
  match w.state m.id with
  | some ref => (w, ref)
  | none =>
    ({ w with
      state := Function.update w.state m.id (some w.fresh)
      entries := Function.update w.entries w.fresh ⟨now, false⟩
      fresh := w.fresh + 1 }, w.fresh)

/-- One monitor in the loop of a tick that has read the time `now`. -/
def visit (now : ℕ) (w : Checks) (m : Check) : Checks :=
  let (w, ref) := w.ensure now m
  if (w.entries ref).inflight = true ∨ now < (w.entries ref).nextDue then w else w.start m ref

/-- The loop of a tick. -/
def loop (now : ℕ) : Checks := w.worklist.foldl (visit now) w

/-- `refresh`: a new worklist, and the entries of the others are deleted. -/
def refresh (worklist : List Check) : Checks :=
  { w with
    worklist := worklist
    state := fun id => if id ∈ worklist.map Check.id then w.state id else none
    ended := fun id => if id ∈ worklist.map Check.id then w.ended id else none }

/-- The end of a run: its `finally`. -/
def finish (r : Run) : Checks :=
  { w with
    runs := w.runs.erase r
    entries := Function.update w.entries r.entry
      ⟨w.clock + r.monitor.intervalSec * 1000, false⟩
    ended := Function.update w.ended r.monitor.id
      (if r.monitor.id ∈ w.worklist.map Check.id
        then some (w.clock, r.monitor.intervalSec) else none) }

/-- A run moves on to `pc`. -/
def move (r : Run) (pc : RunPc) : Checks := { w with runs := { r with pc := pc } :: w.runs.erase r }

end Checks

inductive CheckEvent
  | elapse (ms : ℕ)
  | tick
  /-- The answer of the database to the refresh of a tick. -/
  | refreshed (now : ℕ) (worklist : Option (List Check))
  /-- The loop of a tick after its refresh. -/
  | loops (now : ℕ)
  /-- A probe is answered, or throws. -/
  | probed (r : Run) (up : Option Bool)
  | wakes (r : Run)
  /-- The pipeline and the sample, whether they throw or not. -/
  | recorded (r : Run)
deriving DecidableEq, Repr

/-- One event. -/
def Checks.step (w : Checks) : CheckEvent → Option Checks
  | .elapse ms => some { w with clock := w.clock + ms }
  | .tick =>
    if w.lastRefresh + refreshMs ≤ w.clock then
      some { w with lastRefresh := w.clock, refreshing := w.clock :: w.refreshing }
    else some (w.loop w.clock)
  | .refreshed now worklist =>
    if now ∈ w.refreshing then
      -- a refresh that fails leaves the worklist as it is
      let w := worklist.elim w w.refresh
      some { w with refreshing := w.refreshing.erase now, refreshed := now :: w.refreshed }
    else none
  | .loops now =>
    if now ∈ w.refreshed then
      some (loop { w with refreshed := w.refreshed.erase now } now)
    else none
  | .probed r up =>
    match r.pc, up with
    | .probing n, some false =>
      if r ∈ w.runs then some (w.move r (if n = 0 then .recording else .sleeping (n - 1)))
      else none
    | .probing _, some true => if r ∈ w.runs then some (w.move r .recording) else none
    | .probing _, none => if r ∈ w.runs then some (w.finish r) else none
    | _, _ => none
  | .wakes r =>
    match r.pc with
    | .sleeping n => if r ∈ w.runs then some (w.move r (.probing n)) else none
    | _ => none
  | .recorded r =>
    match r.pc with
    | .recording => if r ∈ w.runs then some (w.finish r) else none
    | _ => none

def checks : Machine Checks CheckEvent where
  step := Checks.step

/-! ### The properties -/

/-- At most one run of each monitor is in flight. -/
def Checks.Exclusive (w : Checks) : Prop := (w.runs.map (fun r => r.monitor.id)).Nodup

/-- Runs of a monitor that stays start the interval after the end of the one before. -/
def Checks.Spaced (w : Checks) : Prop := ∀ g ∈ w.gaps, g.ended + g.intervalSec * 1000 ≤ g.started

/-- **Step condition.**  A refresh keeps every monitor whose run is in flight. -/
def KeepsRunning (w : Checks) : CheckEvent → Prop
  | .refreshed _ (some worklist) => ∀ r ∈ w.runs, r.monitor.id ∈ worklist.map Check.id
  | _ => True

instance (w : Checks) : (event : CheckEvent) → Decidable (KeepsRunning w event)
  | .refreshed _ (some worklist) =>
    inferInstanceAs (Decidable (∀ r ∈ w.runs, r.monitor.id ∈ worklist.map Check.id))
  | .refreshed _ none | .elapse _ | .tick | .loops _ | .probed _ _ | .wakes _ | .recorded _ =>
    isTrue trivial

/-! ### The invariant -/

/-- **Invariant.**  Every run has the entry of its monitor, and its flag is up; different monitors
    have different entries; the entry of a monitor that stays is not due before its interval is
    over; ticks have read their time before. -/
structure Checks.Guarded (w : Checks) : Prop where
  runs : ∀ r ∈ w.runs, w.state r.monitor.id = some r.entry ∧ (w.entries r.entry).inflight = true
  exclusive : w.Exclusive
  inj : ∀ id id' ref, w.state id = some ref → w.state id' = some ref → id = id'
  bound : ∀ id ref, w.state id = some ref → ref < w.fresh
  due : ∀ id ended intervalSec, w.ended id = some (ended, intervalSec) →
    ∃ ref, w.state id = some ref ∧ ended + intervalSec * 1000 ≤ (w.entries ref).nextDue
  spaced : w.Spaced
  past : ∀ now, now ∈ w.refreshing ∨ now ∈ w.refreshed → now ≤ w.clock

namespace Guarded

variable {w : Checks}

theorem initial (clock : ℕ) : (Checks.initial clock).Guarded where
  runs := fun r hr => absurd hr List.not_mem_nil
  exclusive := List.nodup_nil
  inj := fun _ _ _ h => absurd h (by simp [Checks.initial])
  bound := fun _ _ h => absurd h (by simp [Checks.initial])
  due := fun _ _ _ h => absurd h (by simp [Checks.initial])
  spaced := fun g hg => absurd hg List.not_mem_nil
  past := fun now h => absurd h (by simp [Checks.initial])

/-- The run of a monitor is the only one with its entry. -/
theorem entry_ne (h : w.Guarded) {r r' : Run} (hr : r ∈ w.runs) (hr' : r' ∈ w.runs.erase r) :
    r'.monitor.id ≠ r.monitor.id ∧ r'.entry ≠ r.entry := by
  have hperm := (List.perm_cons_erase hr).map (fun r => r.monitor.id)
  have hnodup := hperm.nodup_iff.mp h.exclusive
  rw [List.map_cons, List.nodup_cons] at hnodup
  have hid : r'.monitor.id ≠ r.monitor.id := by
    intro heq
    apply hnodup.1
    rw [← heq]
    exact List.mem_map_of_mem hr'
  refine ⟨hid, fun heq => hid ?_⟩
  have hstate' := (h.runs r' (List.mem_of_mem_erase hr')).1
  rw [heq] at hstate'
  exact h.inj _ _ _ hstate' (h.runs r hr).1

/-- **Step lemma.**  A new entry. -/
theorem ensure (h : w.Guarded) (now : ℕ) (m : Check) :
    (w.ensure now m).1.Guarded ∧ (w.ensure now m).1.state m.id = some (w.ensure now m).2 ∧
      (w.ensure now m).1.clock = w.clock := by
  unfold Checks.ensure
  cases hstate : w.state m.id with
  | some ref => exact ⟨h, hstate, rfl⟩
  | none =>
    refine ⟨?_, Function.update_self .., rfl⟩
    -- no reference in use is the fresh one, and no monitor with an entry is the new one
    have hne : ∀ {id ref}, w.state id = some ref → id ≠ m.id ∧ ref ≠ w.fresh := by
      intro id ref href
      refine ⟨fun heq => ?_, Nat.ne_of_lt (h.bound id ref href)⟩
      rw [heq, hstate] at href
      cases href
    have hkeep : ∀ {id ref}, w.state id = some ref →
        Function.update w.state m.id (some w.fresh) id = some ref ∧
          Function.update w.entries w.fresh ⟨now, false⟩ ref = w.entries ref := by
      intro id ref href
      rw [Function.update_of_ne (hne href).1, Function.update_of_ne (hne href).2]
      exact ⟨href, rfl⟩
    have hback : ∀ {id ref}, Function.update w.state m.id (some w.fresh) id = some ref →
        (id = m.id ∧ ref = w.fresh) ∨ w.state id = some ref := by
      intro id ref href
      by_cases hid : id = m.id
      · rw [hid, Function.update_self] at href
        exact .inl ⟨hid, (Option.some.inj href).symm⟩
      · rw [Function.update_of_ne hid] at href
        exact .inr href
    refine ⟨fun r hr => ?_, h.exclusive, fun id id' ref hid hid' => ?_, fun id ref hid => ?_,
      fun id ended interval hended => ?_, h.spaced, h.past⟩
    · obtain ⟨href, hflag⟩ := h.runs r hr
      obtain ⟨href', hentry⟩ := hkeep href
      refine ⟨href', ?_⟩
      show (Function.update w.entries w.fresh ⟨now, false⟩ r.entry).inflight = true
      rw [hentry]
      exact hflag
    · rcases hback hid with ⟨rfl, rfl⟩ | hold
      · rcases hback hid' with ⟨rfl, -⟩ | hold'
        · rfl
        · exact absurd rfl (hne hold').2
      · rcases hback hid' with ⟨rfl, rfl⟩ | hold'
        · exact absurd rfl (hne hold).2
        · exact h.inj id id' ref hold hold'
    · rcases hback hid with ⟨-, rfl⟩ | hold
      · exact Nat.lt_succ_self _
      · exact Nat.lt_succ_of_lt (h.bound id ref hold)
    · obtain ⟨ref, href, hdue⟩ := h.due id ended interval hended
      obtain ⟨href', hentry⟩ := hkeep href
      refine ⟨ref, href', ?_⟩
      show ended + interval * 1000
        ≤ (Function.update w.entries w.fresh ⟨now, false⟩ ref).nextDue
      rw [hentry]
      exact hdue

/-- **Step lemma.**  A run is started when its entry is free and due. -/
theorem start (h : w.Guarded) {m : Check} {ref : ℕ} (hstate : w.state m.id = some ref)
    (hfree : (w.entries ref).inflight = false) (hdue : (w.entries ref).nextDue ≤ w.clock) :
    (w.start m ref).Guarded := by
  have hentry : ∀ i, (Function.update w.entries ref { w.entries ref with inflight := true } i).nextDue
      = (w.entries i).nextDue := by
    intro i
    by_cases hi : i = ref
    · rw [hi, Function.update_self]
    · rw [Function.update_of_ne hi]
  refine ⟨fun r hr => ?_, ?_, h.inj, h.bound, fun id ended interval hended => ?_, ?_, h.past⟩
  · rcases List.mem_cons.mp hr with rfl | hr
    · refine ⟨hstate, ?_⟩
      show (Function.update w.entries ref { w.entries ref with inflight := true } ref).inflight
        = true
      rw [Function.update_self]
    · obtain ⟨href, hflag⟩ := h.runs r hr
      refine ⟨href, ?_⟩
      show (Function.update w.entries ref { w.entries ref with inflight := true } r.entry).inflight
        = true
      by_cases hsame : r.entry = ref
      · rw [hsame, Function.update_self]
      · rw [Function.update_of_ne hsame]
        exact hflag
  · -- a run of this monitor would have this entry, with its flag up
    show (m.id :: w.runs.map (fun r => r.monitor.id)).Nodup
    rw [List.nodup_cons]
    refine ⟨fun hmem => ?_, h.exclusive⟩
    obtain ⟨r, hr, hid⟩ := List.mem_map.mp hmem
    obtain ⟨href, hflag⟩ := h.runs r hr
    rw [hid, hstate] at href
    rw [← Option.some.inj href, hfree] at hflag
    cases hflag
  · obtain ⟨i, hi, hle⟩ := h.due id ended interval hended
    refine ⟨i, hi, ?_⟩
    show ended + interval * 1000 ≤ (Function.update w.entries ref _ i).nextDue
    rw [hentry]
    exact hle
  · intro g hg
    unfold Checks.start at hg
    cases hended : w.ended m.id with
    | none =>
      simp only [hended] at hg
      exact h.spaced g hg
    | some last =>
      obtain ⟨ended, interval⟩ := last
      simp only [hended] at hg
      rcases List.mem_cons.mp hg with rfl | hg
      · obtain ⟨i, hi, hle⟩ := h.due m.id ended interval hended
        rw [hstate] at hi
        obtain rfl := Option.some.inj hi
        exact le_trans hle hdue
      · exact h.spaced g hg

/-- **Step lemma.**  One monitor in the loop. -/
theorem visit (h : w.Guarded) {now : ℕ} (hnow : now ≤ w.clock) (m : Check) :
    (Checks.visit now w m).Guarded ∧ (Checks.visit now w m).clock = w.clock := by
  obtain ⟨hguarded, hstate, hclock⟩ := ensure h now m
  unfold Checks.visit
  dsimp only
  split
  · exact ⟨hguarded, hclock⟩
  · rename_i hready
    rw [not_or, Bool.not_eq_true, not_lt] at hready
    exact ⟨start hguarded hstate hready.1 (le_trans hready.2 (hclock ▸ hnow)), hclock⟩

/-- The loop of a tick. -/
theorem loop (h : w.Guarded) {now : ℕ} (hnow : now ≤ w.clock) : (w.loop now).Guarded := by
  have hall : ∀ (list : List Check) (w' : Checks), w'.Guarded → now ≤ w'.clock →
      (list.foldl (Checks.visit now) w').Guarded := by
    intro list
    induction list with
    | nil => exact fun _ hw' _ => hw'
    | cons m list ih =>
      intro w' hw' hle
      obtain ⟨hnext, hclock⟩ := visit hw' hle m
      exact ih _ hnext (hclock ▸ hle)
  exact hall w.worklist w h hnow

/-- **Step lemma.**  A refresh that keeps what is running. -/
theorem refresh (h : w.Guarded) {worklist : List Check}
    (hkeep : ∀ r ∈ w.runs, r.monitor.id ∈ worklist.map Check.id) : (w.refresh worklist).Guarded := by
  have hold : ∀ {id ref}, (w.refresh worklist).state id = some ref → w.state id = some ref := by
    intro id ref href
    unfold Checks.refresh at href
    dsimp only at href
    split at href
    · exact href
    · cases href
  refine ⟨fun r hr => ?_, h.exclusive, fun id id' ref hid hid' => ?_, fun id ref hid => ?_,
    fun id ended interval hended => ?_, h.spaced, h.past⟩
  · obtain ⟨href, hflag⟩ := h.runs r hr
    exact ⟨(if_pos (hkeep r hr)).trans href, hflag⟩
  · exact h.inj id id' ref (hold hid) (hold hid')
  · exact h.bound id ref (hold hid)
  · unfold Checks.refresh at hended
    dsimp only at hended
    split at hended
    · rename_i hlive
      obtain ⟨ref, href, hle⟩ := h.due id ended interval hended
      exact ⟨ref, (if_pos hlive).trans href, hle⟩
    · cases hended

/-- **Step lemma.**  A run moves on. -/
theorem move (h : w.Guarded) {r : Run} (hr : r ∈ w.runs) (pc : RunPc) : (w.move r pc).Guarded := by
  refine ⟨fun r' hr' => ?_, ?_, h.inj, h.bound, h.due, h.spaced, h.past⟩
  · rcases List.mem_cons.mp hr' with rfl | hr'
    · exact h.runs r hr
    · exact h.runs r' (List.mem_of_mem_erase hr')
  · have hperm := (List.perm_cons_erase hr).map (fun r => r.monitor.id)
    exact hperm.nodup_iff.mp h.exclusive

/-- **Step lemma.**  A run ends. -/
theorem finish (h : w.Guarded) {r : Run} (hr : r ∈ w.runs) : (w.finish r).Guarded := by
  obtain ⟨hstate, -⟩ := h.runs r hr
  refine ⟨fun r' hr' => ?_, ?_, h.inj, h.bound, fun id ended interval hended => ?_, h.spaced,
    h.past⟩
  · obtain ⟨href, hflag⟩ := h.runs r' (List.mem_of_mem_erase hr')
    refine ⟨href, ?_⟩
    show (Function.update w.entries r.entry _ r'.entry).inflight = true
    rw [Function.update_of_ne (entry_ne h hr hr').2]
    exact hflag
  · have hsub : List.Sublist (w.runs.erase r) w.runs := List.erase_sublist
    exact (hsub.map (fun r : Run => r.monitor.id)).nodup h.exclusive
  · unfold Checks.finish at hended ⊢
    dsimp only at hended ⊢
    by_cases hid : id = r.monitor.id
    · rw [hid, Function.update_self] at hended
      refine ⟨r.entry, hid ▸ hstate, ?_⟩
      rw [Function.update_self]
      split at hended
      · cases hended
        exact le_rfl
      · cases hended
    · rw [Function.update_of_ne hid] at hended
      obtain ⟨ref, href, hle⟩ := h.due id ended interval hended
      have hne : ref ≠ r.entry := fun heq => hid (h.inj id r.monitor.id ref href (heq ▸ hstate))
      refine ⟨ref, href, ?_⟩
      rw [Function.update_of_ne hne]
      exact hle

/-- The clock only goes forward. -/
theorem elapse (h : w.Guarded) (ms : ℕ) : Checks.Guarded { w with clock := w.clock + ms } :=
  ⟨h.runs, h.exclusive, h.inj, h.bound, h.due, h.spaced,
    fun now hnow => le_trans (h.past now hnow) (Nat.le_add_right _ _)⟩

/-- **Step lemma.** -/
theorem step {w' : Checks} {event : CheckEvent} (h : w.Guarded) (hkeep : KeepsRunning w event)
    (hstep : w.step event = some w') : w'.Guarded := by
  cases event with
  | elapse ms =>
    obtain rfl := Option.some.inj hstep
    exact elapse h ms
  | tick =>
    rw [Checks.step] at hstep
    split at hstep
    · obtain rfl := Option.some.inj hstep
      refine ⟨h.runs, h.exclusive, h.inj, h.bound, h.due, h.spaced, fun now hnow => ?_⟩
      rcases hnow with hnow | hnow
      · rcases List.mem_cons.mp hnow with rfl | hnow
        · exact le_rfl
        · exact h.past now (.inl hnow)
      · exact h.past now (.inr hnow)
    · obtain rfl := Option.some.inj hstep
      exact loop h le_rfl
  | refreshed now worklist =>
    rw [Checks.step] at hstep
    split at hstep
    · rename_i hnow
      have hnext : (worklist.elim w w.refresh).Guarded := by
        cases worklist with
        | none => exact h
        | some worklist => exact refresh h hkeep
      obtain rfl := Option.some.inj hstep
      refine ⟨hnext.runs, hnext.exclusive, hnext.inj, hnext.bound, hnext.due, hnext.spaced,
        fun t ht => ?_⟩
      have hclock : (worklist.elim w w.refresh).refreshing = w.refreshing ∧
          (worklist.elim w w.refresh).clock = w.clock := by
        cases worklist <;> exact ⟨rfl, rfl⟩
      rcases ht with ht | ht
      · exact hnext.past t (.inl (List.mem_of_mem_erase ht))
      · rcases List.mem_cons.mp ht with rfl | ht
        · exact hnext.past t (.inl (hclock.1 ▸ hnow))
        · exact hnext.past t (.inr ht)
    · cases hstep
  | loops now =>
    rw [Checks.step] at hstep
    split at hstep
    · rename_i hnow
      obtain rfl := Option.some.inj hstep
      have herased : Checks.Guarded { w with refreshed := w.refreshed.erase now } :=
        ⟨h.runs, h.exclusive, h.inj, h.bound, h.due, h.spaced,
          fun t ht => h.past t (ht.imp_right List.mem_of_mem_erase)⟩
      exact loop herased (h.past now (.inr hnow))
    · cases hstep
  | probed r up =>
    simp only [Checks.step] at hstep
    split at hstep
    · split at hstep
      · obtain rfl := Option.some.inj hstep
        exact move h (by assumption) _
      · cases hstep
    · split at hstep
      · obtain rfl := Option.some.inj hstep
        exact move h (by assumption) _
      · cases hstep
    · split at hstep
      · obtain rfl := Option.some.inj hstep
        exact finish h (by assumption)
      · cases hstep
    · cases hstep
  | wakes r =>
    simp only [Checks.step] at hstep
    split at hstep
    · split at hstep
      · obtain rfl := Option.some.inj hstep
        exact move h (by assumption) _
      · cases hstep
    · cases hstep
  | recorded r =>
    simp only [Checks.step] at hstep
    split at hstep
    · split at hstep
      · obtain rfl := Option.some.inj hstep
        exact finish h (by assumption)
      · cases hstep
    · cases hstep

end Guarded

/-! ### Runs -/

/-- A monitor without an entry is started at once. -/
theorem visit_new {w : Checks} {m : Check} (h : w.state m.id = none) (now : ℕ) :
    (Checks.visit now w m).runs
      = { monitor := m, entry := w.fresh, pc := .probing m.retries } :: w.runs := by
  simp only [Checks.visit, Checks.ensure, h, Function.update_self, Bool.false_eq_true, lt_irrefl,
    or_self, if_false]
  rfl

/-- A run without an entry is not seen by the loop. -/
theorem loop_overlap {w : Checks} {m : Check} {r : Run} (hw : w.worklist = [m])
    (hnone : w.state m.id = none) (hr : r ∈ w.runs) (hid : r.monitor.id = m.id) (now : ℕ) :
    ¬ (w.loop now).Exclusive := by
  intro h
  unfold Checks.Exclusive Checks.loop at h
  rw [hw, List.foldl_cons, List.foldl_nil, visit_new hnone, List.map_cons, List.nodup_cons] at h
  apply h.1
  rw [← hid]
  exact List.mem_map_of_mem hr

/-- A refresh that drops a monitor whose run is in flight: once the monitor is back, the next
    tick starts it again. -/
theorem overlap_of_drop {w : Checks} {now ms : ℕ} {worklist : List Check} {r : Run}
    (hnow : now ∈ w.refreshing) (hr : r ∈ w.runs) (hgone : r.monitor.id ∉ worklist.map Check.id)
    (hdue : w.lastRefresh + refreshMs ≤ w.clock + ms) :
    ∃ w', checks.exec w [.refreshed now (some worklist), .elapse ms, .tick,
        .refreshed (w.clock + ms) (some [r.monitor]), .loops (w.clock + ms)] = some w' ∧
      ¬ w'.Exclusive := by
  -- the entry is gone, so the monitor gets a new one that guards nothing
  have hnone : (if r.monitor.id ∈ [r.monitor].map Check.id then
      (if r.monitor.id ∈ worklist.map Check.id then w.state r.monitor.id else none) else none)
        = none := by
    rw [if_neg hgone, ite_self]
  refine ⟨_, checks.exec_cons_eq_some.mpr ⟨_, if_pos hnow, checks.exec_cons_eq_some.mpr ⟨_, rfl,
    checks.exec_cons_eq_some.mpr ⟨_, if_pos hdue, checks.exec_cons_eq_some.mpr
      ⟨_, if_pos List.mem_cons_self, checks.exec_cons_eq_some.mpr
        ⟨_, if_pos List.mem_cons_self, rfl⟩⟩⟩⟩⟩, ?_⟩
  refine loop_overlap (m := r.monitor) (r := r) rfl ?_ ?_ rfl _
  · exact hnone
  · exact hr

/-- **Checks.**  In every run whose refreshes keep the monitors with a run in flight, no two runs
    of a monitor overlap, and a monitor that stays is started again no sooner than its interval
    after its last run.  A refresh that drops a monitor with a run in flight can be followed by
    an overlap: the monitor has only to come back before that run ends. -/
theorem checks_exclusive {clock : ℕ} {events : List CheckEvent} {w : Checks}
    (hkeep : checks.Meets KeepsRunning (.initial clock) events)
    (hrun : checks.exec (.initial clock) events = some w) :
    (w.Exclusive ∧ w.Spaced) ∧
      ∀ now ∈ w.refreshing, ∀ worklist, ∀ r ∈ w.runs, r.monitor.id ∉ worklist.map Check.id →
        ∃ events' w', checks.exec w (.refreshed now (some worklist) :: events') = some w' ∧
          ¬ w'.Exclusive := by
  have hinv : w.Guarded :=
    Machine.inv_of_exec (I := Checks.Guarded) (fun _ _ _ h hG hstep => Guarded.step h hG hstep)
      (Guarded.initial clock) hkeep hrun
  refine ⟨⟨hinv.exclusive, hinv.spaced⟩, fun now hnow worklist r hr hgone => ?_⟩
  obtain ⟨w', hexec, hover⟩ := overlap_of_drop hnow hr hgone
    (show w.lastRefresh + refreshMs ≤ w.clock + (w.lastRefresh + refreshMs) from
      Nat.le_add_left _ _)
  exact ⟨_, w', hexec, hover⟩

namespace Sample

def web : Check := ⟨"web", 30, 1⟩

def webRun (pc : RunPc) : Run := ⟨web, 0, pc⟩

/-- A probe that fails and is retried while the timer ticks, and the next run after its
    interval. -/
def twoRuns : List CheckEvent :=
  [.tick, .refreshed 20000 (some [web]), .loops 20000, .elapse 1000, .tick,
    .probed (webRun (.probing 1)) (some false), .wakes (webRun (.sleeping 0)),
    .probed (webRun (.probing 0)) (some true), .recorded (webRun .recording), .elapse 10000,
    .tick, .elapse 20000, .tick, .refreshed 51000 none, .loops 51000]

/-- The monitor is disabled while its run sleeps between retries, and enabled again. -/
def disabled : List CheckEvent :=
  [.tick, .refreshed 20000 (some [web]), .loops 20000, .elapse 15000, .tick,
    .refreshed 35000 (some []), .loops 35000, .elapse 15000, .tick,
    .refreshed 50000 (some [web]), .loops 50000]

end Sample

open Sample in
theorem checks_exclusive_twoRuns :
    checks.Meets KeepsRunning (.initial 20000) twoRuns ∧
      ∃ w, checks.exec (.initial 20000) twoRuns = some w ∧ (w.Exclusive ∧ w.Spaced) ∧
        w.gaps = [⟨21000, 30, 51000⟩] := by
  have hkeep : checks.Meets KeepsRunning (.initial 20000) twoRuns := by decide +kernel
  have hgaps : (checks.exec (.initial 20000) twoRuns).map Checks.gaps
      = some [⟨21000, 30, 51000⟩] := by decide +kernel
  cases hrun : checks.exec (.initial 20000) twoRuns with
  | none =>
    rw [hrun] at hgaps
    cases hgaps
  | some w =>
    rw [hrun] at hgaps
    exact ⟨hkeep, w, rfl, (checks_exclusive hkeep hrun).1, Option.some.inj hgaps⟩

open Sample in
/-- Two runs of the monitor are in flight at once. -/
theorem checks_overlap :
    ¬ ∀ (clock : ℕ) (events : List CheckEvent) (w : Checks),
      checks.exec (.initial clock) events = some w → w.Exclusive ∧ w.Spaced := by
  intro h
  have hnodup := (h 20000 disabled _ rfl).1
  unfold Checks.Exclusive at hnodup
  exact absurd hnodup (by decide)

end Argus.Schedulers
