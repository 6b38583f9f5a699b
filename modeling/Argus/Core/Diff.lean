import Argus.Lib.Replay
import Mathlib.Data.Int.Notation

namespace Argus.Core

/-!
# Event derivation

The pure diff of `packages/core/src/diff.ts`: the previous state of each unit, as a map, is
compared with the samples of one push, and every difference becomes an event.

* `diffStates` — `STATUS_CHANGE` and `SERVICE_RESTART` events, in the order of the samples.
* `changesOf` — the status changes of one entity among the events.
* `changesOf_diffStates` — they are the changes of the entity's samples against the one
  previous status the map holds for it.
-/

open ChangeLog (diffLog diffLog_cons_eq diffLog_cons_ne)

/-- `HealthStatus`, from `packages/shared/src/common.ts`. -/
inductive HealthStatus
  | up | degraded | hang | down | unknown
deriving DecidableEq, Repr

/-- The text of a status. -/
def HealthStatus.text : HealthStatus → String
  | .up => "UP"
  | .degraded => "DEGRADED"
  | .hang => "HANG"
  | .down => "DOWN"
  | .unknown => "UNKNOWN"

/-- One sample of a monitored unit. -/
structure UnitSample where
  entity : String
  status : HealthStatus
  pid : Option ℤ
deriving DecidableEq, Repr

/-- A durable event: the result of comparing two successive samples. -/
inductive DerivedEvent
  | statusChange (entity : String) (oldStatus : Option HealthStatus) (newStatus : HealthStatus)
  | serviceRestart (entity : String) (oldPid : Option ℤ) (newPid : ℤ)
deriving DecidableEq, Repr

/-- A new entity, or one whose status changed. -/
def statusEvent (old : Option UnitSample) (sample : UnitSample) : List DerivedEvent :=
  match old with
  | none => [.statusChange sample.entity none sample.status]
  | some o =>
    if o.status ≠ sample.status then
      [.statusChange sample.entity (some o.status) sample.status]
    else []

/-- A restart needs a real (positive) pid on both sides, and two different ones. -/
def restartEvent (old : Option UnitSample) (sample : UnitSample) : List DerivedEvent :=
  match old.bind (fun o => o.pid), sample.pid with
  | some oldPid, some newPid =>
    if oldPid > 0 ∧ newPid > 0 ∧ oldPid ≠ newPid then
      [.serviceRestart sample.entity (some oldPid) newPid]
    else []
  | _, _ => []

/-- `diffStates`: the events of the samples, each one compared with the previous state of its
    entity. -/
def diffStates (prev : String → Option UnitSample) (current : List UnitSample) :
    List DerivedEvent :=
  -- `prev` is not updated in the loop: two samples of an entity see the same old state
  current.flatMap (fun sample =>
    statusEvent (prev sample.entity) sample ++ restartEvent (prev sample.entity) sample)

/-! ### The status changes of one entity -/

/-- The status change of `e` that an event is, if it is one. -/
def DerivedEvent.changeOf (e : String) : DerivedEvent → Option (Option HealthStatus × HealthStatus)
  | .statusChange entity oldStatus newStatus =>
    if entity = e then some (oldStatus, newStatus) else none
  | .serviceRestart _ _ _ => none

/-- The status changes of `e`, in order. -/
def changesOf (e : String) (events : List DerivedEvent) :
    List (Option HealthStatus × HealthStatus) :=
  events.filterMap (DerivedEvent.changeOf e)

/-- The statuses a batch of samples reports for `e`, in order. -/
def reported (e : String) (current : List UnitSample) : List HealthStatus :=
  (current.filter (fun s => decide (s.entity = e))).map UnitSample.status

theorem reported_cons_self {e : String} {s : UnitSample} (hs : s.entity = e)
    (current : List UnitSample) : reported e (s :: current) = s.status :: reported e current := by
  simp [reported, hs]

theorem reported_cons_of_ne {e : String} {s : UnitSample} (hs : s.entity ≠ e)
    (current : List UnitSample) : reported e (s :: current) = reported e current := by
  simp [reported, hs]

theorem changesOf_append (e : String) (a b : List DerivedEvent) :
    changesOf e (a ++ b) = changesOf e a ++ changesOf e b := List.filterMap_append

/-- A restart is no status change. -/
theorem changesOf_restartEvent (e : String) (old : Option UnitSample) (s : UnitSample) :
    changesOf e (restartEvent old s) = [] := by
  unfold restartEvent
  split
  · split <;> rfl
  · rfl

/-- The events of a sample of another entity say nothing of `e`. -/
theorem changesOf_statusEvent_of_ne {e : String} {s : UnitSample} (hs : s.entity ≠ e)
    (old : Option UnitSample) : changesOf e (statusEvent old s) = [] := by
  unfold statusEvent
  split
  · simp [changesOf, DerivedEvent.changeOf, hs]
  · split <;> simp [changesOf, DerivedEvent.changeOf, hs]

/-- A sample of `e` gives its change against the previous status, if there is one. -/
theorem changesOf_statusEvent_self {e : String} {s : UnitSample} (hs : s.entity = e)
    (old : Option UnitSample) :
    changesOf e (statusEvent old s) = diffLog (old.map UnitSample.status) [s.status] := by
  cases old with
  | none => simp [statusEvent, changesOf, DerivedEvent.changeOf, hs, diffLog]
  | some o =>
    by_cases hst : o.status = s.status
    · simp [statusEvent, changesOf, diffLog, hst]
    · simp [statusEvent, changesOf, DerivedEvent.changeOf, hs, diffLog, hst]

/-- **Diff lemma.** The status changes of `e` that a batch gives are those of its reported
    statuses against the one previous status of `e`. -/
theorem changesOf_diffStates (e : String) (prev : String → Option UnitSample)
    (current : List UnitSample) :
    changesOf e (diffStates prev current)
      = diffLog ((prev e).map UnitSample.status) (reported e current) := by
  induction current with
  | nil => rfl
  | cons s current ih =>
    have hcons : diffStates prev (s :: current)
        = (statusEvent (prev s.entity) s ++ restartEvent (prev s.entity) s)
          ++ diffStates prev current := rfl
    rw [hcons, changesOf_append, changesOf_append, changesOf_restartEvent, List.append_nil, ih]
    by_cases hs : s.entity = e
    · rw [changesOf_statusEvent_self hs, reported_cons_self hs, hs]
      -- one value against the snapshot, then the rest against the same snapshot
      by_cases hp : (prev e).map UnitSample.status = some s.status
      · rw [diffLog_cons_eq hp, diffLog_cons_eq hp]
        rfl
      · rw [diffLog_cons_ne hp, diffLog_cons_ne hp]
        rfl
    · rw [changesOf_statusEvent_of_ne hs, reported_cons_of_ne hs]
      rfl

end Argus.Core
