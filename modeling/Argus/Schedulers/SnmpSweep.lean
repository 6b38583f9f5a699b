import Argus.Lib.Machine
import Mathlib.Data.List.Nodup

namespace Argus.Schedulers

/-!
# SNMP sweeps

A timer starts a sweep unless one is running; the sweep lists the enabled monitors and waits for
`Promise.all` over their probes.  `Promise.all` rejects with the first probe that throws, and
does not wait for the others: the flag `running` goes down while they are still polling.

* `Sweeps` — the flag, the probes that the sweep waits for, and those it left behind.
* `sweeps` — timer ticks, answers of the database, and ends of probes, in any order.
* `Sweeps.Exclusive` — no monitor is polled by two probes at once.
* `LastToThrow` — the step condition: a probe that throws is the last one of its sweep.
* `probes_exclusive` — in every run that meets it no two probes of a monitor overlap; a step that
  does not meet it can be followed by an overlap.
-/

/-- The scheduler.  A monitor id stands in `probes` and `leftBehind` once for every call of
    `probe` that has not ended. -/
structure Sweeps where
  running : Bool := false
  /-- The sweep waits for `listEnabledSnmpMonitors`. -/
  listing : Bool := false
  probes : List String := []
  leftBehind : List String := []
deriving DecidableEq, Repr

inductive SweepEvent
  | tick
  /-- The answer of the database: the ids of the enabled monitors, or an exception. -/
  | listed (monitors : Option (List String))
  | probeEnds (id : String) (throws : Bool)
  /-- The end of a probe that nobody waits for. -/
  | straggles (id : String)
deriving DecidableEq, Repr

namespace Sweeps

variable (w : Sweeps)

/-- The probes of a sweep that is left with `rest`; after the last one the sweep is over. -/
def waitFor (rest : List String) : Sweeps :=
  { w with probes := rest, running := !rest.isEmpty }

/-- One event; the ids of monitors are unique. -/
def step : SweepEvent → Option Sweeps
  | .tick => if w.running then some w else some { w with running := true, listing := true }
  | .listed none => if w.listing then some { w with running := false, listing := false } else none
  | .listed (some ids) =>
    if w.listing = true ∧ ids.Nodup then some (waitFor { w with listing := false } ids) else none
  | .probeEnds id throws =>
    if id ∈ w.probes then
      -- the first probe that throws ends the sweep for all of them
      if throws then
        some { w with
          running := false
          probes := []
          leftBehind := w.leftBehind ++ w.probes.erase id }
      else some (w.waitFor (w.probes.erase id))
    else none
  | .straggles id =>
    if id ∈ w.leftBehind then some { w with leftBehind := w.leftBehind.erase id } else none

/-- At most one probe of each monitor is in flight. -/
def Exclusive : Prop := ∀ id, (w.probes ++ w.leftBehind).count id ≤ 1

end Sweeps

def sweeps : Machine Sweeps SweepEvent where
  step := Sweeps.step

/-- **Step condition.**  A probe that throws is the last one its sweep waits for. -/
def LastToThrow (w : Sweeps) : SweepEvent → Prop
  | .probeEnds id true => w.probes.erase id = []
  | _ => True

/-! ### The invariant -/

/-- **Invariant.**  Nothing is left behind, and the probes of a sweep are of different monitors;
    they are there only while the flag is up and the list is in. -/
structure Sweeps.Orderly (w : Sweeps) : Prop where
  leftBehind : w.leftBehind = []
  nodup : w.probes.Nodup
  idle : w.running = false → w.probes = []
  listing : w.listing = true → w.probes = []

theorem Orderly.exclusive {w : Sweeps} (h : w.Orderly) : w.Exclusive := by
  intro id
  rw [h.leftBehind, List.append_nil]
  exact List.nodup_iff_count_le_one.mp h.nodup id

theorem Orderly.waitFor {w : Sweeps} {rest : List String} (hleft : w.leftBehind = [])
    (hnodup : rest.Nodup) (hlisting : w.listing = false) : (w.waitFor rest).Orderly where
  leftBehind := hleft
  nodup := hnodup
  idle := fun h => by simpa [Sweeps.waitFor] using h
  listing := fun h => absurd (hlisting.symm.trans h) (by simp)

/-- **Step lemma.** -/
theorem Orderly.step {w w' : Sweeps} {event : SweepEvent} (h : w.Orderly)
    (hlast : LastToThrow w event) (hstep : w.step event = some w') : w'.Orderly := by
  cases event with
  | tick =>
    rw [Sweeps.step] at hstep
    split at hstep
    · obtain rfl := Option.some.inj hstep
      exact h
    · rename_i hidle
      obtain rfl := Option.some.inj hstep
      have hnone : w.probes = [] := h.idle (Bool.not_eq_true _ ▸ hidle)
      exact ⟨h.leftBehind, h.nodup, fun _ => hnone, fun _ => hnone⟩
  | listed monitors =>
    cases monitors with
    | none =>
      rw [Sweeps.step] at hstep
      split at hstep
      · rename_i hlisting
        obtain rfl := Option.some.inj hstep
        exact ⟨h.leftBehind, h.nodup, fun _ => h.listing hlisting, fun hf => absurd hf (by simp)⟩
      · cases hstep
    | some ids =>
      rw [Sweeps.step] at hstep
      split at hstep
      · rename_i hguard
        obtain rfl := Option.some.inj hstep
        exact Orderly.waitFor h.leftBehind hguard.2 rfl
      · cases hstep
  | probeEnds id throws =>
    rw [Sweeps.step] at hstep
    split at hstep
    · rename_i hid
      have hlisting : w.listing = false := by
        by_contra hne
        rw [h.listing (by simpa using hne)] at hid
        exact absurd hid List.not_mem_nil
      cases throws with
      | true =>
        obtain rfl := Option.some.inj hstep
        -- nobody else was waited for, so nobody is left behind
        refine ⟨?_, List.nodup_nil, fun _ => rfl, fun _ => rfl⟩
        show w.leftBehind ++ w.probes.erase id = []
        rw [h.leftBehind, hlast]
        rfl
      | false =>
        obtain rfl := Option.some.inj hstep
        exact Orderly.waitFor h.leftBehind (h.nodup.erase id) hlisting
    · cases hstep
  | straggles id =>
    rw [Sweeps.step, h.leftBehind] at hstep
    exact absurd hstep (by simp)

theorem Orderly.initial : Sweeps.Orderly {} :=
  ⟨rfl, List.nodup_nil, fun _ => rfl, fun _ => rfl⟩

/-- A probe that throws leaves another one behind; the next sweep polls that monitor again. -/
theorem overlap_of_throw {w : Sweeps} {id other : String} (hid : id ∈ w.probes)
    (hother : other ∈ w.probes.erase id) :
    ∃ w', sweeps.exec w [.probeEnds id true, .tick, .listed (some [other])] = some w' ∧
      ¬ w'.Exclusive := by
  refine ⟨{ running := true, listing := false, probes := [other],
            leftBehind := w.leftBehind ++ w.probes.erase id }, ?_, fun h => ?_⟩
  · simp [Machine.exec_cons, sweeps, Sweeps.step, hid, Sweeps.waitFor]
  · have htwo : ([other] ++ (w.leftBehind ++ w.probes.erase id)).count other ≤ 1 := h other
    have hpos := List.count_pos_iff.mpr (List.mem_append_right w.leftBehind hother)
    rw [List.singleton_append, List.count_cons_self] at htwo
    omega

/-- **Probes.**  In every run in which a probe throws only as the last one of its sweep, no
    monitor is ever polled by two probes at once.  Where one throws while others are in flight,
    each of these can be overlapped: the next tick of the timer is enough. -/
theorem probes_exclusive {events : List SweepEvent} {w : Sweeps}
    (hlast : sweeps.Meets LastToThrow {} events) (hrun : sweeps.exec {} events = some w) :
    w.Exclusive ∧ ∀ id ∈ w.probes, ∀ other ∈ w.probes.erase id,
      ∃ w', sweeps.exec w [.probeEnds id true, .tick, .listed (some [other])] = some w' ∧
        ¬ w'.Exclusive := by
  have hinv : w.Orderly :=
    Machine.inv_of_exec (I := Sweeps.Orderly) (fun _ _ _ h hG hstep => Orderly.step h hG hstep)
      Orderly.initial hlast hrun
  exact ⟨Orderly.exclusive hinv, fun id hid other hother => overlap_of_throw hid hother⟩

namespace Sample

/-- Two monitors; the slow one throws when the other is done, and the timer ticks meanwhile. -/
def patient : List SweepEvent :=
  [.tick, .listed (some ["nas", "ups"]), .tick, .probeEnds "ups" false, .tick,
    .probeEnds "nas" true, .tick, .listed (some ["nas"])]

end Sample

open Sample in
theorem probes_exclusive_patient :
    sweeps.Meets LastToThrow {} patient ∧
      ∃ w, sweeps.exec {} patient = some w ∧ w.Exclusive ∧ w.probes = ["nas"] := by
  have hlast : sweeps.Meets LastToThrow {} patient :=
    .cons trivial rfl (.cons trivial rfl (.cons trivial rfl (.cons trivial rfl
      (.cons trivial rfl (.cons rfl rfl (.cons trivial rfl (.cons trivial rfl trivial)))))))
  exact ⟨hlast, _, rfl, (probes_exclusive hlast rfl).1, rfl⟩

/-- The probe of `ups` throws while that of `nas` waits for its device: the next sweep polls `nas`
    a second time. -/
theorem probes_overlap :
    ¬ ∀ (events : List SweepEvent) (w : Sweeps), sweeps.exec {} events = some w → w.Exclusive := by
  intro h
  have htwice := h [.tick, .listed (some ["nas", "ups"]), .probeEnds "ups" true, .tick,
    .listed (some ["nas", "ups"])] _ rfl "nas"
  exact absurd htwice (by decide)

end Argus.Schedulers
