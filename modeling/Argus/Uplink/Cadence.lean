import Argus.Lib.Machine
import Mathlib.Algebra.Order.Group.Unbundled.Int

namespace Argus.Uplink

/-!
# The push cadence of an agent

The ticker of the push loop is reset from two goroutines: the control channel hands over
`config` commands, and the loop pulls the configuration every few ticks.  `ivBaseSec` has the
configured interval, `ivDebug` the fast cadence while debugging; `logbuf` has a debug flag of its
own.

* `Cadence` — the variables behind `ivMu`, and the period of the ticker; `reapplyCadence` — the
  only place that resets it.
* `Agent` — the cadence, the debug flag of the log, and what the agent was told last.
* `Received.cadence` — the period that follows from what it was told.
* `Told` — the step condition: the ticker is bound before anything was received that asks for
  another period, and a pull repeats the debug flag.
* `cadence_follows` — in every run that meets it, the ticker has that period.
-/

/-! ### The code -/

/-- The variables of the live cadence control.  `ticker` is the period of the bound ticker, in
    seconds, and `none` before `bindTicker`. -/
structure Cadence where
  ticker : Option ℤ := none
  curSec : ℤ := 0
  baseSec : ℤ := 0
  debug : Bool := false
deriving DecidableEq, Repr

def debugCadenceSec : ℤ := 3

namespace Cadence

/-- The period `reapplyCadenceLocked` wants. -/
def want (c : Cadence) : ℤ :=
  if c.debug = true ∧ debugCadenceSec < c.baseSec then debugCadenceSec else c.baseSec

/-- `reapplyCadenceLocked`. -/
def reapplyCadence (c : Cadence) : Cadence :=
  match c.ticker with
  | none => c
  | some _ =>
    if c.want = c.curSec then c else { c with curSec := c.want, ticker := some c.want }

/-- `bindTicker`, for a ticker of `sec` seconds. -/
def bindTicker (c : Cadence) (sec : ℤ) : Cadence :=
  { c with ticker := some sec, curSec := sec, baseSec := sec }

/-- The bounds of `applyInterval`. -/
def clamp (sec : ℤ) : ℤ :=
  let sec := if sec < 5 then 5 else sec
  if 3600 < sec then 3600 else sec

def applyInterval (c : Cadence) (sec : ℤ) : Cadence :=
  reapplyCadence { c with baseSec := clamp sec }

def setDebugCadence (c : Cadence) (on : Bool) : Cadence :=
  reapplyCadence { c with debug := on }

end Cadence

/-- What the agent was told: the interval of its own configuration, the last interval and the
    last debug flag it received. -/
structure Received where
  start : ℤ := 0
  interval : Option ℤ := none
  debug : Bool := false
deriving DecidableEq, Repr

structure Agent where
  cadence : Cadence := {}
  /-- `logbuf.SetDebug`. -/
  logDebug : Bool := false
  received : Received := {}
deriving DecidableEq, Repr

/-- What happens to the cadence.  A pull that fails brings nothing. -/
inductive CadenceEvent
  | startup (sec : ℤ)
  | config (intervalSec : Option ℤ) (debug : Option Bool)
  | pull (answer : Option (ℤ × Bool))
deriving DecidableEq, Repr

namespace Agent

variable (w : Agent)

/-- The first part of `OnConfig`. -/
def onInterval : Option ℤ → Agent
  | none => w
  | some sec =>
    { w with
      cadence := w.cadence.applyInterval sec
      received := { w.received with interval := some sec } }

/-- The second part of `OnConfig`. -/
def onDebug : Option Bool → Agent
  | none => w
  | some on =>
    { w with
      cadence := w.cadence.setDebugCadence on
      logDebug := on
      received := { w.received with debug := on } }

/-- `refreshConfig`: an interval of zero is unspecified, and the debug flag goes to the log
    alone. -/
def refreshConfig : Option (ℤ × Bool) → Agent
  | none => w
  | some (pushIntervalSec, debug) =>
    let w := w.onInterval (if 0 < pushIntervalSec then some pushIntervalSec else none)
    { w with logDebug := debug, received := { w.received with debug := debug } }

/-- One event; the ticker is bound once. -/
def step : CadenceEvent → Option Agent
  | .startup sec =>
    if w.cadence.ticker = none then
      some { w with
        cadence := w.cadence.bindTicker sec
        received := { w.received with start := sec } }
    else none
  | .config intervalSec debug => some ((w.onInterval intervalSec).onDebug debug)
  | .pull answer => some (w.refreshConfig answer)

end Agent

def cadenceMachine : Machine Agent CadenceEvent where
  step := Agent.step

/-! ### What the configuration asks for -/

namespace Received

/-- The last interval that was received, clamped, or the one of the start. -/
def base (r : Received) : ℤ := r.interval.elim r.start Cadence.clamp

/-- The period that was asked for. -/
def cadence (r : Received) : ℤ := if r.debug then min r.base debugCadenceSec else r.base

end Received

/-- The ticker has the period that was asked for. -/
def Agent.Follows (w : Agent) : Prop :=
  ∀ sec, w.cadence.ticker = some sec → sec = w.received.cadence

/-- **Step condition.**  What was received before the ticker is bound asks for the period of the
    start, and a pull repeats the debug flag that was received last. -/
def Told (w : Agent) : CadenceEvent → Prop
  | .startup sec => (∀ i, w.received.interval = some i → Cadence.clamp i = sec) ∧
      (w.received.debug = true → sec ≤ debugCadenceSec)
  | .config _ _ => True
  | .pull answer => ∀ pushIntervalSec debug, answer = some (pushIntervalSec, debug) →
      debug = w.received.debug

/-! ### The invariant -/

/-- **Invariant.**  The override is the flag that was received last, and a bound ticker has the
    base and the period that were asked for. -/
structure Agent.InStep (w : Agent) : Prop where
  debug : w.cadence.debug = w.received.debug
  base : ∀ sec, w.cadence.ticker = some sec → w.cadence.baseSec = w.received.base
  period : ∀ sec, w.cadence.ticker = some sec → sec = w.cadence.curSec ∧ sec = w.received.cadence

/-- What `reapplyCadence` wants is what was asked for, once base and flag are. -/
theorem want_eq {c : Cadence} {r : Received} (hdebug : c.debug = r.debug)
    (hbase : c.baseSec = r.base) : c.want = r.cadence := by
  unfold Cadence.want Received.cadence
  rw [hdebug, hbase]
  cases r.debug with
  | false => simp
  | true =>
    show (if true = true ∧ debugCadenceSec < r.base then debugCadenceSec else r.base)
      = min r.base debugCadenceSec
    by_cases hlt : debugCadenceSec < r.base
    · rw [if_pos ⟨rfl, hlt⟩, min_eq_right hlt.le]
    · rw [if_neg (fun h => hlt h.2), min_eq_left (not_lt.mp hlt)]

/-- **Step lemma.**  `reapplyCadence` puts the ticker right. -/
theorem inStep_reapply {w : Agent} {c : Cadence} {r : Received} (hdebug : c.debug = r.debug)
    (hbase : ∀ sec, c.ticker = some sec → c.baseSec = r.base)
    (hcur : ∀ sec, c.ticker = some sec → sec = c.curSec) :
    Agent.InStep { w with cadence := c.reapplyCadence, received := r } := by
  unfold Cadence.reapplyCadence
  cases hticker : c.ticker with
  | none =>
    refine ⟨hdebug, fun sec h => ?_, fun sec h => ?_⟩
    · exact absurd (hticker.symm.trans h) (by simp)
    · exact absurd (hticker.symm.trans h) (by simp)
  | some old =>
    have hwant := want_eq hdebug (hbase old hticker)
    dsimp only
    split
    · -- the ticker has the wanted period already
      rename_i hsame
      refine ⟨hdebug, hbase, fun sec h => ⟨hcur sec h, ?_⟩⟩
      rw [hcur sec h, ← hsame, hwant]
    · refine ⟨hdebug, fun _ _ => hbase old hticker, fun sec h => ?_⟩
      obtain rfl : c.want = sec := Option.some.inj h
      exact ⟨rfl, hwant⟩

theorem InStep.onInterval {w : Agent} (h : w.InStep) (interval : Option ℤ) :
    (w.onInterval interval).InStep := by
  cases interval with
  | none => exact h
  | some sec =>
    exact inStep_reapply h.debug (fun _ _ => rfl) (fun old hold => (h.period old hold).1)

theorem InStep.onDebug {w : Agent} (h : w.InStep) (debug : Option Bool) :
    (w.onDebug debug).InStep := by
  cases debug with
  | none => exact h
  | some on =>
    exact inStep_reapply (w := { w with logDebug := on }) (c := { w.cadence with debug := on })
      (r := { w.received with debug := on }) rfl h.base (fun old hold => (h.period old hold).1)

theorem onInterval_debug (w : Agent) (interval : Option ℤ) :
    (w.onInterval interval).received.debug = w.received.debug := by
  cases interval <;> rfl

/-- **Step lemma.** -/
theorem InStep.step {w w' : Agent} {event : CadenceEvent} (h : w.InStep) (htold : Told w event)
    (hstep : w.step event = some w') : w'.InStep := by
  cases event with
  | startup sec =>
    rw [Agent.step] at hstep
    split at hstep
    · obtain rfl := Option.some.inj hstep
      -- the base is overwritten by the start, so nothing else may have been received
      have hbase : ({ w.received with start := sec } : Received).base = sec := by
        unfold Received.base
        cases hinterval : w.received.interval with
        | none => rfl
        | some i => exact htold.1 i hinterval
      refine ⟨h.debug, fun _ _ => hbase.symm, fun p hp => ?_⟩
      obtain rfl : sec = p := Option.some.inj hp
      refine ⟨rfl, ?_⟩
      unfold Received.cadence
      rw [hbase]
      split
      · rename_i hdebug
        exact (min_eq_left (htold.2 hdebug)).symm
      · rfl
    · cases hstep
  | config interval debug =>
    obtain rfl := Option.some.inj hstep
    exact InStep.onDebug (InStep.onInterval h interval) debug
  | pull answer =>
    obtain rfl := Option.some.inj hstep
    rcases answer with _ | ⟨pushIntervalSec, debug⟩
    · exact h
    · have hsame : debug = w.received.debug := htold pushIntervalSec debug rfl
      have hnext := InStep.onInterval h (if 0 < pushIntervalSec then some pushIntervalSec else none)
      have hdebug := onInterval_debug w (if 0 < pushIntervalSec then some pushIntervalSec else none)
      show Agent.InStep { w.onInterval _ with
        logDebug := debug, received := { (w.onInterval _).received with debug := debug } }
      rw [hsame, ← hdebug]
      exact ⟨hnext.debug, hnext.base, hnext.period⟩

/-! ### Runs -/

theorem InStep.initial : Agent.InStep {} where
  debug := rfl
  base := fun _ h => absurd h (by simp)
  period := fun _ h => absurd h (by simp)

/-- **Cadence.**  In every run whose events meet the condition, the ticker has the period that
    follows from what was received, after every event from the start on. -/
theorem cadence_follows {events : List CadenceEvent} {w : Agent}
    (htold : cadenceMachine.Meets Told {} events)
    (hrun : cadenceMachine.exec {} events = some w) : w.Follows := by
  have hinv : w.InStep :=
    Machine.inv_of_exec (I := Agent.InStep) (fun _ _ _ h hG hstep => InStep.step h hG hstep)
      InStep.initial htold hrun
  intro sec hsec
  exact (hinv.period sec hsec).2

namespace Sample

/-- The start, debugging on and off again over the control channel, a pull with a new interval. -/
def session : List CadenceEvent :=
  [.startup 30, .config none (some true), .pull (some (30, true)), .config none (some false),
    .pull (some (60, false))]

end Sample

open Sample in
theorem cadence_follows_session :
    cadenceMachine.Meets Told {} session ∧
      ∃ w, cadenceMachine.exec {} session = some w ∧ w.Follows ∧ w.cadence.ticker = some 60 := by
  have htold : cadenceMachine.Meets Told {} session := by
    have hstartup : Told {} (.startup 30) :=
      ⟨fun i hi => absurd hi (by simp), fun hdebug => absurd hdebug (by simp)⟩
    refine .cons hstartup rfl (.cons trivial rfl (.cons ?_ rfl (.cons trivial rfl
      (.cons ?_ rfl trivial))))
    · intro sec debug hanswer
      cases hanswer
      rfl
    · intro sec debug hanswer
      cases hanswer
      rfl
  exact ⟨htold, _, rfl, cadence_follows htold rfl, rfl⟩

/-- A pull that turns debugging on leaves the ticker at the configured interval. -/
theorem cadence_ignores_pull :
    ¬ ∀ (events : List CadenceEvent) (w : Agent), cadenceMachine.exec {} events = some w →
      w.Follows := by
  intro h
  have hfollows := h [.startup 30, .pull (some (30, true))] _ rfl 30 rfl
  exact absurd hfollows (by decide)

end Argus.Uplink
