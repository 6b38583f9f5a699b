import Argus.Core.Diff
import Argus.Lib.JsValue
import Argus.Lib.Machine
import Mathlib.Data.List.Infix

namespace Argus.Schedulers

open Argus.Core (HealthStatus)

/-!
# SNMP polls

Four maps keep what the scheduler knows of a monitor between its polls: the failed polls in a
row, the time of the last heavy walk and its readings, and the end of the cooldown after it.  A
sweep drops what belongs to monitors that are not enabled any more.

* `SnmpSample`, `snmpCollect` — a light poll brings no tables and no disks.
* `SnmpState` — the maps; beside them the polls that are waiting for their device, what was
  handed to the pipeline and to `snmp_metrics`, and the polls of each monitor since it was last
  absent from a sweep.
* `SnmpState.begins`, `SnmpState.answered` — the two parts of `probe`.
* `Reflects` — the invariant: the maps say what the polls since then say.
* `snmp_polls` — over every run, a poll is recorded, shown and stored as its history asks for.
-/

/-! ### Samples -/

structure SnmpItem where
  label : String
  value : String
deriving DecidableEq

structure SnmpTable where
  headers : List String
  rows : List (List String)
deriving DecidableEq

structure SnmpDisk where
  name : String
  status : Option String := none
  tempC : Option Double := none
  model : Option String := none
  smart : Option String := none
deriving DecidableEq

/-- What a poll reads from a device. -/
structure SnmpSample where
  reachable : Bool
  error : Option String := none
  cpuPercent : Option Double := none
  memUsedPct : Option Double := none
  items : List SnmpItem := []
  tables : Option (List SnmpTable) := none
  disks : Option (List SnmpDisk) := none
deriving DecidableEq

/-- `snmpCollect`, given all that the device answers: without `includeTables` the tables and the
    disks are not walked. -/
def snmpCollect (includeTables : Bool) (answer : SnmpSample) : SnmpSample :=
  if includeTables then answer else { answer with tables := none, disks := none }

/-! ### Metrics -/

/-- `/temp|°c|usage|percent|%/i.test(h)`. -/
def chartWorthy (h : String) : Bool :=
  let cs := h.toList.map Char.toLower
  ["temp", "°c", "usage", "percent", "%"].any (fun p => decide (p.toList <:+: cs))

/-- `if (Number.isFinite(parseFloat(text))) metrics[key] = …`. -/
def putNumber (metrics : Fields Double) (key text : String) : Fields Double :=
  (JsNumber.parseFinite text).elim metrics (fun x => Fields.set metrics key x)

/-- The numeric cells of a column. -/
def putColumn (rows : List (List String)) (metrics : Fields Double) (column : String × ℕ) :
    Fields Double :=
  if chartWorthy column.1 then
    rows.foldl (fun metrics row =>
      let name := row.head?.getD ""
      putNumber metrics ((if name = "" then "?" else name) ++ " " ++ column.1)
        (row[column.2]?.getD "")) metrics
  else metrics

/-- The numbers of a sample for the history charts. -/
def metricsOf (snmp : SnmpSample) : Fields Double :=
  let metrics := snmp.cpuPercent.elim [] (fun x => Fields.set [] "cpu" x)
  let metrics := snmp.memUsedPct.elim metrics (fun x => Fields.set metrics "mem" x)
  let metrics := snmp.items.foldl (fun m item => putNumber m item.label item.value) metrics
  (snmp.tables.getD []).foldl (fun m tbl => tbl.headers.zipIdx.foldl (putColumn tbl.rows) m) metrics

/-! ### The scheduler -/

/-- The constants of the module. -/
structure SnmpSettings where
  failThreshold : ℕ
  tablesIntervalMs : ℕ
  heavyCooldownMs : ℕ
  threshold_pos : 1 ≤ failThreshold

/-- Readings that are carried forward. -/
structure Heavy where
  tables : Option (List SnmpTable)
  disks : Option (List SnmpDisk)
deriving DecidableEq

/-- A poll that was answered. -/
structure Poll where
  heavy : Bool
  sample : SnmpSample
deriving DecidableEq

def Poll.failed (p : Poll) : Bool := !p.sample.reachable

/-- What a probe hands on. -/
inductive SnmpOutput
  /-- `processUnits`, and the patch with the same sample. -/
  | processed (id : String) (status : HealthStatus) (display : SnmpSample)
  /-- A row of `snmp_metrics`. -/
  | metrics (id : String) (row : Fields Double)
deriving DecidableEq

structure SnmpState where
  failures : String → Option ℕ
  lastHeavyAt : String → Option ℕ
  cooldownUntil : String → Option ℕ
  heavyCache : String → Option Heavy
  /-- The poll of a monitor that waits for its device, and whether it is a heavy one. -/
  polling : String → Option Bool
  out : List SnmpOutput
  /-- The polls since the monitor was last absent, the last one first. -/
  since : String → List Poll

def SnmpState.initial : SnmpState where
  failures := fun _ => none
  lastHeavyAt := fun _ => none
  cooldownUntil := fun _ => none
  heavyCache := fun _ => none
  polling := fun _ => none
  out := []
  since := fun _ => []

namespace SnmpState

variable (cfg : SnmpSettings) (w : SnmpState)

/-- The first part of a sweep: what belongs to absent monitors is dropped. -/
def sweep (live : List String) : SnmpState :=
  { w with
    failures := fun id => if id ∈ live then w.failures id else none
    lastHeavyAt := fun id => if id ∈ live then w.lastHeavyAt id else none
    cooldownUntil := fun id => if id ∈ live then w.cooldownUntil id else none
    heavyCache := fun id => if id ∈ live then w.heavyCache id else none
    since := fun id => if id ∈ live then w.since id else [] }

/-- A heavy walk is due. -/
def heavyDue (id : String) (now : ℕ) : Bool :=
  decide ((w.lastHeavyAt id).getD 0 + cfg.tablesIntervalMs ≤ now)

/-- `probe` up to the poll, for the two times it reads; during the cooldown a light poll is
    skipped. -/
def begins (id : String) (now later : ℕ) : SnmpState :=
  if w.heavyDue cfg id now = false ∧ later < (w.cooldownUntil id).getD 0 then w
  else { w with polling := Function.update w.polling id (some (w.heavyDue cfg id now)) }

/-- The sample that is shown: a light poll carries the last heavy readings forward. -/
def display (id : String) (heavy : Bool) (snmp : SnmpSample) : SnmpSample :=
  match w.heavyCache id with
  | some cached =>
    if snmp.reachable && !heavy then
      { snmp with
        tables := cached.tables.or snmp.tables
        disks := cached.disks.or snmp.disks }
    else snmp
  | none => snmp

/-- The maps after a poll, and its place in the history. -/
def remember (id : String) (heavy : Bool) (snmp : SnmpSample) (now later : ℕ) : SnmpState :=
  let w := { w with
    polling := Function.update w.polling id none
    failures := Function.update w.failures id
      (if snmp.reachable then none else some ((w.failures id).getD 0 + 1))
    since := Function.update w.since id (⟨heavy, snmp⟩ :: w.since id) }
  if snmp.reachable && heavy then
    { w with
      lastHeavyAt := Function.update w.lastHeavyAt id (some now)
      heavyCache := Function.update w.heavyCache id (some ⟨snmp.tables, snmp.disks⟩)
      cooldownUntil := Function.update w.cooldownUntil id (some (later + cfg.heavyCooldownMs)) }
  else w

/-- What a poll hands on; `stored` tells whether the pipeline and the insert succeed. -/
def handsOn (id : String) (heavy : Bool) (snmp : SnmpSample) (stored : Bool) : List SnmpOutput :=
  if snmp.reachable then
    .processed id .up (w.display id heavy snmp) ::
      (if stored && !(metricsOf snmp).isEmpty then [.metrics id (metricsOf snmp)] else [])
  else if (w.failures id).getD 0 < cfg.failThreshold then []
  else [.processed id .down (w.display id heavy snmp)]

/-- `probe` from the answer of the device on. -/
def answered (id : String) (heavy : Bool) (answer : SnmpSample) (now later : ℕ) (stored : Bool) :
    SnmpState :=
  let snmp := snmpCollect heavy answer
  let w := w.remember cfg id heavy snmp now later
  { w with out := w.out ++ w.handsOn cfg id heavy snmp stored }

end SnmpState

inductive SnmpEvent
  | sweep (live : List String)
  | begins (id : String) (now later : ℕ)
  | answered (id : String) (answer : SnmpSample) (now later : ℕ) (stored : Bool)

/-- One event; the probes of a monitor do not overlap. -/
def SnmpState.step (cfg : SnmpSettings) (w : SnmpState) : SnmpEvent → Option SnmpState
  | .sweep live => some (w.sweep live)
  | .begins id now later => if w.polling id = none then some (w.begins cfg id now later) else none
  | .answered id answer now later stored =>
    (w.polling id).map (fun heavy => w.answered cfg id heavy answer now later stored)

def snmp (cfg : SnmpSettings) : Machine SnmpState SnmpEvent where
  step := SnmpState.step cfg

/-! ### What the history asks for -/

/-- The last successful heavy walk. -/
def lastHeavy (past : List Poll) : Option Poll :=
  past.find? (fun p => p.heavy && p.sample.reachable)

/-- The last polls, as many as the threshold, have failed. -/
def AllFailed (cfg : SnmpSettings) (polls : List Poll) : Prop :=
  cfg.failThreshold ≤ polls.length ∧ ∀ p ∈ polls.take cfg.failThreshold, p.failed = true

/-- What the poll `p` of a monitor may hand on, after the polls `past`. -/
structure HandsOn (cfg : SnmpSettings) (id : String) (p : Poll) (past : List Poll)
    (new : List SnmpOutput) : Prop where
  down : (∃ display, .processed id .down display ∈ new) ↔ AllFailed cfg (p :: past)
  up : (∃ display, .processed id .up display ∈ new) ↔ p.sample.reachable = true
  nothing : ¬ AllFailed cfg (p :: past) → p.sample.reachable = false → new = []
  display : p.heavy = false → ∀ display, .processed id .up display ∈ new →
    display.tables = (lastHeavy past).bind (fun h => h.sample.tables) ∧
      display.disks = (lastHeavy past).bind (fun h => h.sample.disks)
  metrics : ∀ other row, .metrics other row ∈ new → other = id ∧ row = metricsOf p.sample

/-! ### The invariant -/

/-- **Invariant.**  The counter of a monitor counts its last failed polls, and the cache has the
    readings of its last heavy walk. -/
structure Reflects (w : SnmpState) : Prop where
  failures : ∀ id, (w.failures id).getD 0 = ((w.since id).takeWhile Poll.failed).length
  heavyCache : ∀ id, w.heavyCache id
    = (lastHeavy (w.since id)).map (fun p => ⟨p.sample.tables, p.sample.disks⟩)

theorem Reflects.initial : Reflects .initial := ⟨fun _ => rfl, fun _ => rfl⟩

/-- **Step lemma.**  A sweep starts the history of absent monitors anew. -/
theorem Reflects.sweep {w : SnmpState} (h : Reflects w) (live : List String) :
    Reflects (w.sweep live) := by
  refine ⟨fun id => ?_, fun id => ?_⟩
  · show (if id ∈ live then w.failures id else none).getD 0
      = ((if id ∈ live then w.since id else []).takeWhile Poll.failed).length
    by_cases hid : id ∈ live
    · rw [if_pos hid, if_pos hid]
      exact h.failures id
    · rw [if_neg hid, if_neg hid]
      rfl
  · show (if id ∈ live then w.heavyCache id else none)
      = (lastHeavy (if id ∈ live then w.since id else [])).map _
    by_cases hid : id ∈ live
    · rw [if_pos hid, if_pos hid]
      exact h.heavyCache id
    · rw [if_neg hid, if_neg hid]
      rfl

theorem Reflects.begins {w : SnmpState} (h : Reflects w) (cfg : SnmpSettings) (id : String)
    (now later : ℕ) : Reflects (w.begins cfg id now later) := by
  unfold SnmpState.begins
  split
  · exact h
  · exact ⟨h.failures, h.heavyCache⟩

section Remember

variable {w : SnmpState} (cfg : SnmpSettings) (id : String) (heavy : Bool) (snmp : SnmpSample)
  (now later : ℕ)

theorem remember_since (w : SnmpState) :
    (w.remember cfg id heavy snmp now later).since
      = Function.update w.since id (⟨heavy, snmp⟩ :: w.since id) := by
  unfold SnmpState.remember
  dsimp only
  split <;> rfl

theorem remember_failures (w : SnmpState) :
    (w.remember cfg id heavy snmp now later).failures
      = Function.update w.failures id
        (if snmp.reachable then none else some ((w.failures id).getD 0 + 1)) := by
  unfold SnmpState.remember
  dsimp only
  split <;> rfl

theorem remember_heavyCache (w : SnmpState) :
    (w.remember cfg id heavy snmp now later).heavyCache
      = if snmp.reachable && heavy
        then Function.update w.heavyCache id (some ⟨snmp.tables, snmp.disks⟩)
        else w.heavyCache := by
  unfold SnmpState.remember
  dsimp only
  split <;> rfl

/-- **Step lemma.**  A poll moves the maps with its history. -/
theorem Reflects.remember (h : Reflects w) :
    Reflects (w.remember cfg id heavy snmp now later) := by
  refine ⟨fun i => ?_, fun i => ?_⟩
  · rw [remember_failures, remember_since]
    by_cases hi : i = id
    · rw [hi, Function.update_self, Function.update_self]
      cases hup : snmp.reachable with
      | true => simp [Poll.failed, hup]
      | false => simp [Poll.failed, hup, h.failures id]
    · rw [Function.update_of_ne hi, Function.update_of_ne hi]
      exact h.failures i
  · rw [remember_heavyCache, remember_since]
    by_cases hi : i = id
    · rw [hi, Function.update_self, lastHeavy, List.find?_cons, Bool.and_comm heavy]
      cases hwalk : snmp.reachable && heavy with
      | true => simp
      | false => simpa [lastHeavy] using h.heavyCache id
    · rw [Function.update_of_ne hi]
      split
      · rw [Function.update_of_ne hi]
        exact h.heavyCache i
      · exact h.heavyCache i

end Remember

/-- **Step lemma.** -/
theorem Reflects.step {cfg : SnmpSettings} {w w' : SnmpState} {event : SnmpEvent}
    (h : Reflects w) (hstep : w.step cfg event = some w') : Reflects w' := by
  cases event with
  | sweep live =>
    obtain rfl := Option.some.inj hstep
    exact h.sweep live
  | begins id now later =>
    rw [SnmpState.step] at hstep
    split at hstep
    · obtain rfl := Option.some.inj hstep
      exact h.begins cfg id now later
    · cases hstep
  | answered id answer now later stored =>
    obtain ⟨heavy, -, rfl⟩ := Option.map_eq_some_iff.mp hstep
    have hnext := h.remember cfg id heavy (snmpCollect heavy answer) now later
    exact ⟨hnext.failures, hnext.heavyCache⟩

/-! ### What a poll hands on -/

/-- A long enough run of failures at the front. -/
theorem le_takeWhile_iff {α : Type} (p : α → Bool) (n : ℕ) (l : List α) :
    n ≤ (l.takeWhile p).length ↔ n ≤ l.length ∧ ∀ a ∈ l.take n, p a = true := by
  induction l generalizing n with
  | nil => simp
  | cons a l ih =>
    cases n with
    | zero => simp
    | succ n =>
      rw [List.take_succ_cons, List.forall_mem_cons, List.length_cons, Nat.add_le_add_iff_right]
      cases hp : p a with
      | true =>
        rw [List.takeWhile_cons_of_pos hp, List.length_cons, Nat.add_le_add_iff_right, ih]
        simp
      | false =>
        rw [List.takeWhile_cons_of_neg (by simp [hp])]
        simp

theorem allFailed_iff (cfg : SnmpSettings) (polls : List Poll) :
    AllFailed cfg polls ↔ cfg.failThreshold ≤ (polls.takeWhile Poll.failed).length :=
  (le_takeWhile_iff Poll.failed cfg.failThreshold polls).symm

/-- A successful poll ends every run of failures. -/
theorem not_allFailed (cfg : SnmpSettings) {p : Poll} (past : List Poll)
    (h : p.sample.reachable = true) : ¬ AllFailed cfg (p :: past) := by
  rw [allFailed_iff, List.takeWhile_cons_of_neg (by simp [Poll.failed, h])]
  have hpos := cfg.threshold_pos
  exact Nat.not_le.mpr hpos

/-- The readings of the last heavy walk, where a light poll shows them. -/
theorem display_light {w : SnmpState} (h : Reflects w) (id : String) {answer : SnmpSample}
    (hup : answer.reachable = true) :
    (w.display id false (snmpCollect false answer)).tables
        = (lastHeavy (w.since id)).bind (fun p => p.sample.tables) ∧
      (w.display id false (snmpCollect false answer)).disks
        = (lastHeavy (w.since id)).bind (fun p => p.sample.disks) := by
  unfold SnmpState.display
  rw [h.heavyCache id]
  cases lastHeavy (w.since id) with
  | none => exact ⟨rfl, rfl⟩
  | some walk =>
    have hlight : ((snmpCollect false answer).reachable && !false) = true := by
      simpa [snmpCollect] using hup
    rw [Option.map_some]
    dsimp only
    rw [if_pos hlight]
    -- the light sample has none of its own
    exact ⟨Option.or_none, Option.or_none⟩

theorem display_congr {w w' : SnmpState} (h : w'.heavyCache = w.heavyCache) (id : String)
    (heavy : Bool) (snmp : SnmpSample) : w'.display id heavy snmp = w.display id heavy snmp := by
  unfold SnmpState.display
  rw [h]

/-- **Poll lemma.**  A poll hands on what its history asks for. -/
theorem handsOn_answered {cfg : SnmpSettings} {w : SnmpState} (h : Reflects w) (id : String)
    (heavy : Bool) (answer : SnmpSample) (now later : ℕ) (stored : Bool) :
    HandsOn cfg id ⟨heavy, snmpCollect heavy answer⟩ (w.since id)
      ((w.remember cfg id heavy (snmpCollect heavy answer) now later).handsOn cfg id heavy
        (snmpCollect heavy answer) stored) := by
  have hnext := h.remember cfg id heavy (snmpCollect heavy answer) now later
  have hcount := hnext.failures id
  rw [remember_since, Function.update_self] at hcount
  unfold SnmpState.handsOn
  cases hup : (snmpCollect heavy answer).reachable with
  | true =>
    have hnot := not_allFailed cfg (p := ⟨heavy, snmpCollect heavy answer⟩) (w.since id) hup
    rw [if_pos rfl]
    refine ⟨iff_of_false ?_ hnot, iff_of_true ⟨_, List.mem_cons_self⟩ hup, fun _ hdown => ?_,
      fun hlight display hmem => ?_, fun other row hmem => ?_⟩
    · rintro ⟨display, hmem⟩
      rcases List.mem_cons.mp hmem with heq | hmem
      · cases heq
      · split at hmem
        · cases List.mem_singleton.mp hmem
        · exact absurd hmem List.not_mem_nil
    · exact absurd (hup.symm.trans hdown) (by simp)
    · obtain rfl : heavy = false := hlight
      have hsame : (w.remember cfg id false (snmpCollect false answer) now later).heavyCache
          = w.heavyCache := by
        rw [remember_heavyCache, Bool.and_false]
        rfl
      rcases List.mem_cons.mp hmem with heq | hmem
      · rw [(SnmpOutput.processed.inj heq).2.2, display_congr hsame]
        exact display_light h id (by simpa [snmpCollect] using hup)
      · split at hmem
        · cases List.mem_singleton.mp hmem
        · exact absurd hmem List.not_mem_nil
    · rcases List.mem_cons.mp hmem with heq | hmem
      · cases heq
      · split at hmem
        · cases List.mem_singleton.mp hmem
          exact ⟨rfl, rfl⟩
        · exact absurd hmem List.not_mem_nil
  | false =>
    rw [if_neg (by simp), hcount]
    by_cases hrun : AllFailed cfg (⟨heavy, snmpCollect heavy answer⟩ :: w.since id)
    · have hle := (allFailed_iff cfg _).mp hrun
      rw [if_neg (Nat.not_lt.mpr hle)]
      refine ⟨iff_of_true ⟨_, List.mem_cons_self⟩ hrun, iff_of_false ?_ (by simp [hup]),
        fun hnot => absurd hrun hnot, fun _ display hmem => ?_, fun other row hmem => ?_⟩
      · rintro ⟨display, hmem⟩
        cases List.mem_singleton.mp hmem
      · cases List.mem_singleton.mp hmem
      · cases List.mem_singleton.mp hmem
    · have hlt := Nat.not_le.mp (fun hle => hrun ((allFailed_iff cfg _).mpr hle))
      rw [if_pos hlt]
      exact ⟨iff_of_false (by simp) hrun, iff_of_false (by simp) (by simp [hup]), fun _ _ => rfl,
        fun _ _ hmem => absurd hmem List.not_mem_nil, fun _ _ hmem => absurd hmem List.not_mem_nil⟩

theorem remember_out (cfg : SnmpSettings) (w : SnmpState) (id : String) (heavy : Bool)
    (snmp : SnmpSample) (now later : ℕ) : (w.remember cfg id heavy snmp now later).out = w.out := by
  unfold SnmpState.remember
  dsimp only
  split <;> rfl

/-- **Polls.**  In every run, whatever the sweeps, the devices and the clock do: a heavy walk that
    is due is begun, and every poll that is answered hands on what its history since the last
    absence of the monitor asks for. -/
theorem snmp_polls (cfg : SnmpSettings) {events : List SnmpEvent} {w : SnmpState}
    (hrun : (snmp cfg).exec .initial events = some w) (id : String) :
    (∀ now later w', (snmp cfg).step w (.begins id now later) = some w' →
      w.heavyDue cfg id now = true → w'.polling id = some true) ∧
    ∀ heavy answer now later stored w', w.polling id = some heavy →
      (snmp cfg).step w (.answered id answer now later stored) = some w' →
      ∃ new, w'.out = w.out ++ new ∧
        HandsOn cfg id ⟨heavy, snmpCollect heavy answer⟩ (w.since id) new := by
  have hinv : Reflects w :=
    Machine.inv_of_exec (I := Reflects) (fun _ _ _ h _ hstep => h.step hstep) .initial
      (Machine.Meets.always _ _) hrun
  refine ⟨fun now later w' hstep hdue => ?_, fun heavy answer now later stored w' hpoll hstep => ?_⟩
  · change (if w.polling id = none then _ else none) = some w' at hstep
    split at hstep
    · obtain rfl := Option.some.inj hstep
      -- the cooldown is only asked for a light poll
      unfold SnmpState.begins
      rw [if_neg (fun hskip => by simp [hdue] at hskip), hdue]
      exact Function.update_self ..
    · cases hstep
  · change (w.polling id).map _ = some w' at hstep
    rw [hpoll] at hstep
    obtain rfl := Option.some.inj hstep
    refine ⟨_, ?_, handsOn_answered hinv id heavy answer now later stored⟩
    show (w.remember cfg id heavy _ now later).out ++ _ = _
    rw [remember_out]

namespace Sample

theorem threshold_pos_three : 1 ≤ 3 := by decide

def defaults : SnmpSettings := ⟨3, 300000, 60000, threshold_pos_three⟩

/-- A heavy walk that found a disk. -/
def walked : SnmpSample where
  reachable := true
  disks := some [{ name := "bay 1" }]

def unreachable : SnmpSample where
  reachable := false
  error := some "Request timed out"

/-- The walk, two polls that are missed, and a third one on its way. -/
def missing : List SnmpEvent :=
  [.sweep ["nas"], .begins "nas" 300000 300000, .answered "nas" walked 300001 300001 true,
    .begins "nas" 360001 360001, .answered "nas" unreachable 360002 360002 true,
    .begins "nas" 420001 420001, .answered "nas" unreachable 420002 420002 true,
    .begins "nas" 480001 480001]

end Sample

open Sample in
/-- The third miss is recorded, and it is all that is handed on. -/
theorem snmp_polls_missing :
    ∃ w w', (snmp defaults).exec .initial missing = some w ∧
      (snmp defaults).step w (.answered "nas" unreachable 480002 480002 true) = some w' ∧
      ∃ new, w'.out = w.out ++ new ∧
        HandsOn defaults "nas" ⟨false, unreachable⟩
          [⟨false, unreachable⟩, ⟨false, unreachable⟩, ⟨true, walked⟩] new := by
  refine ⟨_, _, rfl, rfl, ?_⟩
  have hrun : (snmp defaults).exec .initial missing = some _ := rfl
  exact (snmp_polls defaults hrun "nas").2 false unreachable 480002 480002 true _ rfl rfl

end Argus.Schedulers
