import Argus.Backup.Due

namespace Argus.Backup

open Calendar JsDate

/-!
# Backup — a tick of the scheduler

A tick works off the stored schedules one after the other, whatever is stored: an entry that
throws is logged and the next one is taken.  In the end the backups are pruned, if one was
written.

* `entry`, `tickFrom`, `tick` — with fuel for the loops of `isDue`; what the export and the
  file system do to the list of backups is a parameter.
* `Settles` — the tick ends, and an entry that fails is as good as none.
* `Steppable` — the weekly loop meets a day it ends at.
* `tick_settles_iff` — a tick settles if and only if no entry is `null` and every weekly one
  that comes to its loop is steppable.
-/

/-- `newestBackupMtime`: `0` when there is no backup of the scope. -/
def newestBackupMtime (files : List BackupMeta) (scope : Option String) : ℤ :=
  match (files.insertionSort newestFirst).find? (fun b => some b.scope.name == scope) with
  | some newest => newest.createdAt.time
  | none => 0

/-- What becomes of an entry. -/
inductive Outcome
  /-- It is not enabled. -/
  | skipped
  | notDue
  | written
  /-- It threw, and was logged. -/
  | failed
deriving DecidableEq

/-- How a tick ends. -/
inductive Ended
  | rejected
  | done (outcomes : List Outcome) (files : List BackupMeta)
deriving DecidableEq

section Tick

-- The directory after `writeBackup`, for the scope as it is stored; `none` is an exception.
variable (write : Option JsValue → List BackupMeta → Option (List BackupMeta))
variable (z : Zone) (fuel : ℕ) (now : ℤ)

/-- The body of the loop, for an entry that has fields. -/
def entry (sched : JsValue) (files : List BackupMeta) : Option (Outcome × List BackupMeta) :=
  if JsValue.truthy (storedField (some sched) "enabled") then
    match isDue z fuel sched (newestBackupMtime files (textField sched "scope")) now with
    | none => none
    | some .throws => some (.failed, files)
    | some (.answer false) => some (.notDue, files)
    | some (.answer true) =>
      match write (storedField (some sched) "scope") files with
      | some files' => some (.written, files')
      | none => some (.failed, files)
  else some (.skipped, files)

/-- The loop.  The test whether an entry is enabled stands in front of the `try`: `null` ends
    the whole tick. -/
def tickFrom : List JsValue → List BackupMeta → Option Ended
  | [], files => some (.done [] files)
  | sched :: rest, files =>
    if sched.isNull then some .rejected
    else (entry write z fuel now sched files).bind fun r =>
      (tickFrom rest r.2).map fun
        | .rejected => .rejected
        | .done outcomes files' => .done (r.1 :: outcomes) files'

/-- What pruning leaves, where nothing throws. -/
def pruned (retention : Option JsValue) (outcomes : List Outcome) (files : List BackupMeta) :
    List BackupMeta :=
  if .written ∈ outcomes then
    match Worker.pruneByPolicy retention files with
    | some names => files.filter (fun b => !names.contains b.name)
    | none => files
  else files

/-- `tick`, for the entries that `readSchedules` gives. -/
def tick (retention : Option JsValue) (entries : List JsValue) (files : List BackupMeta) :
    Option Ended :=
  (tickFrom write z fuel now entries files).map fun
    | .rejected => .rejected
    | .done outcomes files' => .done outcomes (pruned retention outcomes files')

end Tick

/-- The tick ends for some amount of fuel, and each entry that fails makes no difference to the
    others. -/
structure Settles (write : Option JsValue → List BackupMeta → Option (List BackupMeta)) (z : Zone)
    (now : ℤ) (retention : Option JsValue) (entries : List JsValue) (files : List BackupMeta) :
    Prop where
  ends : ∃ fuel outcomes files',
    tick write z fuel now retention entries files = some (.done outcomes files')
  alone : ∀ fuel outcomes files',
    tick write z fuel now retention entries files = some (.done outcomes files') →
    ∀ before bad after outcomesBefore outcomesAfter, entries = before ++ bad :: after →
      outcomes = outcomesBefore ++ .failed :: outcomesAfter →
      outcomesBefore.length = before.length →
      tick write z fuel now retention (before ++ after) files
        = some (.done (outcomesBefore ++ outcomesAfter) files')

/-- On the way back from the time of today, or from that of yesterday when the former is still to
    come, a valid date with the weekday is met. -/
def Steppable (z : Zone) (now : ℤ) (sched : JsValue) (time : String) : Prop :=
  ∃ (millis : Double) (k : ℕ),
    makeTime (clockPiece time 0) (clockPiece time 1) = .fin millis ∧
    |z.timeOf (z.localDay now) ⌊millis.val⌋| ≤ maxTime ∧
    (now < z.timeOf (z.localDay now) ⌊millis.val⌋ → 1 ≤ k) ∧
    -maxTime ≤ z.timeOf (z.localDay now) ⌊millis.val⌋ - k * msPerDay ∧
    intField sched "weekday"
      = some (weekDay (z.localDay (z.timeOf (z.localDay now) ⌊millis.val⌋) - k))

/-- An entry at its turn, when there are these files. -/
def EntryOk (z : Zone) (now : ℤ) (sched : JsValue) (files : List BackupMeta) : Prop :=
  sched ≠ .null ∧
    (JsValue.truthy (storedField (some sched) "enabled") = true →
      frequencyOf sched = .weekly →
      newestBackupMtime files (textField sched "scope") ≠ 0 →
      ∀ time, textField sched "time" = some time → Steppable z now sched time)

/-! ### The weekly loop -/

/-- The anchor, for any text of a time. -/
theorem anchor_eq (z : Zone) (time : String) (now : ℤ) :
    anchor z time now = match makeTime (clockPiece time 0) (clockPiece time 1) with
      | .fin millis =>
        if |z.timeOf (z.localDay now) ⌊millis.val⌋| ≤ maxTime then
          if now < z.timeOf (z.localDay now) ⌊millis.val⌋ then
            timeClip (z.timeOf (z.localDay now) ⌊millis.val⌋ - msPerDay)
          else some (z.timeOf (z.localDay now) ⌊millis.val⌋)
        else none
      | _ => none := by
  unfold anchor Zone.setHours
  rw [Option.bind_some]
  cases hmake : makeTime (clockPiece time 0) (clockPiece time 1) with
  | nan => rfl
  | inf negative => rfl
  | fin millis =>
    dsimp only
    by_cases hvalid : |z.timeOf (z.localDay now) ⌊millis.val⌋| ≤ maxTime
    · rw [timeClip_of_le hvalid, if_pos hvalid, isAfter, Zone.dayBefore_some]
      simp only [decide_eq_true_eq]
    · rw [timeClip, if_neg hvalid, if_neg hvalid]
      rfl

section Weekly

variable {z : Zone} {now : ℤ} {sched : JsValue} {time : String}

theorem onWeekday_none (weekday : Option JsValue) : onWeekday z weekday none = false := rfl

/-- A date on the way back, where it is valid. -/
theorem onWeekday_timeClip {t : ℤ} :
    onWeekday z (storedField (some sched) "weekday") (timeClip t) = true ↔
      |t| ≤ maxTime ∧ intField sched "weekday" = some (weekDay (z.localDay t)) := by
  unfold timeClip
  split
  · next hvalid => rw [onWeekday_iff, and_iff_right hvalid]
  · next hinvalid => simp [onWeekday_none, hinvalid]

/-- The dates that the loop meets. -/
theorem iterate_anchor {millis : Double}
    (hmake : makeTime (clockPiece time 0) (clockPiece time 1) = .fin millis)
    (hvalid : |z.timeOf (z.localDay now) ⌊millis.val⌋| ≤ maxTime) (k : ℕ) :
    z.dayBefore^[k] (anchor z time now) = timeClip (z.timeOf (z.localDay now) ⌊millis.val⌋
      - ((if now < z.timeOf (z.localDay now) ⌊millis.val⌋ then k + 1 else k : ℕ) : ℤ) * msPerDay) := by
  rw [anchor_eq, hmake]
  dsimp only
  rw [if_pos hvalid]
  split
  · rw [← Zone.dayBefore_some z, ← Function.iterate_succ_apply, Zone.iterate_dayBefore z hvalid]
  · rw [Zone.iterate_dayBefore z hvalid]

/-- No step leads up again. -/
private theorem abs_le_of_back {t : ℤ} (h : |t| ≤ maxTime) (k : ℕ) :
    |t - k * msPerDay| ≤ maxTime ↔ -maxTime ≤ t - k * msPerDay := by
  rw [abs_le] at h ⊢
  unfold msPerDay
  omega

/-- A loop that ends is steppable. -/
theorem Steppable.of_met {k : ℕ} (h : onWeekday z (storedField (some sched) "weekday")
    (z.dayBefore^[k] (anchor z time now)) = true) : Steppable z now sched time := by
  have hsome : anchor z time now ≠ none := by
    intro hnone
    rw [hnone, Function.iterate_fixed z.dayBefore_none, onWeekday_none] at h
    cases h
  cases hmake : makeTime (clockPiece time 0) (clockPiece time 1) with
  | nan => exact absurd (by rw [anchor_eq, hmake]) hsome
  | inf negative => exact absurd (by rw [anchor_eq, hmake]) hsome
  | fin millis =>
    by_cases hvalid : |z.timeOf (z.localDay now) ⌊millis.val⌋| ≤ maxTime
    · rw [iterate_anchor hmake hvalid, onWeekday_timeClip, abs_le_of_back hvalid,
        Zone.localDay_sub] at h
      exact ⟨millis, _, hmake, hvalid, fun hlater => by rw [if_pos hlater]; omega, h.1, h.2⟩
    · refine absurd ?_ hsome
      rw [anchor_eq, hmake]
      exact if_neg hvalid

/-- A steppable one ends within a week. -/
theorem Steppable.met (h : Steppable z now sched time) :
    ∃ k < 7, onWeekday z (storedField (some sched) "weekday")
      (z.dayBefore^[k] (anchor z time now)) = true := by
  obtain ⟨millis, k, hmake, hvalid, hlater, hback, hday⟩ := h
  -- whole weeks are left out
  obtain ⟨j, hj, weeks, hk⟩ : ∃ j < 7, ∃ weeks : ℕ,
      k = (if now < z.timeOf (z.localDay now) ⌊millis.val⌋ then j + 1 else j) + 7 * weeks := by
    by_cases hnow : now < z.timeOf (z.localDay now) ⌊millis.val⌋
    · have hpos := hlater hnow
      refine ⟨(k - 1) % 7, Nat.mod_lt _ (by decide), (k - 1) / 7, ?_⟩
      rw [if_pos hnow]
      omega
    · refine ⟨k % 7, Nat.mod_lt _ (by decide), k / 7, ?_⟩
      rw [if_neg hnow]
      omega
  refine ⟨j, hj, ?_⟩
  rw [iterate_anchor hmake hvalid, onWeekday_timeClip, abs_le_of_back hvalid, Zone.localDay_sub]
  generalize (if now < z.timeOf (z.localDay now) ⌊millis.val⌋ then j + 1 else j) = i at hk ⊢
  refine ⟨?_, ?_⟩
  · unfold msPerDay at *
    omega
  · rw [hday]
    unfold weekDay
    congr 1
    omega

/-- `isDue` where it comes to the weekly loop. -/
theorem isDue_weekly {lastMs : ℤ} (hlast : lastMs ≠ 0) (hweekly : frequencyOf sched = .weekly)
    (htime : textField sched "time" = some time) (fuel : ℕ) :
    isDue z fuel sched lastMs now
      = (z.stepBack (onWeekday z (storedField (some sched) "weekday")) fuel
        (anchor z time now)).map (fun target => .answer (isAfter target lastMs)) := by
  unfold isDue
  rw [if_neg hlast, if_neg (by rw [hweekly]; decide), htime, hweekly]

/-- Elsewhere it has no loop without a bound. -/
theorem isDue_bounded {lastMs : ℤ} (h : ¬ (lastMs ≠ 0 ∧ frequencyOf sched = .weekly ∧
    ∃ time, textField sched "time" = some time)) :
    ∃ r, ∀ fuel, isDue z fuel sched lastMs now = some r := by
  unfold isDue
  split
  · exact ⟨_, fun _ => rfl⟩
  next hlast =>
  split
  · split <;> exact ⟨_, fun _ => rfl⟩
  split
  · exact ⟨_, fun _ => rfl⟩
  next time htime =>
  dsimp only
  split
  · next hweekly => exact absurd ⟨hlast, hweekly, time, htime⟩ h
  · split <;> exact ⟨_, fun _ => rfl⟩
  · exact ⟨_, fun _ => rfl⟩

/-- The weekly loop, where `isDue` comes to it, is steppable. -/
def LoopOk (z : Zone) (now : ℤ) (sched : JsValue) (lastMs : ℤ) : Prop :=
  lastMs ≠ 0 → frequencyOf sched = .weekly → ∀ time, textField sched "time" = some time →
    Steppable z now sched time

theorem LoopOk.ends {lastMs : ℤ} (h : LoopOk z now sched lastMs) :
    ∃ r, isDue z 7 sched lastMs now = some r := by
  by_cases hloop : lastMs ≠ 0 ∧ frequencyOf sched = .weekly ∧
      ∃ time, textField sched "time" = some time
  · obtain ⟨hlast, hweekly, time, htime⟩ := hloop
    obtain ⟨k, hk, hmet⟩ := (h hlast hweekly time htime).met
    obtain ⟨target, htarget⟩ := z.stepBack_ends hmet hk
    rw [isDue_weekly hlast hweekly htime, htarget]
    exact ⟨_, rfl⟩
  · obtain ⟨r, hr⟩ := isDue_bounded hloop
    exact ⟨r, hr 7⟩

theorem LoopOk.of_ends {lastMs : ℤ} {fuel : ℕ} {r : Due}
    (h : isDue z fuel sched lastMs now = some r) : LoopOk z now sched lastMs := by
  intro hlast hweekly time htime
  rw [isDue_weekly hlast hweekly htime] at h
  obtain ⟨target, htarget, -⟩ := Option.map_eq_some_iff.mp h
  obtain ⟨k, -, hmet, hstop, -⟩ := (z.stepBack_eq_some_iff _ _ _ _).mp htarget
  rw [← hmet] at hstop
  exact .of_met hstop

theorem isDue_mono {lastMs : ℤ} {fuel fuel' : ℕ} {r : Due} (hle : fuel ≤ fuel')
    (h : isDue z fuel sched lastMs now = some r) : isDue z fuel' sched lastMs now = some r := by
  by_cases hloop : lastMs ≠ 0 ∧ frequencyOf sched = .weekly ∧
      ∃ time, textField sched "time" = some time
  · obtain ⟨hlast, hweekly, time, htime⟩ := hloop
    rw [isDue_weekly hlast hweekly htime] at h ⊢
    obtain ⟨target, htarget, rfl⟩ := Option.map_eq_some_iff.mp h
    rw [z.stepBack_mono htarget hle, Option.map_some]
  · obtain ⟨r', hr'⟩ : ∃ r', ∀ fuel, isDue z fuel sched lastMs now = some r' := isDue_bounded hloop
    rw [hr' fuel] at h
    rw [hr' fuel', h]

end Weekly

/-! ### Entries -/

section Entries

variable {write : Option JsValue → List BackupMeta → Option (List BackupMeta)} {z : Zone}
  {fuel fuel' : ℕ} {now : ℤ} {sched : JsValue} {files files' : List BackupMeta}

/-- An entry ends when its call of `isDue` does. -/
theorem entry_ends {r : Due}
    (h : isDue z fuel sched (newestBackupMtime files (textField sched "scope")) now = some r) :
    ∃ r, entry write z fuel now sched files = some r := by
  unfold entry
  rw [h]
  split
  · cases r with
    | throws => exact ⟨_, rfl⟩
    | answer due =>
      cases due with
      | false => exact ⟨_, rfl⟩
      | true =>
        dsimp only
        split <;> exact ⟨_, rfl⟩
  · exact ⟨_, rfl⟩

/-- An enabled entry that has ended, and what `isDue` said. -/
theorem entry_due {r : Outcome × List BackupMeta}
    (henabled : JsValue.truthy (storedField (some sched) "enabled") = true)
    (h : entry write z fuel now sched files = some r) :
    ∃ due, isDue z fuel sched (newestBackupMtime files (textField sched "scope")) now
      = some due := by
  unfold entry at h
  rw [if_pos henabled] at h
  split at h
  · cases h
  all_goals exact ⟨_, by assumption⟩

theorem EntryOk.ends (h : EntryOk z now sched files) :
    ∃ r, entry write z 7 now sched files = some r := by
  by_cases henabled : JsValue.truthy (storedField (some sched) "enabled") = true
  · have hloop : LoopOk z now sched (newestBackupMtime files (textField sched "scope")) :=
      fun hlast hweekly => h.2 henabled hweekly hlast
    obtain ⟨due, hdue⟩ := hloop.ends
    exact entry_ends hdue
  · exact ⟨_, if_neg henabled⟩

theorem EntryOk.of_ends (hnull : sched ≠ .null) {r : Outcome × List BackupMeta}
    (h : entry write z fuel now sched files = some r) : EntryOk z now sched files := by
  refine ⟨hnull, fun henabled hweekly hlast => ?_⟩
  obtain ⟨due, hdue⟩ := entry_due henabled h
  exact LoopOk.of_ends hdue hlast hweekly

theorem entry_mono (hle : fuel ≤ fuel') {r : Outcome × List BackupMeta}
    (h : entry write z fuel now sched files = some r) :
    entry write z fuel' now sched files = some r := by
  by_cases henabled : JsValue.truthy (storedField (some sched) "enabled") = true
  · obtain ⟨due, hdue⟩ := entry_due henabled h
    unfold entry at h ⊢
    rw [hdue] at h
    rw [isDue_mono hle hdue]
    exact h
  · unfold entry at h ⊢
    rw [if_neg henabled] at h ⊢
    exact h

/-- What fails leaves the files as they are. -/
theorem entry_failed (h : entry write z fuel now sched files = some (.failed, files')) :
    files' = files := by
  unfold entry at h
  split at h
  · split at h
    · cases h
    · cases h
      rfl
    · cases h
    · split at h
      · cases h
      · cases h
        rfl
  · cases h

end Entries

/-! ### Ticks -/

section Ticks

variable {write : Option JsValue → List BackupMeta → Option (List BackupMeta)} {z : Zone}
  {fuel fuel' : ℕ} {now : ℤ} {files files' : List BackupMeta}

/-- **Step lemma.**  A tick that ends has worked off its first entry and then the others. -/
theorem tickFrom_cons_done_iff {sched : JsValue} {rest : List JsValue} {outcomes : List Outcome} :
    tickFrom write z fuel now (sched :: rest) files = some (.done outcomes files') ↔
      sched ≠ .null ∧ ∃ outcome files₁ outcomes',
        entry write z fuel now sched files = some (outcome, files₁) ∧
        tickFrom write z fuel now rest files₁ = some (.done outcomes' files') ∧
        outcomes = outcome :: outcomes' := by
  rw [tickFrom]
  by_cases hnull : sched.isNull = true
  · rw [if_pos hnull]
    refine iff_of_false (by simp) (fun h => h.1 (JsValue.isNull_eq_true.mp hnull))
  · rw [if_neg hnull, and_iff_right (fun h => hnull (JsValue.isNull_eq_true.mpr h))]
    constructor
    · intro h
      obtain ⟨⟨outcome, files₁⟩, hentry, h⟩ := Option.bind_eq_some_iff.mp h
      obtain ⟨ended, hrest, h⟩ := Option.map_eq_some_iff.mp h
      cases ended with
      | rejected => cases h
      | done outcomes' files₂ =>
        obtain ⟨rfl, rfl⟩ := Ended.done.inj h
        exact ⟨outcome, files₁, outcomes', hentry, hrest, rfl⟩
    · rintro ⟨outcome, files₁, outcomes', hentry, hrest, rfl⟩
      rw [hentry, Option.bind_some, hrest, Option.map_some]

/-- **Run lemma.** -/
theorem tickFrom_append_done_iff {before after : List JsValue} {outcomes : List Outcome} :
    tickFrom write z fuel now (before ++ after) files = some (.done outcomes files') ↔
      ∃ outcomes₁ files₁ outcomes₂,
        tickFrom write z fuel now before files = some (.done outcomes₁ files₁) ∧
        tickFrom write z fuel now after files₁ = some (.done outcomes₂ files') ∧
        outcomes = outcomes₁ ++ outcomes₂ := by
  induction before generalizing files outcomes with
  | nil =>
    constructor
    · intro h
      exact ⟨[], files, outcomes, rfl, h, rfl⟩
    · rintro ⟨outcomes₁, files₁, outcomes₂, hbefore, hafter, rfl⟩
      obtain ⟨rfl, rfl⟩ := Ended.done.inj (Option.some.inj hbefore)
      exact hafter
  | cons sched before ih =>
    rw [List.cons_append, tickFrom_cons_done_iff]
    constructor
    · rintro ⟨hnull, outcome, files₀, outcomes', hentry, hrest, rfl⟩
      obtain ⟨outcomes₁, files₁, outcomes₂, hbefore, hafter, rfl⟩ := ih.mp hrest
      exact ⟨outcome :: outcomes₁, files₁, outcomes₂, tickFrom_cons_done_iff.mpr
        ⟨hnull, outcome, files₀, outcomes₁, hentry, hbefore, rfl⟩, hafter, rfl⟩
    · rintro ⟨outcomes₁, files₁, outcomes₂, hbefore, hafter, rfl⟩
      obtain ⟨hnull, outcome, files₀, outcomes', hentry, hrest, rfl⟩ :=
        tickFrom_cons_done_iff.mp hbefore
      exact ⟨hnull, outcome, files₀, outcomes' ++ outcomes₂, hentry,
        ih.mpr ⟨outcomes', files₁, outcomes₂, hrest, hafter, rfl⟩, rfl⟩

theorem length_tickFrom {entries : List JsValue} {outcomes : List Outcome}
    (h : tickFrom write z fuel now entries files = some (.done outcomes files')) :
    outcomes.length = entries.length := by
  induction entries generalizing files outcomes with
  | nil =>
    obtain ⟨rfl, -⟩ := Ended.done.inj (Option.some.inj h)
    rfl
  | cons sched rest ih =>
    obtain ⟨-, outcome, files₁, outcomes', -, hrest, rfl⟩ := tickFrom_cons_done_iff.mp h
    rw [List.length_cons, List.length_cons, ih hrest]

theorem tickFrom_mono (hle : fuel ≤ fuel') {entries : List JsValue} {outcomes : List Outcome}
    (h : tickFrom write z fuel now entries files = some (.done outcomes files')) :
    tickFrom write z fuel' now entries files = some (.done outcomes files') := by
  induction entries generalizing files outcomes with
  | nil => exact h
  | cons sched rest ih =>
    obtain ⟨hnull, outcome, files₁, outcomes', hentry, hrest, rfl⟩ := tickFrom_cons_done_iff.mp h
    exact tickFrom_cons_done_iff.mpr
      ⟨hnull, outcome, files₁, outcomes', entry_mono hle hentry, ih hrest, rfl⟩

theorem tick_done_iff {retention : Option JsValue} {entries : List JsValue}
    {outcomes : List Outcome} :
    tick write z fuel now retention entries files = some (.done outcomes files') ↔
      ∃ files₁, tickFrom write z fuel now entries files = some (.done outcomes files₁) ∧
        pruned retention outcomes files₁ = files' := by
  unfold tick
  rw [Option.map_eq_some_iff]
  constructor
  · rintro ⟨ended, hloop, h⟩
    cases ended with
    | rejected => cases h
    | done outcomes₁ files₁ =>
      obtain ⟨rfl, rfl⟩ := Ended.done.inj h
      exact ⟨files₁, hloop, rfl⟩
  · rintro ⟨files₁, hloop, rfl⟩
    exact ⟨.done outcomes files₁, hloop, rfl⟩

/-- An entry that fails makes no difference. -/
theorem tick_alone {retention : Option JsValue} {before after : List JsValue} {bad : JsValue}
    {outcomes₁ outcomes₂ : List Outcome} (hlength : outcomes₁.length = before.length)
    (h : tick write z fuel now retention (before ++ bad :: after) files
      = some (.done (outcomes₁ ++ .failed :: outcomes₂) files')) :
    tick write z fuel now retention (before ++ after) files
      = some (.done (outcomes₁ ++ outcomes₂) files') := by
  rw [tick_done_iff] at h ⊢
  obtain ⟨files₁, hloop, hpruned⟩ := h
  refine ⟨files₁, ?_, ?_⟩
  · obtain ⟨first, files₂, second, hbefore, hrest, hsplit⟩ := tickFrom_append_done_iff.mp hloop
    obtain ⟨-, outcome, files₃, third, hbad, hafter, rfl⟩ := tickFrom_cons_done_iff.mp hrest
    obtain ⟨rfl, htail⟩ := List.append_inj hsplit (hlength.trans (length_tickFrom hbefore).symm)
    obtain ⟨rfl, rfl⟩ := List.cons.inj htail
    obtain rfl := entry_failed hbad
    exact tickFrom_append_done_iff.mpr ⟨_, _, _, hbefore, hafter, rfl⟩
  · rw [← hpruned, pruned, pruned]
    simp

/-- Every entry is in order at its turn. -/
def EntriesOk (write : Option JsValue → List BackupMeta → Option (List BackupMeta)) (z : Zone)
    (now : ℤ) (entries : List JsValue) (files : List BackupMeta) : Prop :=
  ∀ before sched after, entries = before ++ sched :: after →
    ∀ fuel outcomes files',
      tickFrom write z fuel now before files = some (.done outcomes files') →
      EntryOk z now sched files'

theorem EntriesOk.ends {entries : List JsValue} (h : EntriesOk write z now entries files) :
    ∃ outcomes files', tickFrom write z 7 now entries files = some (.done outcomes files') := by
  induction entries generalizing files with
  | nil => exact ⟨[], files, rfl⟩
  | cons sched rest ih =>
    have hok := h [] sched rest rfl 7 [] files rfl
    obtain ⟨⟨outcome, files₁⟩, hentry⟩ : ∃ r, entry write z 7 now sched files = some r := hok.ends
    have hrest : EntriesOk write z now rest files₁ := by
      intro before sched' after hsplit fuel outcomes files' hbefore
      -- the same amount of fuel for the first entry and for those after it
      refine h (sched :: before) sched' after (by rw [hsplit]; rfl) (max 7 fuel)
        (outcome :: outcomes) files' (tickFrom_cons_done_iff.mpr ⟨hok.1, outcome, files₁, outcomes,
          entry_mono (le_max_left 7 fuel) hentry, tickFrom_mono (le_max_right 7 fuel) hbefore, rfl⟩)
    obtain ⟨outcomes, files', hdone⟩ := ih hrest
    exact ⟨outcome :: outcomes, files', tickFrom_cons_done_iff.mpr
      ⟨hok.1, outcome, files₁, outcomes, hentry, hdone, rfl⟩⟩

theorem EntriesOk.of_ends {entries : List JsValue} {outcomes : List Outcome}
    (h : tickFrom write z fuel now entries files = some (.done outcomes files')) :
    EntriesOk write z now entries files := by
  rintro before sched after rfl fuel₁ outcomes₁ files₁ hbefore
  obtain ⟨first, files₂, second, hfirst, hrest, -⟩ := tickFrom_append_done_iff.mp h
  obtain ⟨hnull, outcome, files₃, third, hentry, -⟩ := tickFrom_cons_done_iff.mp hrest
  -- both ways to get to the entry are the same one
  have hsame := (tickFrom_mono (le_max_left fuel fuel₁) hfirst).symm.trans
    (tickFrom_mono (le_max_right fuel fuel₁) hbefore)
  obtain ⟨-, rfl⟩ := Ended.done.inj (Option.some.inj hsame)
  exact .of_ends hnull hentry

end Ticks

/-- **Ticks.**  Whatever is stored under the two keys, whatever backups there are and whatever
    becomes of new ones, a tick settles if and only if every entry is in order at its turn. -/
theorem tick_settles_iff
    (write : Option JsValue → List BackupMeta → Option (List BackupMeta)) (z : Zone) (now : ℤ)
    (schedules legacy retention : Option JsValue) (files : List BackupMeta) :
    Settles write z now retention (Worker.readSchedules schedules legacy) files ↔
      EntriesOk write z now (Worker.readSchedules schedules legacy) files := by
  constructor
  · rintro ⟨⟨fuel, outcomes, files', h⟩, -⟩
    obtain ⟨files₁, hloop, -⟩ := tick_done_iff.mp h
    exact .of_ends hloop
  · intro h
    obtain ⟨outcomes, files₁, hloop⟩ := h.ends
    refine ⟨⟨7, outcomes, pruned retention outcomes files₁, tick_done_iff.mpr ⟨files₁, hloop, rfl⟩⟩,
      ?_⟩
    intro fuel outcomes' files' hdone before bad after first second hsplit houtcomes hlength
    rw [hsplit, houtcomes] at hdone
    exact tick_alone hlength hdone

namespace Sample

/-- A weekly schedule with these two fields. -/
def weeklyAt (weekday : ℤ) (h : |weekday| ≤ 2 ^ 53) (time : String) : JsValue :=
  .obj [("enabled", .bool true), ("scope", .str "all"), ("frequency", .str "weekly"),
    ("time", .str time), ("weekday", .num (.ofInt weekday h))]

def existing : BackupMeta where
  name := "argus-backup-all-2025-02-03T04-05-06.789Z.json"
  createdAt := ⟨⟨2025, 1, 3, by decide, by decide, by decide⟩, 14706789, by decide⟩
  scope := .all

end Sample

open Sample in
example : tick (fun _ _ => none) utc 7 1740787200000 none
    [weeklyAt 0 (by decide) "02:00", .obj [("enabled", .bool true), ("scope", .str "all")]]
    [existing]
      = some (.done [.failed, .failed] [existing]) := by
  decide +kernel

open Sample in
/-- A Sunday that is written as the seventh day, and an entry that is `null`, in front of one that
    is in order. -/
theorem tick_stuck :
    ¬ Settles (fun _ _ => none) utc 1740787200000 none
        (Worker.readSchedules (some (.arr
          [weeklyAt 7 (by decide) "02:00", weeklyAt 0 (by decide) "02:00"])) none) [existing] ∧
      ¬ Settles (fun _ _ => none) utc 1740787200000 none
        (Worker.readSchedules (some (.arr [.null, weeklyAt 0 (by decide) "02:00"])) none)
        [existing] := by
  refine ⟨?_, ?_⟩
  · rintro ⟨⟨fuel, outcomes, files', h⟩, -⟩
    obtain ⟨files₁, hloop, -⟩ := tick_done_iff.mp h
    obtain ⟨hnull, outcome, files₂, outcomes', hentry, -⟩ := tickFrom_cons_done_iff.mp hloop
    have hok := EntryOk.of_ends hnull hentry
    have hstep := hok.2 (by decide +kernel) (by decide +kernel) (by decide +kernel) "02:00" rfl
    obtain ⟨millis, k, -, -, -, -, hday⟩ := hstep
    have hseven : intField (weeklyAt 7 (by decide) "02:00") "weekday" = some 7 := by decide +kernel
    have heq := Option.some.inj (hseven.symm.trans hday)
    unfold weekDay at heq
    omega
  · rintro ⟨⟨fuel, outcomes, files', h⟩, -⟩
    obtain ⟨files₁, hloop, -⟩ := tick_done_iff.mp h
    exact (tickFrom_cons_done_iff.mp hloop).1 rfl

end Argus.Backup
