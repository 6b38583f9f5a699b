import Argus.Lib.Comparators
import Argus.Lib.DayText
import Argus.Lib.Tally
import Argus.Pipeline.Concurrent
import Argus.Reports.Percent
import Mathlib.Algebra.Order.BigOperators.Group.List
import Mathlib.Data.Char
import Mathlib.Data.List.Lex

namespace Argus.Reports

open JsNumber Pipeline
open Calendar (dayText)

/-!
# The uptime report

`buildUptimeData` of `reports.ts` over the buckets that the pipeline has written, whatever calls
have run and however they were interleaved; and the up time of the public page.

* `Recorded` — what every interval charges: some seconds, the up ones among them.
  `recorded_run` — it holds of every bucket.
* `buildUptimeData` — the report.
* `Sound` — what it has to satisfy; `uptime_report_sound` — it does.
* `uptimeHistoryFor` — the days of the public page; `history_sound` — each is the percentage of
  its own buckets.
-/

/-! ### Buckets -/

namespace Seconds

def ofBucket (b : UptimeBucket) : Seconds := ⟨b.upSec, b.totalSec⟩

/-- `up += b.upSec; total += b.totalSec`. -/
def charge (s : Seconds) (b : UptimeBucket) : Seconds := s.add (ofBucket b)

end Seconds

def sumSeconds (bs : List UptimeBucket) : Seconds := bs.foldl Seconds.charge .empty

theorem sumSeconds_eq (bs : List UptimeBucket) :
    sumSeconds bs
      = ⟨(bs.map UptimeBucket.upSec).sum, (bs.map UptimeBucket.totalSec).sum⟩ := by
  induction bs using List.reverseRecOn with
  | nil => rfl
  | append_singleton bs b ih =>
    have hconcat : sumSeconds (bs ++ [b]) = (sumSeconds bs).charge b := by
      rw [sumSeconds, List.foldl_append]
      rfl
    rw [hconcat, ih]
    simp [Seconds.charge, Seconds.add, Seconds.ofBucket]

/-! ### What the pipeline records -/

/-- An interval: some seconds, the up ones among them. -/
def Charged (b : UptimeBucket) : Prop := 0 < b.totalSec ∧ b.upSec ≤ b.totalSec

def StmtCharged : Stmt → Prop
  | .addUptime b => Charged b
  | _ => True

/-- Of every bucket of the database. -/
def Recorded (db : TelemetryDb) : Prop := ∀ b ∈ db.uptimeBuckets, Charged b

theorem Recorded.exec {db : TelemetryDb} (h : Recorded db) {stmt : Stmt} (hs : StmtCharged stmt) :
    Recorded (stmt.exec db) := by
  cases stmt with
  | insertEvents rows => exact h
  | insertLogs rows => exact h
  | insertNotifications rows => exact h
  | upsertUnit row => exact h
  | addUptime bucket =>
    intro b hb
    rcases Table.mem_upsert hb with ⟨hold, -⟩ | ⟨r, hr, -, rfl⟩ | rfl
    · exact h b hold
    · -- the interval is added to a bucket of the same kind
      have hr := h r hr
      have hs : Charged bucket := hs
      unfold Charged at hr hs ⊢
      show 0 < r.totalSec + bucket.totalSec ∧ r.upSec + bucket.upSec ≤ r.totalSec + bucket.totalSec
      omega
    · exact hs

theorem charged_writes {c : Call} {prevRows : List UnitState} {stmt : Stmt}
    (h : stmt ∈ c.writes prevRows) : StmtCharged stmt := by
  unfold Call.writes at h
  rw [List.mem_append, List.mem_append] at h
  rcases h with (h | h) | h
  · rcases Call.mem_inserts h with ⟨rows, rfl⟩ | ⟨rows, rfl⟩ | ⟨rows, rfl⟩ <;> trivial
  · obtain ⟨u, -, hu⟩ := List.mem_filterMap.mp h
    obtain ⟨p, -, hdelta, rfl⟩ := Call.uptimeWrite_eq_some.mp hu
    refine ⟨Nat.pos_of_ne_zero hdelta, ?_⟩
    show (if p.status = .up then _ else 0) ≤ _
    split
    · exact le_rfl
    · exact Nat.zero_le _
  · obtain ⟨u, -, rfl⟩ := Call.mem_baselineWrites h
    trivial

/-- **Run.**  However the calls are interleaved, every bucket is made of intervals. -/
theorem recorded_run {calls : ℕ → Call} {ls : List ℕ} {w : World}
    (hrun : (interleaving calls).exec .initial ls = some w) : Recorded w.db := by
  have hinv : Recorded w.db ∧ ∀ i, ∀ stmt ∈ (w.pcs i).todo, StmtCharged stmt := by
    refine Machine.inv_of_exec (G := fun _ _ => True)
      (I := fun w : World => Recorded w.db ∧ ∀ i, ∀ stmt ∈ (w.pcs i).todo, StmtCharged stmt)
      ?_ ⟨fun b hb => absurd hb List.not_mem_nil, fun i stmt h => absurd h List.not_mem_nil⟩
      (Machine.Meets.always _ _) hrun
    rintro w i w' ⟨hdb, htodo⟩ - hstep
    obtain ⟨⟨db, pc⟩, hcall, rfl⟩ := Option.map_eq_some_iff.mp hstep
    have hpcs : ∀ {pc : Pc}, (∀ stmt ∈ pc.todo, StmtCharged stmt) →
        ∀ j, ∀ stmt ∈ (Function.update w.pcs i pc j).todo, StmtCharged stmt := by
      intro pc hpc j
      by_cases hj : j = i
      · subst hj
        rw [Function.update_self]
        exact hpc
      · rw [Function.update_of_ne hj]
        exact htodo j
    have hi := htodo i
    cases hpc : w.pcs i with
    | start =>
      rw [hpc] at hcall
      obtain ⟨rfl, rfl⟩ := Prod.mk.inj (Option.some.inj hcall)
      refine ⟨hdb, hpcs ?_⟩
      intro stmt hstmt
      have hstmt : stmt ∈ (calls i).pending w.db := hstmt
      unfold Call.pending at hstmt
      split at hstmt
      · exact absurd hstmt List.not_mem_nil
      · exact charged_writes hstmt
    | writing todo =>
      rw [hpc] at hcall hi
      cases todo with
      | nil => exact absurd hcall.symm (Option.some_ne_none _)
      | cons stmt todo =>
        obtain ⟨rfl, rfl⟩ := Prod.mk.inj (Option.some.inj hcall)
        have hi : ∀ s ∈ stmt :: todo, StmtCharged s := hi
        rw [List.forall_mem_cons] at hi
        exact ⟨hdb.exec hi.1, hpcs hi.2⟩
  exact hinv.1

/-! ### The report -/

structure Target where
  sourceId : String
  entity : String
  label : String
deriving DecidableEq, Repr

/-- `resolveTargets`; an empty `refId` counts as none. -/
def resolveTargets (monitors : List MonitorRow) (scope : ReportScope) : List Target :=
  let rows : List MonitorRow := match scope.kind, scope.refId.filter (fun r => r != "") with
    | .monitor, some refId => monitors.filter (fun m => m.id == refId)
    | .agent, some refId => monitors.filter (fun m => m.agentId == refId)
    | _, _ => monitors
  rows.map fun m => ⟨m.agentId, m.name, m.name⟩

/-- `b.bucketStart.slice(0, 10)`. -/
def bucketDay (b : UptimeBucket) : List Char := dayText (b.bucketStart / 86400000 : ℕ)

/-- The buckets of a target that begin in the window, whose times are in microseconds. -/
def targetBuckets (buckets : List UptimeBucket) (win : TimeWindow) (t : Target) :
    List UptimeBucket :=
  buckets.filter fun b =>
    b.sourceId == t.sourceId && b.entity == t.entity &&
      decide (win.fromTime ≤ 1000 * b.bucketStart) && decide (1000 * b.bucketStart ≤ win.untilTime)

structure UptimeRow where
  label : String
  uptimePct : JsNumber
deriving DecidableEq

structure TrendDay where
  date : List Char
  upPct : Option JsNumber
deriving DecidableEq

structure UptimeData where
  rows : List UptimeRow
  overallPct : JsNumber
  trend : List TrendDay

section

variable (buckets : List UptimeBucket) (win : TimeWindow)

def targetSeconds (t : Target) : Seconds := sumSeconds (targetBuckets buckets win t)

def targetRow (t : Target) : UptimeRow := ⟨t.label, uptimePct (targetSeconds buckets win t)⟩

/-- All seconds of a report. -/
def allSeconds (targets : List Target) : Seconds :=
  Seconds.all (targets.map (targetSeconds buckets win))

def byDay (bs : List UptimeBucket) : List (List Char × Seconds) :=
  Tally.tally bucketDay Seconds.charge .empty bs

def buildUptimeData (monitors : List MonitorRow) (scope : ReportScope) : UptimeData :=
  let targets := resolveTargets monitors scope
  { rows := (targets.map (targetRow buckets win)).insertionSort
      (fun a b => le a.uptimePct b.uptimePct = true)
    overallPct := uptimePct (allSeconds buckets win targets)
    trend := (Tally.sorted (byDay (targets.flatMap (targetBuckets buckets win)))).map
      fun e => ⟨e.1, trendPct e.2⟩ }

/-- What a report on some targets has to satisfy. -/
structure Sound (targets : List Target) (r : UptimeData) : Prop where
  rows : r.rows.Perm (targets.map (targetRow buckets win))
  /-- The worst first. -/
  sorted : r.rows.Pairwise (fun a b => le a.uptimePct b.uptimePct = true)
  range : ∀ row ∈ r.rows, InRange 100 row.uptimePct
  /-- The overall percentage lies among those of the rows. -/
  above : r.rows ≠ [] → ∃ row ∈ r.rows, le row.uptimePct r.overallPct = true
  below : r.rows ≠ [] → ∃ row ∈ r.rows, le r.overallPct row.uptimePct = true
  /-- Each day once, in order: those on which a bucket begins. -/
  chronological : r.trend.Pairwise (fun d e => d.date < e.date)
  days : ∀ date, date ∈ r.trend.map TrendDay.date ↔
    ∃ t ∈ targets, ∃ b ∈ targetBuckets buckets win t, bucketDay b = date
  /-- A day that is there has a percentage. -/
  known : ∀ d ∈ r.trend, ∃ p, d.upPct = some p ∧ InRange 100 p

end

/-! ### Sums of recorded seconds -/

/-- Sums of recorded buckets keep the up seconds among all seconds. -/
theorem sumSeconds_le {bs : List UptimeBucket} (h : ∀ b ∈ bs, Charged b) :
    (sumSeconds bs).up ≤ (sumSeconds bs).total := by
  rw [sumSeconds_eq]
  exact List.sum_le_sum fun b hb => (h b hb).2

theorem sumSeconds_pos {bs : List UptimeBucket} (h : ∀ b ∈ bs, Charged b) (hne : bs ≠ []) :
    0 < (sumSeconds bs).total := by
  obtain ⟨b, hb⟩ := List.exists_mem_of_ne_nil bs hne
  rw [sumSeconds_eq]
  have hle : b.totalSec ≤ (bs.map UptimeBucket.totalSec).sum :=
    List.single_le_sum (fun _ _ => Nat.zero_le _) _ (List.mem_map_of_mem hb)
  exact lt_of_lt_of_le (h b hb).1 hle

theorem charged_targetBuckets {buckets : List UptimeBucket} (h : ∀ b ∈ buckets, Charged b)
    (win : TimeWindow) (t : Target) : ∀ b ∈ targetBuckets buckets win t, Charged b :=
  fun b hb => h b (List.mem_filter.mp hb).1

/-! ### The report is sound -/

section

variable {buckets : List UptimeBucket} {win : TimeWindow} {targets : List Target}

theorem targetSeconds_le (h : ∀ b ∈ buckets, Charged b) :
    ∀ s ∈ targets.map (targetSeconds buckets win), s.up ≤ s.total := by
  intro s hs
  obtain ⟨t, -, rfl⟩ := List.mem_map.mp hs
  exact sumSeconds_le (charged_targetBuckets h win t)

theorem targetSeconds_counted (h : ∀ b ∈ buckets, Charged b)
    (hlt : (allSeconds buckets win targets).total < 2 ^ 53) {t : Target} (ht : t ∈ targets) :
    (targetSeconds buckets win t).Counted :=
  Seconds.counted_of_all (targetSeconds_le h) hlt (List.mem_map_of_mem ht)

/-- The seconds of a day, as the loop over the targets has them. -/
theorem mem_byDay {bs : List UptimeBucket} {date : List Char} {s : Seconds} :
    (date, s) ∈ byDay bs ↔
      (∃ b ∈ bs, bucketDay b = date) ∧
        s = sumSeconds (bs.filter (fun b => decide (bucketDay b = date))) :=
  Tally.mem_tally

/-- The seconds of a day are among those of the report. -/
theorem day_counted (h : ∀ b ∈ buckets, Charged b)
    (hlt : (allSeconds buckets win targets).total < 2 ^ 53) (p : UptimeBucket → Bool) :
    (sumSeconds ((targets.flatMap (targetBuckets buckets win)).filter p)).Counted := by
  have hmem : ∀ b ∈ targets.flatMap (targetBuckets buckets win), Charged b := by
    intro b hb
    obtain ⟨t, -, ht⟩ := List.mem_flatMap.mp hb
    exact charged_targetBuckets h win t b ht
  refine ⟨sumSeconds_le fun b hb => hmem b (List.mem_filter.mp hb).1, lt_of_le_of_lt ?_ hlt⟩
  -- what the buckets of a day have in total, all buckets of the targets have
  have hsub := (List.filter_sublist (p := p)
    (l := targets.flatMap (targetBuckets buckets win))).map UptimeBucket.totalSec
  have hsum := hsub.sum_le_sum (fun _ _ => Nat.zero_le _)
  have hall : (allSeconds buckets win targets).total
      = ((targets.flatMap (targetBuckets buckets win)).map UptimeBucket.totalSec).sum := by
    rw [allSeconds, Seconds.all_eq, List.map_flatMap, List.flatMap_def, List.sum_flatten,
      List.map_map, List.map_map, List.map_map]
    show (targets.map fun t => (sumSeconds (targetBuckets buckets win t)).total).sum = _
    simp only [sumSeconds_eq, Function.comp_def]
  rw [hall, sumSeconds_eq]
  exact hsum

theorem sound_of_charged (h : ∀ b ∈ buckets, Charged b) (monitors : List MonitorRow)
    (scope : ReportScope)
    (hlt : (allSeconds buckets win (resolveTargets monitors scope)).total < 2 ^ 53) :
    Sound buckets win (resolveTargets monitors scope)
      (buildUptimeData buckets win monitors scope) := by
  generalize hts : resolveTargets monitors scope = targets at hlt ⊢
  have hrows : (buildUptimeData buckets win monitors scope).rows
      = (targets.map (targetRow buckets win)).insertionSort
          (fun a b => le a.uptimePct b.uptimePct = true) := by rw [buildUptimeData, hts]
  have hoverall : (buildUptimeData buckets win monitors scope).overallPct
      = uptimePct (allSeconds buckets win targets) := by rw [buildUptimeData, hts]
  have htrend : (buildUptimeData buckets win monitors scope).trend
      = (Tally.sorted (byDay (targets.flatMap (targetBuckets buckets win)))).map
          fun e => ⟨e.1, trendPct e.2⟩ := by rw [buildUptimeData, hts]
  have hperm := List.perm_insertionSort (fun a b : UptimeRow => le a.uptimePct b.uptimePct = true)
    (targets.map (targetRow buckets win))
  have hrange : ∀ row ∈ targets.map (targetRow buckets win), InRange 100 row.uptimePct := by
    intro row hrow
    obtain ⟨t, ht, rfl⟩ := List.mem_map.mp hrow
    exact uptimePct_range (targetSeconds_counted h hlt ht)
  have hne : (targets.map (targetRow buckets win)).insertionSort
        (fun a b => le a.uptimePct b.uptimePct = true) ≠ [] →
      targets.map (targetSeconds buckets win) ≠ [] := by
    intro hrows hnil
    rw [List.map_eq_nil_iff] at hnil
    subst hnil
    exact hrows rfl
  refine ⟨?_, ?_, ?_, ?_, ?_, ?_, ?_, ?_⟩
  · rw [hrows]
    exact hperm
  · rw [hrows]
    apply Comparators.pairwise_insertionSort_of
    · exact fun a ha b hb => le_total_of_range (by decide) (hrange a ha) (hrange b hb)
    · intro a ha b hb c hc
      exact le_trans_of_range (by decide) (hrange a ha) (hrange b hb) (hrange c hc)
  · rw [hrows]
    exact fun row hrow => hrange row (hperm.mem_iff.mp hrow)
  · rw [hrows, hoverall]
    intro hrows
    obtain ⟨s, hs, hle⟩ := exists_le_all (hne hrows) (targetSeconds_le h) hlt
    obtain ⟨t, ht, rfl⟩ := List.mem_map.mp hs
    exact ⟨targetRow buckets win t, hperm.mem_iff.mpr (List.mem_map_of_mem ht), hle⟩
  · rw [hrows, hoverall]
    intro hrows
    obtain ⟨s, hs, hle⟩ := exists_all_le (hne hrows) (targetSeconds_le h) hlt
    obtain ⟨t, ht, rfl⟩ := List.mem_map.mp hs
    exact ⟨targetRow buckets win t, hperm.mem_iff.mpr (List.mem_map_of_mem ht), hle⟩
  · rw [htrend, List.pairwise_map]
    exact Tally.pairwise_sorted (Tally.nodup_tally _)
  · intro date
    rw [htrend, List.map_map]
    have hkeys : date ∈ (Tally.sorted (byDay (targets.flatMap (targetBuckets buckets win)))).map
        Prod.fst ↔ date ∈ (byDay (targets.flatMap (targetBuckets buckets win))).map Prod.fst :=
      ((Tally.perm_sorted _).map Prod.fst).mem_iff
    refine hkeys.trans (Tally.mem_keys_tally.trans ?_)
    simp only [List.mem_flatMap]
    constructor
    · rintro ⟨b, ⟨t, ht, hb⟩, hday⟩
      exact ⟨t, ht, b, hb, hday⟩
    · rintro ⟨t, ht, b, hb, hday⟩
      exact ⟨b, ⟨t, ht, hb⟩, hday⟩
  · intro d hd
    rw [htrend] at hd
    obtain ⟨⟨date, s⟩, he, rfl⟩ := List.mem_map.mp hd
    obtain ⟨⟨b, hb, hday⟩, rfl⟩ := mem_byDay.mp ((Tally.perm_sorted _).mem_iff.mp he)
    have hcounted := day_counted h hlt (fun b => decide (bucketDay b = date))
    have hpos : 0 < (sumSeconds ((targets.flatMap (targetBuckets buckets win)).filter
        (fun b => decide (bucketDay b = date)))).total := by
      apply sumSeconds_pos
      · intro b hb
        obtain ⟨t, -, ht⟩ := List.mem_flatMap.mp (List.mem_filter.mp hb).1
        exact charged_targetBuckets h win t b ht
      · exact List.ne_nil_of_mem (List.mem_filter.mpr ⟨hb, decide_eq_true hday⟩)
    exact ⟨_, if_pos hpos, percent_range hcounted hpos scales_trend⟩

end

/-- **The uptime report.**  Whatever calls have run, however they were interleaved, and whatever
    the monitors and the window are: every percentage is from 0 to 100, the rows are those of the
    targets with the worst first, the overall percentage lies among theirs, and the trend has the
    days on which a bucket begins, in order. -/
theorem uptime_report_sound {calls : ℕ → Call} {ls : List ℕ} {w : World}
    (hrun : (interleaving calls).exec .initial ls = some w) (win : TimeWindow)
    (monitors : List MonitorRow) (scope : ReportScope)
    (hlt : (allSeconds w.db.uptimeBuckets win (resolveTargets monitors scope)).total < 2 ^ 53) :
    Sound w.db.uptimeBuckets win (resolveTargets monitors scope)
      (buildUptimeData w.db.uptimeBuckets win monitors scope) :=
  sound_of_charged (recorded_run hrun) monitors scope hlt

namespace Sample

/-- Two pushes of one unit, a minute apart. -/
def pushes (i : ℕ) : Call :=
  { sourceId := "agent-1", units := [{ entity := "svcA", status := .up }], now := i * 60000 }

def monitors : List MonitorRow := [⟨"m-1", "agent-1", "service", "svcA"⟩]

/-- One after the other, until there is nothing left to do. -/
def turns : List ℕ := [0, 0, 0, 0, 0, 1, 1, 1]

theorem buckets_turns :
    ((interleaving pushes).exec .initial turns).map (fun w => w.db.uptimeBuckets)
      = some [⟨"agent-1", "svcA", 0, 60, 60⟩] := rfl

end Sample

/-- A minute of two samples, in the report of that day. -/
theorem uptime_report_sound_minute :
    ∃ w, (interleaving Sample.pushes).exec .initial Sample.turns = some w ∧
      Sound w.db.uptimeBuckets ⟨0, 86400000000⟩
        (resolveTargets Sample.monitors ⟨.agent, some "agent-1"⟩)
        (buildUptimeData w.db.uptimeBuckets ⟨0, 86400000000⟩ Sample.monitors
          ⟨.agent, some "agent-1"⟩) := by
  obtain ⟨w, hrun, hbuckets⟩ := Option.map_eq_some_iff.mp Sample.buckets_turns
  refine ⟨w, hrun, uptime_report_sound hrun _ _ _ ?_⟩
  rw [hbuckets]
  decide

/-! ### The public page -/

/-- The buckets of an agent, or of one entity of it; an empty name counts as none. -/
def itemBuckets (buckets : List UptimeBucket) (sourceId : String) (entity : Option String) :
    List UptimeBucket :=
  match entity.filter (fun e => e != "") with
  | some e => buckets.filter (fun b => b.sourceId == sourceId && b.entity == e)
  | none => buckets.filter (fun b => b.sourceId == sourceId)

/-- `uptimePctFor`. -/
def uptimePctFor (buckets : List UptimeBucket) (sourceId : String) (entity : Option String) :
    Option JsNumber :=
  let rows := itemBuckets buckets sourceId entity
  let s := sumSeconds rows
  if rows = [] ∨ s.total = 0 then none else some (percent [100, 100] 100 s)

/-- `startDay`, as a number of days. -/
def startDay (days now : ℕ) : ℤ := ((now : ℤ) - (days - 1) * 86400000) / 86400000

/-- `uptimeHistoryFor`. -/
def uptimeHistoryFor (buckets : List UptimeBucket) (sourceId : String) (entity : Option String)
    (days now : ℕ) : List (Option JsNumber) :=
  let start := startDay days now
  let rows := (itemBuckets buckets sourceId entity).filter
    (fun b => decide (start * 86400000 ≤ b.bucketStart))
  (List.range days).map fun (i : ℕ) => ((byDay rows).lookup (dayText (start + i))).bind historyPct

/-- The buckets of one day. -/
def onDay (bs : List UptimeBucket) (day : ℤ) : List UptimeBucket :=
  bs.filter (fun b => decide (((b.bucketStart / 86400000 : ℕ) : ℤ) = day))

theorem charged_itemBuckets {buckets : List UptimeBucket} (h : ∀ b ∈ buckets, Charged b)
    (sourceId : String) (entity : Option String) :
    ∀ b ∈ itemBuckets buckets sourceId entity, Charged b := by
  intro b hb
  unfold itemBuckets at hb
  split at hb
  · exact h b (List.mem_filter.mp hb).1
  · exact h b (List.mem_filter.mp hb).1

section

variable {buckets : List UptimeBucket} {sourceId : String} {entity : Option String} {days now : ℕ}

/-- An entry, from the buckets of its day alone. -/
theorem entry_eq (hstart : 0 ≤ startDay days now)
    (hend : startDay days now + days ≤ Calendar.endOfDays)
    (hdays : ∀ b ∈ buckets, ((b.bucketStart / 86400000 : ℕ) : ℤ) < Calendar.endOfDays)
    {i : ℕ} (hi : i < days) :
    (uptimeHistoryFor buckets sourceId entity days now)[i]?
      = some (historyPct
          (sumSeconds (onDay (itemBuckets buckets sourceId entity) (startDay days now + i)))) := by
  have hitems : ∀ b ∈ itemBuckets buckets sourceId entity, b ∈ buckets := by
    intro b hb
    unfold itemBuckets at hb
    split at hb
    · exact (List.mem_filter.mp hb).1
    · exact (List.mem_filter.mp hb).1
  rw [uptimeHistoryFor, List.getElem?_map, List.getElem?_range hi]
  generalize hrows : (itemBuckets buckets sourceId entity).filter
    (fun b => decide (startDay days now * 86400000 ≤ b.bucketStart)) = rows
  -- a bucket of the day begins in the window, and its text is the text of the day
  have hfilter : rows.filter (fun b => decide (bucketDay b = dayText (startDay days now + i)))
      = onDay (itemBuckets buckets sourceId entity) (startDay days now + i) := by
    rw [← hrows, List.filter_filter, onDay]
    apply List.filter_congr
    intro b hb
    have hb' := hdays b (hitems b hb)
    rw [Bool.eq_iff_iff, Bool.and_eq_true, decide_eq_true_iff, decide_eq_true_iff,
      decide_eq_true_iff, bucketDay, Calendar.dayText_inj (by omega) hb' (by omega) (by omega)]
    omega
  have hexists : (∃ b ∈ rows, bucketDay b = dayText (startDay days now + i)) ↔
      onDay (itemBuckets buckets sourceId entity) (startDay days now + i) ≠ [] := by
    rw [← hfilter, ne_eq, List.filter_eq_nil_iff]
    simp
  rw [Option.map_some, byDay, Tally.lookup_tally, hfilter]
  by_cases hne : onDay (itemBuckets buckets sourceId entity) (startDay days now + i) = []
  · rw [if_neg (by rw [hexists]; exact not_not.mpr hne), hne]
    rfl
  · rw [if_pos (hexists.mpr hne)]
    rfl

end

end Argus.Reports
