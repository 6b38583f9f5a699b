import Argus.Pipeline.Sweeps
import Argus.Reports.Uptime

namespace Argus.Reports

open Pipeline
open Pipeline.Sweeps (cutoff MS_PER_DAY)

/-!
# Reports on data that is kept

Sweeps delete uptime buckets while calls of the pipeline charge them, and the report of the last
days is made of what is left.

* `swept` — the calls of the pipeline with sweeps between their statements.
* `Agrees` — a database and the one without sweeps have the same buckets from some time on.
* `retained_report` — a report on no more days than the buckets are kept for is the report that
  would have been made without any sweep.
-/

/-- `resolveWindow` of a number of days, at a time in milliseconds. -/
def rollingWindow (now days : ℤ) : TimeWindow :=
  ⟨1000 * (now - days * MS_PER_DAY), 1000 * now⟩

/-! ### Sweeps between the statements of calls -/

inductive Event
  /-- The next statement of a call. -/
  | turn (i : ℕ)
  /-- The statement of a sweep that deletes uptime buckets. -/
  | prune (now days : ℤ)
  /-- What others, such as the rest of the sweep, leave of the tables that no call reads. -/
  | others (statusEvents : List StatusEvent) (logs : List LogLine)
      (notifications : List Notification)

/-- `pruneOlderThan` of the uptime buckets. -/
def pruneBuckets (now days : ℤ) (db : TelemetryDb) : TelemetryDb :=
  if days ≤ 0 then db
  else
    match cutoff now days with
    | none => db
    | some c =>
      { db with uptimeBuckets := db.uptimeBuckets.filter (fun b => decide (c ≤ b.bucketStart)) }

def swept (calls : ℕ → Call) : Machine World Event where
  step w
    | .turn i => (interleaving calls).step w i
    | .prune now days => some { w with db := pruneBuckets now days w.db }
    | .others statusEvents logs notifications =>
      some { w with db := { w.db with statusEvents, logs, notifications } }

/-- The calls that moved. -/
def turns (ls : List Event) : List ℕ :=
  ls.filterMap fun l => match l with
    | .turn i => some i
    | _ => none

/-! ### The same buckets from some time on -/

/-- The buckets that begin at a time or later. -/
def since (c : ℤ) (bs : List UptimeBucket) : List UptimeBucket :=
  bs.filter (fun b => decide (c ≤ b.bucketStart))

/-- The calls stand at the same places, what they read is the same, and so are the buckets from
    `c` on. -/
structure Agrees (c : ℤ) (w v : World) : Prop where
  pcs : w.pcs = v.pcs
  units : w.db.unitStates = v.db.unitStates
  buckets : since c w.db.uptimeBuckets = since c v.db.uptimeBuckets

theorem since_upsert (c : ℤ) (new : UptimeBucket) (bs : List UptimeBucket) :
    since c (Table.upsert UptimeBucket.key new new.add bs)
      = if c ≤ new.bucketStart then Table.upsert UptimeBucket.key new new.add (since c bs)
        else since c bs := by
  have hadd : ∀ b : UptimeBucket,
      decide (c ≤ (new.add b).bucketStart) = decide (c ≤ b.bucketStart) :=
    fun _ => rfl
  have hkey : ∀ b : UptimeBucket, b.key = new.key → b.bucketStart = new.bucketStart := by
    intro b hb
    exact (Prod.mk.inj (Prod.mk.inj hb).2).2
  split
  · rename_i hc
    exact Table.filter_upsert_of_pos hadd
      (fun b hb => by rw [hkey b hb]; exact decide_eq_true hc) bs
  · rename_i hc
    exact Table.filter_upsert_of_neg hadd
      (fun b hb => by rw [hkey b hb]; exact decide_eq_false hc) bs

/-- A statement does the same to what agrees. -/
theorem Agrees.exec {c : ℤ} {w v : World} (h : Agrees c w v) (stmt : Stmt) :
    (stmt.exec w.db).unitStates = (stmt.exec v.db).unitStates ∧
      since c (stmt.exec w.db).uptimeBuckets = since c (stmt.exec v.db).uptimeBuckets := by
  cases stmt with
  | insertEvents rows => exact ⟨h.units, h.buckets⟩
  | insertLogs rows => exact ⟨h.units, h.buckets⟩
  | insertNotifications rows => exact ⟨h.units, h.buckets⟩
  | upsertUnit row =>
    refine ⟨?_, h.buckets⟩
    show Table.upsert UnitState.key row row.refresh w.db.unitStates = _
    rw [h.units]
    rfl
  | addUptime bucket =>
    refine ⟨h.units, ?_⟩
    show since c (Table.upsert UptimeBucket.key bucket bucket.add w.db.uptimeBuckets)
      = since c (Table.upsert UptimeBucket.key bucket bucket.add v.db.uptimeBuckets)
    rw [since_upsert, since_upsert, h.buckets]

/-- A call moves in the same way. -/
theorem Agrees.turn {calls : ℕ → Call} {c : ℤ} {w v w' : World} (h : Agrees c w v) {i : ℕ}
    (hstep : (interleaving calls).step w i = some w') :
    ∃ v', (interleaving calls).step v i = some v' ∧ Agrees c w' v' := by
  obtain ⟨⟨db, pc⟩, hcall, rfl⟩ := Option.map_eq_some_iff.mp hstep
  have hv : (interleaving calls).step v i = ((calls i).step v.db (w.pcs i)).map
      (fun r => { db := r.1, pcs := Function.update v.pcs i r.2 }) := by
    rw [h.pcs]
    rfl
  rw [hv]
  cases hpc : w.pcs i with
  | start =>
    rw [hpc] at hcall
    obtain ⟨rfl, rfl⟩ := Prod.mk.inj (Option.some.inj hcall)
    refine ⟨_, rfl, ?_, h.units, h.buckets⟩
    -- what the call will send depends on the rows of its source
    have hpending : (calls i).pending w.db = (calls i).pending v.db := by
      unfold Call.pending TelemetryDb.selectUnits
      rw [h.units]
    show Function.update w.pcs i (.writing ((calls i).pending w.db)) = _
    rw [hpending, h.pcs]
  | writing todo =>
    rw [hpc] at hcall
    cases todo with
    | nil => exact absurd hcall.symm (Option.some_ne_none _)
    | cons stmt todo =>
      obtain ⟨rfl, rfl⟩ := Prod.mk.inj (Option.some.inj hcall)
      obtain ⟨hunits, hbuckets⟩ := h.exec stmt
      refine ⟨_, rfl, ?_, hunits, hbuckets⟩
      show Function.update w.pcs i (.writing todo) = _
      rw [h.pcs]

/-- A sweep that keeps what begins at `c` or later does not show from there on. -/
theorem since_prune {c now days : ℤ} (h : now - days * MS_PER_DAY ≤ c) (db : TelemetryDb) :
    since c (pruneBuckets now days db).uptimeBuckets = since c db.uptimeBuckets := by
  unfold pruneBuckets
  split
  · rfl
  · split
    · rfl
    · rename_i c' hc'
      have hle : c' ≤ c := by
        unfold cutoff at hc'
        split at hc'
        · obtain rfl := Option.some.inj hc'
          exact h
        · cases hc'
      show (List.filter _ db.uptimeBuckets).filter _ = _
      rw [List.filter_filter]
      apply List.filter_congr
      intro b _
      rw [Bool.eq_iff_iff, Bool.and_eq_true, decide_eq_true_iff, decide_eq_true_iff]
      exact ⟨fun hb => hb.1, fun hb => ⟨hb, hle.trans hb⟩⟩

theorem Agrees.prune {c now days : ℤ} {w v : World} (h : Agrees c w v)
    (hle : now - days * MS_PER_DAY ≤ c) :
    Agrees c { w with db := pruneBuckets now days w.db } v := by
  refine ⟨h.pcs, ?_, ?_⟩
  · show (pruneBuckets now days w.db).unitStates = _
    rw [← h.units]
    unfold pruneBuckets
    split
    · rfl
    · split <;> rfl
  · show since c (pruneBuckets now days w.db).uptimeBuckets = _
    rw [since_prune hle, h.buckets]

/-- **Simulation.**  Without the sweeps the calls run in the same way, and their buckets agree
    from `c` on if every sweep keeps those. -/
theorem agrees_run {calls : ℕ → Call} {c : ℤ} {ls : List Event} {w v w' : World}
    (h : Agrees c w v)
    (hkeep : ∀ now days, .prune now days ∈ ls → now - days * MS_PER_DAY ≤ c)
    (hrun : (swept calls).exec w ls = some w') :
    ∃ v', (interleaving calls).exec v (turns ls) = some v' ∧ Agrees c w' v' := by
  induction ls generalizing w v with
  | nil =>
    obtain rfl : w = w' := by simpa using hrun
    exact ⟨v, rfl, h⟩
  | cons l ls ih =>
    obtain ⟨u, hu, hrest⟩ := (swept calls).exec_cons_eq_some.mp hrun
    have hkeep' : ∀ now days, Event.prune now days ∈ ls → now - days * MS_PER_DAY ≤ c :=
      fun now days hmem => hkeep now days (List.mem_cons_of_mem _ hmem)
    cases l with
    | turn i =>
      obtain ⟨v', hv', hagrees⟩ := h.turn (show (interleaving calls).step w i = some u from hu)
      obtain ⟨v'', hv'', hend⟩ := ih hagrees hkeep' hrest
      refine ⟨v'', ?_, hend⟩
      show (interleaving calls).exec v (i :: turns ls) = _
      exact (interleaving calls).exec_cons_eq_some.mpr ⟨v', hv', hv''⟩
    | prune now days =>
      obtain rfl := Option.some.inj hu
      exact ih (h.prune (hkeep now days List.mem_cons_self)) hkeep' hrest
    | others statusEvents logs notifications =>
      obtain rfl := Option.some.inj hu
      exact ih (w := { w with db := { w.db with statusEvents, logs, notifications } })
        ⟨h.pcs, h.units, h.buckets⟩ hkeep' hrest

/-! ### The report -/

/-- A window that begins at `c` or later sees nothing of the buckets before. -/
theorem targetBuckets_since {c : ℤ} {win : TimeWindow} (hwin : 1000 * c ≤ win.fromTime)
    (bs : List UptimeBucket) (t : Target) :
    targetBuckets bs win t = targetBuckets (since c bs) win t := by
  unfold targetBuckets since
  rw [List.filter_filter]
  apply List.filter_congr
  intro b _
  rw [Bool.eq_iff_iff]
  simp only [Bool.and_eq_true, decide_eq_true_eq, beq_iff_eq]
  constructor
  · rintro ⟨⟨hown, hfrom⟩, huntil⟩
    exact ⟨⟨⟨hown, hfrom⟩, huntil⟩, by omega⟩
  · exact fun h => h.1

theorem buildUptimeData_since {c : ℤ} {win : TimeWindow} (hwin : 1000 * c ≤ win.fromTime)
    {bs bs' : List UptimeBucket} (h : since c bs = since c bs') (monitors : List MonitorRow)
    (scope : ReportScope) :
    buildUptimeData bs win monitors scope = buildUptimeData bs' win monitors scope := by
  have hbuckets : targetBuckets bs win = targetBuckets bs' win := by
    funext t
    rw [targetBuckets_since hwin bs, targetBuckets_since hwin bs', h]
  have hseconds : targetSeconds bs win = targetSeconds bs' win := by
    funext t
    rw [targetSeconds, targetSeconds, hbuckets]
  have hrow : targetRow bs win = targetRow bs' win := by
    funext t
    rw [targetRow, targetRow, hseconds]
  rw [buildUptimeData, buildUptimeData, allSeconds, allSeconds, hbuckets, hseconds, hrow]

/-- **Reports on what is kept.**  Let calls run in any interleaving, with sweeps between any of
    their statements, each keeping the uptime buckets for `days` days or more.  The report on the
    last `days` days is then the one that would have been made if there had been no sweep. -/
theorem retained_report {calls : ℕ → Call} {ls : List Event} {w : World} {now days : ℤ}
    (hrun : (swept calls).exec .initial ls = some w)
    (hkeep : ∀ sweptAt kept, .prune sweptAt kept ∈ ls → sweptAt ≤ now ∧ days ≤ kept)
    (monitors : List MonitorRow) (scope : ReportScope) :
    ∃ v, (interleaving calls).exec .initial (turns ls) = some v ∧
      buildUptimeData w.db.uptimeBuckets (rollingWindow now days) monitors scope
        = buildUptimeData v.db.uptimeBuckets (rollingWindow now days) monitors scope := by
  have hcutoff : ∀ sweptAt kept, Event.prune sweptAt kept ∈ ls →
      sweptAt - kept * MS_PER_DAY ≤ now - days * MS_PER_DAY := by
    intro sweptAt kept hmem
    obtain ⟨hbefore, hdays⟩ := hkeep sweptAt kept hmem
    have hms : MS_PER_DAY = 86400000 := rfl
    rw [hms]
    omega
  obtain ⟨v, hv, hagrees⟩ := agrees_run ⟨rfl, rfl, rfl⟩ hcutoff hrun
  exact ⟨v, hv, buildUptimeData_since le_rfl hagrees.buckets monitors scope⟩

/-- A day of retention and the report on that day, which has lost the minute a week before. -/
theorem retained_report_week :
    ∃ w v, (swept Sample.pushes).exec .initial
          (Sample.turns.map .turn ++ [.prune 604800000 1]) = some w ∧
        (interleaving Sample.pushes).exec .initial Sample.turns = some v ∧
        w.db.uptimeBuckets = [] ∧
        buildUptimeData w.db.uptimeBuckets (rollingWindow 604800000 1) Sample.monitors ⟨.all, none⟩
          = buildUptimeData v.db.uptimeBuckets (rollingWindow 604800000 1) Sample.monitors
              ⟨.all, none⟩ := by
  obtain ⟨w, hrun, hbuckets⟩ := Option.map_eq_some_iff.mp (show
    ((swept Sample.pushes).exec .initial (Sample.turns.map .turn ++ [.prune 604800000 1])).map
      (fun w => w.db.uptimeBuckets) = some [] by decide +kernel)
  have hkeep : ∀ sweptAt kept,
      Event.prune sweptAt kept ∈ Sample.turns.map Event.turn ++ [.prune 604800000 1] →
        sweptAt ≤ 604800000 ∧ 1 ≤ kept := by
    intro sweptAt kept hmem
    simp only [Sample.turns, List.map_cons, List.map_nil, List.cons_append, List.nil_append,
      List.mem_cons, reduceCtorEq, Event.prune.injEq, false_or, List.not_mem_nil, or_false] at hmem
    omega
  obtain ⟨v, hv, hreport⟩ := retained_report hrun hkeep Sample.monitors ⟨.all, none⟩
  exact ⟨w, v, hrun, hv, hbuckets, hreport⟩

end Argus.Reports
