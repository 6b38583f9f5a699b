import Argus.Pipeline.Effects
import Mathlib.Data.Nat.Basic

namespace Argus.Pipeline

/-!
# Uptime accounting

Every sample of an entity charges the whole seconds since its previous sample, at most an
hour of them, to the bucket of the clock hour in which the previous sample was taken.

* `TelemetryDb.buckets` — the buckets of an entity; `buckets_processUnits` — a call charges one
  interval for each of its samples of the entity.
* `sampleTimes` — the instants of the calls that report the entity.
* `Chargeable` — the condition on a call: it reports the entity once where a second or more
  has passed, and an interval that starts in an hour with an earlier sample ends within an
  hour of that sample.
* `Metered` — the invariant: the open hour holds no more than the time since its first sample,
  and all hours together no more than the time since the first sample of all.
* `uptime_conservative` — the bounds on every bucket and on their sum, over every sequence of
  calls that meets the condition.
-/

open ChangeLog

/-! ### The buckets of an entity -/

/-- The buckets of an entity. -/
def TelemetryDb.buckets (db : TelemetryDb) (sourceId e : String) : List UptimeBucket :=
  db.uptimeBuckets.filter (fun b => decide (b.sourceId = sourceId ∧ b.entity = e))

/-- The interval of an entity that a statement charges. -/
def Stmt.intervalOf (sourceId e : String) : Stmt → List UptimeBucket
  | .addUptime bucket => if bucket.sourceId = sourceId ∧ bucket.entity = e then [bucket] else []
  | _ => []

/-- The intervals that a list of statements charges. -/
def intervals (sourceId e : String) (stmts : List Stmt) : List UptimeBucket :=
  stmts.flatMap (Stmt.intervalOf sourceId e)

/-- The buckets after a list of intervals has been charged. -/
def charge (rows : List UptimeBucket) (bs : List UptimeBucket) : List UptimeBucket :=
  bs.foldl (fun rows b => Table.upsert UptimeBucket.key b b.add rows) rows

section Statements

variable (sourceId e : String)

theorem intervals_append (a b : List Stmt) :
    intervals sourceId e (a ++ b) = intervals sourceId e a ++ intervals sourceId e b :=
  List.flatMap_append

/-- A statement charges its interval. -/
theorem buckets_exec (db : TelemetryDb) (stmt : Stmt) :
    (stmt.exec db).buckets sourceId e
      = charge (db.buckets sourceId e) (stmt.intervalOf sourceId e) := by
  cases stmt with
  | insertEvents rows => rfl
  | insertLogs rows => rfl
  | insertNotifications rows => rfl
  | upsertUnit row => rfl
  | addUptime bucket =>
    -- a conflicting row has the source and the entity of the new one, so both are selected
    have hsame : ∀ r : UptimeBucket, r.key = bucket.key →
        r.sourceId = bucket.sourceId ∧ r.entity = bucket.entity := by
      intro r hr
      obtain ⟨hsrc, hrest⟩ := Prod.mk.inj hr
      exact ⟨hsrc, (Prod.mk.inj hrest).1⟩
    have hadd : ∀ r : UptimeBucket,
        decide ((bucket.add r).sourceId = sourceId ∧ (bucket.add r).entity = e)
          = decide (r.sourceId = sourceId ∧ r.entity = e) := fun _ => rfl
    unfold TelemetryDb.buckets Stmt.intervalOf Stmt.exec
    dsimp only
    by_cases hown : bucket.sourceId = sourceId ∧ bucket.entity = e
    · rw [if_pos hown, Table.filter_upsert_of_pos hadd]
      · rfl
      · intro r hr
        rw [decide_eq_true_iff, (hsame r hr).1, (hsame r hr).2]
        exact hown
    · rw [if_neg hown, Table.filter_upsert_of_neg hadd]
      · rfl
      · intro r hr
        rw [decide_eq_false_iff_not, (hsame r hr).1, (hsame r hr).2]
        exact hown

theorem buckets_execAll (db : TelemetryDb) (stmts : List Stmt) :
    (execAll db stmts).buckets sourceId e
      = charge (db.buckets sourceId e) (intervals sourceId e stmts) := by
  induction stmts generalizing db with
  | nil => rfl
  | cons stmt stmts ih =>
    have hcons : intervals sourceId e (stmt :: stmts)
        = stmt.intervalOf sourceId e ++ intervals sourceId e stmts := rfl
    show (execAll (stmt.exec db) stmts).buckets sourceId e = _
    rw [ih, buckets_exec, hcons, charge, charge, charge, List.foldl_append]

end Statements

/-! ### What one call charges -/

/-- The interval since the previous sample. -/
def Call.interval (c : Call) (e : String) (p : UnitState) : UptimeBucket where
  sourceId := c.sourceId
  entity := e
  bucketStart := hourBucket p.updatedAt
  upSec := if p.status = .up then deltaSec c.now p.updatedAt else 0
  totalSec := deltaSec c.now p.updatedAt

/-- What one sample of the entity charges: nothing without a previous sample or a whole
    second since then. -/
def Call.charges (c : Call) (e : String) : Option UnitState → List UptimeBucket
  | none => []
  | some p => if deltaSec c.now p.updatedAt = 0 then [] else [c.interval e p]

/-- The uptime write of one unit, as what it charges to the entity. -/
theorem intervalOf_uptimeWrite (sourceId e : String) (c : Call) (prevRows : List UnitState)
    (u : UnitSample) :
    (c.uptimeWrite prevRows u).toList.flatMap (Stmt.intervalOf sourceId e)
      = if c.sourceId = sourceId ∧ u.entity = e then c.charges e (prevOf prevRows e) else [] := by
  unfold Call.uptimeWrite
  cases hprev : prevOf prevRows u.entity with
  | none =>
    by_cases hown : c.sourceId = sourceId ∧ u.entity = e
    · rw [if_pos hown, ← hown.2, hprev]
      rfl
    · rw [if_neg hown]
      rfl
  | some p =>
    by_cases hown : c.sourceId = sourceId ∧ u.entity = e
    · rw [if_pos hown, ← hown.2, hprev]
      by_cases hzero : deltaSec c.now p.updatedAt = 0
      · simp [Call.charges, hzero]
      · simp [Call.charges, hzero, Stmt.intervalOf, hown.1, Call.interval]
    · rw [if_neg hown]
      by_cases hzero : deltaSec c.now p.updatedAt = 0
      · simp [hzero]
      · simpa [hzero, Stmt.intervalOf] using hown

/-- The uptime writes charge one interval for each sample of the entity. -/
theorem intervals_uptimeWrites (sourceId e : String) (c : Call) (prevRows : List UnitState) :
    intervals sourceId e (c.uptimeWrites prevRows)
      = (c.samplesOf sourceId e).flatMap (fun _ => c.charges e (prevOf prevRows e)) := by
  unfold Call.samplesOf Call.uptimeWrites
  induction c.units with
  | nil => split <;> rfl
  | cons u units ih =>
    have hcons : intervals sourceId e ((u :: units).filterMap (c.uptimeWrite prevRows))
        = ((c.uptimeWrite prevRows u).toList.flatMap (Stmt.intervalOf sourceId e))
          ++ intervals sourceId e (units.filterMap (c.uptimeWrite prevRows)) := by
      cases hu : c.uptimeWrite prevRows u with
      | none => rw [List.filterMap_cons_none hu]; rfl
      | some stmt => rw [List.filterMap_cons_some hu]; simp [intervals]
    rw [hcons, ih, intervalOf_uptimeWrite]
    by_cases hsrc : c.sourceId = sourceId <;> by_cases hent : u.entity = e <;>
      simp [hsrc, hent]

/-- Of the statements of a call only the uptime writes charge anything. -/
theorem intervals_writes (sourceId e : String) (c : Call) (prevRows : List UnitState) :
    intervals sourceId e (c.writes prevRows)
      = (c.samplesOf sourceId e).flatMap (fun _ => c.charges e (prevOf prevRows e)) := by
  have hinserts : intervals sourceId e (c.inserts prevRows) = [] := by
    refine List.flatMap_eq_nil_iff.mpr (fun stmt hstmt => ?_)
    obtain ⟨rows, rfl⟩ | ⟨rows, rfl⟩ | ⟨rows, rfl⟩ := Call.mem_inserts hstmt <;> rfl
  have hunits : intervals sourceId e c.baselineWrites = [] := by
    refine List.flatMap_eq_nil_iff.mpr (fun stmt hstmt => ?_)
    obtain ⟨u, -, rfl⟩ := Call.mem_baselineWrites hstmt
    rfl
  rw [Call.writes, intervals_append, intervals_append, hinserts, hunits, List.nil_append,
    List.append_nil, intervals_uptimeWrites]

/-- **Call lemma, buckets.** A call charges one interval for each of its samples of the entity,
    all of them measured from the stored row. -/
theorem buckets_processUnits {db : TelemetryDb} (h : db.WF) (sourceId e : String) (c : Call) :
    (processUnits db c).buckets sourceId e
      = charge (db.buckets sourceId e)
          ((c.samplesOf sourceId e).flatMap (fun _ => c.charges e (db.unit sourceId e))) := by
  rw [processUnits_eq, buckets_execAll]
  unfold Call.pending
  by_cases hnil : c.units = []
  · rw [if_pos hnil, Call.samplesOf, hnil]
    split <;> rfl
  · rw [if_neg hnil, intervals_writes]
    by_cases hsrc : c.sourceId = sourceId
    · rw [hsrc, h.prevOf_selectUnits]
    · rw [Call.samplesOf, if_neg hsrc]
      rfl

/-- **Call lemma, instant.** A call that brings a sample of the entity stamps its row. -/
theorem updatedAt_processUnits (sourceId e : String) (db : TelemetryDb) (c : Call) :
    ((processUnits db c).unit sourceId e).map UnitState.updatedAt
      = latest ((db.unit sourceId e).map UnitState.updatedAt)
          ((c.samplesOf sourceId e).map (fun _ => c.now)) := by
  rw [processUnits_eq, column_execAll sourceId e (fun _ _ => rfl), columns_pending]
  rfl

/-! ### The meter of one entity -/

/-- The sum of the total seconds of a list of buckets. -/
def totalSeconds (bs : List UptimeBucket) : ℕ := (bs.map UptimeBucket.totalSec).sum

/-- **Invariant.** The buckets of an entity sampled at `times`, last at `p`, with all intervals
    up to `t` charged: the open hour holds at most the time since a sample in it, and all
    buckets together at most the time since the first sample. -/
structure Metered (times : List ℕ) (bs : List UptimeBucket) (p t : ℕ) : Prop where
  cap : ∀ b ∈ bs, b.upSec ≤ b.totalSec ∧ b.totalSec ≤ 3600
  past : ∀ b ∈ bs, b.bucketStart ≤ hourBucket p
  hour : ∃ a ∈ times, hourBucket a = hourBucket p ∧ a ≤ p ∧
    ∀ b ∈ bs, b.bucketStart = hourBucket p → 1000 * b.totalSec + a ≤ t
  sum : ∀ f, times.head? = some f → 1000 * totalSeconds bs + f ≤ t

theorem hourBucket_mono {p t : ℕ} (h : p ≤ t) : hourBucket p ≤ hourBucket t :=
  Nat.mul_le_mul_right _ (Nat.div_le_div_right h)

/-- The whole seconds of an interval fit into it, and into an hour. -/
theorem deltaSec_spec {p t : ℕ} (h : p ≤ t) :
    1000 * deltaSec t p + p ≤ t ∧ deltaSec t p ≤ 3600 := by
  have hle : deltaSec t p ≤ (t - p) / 1000 := Nat.min_le_right _ _
  have hcap : deltaSec t p ≤ 3600 := Nat.min_le_left _ _
  omega

/-- Nothing is charged exactly when less than a second has passed. -/
theorem deltaSec_eq_zero {p t : ℕ} : deltaSec t p = 0 ↔ t < p + 1000 := by
  unfold deltaSec maxIntervalSec
  omega

/-- The first sample. -/
theorem Metered.first (t : ℕ) : Metered [t] [] t t where
  cap := fun b hb => absurd hb List.not_mem_nil
  past := fun b hb => absurd hb List.not_mem_nil
  hour := ⟨t, List.mem_singleton_self t, rfl, le_rfl, fun b hb => absurd hb List.not_mem_nil⟩
  sum := by
    intro f hf
    obtain rfl := Option.some.inj hf
    simp [totalSeconds]

section Step

variable {times : List ℕ} {bs : List UptimeBucket} {p t : ℕ}

/-- Time passes uncharged. -/
theorem Metered.wait (h : Metered times bs p p) (hpt : p ≤ t) : Metered times bs p t where
  cap := h.cap
  past := h.past
  hour := by
    obtain ⟨a, ha, hhour, hap, hopen⟩ := h.hour
    exact ⟨a, ha, hhour, hap, fun b hb hstart => (hopen b hb hstart).trans hpt⟩
  sum := fun f hf => (h.sum f hf).trans hpt

/-- **Charge lemma.** The interval from `p` to `t` is charged to the hour of `p`.  It fits when
    that hour has no sample a second or more before `p`, or when `t` is within an hour of
    every such sample. -/
theorem Metered.charge (h : Metered times bs p p) {new : UptimeBucket}
    (hkeys : (bs.map UptimeBucket.key).Nodup)
    (hsame : ∀ b ∈ bs, b.sourceId = new.sourceId ∧ b.entity = new.entity)
    (hstart : new.bucketStart = hourBucket p) (hup : new.upSec ≤ new.totalSec)
    (htotal : 1000 * new.totalSec + p ≤ t) (hcap : new.totalSec ≤ 3600)
    (hspaced : ∀ a ∈ times, hourBucket a = hourBucket p → a + 1000 ≤ p → t < a + 3601000) :
    Metered times (Table.upsert UptimeBucket.key new new.add bs) p t := by
  obtain ⟨a, ha, hhour, hap, hopen⟩ := h.hour
  have hspace := hspaced a ha hhour
  -- with the same key, a bucket is the one of the open hour
  have hmerge : ∀ old ∈ bs, old.key = new.key → 1000 * old.totalSec + a ≤ p := by
    intro old hold hkey
    have hbs : old.bucketStart = new.bucketStart := (Prod.mk.inj (Prod.mk.inj hkey).2).2
    exact hopen old hold (hbs.trans hstart)
  refine ⟨fun b hb => ?_, fun b hb => ?_, ⟨a, ha, hhour, hap, fun b hb hbs => ?_⟩, fun f hf => ?_⟩
  · rcases Table.mem_upsert hb with ⟨hold, -⟩ | ⟨old, hold, hkey, rfl⟩ | rfl
    · exact h.cap b hold
    · have hroom := hmerge old hold hkey
      have hcapped := h.cap old hold
      show old.upSec + new.upSec ≤ old.totalSec + new.totalSec ∧
        old.totalSec + new.totalSec ≤ 3600
      -- a bucket with a whole second in it was opened a second before `p`
      by_cases hlate : a + 1000 ≤ p
      · have hend := hspace hlate
        omega
      · omega
    · exact ⟨hup, hcap⟩
  · rcases Table.mem_upsert hb with ⟨hold, -⟩ | ⟨old, hold, hkey, rfl⟩ | rfl
    · exact h.past b hold
    · exact h.past old hold
    · exact hstart.le
  · rcases Table.mem_upsert hb with ⟨hold, hkey⟩ | ⟨old, hold, hkey, rfl⟩ | rfl
    · have hown := hsame b hold
      exact absurd (Prod.ext hown.1 (Prod.ext hown.2 (hbs.trans hstart.symm))) hkey
    · have hroom := hmerge old hold hkey
      show 1000 * (old.totalSec + new.totalSec) + a ≤ t
      omega
    · omega
  · have hsum : totalSeconds (Table.upsert UptimeBucket.key new new.add bs)
        = totalSeconds bs + new.totalSec := Table.sum_upsert (fun _ => rfl) hkeys
    have hbefore := h.sum f hf
    omega

/-- **Sample lemma.** Charged up to `t`, the sample at `t` is the last one; if it opens a new
    hour, no bucket of that hour exists yet. -/
theorem Metered.sample (h : Metered times bs p t) (hpt : p ≤ t) :
    Metered (times ++ [t]) bs t t := by
  have hmono := hourBucket_mono hpt
  obtain ⟨a, ha, hhour, hap, hopen⟩ := h.hour
  refine ⟨h.cap, fun b hb => (h.past b hb).trans hmono, ?_, fun f hf => ?_⟩
  · by_cases hsame : hourBucket t = hourBucket p
    · refine ⟨a, List.mem_append_left _ ha, hhour.trans hsame.symm, hap.trans hpt, ?_⟩
      exact fun b hb hstart => hopen b hb (hstart.trans hsame)
    · refine ⟨t, List.mem_append_right _ (List.mem_singleton_self t), rfl, le_rfl, ?_⟩
      -- buckets start no later than the hour of `p`, which is over
      intro b hb hstart
      have hpast := h.past b hb
      omega
  · have hhead : (times ++ [t]).head? = times.head? := by
      cases times with
      | nil => exact absurd ha List.not_mem_nil
      | cons x xs => rfl
    exact h.sum f (hhead ▸ hf)

end Step

/-! ### Sequences of calls -/

/-- The instants of the calls that bring a sample of the entity. -/
def sampleTimes (sourceId e : String) (calls : List Call) : List ℕ :=
  (calls.filter (fun c => decide (c.samplesOf sourceId e ≠ []))).map Call.now

/-- The time between the first and the last of a list of instants. -/
def elapsed (times : List ℕ) : ℕ := times.getLast?.getD 0 - times.head?.getD 0

/-- **Condition on a call.** Where a second or more has passed since the previous sample of
    the entity, the call has one sample of it at most; and if the hour of the previous sample
    has another sample a second or more before it, the call comes within an hour of that one
    (3600 whole seconds). -/
structure Chargeable (sourceId e : String) (past : List Call) (c : Call) : Prop where
  once : ∀ p, (sampleTimes sourceId e past).getLast? = some p → p + 1000 ≤ c.now →
    (c.samplesOf sourceId e).length ≤ 1
  spaced : c.samplesOf sourceId e ≠ [] → ∀ p, (sampleTimes sourceId e past).getLast? = some p →
    ∀ a ∈ sampleTimes sourceId e past, hourBucket a = hourBucket p → a + 1000 ≤ p →
      c.now < a + 3601000

/-- **Invariant of a run.** The stored row has the instant of the last sample, and the buckets
    are metered up to it. -/
structure Accounted (sourceId e : String) (past : List Call) (db : TelemetryDb) : Prop where
  wf : db.WF
  stamp : (db.unit sourceId e).map UnitState.updatedAt = (sampleTimes sourceId e past).getLast?
  unseen : sampleTimes sourceId e past = [] → db.buckets sourceId e = []
  seen : ∀ p, (sampleTimes sourceId e past).getLast? = some p →
    Metered (sampleTimes sourceId e past) (db.buckets sourceId e) p p

section Run

variable {sourceId e : String} {past : List Call} {c : Call}

theorem sampleTimes_append_of_nil (h : c.samplesOf sourceId e = []) :
    sampleTimes sourceId e (past ++ [c]) = sampleTimes sourceId e past := by
  simp [sampleTimes, h]

theorem sampleTimes_append_of_ne (h : c.samplesOf sourceId e ≠ []) :
    sampleTimes sourceId e (past ++ [c]) = sampleTimes sourceId e past ++ [c.now] := by
  simp [sampleTimes, h]

/-- A call that has a sample of the entity is about its source. -/
theorem Call.sourceId_of_samplesOf (h : c.samplesOf sourceId e ≠ []) : c.sourceId = sourceId := by
  by_contra hne
  exact h (if_neg hne)

/-- A call without a sample of the entity leaves its row and its buckets alone. -/
theorem Accounted.skip {db : TelemetryDb} (h : Accounted sourceId e past db)
    (hnone : c.samplesOf sourceId e = []) :
    Accounted sourceId e (past ++ [c]) (processUnits db c) := by
  have hbuckets : (processUnits db c).buckets sourceId e = db.buckets sourceId e := by
    rw [buckets_processUnits h.wf, hnone]
    rfl
  refine ⟨h.wf.processUnits c, ?_, ?_, ?_⟩
  · rw [updatedAt_processUnits, sampleTimes_append_of_nil hnone, hnone]
    exact h.stamp
  · rw [sampleTimes_append_of_nil hnone, hbuckets]
    exact h.unseen
  · rw [sampleTimes_append_of_nil hnone, hbuckets]
    exact h.seen

/-- The buckets after a call that samples the entity are metered up to the call. -/
theorem Accounted.metered {db : TelemetryDb} (h : Accounted sourceId e past db)
    (hsome : c.samplesOf sourceId e ≠ []) (hle : ∀ d ∈ past, d.now ≤ c.now)
    (hok : Chargeable sourceId e past c) :
    Metered (sampleTimes sourceId e past ++ [c.now]) ((processUnits db c).buckets sourceId e)
      c.now c.now := by
  have hstamp := h.stamp
  rw [buckets_processUnits h.wf]
  cases hunit : db.unit sourceId e with
  | none =>
    -- the first sample: there is nothing to charge
    rw [hunit] at hstamp
    have htimes : sampleTimes sourceId e past = [] := List.getLast?_eq_none_iff.mp hstamp.symm
    have hcharges : (c.samplesOf sourceId e).flatMap (fun _ => c.charges e none) = [] := by
      simp [Call.charges]
    rw [hcharges, h.unseen htimes, htimes]
    exact Metered.first c.now
  | some row =>
    rw [hunit] at hstamp
    have hlast : (sampleTimes sourceId e past).getLast? = some row.updatedAt := hstamp.symm
    have hmet := h.seen _ hlast
    -- the stored instant is that of an earlier call
    have hpt : row.updatedAt ≤ c.now := by
      obtain ⟨d, hd, hnow⟩ := List.mem_map.mp (List.mem_of_getLast? hlast)
      rw [← hnow]
      exact hle d (List.mem_filter.mp hd).1
    by_cases hzero : deltaSec c.now row.updatedAt = 0
    · have hcharges : (c.samplesOf sourceId e).flatMap (fun _ => c.charges e (some row)) = [] := by
        simp [Call.charges, hzero]
      rw [hcharges]
      exact (hmet.wait hpt).sample hpt
    · -- a second or more has passed, so there is one sample and one interval
      have hsecond : row.updatedAt + 1000 ≤ c.now := by
        rw [deltaSec_eq_zero] at hzero
        omega
      obtain ⟨u, hu⟩ : ∃ u, c.samplesOf sourceId e = [u] := by
        have hone := hok.once _ hlast hsecond
        have hpos := List.length_pos_of_ne_nil hsome
        exact List.length_eq_one_iff.mp (by omega)
      have hcharges : (c.samplesOf sourceId e).flatMap (fun _ => c.charges e (some row))
          = [c.interval e row] := by
        simp [hu, Call.charges, hzero]
      have hspec := deltaSec_spec hpt
      rw [hcharges]
      refine (hmet.charge ?_ ?_ rfl ?_ hspec.1 hspec.2 (hok.spaced hsome _ hlast)).sample hpt
      · exact h.wf.buckets.sublist (List.filter_sublist.map _)
      · intro b hb
        have hown := of_decide_eq_true (List.mem_filter.mp hb).2
        exact ⟨hown.1.trans (Call.sourceId_of_samplesOf hsome).symm, hown.2⟩
      · show (if row.status = .up then deltaSec c.now row.updatedAt else 0) ≤ _
        split
        · exact le_rfl
        · exact Nat.zero_le _

/-- **Step lemma.** -/
theorem Accounted.step {db : TelemetryDb} (h : Accounted sourceId e past db)
    (hle : ∀ d ∈ past, d.now ≤ c.now) (hok : Chargeable sourceId e past c) :
    Accounted sourceId e (past ++ [c]) (processUnits db c) := by
  by_cases hnone : c.samplesOf sourceId e = []
  · exact h.skip hnone
  · refine ⟨h.wf.processUnits c, ?_, ?_, ?_⟩
    · rw [updatedAt_processUnits, sampleTimes_append_of_ne hnone, List.getLast?_concat]
      cases hs : c.samplesOf sourceId e with
      | nil => exact absurd hs hnone
      | cons u us =>
        rw [List.map_cons, latest_cons]
        exact latest_of_forall (fun n hn => by simp_all)
    · intro hnil
      rw [sampleTimes_append_of_ne hnone] at hnil
      exact absurd hnil (by simp)
    · intro p hp
      rw [sampleTimes_append_of_ne hnone, List.getLast?_concat] at hp
      obtain rfl := Option.some.inj hp
      rw [sampleTimes_append_of_ne hnone]
      exact h.metered hnone hle hok

theorem Accounted.empty : Accounted sourceId e [] .empty where
  wf := .empty
  stamp := rfl
  unseen := fun _ => rfl
  seen := fun p hp => absurd hp.symm (Option.some_ne_none p)

end Run

/-- **Uptime accounting.** After every sequence of calls with non-decreasing times whose calls
    meet the condition, every bucket of the entity has at most its total as up time and at
    most an hour in total, and the buckets together have at most the time between the first
    and the last sample. -/
theorem uptime_conservative {sourceId e : String} {calls : List Call}
    (hsorted : calls.Pairwise (fun a b => a.now ≤ b.now))
    (hok : ∀ past c rest, calls = past ++ c :: rest → Chargeable sourceId e past c) :
    (∀ b ∈ (calls.foldl processUnits .empty).buckets sourceId e,
        b.upSec ≤ b.totalSec ∧ b.totalSec ≤ 3600) ∧
      1000 * totalSeconds ((calls.foldl processUnits .empty).buckets sourceId e)
        ≤ elapsed (sampleTimes sourceId e calls) := by
  have hinv : Accounted sourceId e calls (calls.foldl processUnits .empty) := by
    refine Machine.inv_of_history (M := feed)
      (G := fun past c => (∀ d ∈ past, d.now ≤ c.now) ∧ Chargeable sourceId e past c)
      ?_ Accounted.empty ?_ (feed_exec .empty calls)
    · intro past db c db' hdb hG hstep
      obtain rfl := Option.some.inj hstep
      exact hdb.step hG.1 hG.2
    · rintro past c rest rfl
      refine ⟨fun d hd => ?_, hok past c rest rfl⟩
      exact (List.pairwise_append.mp hsorted).2.2 d hd c List.mem_cons_self
  cases hlast : (sampleTimes sourceId e calls).getLast? with
  | none =>
    rw [hinv.unseen (List.getLast?_eq_none_iff.mp hlast)]
    exact ⟨fun b hb => absurd hb List.not_mem_nil, Nat.zero_le _⟩
  | some p =>
    have hmet := hinv.seen p hlast
    refine ⟨hmet.cap, ?_⟩
    unfold elapsed
    rw [hlast]
    cases hhead : (sampleTimes sourceId e calls).head? with
    | none =>
      rw [List.head?_eq_none_iff] at hhead
      rw [hhead] at hlast
      exact absurd hlast.symm (Option.some_ne_none p)
    | some f =>
      have hsum := hmet.sum f hhead
      show _ ≤ p - f
      omega

namespace Sample

/-- A push of one unit that is up, a number of times in the batch. -/
def push (copies now : ℕ) : Call :=
  { sourceId := "agent-1", units := List.replicate copies { entity := "svcA", status := .up },
    now := now }

end Sample

open Sample

/-- Two samples a minute apart: sixty seconds, all of them up. -/
theorem uptime_conservative_minute :
    let db := [push 1 0, push 1 60000].foldl processUnits .empty
    db.buckets "agent-1" "svcA" = [⟨"agent-1", "svcA", 0, 60, 60⟩] ∧
      (∀ b ∈ db.buckets "agent-1" "svcA", b.upSec ≤ b.totalSec ∧ b.totalSec ≤ 3600) ∧
      1000 * totalSeconds (db.buckets "agent-1" "svcA")
        ≤ elapsed (sampleTimes "agent-1" "svcA" [push 1 0, push 1 60000]) := by
  refine ⟨rfl, uptime_conservative (by decide) ?_⟩
  intro past c rest hcalls
  rcases past with _ | ⟨x, _ | ⟨y, past⟩⟩
  · exact ⟨fun p hp => absurd hp.symm (Option.some_ne_none p),
      fun _ p hp => absurd hp.symm (Option.some_ne_none p)⟩
  · obtain ⟨rfl, hrest⟩ := List.cons.inj hcalls
    obtain ⟨rfl, -⟩ := List.cons.inj hrest
    refine ⟨fun p _ _ => le_rfl, fun _ p hp a ha _ hap => ?_⟩
    -- the one sample of the hour is the previous one
    obtain rfl : 0 = p := Option.some.inj hp
    omega
  · obtain ⟨-, hrest⟩ := List.cons.inj hcalls
    obtain ⟨-, hnil⟩ := List.cons.inj hrest
    exact absurd hnil (by simp)

/-- An interval that crosses the hour makes 5400 seconds of one, and two samples of one unit in
    a batch make two seconds of one. -/
theorem uptime_overcounts :
    (¬ ∀ (sourceId e : String) (calls : List Call), calls.Pairwise (fun a b => a.now ≤ b.now) →
      ∀ b ∈ (calls.foldl processUnits .empty).buckets sourceId e, b.totalSec ≤ 3600) ∧
    ¬ ∀ (sourceId e : String) (calls : List Call), calls.Pairwise (fun a b => a.now ≤ b.now) →
      1000 * totalSeconds ((calls.foldl processUnits .empty).buckets sourceId e)
        ≤ elapsed (sampleTimes sourceId e calls) := by
  constructor
  · intro h
    have hcap := h "agent-1" "svcA" [push 1 0, push 1 1800000, push 1 5400000] (by decide)
      ⟨"agent-1", "svcA", 0, 5400, 5400⟩ (List.mem_singleton.mpr rfl)
    exact absurd hcap (by decide)
  · intro h
    have hsum := h "agent-1" "svcA" [push 1 0, push 2 1000] (by decide)
    exact absurd (show 2000 ≤ 1000 from hsum) (by decide)

end Argus.Pipeline
