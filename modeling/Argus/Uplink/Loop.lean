import Argus.Pipeline.History
import Argus.Uplink.Spool

namespace Argus.Uplink

open Pipeline

/-!
# The push loop of an agent

Each tick of `Run` first replays the spool, then pushes a fresh snapshot; what cannot be
pushed is spooled.  The two paths fail independently: the result of the replay is discarded,
so a fresh snapshot may reach the backend while an older one waits.

* `Tick` — the snapshot of a tick, the clock its `Enqueue` reads, and the answer to each of
  its `Ingest` calls.
* `Telemetry.tick` — one round of the loop; the backend processes what it accepts at once.
* `NotOvertaking` — the step condition: a tick whose replay fails does not push either.
* `telemetry_in_order` — in every run that meets it the backend sees the snapshots in the
  order they were collected.
-/

/-- A snapshot; of its fields the diff reads the units. -/
structure Snapshot where
  units : List UnitSample
deriving DecidableEq, Repr

/-- The answer to an `Ingest` call; an accepted snapshot is processed at an instant. -/
inductive Reply
  | ok (now : ℕ)
  | notApproved
  | failed
deriving DecidableEq, Repr

/-- `err == nil`. -/
def Reply.isOk : Reply → Bool
  | ok _ => true
  | _ => false

/-- What a tick meets: `reply n` answers its `n`-th `Ingest` call. -/
structure Tick where
  snapshot : Snapshot
  clock : Int64
  reply : ℕ → Reply

def Tick.send (t : Tick) (n : ℕ) : Bool := (t.reply n).isOk

/-- An agent and the backend, with the snapshots collected and accepted so far and the clock
    values `Enqueue` has read. -/
structure Telemetry where
  agentId : String
  spool : Spool Snapshot
  db : TelemetryDb
  collected : List Snapshot
  accepted : List (Snapshot × ℕ)
  clocks : List Int64

namespace Telemetry

/-- The call of `processUnits` for an accepted snapshot. -/
def call (agentId : String) (s : Snapshot × ℕ) : Call :=
  { sourceId := agentId, units := s.1.units, now := s.2 }

/-- The backend's side of an `Ingest` call. -/
def ingest (w : Telemetry) (s : Snapshot) : Reply → Telemetry
  | .ok now =>
    { w with
      db := processUnits w.db (call w.agentId (s, now))
      accepted := w.accepted ++ [(s, now)] }
  | _ => w

/-- The sends of a `Drain`, counted from `n` on. -/
def ingestAll (t : Tick) : ℕ → List (File Snapshot × Bool) → Telemetry → Telemetry
  | _, [], w => w
  | n, a :: attempts, w => ingestAll t (n + 1) attempts (w.ingest a.1.data (t.reply n))

/-- `sp.Drain`. -/
def replay (w : Telemetry) (t : Tick) : Telemetry :=
  ingestAll t 0 (w.spool.drain t.send).2 { w with spool := (w.spool.drain t.send).1 }

/-- The answer to the push of the fresh snapshot: the call after those of the replay. -/
def pushReply (w : Telemetry) (t : Tick) : Reply := t.reply (w.spool.drain t.send).2.length

/-- The push of the fresh snapshot. -/
def push (w : Telemetry) (t : Tick) : Reply → Telemetry
  | .ok now => w.ingest t.snapshot (.ok now)
  -- awaiting approval: the snapshot is dropped
  | .notApproved => w
  | .failed =>
    { w with
      spool := w.spool.enqueue t.clock t.snapshot
      clocks := w.clocks ++ [t.clock] }

/-- One round of the loop. -/
def tick (w : Telemetry) (t : Tick) : Telemetry :=
  let w' := (w.replay t).push t (w.pushReply t)
  { w' with collected := w'.collected ++ [t.snapshot] }

end Telemetry

def loop : Machine Telemetry Tick where
  step := fun w t => some (w.tick t)

/-- Nothing collected yet. -/
def Telemetry.start (agentId : String) : Telemetry where
  agentId := agentId
  spool := ⟨[], 0⟩
  db := .empty
  collected := []
  accepted := []
  clocks := []

/-! ### What the recorded changes depend on -/

/-- The changes of a unit that the backend records when it processes snapshots one after
    another; the instants do not matter. -/
theorem changes_of_snapshots (agentId e : String) {xs ys : List (Snapshot × ℕ)}
    (h : xs.map Prod.fst = ys.map Prod.fst) :
    ((xs.map (Telemetry.call agentId)).foldl processUnits .empty).changes agentId e
      = ((ys.map (Telemetry.call agentId)).foldl processUnits .empty).changes agentId e := by
  refine changes_foldl_congr agentId e ?_ .empty .empty rfl rfl
  have hreports : ∀ zs : List (Snapshot × ℕ),
      (zs.map (Telemetry.call agentId)).map (fun c => c.reports agentId e)
        = (zs.map Prod.fst).map (fun s => (Telemetry.call agentId (s, 0)).reports agentId e) := by
    intro zs
    rw [List.map_map, List.map_map]
    exact List.map_congr_left (fun _ _ => rfl)
  rw [hreports, hreports, h]

/-! ### One tick -/

/-- The flags that a `Drain` returns are the answers to its sends. -/
theorem drainLoop_flags {α : Type} (send : ℕ → Bool) (files : List (List Char))
    (dir : List (Entry α)) (n : ℕ) :
    (Spool.drainLoop send files dir n).2.map Prod.snd
      = (List.range' n (Spool.drainLoop send files dir n).2.length).map send := by
  induction files generalizing dir n with
  | nil => rfl
  | cons f files ih =>
    rw [Spool.drainLoop]
    split
    · exact ih _ n
    · cases hsend : send n with
      | false => simp [hsend]
      | true => simp [hsend, List.range'_succ, ih _ (n + 1)]

namespace Telemetry

variable {w : Telemetry} {t : Tick}

@[simp] theorem ingest_spool (s : Snapshot) (r : Reply) : (w.ingest s r).spool = w.spool := by
  cases r <;> rfl

@[simp] theorem ingest_collected (s : Snapshot) (r : Reply) :
    (w.ingest s r).collected = w.collected := by
  cases r <;> rfl

@[simp] theorem ingest_clocks (s : Snapshot) (r : Reply) : (w.ingest s r).clocks = w.clocks := by
  cases r <;> rfl

@[simp] theorem ingest_agentId (s : Snapshot) (r : Reply) :
    (w.ingest s r).agentId = w.agentId := by
  cases r <;> rfl

/-- The backend has processed what it accepted, in that order. -/
def Processed (w : Telemetry) : Prop :=
  w.db = (w.accepted.map (call w.agentId)).foldl processUnits .empty

theorem Processed.ingest (h : w.Processed) (s : Snapshot) (r : Reply) :
    (w.ingest s r).Processed := by
  cases r with
  | ok now =>
    show processUnits w.db _ = _
    rw [show (w.ingest s (.ok now)).accepted = w.accepted ++ [(s, now)] from rfl,
      List.map_append, List.foldl_append, ingest_agentId, ← h]
    rfl
  | notApproved => exact h
  | failed => exact h

/-- The sends of a `Drain`: what was accepted is what was sent. -/
theorem ingestAll_spec (h : w.Processed) (n : ℕ) (attempts : List (File Snapshot × Bool))
    (hflags : attempts.map Prod.snd = (List.range' n attempts.length).map t.send) :
    (ingestAll t n attempts w).Processed ∧
      (ingestAll t n attempts w).accepted.map Prod.fst
        = w.accepted.map Prod.fst ++ ((attempts.filter (fun a => a.2)).map Prod.fst).map File.data ∧
      (ingestAll t n attempts w).spool = w.spool ∧
      (ingestAll t n attempts w).collected = w.collected ∧
      (ingestAll t n attempts w).clocks = w.clocks ∧
      (ingestAll t n attempts w).agentId = w.agentId := by
  induction attempts generalizing w n with
  | nil => exact ⟨h, by simp [ingestAll], rfl, rfl, rfl, rfl⟩
  | cons a attempts ih =>
    simp only [List.map_cons, List.length_cons, List.range'_succ, List.cons.injEq] at hflags
    obtain ⟨hflag, hrest⟩ := hflags
    obtain ⟨hproc, hacc, hspool, hcoll, hclocks, hagent⟩ :=
      ih (h.ingest a.1.data (t.reply n)) (n + 1) hrest
    refine ⟨hproc, ?_, ?_, ?_, ?_, ?_⟩
    · rw [ingestAll, hacc]
      -- the flag tells whether the answer was an acceptance
      cases hreply : t.reply n with
      | ok now =>
        have hsent : a.2 = true := by rw [hflag, Tick.send, hreply]; rfl
        simp [Telemetry.ingest, hsent]
      | notApproved =>
        have hsent : a.2 = false := by rw [hflag, Tick.send, hreply]; rfl
        simp [Telemetry.ingest, hsent]
      | failed =>
        have hsent : a.2 = false := by rw [hflag, Tick.send, hreply]; rfl
        simp [Telemetry.ingest, hsent]
    · rw [ingestAll, hspool, ingest_spool]
    · rw [ingestAll, hcoll, ingest_collected]
    · rw [ingestAll, hclocks, ingest_clocks]
    · rw [ingestAll, hagent, ingest_agentId]

/-- The backend has what was collected up to some point, and the rest is queued. -/
structure InOrder (w : Telemetry) (q : List (File Snapshot)) : Prop where
  holds : Holds w.spool.dir q
  processed : w.Processed
  order : w.collected = w.accepted.map Prod.fst ++ q.map File.data
  /-- The queued files were named after clock values read. -/
  named : ∀ f ∈ q, ∃ c ∈ w.clocks, 0 < c.toInt ∧ ∃ seq, f.name = Spool.fileName c seq

/-- A replay moves the oldest snapshots to the backend. -/
theorem InOrder.replayed {q : List (File Snapshot)} (h : InOrder w q) (t : Tick) :
    InOrder (w.replay t) (q.drop (successes t.send 0 q)) ∧ (w.replay t).clocks = w.clocks ∧
      (w.replay t).collected = w.collected := by
  obtain ⟨hproc, hacc, hspool, hcoll, hclocks, -⟩ :=
    ingestAll_spec (w := { w with spool := (w.spool.drain t.send).1 }) (t := t)
      h.processed 0 (w.spool.drain t.send).2 (drainLoop_flags _ _ _ 0)
  refine ⟨⟨?_, hproc, ?_, ?_⟩, hclocks, hcoll⟩
  · rw [replay, hspool]
    exact (drain_spec h.holds t.send).1
  · rw [replay, hcoll, hacc, sent_of_drain h.holds, List.append_assoc, ← List.map_append,
      List.take_append_drop]
    exact h.order
  · intro f hf
    rw [replay, hclocks]
    exact h.named f (List.mem_of_mem_drop hf)

/-- The number of `Ingest` calls of a replay: up to the first failure, which counts. -/
theorem length_attempts {q : List (File Snapshot)} (h : Holds w.spool.dir q) (t : Tick) :
    (w.spool.drain t.send).2.length = min (successes t.send 0 q + 1) q.length := by
  have hle := (successes_spec t.send 0 q).1
  rw [(drain_spec h t.send).2]
  simp only [List.length_append, List.length_map, List.length_take, List.length_drop]
  omega

end Telemetry

/-! ### Runs -/

/-- Every `Ingest` call is accepted or fails in transport, and the spool is not full. -/
structure Answered (w : Telemetry) (t : Tick) : Prop where
  approved : ∀ n, t.reply n ≠ .notApproved
  room : w.spool.queued.length < 5000

/-- **Step condition.**  A tick whose replay fails does not push its snapshot either, and the
    clock has moved on since the last `Enqueue` read it. -/
structure NotOvertaking (w : Telemetry) (t : Tick) : Prop where
  push : ∀ k < w.spool.queued.length, (∀ i < k, t.send i = true) → t.send k = false →
    t.send (k + 1) = false
  clock : w.pushReply t = .failed → 0 < t.clock.toInt ∧ ∀ c ∈ w.clocks, c.toInt < t.clock.toInt

namespace Telemetry

variable {w : Telemetry} {t : Tick} {q : List (File Snapshot)}

/-- When the push succeeds the replay has emptied the spool. -/
theorem InOrder.emptied (h : InOrder w q) (hG : NotOvertaking w t)
    (hpush : (w.pushReply t).isOk = true) : q.drop (successes t.send 0 q) = [] := by
  obtain ⟨hle, hok, hstop⟩ := successes_spec t.send 0 q
  simp only [Nat.zero_add] at hok hstop
  rcases Nat.lt_or_ge (successes t.send 0 q) q.length with hlt | hge
  · -- the first failure is followed by the call of the push
    have hlen := length_attempts h.holds t
    rw [Nat.min_eq_left hlt] at hlen
    have hqueued : w.spool.queued = q := h.holds.queued
    have hfail := hG.push _ (by rw [hqueued]; exact hlt) hok (hstop hlt)
    rw [pushReply, hlen] at hpush
    exact absurd (hpush.symm.trans hfail) (by simp)
  · exact List.drop_eq_nil_of_le hge

/-- A failed push queues the snapshot last. -/
theorem InOrder.enqueued (h : InOrder w q) (hroom : q.length < 5000)
    (hclock : 0 < t.clock.toInt ∧ ∀ c ∈ w.clocks, c.toInt < t.clock.toInt) :
    Holds (w.push t .failed).spool.dir (q ++ [⟨w.spool.nextName t.clock, t.snapshot⟩]) ∧
      (∀ f ∈ q ++ [⟨w.spool.nextName t.clock, t.snapshot⟩], ∃ c ∈ (w.push t .failed).clocks,
        0 < c.toInt ∧ ∃ seq, f.name = Spool.fileName c seq) := by
  have hlater : ∀ f ∈ q, f.name < w.spool.nextName t.clock := by
    intro f hf
    obtain ⟨c, hc, hpos, seq, hname⟩ := h.named f hf
    rw [hname]
    exact fileName_lt hpos (hclock.2 c hc) _ _
  have htrim := trim_spec (write_spec h.holds hlater t.snapshot)
  have hlen : excess (q ++ [(⟨w.spool.nextName t.clock, t.snapshot⟩ : File Snapshot)]).length
      = 0 := by
    rw [List.length_append, List.length_singleton, excess, maxItems]
    omega
  rw [hlen, List.drop_zero] at htrim
  refine ⟨htrim, fun f hf => ?_⟩
  show ∃ c ∈ w.clocks ++ [t.clock], _
  rcases List.mem_append.mp hf with hold | hnew
  · obtain ⟨c, hc, hrest⟩ := h.named f hold
    exact ⟨c, List.mem_append_left _ hc, hrest⟩
  · obtain rfl := List.mem_singleton.mp hnew
    exact ⟨t.clock, List.mem_append_right _ (List.mem_singleton_self _), hclock.1, _, rfl⟩

/-- **Step.**  A tick keeps the order. -/
theorem InOrder.ticked (h : InOrder w q) (hA : Answered w t) (hG : NotOvertaking w t) :
    ∃ q', InOrder (w.tick t) q' := by
  obtain ⟨hreplay, hclocks, hcoll⟩ := h.replayed t
  have hqueued : w.spool.queued = q := h.holds.queued
  cases hpush : w.pushReply t with
  | ok now =>
    have hnil := h.emptied hG (by rw [hpush]; rfl)
    rw [hnil] at hreplay
    refine ⟨[], ?_, ?_, ?_, fun f hf => absurd hf List.not_mem_nil⟩
    · show Holds ((w.replay t).push t (w.pushReply t)).spool.dir []
      rw [hpush]
      exact hreplay.holds
    · show ((w.replay t).push t (w.pushReply t)).Processed
      rw [hpush]
      exact hreplay.processed.ingest t.snapshot (.ok now)
    · show ((w.replay t).push t (w.pushReply t)).collected ++ [t.snapshot]
        = ((w.replay t).push t (w.pushReply t)).accepted.map Prod.fst ++ []
      rw [hpush]
      have horder := hreplay.order
      simp only [push, Telemetry.ingest, List.map_append, List.append_nil, List.map_cons,
        List.map_nil] at horder ⊢
      rw [horder]
  | notApproved => exact absurd hpush (hA.approved _)
  | failed =>
    have hroom : (q.drop (successes t.send 0 q)).length < 5000 := by
      have hfull := hA.room
      rw [hqueued] at hfull
      rw [List.length_drop]
      omega
    obtain ⟨hpos, hlater⟩ := hG.clock hpush
    obtain ⟨hholds, hnamed⟩ := hreplay.enqueued hroom ⟨hpos, by rw [hclocks]; exact hlater⟩
    refine ⟨q.drop (successes t.send 0 q) ++
      [⟨(w.replay t).spool.nextName t.clock, t.snapshot⟩], ?_, ?_, ?_, ?_⟩
    · show Holds ((w.replay t).push t (w.pushReply t)).spool.dir _
      rw [hpush]
      exact hholds
    · show ((w.replay t).push t (w.pushReply t)).Processed
      rw [hpush]
      simp only [push, Processed]
      exact hreplay.processed
    · show ((w.replay t).push t (w.pushReply t)).collected ++ [t.snapshot]
        = ((w.replay t).push t (w.pushReply t)).accepted.map Prod.fst ++ _
      rw [hpush, List.map_append, ← List.append_assoc]
      simp only [push, List.map_cons, List.map_nil]
      rw [hreplay.order]
    · show ∀ f ∈ _, ∃ c ∈ ((w.replay t).push t (w.pushReply t)).clocks, _
      rw [hpush]
      exact hnamed

theorem InOrder.start (agentId : String) : InOrder (Telemetry.start agentId) [] where
  holds := ⟨List.nodup_nil, List.Pairwise.nil, fun f => by simp [Telemetry.start],
    fun e he => absurd he List.not_mem_nil⟩
  processed := rfl
  order := rfl
  named := fun f hf => absurd hf List.not_mem_nil

theorem push_agentId (r : Reply) : (w.push t r).agentId = w.agentId := by
  cases r <;> rfl

theorem InOrder.agentId_tick (h : InOrder w q) : (w.tick t).agentId = w.agentId := by
  have hreplay := (ingestAll_spec (w := { w with spool := (w.spool.drain t.send).1 }) (t := t)
    h.processed 0 (w.spool.drain t.send).2 (drainLoop_flags _ _ _ 0)).2.2.2.2.2
  show ((w.replay t).push t (w.pushReply t)).agentId = w.agentId
  rw [push_agentId]
  exact hreplay

end Telemetry

/-- In every run that meets the condition the order is kept. -/
theorem inOrder_of_exec {agentId : String} {w : Telemetry} {ts : List Tick}
    (hG : loop.Meets (fun w t => Answered w t ∧ NotOvertaking w t) (.start agentId) ts)
    (hrun : loop.exec (.start agentId) ts = some w) :
    w.agentId = agentId ∧ ∃ q, w.InOrder q := by
  refine Machine.inv_of_exec (M := loop) (I := fun w => w.agentId = agentId ∧ ∃ q, w.InOrder q)
    ?_ ⟨rfl, [], .start agentId⟩ hG hrun
  rintro w t w' ⟨hagent, q, hq⟩ ⟨hA, hN⟩ hstep
  obtain rfl := Option.some.inj hstep
  exact ⟨hq.agentId_tick.trans hagent, hq.ticked hA hN⟩

/-- **Telemetry arrives in order.**  In every run whose ticks do not push past a failed
    replay: the backend accepts the snapshots in the order they were collected, the changes
    it records are those of processing them in that order, and a fresh snapshot is delivered
    only with an empty spool. -/
theorem telemetry_in_order {agentId : String} {w : Telemetry} {ts : List Tick}
    (hG : loop.Meets (fun w t => Answered w t ∧ NotOvertaking w t) (.start agentId) ts)
    (hrun : loop.exec (.start agentId) ts = some w) :
    w.collected = w.accepted.map Prod.fst ++ w.spool.queued.map File.data ∧
    (∀ (e : String) (xs : List (Snapshot × ℕ)),
      w.collected = xs.map Prod.fst ++ w.spool.queued.map File.data →
      w.db.changes agentId e
        = ((xs.map (Telemetry.call agentId)).foldl processUnits .empty).changes agentId e) ∧
    ∀ (before after : List Tick) (t : Tick) (v : Telemetry), ts = before ++ t :: after →
      loop.exec (.start agentId) before = some v → (v.pushReply t).isOk = true →
      (v.replay t).spool.queued = [] := by
  obtain ⟨hagent, q, hq⟩ := inOrder_of_exec hG hrun
  have hqueued : w.spool.queued = q := hq.holds.queued
  rw [hqueued]
  refine ⟨hq.order, fun e xs hxs => ?_, ?_⟩
  · have hsame : w.accepted.map Prod.fst = xs.map Prod.fst :=
      List.append_cancel_right (hq.order.symm.trans hxs)
    rw [hq.processed, hagent]
    exact changes_of_snapshots agentId e hsame
  · rintro before after t v rfl hv hpush
    obtain ⟨hbefore, hrest⟩ := hG.split hv
    obtain ⟨-, q', hq'⟩ := inOrder_of_exec hbefore hv
    obtain ⟨hreplay, -, -⟩ := hq'.replayed t
    rw [hq'.emptied hrest.1.2 hpush] at hreplay
    exact hreplay.holds.queued

namespace Sample

/-- A snapshot with one unit. -/
def unit (status : Core.HealthStatus) : Snapshot := ⟨[{ entity := "svc", status := status }]⟩

/-- The backend cannot be reached. -/
def outage (status : Core.HealthStatus) (clock : Int64) : Tick :=
  ⟨unit status, clock, fun _ => .failed⟩

/-- Every call is accepted. -/
def online (status : Core.HealthStatus) (clock : Int64) : Tick :=
  ⟨unit status, clock, fun _ => .ok 3000⟩

/-- The backend comes back between the replay and the push. -/
def recovering (status : Core.HealthStatus) (clock : Int64) : Tick :=
  ⟨unit status, clock, fun n => if n = 0 then .failed else .ok 2000⟩

end Sample

open Sample in
/-- One snapshot is spooled and replayed before the next. -/
theorem telemetry_in_order_outage :
    ∃ w, loop.exec (.start "agent") [outage .down 1, online .up 2] = some w ∧
      w.collected = w.accepted.map Prod.fst ++ w.spool.queued.map File.data := by
  refine ⟨_, rfl, ?_⟩
  have hanswered : ∀ w : Telemetry, w.spool.queued.length < 5000 → ∀ status clock,
      Answered w (outage status clock) ∧ Answered w (online status clock) :=
    fun w h status clock => ⟨⟨fun n => by simp [outage], h⟩, ⟨fun n => by simp [online], h⟩⟩
  have hG : loop.Meets (fun w t => Answered w t ∧ NotOvertaking w t) (.start "agent")
      [outage .down 1, online .up 2] := by
    refine .cons ⟨(hanswered _ (by decide) _ _).1, ⟨fun k _ _ _ => rfl, fun _ => ?_⟩⟩ rfl
      (.cons ⟨(hanswered _ (by decide +kernel) _ _).2, ⟨fun k _ _ hk => ?_, fun h => ?_⟩⟩ rfl
        trivial)
    · exact ⟨by decide, by simp [Telemetry.start]⟩
    · exact absurd hk (by simp [Tick.send, online, Reply.isOk])
    · exact absurd h (by simp [Telemetry.pushReply, online])
  exact (telemetry_in_order hG rfl).1

open Sample in
/-- **A fresh snapshot overtakes.**  The backend comes back between the replay of an outage
    and the push after it: it records an outage after the recovery. -/
theorem telemetry_overtakes :
    let ts := [outage .down 1, recovering .up 2, online .up 3]
    ∃ w, loop.Meets (fun w t => Answered w t ∧ 0 < t.clock.toInt ∧
        ∀ c ∈ w.clocks, c.toInt < t.clock.toInt) (.start "agent") ts ∧
      loop.exec (.start "agent") ts = some w ∧ w.spool.queued = [] ∧
      w.collected = [unit .down, unit .up, unit .up] ∧
      w.accepted.map Prod.fst = [unit .up, unit .down, unit .up] ∧
      w.db.changes "agent" "svc" = [(none, .up), (some .up, .down), (some .down, .up)] ∧
      ((w.collected.map (fun s => Telemetry.call "agent" (s, 0))).foldl processUnits
        .empty).changes "agent" "svc" = [(none, .down), (some .down, .up)] := by
  intro ts
  refine ⟨_, ?_, rfl, by decide +kernel, by decide +kernel, by decide +kernel, by decide +kernel,
    by decide +kernel⟩
  refine .cons ⟨⟨fun n => by simp [outage], by decide⟩, by decide, by simp [Telemetry.start]⟩ rfl
    (.cons ⟨⟨fun n => ?_, by decide +kernel⟩, by decide, ?_⟩ rfl
    (.cons ⟨⟨fun n => by simp [online], by decide +kernel⟩, by decide, ?_⟩ rfl
    trivial))
  · simp only [recovering]
    split <;> simp
  · show ∀ c ∈ ([1] : List Int64), c.toInt < (2 : Int64).toInt
    rw [List.forall_mem_singleton]
    decide
  · show ∀ c ∈ ([1] : List Int64), c.toInt < (3 : Int64).toInt
    rw [List.forall_mem_singleton]
    decide

end Argus.Uplink
