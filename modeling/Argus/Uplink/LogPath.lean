import Argus.Uplink.Loop

namespace Argus.Uplink

/-!
# Operational log lines on their way to the backend

Lines wait in the bounded buffer of `logbuf.go`, ride the snapshot of the next tick of `Run`, and
wait in the spool when that snapshot could not be pushed.

* `Buffer.add`, `Buffer.drain`, `drainLogs` — the buffer; a full one drops its oldest line.
* `LogPath.tick` — one round of the loop of `Run`, as far as the lines are concerned.
* `log_lines_accounted` — in every run each line has arrived once, waits once or was lost once;
  lines are lost to a full buffer, to a full spool, and with every snapshot that is pushed
  before the agent is approved.
-/

/-! ### The buffer -/

/-- `logbuf.Line`. -/
structure Line where
  level : String
  message : String
  category : String
deriving DecidableEq, Repr

/-- `model.LogLine`. -/
structure LogLine where
  category : String
  level : String
  message : String
deriving DecidableEq, Repr

/-- A line as `drainLogs` puts it into the snapshot. -/
def Line.wire (l : Line) : LogLine :=
  ⟨if l.category = "" then "agent" else l.category, l.level, l.message⟩

/-- `cap`. -/
def bufferCap : ℕ := 500

/-- `logbuf.Buffer`. -/
structure Buffer where
  lines : List Line
deriving DecidableEq, Repr

namespace Buffer

def add (b : Buffer) (level category message : String) : Buffer :=
  -- drop the oldest entry to make room
  let lines := if b.lines.length ≥ bufferCap then b.lines.drop 1 else b.lines
  ⟨lines ++ [⟨level, message, category⟩]⟩

/-- The lines taken, and the buffer left. -/
def drain (b : Buffer) : List Line × Buffer :=
  if b.lines.length = 0 then ([], b)
  else
    (if b.lines.length > bufferCap then b.lines.drop (b.lines.length - bufferCap) else b.lines,
      ⟨[]⟩)

/-- What `add` drops. -/
def overflow (b : Buffer) : List Line :=
  if b.lines.length ≥ bufferCap then b.lines.take 1 else []

theorem length_add_le {b : Buffer} (h : b.lines.length ≤ bufferCap)
    (level category message : String) :
    (b.add level category message).lines.length ≤ bufferCap := by
  unfold add
  dsimp only
  split
  · rw [List.length_append, List.length_drop, List.length_singleton]
    simp only [bufferCap] at *
    omega
  · rw [List.length_append, List.length_singleton]
    omega

/-- A buffer that never exceeds its bound is drained as it is. -/
theorem drain_eq {b : Buffer} (h : b.lines.length ≤ bufferCap) : b.drain = (b.lines, ⟨[]⟩) := by
  unfold drain
  split
  · rename_i hempty
    obtain ⟨lines⟩ := b
    obtain rfl : lines = [] := List.length_eq_zero_iff.mp hempty
    rfl
  · rw [if_neg (by omega)]

end Buffer

/-- `drainLogs`. -/
def drainLogs (b : Buffer) : List LogLine × Buffer := (b.drain.1.map Line.wire, b.drain.2)

/-! ### The loop -/

/-- What a tick meets: `reply n` answers its `n`-th `Ingest` call, `cause` is the text of an
    error. -/
structure LogTick where
  clock : Int64
  reply : ℕ → Reply
  cause : String

def LogTick.send (t : LogTick) (n : ℕ) : Bool := (t.reply n).isOk

/-- The buffer and the spool of an agent; of a snapshot only its lines are kept.  The other
    fields record what happened: the operations of the spool, the lines emitted, those of the
    snapshots pushed at once, and those lost to a full buffer or before the approval. -/
structure LogPath where
  buffer : Buffer
  world : World (List LogLine)
  ops : List (Op (List LogLine))
  emitted : List LogLine
  delivered : List LogLine
  overflowed : List LogLine
  refused : List LogLine

namespace LogPath

/-- `emit`, as far as the buffer is concerned. -/
def emit (w : LogPath) (level msg : String) : LogPath :=
  { w with
    buffer := w.buffer.add level "agent" msg
    emitted := w.emitted ++ [(⟨level, msg, "agent"⟩ : Line).wire]
    overflowed := w.overflowed ++ w.buffer.overflow.map Line.wire }

/-- An operation of the spool. -/
def spoolOp (w : LogPath) (op : Op (List LogLine)) : LogPath :=
  { w with world := w.world.apply op, ops := w.ops ++ [op] }

/-- The answer to the push of the fresh snapshot: the call after those of the replay. -/
def pushReply (w : LogPath) (t : LogTick) : Reply :=
  t.reply (w.world.spool.drain t.send).2.length

/-- One round of the loop of `Run`. -/
def tick (w : LogPath) (t : LogTick) : LogPath :=
  let reply := w.pushReply t
  let w := w.spoolOp (.drain t.send)
  let logs := (drainLogs w.buffer).1
  let w := { w with buffer := (drainLogs w.buffer).2 }
  match reply with
  | .ok _ => { w with delivered := w.delivered ++ logs }
  -- awaiting approval: the snapshot is dropped with its lines
  | .notApproved =>
    { w with refused := w.refused ++ logs }.emit "info" "argus-agent: awaiting approval in the UI"
  | .failed =>
    (w.emit "error" ("argus-agent: ingest failed (" ++ t.cause ++ ") — spooling")).spoolOp
      (.enqueue t.clock logs)

/-- What has reached the backend, at once or from the spool. -/
def arrived (w : LogPath) : List LogLine := w.delivered ++ w.world.sent.flatMap File.data

def waiting (w : LogPath) : List LogLine :=
  w.buffer.lines.map Line.wire ++ w.world.spool.queued.flatMap File.data

def lost (w : LogPath) : List LogLine :=
  w.overflowed ++ w.refused ++ w.world.trimmed.flatMap File.data

/-- An agent that has just been started on a directory without spooled files. -/
def start (dir : List (Entry (List LogLine))) : LogPath :=
  ⟨⟨[]⟩, ⟨⟨dir, 0⟩, [], [], []⟩, [], [], [], [], []⟩

end LogPath

/-- A line is emitted, or the ticker fires. -/
inductive LogEvent
  | emit (level msg : String)
  | tick (t : LogTick)

def logging : Machine LogPath LogEvent where
  step w
    | .emit level msg => some (w.emit level msg)
    | .tick t => some (w.tick t)

/-! ### Accounting -/

/-- **Step condition.**  The clock has moved on since the last `Enqueue` read it. -/
def MovesOn (w : LogPath) : LogEvent → Prop
  | .emit _ _ => True
  | .tick t => w.pushReply t = .failed →
      0 < t.clock.toInt ∧ ∀ c ∈ w.ops.filterMap Op.clock, c.toInt < t.clock.toInt

/-- **Step condition.**  The buffer is not full when a line comes, the agent is approved and
    the spool has room. -/
def Lossless (w : LogPath) : LogEvent → Prop
  | .emit _ _ => w.buffer.lines.length < bufferCap
  | .tick t => w.pushReply t ≠ .notApproved ∧ w.world.spool.queued.length < 5000

namespace LogPath

variable {w : LogPath}

/-- Every line is in one place: buffered, lost on the way to the snapshot, or in a snapshot
    that was pushed at once or handed to the spool. -/
structure Accounted (w : LogPath) (f : Fifo (File (List LogLine))) : Prop where
  queues : Queues w.ops w.world f
  bounded : w.buffer.lines.length ≤ bufferCap
  count : ∀ line, w.emitted.count line =
    (w.buffer.lines.map Line.wire).count line + w.overflowed.count line + w.refused.count line +
      w.delivered.count line + (w.ops.filterMap Op.payload).flatten.count line

theorem Accounted.emit {f : Fifo (File (List LogLine))} (h : Accounted w f) (level msg : String) :
    Accounted (w.emit level msg) f where
  queues := h.queues
  bounded := Buffer.length_add_le h.bounded _ _ _
  count line := by
    have hcount := h.count line
    -- the oldest line goes from the buffer to the lost ones, or nothing does
    have hmove : ((w.buffer.add level "agent" msg).lines.map Line.wire).count line
        + (w.buffer.overflow.map Line.wire).count line
        = (w.buffer.lines.map Line.wire).count line
          + [(⟨level, msg, "agent"⟩ : Line).wire].count line := by
      unfold Buffer.add Buffer.overflow
      dsimp only
      split
      · rw [List.map_append, List.count_append, List.map_singleton]
        conv_rhs => rw [← List.take_append_drop 1 w.buffer.lines, List.map_append,
          List.count_append]
        omega
      · rw [List.map_append, List.count_append, List.map_nil, List.count_nil, List.map_singleton,
          Nat.add_zero]
    simp only [LogPath.emit, List.count_append]
    omega

/-- A replay moves snapshots that are accounted for already. -/
theorem Accounted.replayed {f : Fifo (File (List LogLine))} (h : Accounted w f)
    (send : ℕ → Bool) :
    Accounted (w.spoolOp (.drain send)) ((Op.drain send).abstract w.world f) where
  queues := h.queues.step _ (fun _ _ hop => absurd hop (by simp))
  bounded := h.bounded
  count line := by
    have hcount := h.count line
    have hpayload : (w.spoolOp (.drain send)).ops.filterMap Op.payload
        = w.ops.filterMap Op.payload := by
      simp [LogPath.spoolOp, Op.payload]
    rw [hpayload]
    exact hcount

/-- The lines of the buffer leave with a snapshot that is pushed at once. -/
theorem Accounted.pushed {f : Fifo (File (List LogLine))} (h : Accounted w f) :
    Accounted { w with buffer := ⟨[]⟩, delivered := w.delivered ++ w.buffer.lines.map Line.wire }
      f where
  queues := h.queues
  bounded := Nat.zero_le _
  count line := by
    have hcount := h.count line
    simp only [List.count_append, List.map_nil, List.count_nil]
    omega

/-- The lines of the buffer leave with a snapshot that is dropped. -/
theorem Accounted.unapproved {f : Fifo (File (List LogLine))} (h : Accounted w f) :
    Accounted { w with buffer := ⟨[]⟩, refused := w.refused ++ w.buffer.lines.map Line.wire }
      f where
  queues := h.queues
  bounded := Nat.zero_le _
  count line := by
    have hcount := h.count line
    simp only [List.count_append, List.map_nil, List.count_nil]
    omega

/-- The lines of the buffer leave with a snapshot that is spooled. -/
theorem Accounted.spooled {f : Fifo (File (List LogLine))} (h : Accounted w f) {now : Int64}
    (hnow : 0 < now.toInt ∧ ∀ c ∈ w.ops.filterMap Op.clock, c.toInt < now.toInt) :
    Accounted ({ w with buffer := ⟨[]⟩ }.spoolOp (.enqueue now (w.buffer.lines.map Line.wire)))
      ((Op.enqueue now (w.buffer.lines.map Line.wire)).abstract w.world f) where
  queues := h.queues.step _ (fun now' data hop => by
    obtain ⟨rfl, rfl⟩ := Op.enqueue.inj hop
    exact hnow)
  bounded := Nat.zero_le _
  count line := by
    have hcount := h.count line
    have hpayload : (w.ops ++ [Op.enqueue now (w.buffer.lines.map Line.wire)]).filterMap Op.payload
        = w.ops.filterMap Op.payload ++ [w.buffer.lines.map Line.wire] := by
      simp [Op.payload]
    simp only [LogPath.spoolOp, hpayload, List.flatten_append, List.flatten_singleton,
      List.count_append, List.map_nil, List.count_nil]
    omega

/-- **Step.**  A tick keeps the account. -/
theorem Accounted.ticked {f : Fifo (File (List LogLine))} (h : Accounted w f) {t : LogTick}
    (hclock : MovesOn w (.tick t)) : ∃ f', Accounted (w.tick t) f' := by
  have hreplay := h.replayed t.send
  have hdrain : drainLogs (w.spoolOp (.drain t.send)).buffer
      = (w.buffer.lines.map Line.wire, ⟨[]⟩) := by
    rw [drainLogs, Buffer.drain_eq hreplay.bounded]
    rfl
  cases hreply : w.pushReply t with
  | ok now =>
    refine ⟨(Op.drain t.send).abstract w.world f, ?_⟩
    rw [LogPath.tick]
    simp only [hreply, hdrain]
    exact hreplay.pushed
  | notApproved =>
    refine ⟨(Op.drain t.send).abstract w.world f, ?_⟩
    rw [LogPath.tick]
    simp only [hreply, hdrain]
    exact hreplay.unapproved.emit _ _
  | failed =>
    have hclocks : (w.spoolOp (.drain t.send)).ops.filterMap Op.clock
        = w.ops.filterMap Op.clock := by
      simp [LogPath.spoolOp, Op.clock]
    have hspooled := hreplay.spooled (by rw [hclocks]; exact hclock hreply)
    refine ⟨(Op.enqueue t.clock (w.buffer.lines.map Line.wire)).abstract
      (w.spoolOp (.drain t.send)).world ((Op.drain t.send).abstract w.world f), ?_⟩
    rw [LogPath.tick]
    simp only [hreply, hdrain]
    -- the error is logged before the spool is written; they do not touch each other
    exact hspooled.emit _ _

theorem Accounted.start {dir : List (Entry (List LogLine))} (hnames : (dir.map Entry.name).Nodup)
    (hforeign : ∀ e ∈ dir, ext e.name ≠ jsonExt) :
    Accounted (LogPath.start dir) Fifo.empty where
  queues := Queues.init ⟨hnames, hforeign, rfl, rfl, rfl⟩
  bounded := Nat.zero_le _
  count _ := rfl

/-- What the account says of the three places a line can be in. -/
theorem Accounted.places {f : Fifo (File (List LogLine))} (h : Accounted w f) (line : LogLine) :
    w.emitted.count line = w.arrived.count line + w.waiting.count line + w.lost.count line := by
  have hcount := h.count line
  have hperm := (f.pushed_perm.flatMap_right File.data).count_eq line
  have hpayload : (w.ops.filterMap Op.payload).flatten = f.pushed.flatMap File.data := by
    rw [← h.queues.payloads, List.flatMap]
  simp only [arrived, waiting, lost, List.count_append, h.queues.refines.sent,
    h.queues.refines.trimmed, h.queues.refines.holds.queued]
  simp only [List.flatMap_append, List.count_append] at hperm
  rw [hpayload] at hcount
  omega

/-- An `Enqueue` into a spool with room trims nothing. -/
theorem trimmed_enqueue {ops : List (Op (List LogLine))} {v : World (List LogLine)}
    {f : Fifo (File (List LogLine))} (h : Queues ops v f) {now : Int64} (data : List LogLine)
    (hnow : 0 < now.toInt ∧ ∀ c ∈ ops.filterMap Op.clock, c.toInt < now.toInt)
    (hroom : v.spool.queued.length < 5000) : (v.apply (.enqueue now data)).trimmed = v.trimmed := by
  have hnext := h.step (.enqueue now data) (fun now' data' hop => by
    obtain ⟨rfl, rfl⟩ := Op.enqueue.inj hop
    exact hnow)
  have hqueue : f.queue.length < 5000 := by
    rw [← h.refines.holds.queued]
    exact hroom
  have hnone : excess (f.queue.length + 1) = 0 := by
    rw [excess, maxItems]
    omega
  rw [hnext.refines.trimmed, Op.abstract, Fifo.dropped_leave, Fifo.dropped_push, hnone,
    List.take_zero, h.refines.trimmed]
  simp

/-- Without a full buffer or spool, and once approved, nothing is lost in a step. -/
theorem Accounted.lost_step {f : Fifo (File (List LogLine))} (h : Accounted w f) {e : LogEvent}
    {w' : LogPath} (hclock : MovesOn w e) (hG : Lossless w e)
    (hstep : logging.step w e = some w') : w'.lost = w.lost := by
  cases e with
  | emit level msg =>
    obtain rfl := Option.some.inj hstep
    have hroom : ¬ w.buffer.lines.length ≥ bufferCap := Nat.not_le.mpr hG
    simp only [lost, LogPath.emit, Buffer.overflow, if_neg hroom, List.map_nil, List.append_nil]
  | tick t =>
    obtain rfl := Option.some.inj hstep
    obtain ⟨happroved, hroom⟩ := hG
    have hreplay := h.replayed t.send
    cases hreply : w.pushReply t with
    | ok now =>
      rw [LogPath.tick]
      simp only [hreply]
      rfl
    | notApproved => exact absurd hreply happroved
    | failed =>
      have hclocks : (w.spoolOp (.drain t.send)).ops.filterMap Op.clock
          = w.ops.filterMap Op.clock := by
        simp [LogPath.spoolOp, Op.clock]
      have hleft : (w.spoolOp (.drain t.send)).world.spool.queued.length < 5000 := by
        rw [hreplay.queues.refines.holds.queued, Op.abstract, Fifo.queue_leave, List.length_drop,
          ← h.queues.refines.holds.queued]
        omega
      have htrim := trimmed_enqueue hreplay.queues
        (drainLogs (w.spoolOp (.drain t.send)).buffer).1
        (by rw [hclocks]; exact hclock hreply) hleft
      have hempty : (drainLogs (w.spoolOp (.drain t.send)).buffer).2 = ⟨[]⟩ := by
        rw [drainLogs, Buffer.drain_eq hreplay.bounded]
      rw [LogPath.tick]
      simp only [hreply, lost, hempty]
      simp only [LogPath.spoolOp, LogPath.emit] at htrim ⊢
      rw [htrim]
      simp [Buffer.overflow, bufferCap, World.apply]

end LogPath

/-- **Every line is accounted for.**  In every run with a clock that moves on, each line emitted
    has reached the backend, waits in the buffer or the spool, or is lost, as often as it was
    emitted; and nothing is lost while the buffer is not full when a line comes, the agent is
    approved and the spool has room. -/
theorem log_lines_accounted {dir : List (Entry (List LogLine))}
    (hnames : (dir.map Entry.name).Nodup) (hforeign : ∀ e ∈ dir, ext e.name ≠ jsonExt)
    {w : LogPath} {events : List LogEvent} (hclock : logging.Meets MovesOn (.start dir) events)
    (hrun : logging.exec (.start dir) events = some w) :
    (∀ line, w.emitted.count line
      = w.arrived.count line + w.waiting.count line + w.lost.count line) ∧
    (logging.Meets Lossless (.start dir) events → w.lost = []) := by
  have hstart := LogPath.Accounted.start hnames hforeign
  have hstep : ∀ (w : LogPath) (e : LogEvent) (w' : LogPath), (∃ f, w.Accounted f) → MovesOn w e →
      logging.step w e = some w' → ∃ f, w'.Accounted f := by
    rintro w e w' ⟨f, hf⟩ hmoves hstep
    cases e with
    | emit level msg =>
      obtain rfl := Option.some.inj hstep
      exact ⟨f, hf.emit level msg⟩
    | tick t =>
      obtain rfl := Option.some.inj hstep
      exact hf.ticked hmoves
  obtain ⟨f, hf⟩ := Machine.inv_of_exec hstep ⟨_, hstart⟩ hclock hrun
  refine ⟨hf.places, fun hlossless => ?_⟩
  have hlost : (∃ f, w.Accounted f) ∧ w.lost = [] := by
    refine Machine.inv_of_exec (I := fun w => (∃ f, w.Accounted f) ∧ w.lost = []) ?_
      ⟨⟨_, hstart⟩, rfl⟩ (hclock.and hlossless) hrun
    rintro w e w' ⟨⟨f, hf⟩, hnone⟩ ⟨hmoves, hG⟩ he
    exact ⟨hstep w e w' ⟨f, hf⟩ hmoves he, (hf.lost_step hmoves hG he).trans hnone⟩
  exact hlost.2

/-- An outage of one tick: the line is spooled and replayed, the error that was logged follows
    with the next snapshot. -/
theorem log_lines_accounted_outage :
    let down : LogTick := ⟨1, fun _ => .failed, "timeout"⟩
    let up : LogTick := ⟨2, fun _ => .ok 3000, ""⟩
    ∃ w, logging.exec (.start []) [.emit "info" "a", .tick down, .tick up] = some w ∧
      w.waiting = [] ∧ w.lost = [] ∧ ∀ line, w.emitted.count line = w.arrived.count line := by
  intro down up
  have hclock : logging.Meets MovesOn (.start []) [.emit "info" "a", .tick down, .tick up] := by
    refine .cons trivial rfl (.cons (fun _ => ⟨by decide, fun c hc => ?_⟩) rfl
      (.cons (fun h => ?_) rfl trivial))
    · exact absurd hc List.not_mem_nil
    · exact Reply.noConfusion h
  have hlossless : logging.Meets Lossless (.start [])
      [.emit "info" "a", .tick down, .tick up] := by
    refine .cons ?_ rfl (.cons ⟨Reply.noConfusion, by decide⟩ rfl
      (.cons ⟨Reply.noConfusion, by decide +kernel⟩ rfl trivial))
    show 0 < bufferCap
    decide
  have hnames : (([] : List (Entry (List LogLine))).map Entry.name).Nodup := List.nodup_nil
  obtain ⟨hplaces, hlost⟩ := log_lines_accounted hnames
    (fun _ he => absurd he List.not_mem_nil) hclock rfl
  have hwaiting : (LogPath.tick (LogPath.tick ((LogPath.start []).emit "info" "a") down)
      up).waiting = [] := by decide +kernel
  refine ⟨_, rfl, hwaiting, hlost hlossless, fun line => ?_⟩
  have hline := hplaces line
  rw [hwaiting, hlost hlossless] at hline
  simpa using hline

end Argus.Uplink
