import Argus.Lib.Fifo
import Argus.Lib.Machine
import Argus.Lib.Numerals
import Argus.Lib.Table
import Mathlib.Data.Char
import Mathlib.Data.List.Lex
import Mathlib.Data.List.Sort

namespace Argus.Uplink

open Numerals

/-!
# The spool of an agent

`spool.go`: a directory of files, one for each payload that waits.  A file is named after the
clock and a counter that starts at zero in every process; the names are written with leading
zeros, so that their order as texts is the order of the clock.  What the directory holds is a
queue (`Holds`), and the operations are those of a bounded `Fifo`.

* `enqueue`, `drain`, `list`, `trim` — the functions of the source; `restart` forgets the
  counter.
* `World` — the spool with the record of the files it wrote, sent and trimmed.
* `refines_step` — every step of the spool is one of the queue.
* `spool_fifo` — the queue over whole runs.
-/

variable {α : Type}

/-! ### The directory -/

/-- An entry of the directory; a directory has no content to read. -/
structure Entry (α : Type) where
  name : List Char
  content : Option α
deriving DecidableEq

/-- A regular file with its content. -/
structure File (α : Type) where
  name : List Char
  data : α
deriving DecidableEq

def Entry.isDir (e : Entry α) : Bool := e.content.isNone

/-- `filepath.Ext`: the name from its last dot on. -/
def ext (name : List Char) : List Char :=
  if '.' ∈ name then '.' :: (name.reverse.takeWhile (fun c => decide (c ≠ '.'))).reverse else []

def jsonExt : List Char := ['.', 'j', 's', 'o', 'n']

/-- `os.ReadFile`. -/
def readFile (dir : List (Entry α)) (name : List Char) : Option α :=
  (Table.lookup Entry.name name dir).bind Entry.content

/-- `os.WriteFile`. -/
def writeFile (dir : List (Entry α)) (name : List Char) (data : α) : List (Entry α) :=
  Table.upsert Entry.name ⟨name, some data⟩ (fun e => { e with content := some data }) dir

/-- `os.Remove`. -/
def remove (dir : List (Entry α)) (name : List Char) : List (Entry α) :=
  dir.filter (fun e => decide (e.name ≠ name))

/-! ### The functions of the source -/

/-- `maxItems`. -/
def maxItems : ℤ := 5000

/-- The number of rounds of the loop of `trim` over `n` files. -/
def excess (n : ℕ) : ℕ := (n - maxItems).toNat

/-- A process on the directory. -/
structure Spool (α : Type) where
  dir : List (Entry α)
  seq : UInt64

namespace Spool

variable (s : Spool α)

/-- The names of the queued files, in the order of `sort.Strings`. -/
def list : List (List Char) :=
  ((s.dir.filter (fun e => !e.isDir && decide (ext e.name = jsonExt))).map
    Entry.name).insertionSort (· ≤ ·)

/-- `%0<w>d`: a sign takes one place of the width. -/
def sprintf (w : ℕ) : ℤ → List Char
  | .ofNat n => padStart w '0' (Nat.toDigits 10 n)
  | .negSucc n => '-' :: padStart (w - 1) '0' (Nat.toDigits 10 (n + 1))

/-- The name `Enqueue` gives to a file. -/
def fileName (now : Int64) (seq : UInt64) : List Char :=
  sprintf 20 now.toInt ++ '-' :: (sprintf 6 seq.toNat ++ jsonExt)

/-- Remove the oldest files beyond `maxItems`. -/
def trim : Spool α :=
  { s with dir := (s.list.take (excess s.list.length)).foldl remove s.dir }

/-- The name of the next file. -/
def nextName (now : Int64) : List Char := fileName now (s.seq + 1)

/-- `Enqueue` up to its `trim`: the payload is written under the next name. -/
def write (now : Int64) (data : α) : Spool α where
  dir := writeFile s.dir (s.nextName now) data
  seq := s.seq + 1

def enqueue (now : Int64) (data : α) : Spool α := (s.write now data).trim

/-- The loop of `Drain` over the listed names: `send n` tells whether the `n`-th send of the
    call succeeds.  It returns the directory and the files passed to `send`, each with the
    outcome. -/
def drainLoop (send : ℕ → Bool) :
    List (List Char) → List (Entry α) → ℕ → List (Entry α) × List (File α × Bool)
  | [], dir, _ => (dir, [])
  | f :: files, dir, n =>
    match readFile dir f with
    -- unreadable: drop and continue
    | none => drainLoop send files (remove dir f) n
    | some data =>
      if send n then
        let rest := drainLoop send files (remove dir f) (n + 1)
        (rest.1, (⟨f, data⟩, true) :: rest.2)
      else (dir, [(⟨f, data⟩, false)])

def drain (send : ℕ → Bool) : Spool α × List (File α × Bool) :=
  let run := drainLoop send s.list s.dir 0
  ({ s with dir := run.1 }, run.2)

/-- A new process on the same directory. -/
def restart : Spool α := { s with seq := 0 }

/-- What waits, oldest first. -/
def queued : List (File α) :=
  s.list.filterMap (fun name => (readFile s.dir name).map (fun data => ⟨name, data⟩))

/-- The files that `trim` removes. -/
def trimmed : List (File α) := s.queued.filter (fun f => decide (f.name ∉ s.trim.list))

end Spool

/-! ### The order of the names -/

theorem ext_append_json (x : List Char) : ext (x ++ jsonExt) = jsonExt := by
  simp [ext, jsonExt]

theorem ext_fileName (now : Int64) (seq : UInt64) : ext (Spool.fileName now seq) = jsonExt := by
  have hsplit : Spool.fileName now seq
      = (Spool.sprintf 20 now.toInt ++ '-' :: Spool.sprintf 6 seq.toNat) ++ jsonExt := by
    simp [Spool.fileName]
  rw [hsplit, ext_append_json]

/-- A positive clock value has twenty digits. -/
theorem sprintf_clock {now : Int64} (hpos : 0 < now.toInt) :
    Spool.sprintf 20 now.toInt = pad 20 now.toInt.toNat := by
  have hlt := now.toInt_lt
  obtain ⟨n, hn⟩ := Int.eq_ofNat_of_zero_le (Int.le_of_lt hpos)
  rw [hn] at hlt ⊢
  exact padStart_toDigits (by omega)

/-- The names are ordered like the clock, whatever the counters are. -/
theorem fileName_lt {now now' : Int64} (hpos : 0 < now.toInt) (hlt : now.toInt < now'.toInt)
    (seq seq' : UInt64) : Spool.fileName now seq < Spool.fileName now' seq' := by
  have hbound := now'.toInt_lt
  rw [Spool.fileName, Spool.fileName, sprintf_clock hpos, sprintf_clock (hpos.trans hlt),
    pad_cons_lt_iff (by omega) (by omega)]
  exact Or.inl (by omega)

/-! ### The directory as a queue -/

/-- The queued files of a directory are those of `q`, oldest first. -/
structure Holds (dir : List (Entry α)) (q : List (File α)) : Prop where
  names : (dir.map Entry.name).Nodup
  sorted : q.Pairwise (fun a b => a.name < b.name)
  mem : ∀ f, f ∈ q ↔ ext f.name = jsonExt ∧ (⟨f.name, some f.data⟩ : Entry α) ∈ dir
  /-- No directory is named like a queued file. -/
  regular : ∀ e ∈ dir, ext e.name = jsonExt → e.content ≠ none

namespace Holds

variable {dir : List (Entry α)} {q : List (File α)}

theorem list {s : Spool α} (h : Holds s.dir q) : s.list = q.map File.name := by
  have hsorted : (q.map File.name).Pairwise (· < ·) := List.pairwise_map.mpr h.sorted
  have hperm : ((s.dir.filter (fun e => !e.isDir && decide (ext e.name = jsonExt))).map
      Entry.name).Perm (q.map File.name) := by
    refine (List.perm_ext_iff_of_nodup (h.names.sublist (List.filter_sublist.map _))
      (hsorted.imp ne_of_lt)).mpr (fun name => ?_)
    simp only [List.mem_map, List.mem_filter, Bool.and_eq_true, Bool.not_eq_true',
      decide_eq_true_eq]
    constructor
    · rintro ⟨⟨name, content⟩, ⟨hmem, hdir, hext⟩, rfl⟩
      cases content with
      | none => exact absurd hdir (by simp [Entry.isDir])
      | some data => exact ⟨⟨name, data⟩, (h.mem _).mpr ⟨hext, hmem⟩, rfl⟩
    · rintro ⟨f, hf, rfl⟩
      obtain ⟨hext, hmem⟩ := (h.mem f).mp hf
      exact ⟨_, ⟨hmem, rfl, hext⟩, rfl⟩
  exact ((List.perm_insertionSort _ _).trans hperm).eq_of_pairwise'
    (List.pairwise_insertionSort _ _) (hsorted.imp le_of_lt)

theorem readFile (h : Holds dir q) {f : File α} (hf : f ∈ q) :
    Uplink.readFile dir f.name = some f.data := by
  have hmem := ((h.mem f).mp hf).2
  rw [Uplink.readFile, Table.lookup_of_mem h.names hmem, Option.bind_some]

/-- What waits is the queue. -/
theorem queued {s : Spool α} (h : Holds s.dir q) : s.queued = q := by
  rw [Spool.queued, h.list, List.filterMap_map]
  refine (List.filterMap_congr (fun f hf => ?_)).trans List.filterMap_some
  simp [h.readFile hf]

theorem remove {f : File α} (h : Holds dir (f :: q)) : Holds (remove dir f.name) q := by
  obtain ⟨hhead, htail⟩ := List.pairwise_cons.mp h.sorted
  constructor
  · exact h.names.sublist (List.filter_sublist.map _)
  · exact htail
  · intro g
    rw [Uplink.remove, List.mem_filter]
    constructor
    · intro hg
      obtain ⟨hext, hmem⟩ := (h.mem g).mp (List.mem_cons_of_mem f hg)
      exact ⟨hext, hmem, decide_eq_true (ne_of_gt (hhead g hg))⟩
    · rintro ⟨hext, hmem, hne⟩
      rcases List.mem_cons.mp ((h.mem g).mpr ⟨hext, hmem⟩) with rfl | hg
      · exact absurd rfl (of_decide_eq_true hne)
      · exact hg
  · intro e he
    exact h.regular e (List.mem_filter.mp he).1

/-- Removing the oldest files leaves the newer ones. -/
theorem foldl_remove {old : List (File α)} (h : Holds dir (old ++ q)) :
    Holds ((old.map File.name).foldl Uplink.remove dir) q := by
  induction old generalizing dir with
  | nil => exact h
  | cons f old ih => exact ih h.remove

theorem drop (h : Holds dir q) (n : ℕ) :
    Holds (((q.take n).map File.name).foldl Uplink.remove dir) (q.drop n) := by
  refine foldl_remove ?_
  rw [List.take_append_drop]
  exact h

/-- A file with a later name joins at the end. -/
theorem write (h : Holds dir q) {name : List Char} (hext : ext name = jsonExt)
    (hlater : ∀ f ∈ q, f.name < name) (data : α) :
    Holds (writeFile dir name data) (q ++ [⟨name, data⟩]) := by
  -- the name is new: an entry of that name would be a queued file
  have hfresh : ∀ e ∈ dir, e.name ≠ name := by
    rintro ⟨n, content⟩ he rfl
    cases content with
    | none => exact h.regular _ he hext rfl
    | some d => exact lt_irrefl _ (hlater ⟨n, d⟩ ((h.mem _).mpr ⟨hext, he⟩))
  have hdir : writeFile dir name data = dir ++ [⟨name, some data⟩] := by
    have hany : dir.any (fun e => decide (e.name = name)) = false := by
      simpa using hfresh
    simp [writeFile, Table.upsert, hany]
  rw [hdir]
  constructor
  · exact Table.nodup_append_singleton h.names hfresh
  · refine List.pairwise_append.mpr ⟨h.sorted, List.pairwise_singleton _ _, ?_⟩
    intro f hf g hg
    obtain rfl := List.mem_singleton.mp hg
    exact hlater f hf
  · intro f
    rw [List.mem_append, List.mem_append, h.mem, List.mem_singleton, List.mem_singleton]
    constructor
    · rintro (⟨hf, hmem⟩ | rfl)
      · exact ⟨hf, Or.inl hmem⟩
      · exact ⟨hext, Or.inr rfl⟩
    · rintro ⟨hf, hmem | hnew⟩
      · exact Or.inl ⟨hf, hmem⟩
      · rw [Entry.mk.injEq, Option.some.injEq] at hnew
        exact Or.inr (by rw [← hnew.1, ← hnew.2])
  · intro e he
    rcases List.mem_append.mp he with he | he
    · exact h.regular e he
    · obtain rfl := List.mem_singleton.mp he
      exact fun _ => by simp

end Holds

/-! ### The operations -/

section Operations

variable {dir : List (Entry α)} {q : List (File α)}

/-- The number of sends, from the `n`-th on, that succeed before the first that fails. -/
def successes (send : ℕ → Bool) : ℕ → List (File α) → ℕ
  | _, [] => 0
  | n, _ :: q => if send n then successes send (n + 1) q + 1 else 0

/-- `successes` stops at the first failure. -/
theorem successes_spec (send : ℕ → Bool) (n : ℕ) (q : List (File α)) :
    successes send n q ≤ q.length ∧ (∀ i < successes send n q, send (n + i) = true) ∧
      (successes send n q < q.length → send (n + successes send n q) = false) := by
  induction q generalizing n with
  | nil => simp [successes]
  | cons f q ih =>
    rw [successes]
    cases hsend : send n with
    | false => simp [hsend]
    | true =>
      obtain ⟨hle, hok, hstop⟩ := ih (n + 1)
      rw [if_pos rfl]
      refine ⟨by simpa using hle, fun i hi => ?_, fun hlt => ?_⟩
      · cases i with
        | zero => exact hsend
        | succ i => rw [show n + (i + 1) = n + 1 + i by omega]; exact hok i (by omega)
      · rw [show n + (successes send (n + 1) q + 1) = n + 1 + successes send (n + 1) q by omega]
        exact hstop (by simpa using hlt)

/-- The loop of `Drain` passes the files to `send` in order, up to and including the first
    failure, and keeps the unsent ones. -/
theorem drainLoop_spec (h : Holds dir q) (send : ℕ → Bool) (n : ℕ) :
    Holds (Spool.drainLoop send (q.map File.name) dir n).1 (q.drop (successes send n q)) ∧
      (Spool.drainLoop send (q.map File.name) dir n).2
        = (q.take (successes send n q)).map (fun f => (f, true)) ++
          ((q.drop (successes send n q)).take 1).map (fun f => (f, false)) := by
  induction q generalizing dir n with
  | nil => exact ⟨h, rfl⟩
  | cons f q ih =>
    rw [List.map_cons, Spool.drainLoop, h.readFile List.mem_cons_self, successes]
    cases hsend : send n with
    | false => exact ⟨h, rfl⟩
    | true =>
      obtain ⟨hholds, hattempts⟩ := ih h.remove (n + 1)
      rw [if_pos rfl]
      refine ⟨hholds, ?_⟩
      simp only [if_true, hattempts, List.take_succ_cons, List.map_cons, List.cons_append,
        List.drop_succ_cons]

/-- **Drain.**  The sends are those of the queue, oldest first, up to the first failure; what
    was not sent stays. -/
theorem drain_spec {s : Spool α} (h : Holds s.dir q) (send : ℕ → Bool) :
    Holds (s.drain send).1.dir (q.drop (successes send 0 q)) ∧
      (s.drain send).2 = (q.take (successes send 0 q)).map (fun f => (f, true)) ++
        ((q.drop (successes send 0 q)).take 1).map (fun f => (f, false)) := by
  have hlist := h.list
  have hloop := drainLoop_spec h send 0
  rw [← hlist] at hloop
  exact hloop

/-- The successful sends of a `Drain` are the oldest files. -/
theorem sent_of_drain {s : Spool α} (h : Holds s.dir q) (send : ℕ → Bool) :
    ((s.drain send).2.filter (fun a => a.2)).map Prod.fst = q.take (successes send 0 q) := by
  rw [(drain_spec h send).2, List.filter_append, List.map_append,
    Fifo.filter_together (fun b => b), Fifo.filter_together (fun b => b)]
  simp

theorem trim_spec {s : Spool α} (h : Holds s.dir q) :
    Holds s.trim.dir (q.drop (excess q.length)) := by
  have hlist : s.list = q.map File.name := h.list
  have hdir : s.trim.dir
      = ((q.take (excess q.length)).map File.name).foldl remove s.dir := by
    rw [Spool.trim, hlist, List.length_map, ← List.map_take]
  rw [hdir]
  exact h.drop _

/-- The files missing from the newer part of a queue are the older part. -/
theorem Holds.filter_not_listed (h : Holds dir q) (n : ℕ) :
    q.filter (fun f => decide (f.name ∉ (q.drop n).map File.name)) = q.take n := by
  have hnames : (q.map File.name).Nodup := (List.pairwise_map.mpr h.sorted).imp ne_of_lt
  have hcut := List.take_append_drop n q
  generalize q.take n = old at hcut ⊢
  generalize q.drop n = new at hcut ⊢
  subst hcut
  rw [List.map_append] at hnames
  rw [List.filter_append, List.filter_eq_self.mpr, List.filter_eq_nil_iff.mpr, List.append_nil]
  · intro f hf
    simpa using ⟨f, hf, rfl⟩
  · intro f hf
    rw [decide_eq_true_eq]
    intro hmem
    exact (List.nodup_append.mp hnames).2.2 _ (List.mem_map_of_mem hf) _ hmem rfl

/-- The trimmed files are the oldest. -/
theorem trimmed_eq {s : Spool α} (h : Holds s.dir q) :
    s.trimmed = q.take (excess q.length) := by
  rw [Spool.trimmed, h.queued, (trim_spec h).list]
  exact h.filter_not_listed _

/-- **Enqueue.**  A file later than all others joins, and the oldest leave beyond the bound. -/
theorem write_spec {s : Spool α} (h : Holds s.dir q) {now : Int64}
    (hlater : ∀ f ∈ q, f.name < s.nextName now) (data : α) :
    Holds (s.write now data).dir (q ++ [⟨s.nextName now, data⟩]) :=
  h.write (ext_fileName now _) hlater data

end Operations

/-! ### Runs -/

/-- The spool with the record of the files written, sent and trimmed so far. -/
structure World (α : Type) where
  spool : Spool α
  enqueued : List (File α)
  sent : List (File α)
  trimmed : List (File α)

inductive Op (α : Type)
  | enqueue (now : Int64) (data : α)
  | drain (send : ℕ → Bool)
  | restart

namespace Op

/-- The payload handed to `Enqueue`. -/
def payload : Op α → Option α
  | enqueue _ data => some data
  | _ => none

/-- The clock value read by `Enqueue`. -/
def clock : Op α → Option Int64
  | enqueue now _ => some now
  | _ => none

end Op

namespace World

/-- No files yet; what else the directory holds is not queued. -/
structure Init (w : World α) : Prop where
  names : (w.spool.dir.map Entry.name).Nodup
  foreign : ∀ e ∈ w.spool.dir, ext e.name ≠ jsonExt
  enqueued : w.enqueued = []
  sent : w.sent = []
  trimmed : w.trimmed = []

def apply (w : World α) : Op α → World α
  | .enqueue now data =>
    { w with
      spool := w.spool.enqueue now data
      enqueued := w.enqueued ++ [⟨w.spool.nextName now, data⟩]
      trimmed := w.trimmed ++ (w.spool.write now data).trimmed }
  | .drain send =>
    { w with
      spool := (w.spool.drain send).1
      sent := w.sent ++ ((w.spool.drain send).2.filter (fun a => a.2)).map Prod.fst }
  | .restart => { w with spool := w.spool.restart }

end World

def spooling : Machine (World α) (Op α) where
  step := fun w op => some (w.apply op)

/-- The queue a spool stands for. -/
structure Refines (w : World α) (f : Fifo (File α)) : Prop where
  holds : Holds w.spool.dir f.queue
  enqueued : w.enqueued = f.pushed
  sent : w.sent = f.delivered
  trimmed : w.trimmed = f.dropped

/-- The steps of the queue: a push and the drop of what exceeds the bound, or the delivery of
    what was sent. -/
def Op.abstract (w : World α) (f : Fifo (File α)) : Op α → Fifo (File α)
  | .enqueue now data =>
    (f.push ⟨w.spool.nextName now, data⟩).leave (excess (f.queue.length + 1)) false
  | .drain send => f.leave (successes send 0 f.queue) true
  | .restart => f

/-- **Refinement.**  A step of the spool is the step of the queue, as long as the clock moves
    on. -/
theorem refines_step {w : World α} {f : Fifo (File α)} (h : Refines w f) (op : Op α)
    (hlater : ∀ now data, op = .enqueue now data → ∀ g ∈ f.queue, g.name < w.spool.nextName now) :
    Refines (w.apply op) (op.abstract w f) := by
  cases op with
  | enqueue now data =>
    have hwrite := write_spec h.holds (hlater now data rfl) data
    have hlen : (f.queue ++ [(⟨w.spool.nextName now, data⟩ : File α)]).length
        = f.queue.length + 1 := by simp
    refine ⟨?_, ?_, ?_, ?_⟩
    · simp only [World.apply, Spool.enqueue, Op.abstract, Fifo.queue_leave, Fifo.queue_push]
      rw [← hlen]
      exact trim_spec hwrite
    · simp only [World.apply, Op.abstract, Fifo.pushed_leave, Fifo.pushed_push, h.enqueued]
    · simp only [World.apply, Op.abstract, Fifo.delivered_leave, Fifo.delivered_push, h.sent,
        Bool.false_eq_true, if_false, List.append_nil]
    · simp only [World.apply, Op.abstract, Fifo.dropped_leave, Fifo.dropped_push,
        Fifo.queue_push, trimmed_eq hwrite, hlen, h.trimmed, Bool.false_eq_true, if_false]
  | drain send =>
    refine ⟨(drain_spec h.holds send).1, ?_, ?_, ?_⟩
    · show w.enqueued = _
      rw [Op.abstract, Fifo.pushed_leave, h.enqueued]
    · show w.sent ++ _ = _
      rw [Op.abstract, Fifo.delivered_leave, h.sent, sent_of_drain h.holds, if_pos rfl]
    · show w.trimmed = _
      rw [Op.abstract, Fifo.dropped_leave, h.trimmed]
      simp
  | restart => exact ⟨h.holds, h.enqueued, h.sent, h.trimmed⟩

/-- The clock values are positive and grow from one `Enqueue` to the next. -/
def Clocked (ops : List (Op α)) : Prop :=
  (∀ t ∈ ops.filterMap Op.clock, 0 < t.toInt) ∧
    (ops.filterMap Op.clock).Pairwise (fun a b => a.toInt < b.toInt)

/-- The invariant of a run: the spool stands for a queue whose files were named after the
    clock, one for each `Enqueue`. -/
structure Queues (past : List (Op α)) (w : World α) (f : Fifo (File α)) : Prop where
  refines : Refines w f
  payloads : f.pushed.map File.data = past.filterMap Op.payload
  ordered : f.pushed.Pairwise (fun a b => a.name < b.name)
  clocks : ∀ g ∈ f.pushed, ∃ t ∈ past.filterMap Op.clock, 0 < t.toInt ∧
    ∃ seq, g.name = Spool.fileName t seq

/-- A file written now comes after all others. -/
theorem Queues.later {past : List (Op α)} {w : World α} {f : Fifo (File α)}
    (h : Queues past w f) {now : Int64}
    (hnow : ∀ t ∈ past.filterMap Op.clock, t.toInt < now.toInt) {g : File α} (hg : g ∈ f.pushed) :
    g.name < w.spool.nextName now := by
  obtain ⟨t, ht, hpos, seq, hname⟩ := h.clocks g hg
  rw [hname]
  exact fileName_lt hpos (hnow t ht) _ _

theorem Queues.step {past : List (Op α)} {w : World α} {f : Fifo (File α)} (h : Queues past w f)
    (op : Op α) (hop : ∀ now data, op = .enqueue now data →
      0 < now.toInt ∧ ∀ t ∈ past.filterMap Op.clock, t.toInt < now.toInt) :
    Queues (past ++ [op]) (w.apply op) (op.abstract w f) := by
  have hqueue : ∀ g ∈ f.queue, g ∈ f.pushed := fun g hg => f.queue_suffix.subset hg
  have hrefines := refines_step h.refines op (fun now data hopeq g hg =>
    h.later (hop now data hopeq).2 (hqueue g hg))
  -- the record of what was pushed changes with an `Enqueue` only
  cases op with
  | enqueue now data =>
    obtain ⟨hpos, hnow⟩ := hop now data rfl
    have hpushed : (Op.abstract w f (.enqueue now data)).pushed
        = f.pushed ++ [⟨w.spool.nextName now, data⟩] := by
      rw [Op.abstract, Fifo.pushed_leave, Fifo.pushed_push]
    refine ⟨hrefines, ?_, ?_, ?_⟩
    · rw [hpushed, List.map_append, h.payloads, List.filterMap_append]
      rfl
    · rw [hpushed]
      refine List.pairwise_append.mpr ⟨h.ordered, List.pairwise_singleton _ _, ?_⟩
      intro g hg g' hg'
      obtain rfl := List.mem_singleton.mp hg'
      exact h.later hnow hg
    · rw [hpushed, List.filterMap_append]
      intro g hg
      rcases List.mem_append.mp hg with hold | hnew
      · obtain ⟨t, ht, hrest⟩ := h.clocks g hold
        exact ⟨t, List.mem_append_left _ ht, hrest⟩
      · obtain rfl := List.mem_singleton.mp hnew
        exact ⟨now, List.mem_append_right _ (by simp [Op.clock]), hpos, _, rfl⟩
  | drain send =>
    have hpushed : (Op.abstract w f (.drain send)).pushed = f.pushed := by
      rw [Op.abstract, Fifo.pushed_leave]
    refine ⟨hrefines, ?_, ?_, ?_⟩
    · rw [hpushed, h.payloads]
      simp [Op.payload]
    · rw [hpushed]
      exact h.ordered
    · rw [hpushed]
      simpa [Op.clock] using h.clocks
  | restart =>
    refine ⟨hrefines, ?_, h.ordered, ?_⟩
    · rw [Op.abstract, h.payloads]
      simp [Op.payload]
    · simpa [Op.clock, Op.abstract] using h.clocks

theorem Queues.init {w : World α} (h : w.Init) : Queues [] w (Fifo.empty : Fifo (File α)) := by
  refine ⟨⟨⟨h.names, List.Pairwise.nil, fun f => ?_, fun e he hext => ?_⟩, ?_, ?_, ?_⟩, rfl,
    List.Pairwise.nil, fun g hg => absurd hg (by simp [Fifo.empty, Fifo.pushed])⟩
  · constructor
    · exact fun hf => absurd hf (by simp [Fifo.empty])
    · exact fun hf => absurd hf.1 (h.foreign _ hf.2)
  · exact absurd hext (h.foreign e he)
  · exact h.enqueued
  · exact h.sent
  · exact h.trimmed

/-- After every run the spool stands for a queue. -/
theorem queues_of_exec {w₀ w : World α} {ops : List (Op α)} (h₀ : w₀.Init) (hclock : Clocked ops)
    (hrun : spooling.exec w₀ ops = some w) : ∃ f, Queues ops w f := by
  refine Machine.inv_of_history (M := spooling) (I := fun past w => ∃ f, Queues past w f)
    (G := fun past op => ∀ now data, op = .enqueue now data →
      0 < now.toInt ∧ ∀ t ∈ past.filterMap Op.clock, t.toInt < now.toInt)
    ?_ ⟨_, Queues.init h₀⟩ ?_ hrun
  · rintro past w op w' ⟨f, hf⟩ hop hstep
    obtain rfl := Option.some.inj hstep
    exact ⟨_, hf.step op hop⟩
  · rintro past op rest rfl now data rfl
    obtain ⟨hpos, hinc⟩ := hclock
    rw [List.filterMap_append, List.filterMap_cons] at hpos hinc
    refine ⟨hpos now (by simp [Op.clock]), fun t ht => ?_⟩
    exact (List.pairwise_append.mp hinc).2.2 t ht now (by simp [Op.clock])

/-- **The spool is a bounded queue.**  After every run with a clock that moves on: the sent
    files are a subsequence of the written ones, without repetition, and every written file
    was sent, waits or was trimmed; a `Drain` sends what waits, oldest first, up to the first
    failure, and keeps the rest; an `Enqueue` keeps the newest `maxItems` files. -/
theorem spool_fifo {w₀ w : World α} {ops : List (Op α)} (h₀ : w₀.Init) (hclock : Clocked ops)
    (hrun : spooling.exec w₀ ops = some w) :
    (w.enqueued.map File.data = ops.filterMap Op.payload ∧ w.enqueued.Nodup ∧
      w.sent.Sublist w.enqueued ∧ w.sent.Nodup ∧ w.spool.queued <:+ w.enqueued ∧
      ∀ f ∈ w.enqueued, f ∈ w.sent ∨ f ∈ w.spool.queued ∨ f ∈ w.trimmed) ∧
    (∀ send, ∃ k ≤ w.spool.queued.length,
      (∀ i < k, send i = true) ∧ (k < w.spool.queued.length → send k = false) ∧
      (w.spool.drain send).2.map Prod.fst = w.spool.queued.take (k + 1) ∧
      (w.spool.drain send).1.queued = w.spool.queued.drop k) ∧
    ∀ now data, 0 < now.toInt → (∀ t ∈ ops.filterMap Op.clock, t.toInt < now.toInt) →
      (w.spool.enqueue now data).queued
        = (w.spool.queued ++ [(⟨w.spool.nextName now, data⟩ : File α)]).drop
          (excess (w.spool.queued.length + 1)) ∧
      (w.spool.enqueue now data).queued.length ≤ 5000 := by
  obtain ⟨f, hf⟩ := queues_of_exec h₀ hclock hrun
  have hqueued : w.spool.queued = f.queue := hf.refines.holds.queued
  have hnodup : f.pushed.Nodup := hf.ordered.imp (fun hlt heq => absurd (heq ▸ hlt) (lt_irrefl _))
  rw [hqueued, hf.refines.enqueued, hf.refines.sent, hf.refines.trimmed]
  refine ⟨⟨hf.payloads, hnodup, f.delivered_sublist, hnodup.sublist f.delivered_sublist,
    f.queue_suffix, fun g hg => ?_⟩, fun send => ?_, fun now data _ hnow => ?_⟩
  · rcases f.mem_pushed.mp hg with hsent | hdropped | hwaits
    · exact Or.inl hsent
    · exact Or.inr (Or.inr hdropped)
    · exact Or.inr (Or.inl hwaits)
  · obtain ⟨hle, hok, hstop⟩ := successes_spec send 0 f.queue
    obtain ⟨hholds, hattempts⟩ := drain_spec hf.refines.holds send
    simp only [Nat.zero_add] at hok hstop
    refine ⟨_, hle, hok, hstop, ?_, hholds.queued⟩
    have hone : (f.queue.drop (successes send 0 f.queue)).take 1
        = (f.queue.take (successes send 0 f.queue + 1)).drop (successes send 0 f.queue) := by
      rw [List.drop_take, Nat.add_sub_cancel_left]
    rw [hattempts, List.map_append, List.map_map, List.map_map, List.map_id'', List.map_id'', hone]
    · conv_rhs => rw [← List.take_append_drop (successes send 0 f.queue)
        (f.queue.take (successes send 0 f.queue + 1)), List.take_take]
      rw [Nat.min_eq_left (Nat.le_succ _)]
    · exact fun _ => rfl
    · exact fun _ => rfl
  · have hlater : ∀ g ∈ f.queue, g.name < w.spool.nextName now :=
      fun g hg => hf.later hnow (f.queue_suffix.subset hg)
    have htrim := trim_spec (write_spec hf.refines.holds hlater data)
    have hlen : (f.queue ++ [(⟨w.spool.nextName now, data⟩ : File α)]).length
        = f.queue.length + 1 := by simp
    rw [hlen] at htrim
    rw [Spool.enqueue, htrim.queued]
    refine ⟨rfl, ?_⟩
    rw [List.length_drop, hlen, excess, maxItems]
    omega

/-- Two payloads, a restart, a third payload, and a `Drain` whose second send fails. -/
theorem spool_fifo_restart :
    let ops : List (Op String) := [.enqueue 1 "a", .enqueue 2 "b", .restart, .enqueue 3 "c",
      .drain (fun n => decide (n < 1))]
    ∃ w, spooling.exec ⟨⟨[], 0⟩, [], [], []⟩ ops = some w ∧
      w.enqueued.map File.data = ["a", "b", "c"] ∧ w.sent.Sublist w.enqueued := by
  intro ops
  refine ⟨_, rfl, ?_⟩
  have hfifo := @spool_fifo String ⟨⟨[], 0⟩, [], [], []⟩ _ ops
    ⟨List.nodup_nil, by simp, rfl, rfl, rfl⟩
    ⟨by simp [ops, List.filterMap_cons, Op.clock], by simp [ops, List.filterMap_cons, Op.clock]⟩
    rfl
  exact ⟨hfifo.1.1, hfifo.1.2.2.1⟩

end Argus.Uplink
