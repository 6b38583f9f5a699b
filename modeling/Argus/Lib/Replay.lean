import Mathlib.Data.List.Basic
import Mathlib.Data.Option.Basic

/-!
# Logs of changes to one cell

A cell holds a value or nothing.  A log of its changes is a list of pairs `(old, new)`, and it
is a *history* of the cell when replaying it is possible and ends in the cell's contents.

* `Replays cur log fin` — `log` takes the contents `cur` to `fin`: every entry starts where
  the one before it ended, and changes something.
* `diffLog p news` — the entries that a batch of new values gives when each one is compared
  with the same old contents `p`; `latest p news` — the contents the batch leaves.
* `replays_append_diffLog` — a batch that is compared with one snapshot extends a history
  exactly when all its values but the last one repeat the snapshot.
-/

namespace ChangeLog

variable {α : Type*}

/-- The log takes the contents `cur` to `fin`: each entry starts from the contents at that
    point, and its new value differs from them. -/
def Replays : Option α → List (Option α × α) → Option α → Prop
  | cur, [], fin => cur = fin
  | cur, (old, new) :: log, fin => old = cur ∧ old ≠ some new ∧ Replays (some new) log fin

@[simp] theorem replays_nil {cur fin : Option α} : Replays cur [] fin ↔ cur = fin := Iff.rfl

theorem replays_cons {cur fin old : Option α} {new : α} {log : List (Option α × α)} :
    Replays cur ((old, new) :: log) fin ↔
      old = cur ∧ old ≠ some new ∧ Replays (some new) log fin := Iff.rfl

/-- Two logs replay one after the other. -/
theorem replays_append {cur fin : Option α} {l m : List (Option α × α)} :
    Replays cur (l ++ m) fin ↔ ∃ mid, Replays cur l mid ∧ Replays mid m fin := by
  induction l generalizing cur with
  | nil => simp
  | cons entry l ih =>
    obtain ⟨old, new⟩ := entry
    rw [List.cons_append, replays_cons, ih]
    constructor
    · rintro ⟨hold, hne, mid, hl, hm⟩
      exact ⟨mid, ⟨hold, hne, hl⟩, hm⟩
    · rintro ⟨mid, ⟨hold, hne, hl⟩, hm⟩
      exact ⟨hold, hne, mid, hl, hm⟩

/-- A history of a cell that holds something is not empty. -/
theorem Replays.ne_nil {log : List (Option α × α)} {a : α} (h : Replays none log (some a)) :
    log ≠ [] := by
  rintro rfl
  exact absurd (replays_nil.mp h) (Option.some_ne_none a).symm

/-! ### A batch compared with one snapshot -/

/-- The contents after a batch of values has been written over `p`. -/
def latest (p : Option α) (news : List α) : Option α := news.getLast?.or p

@[simp] theorem latest_nil (p : Option α) : latest p [] = p := rfl

theorem latest_cons (p : Option α) (n : α) (ns : List α) :
    latest p (n :: ns) = latest (some n) ns := by
  unfold latest
  rw [List.getLast?_cons]
  cases ns.getLast? <;> rfl

theorem latest_append (p : Option α) (ns ms : List α) :
    latest p (ns ++ ms) = latest (latest p ns) ms := by
  induction ns generalizing p with
  | nil => rfl
  | cons n ns ih => rw [List.cons_append, latest_cons, latest_cons, ih]

/-- What a batch that only repeats the contents leaves. -/
theorem latest_of_forall {p : Option α} {ns : List α} (h : ∀ n ∈ ns, p = some n) :
    latest p ns = p := by
  induction ns with
  | nil => rfl
  | cons n ns ih =>
    rw [latest_cons, ← h n List.mem_cons_self]
    exact ih (fun m hm => h m (List.mem_cons_of_mem n hm))

variable [DecidableEq α]

/-- The entries of the values that differ from the snapshot. -/
def diffLog (p : Option α) (news : List α) : List (Option α × α) :=
  (news.filter (fun n => decide (p ≠ some n))).map (fun n => (p, n))

@[simp] theorem diffLog_nil (p : Option α) : diffLog p [] = [] := rfl

theorem diffLog_cons_eq {p : Option α} {n : α} (h : p = some n) (ns : List α) :
    diffLog p (n :: ns) = diffLog p ns := by
  simp [diffLog, h]

theorem diffLog_cons_ne {p : Option α} {n : α} (h : p ≠ some n) (ns : List α) :
    diffLog p (n :: ns) = (p, n) :: diffLog p ns := by
  simp [diffLog, h]

/-- Nothing is logged exactly when every value repeats the snapshot. -/
theorem diffLog_eq_nil {p : Option α} {ns : List α} :
    diffLog p ns = [] ↔ ∀ n ∈ ns, p = some n := by
  simp [diffLog]

/-- Every entry starts from the snapshot. -/
theorem diffLog_fst {p : Option α} {ns : List α} {entry : Option α × α}
    (h : entry ∈ diffLog p ns) : entry.1 = p := by
  obtain ⟨n, -, rfl⟩ := List.mem_map.mp h
  rfl

/-- After a value that differs from the snapshot the batch must end: a further entry would
    start from the snapshot again, and a further repetition of it would not be logged. -/
theorem replays_diffLog_of_ne {p : Option α} {n : α} (hne : p ≠ some n) {ns : List α} :
    Replays (some n) (diffLog p ns) (latest (some n) ns) ↔ ns = [] := by
  constructor
  · intro h
    cases hlog : diffLog p ns with
    | nil =>
      -- only repetitions of the snapshot follow: the cell would be back at `p`
      rw [hlog, replays_nil] at h
      cases ns with
      | nil => rfl
      | cons m ms =>
        have hall := diffLog_eq_nil.mp hlog
        have hm : p = some m := hall m List.mem_cons_self
        have hlast : latest (some n) (m :: ms) = p := by
          rw [latest_cons, ← hm]
          exact latest_of_forall (fun k hk => hall k (List.mem_cons_of_mem m hk))
        exact absurd (h.trans hlast).symm hne
    | cons entry log =>
      -- a further entry starts from `p`, not from `n`
      have hfst : entry.1 = p := diffLog_fst (hlog ▸ List.mem_cons_self)
      rw [hlog] at h
      exact absurd (hfst.symm.trans h.1) hne
  · rintro rfl
    rfl

/-- **Batch lemma.** The entries of a batch take the snapshot to what the batch leaves exactly
    when all its values but the last one repeat the snapshot. -/
theorem replays_diffLog {p : Option α} {news : List α} :
    Replays p (diffLog p news) (latest p news) ↔ ∀ n ∈ news.dropLast, p = some n := by
  induction news with
  | nil => simp
  | cons n ns ih =>
    by_cases hn : p = some n
    · have hlast : latest p (n :: ns) = latest p ns := by rw [latest_cons, ← hn]
      rw [diffLog_cons_eq hn, hlast, ih]
      cases ns with
      | nil => simp
      | cons m ms =>
        rw [List.dropLast_cons_cons, List.forall_mem_cons]
        exact ⟨fun h => ⟨hn, h⟩, fun h => h.2⟩
    · rw [diffLog_cons_ne hn, replays_cons, latest_cons, replays_diffLog_of_ne hn]
      cases ns with
      | nil => simp [hn]
      | cons m ms => simp [hn]

/-- **Extension lemma.** A log followed by the entries of a batch is a history of the cell
    after the batch exactly when the log was one of the cell before it and all values of the
    batch but the last one repeat the snapshot. -/
theorem replays_append_diffLog {cur p : Option α} {log : List (Option α × α)} {news : List α} :
    Replays cur (log ++ diffLog p news) (latest p news) ↔
      Replays cur log p ∧ ∀ n ∈ news.dropLast, p = some n := by
  rw [replays_append]
  constructor
  · rintro ⟨mid, hlog, hbatch⟩
    -- where the log ends is the snapshot: by the first entry, or because nothing changed
    obtain rfl : mid = p := by
      cases hdiff : diffLog p news with
      | nil =>
        rw [hdiff, replays_nil, latest_of_forall (diffLog_eq_nil.mp hdiff)] at hbatch
        exact hbatch
      | cons entry rest =>
        have hfst : entry.1 = p := diffLog_fst (hdiff ▸ List.mem_cons_self)
        rw [hdiff] at hbatch
        exact hbatch.1.symm.trans hfst
    exact ⟨hlog, replays_diffLog.mp hbatch⟩
  · rintro ⟨hlog, hall⟩
    exact ⟨p, hlog, replays_diffLog.mpr hall⟩

end ChangeLog
