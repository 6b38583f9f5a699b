import Argus.Lib.Machine
import Argus.Monitors.Purge

namespace Argus.Pipeline.Sweeps

open Monitors (TelemetryTable)
open Monitors.TelemetryTable

/-!
# Retention

`retention.ts` and `retention-sweeper.ts`: an operator sets for how many days each type of data is
kept, and sweeps, started by a timer and by a route, delete what is older.

* `setRetention`, `listRetention`, `pruneOlderThan`, `runRetentionSweep` — the functions of the
  source; `runRetentionSweep_eq` — a sweep that nothing interrupts prunes each table by its own
  policy.
* `sweeping` — any number of sweeps, one statement at a time, while rows are written and removed
  by others and the policy is changed.
* `Kept` — the invariant: a row is where it was written, or was removed, or was pruned for a
  reason.
* `retention_sound` — it holds after every run.
-/

/-! ### The policy -/

/-- `RETENTION_DATA_TYPES`. -/
def RETENTION_DATA_TYPES : List String :=
  ["status_events", "client_events", "host_metrics", "ping_samples", "db_metrics",
    "storage_metrics", "snmp_metrics", "folder_metrics", "process_metrics", "logs", "audit_log",
    "notifications", "uptime_buckets"]

/-- `TARGETS`: the table of a type. -/
def TARGETS : List (String × TelemetryTable) :=
  [("status_events", statusEvents), ("client_events", clientEvents), ("host_metrics", hostMetrics),
    ("ping_samples", pingSamples), ("db_metrics", dbMetrics), ("storage_metrics", storageMetrics),
    ("snmp_metrics", snmpMetrics), ("folder_metrics", folderMetrics),
    ("process_metrics", processMetrics), ("logs", logs), ("audit_log", auditLog),
    ("notifications", notifications), ("uptime_buckets", uptimeBuckets)]

/-- A row of `retention_config`; no days are all of them. -/
structure RetentionRow where
  dataType : String
  days : Option ℤ
deriving DecidableEq, Repr

/-- `seedRetentionDefaults` of an empty table. -/
def seedRetentionDefaults : List RetentionRow := RETENTION_DATA_TYPES.map (⟨·, none⟩)

/-- `listRetention`: a row for every known type. -/
def listRetention (stored : List RetentionRow) : List RetentionRow :=
  RETENTION_DATA_TYPES.map fun dataType =>
    (Table.lookup RetentionRow.dataType dataType stored).getD ⟨dataType, none⟩

def setRetention (stored : List RetentionRow) (dataType : String) (days : Option ℤ) :
    List RetentionRow :=
  Table.upsert RetentionRow.dataType ⟨dataType, days⟩ (fun r => { r with days }) stored

/-- `PUT /api/retention/:dataType`; `none` if it answers with an error.  The column holds integers
    of 32 bits. -/
def putRetention (stored : List RetentionRow) (dataType : String) (days : Option ℤ) :
    Option (List RetentionRow) :=
  if dataType ∉ RETENTION_DATA_TYPES then none
  else if days.any (fun d => decide (d < 0 ∨ 2 ^ 31 ≤ d)) then none
  else some (setRetention stored dataType days)

/-! ### Pruning -/

/-- A row of a telemetry table, by its time in milliseconds. -/
structure Entry where
  id : ℕ
  ts : ℤ
deriving DecidableEq, Repr

abbrev Tables := TelemetryTable → List Entry

def MS_PER_DAY : ℤ := 86400000

/-- The cutoff of `pruneOlderThan`.  `toISOString` throws for a time that is no date. -/
def cutoff (now days : ℤ) : Option ℤ :=
  if |now - days * MS_PER_DAY| ≤ 8640000000000000 then some (now - days * MS_PER_DAY) else none

/-- `DELETE FROM τ WHERE ts < cutoff`. -/
def deleteOlder (t : Tables) (τ : TelemetryTable) (cutoff : ℤ) : Tables :=
  Function.update t τ ((t τ).filter (fun e => decide (cutoff ≤ e.ts)))

/-- What a row of the policy prunes: its table and its days, if there are any. -/
def RetentionRow.prunes (row : RetentionRow) : Option (TelemetryTable × ℤ) :=
  match TARGETS.lookup row.dataType, row.days with
  | some τ, some days => if days ≤ 0 then none else some (τ, days)
  | _, _ => none

/-- One turn of the loop; what throws is caught and prunes nothing. -/
def pruneOlderThan (now : ℤ) (t : Tables) (row : RetentionRow) : Tables :=
  match row.prunes with
  | none => t
  | some (τ, days) =>
    match cutoff now days with
    | none => t
    | some c => deleteOlder t τ c

/-- `runRetentionSweep`, without failures and with all its statements at one time. -/
def runRetentionSweep (now : ℤ) (stored : List RetentionRow) (t : Tables) : Tables :=
  (listRetention stored).foldl (pruneOlderThan now) t

/-! ### What a sweep prunes -/

theorem deleteOlder_self (t : Tables) (τ : TelemetryTable) (c : ℤ) :
    deleteOlder t τ c τ = (t τ).filter (fun e => decide (c ≤ e.ts)) :=
  Function.update_self ..

theorem deleteOlder_of_ne (t : Tables) {τ τ' : TelemetryTable} (h : τ' ≠ τ) (c : ℤ) :
    deleteOlder t τ c τ' = t τ' :=
  Function.update_of_ne h ..

/-- The types of the tables; two of them have none. -/
def dataTypeOf : TelemetryTable → Option String
  | statusEvents => some "status_events"
  | clientEvents => some "client_events"
  | hostMetrics => some "host_metrics"
  | pingSamples => some "ping_samples"
  | hostInventory => none
  | dbMetrics => some "db_metrics"
  | storageMetrics => some "storage_metrics"
  | folderMetrics => some "folder_metrics"
  | processMetrics => some "process_metrics"
  | snmpMetrics => some "snmp_metrics"
  | logs => some "logs"
  | auditLog => some "audit_log"
  | uptimeBuckets => some "uptime_buckets"
  | notifications => some "notifications"
  | unitStates => none

/-- Every known type has a table, and no other table has a type. -/
theorem targets_spec : ∀ dataType ∈ RETENTION_DATA_TYPES,
    ∃ τ, TARGETS.lookup dataType = some τ ∧ dataTypeOf τ = some dataType := by
  decide

theorem lookup_targets {dataType : String} {τ : TelemetryTable}
    (h : TARGETS.lookup dataType = some τ) : dataTypeOf τ = some dataType := by
  have hmem : (dataType, τ) ∈ TARGETS := by
    obtain ⟨a, b, hab, -⟩ := List.lookup_eq_some_iff.mp h
    rw [hab]
    simp
  have hall : ∀ e ∈ TARGETS, dataTypeOf e.2 = some e.1 := by decide
  exact hall _ hmem

theorem dataType_listRetention (stored : List RetentionRow) :
    (listRetention stored).map RetentionRow.dataType = RETENTION_DATA_TYPES := by
  rw [listRetention, List.map_map]
  conv_rhs => rw [← List.map_id RETENTION_DATA_TYPES]
  apply List.map_congr_left
  intro dataType _
  show ((Table.lookup RetentionRow.dataType dataType stored).getD _).dataType = dataType
  cases hlookup : Table.lookup RetentionRow.dataType dataType stored with
  | none => rfl
  | some row => exact (Table.lookup_some hlookup).2

/-- A turn of the loop leaves the tables of the other types alone. -/
theorem pruneOlderThan_of_ne {now : ℤ} {t : Tables} {row : RetentionRow} {τ : TelemetryTable}
    (h : dataTypeOf τ ≠ some row.dataType) : pruneOlderThan now t row τ = t τ := by
  rw [pruneOlderThan]
  cases hprunes : row.prunes with
  | none => rfl
  | some p =>
    obtain ⟨τ', days⟩ := p
    dsimp only
    have hτ' : dataTypeOf τ' = some row.dataType := by
      unfold RetentionRow.prunes at hprunes
      split at hprunes
      · rename_i hlookup _
        split at hprunes
        · cases hprunes
        · obtain ⟨rfl, -⟩ := Prod.mk.inj (Option.some.inj hprunes)
          exact lookup_targets hlookup
      · cases hprunes
    have hne : τ ≠ τ' := by
      rintro rfl
      exact h hτ'
    cases cutoff now days with
    | none => rfl
    | some c => exact deleteOlder_of_ne t hne c

/-- A turn of the loop looks at nothing but its own table. -/
theorem pruneOlderThan_congr {now : ℤ} {t t' : Tables} {row : RetentionRow} {τ : TelemetryTable}
    (h : t τ = t' τ) : pruneOlderThan now t row τ = pruneOlderThan now t' row τ := by
  rw [pruneOlderThan, pruneOlderThan]
  cases row.prunes with
  | none => exact h
  | some p =>
    obtain ⟨τ', days⟩ := p
    dsimp only
    cases cutoff now days with
    | none => exact h
    | some c =>
      dsimp only
      by_cases hτ : τ = τ'
      · subst hτ
        rw [deleteOlder_self, deleteOlder_self, h]
      · rw [deleteOlder_of_ne t hτ, deleteOlder_of_ne t' hτ, h]

/-- Over the rows of a policy, only that of its own type touches a table. -/
theorem foldl_prune {now : ℤ} {rows : List RetentionRow}
    (hnodup : (rows.map RetentionRow.dataType).Nodup) (t : Tables) (τ : TelemetryTable) :
    (rows.foldl (pruneOlderThan now) t) τ
      = match rows.find? (fun r => dataTypeOf τ = some r.dataType) with
        | none => t τ
        | some r => pruneOlderThan now t r τ := by
  induction rows generalizing t with
  | nil => rfl
  | cons row rows ih =>
    rw [List.map_cons, List.nodup_cons] at hnodup
    rw [List.foldl_cons, ih hnodup.2, List.find?_cons]
    by_cases hrow : dataTypeOf τ = some row.dataType
    · -- no later row is of this type
      have hnone : rows.find? (fun r => decide (dataTypeOf τ = some r.dataType)) = none := by
        rw [List.find?_eq_none]
        intro r hr hτ
        have hsame := Option.some.inj (hrow.symm.trans (of_decide_eq_true hτ))
        exact hnodup.1 (hsame ▸ List.mem_map_of_mem hr)
      rw [hnone, decide_eq_true hrow]
    · rw [decide_eq_false hrow]
      dsimp only
      cases rows.find? (fun r => decide (dataTypeOf τ = some r.dataType)) with
      | none => exact pruneOlderThan_of_ne hrow
      | some r => exact pruneOlderThan_congr (pruneOlderThan_of_ne hrow)

/-- The days a table is kept for; none are all of them. -/
def daysFor (stored : List RetentionRow) (τ : TelemetryTable) : Option ℤ :=
  ((dataTypeOf τ).bind fun dataType =>
    (Table.lookup RetentionRow.dataType dataType stored).bind RetentionRow.days).filter
      (fun days => decide (0 < days))

theorem find?_map_keyed {l : List String} {f : String → RetentionRow} {d : String} (hd : d ∈ l)
    (hf : ∀ d, (f d).dataType = d) :
    (l.map f).find? (fun r => decide (some d = some r.dataType)) = some (f d) := by
  induction l with
  | nil => exact absurd hd List.not_mem_nil
  | cons x l ih =>
    rw [List.map_cons, List.find?_cons, hf]
    by_cases hx : d = x
    · subst hx
      simp
    · rw [decide_eq_false (by simpa using hx)]
      exact ih ((List.mem_cons.mp hd).resolve_left hx)

/-- **Sweep.**  A sweep that nothing interrupts prunes each table by the days of its own type; a
    table without a type, without days or with a cutoff that is no date is left alone. -/
theorem runRetentionSweep_eq (now : ℤ) (stored : List RetentionRow) (t : Tables)
    (τ : TelemetryTable) :
    runRetentionSweep now stored t τ
      = match (daysFor stored τ).bind (cutoff now) with
        | none => t τ
        | some c => (t τ).filter (fun e => decide (c ≤ e.ts)) := by
  have hnodup : ((listRetention stored).map RetentionRow.dataType).Nodup := by
    rw [dataType_listRetention]
    decide
  rw [runRetentionSweep, foldl_prune hnodup, daysFor]
  cases hτ : dataTypeOf τ with
  | none =>
    have hnone :
        (listRetention stored).find? (fun r => decide (none = some r.dataType)) = none := by
      rw [List.find?_eq_none]
      simp
    rw [hnone]
    rfl
  | some dataType =>
    have htype : dataType ∈ RETENTION_DATA_TYPES ∧ TARGETS.lookup dataType = some τ := by
      cases τ <;> simp only [dataTypeOf, Option.some.injEq, reduceCtorEq] at hτ <;>
        subst hτ <;> decide
    have hfind : (listRetention stored).find? (fun r => decide (some dataType = some r.dataType))
        = some ((Table.lookup RetentionRow.dataType dataType stored).getD ⟨dataType, none⟩) := by
      rw [listRetention]
      exact find?_map_keyed htype.1 fun d => by
        cases hlookup : Table.lookup RetentionRow.dataType d stored with
        | none => rfl
        | some row => exact (Table.lookup_some hlookup).2
    rw [hfind, Option.bind_some]
    dsimp only
    cases hlookup : Table.lookup RetentionRow.dataType dataType stored with
    | none =>
      rw [Option.getD_none, pruneOlderThan, RetentionRow.prunes, htype.2]
      rfl
    | some row =>
      have hrow := (Table.lookup_some hlookup).2
      rw [Option.getD_some, pruneOlderThan, RetentionRow.prunes, hrow, htype.2, Option.bind_some]
      cases row.days with
      | none => rfl
      | some days =>
        dsimp only
        by_cases hdays : days ≤ 0
        · rw [if_pos hdays, Option.filter_some, if_neg (by simpa using hdays)]
          rfl
        · rw [if_neg hdays, Option.filter_some, if_pos (by simpa using hdays), Option.bind_some]
          dsimp only
          cases cutoff now days with
          | none => rfl
          | some c => exact deleteOlder_self t τ c

/-! ### Sweeps while the rest goes on -/

/-- Where a sweep stands: not begun, or with the rows of the policy it has still to treat. -/
inductive Pc
  | idle
  | running (todo : List RetentionRow)
deriving DecidableEq, Repr

/-- A row that a sweep has deleted, and when and by which days. -/
structure Pruned where
  sweep : ℕ
  table : TelemetryTable
  entry : Entry
  now : ℤ
  days : ℤ
deriving DecidableEq, Repr

/-- The two databases and the sweeps; what was pruned, and what others have removed, is recorded
    beside them. -/
structure World where
  policy : List RetentionRow
  rows : Tables
  sweeps : ℕ → Pc
  pruned : List Pruned
  removed : List (TelemetryTable × Entry)

inductive Label
  | write (τ : TelemetryTable) (e : Entry)
  /-- A deletion that is no sweep's. -/
  | remove (τ : TelemetryTable) (ids : List ℕ)
  | set (dataType : String) (days : Option ℤ)
  | begin (i : ℕ)
  /-- A turn of the loop of a sweep, which may fail. -/
  | prune (i : ℕ) (now : ℤ) (ok : Bool)
deriving DecidableEq, Repr

/-- What a turn of the loop deletes. -/
def gone (i : ℕ) (now : ℤ) (t : Tables) (row : RetentionRow) : List Pruned :=
  match row.prunes with
  | none => []
  | some (τ, days) =>
    match cutoff now days with
    | none => []
    | some c => ((t τ).filter (fun e => !decide (c ≤ e.ts))).map (⟨i, τ, ·, now, days⟩)

def World.step (w : World) : Label → Option World
  | .write τ e => some { w with rows := Function.update w.rows τ (w.rows τ ++ [e]) }
  | .remove τ ids =>
    some { w with
      rows := Function.update w.rows τ ((w.rows τ).filter (fun e => !decide (e.id ∈ ids)))
      removed := w.removed ++ ((w.rows τ).filter (fun e => decide (e.id ∈ ids))).map (τ, ·) }
  | .set dataType days =>
    some { w with policy := (putRetention w.policy dataType days).getD w.policy }
  | .begin i =>
    if w.sweeps i = .idle then
      some { w with sweeps := Function.update w.sweeps i (.running (listRetention w.policy)) }
    else none
  | .prune i now ok =>
    match w.sweeps i with
    | .running (row :: todo) =>
      some { w with
        sweeps := Function.update w.sweeps i (.running todo)
        rows := if ok then pruneOlderThan now w.rows row else w.rows
        pruned := w.pruned ++ if ok then gone i now w.rows row else [] }
    | _ => none

def sweeping : Machine World Label where
  step := World.step

def World.initial : World where
  policy := seedRetentionDefaults
  rows := fun _ => []
  sweeps := fun _ => .idle
  pruned := []
  removed := []

/-! ### What a run keeps -/

/-- The policy after some steps. -/
def policyAfter (past : List Label) : List RetentionRow :=
  past.foldl (fun p l => match l with
    | .set dataType days => (putRetention p dataType days).getD p
    | _ => p) seedRetentionDefaults

/-- The rows that were written to a table. -/
def written (past : List Label) (τ : TelemetryTable) : List Entry :=
  past.filterMap fun l => match l with
    | .write τ' e => if τ' = τ then some e else none
    | _ => none

def World.prunedOf (w : World) (τ : TelemetryTable) : List Entry :=
  (w.pruned.filter (fun p => decide (p.table = τ))).map Pruned.entry

def World.removedOf (w : World) (τ : TelemetryTable) : List Entry :=
  (w.removed.filter (fun r => decide (r.1 = τ))).map Prod.snd

/-- The sweep has read a policy when it began, and the policy has some days for the table: the
    row was older when it was pruned. -/
structure Justified (past : List Label) (p : Pruned) : Prop where
  began : ∃ pre rest, past = pre ++ .begin p.sweep :: rest ∧
    ∃ row ∈ listRetention (policyAfter pre), row.prunes = some (p.table, p.days)
  older : p.entry.ts < p.now - p.days * MS_PER_DAY

/-- **Invariant.** -/
structure Kept (past : List Label) (w : World) : Prop where
  policy : w.policy = policyAfter past
  /-- What a sweep has still to treat is from the policy it has read. -/
  todo : ∀ i todo, w.sweeps i = .running todo → ∃ pre rest, past = pre ++ .begin i :: rest ∧
    ∀ row ∈ todo, row ∈ listRetention (policyAfter pre)
  pruned : ∀ p ∈ w.pruned, Justified past p
  /-- Every row that was written is there, or was pruned, or was removed. -/
  rows : ∀ τ, (written past τ).Perm (w.rows τ ++ w.prunedOf τ ++ w.removedOf τ)

theorem Justified.later {past : List Label} {p : Pruned} (h : Justified past p) (l : Label) :
    Justified (past ++ [l]) p := by
  obtain ⟨⟨pre, rest, hpast, hrow⟩, holder⟩ := h
  exact ⟨⟨pre, rest ++ [l], by rw [hpast]; simp, hrow⟩, holder⟩

theorem policyAfter_concat (past : List Label) (l : Label) :
    policyAfter (past ++ [l]) = match l with
      | .set dataType days =>
        (putRetention (policyAfter past) dataType days).getD (policyAfter past)
      | _ => policyAfter past := by
  rw [policyAfter, List.foldl_append]
  rfl

theorem written_concat (past : List Label) (l : Label) (τ : TelemetryTable) :
    written (past ++ [l]) τ = written past τ ++ written [l] τ := by
  rw [written, List.filterMap_append]
  rfl

/-- What was read from the policy stays so. -/
theorem Kept.later {past : List Label} {w : World} (h : Kept past w) (l : Label) (i : ℕ)
    (todo : List RetentionRow) (hi : w.sweeps i = .running todo) :
    ∃ pre rest, past ++ [l] = pre ++ .begin i :: rest ∧
      ∀ row ∈ todo, row ∈ listRetention (policyAfter pre) := by
  obtain ⟨pre, rest, hpast, hrow⟩ := h.todo i todo hi
  exact ⟨pre, rest ++ [l], by rw [hpast]; simp, hrow⟩

/-- A row of a table is older than the cutoff, or it is kept. -/
theorem mem_gone {i : ℕ} {now : ℤ} {t : Tables} {row : RetentionRow} {p : Pruned}
    (h : p ∈ gone i now t row) :
    p.sweep = i ∧ row.prunes = some (p.table, p.days) ∧
      p.entry.ts < p.now - p.days * MS_PER_DAY := by
  unfold gone at h
  split at h
  · exact absurd h List.not_mem_nil
  · rename_i τ days hprunes
    split at h
    · exact absurd h List.not_mem_nil
    · rename_i c hc
      obtain ⟨e, he, rfl⟩ := List.mem_map.mp h
      have hold := (List.mem_filter.mp he).2
      unfold cutoff at hc
      split at hc
      · obtain rfl := Option.some.inj hc
        refine ⟨rfl, hprunes, ?_⟩
        rw [Bool.not_eq_true', decide_eq_false_iff_not] at hold
        exact not_le.mp hold
      · cases hc

/-- A turn of the loop moves rows from their table to what was pruned. -/
theorem perm_prune (i : ℕ) (now : ℤ) (t : Tables) (row : RetentionRow) (τ : TelemetryTable) :
    (t τ).Perm (pruneOlderThan now t row τ ++
      ((gone i now t row).filter (fun p => decide (p.table = τ))).map Pruned.entry) := by
  rw [pruneOlderThan, gone]
  cases row.prunes with
  | none => simp
  | some p =>
    obtain ⟨τ', days⟩ := p
    dsimp only
    cases cutoff now days with
    | none => simp
    | some c =>
      dsimp only
      rw [List.filter_map, List.map_map]
      by_cases hτ : τ = τ'
      · subst hτ
        rw [deleteOlder_self]
        have hsplit := List.filter_append_perm (fun e => decide (c ≤ e.ts)) (t τ)
        simpa [Function.comp_def] using hsplit.symm
      · rw [deleteOlder_of_ne t hτ]
        simp [Function.comp_def, Ne.symm hτ]

section

variable {past : List Label} {w : World}

/-- A step that writes no row leaves what was written. -/
theorem written_other {l : Label} (hl : ∀ τ e, l ≠ .write τ e) (τ : TelemetryTable) :
    written (past ++ [l]) τ = written past τ := by
  rw [written_concat]
  cases l with
  | write τ' e => exact absurd rfl (hl τ' e)
  | remove τ' ids => exact List.append_nil _
  | set dataType days => exact List.append_nil _
  | begin i => exact List.append_nil _
  | prune i now ok => exact List.append_nil _

theorem Kept.write (h : Kept past w) (τ : TelemetryTable) (e : Entry) :
    Kept (past ++ [.write τ e])
      { w with rows := Function.update w.rows τ (w.rows τ ++ [e]) } := by
  refine ⟨?_, fun i todo hi => h.later _ i todo hi, fun p hp => (h.pruned p hp).later _, ?_⟩
  · rw [policyAfter_concat]
    exact h.policy
  · intro τ'
    show (written (past ++ [.write τ e]) τ').Perm
      (Function.update w.rows τ (w.rows τ ++ [e]) τ' ++ w.prunedOf τ' ++ w.removedOf τ')
    rw [written_concat]
    by_cases hτ : τ' = τ
    · subst hτ
      have hnew : written [.write τ' e] τ' = [e] := by simp [written]
      rw [Function.update_self, hnew]
      refine ((h.rows τ').append_right [e]).trans ?_
      rw [List.append_assoc, List.append_assoc, List.append_assoc, List.append_assoc]
      refine List.Perm.append_left _ ?_
      rw [← List.append_assoc]
      exact List.perm_append_comm
    · have hnone : written [.write τ e] τ' = [] := by simp [written, Ne.symm hτ]
      rw [Function.update_of_ne hτ, hnone, List.append_nil]
      exact h.rows τ'

theorem Kept.remove (h : Kept past w) (τ : TelemetryTable) (ids : List ℕ) :
    Kept (past ++ [.remove τ ids])
      { w with
        rows := Function.update w.rows τ ((w.rows τ).filter (fun e => !decide (e.id ∈ ids)))
        removed := w.removed ++
          ((w.rows τ).filter (fun e => decide (e.id ∈ ids))).map (τ, ·) } := by
  refine ⟨?_, fun i todo hi => h.later _ i todo hi, fun p hp => (h.pruned p hp).later _, ?_⟩
  · rw [policyAfter_concat]
    exact h.policy
  · intro τ'
    rw [written_other (by simp)]
    show (written past τ').Perm (Function.update w.rows τ _ τ' ++ w.prunedOf τ' ++
      ((w.removed ++ ((w.rows τ).filter (fun e => decide (e.id ∈ ids))).map (τ, ·)).filter
        (fun r => decide (r.1 = τ'))).map Prod.snd)
    have hremoved : ((w.removed ++
          ((w.rows τ).filter (fun e => decide (e.id ∈ ids))).map (τ, ·)).filter
            (fun r => decide (r.1 = τ'))).map Prod.snd
        = w.removedOf τ' ++
          if τ = τ' then (w.rows τ).filter (fun e => decide (e.id ∈ ids)) else [] := by
      rw [List.filter_append, List.map_append, List.filter_map, List.map_map, World.removedOf]
      split <;> rename_i hτ <;> simp [Function.comp_def, hτ]
    rw [hremoved]
    by_cases hτ : τ' = τ
    · subst hτ
      rw [Function.update_self, if_pos rfl]
      have hsplit := List.filter_append_perm (fun e => !decide (e.id ∈ ids)) (w.rows τ')
      simp only [Bool.not_not] at hsplit
      refine (h.rows τ').trans ?_
      rw [List.append_assoc, List.append_assoc]
      refine (hsplit.symm.append_right _).trans ?_
      rw [List.append_assoc]
      refine List.Perm.append_left _ ?_
      refine List.perm_append_comm.trans ?_
      rw [List.append_assoc]
    · rw [Function.update_of_ne hτ, if_neg (Ne.symm hτ), List.append_nil]
      exact h.rows τ'

theorem Kept.set (h : Kept past w) (dataType : String) (days : Option ℤ) :
    Kept (past ++ [.set dataType days])
      { w with policy := (putRetention w.policy dataType days).getD w.policy } := by
  refine ⟨?_, fun i todo hi => h.later _ i todo hi, fun p hp => (h.pruned p hp).later _, ?_⟩
  · rw [policyAfter_concat, ← h.policy]
  · intro τ'
    rw [written_other (by simp)]
    exact h.rows τ'

/-- A sweep reads the policy of the moment it begins. -/
theorem Kept.begin (h : Kept past w) (i : ℕ) :
    Kept (past ++ [.begin i])
      { w with sweeps := Function.update w.sweeps i (.running (listRetention w.policy)) } := by
  refine ⟨?_, ?_, fun p hp => (h.pruned p hp).later _, ?_⟩
  · rw [policyAfter_concat]
    exact h.policy
  · intro j todo hj
    have hj : Function.update w.sweeps i (.running (listRetention w.policy)) j = .running todo := hj
    by_cases hji : j = i
    · subst hji
      rw [Function.update_self] at hj
      obtain rfl := Pc.running.inj hj
      refine ⟨past, [], rfl, fun row hrow => ?_⟩
      rwa [h.policy] at hrow
    · rw [Function.update_of_ne hji] at hj
      exact h.later _ j todo hj
  · intro τ'
    rw [written_other (by simp)]
    exact h.rows τ'

/-- A turn of the loop treats a row of the policy that its sweep has read. -/
theorem Kept.prune (h : Kept past w) {i : ℕ} {row : RetentionRow} {todo : List RetentionRow}
    (hi : w.sweeps i = .running (row :: todo)) (now : ℤ) (ok : Bool) :
    Kept (past ++ [.prune i now ok])
      { w with
        sweeps := Function.update w.sweeps i (.running todo)
        rows := if ok then pruneOlderThan now w.rows row else w.rows
        pruned := w.pruned ++ if ok then gone i now w.rows row else [] } := by
  obtain ⟨pre, rest, hpast, hread⟩ := h.later (.prune i now ok) i _ hi
  rw [List.forall_mem_cons] at hread
  refine ⟨?_, ?_, ?_, ?_⟩
  · rw [policyAfter_concat]
    exact h.policy
  · intro j todo' hj
    have hj : Function.update w.sweeps i (.running todo) j = .running todo' := hj
    by_cases hji : j = i
    · subst hji
      rw [Function.update_self] at hj
      obtain rfl := Pc.running.inj hj
      exact ⟨pre, rest, hpast, hread.2⟩
    · rw [Function.update_of_ne hji] at hj
      exact h.later _ j todo' hj
  · intro p hp
    rcases List.mem_append.mp hp with hp | hp
    · exact (h.pruned p hp).later _
    · cases ok with
      | false => exact absurd hp List.not_mem_nil
      | true =>
        obtain ⟨rfl, hprunes, holder⟩ := mem_gone hp
        exact ⟨⟨pre, rest, hpast, row, hread.1, hprunes⟩, holder⟩
  · intro τ'
    rw [written_other (by simp)]
    refine (h.rows τ').trans ?_
    cases ok with
    | false => simp [World.prunedOf, World.removedOf]
    | true =>
      show (w.rows τ' ++ w.prunedOf τ' ++ w.removedOf τ').Perm
        (pruneOlderThan now w.rows row τ' ++
          ((w.pruned ++ gone i now w.rows row).filter (fun p => decide (p.table = τ'))).map
            Pruned.entry ++ w.removedOf τ')
      rw [List.filter_append, List.map_append]
      show (w.rows τ' ++ w.prunedOf τ' ++ w.removedOf τ').Perm
        (pruneOlderThan now w.rows row τ' ++ (w.prunedOf τ' ++ _) ++ w.removedOf τ')
      refine List.Perm.append_right _ ?_
      refine ((perm_prune i now w.rows row τ').append_right _).trans ?_
      rw [List.append_assoc]
      exact List.Perm.append_left _ List.perm_append_comm

/-- **Step.** -/
theorem Kept.step {w' : World} {l : Label} (h : Kept past w) (hstep : w.step l = some w') :
    Kept (past ++ [l]) w' := by
  cases l with
  | write τ e =>
    obtain rfl := Option.some.inj hstep
    exact h.write τ e
  | remove τ ids =>
    obtain rfl := Option.some.inj hstep
    exact h.remove τ ids
  | set dataType days =>
    obtain rfl := Option.some.inj hstep
    exact h.set dataType days
  | begin i =>
    simp only [World.step] at hstep
    split at hstep
    · obtain rfl := Option.some.inj hstep
      exact h.begin i
    · cases hstep
  | prune i now ok =>
    simp only [World.step] at hstep
    split at hstep
    · rename_i row todo hi
      obtain rfl := Option.some.inj hstep
      exact h.prune hi now ok
    · cases hstep

end

theorem Kept.initial : Kept [] .initial where
  policy := rfl
  todo := fun i todo hi => absurd hi (by simp [World.initial])
  pruned := fun p hp => absurd hp List.not_mem_nil
  rows := fun τ => List.Perm.refl _

/-- **Retention.**  After every run, whatever sweeps overlapped, with whatever failures, while
    rows were written and removed and the policy was changed: a row that was written to a table is
    there, or was removed by something else, or was pruned; and it was pruned only because the
    policy that its sweep read when it began kept the table for fewer days than the row was old.
    The states of the units and the inventories are never pruned. -/
theorem retention_sound {ls : List Label} {w : World}
    (hrun : sweeping.exec .initial ls = some w) :
    (∀ τ, (written ls τ).Perm (w.rows τ ++ w.prunedOf τ ++ w.removedOf τ)) ∧
      (∀ p ∈ w.pruned, 0 < p.days ∧ Justified ls p) ∧
      w.prunedOf unitStates = [] ∧ w.prunedOf hostInventory = [] := by
  have hkept : Kept ls w := by
    refine Machine.inv_of_history (M := sweeping) (G := fun _ _ => True) ?_ Kept.initial
      (fun _ _ _ _ => trivial) hrun
    exact fun past w l w' h _ hstep => h.step hstep
  have htyped : ∀ p ∈ w.pruned, 0 < p.days ∧ dataTypeOf p.table ≠ none := by
    intro p hp
    obtain ⟨pre, rest, hls, row, hrow, hprunes⟩ := (hkept.pruned p hp).began
    unfold RetentionRow.prunes at hprunes
    split at hprunes
    · rename_i hlookup _
      split at hprunes
      · cases hprunes
      · rename_i hdays
        obtain ⟨rfl, rfl⟩ := Prod.mk.inj (Option.some.inj hprunes)
        rw [lookup_targets hlookup]
        exact ⟨not_le.mp hdays, Option.some_ne_none _⟩
    · cases hprunes
  have hnever : ∀ τ, dataTypeOf τ = none → w.prunedOf τ = [] := by
    intro τ hτ
    rw [World.prunedOf, List.map_eq_nil_iff, List.filter_eq_nil_iff]
    intro p hp hpτ
    exact (htyped p hp).2 (of_decide_eq_true hpτ ▸ hτ)
  exact ⟨hkept.rows, fun p hp => ⟨(htyped p hp).1, hkept.pruned p hp⟩, hnever _ rfl, hnever _ rfl⟩

/-- A sweep that has begun goes on when the policy it has read is taken back. -/
theorem retention_sound_overtaken :
    ∃ w, sweeping.exec .initial [.write logs ⟨1, 0⟩, .set "logs" (some 1), .begin 0,
        .set "logs" none, .prune 0 172800000 true, .prune 0 172800000 true,
        .prune 0 172800000 true, .prune 0 172800000 true, .prune 0 172800000 true,
        .prune 0 172800000 true, .prune 0 172800000 true, .prune 0 172800000 true,
        .prune 0 172800000 true, .prune 0 172800000 true] = some w ∧
      w.prunedOf logs = [⟨1, 0⟩] ∧ w.prunedOf unitStates = [] := by
  obtain ⟨w, hrun, hpruned⟩ := Option.map_eq_some_iff.mp (show
    (sweeping.exec .initial [.write logs ⟨1, 0⟩, .set "logs" (some 1), .begin 0,
      .set "logs" none, .prune 0 172800000 true, .prune 0 172800000 true,
      .prune 0 172800000 true, .prune 0 172800000 true, .prune 0 172800000 true,
      .prune 0 172800000 true, .prune 0 172800000 true, .prune 0 172800000 true,
      .prune 0 172800000 true, .prune 0 172800000 true]).map (fun w => w.prunedOf logs)
        = some [⟨1, 0⟩] from by decide)
  exact ⟨w, hrun, hpruned, (retention_sound hrun).2.2.1⟩

end Argus.Pipeline.Sweeps
