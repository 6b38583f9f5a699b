import Argus.Pipeline.LiveFeed
import Argus.Pipeline.Uptime

namespace Argus.Pipeline

/-!
# Since when a unit has its status

A tile shows how long a unit has held its status.  The snapshot takes the instant from
`unit_states.updatedAt`, which every sample moves; a patch that changes the status takes it from
the clock of the browser.  The event log has the instant of the last `STATUS_CHANGE`.

* `entered` — the instant of the last batch that recorded a status change of the unit.
* `watched` — the client after a snapshot and the patches of the batches that follow it, whatever
  it showed before.
* `lastChange` — of the batches after the snapshot, the last one that changes the status.
* `SinceKept` — the condition; `since_iff` — under it, and only then, the tile shows `entered`.
-/

open ChangeLog
open Argus.Core (HealthStatus)

variable {s e : String}

/-! ### The log and the client -/

/-- The batch brings a status that is not the stored one. -/
def Call.Changes (s e : String) (db : TelemetryDb) (c : Call) : Prop :=
  ∃ status ∈ c.reports s e, db.status s e ≠ some status

instance (db : TelemetryDb) (c : Call) : Decidable (c.Changes s e db) :=
  inferInstanceAs (Decidable (∃ status ∈ c.reports s e, db.status s e ≠ some status))

/-- The instant of the last batch that recorded a `STATUS_CHANGE` of the unit. -/
def entered (s e : String) (db : TelemetryDb) : List Call → Option ℕ
  | [] => none
  | c :: calls =>
    (entered s e (processUnits db c) calls).or
      (if logged s e (c.pending db) = [] then none else some c.now)

/-- The client: a snapshot of what the batches `past` have stored, then the patches of the
    batches that follow, each applied at an instant of its own. -/
def watched (view : View) (t : ℕ) (past : List Call) (rest : List (Call × ℕ)) : View :=
  rest.foldl (fun v d => apply d.2 v (.patch d.1.liveUnits))
    (apply t view (.snapshot (past.foldl processUnits .empty).liveUnits))

/-- The instant a tile shows. -/
def View.since (view : View) (s e : String) : Option ℕ :=
  (view (unitKey s e)).bind LiveUnit.since

/-! ### The condition -/

/-- The last batch that changes the status of the unit, and when its patch was applied. -/
def lastChange (s e : String) (db : TelemetryDb) : List (Call × ℕ) → Option (Call × ℕ)
  | [] => none
  | d :: rest =>
    (lastChange s e (processUnits db d.1) rest).or (if d.1.Changes s e db then some d else none)

/-- If a batch after the snapshot changes the status, the patch of the last one was applied at
    the instant of the batch; if none does, the last sample before the snapshot came at the
    instant of the last change. -/
def SinceKept (s e : String) (past : List Call) (rest : List (Call × ℕ)) : Prop :=
  match lastChange s e (past.foldl processUnits .empty) rest with
  | some (c, t) => t = c.now
  | none => (sampleTimes s e past).getLast? = entered s e .empty past

/-! ### The log -/

/-- A batch records a change exactly when it brings one. -/
theorem logged_eq_nil {db : TelemetryDb} (h : db.WF) (c : Call) :
    logged s e (c.pending db) = [] ↔ ¬ c.Changes s e db := by
  rw [logged_pending h, diffLog_eq_nil, Call.Changes]
  push Not
  rfl

theorem wf_foldl {db : TelemetryDb} (h : db.WF) (calls : List Call) :
    (calls.foldl processUnits db).WF :=
  List.foldlRecOn calls processUnits h (fun _ hdb c _ => hdb.processUnits c)

theorem entered_append (db : TelemetryDb) (past calls : List Call) :
    entered s e db (past ++ calls)
      = (entered s e (past.foldl processUnits db) calls).or (entered s e db past) := by
  induction past generalizing db with
  | nil => exact (Option.or_none).symm
  | cons c past ih =>
    rw [List.cons_append, entered, entered, ih, List.foldl_cons, Option.or_assoc]

/-- The log has the instant of the last batch that brings a change. -/
theorem entered_lastChange {db : TelemetryDb} (h : db.WF) (rest : List (Call × ℕ)) :
    entered s e db (rest.map Prod.fst) = (lastChange s e db rest).map (fun d => d.1.now) := by
  induction rest generalizing db with
  | nil => rfl
  | cons d rest ih =>
    rw [List.map_cons, entered, lastChange, ih (h.processUnits d.1)]
    have hlog := logged_eq_nil (s := s) (e := e) h d.1
    by_cases hchange : d.1.Changes s e db
    · rw [if_neg (fun hnil => hlog.mp hnil hchange), if_pos hchange]
      cases lastChange s e (processUnits db d.1) rest <;> rfl
    · rw [if_pos (hlog.mpr hchange), if_neg hchange, Option.or_none, Option.or_none]

/-- The stored instant is that of the last sample. -/
theorem updatedAt_foldl (s e : String) (calls : List Call) :
    ((calls.foldl processUnits .empty).unit s e).map UnitState.updatedAt
      = (sampleTimes s e calls).getLast? := by
  induction calls using List.reverseRecOn with
  | nil => rfl
  | append_singleton calls c ih =>
    rw [List.foldl_append, List.foldl_cons, List.foldl_nil, updatedAt_processUnits, ih]
    by_cases hnone : c.samplesOf s e = []
    · rw [hnone, sampleTimes_append_of_nil hnone]
      rfl
    · rw [sampleTimes_append_of_ne hnone, List.getLast?_concat, latest, List.getLast?_map,
        List.getLast?_eq_some_getLast hnone]
      rfl

/-! ### The client -/

theorem statuses_cons_self (u : LiveUnit) (units : List LiveUnit) :
    statuses u.key (u :: units) = u.status :: statuses u.key units := by
  simp [statuses]

theorem statuses_cons_of_ne {u : LiveUnit} {key : String} (h : u.key ≠ key)
    (units : List LiveUnit) : statuses key (u :: units) = statuses key units := by
  simp [statuses, h]

/-- A patch without instants: the tile keeps its instant while the status stays, and takes the
    client's when it does not. -/
theorem since_foldl (t : ℕ) (key : String) {units : List LiveUnit}
    (hnone : ∀ u ∈ units, u.since = none) (view : View) :
    ((units.foldl (fun v u => View.set v u.key (u.merged t (v u.key))) view) key).bind
        LiveUnit.since
      = if ∀ status ∈ statuses key units, (view key).map LiveUnit.status = some status
        then (view key).bind LiveUnit.since else some t := by
  induction units generalizing view with
  | nil => simp [statuses]
  | cons u units ih =>
    rw [List.foldl_cons, ih (fun u' hu' => hnone u' (List.mem_cons_of_mem u hu'))]
    by_cases hkey : u.key = key
    · subst hkey
      have hfresh : u.since = none := hnone u List.mem_cons_self
      rw [statuses_cons_self, View.set, Function.update_self, Option.map_some, merged_status]
      simp only [List.forall_mem_cons]
      by_cases hsame : (view u.key).map LiveUnit.status = some u.status
      · obtain ⟨old, hold, hstatus⟩ := Option.map_eq_some_iff.mp hsame
        rw [hold, LiveUnit.merged]
        simp only [hstatus, if_true, Option.map_some, true_and, Option.bind_some]
      · -- the status is another one, or the unit is new
        have hmerged : (u.merged t (view u.key)).since = some t := by
          unfold LiveUnit.merged
          split
          · rename_i old hold
            rw [hold] at hsame
            rw [if_neg (fun heq => hsame (congrArg some heq)), hfresh]
            rfl
          · rw [hfresh]
            rfl
        rw [Option.bind_some, hmerged, ite_self, if_neg (fun hall => hsame hall.1)]
    · rw [statuses_cons_of_ne hkey, View.set, Function.update_of_ne (Ne.symm hkey)]

/-- **Client lemma.**  The patch of a batch moves the instant exactly when the batch changes the
    status that is shown. -/
theorem since_patch {db : TelemetryDb} {view : View} {c : Call} (hc : SourceId c.sourceId)
    (hs : SourceId s) (t : ℕ)
    (hshown : (view (unitKey s e)).map LiveUnit.status = db.status s e) :
    (apply t view (.patch c.liveUnits)).since s e
      = if c.Changes s e db then some t else view.since s e := by
  have hfresh : ∀ u ∈ c.liveUnits, u.since = none := by
    intro u hu
    obtain ⟨_, -, rfl⟩ := List.mem_map.mp hu
    rfl
  rw [View.since, apply, since_foldl t _ hfresh, statuses_call hc hs, hshown]
  by_cases hchange : c.Changes s e db
  · have hnot : ¬ ∀ status ∈ c.reports s e, db.status s e = some status := by
      obtain ⟨status, hmem, hne⟩ := hchange
      exact fun hall => hne (hall status hmem)
    rw [if_pos hchange, if_neg hnot]
  · have hall : ∀ status ∈ c.reports s e, db.status s e = some status := by
      intro status hmem
      by_contra hne
      exact hchange ⟨status, hmem, hne⟩
    rw [if_neg hchange, if_pos hall]
    rfl

/-- The patch of a batch brings the status that the batch stores. -/
theorem status_patch {db : TelemetryDb} (h : db.WF) {view : View} {c : Call}
    (hc : SourceId c.sourceId) (hs : SourceId s) (t : ℕ)
    (hshown : (view (unitKey s e)).map LiveUnit.status = db.status s e) :
    ((apply t view (.patch c.liveUnits)) (unitKey s e)).map LiveUnit.status
      = (processUnits db c).status s e := by
  rw [apply_status, LiveMessage.statusAfter, statuses_call hc hs, hshown,
    (changes_processUnits h s e c).2]

/-- The patches of any number of batches. -/
theorem since_patches {rest : List (Call × ℕ)} (hrest : ∀ d ∈ rest, SourceId d.1.sourceId)
    (hs : SourceId s) {db : TelemetryDb} (h : db.WF) {view : View}
    (hshown : (view (unitKey s e)).map LiveUnit.status = db.status s e) :
    View.since (rest.foldl (fun v d => apply d.2 v (.patch d.1.liveUnits)) view) s e
      = ((lastChange s e db rest).map Prod.snd).or (view.since s e) := by
  -- view and database move together, so both are generalised
  induction rest generalizing db view with
  | nil => rfl
  | cons d rest ih =>
    have hd : SourceId d.1.sourceId := hrest d List.mem_cons_self
    rw [List.foldl_cons, ih (fun d' hd' => hrest d' (List.mem_cons_of_mem d hd'))
      (h.processUnits d.1) (status_patch h hd hs d.2 hshown), since_patch hd hs d.2 hshown, lastChange]
    by_cases hchange : d.1.Changes s e db
    · rw [if_pos hchange, if_pos hchange]
      cases lastChange s e (processUnits db d.1) rest <;> rfl
    · rw [if_neg hchange, if_neg hchange, Option.or_none]

/-- The rows that statements write are rows of their sources. -/
theorem execAll_sources {stmts : List Stmt}
    (hstmts : ∀ row, .upsertUnit row ∈ stmts → SourceId row.sourceId) {db : TelemetryDb}
    (h : ∀ r ∈ db.unitStates, SourceId r.sourceId) :
    ∀ r ∈ (execAll db stmts).unitStates, SourceId r.sourceId := by
  induction stmts generalizing db with
  | nil => exact h
  | cons stmt stmts ih =>
    refine ih (fun row hrow => hstmts row (List.mem_cons_of_mem stmt hrow)) ?_
    exact exec_sources h (fun row heq => hstmts row (heq ▸ List.mem_cons_self))

theorem foldl_sources {calls : List Call} (hcalls : ∀ c ∈ calls, SourceId c.sourceId) :
    ∀ r ∈ (calls.foldl processUnits .empty).unitStates, SourceId r.sourceId := by
  induction calls using List.reverseRecOn with
  | nil => exact fun r hr => absurd hr List.not_mem_nil
  | append_singleton calls c ih =>
    rw [List.foldl_append, List.foldl_cons, List.foldl_nil, processUnits_eq]
    refine execAll_sources (fun row hrow => ?_)
      (ih (fun c' hc' => hcalls c' (List.mem_append_left _ hc')))
    rw [mem_pending_upsert hrow]
    exact hcalls c (by simp)

/-- The snapshot shows the stored row. -/
theorem snapshot_unit {db : TelemetryDb} (h : db.WF)
    (hrows : ∀ r ∈ db.unitStates, SourceId r.sourceId) (hs : SourceId s) (t : ℕ) (view : View) :
    (apply t view (.snapshot db.liveUnits)) (unitKey s e) = (db.unit s e).map UnitState.live := by
  have hfold := view_foldl id (fun _ u => u) (fun _ _ => rfl) (unitKey s e) db.liveUnits
    (fun _ => none)
  rw [Option.map_id_fun, List.map_id_fun] at hfold
  refine hfold.trans ?_
  rw [TelemetryDb.unit, ← latest_filter_lookup UnitState.live h.units, TelemetryDb.liveUnits,
    List.filter_map]
  refine congrArg (fun rows => latest none (rows.map UnitState.live))
    (List.filter_congr (fun r hr => ?_))
  simp [LiveUnit.key, UnitState.live, UnitState.key, unitKey_inj (hrows r hr) hs]

/-- **Since.**  After a snapshot and any patches that follow it, whatever the client showed
    before, a tile shows the instant of the last status change if and only if the condition
    holds. -/
theorem since_iff (view : View) (t : ℕ) {past : List Call} {rest : List (Call × ℕ)}
    (hpast : ∀ c ∈ past, SourceId c.sourceId) (hrest : ∀ d ∈ rest, SourceId d.1.sourceId)
    (hs : SourceId s) :
    (watched view t past rest).since s e
        = entered s e .empty (past ++ rest.map Prod.fst) ↔ SinceKept s e past rest := by
  have hwf := wf_foldl TelemetryDb.WF.empty past
  have hunit := snapshot_unit (e := e) hwf (foldl_sources hpast) hs t view
  have hshown : ((apply t view (.snapshot (past.foldl processUnits .empty).liveUnits))
      (unitKey s e)).map LiveUnit.status = (past.foldl processUnits .empty).status s e := by
    rw [hunit, Option.map_map]
    rfl
  have hsince : View.since (apply t view (.snapshot (past.foldl processUnits .empty).liveUnits)) s e
      = (sampleTimes s e past).getLast? := by
    rw [View.since, hunit, ← updatedAt_foldl]
    cases (past.foldl processUnits .empty).unit s e <;> rfl
  rw [watched, since_patches hrest hs hwf hshown, hsince, entered_append,
    entered_lastChange hwf, SinceKept]
  cases lastChange s e (past.foldl processUnits .empty) rest with
  | none => rfl
  | some d => simp

namespace Sample

/-- A batch of one sample. -/
def batch (status : HealthStatus) (now : ℕ) : Call :=
  { sourceId := "agent-1", units := [{ entity := "svcA", status := status }], now := now }

theorem sourceId_agent : SourceId "agent-1" := by
  unfold SourceId
  decide

end Sample

open Sample in
/-- The unit goes down while the client watches, and its patch arrives at once; unchanged samples
    follow. -/
theorem since_down :
    (watched (fun _ => none) 0 [batch .up 1000] [(batch .down 2000, 2000), (batch .down 3000, 3005)]
      ).since "agent-1" "svcA" = entered "agent-1" "svcA" .empty
        [batch .up 1000, batch .down 2000, batch .down 3000] := by
  refine (since_iff (fun _ => none) 0 ?_ ?_ sourceId_agent).mpr rfl
  · intro c hc
    rw [List.mem_singleton.mp hc]
    exact sourceId_agent
  · intro d hd
    rcases List.mem_cons.mp hd with rfl | hd
    · exact sourceId_agent
    · rw [List.mem_singleton.mp hd]
      exact sourceId_agent

open Sample in
/-- A unit that is up since the instant `1000` and is sampled again at `61000`: whoever connects
    then is told that it is up since `61000`. -/
theorem since_restarts :
    ¬ ∀ (view : View) (t : ℕ) (past : List Call) (rest : List (Call × ℕ)) (s e : String),
      (∀ c ∈ past, SourceId c.sourceId) → (∀ d ∈ rest, SourceId d.1.sourceId) → SourceId s →
      (watched view t past rest).since s e = entered s e .empty (past ++ rest.map Prod.fst) := by
  intro h
  have hboth := h (fun _ => none) 0 [batch .up 1000, batch .up 61000] [] "agent-1" "svcA" ?_ ?_
    sourceId_agent
  · have hshown : (watched (fun _ => none) 0 [batch .up 1000, batch .up 61000] []).since
        "agent-1" "svcA" = some 61000 := rfl
    have hentered : entered "agent-1" "svcA" .empty [batch .up 1000, batch .up 61000]
        = some 1000 := rfl
    rw [hshown, List.map_nil, List.append_nil, hentered] at hboth
    exact absurd hboth (by decide)
  · intro c hc
    rcases List.mem_cons.mp hc with rfl | hc
    · exact sourceId_agent
    · rw [List.mem_singleton.mp hc]
      exact sourceId_agent
  · exact fun d hd => absurd hd List.not_mem_nil

end Argus.Pipeline
