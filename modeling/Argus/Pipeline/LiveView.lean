import Argus.Pipeline.Concurrent
import Mathlib.Data.List.Induction

namespace Argus.Pipeline

/-!
# The operator's live view

What an operator's browser makes of the messages of the live channel: the snapshot built by
`getLiveSnapshot` replaces its map of units, a patch is merged into it (`apply` of
`useLiveState.ts`).  The agents in the messages, and the messages about agents and log lines,
do not touch the units and are left out.

* `LiveUnit`, `LiveMessage` — the messages, as far as they are about units.
* `apply`, `deliver` — the client.
* `statusAfter`, `statusOf` — the status a unit has after messages; `deliver_status` says that
  the client shows it, whenever the messages arrive.
* `unitKey_inj` — the keys of the client tell the units of different sources apart, as source
  ids are UUIDs and have no colon.
-/

open ChangeLog
open Argus.Core (HealthStatus)

/-- `LiveUnit`; a patch has no `since`. -/
structure LiveUnit where
  sourceId : String
  entity : String
  status : HealthStatus
  pid : Option ℤ
  since : Option ℕ := none
  unitMeta : Option String
deriving DecidableEq, Repr

/-- `LiveSnapshot` and `LivePatch`. -/
inductive LiveMessage
  | snapshot (units : List LiveUnit)
  | patch (units : List LiveUnit)
deriving DecidableEq, Repr

/-- The unit `getLiveSnapshot` makes of a row. -/
def UnitState.live (r : UnitState) : LiveUnit where
  sourceId := r.sourceId
  entity := r.entity
  status := r.status
  pid := r.pid
  since := some r.updatedAt
  unitMeta := r.sample

/-- The units of `getLiveSnapshot`. -/
def TelemetryDb.liveUnits (db : TelemetryDb) : List LiveUnit := db.unitStates.map UnitState.live

/-- The units of the patch an ingest broadcasts. -/
def Call.liveUnits (c : Call) : List LiveUnit :=
  c.units.map (fun u =>
    { sourceId := c.sourceId, entity := u.entity, status := u.status, pid := u.pid,
      unitMeta := u.unitMeta })

/-! ### The client -/

/-- `unitKey`. -/
def unitKey (sourceId entity : String) : String := sourceId ++ ":" ++ entity

def LiveUnit.key (u : LiveUnit) : String := unitKey u.sourceId u.entity

/-- `unitMap`. -/
abbrev View := String → Option LiveUnit

/-- `unitMap.set`. -/
def View.set (view : View) (key : String) (u : LiveUnit) : View :=
  Function.update view key (some u)

/-- The unit a patch puts in the place of `existing`: `since` stays while the status does. -/
def LiveUnit.merged (now : ℕ) (existing : Option LiveUnit) (u : LiveUnit) : LiveUnit :=
  match existing with
  | some old =>
    if old.status = u.status then { u with since := old.since }
    else { u with since := some (u.since.getD now) }
  | none => { u with since := some (u.since.getD now) }

/-- `apply`, at the instant `now`. -/
def apply (now : ℕ) (view : View) : LiveMessage → View
  | .snapshot units =>
    units.foldl (fun v u => View.set v u.key u) (fun _ => none)
  | .patch units =>
    units.foldl (fun v u => View.set v u.key (u.merged now (v u.key))) view

/-- The view after messages, each applied at an instant of its own. -/
def deliver (delivered : List (ℕ × LiveMessage)) : View :=
  delivered.foldl (fun v d => apply d.1 v d.2) (fun _ => none)

/-! ### Statuses -/

/-- The statuses that a list of units gives to a key, in order. -/
def statuses (key : String) (units : List LiveUnit) : List HealthStatus :=
  (units.filter (fun u => decide (u.key = key))).map LiveUnit.status

/-- The status of a key after a message. -/
def LiveMessage.statusAfter (key : String) (before : Option HealthStatus) :
    LiveMessage → Option HealthStatus
  | .snapshot units => latest none (statuses key units)
  | .patch units => latest before (statuses key units)

/-- The status of a key after messages. -/
def statusOf (messages : List LiveMessage) (key : String) : Option HealthStatus :=
  messages.foldl (fun before msg => msg.statusAfter key before) none

theorem statusOf_append (messages : List LiveMessage) (msg : LiveMessage) (key : String) :
    statusOf (messages ++ [msg]) key = msg.statusAfter key (statusOf messages key) := by
  rw [statusOf, List.foldl_append]
  rfl

/-- Units put into a map, each in a way that keeps `f`. -/
theorem view_foldl {β : Type} (f : LiveUnit → β) (put : View → LiveUnit → LiveUnit)
    (hput : ∀ v u, f (put v u) = f u) (key : String) (units : List LiveUnit) (view : View) :
    ((units.foldl (fun v u => View.set v u.key (put v u)) view) key).map f
      = latest ((view key).map f) ((units.filter (fun u => decide (u.key = key))).map f) := by
  induction units generalizing view with
  | nil => rfl
  | cons u units ih =>
    rw [List.foldl_cons, ih]
    by_cases hkey : u.key = key
    · subst hkey
      rw [View.set, Function.update_self, Option.map_some, hput,
        List.filter_cons_of_pos (by simp), List.map_cons, latest_cons]
    · rw [View.set, Function.update_of_ne (Ne.symm hkey),
        List.filter_cons_of_neg (by simpa using hkey)]

theorem merged_status (now : ℕ) (existing : Option LiveUnit) (u : LiveUnit) :
    (u.merged now existing).status = u.status := by
  unfold LiveUnit.merged
  split
  · split <;> rfl
  · rfl

theorem apply_status (now : ℕ) (view : View) (msg : LiveMessage) (key : String) :
    ((apply now view msg) key).map LiveUnit.status
      = msg.statusAfter key ((view key).map LiveUnit.status) := by
  cases msg with
  | snapshot units =>
    exact view_foldl LiveUnit.status (fun _ u => u) (fun _ _ => rfl) key units (fun _ => none)
  | patch units =>
    exact view_foldl LiveUnit.status (fun v u => u.merged now (v u.key))
      (fun v u => merged_status now (v u.key) u) key units view

/-- **Client lemma.**  The statuses shown do not depend on when the messages arrive. -/
theorem deliver_status (delivered : List (ℕ × LiveMessage)) (key : String) :
    ((deliver delivered) key).map LiveUnit.status = statusOf (delivered.map Prod.snd) key := by
  induction delivered using List.reverseRecOn with
  | nil => rfl
  | append_singleton delivered d ih =>
    rw [deliver, List.foldl_append, List.foldl_cons, List.foldl_nil, apply_status, List.map_append,
      List.map_singleton, statusOf_append, ← ih]
    rfl

/-! ### Keys -/

/-- A source id: a text without colon, as the UUIDs of `agents.id`. -/
def SourceId (s : String) : Prop := ':' ∉ s.toList

/-- A text up to its first colon, and the rest. -/
theorem append_colon_inj {a b x y : List Char} (ha : ':' ∉ a) (hb : ':' ∉ b)
    (h : a ++ ':' :: x = b ++ ':' :: y) : a = b ∧ x = y := by
  induction a generalizing b with
  | nil =>
    cases b with
    | nil => exact ⟨rfl, (List.cons.inj h).2⟩
    | cons c b =>
      obtain ⟨hc, -⟩ := List.cons.inj h
      exact absurd (hc ▸ List.mem_cons_self) hb
  | cons c a ih =>
    cases b with
    | nil =>
      obtain ⟨hc, -⟩ := List.cons.inj h
      exact absurd (hc ▸ List.mem_cons_self) ha
    | cons d b =>
      obtain ⟨rfl, hrest⟩ := List.cons.inj h
      obtain ⟨rfl, rfl⟩ := ih (fun hm => ha (List.mem_cons_of_mem _ hm))
        (fun hm => hb (List.mem_cons_of_mem _ hm)) hrest
      exact ⟨rfl, rfl⟩

theorem unitKey_inj {s s' e e' : String} (hs : SourceId s) (hs' : SourceId s') :
    unitKey s e = unitKey s' e' ↔ s = s' ∧ e = e' := by
  refine ⟨fun h => ?_, fun h => by rw [h.1, h.2]⟩
  have hlists : s.toList ++ ':' :: e.toList = s'.toList ++ ':' :: e'.toList := by
    simpa [unitKey] using congrArg String.toList h
  obtain ⟨hl, hr⟩ := append_colon_inj hs hs' hlists
  exact ⟨String.toList_inj.mp hl, String.toList_inj.mp hr⟩

/-- The patch of an ingest brings the statuses it reports. -/
theorem statuses_call {c : Call} {sourceId : String} (hc : SourceId c.sourceId)
    (hs : SourceId sourceId) (e : String) :
    statuses (unitKey sourceId e) c.liveUnits = c.reports sourceId e := by
  rw [statuses, Call.liveUnits, Call.reports, Call.samplesOf, List.filter_map, List.map_map]
  split
  · rename_i heq
    subst heq
    congr 1
    refine List.filter_congr (fun u _ => ?_)
    simp [LiveUnit.key, unitKey_inj hc hc]
  · rename_i hne
    rw [List.map_nil, List.map_eq_nil_iff, List.filter_eq_nil_iff]
    intro u _
    simp [LiveUnit.key, unitKey_inj hc hs, hne]

/-- With distinct keys a table has at most one row of a key. -/
theorem latest_filter_lookup {α κ β : Type} [DecidableEq κ] {key : α → κ} (f : α → β)
    {rows : List α} (hnd : (rows.map key).Nodup) (k : κ) :
    latest none ((rows.filter (fun r => decide (key r = k))).map f)
      = (Table.lookup key k rows).map f := by
  induction rows with
  | nil => rfl
  | cons r rows ih =>
    rw [List.map_cons, List.nodup_cons] at hnd
    by_cases hr : key r = k
    · have hrest : rows.filter (fun r => decide (key r = k)) = [] := by
        refine List.filter_eq_nil_iff.mpr (fun r' hr' hk => hnd.1 ?_)
        exact List.mem_map.mpr ⟨r', hr', (of_decide_eq_true hk).trans hr.symm⟩
      rw [List.filter_cons_of_pos (by simpa using hr), hrest, Table.lookup,
        List.find?_cons_of_pos (by simpa using hr)]
      rfl
    · rw [List.filter_cons_of_neg (by simpa using hr), ih hnd.2, Table.lookup, Table.lookup,
        List.find?_cons_of_neg (by simpa using hr)]

/-- The snapshot brings the status that is stored. -/
theorem statuses_snapshot {db : TelemetryDb} (hwf : db.WF)
    (hrows : ∀ r ∈ db.unitStates, SourceId r.sourceId) {sourceId : String}
    (hs : SourceId sourceId) (e : String) :
    latest none (statuses (unitKey sourceId e) db.liveUnits) = db.status sourceId e := by
  rw [TelemetryDb.status, TelemetryDb.unit, ← latest_filter_lookup _ hwf.units, statuses,
    TelemetryDb.liveUnits, List.filter_map, List.map_map]
  congr 2
  refine List.filter_congr (fun r hr => ?_)
  simp [LiveUnit.key, UnitState.live, UnitState.key, unitKey_inj (hrows r hr) hs]

end Argus.Pipeline
