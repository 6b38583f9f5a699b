import Argus.Auth.MasterDb
import Argus.Lib.Interleaving
import Argus.Lib.Table

namespace Argus.Wallboards

open Argus.Auth (Digest sha256 truthy)

/-!
# Display devices

An operator creates a display with a pairing code, and the screen that is shown the code claims it.
A screen that was paired before, recognised by its fingerprint, gets its old row back.  Claiming and
reconnecting read and write in separate statements.

* `DeviceTable` — the rows; the ids and the pairing codes are distinct.
* `DeviceCall`, `DevicePc`, `DeviceCall.step` — the functions of the source, statement by
  statement.
* `devices` — all interleavings of any number of calls.
* `StillThere` — a claim writes while its code is still pending, and a reconnection while its device
  is still approved.
* `pairing_once` — then a code admits one display, and a revoked device is not accepted until a
  claim for it completes.
-/

/-! ### Rows -/

inductive DeviceStatus
  | pending | approved | revoked
deriving DecidableEq, Repr

/-- A row of `wall_devices`; the instants are milliseconds. -/
structure DeviceRow where
  id : String
  name : String
  status : DeviceStatus
  pairingCode : String
  tokenHash : Option Digest
  fingerprint : Option String
  lastSeenAt : Option ℤ
  approvedAt : Option ℤ
deriving DecidableEq

/-- The table, with its primary key and its unique column. -/
structure DeviceTable where
  rows : List DeviceRow
  key : (rows.map DeviceRow.id).Nodup
  code : (rows.map DeviceRow.pairingCode).Nodup

namespace DeviceTable

variable (t : DeviceTable)

/-- `UPDATE … SET f WHERE id = …`, for an `f` that keeps the id and the code. -/
def update (id : String) (f : DeviceRow → DeviceRow) (hid : ∀ r, (f r).id = r.id)
    (hcode : ∀ r, (f r).pairingCode = r.pairingCode) : DeviceTable where
  rows := Table.update (fun r => decide (r.id = id)) f t.rows
  key := (Table.map_update DeviceRow.id hid t.rows).symm ▸ t.key
  code := (Table.map_update DeviceRow.pairingCode hcode t.rows).symm ▸ t.code

/-- `DELETE … WHERE id = …`. -/
def delete (id : String) : DeviceTable where
  rows := t.rows.filter fun r => r.id ≠ id
  key := (List.filter_sublist.map DeviceRow.id).nodup t.key
  code := (List.filter_sublist.map DeviceRow.pairingCode).nodup t.code

def get (id : String) : Option DeviceRow := Table.lookup DeviceRow.id id t.rows

def byCode (code : String) : Option DeviceRow := Table.lookup DeviceRow.pairingCode code t.rows

/-- `SELECT … WHERE p LIMIT 1` without an order: any of the rows, the one that is drawn. -/
def anyOf (p : DeviceRow → Bool) (pick : ℕ) : Option (Option DeviceRow) :=
  match t.rows.filter p with
  | [] => some none
  | rows => rows[pick]?.map some

end DeviceTable

/-! ### Calls -/

inductive DeviceCall
  | claimDevice (code : String) (fingerprint name : Option String)
  | reconnectDevice (fingerprint : String)
  | revokeDevice (id : String)
  | deleteDevice (id : String)
deriving DecidableEq

inductive DeviceOutcome
  | refused
  | admitted (deviceId token : String)
  | revoked (found : Bool)
  | deleted (found : Bool)
deriving DecidableEq

/-- Where a call stands.  A claim has found its code pending (`matched`), has found the old row of
    its screen (`reuse`), has dropped the new one (`dropped`), or is about to pair the new one
    (`pairing`); a reconnection has to look at the age of its session (`aged`), or is about to write
    its token (`renewing`). -/
inductive DevicePc
  | start
  | matched (pending : DeviceRow)
  | reuse (pending existing : DeviceRow)
  | dropped (existing : DeviceRow)
  | pairing (pending : DeviceRow)
  | aged (row : DeviceRow) (ageMs : ℤ)
  | renewing (row : DeviceRow)
  | done (o : DeviceOutcome)
deriving DecidableEq

/-- What a statement draws: the token, the time, the row of a select, and the session lifetime in
    milliseconds that the setting holds. -/
structure DeviceDraw where
  token : String
  now : ℤ
  pick : ℕ
  ttlMs : ℤ

/-- The row an old screen gets back. -/
def DeviceRow.readmitted (name : Option String) (existing : DeviceRow) (d : DeviceDraw)
    (r : DeviceRow) : DeviceRow :=
  { r with
    status := .approved
    approvedAt := some d.now
    lastSeenAt := some d.now
    tokenHash := some (sha256 d.token)
    name := name.getD existing.name }

/-- The row of a new screen. -/
def DeviceRow.paired (fingerprint : Option String) (d : DeviceDraw) (r : DeviceRow) : DeviceRow :=
  { r with
    status := .approved
    approvedAt := some d.now
    lastSeenAt := some d.now
    tokenHash := some (sha256 d.token)
    fingerprint := fingerprint }

def DeviceRow.renewed (d : DeviceDraw) (r : DeviceRow) : DeviceRow :=
  { r with
    tokenHash := some (sha256 d.token)
    lastSeenAt := some d.now }

def DeviceRow.revoke (r : DeviceRow) : DeviceRow :=
  { r with
    status := .revoked
    tokenHash := none }

/-- Behind the first select of `claimDevice`. -/
def claimMatched (fingerprint : Option String) : Option DeviceRow → DevicePc
  | some pending =>
    if pending.status = .pending then
      if (truthy fingerprint).isSome then .matched pending else .pairing pending
    else .done .refused
  | none => .done .refused

/-- Behind its second select. -/
def claimReuse (pending : DeviceRow) : Option DeviceRow → DevicePc
  | some existing => if existing.id ≠ pending.id then .reuse pending existing else .pairing pending
  | none => .pairing pending

/-- Behind the first select of `reconnectDevice`. -/
def reconnectFound (now : ℤ) : Option DeviceRow → DevicePc
  | some row =>
    if row.status = .approved then
      (row.lastSeenAt.or row.approvedAt).elim (.renewing row) fun base => .aged row (now - base)
    else .done .refused
  | none => .done .refused

/-- The next statement of a call. -/
def DeviceCall.step (c : DeviceCall) (d : DeviceDraw) (t : DeviceTable) (pc : DevicePc) :
    Option (DeviceTable × DevicePc) :=
  match c, pc with
  | .claimDevice code fingerprint _, .start =>
    some (t, claimMatched fingerprint (t.byCode code))
  | .claimDevice _ fingerprint _, .matched pending =>
    (t.anyOf (fun r => decide (r.fingerprint = fingerprint)) d.pick).map fun existing =>
      (t, claimReuse pending existing)
  | .claimDevice _ _ _, .reuse pending existing => some (t.delete pending.id, .dropped existing)
  | .claimDevice _ _ name, .dropped existing =>
    some (t.update existing.id (.readmitted name existing d) (fun _ => rfl) (fun _ => rfl),
      .done (.admitted existing.id d.token))
  | .claimDevice _ fingerprint _, .pairing pending =>
    some (t.update pending.id (.paired fingerprint d) (fun _ => rfl) (fun _ => rfl),
      .done (.admitted pending.id d.token))
  | .reconnectDevice fingerprint, .start =>
    (t.anyOf (fun r => decide (r.fingerprint = some fingerprint)) d.pick).map fun row =>
      (t, reconnectFound d.now row)
  | .reconnectDevice _, .aged row ageMs =>
    some (t, if ageMs > d.ttlMs then .done .refused else .renewing row)
  | .reconnectDevice _, .renewing row =>
    some (t.update row.id (.renewed d) (fun _ => rfl) (fun _ => rfl),
      .done (.admitted row.id d.token))
  | .revokeDevice id, .start =>
    some (t.update id .revoke (fun _ => rfl) (fun _ => rfl), .done (.revoked (t.get id).isSome))
  | .deleteDevice id, .start => some (t.delete id, .done (.deleted (t.get id).isSome))
  | _, _ => none

/-- `resolveDeviceToken`: the select by the hash, and the session lifetime. -/
def DeviceTable.resolveDeviceToken (t : DeviceTable) (rawToken : String) (d : DeviceDraw) :
    Option DeviceRow :=
  ((t.anyOf (fun r => decide (r.tokenHash = some (sha256 rawToken))) d.pick).getD none).filter
    fun row => row.status = .approved ∧
      ∀ base ∈ row.lastSeenAt.or row.approvedAt, ¬ d.now - base > d.ttlMs

abbrev DeviceWorld := Interleaving.World DeviceTable DevicePc

/-- The calls, in any order of their statements. -/
def devices (calls : ℕ → DeviceCall) : Machine DeviceWorld (ℕ × DeviceDraw) :=
  Interleaving.machine fun i d t pc => (calls i).step d t pc

/-! ### One statement -/

/-- The code of a claim. -/
def DeviceCall.code? : DeviceCall → Option String
  | .claimDevice code _ _ => some code
  | .reconnectDevice _ | .revokeDevice _ | .deleteDevice _ => none

/-- The call has taken its code, or has returned a token. -/
def DevicePc.Consumed : DevicePc → Prop
  | .dropped _ | .done (.admitted _ _) => True
  | _ => False

/-- What a statement does. -/
inductive DeviceEffect (c : DeviceCall) (t : DeviceTable) : DevicePc → DeviceTable → DevicePc → Prop
  | reads {pc pc' : DevicePc} (hpc : ¬ pc.Consumed) (hpc' : ¬ pc'.Consumed) :
      DeviceEffect c t pc t pc'
  | drops {code : String} {pending existing : DeviceRow} (hc : c.code? = some code) :
      DeviceEffect c t (.reuse pending existing) (t.delete pending.id) (.dropped existing)
  | readmits {code token : String} {existing : DeviceRow} {f : DeviceRow → DeviceRow}
      (hc : c.code? = some code) (hid : ∀ r, (f r).id = r.id)
      (hcode : ∀ r, (f r).pairingCode = r.pairingCode) (hf : ∀ r, (f r).status = .approved) :
      DeviceEffect c t (.dropped existing) (t.update existing.id f hid hcode)
        (.done (.admitted existing.id token))
  | pairs {code token : String} {pending : DeviceRow} {f : DeviceRow → DeviceRow}
      (hc : c.code? = some code) (hid : ∀ r, (f r).id = r.id)
      (hcode : ∀ r, (f r).pairingCode = r.pairingCode) (hf : ∀ r, (f r).status = .approved) :
      DeviceEffect c t (.pairing pending) (t.update pending.id f hid hcode)
        (.done (.admitted pending.id token))
  | renews {fingerprint token : String} {row : DeviceRow} {f : DeviceRow → DeviceRow}
      (hc : c = .reconnectDevice fingerprint) (hid : ∀ r, (f r).id = r.id)
      (hcode : ∀ r, (f r).pairingCode = r.pairingCode) (hf : ∀ r, (f r).status = r.status) :
      DeviceEffect c t (.renewing row) (t.update row.id f hid hcode)
        (.done (.admitted row.id token))
  | revokes {id : String} {found : Bool} {f : DeviceRow → DeviceRow} (hc : c = .revokeDevice id)
      (hid : ∀ r, (f r).id = r.id) (hcode : ∀ r, (f r).pairingCode = r.pairingCode)
      (hf : ∀ r, (f r).status = .revoked) :
      DeviceEffect c t .start (t.update id f hid hcode) (.done (.revoked found))
  | deletes {id : String} {found : Bool} (hc : c = .deleteDevice id) :
      DeviceEffect c t .start (t.delete id) (.done (.deleted found))

theorem claimMatched_not_consumed (fingerprint : Option String) (row : Option DeviceRow) :
    ¬ (claimMatched fingerprint row).Consumed := by
  unfold claimMatched
  split
  · split
    · split <;> exact id
    · exact id
  · exact id

theorem claimReuse_not_consumed (pending : DeviceRow) (row : Option DeviceRow) :
    ¬ (claimReuse pending row).Consumed := by
  unfold claimReuse
  split
  · split <;> exact id
  · exact id

theorem reconnectFound_not_consumed (now : ℤ) (row : Option DeviceRow) :
    ¬ (reconnectFound now row).Consumed := by
  unfold reconnectFound
  split
  · rename_i row
    split
    · cases row.lastSeenAt.or row.approvedAt <;> exact id
    · exact id
  · exact id

/-- What a step can do. -/
theorem device_effect {c : DeviceCall} {d : DeviceDraw} {t t' : DeviceTable} {pc pc' : DevicePc}
    (h : c.step d t pc = some (t', pc')) : DeviceEffect c t pc t' pc' := by
  cases c with
  | claimDevice code fingerprint name =>
    cases pc with
    | start =>
      obtain ⟨rfl, rfl⟩ := Prod.mk.inj (Option.some.inj h)
      exact .reads id (claimMatched_not_consumed _ _)
    | matched pending =>
      obtain ⟨existing, -, heq⟩ := Option.map_eq_some_iff.mp h
      obtain ⟨rfl, rfl⟩ := Prod.mk.inj heq
      exact .reads id (claimReuse_not_consumed _ _)
    | reuse pending existing =>
      obtain ⟨rfl, rfl⟩ := Prod.mk.inj (Option.some.inj h)
      exact .drops rfl
    | dropped existing =>
      obtain ⟨rfl, rfl⟩ := Prod.mk.inj (Option.some.inj h)
      exact .readmits rfl _ _ fun _ => rfl
    | pairing pending =>
      obtain ⟨rfl, rfl⟩ := Prod.mk.inj (Option.some.inj h)
      exact .pairs rfl _ _ fun _ => rfl
    | aged | renewing | done => cases h
  | reconnectDevice fingerprint =>
    cases pc with
    | start =>
      obtain ⟨row, -, heq⟩ := Option.map_eq_some_iff.mp h
      obtain ⟨rfl, rfl⟩ := Prod.mk.inj heq
      exact .reads id (reconnectFound_not_consumed _ _)
    | aged row ageMs =>
      obtain ⟨rfl, rfl⟩ := Prod.mk.inj (Option.some.inj h)
      refine .reads id ?_
      split <;> exact id
    | renewing row =>
      obtain ⟨rfl, rfl⟩ := Prod.mk.inj (Option.some.inj h)
      exact .renews rfl _ _ fun _ => rfl
    | matched | reuse | dropped | pairing | done => cases h
  | revokeDevice id =>
    cases pc with
    | start =>
      obtain ⟨rfl, rfl⟩ := Prod.mk.inj (Option.some.inj h)
      exact .revokes rfl _ _ fun _ => rfl
    | matched | reuse | dropped | pairing | aged | renewing | done => cases h
  | deleteDevice id =>
    cases pc with
    | start =>
      obtain ⟨rfl, rfl⟩ := Prod.mk.inj (Option.some.inj h)
      exact .deletes rfl
    | matched | reuse | dropped | pairing | aged | renewing | done => cases h

/-! ### Codes -/

/-- No display is waiting under the code any more. -/
def DeviceTable.Spent (t : DeviceTable) (code : String) : Prop :=
  ∀ r ∈ t.rows, r.pairingCode = code → r.status ≠ .pending

section Rows

variable {t : DeviceTable} {id code : String} {f : DeviceRow → DeviceRow}
  {hid : ∀ r, (f r).id = r.id} {hcode : ∀ r, (f r).pairingCode = r.pairingCode}

theorem mem_update_rows {r' : DeviceRow} (h : r' ∈ (t.update id f hid hcode).rows) :
    ∃ r ∈ t.rows, r'.id = r.id ∧ r'.pairingCode = r.pairingCode ∧
      r' = if r.id = id then f r else r := by
  obtain ⟨r, hr, rfl⟩ := Table.mem_update.mp h
  simp only [decide_eq_true_eq]
  refine ⟨r, hr, ?_, ?_, rfl⟩
  · split
    · exact hid r
    · rfl
  · split
    · exact hcode r
    · rfl

/-- An update that makes nothing pending keeps a spent code spent. -/
theorem DeviceTable.Spent.update (h : t.Spent code)
    (hf : ∀ r, (f r).status = .pending → r.status = .pending) :
    (t.update id f hid hcode).Spent code := by
  intro r' hr' hcode' hpending
  obtain ⟨r, hr, -, hsame, rfl⟩ := mem_update_rows hr'
  refine h r hr (hsame.symm.trans hcode') ?_
  split at hpending
  · exact hf r hpending
  · exact hpending

theorem DeviceTable.Spent.delete (h : t.Spent code) : (t.delete id).Spent code :=
  fun r hr => h r (List.mem_filter.mp hr).1

theorem id_of_byCode {r : DeviceRow} (h : t.byCode code = some r) {s : DeviceRow} (hs : s ∈ t.rows)
    (hcode : s.pairingCode = code) : s = r := by
  obtain ⟨hr, hrcode⟩ := Table.lookup_some h
  exact List.inj_on_of_nodup_map t.code hs hr (hcode.trans hrcode.symm)

/-- Dropping the row of a code spends it. -/
theorem spent_delete {r : DeviceRow} (h : t.byCode code = some r) (hr : r.id = id) :
    (t.delete id).Spent code := by
  intro s hs hcode
  obtain ⟨hs, hne⟩ := List.mem_filter.mp hs
  obtain rfl := id_of_byCode h hs hcode
  exact absurd hr (of_decide_eq_true hne)

/-- Pairing the row of a code spends it. -/
theorem spent_update {r : DeviceRow} (h : t.byCode code = some r) (hr : r.id = id)
    (hf : ∀ r, (f r).status = .approved) : (t.update id f hid hcode).Spent code := by
  intro s' hs' hcode' hpending
  obtain ⟨s, hs, -, hsame, rfl⟩ := mem_update_rows hs'
  obtain rfl := id_of_byCode h hs (hsame.symm.trans hcode')
  rw [if_pos hr, hf] at hpending
  cases hpending

end Rows

theorem DeviceEffect.spent {c : DeviceCall} {t t' : DeviceTable} {pc pc' : DevicePc}
    (h : DeviceEffect c t pc t' pc') {code : String} (hspent : t.Spent code) : t'.Spent code := by
  cases h with
  | reads => exact hspent
  | drops | deletes => exact hspent.delete
  | readmits _ _ _ hf | pairs _ _ _ hf | revokes _ _ _ hf =>
    refine hspent.update fun r hpending => ?_
    rw [hf] at hpending
    cases hpending
  | renews _ _ _ hf => exact hspent.update fun r hpending => (hf r).symm.trans hpending

open Interleaving (Exclusive)

variable {calls : ℕ → DeviceCall}

/-- A claim takes its code while a display is waiting under it, and a reconnection writes its token
    while its device is approved. -/
def StillThere (calls : ℕ → DeviceCall) (w : DeviceWorld) (l : ℕ × DeviceDraw) : Prop :=
  match calls l.1, w.pcs l.1 with
  | .claimDevice code _ _, .reuse pending _ | .claimDevice code _ _, .pairing pending =>
    ∃ r, w.db.byCode code = some r ∧ r.id = pending.id ∧ r.status = .pending
  | .reconnectDevice _, .renewing row => ∃ r, w.db.get row.id = some r ∧ r.status = .approved
  | _, _ => True

/-- Every code was taken by at most one claim, and none that was taken is waiting. -/
structure CodesTaken (calls : ℕ → DeviceCall) (w : DeviceWorld) : Prop where
  once : ∀ code, Exclusive (fun i pc => (calls i).code? = some code ∧ pc.Consumed) w.pcs
  spent : ∀ code i, (calls i).code? = some code → (w.pcs i).Consumed → w.db.Spent code

/-- A claim that takes its code finds that no other claim has. -/
theorem CodesTaken.take {w : DeviceWorld} (h : CodesTaken calls w) {i : ℕ} {t : DeviceTable}
    {pc : DevicePc} (heffect : DeviceEffect (calls i) w.db (w.pcs i) t pc) {code : String}
    (hcode : (calls i).code? = some code) {r : DeviceRow} (hr : w.db.byCode code = some r)
    (hpending : r.status = .pending) (hspent : t.Spent code) :
    CodesTaken calls ⟨t, Function.update w.pcs i pc⟩ := by
  have hothers : ∀ j, ¬ ((calls j).code? = some code ∧ (w.pcs j).Consumed) := by
    rintro j ⟨hj, hconsumed⟩
    obtain ⟨hmem, hrcode⟩ := Table.lookup_some hr
    exact h.spent code j hj hconsumed r hmem hrcode hpending
  refine ⟨fun code' => (h.once code').update ?_, fun code' j hj hconsumed => ?_⟩
  · rintro ⟨hcode', -⟩
    obtain rfl : code = code' := Option.some.inj (hcode.symm.trans hcode')
    exact Or.inr fun j _ => hothers j
  · by_cases hji : j = i
    · subst hji
      obtain rfl : code = code' := Option.some.inj (hcode.symm.trans hj)
      exact hspent
    · change (Function.update w.pcs i pc j).Consumed at hconsumed
      rw [Function.update_of_ne hji] at hconsumed
      exact heffect.spent (h.spent code' j hj hconsumed)

/-- A step of a call that takes no code. -/
theorem CodesTaken.keep {w : DeviceWorld} (h : CodesTaken calls w) {i : ℕ} {t : DeviceTable}
    {pc : DevicePc} (heffect : DeviceEffect (calls i) w.db (w.pcs i) t pc)
    (hkeep : ∀ code, (calls i).code? = some code → pc.Consumed → (w.pcs i).Consumed) :
    CodesTaken calls ⟨t, Function.update w.pcs i pc⟩ := by
  refine ⟨fun code => (h.once code).update ?_, fun code j hj hconsumed => ?_⟩
  · rintro ⟨hcode, hconsumed⟩
    exact Or.inl ⟨hcode, hkeep code hcode hconsumed⟩
  · refine heffect.spent (h.spent code j hj ?_)
    change (Function.update w.pcs i pc j).Consumed at hconsumed
    by_cases hji : j = i
    · subst hji
      rw [Function.update_self] at hconsumed
      exact hkeep code hj hconsumed
    · rwa [Function.update_of_ne hji] at hconsumed

theorem CodesTaken.step {w : DeviceWorld} (h : CodesTaken calls w) {i : ℕ} {d : DeviceDraw}
    (hG : StillThere calls w (i, d)) {t : DeviceTable} {pc : DevicePc}
    (heffect : DeviceEffect (calls i) w.db (w.pcs i) t pc) :
    CodesTaken calls ⟨t, Function.update w.pcs i pc⟩ := by
  have heffect' := heffect
  generalize hpc : w.pcs i = before at heffect'
  -- what the guard says about a claim that is about to take its code
  have hwaiting : ∀ code, (calls i).code? = some code → ∀ pending,
      ((∃ existing, before = .reuse pending existing) ∨ before = .pairing pending) →
      ∃ r, w.db.byCode code = some r ∧ r.id = pending.id ∧ r.status = .pending := by
    intro code hcode pending hbefore
    cases hcall : calls i with
    | claimDevice code' fingerprint name =>
      rw [hcall] at hcode
      obtain rfl : code' = code := Option.some.inj hcode
      rcases hbefore with ⟨existing, rfl⟩ | rfl
      · simpa only [StillThere, hcall, hpc] using hG
      · simpa only [StillThere, hcall, hpc] using hG
    | reconnectDevice | revokeDevice | deleteDevice =>
      rw [hcall] at hcode
      cases hcode
  cases heffect' with
  | reads _ hnot => exact h.keep heffect fun _ _ hconsumed => absurd hconsumed hnot
  | drops hc =>
    obtain ⟨r, hr, hid, hpending⟩ := hwaiting _ hc _ (Or.inl ⟨_, rfl⟩)
    exact h.take heffect hc hr hpending (spent_delete hr hid)
  | pairs hc _ _ hf =>
    obtain ⟨r, hr, hid, hpending⟩ := hwaiting _ hc _ (Or.inr rfl)
    exact h.take heffect hc hr hpending (spent_update hr hid hf)
  | readmits =>
    exact h.keep heffect fun _ _ _ => by rw [hpc]; trivial
  | renews hc =>
    refine h.keep heffect fun code hcode _ => ?_
    rw [hc] at hcode
    cases hcode
  | revokes | deletes => exact h.keep heffect fun _ _ hconsumed => hconsumed.elim

theorem CodesTaken.exec {w w' : DeviceWorld} {ls : List (ℕ × DeviceDraw)}
    (h : CodesTaken calls w) (hG : (devices calls).Meets (StillThere calls) w ls)
    (hrun : (devices calls).exec w ls = some w') : CodesTaken calls w' := by
  refine Machine.inv_of_exec (I := CodesTaken calls) ?_ h hG hrun
  rintro w ⟨i, d⟩ w' htaken hG hmove
  obtain ⟨t, pc, hcall, rfl⟩ := Interleaving.machine_step.mp hmove
  exact htaken.step hG (device_effect hcall)

/-! ### Approval -/

section Approval

variable {t t' : DeviceTable} {c : DeviceCall} {pc pc' : DevicePc} {id : String} {r : DeviceRow}

theorem get_update {id' : String} {f : DeviceRow → DeviceRow} {hid : ∀ r, (f r).id = r.id}
    {hcode : ∀ r, (f r).pairingCode = r.pairingCode} :
    (t.update id' f hid hcode).get id = (t.get id).map fun r => if r.id = id' then f r else r := by
  rw [DeviceTable.get, DeviceTable.update, Table.lookup_update hid, DeviceTable.get]
  simp only [decide_eq_true_eq]

theorem get_delete {id' : String} (h : (t.delete id').get id = some r) : t.get id = some r := by
  obtain ⟨hr, rfl⟩ := Table.lookup_some h
  exact Table.lookup_of_mem t.key (List.mem_filter.mp hr).1

/-- The device is not approved, if it is there. -/
def DeviceTable.NotApproved (t : DeviceTable) (id : String) : Prop :=
  ∀ r, t.get id = some r → r.status ≠ .approved

/-- A device becomes approved only when a claim for it returns. -/
theorem DeviceEffect.approves (h : DeviceEffect c t pc t' pc') (hnot : t.NotApproved id)
    (hr : t'.get id = some r) (happroved : r.status = .approved) :
    (∃ code, c.code? = some code) ∧ ∃ token, pc' = .done (.admitted id token) := by
  -- a row that an update leaves alone was there before
  have hupdate : ∀ {id' : String} {f : DeviceRow → DeviceRow} {hid : ∀ r, (f r).id = r.id}
      {hcode : ∀ r, (f r).pairingCode = r.pairingCode},
      (t.update id' f hid hcode).get id = some r →
      id' = id ∧ ∃ s, t.get id = some s ∧ r = f s := by
    intro id' f hid hcode hget
    rw [get_update] at hget
    obtain ⟨s, hs, hsr⟩ := Option.map_eq_some_iff.mp hget
    have hsid : s.id = id := (Table.lookup_some hs).2
    split at hsr
    · rename_i hmatch
      exact ⟨hmatch.symm.trans hsid, s, hs, hsr.symm⟩
    · exact absurd (hsr ▸ happroved) (hnot s hs)
  cases h with
  | reads => exact absurd happroved (hnot r hr)
  | drops | deletes => exact absurd happroved (hnot r (get_delete hr))
  | readmits hc =>
    obtain ⟨rfl, -⟩ := hupdate hr
    exact ⟨⟨_, hc⟩, _, rfl⟩
  | pairs hc =>
    obtain ⟨rfl, -⟩ := hupdate hr
    exact ⟨⟨_, hc⟩, _, rfl⟩
  | renews _ _ _ hf =>
    obtain ⟨-, s, hs, rfl⟩ := hupdate hr
    exact absurd ((hf s).symm.trans happroved) (hnot s hs)
  | revokes _ _ _ hf =>
    obtain ⟨-, s, -, rfl⟩ := hupdate hr
    rw [hf] at happroved
    cases happroved

/-- A revocation leaves its device not approved. -/
theorem notApproved_of_revoke {d : DeviceDraw}
    (h : (DeviceCall.revokeDevice id).step d t pc = some (t', pc')) : t'.NotApproved id := by
  cases pc with
  | start =>
    obtain ⟨rfl, rfl⟩ := Prod.mk.inj (Option.some.inj h)
    intro r hr
    have hget : (t.update id .revoke (fun _ => rfl) (fun _ => rfl)).get id =
        (t.get id).map fun r => if r.id = id then r.revoke else r := get_update
    obtain ⟨s, hs, rfl⟩ := Option.map_eq_some_iff.mp (hget.symm.trans hr)
    rw [if_pos (Table.lookup_some hs).2]
    exact fun hstatus => by cases hstatus
  | matched | reuse | dropped | pairing | aged | renewing | done => cases h

/-- A token is accepted only for a device that is approved. -/
theorem DeviceTable.NotApproved.resolve (h : t.NotApproved id) {rawToken : String} {d : DeviceDraw}
    (hr : t.resolveDeviceToken rawToken d = some r) : r.id ≠ id := by
  rintro rfl
  obtain ⟨hselect, hchecks⟩ := Option.filter_eq_some_iff.mp hr
  obtain ⟨happroved, -⟩ := of_decide_eq_true hchecks
  have hmem : r ∈ t.rows := by
    rw [DeviceTable.anyOf] at hselect
    split at hselect
    · cases hselect
    · rename_i rows hne
      cases hpick : (t.rows.filter fun r => decide (r.tokenHash = some (sha256 rawToken)))[d.pick]? with
      | none =>
        rw [hpick] at hselect
        cases hselect
      | some s =>
        rw [hpick] at hselect
        obtain rfl : s = r := Option.some.inj hselect
        exact (List.mem_filter.mp (List.mem_of_getElem? hpick)).1
  exact h r (Table.lookup_of_mem t.key hmem) happroved

end Approval

/-! ### Runs -/

/-- The step completes a claim for the device. -/
def ClaimCompletes (calls : ℕ → DeviceCall) (id : String) (l : ℕ × DeviceDraw) (w' : DeviceWorld) :
    Prop :=
  (∃ code, (calls l.1).code? = some code) ∧ ∃ token, w'.pcs l.1 = .done (.admitted id token)

/-- The device is not approved, and no reconnection has returned it that is not in `seen`. -/
structure LockedOut (calls : ℕ → DeviceCall) (id : String) (seen : ℕ → DevicePc)
    (w : DeviceWorld) : Prop where
  notApproved : w.db.NotApproved id
  returned : ∀ j fingerprint token, calls j = .reconnectDevice fingerprint →
    w.pcs j = .done (.admitted id token) → seen j = .done (.admitted id token)

theorem LockedOut.step {id : String} {seen : ℕ → DevicePc} {w : DeviceWorld} {l : ℕ × DeviceDraw}
    {w' : DeviceWorld} (h : LockedOut calls id seen w) (hG : StillThere calls w l)
    (hmove : (devices calls).step w l = some w') :
    LockedOut calls id seen w' ∨ ClaimCompletes calls id l w' := by
  obtain ⟨i, d⟩ := l
  obtain ⟨t, pc, hcall, rfl⟩ := Interleaving.machine_step.mp hmove
  have heffect := device_effect hcall
  by_cases hnot : t.NotApproved id
  · refine Or.inl ⟨hnot, fun j fingerprint token hj hdone => ?_⟩
    change Function.update w.pcs i pc j = .done (.admitted id token) at hdone
    by_cases hji : j = i
    · -- a reconnection that returns the device has found it approved
      subst hji
      rw [Function.update_self] at hdone
      generalize hpc : w.pcs j = before at heffect
      cases heffect with
      | renews =>
        obtain ⟨rfl, -⟩ := DeviceOutcome.admitted.inj (DevicePc.done.inj hdone)
        rw [StillThere, hj, hpc] at hG
        obtain ⟨r, hr, happroved⟩ := hG
        exact absurd happroved (h.notApproved r hr)
      | reads _ hnotConsumed =>
        rw [hdone] at hnotConsumed
        exact absurd trivial hnotConsumed
      | readmits hc | pairs hc =>
        rw [hj] at hc
        cases hc
      | drops | revokes | deletes => cases hdone
    · rw [Function.update_of_ne hji] at hdone
      exact h.returned j fingerprint token hj hdone
  · rw [DeviceTable.NotApproved] at hnot
    push Not at hnot
    obtain ⟨r, hr, happroved⟩ := hnot
    obtain ⟨hcode, token, rfl⟩ := heffect.approves h.notApproved hr happroved
    exact Or.inr ⟨hcode, token, Function.update_self i _ w.pcs⟩

/-- **Pairing.**  For any number of claims, reconnections, revocations and deletions in any order
    of their statements: if every claim takes its code while a display is waiting under it, and
    every reconnection writes while its device is approved, then a code has at most one successful
    claim, a device becomes approved only by a claim that returns it, and after a revocation a
    device is not accepted, neither by its token nor by a reconnection, until a claim for it
    completes. -/
theorem pairing_once {calls : ℕ → DeviceCall} {w w' : DeviceWorld} {ls : List (ℕ × DeviceDraw)}
    (hstart : ∀ i, w.pcs i = .start) (hG : (devices calls).Meets (StillThere calls) w ls)
    (hrun : (devices calls).exec w ls = some w') :
    (∀ code i j id id' token token', (calls i).code? = some code → (calls j).code? = some code →
      w'.pcs i = .done (.admitted id token) → w'.pcs j = .done (.admitted id' token') → i = j) ∧
    (∀ past l rest w₁ w₂ id r, ls = past ++ l :: rest → (devices calls).exec w past = some w₁ →
      (devices calls).step w₁ l = some w₂ → w₁.db.NotApproved id → w₂.db.get id = some r →
      r.status = .approved → ClaimCompletes calls id l w₂) ∧
    ∀ past i d rest w₁ w₂ id, ls = past ++ (i, d) :: rest →
      (devices calls).exec w past = some w₁ → calls i = .revokeDevice id →
      (devices calls).step w₁ (i, d) = some w₂ →
      (∃ a l b u u', rest = a ++ l :: b ∧ (devices calls).exec w₂ a = some u ∧
        (devices calls).step u l = some u' ∧ ClaimCompletes calls id l u') ∨
      ((∀ rawToken d r, w'.db.resolveDeviceToken rawToken d = some r → r.id ≠ id) ∧
        ∀ j fingerprint token, calls j = .reconnectDevice fingerprint →
          w'.pcs j = .done (.admitted id token) → w₂.pcs j = .done (.admitted id token)) := by
  refine ⟨?_, ?_, ?_⟩
  · intro code i j id id' token token' hi hj hdonei hdonej
    have hinit : CodesTaken calls w := by
      have hnot : ∀ i, ¬ (w.pcs i).Consumed := by
        intro i
        rw [hstart i]
        exact fun h => h
      exact ⟨fun _ i _ hi => absurd hi.2 (hnot i), fun _ i _ hi => absurd hi (hnot i)⟩
    refine (hinit.exec hG hrun).once code i j ⟨hi, ?_⟩ ⟨hj, ?_⟩
    · rw [hdonei]
      trivial
    · rw [hdonej]
      trivial
  · rintro past ⟨i, d⟩ rest w₁ w₂ id r - - hmove hnot hr happroved
    obtain ⟨t, pc, hcall, rfl⟩ := Interleaving.machine_step.mp hmove
    obtain ⟨hcode, token, rfl⟩ := (device_effect hcall).approves hnot hr happroved
    exact ⟨hcode, token, Function.update_self i _ w₁.pcs⟩
  · intro past i d rest w₁ w₂ id hsplit hpast hrevoke hmove
    have hlocked : LockedOut calls id w₂.pcs w₂ := by
      refine ⟨?_, fun _ _ _ _ hdone => hdone⟩
      obtain ⟨t, pc, hcall, rfl⟩ := Interleaving.machine_step.mp hmove
      rw [hrevoke] at hcall
      exact notApproved_of_revoke hcall
    rw [hsplit] at hG hrun
    have hlater := (hG.split hpast).2.2 w₂ hmove
    have hrest : (devices calls).exec w₂ rest = some w' := by
      rw [Machine.exec_append, hpast, Option.bind_some, Machine.exec_cons, hmove,
        Option.bind_some] at hrun
      exact hrun
    rcases Machine.until_of_exec (fun _ _ _ hI hGl hm => hI.step hGl hm) hlocked hlater hrest with
      hend | ⟨a, l, b, u, u', hab, hu, -, hu', hclaim⟩
    · exact Or.inr ⟨fun rawToken d r hr => hend.notApproved.resolve hr, hend.returned⟩
    · exact Or.inl ⟨a, l, b, u, u', hab, hu, hu', hclaim⟩

namespace Sample

/-- A display waits under a code. -/
def waiting : DeviceWorld where
  db := ⟨[⟨"p", "lobby", .pending, "123456", none, none, none, none⟩], by decide, by decide⟩
  pcs := fun _ => .start

/-- Two screens type the same code. -/
def sameCode (_ : ℕ) : DeviceCall := .claimDevice "123456" none none

def drawn (token : String) : DeviceDraw := ⟨token, 0, 0, 0⟩

end Sample

open Sample in
theorem pairing_once_alone :
    ∃ w', (devices sameCode).exec waiting [(0, drawn "wd_x"), (0, drawn "wd_x")] = some w' ∧
      w'.pcs 0 = .done (.admitted "p" "wd_x") ∧
      ∀ j id token, w'.pcs j = .done (.admitted id token) → 0 = j := by
  have hrun : ∃ w', (devices sameCode).exec waiting [(0, drawn "wd_x"), (0, drawn "wd_x")] =
      some w' ∧ w'.pcs 0 = .done (.admitted "p" "wd_x") := ⟨_, rfl, rfl⟩
  have hG : (devices sameCode).Meets (StillThere sameCode) waiting
      [(0, drawn "wd_x"), (0, drawn "wd_x")] :=
    .cons trivial rfl (.cons ⟨_, rfl, rfl, rfl⟩ rfl trivial)
  obtain ⟨w', hrun, hdone⟩ := hrun
  refine ⟨w', hrun, hdone, fun j id token hj => ?_⟩
  exact (pairing_once (fun _ => rfl) hG hrun).1 "123456" 0 j "p" id "wd_x" token rfl rfl hdone hj

open Sample in
/-- Both find the code pending, and both are admitted. -/
theorem paired_twice :
    ∃ w', (devices sameCode).exec waiting
        [(0, drawn "wd_x"), (1, drawn "wd_y"), (0, drawn "wd_x"), (1, drawn "wd_y")] = some w' ∧
      (sameCode 0).code? = some "123456" ∧ (sameCode 1).code? = some "123456" ∧
      w'.pcs 0 = .done (.admitted "p" "wd_x") ∧ w'.pcs 1 = .done (.admitted "p" "wd_y") :=
  ⟨_, rfl, rfl, rfl, rfl, rfl⟩

end Argus.Wallboards
