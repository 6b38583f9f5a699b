import Argus.Monitors.Secrets

namespace Argus.Monitors

/-!
# Where the secrets of monitors rest

What the routes leave of the secrets they are given, over every run of requests.

* `Call.mask` — the request with its secrets blanked; what is shown of a run does not depend
  on them (`exec_veiled`).
* `Concealed` — no secret in a stored configuration, a response or an audit row.
* `Kept` — the slots hold what was last given, under the field the configuration names;
  `Redelivers` — so the delivery puts back the value last given for that field.
* `Sound` — the requests that keep all this: at most one secret in a configuration, and no
  patch that redirects the slot.
* `monitor_secrets` — all three after every run of such requests.
-/

/-! ### Blanked runs -/

/-- The request with the secrets of its configuration blanked. -/
def Call.mask : Call → Call
  | .create caller d body => .create caller d { body with config := body.config.map Config.mask }
  | .patch caller d id body => .patch caller d id { body with config := body.config.map Config.mask }
  | .list agentId => .list agentId
  | .get id => .get id

/-- The stored configuration, for one that may be missing. -/
theorem extractCred_map_mask {config : Option Config} (h : ∀ c, config = some c → c.OneSecret) :
    (extractCred (config.map Config.mask)).2 = (extractCred config).2 := by
  cases config with
  | none => rfl
  | some c => exact extractCred_mask (h c rfl)

/-- The store with other secrets. -/
def Store.veiled (db : Store) (secrets : List Secret) : Store := { db with secrets := secrets }

/-- The world with other secrets. -/
def World.veiled (w : World) (secrets : List Secret) (given : List Given) : World :=
  { w with store := w.store.veiled secrets, given := given }

@[simp] theorem Store.veiled_monitors (db : Store) (S : List Secret) :
    (db.veiled S).monitors = db.monitors := rfl

section Veiled

variable (env : Env) (db : Store) (S : List Secret)

theorem createMonitor_veiled (id now : String) (input : CreateMonitorInput) :
    (db.veiled S).createMonitor id now input
      = (db.createMonitor id now input).map (fun p => (p.1.veiled S, p.2)) := by
  unfold Store.createMonitor Store.veiled
  dsimp only
  split <;> rfl

theorem ensureStoragePing_veiled (pingId now agentId name path : String) :
    (db.veiled S).ensureStoragePing pingId now agentId name path
      = (db.ensureStoragePing pingId now agentId name path).veiled S := by
  unfold Store.ensureStoragePing
  dsimp only
  rw [createMonitor_veiled]
  by_cases hhost : uncHost path = ""
  · rw [if_pos hhost, if_pos hhost]
  rw [if_neg hhost, if_neg hhost, Store.veiled_monitors]
  split
  · rfl
  · cases db.createMonitor pingId now (storagePing agentId name (uncHost path)) <;> rfl

theorem withPing_veiled (d : Draw) (m : Monitor) (config : Option Config) :
    World.withPing (db.veiled S) d m config
      = (World.withPing db d m config).map (Store.veiled · S) := by
  unfold World.withPing
  split
  · rw [Option.map_map]
    congr 1
    funext path
    exact ensureStoragePing_veiled db S _ _ _ _ _
  · rfl

/-- A credential changes the secrets of the store only. -/
theorem keepCred_veiled (id : String) (d : Draw) (cred : Option String) :
    ∃ S', World.keepCred db env id d cred = db.veiled S' := by
  cases cred with
  | none => exact ⟨db.secrets, rfl⟩
  | some v => exact ⟨_, rfl⟩

theorem keepCred_monitors (id : String) (d : Draw) (cred : Option String) :
    (World.keepCred db env id d cred).monitors = db.monitors := by
  cases cred <;> rfl

theorem updateMonitor_veiled (id now : String) (patch : UpdateMonitorInput) :
    (db.veiled S).updateMonitor id now patch
      = ((db.updateMonitor id now patch).1.veiled S, (db.updateMonitor id now patch).2) := rfl

variable (w : World) (G : List Given)

theorem finishCreate_veiled (caller : Caller) (d : Draw) (m : Monitor) (config : Option Config) :
    (w.veiled S G).finishCreate caller d m config
      = (w.finishCreate caller d m config).veiled S G := by
  unfold World.finishCreate
  rw [World.veiled, withPing_veiled]
  cases World.withPing w.store d m config <;> rfl

theorem create_veiled (caller : Caller) (d : Draw) (body : CreateBody)
    (h : ∀ input, body.safeParse = .ok input → ∀ c, input.config = some c → c.OneSecret) :
    ∃ S' G', (w.veiled S G).create env caller d { body with config := body.config.map Config.mask }
      = (w.create env caller d body).veiled S' G' := by
  have hparse : CreateBody.safeParse { body with config := body.config.map Config.mask }
      = body.safeParse.map (fun i => { i with config := i.config.map Config.mask }) := by
    unfold CreateBody.safeParse
    dsimp only
    split
    · rfl
    split <;> rfl
  unfold World.create
  rw [hparse]
  cases hbody : body.safeParse with
  | error issues => exact ⟨S, G, rfl⟩
  | ok input =>
    have hstored := extractCred_map_mask (h input hbody)
    have hcreate := createMonitor_veiled w.store S d.id d.now
      { input with config := (extractCred input.config).2 }
    simp only [Except.map, hstored]
    rw [World.veiled, hcreate]
    cases w.store.createMonitor d.id d.now { input with config := (extractCred input.config).2 } with
    | none => exact ⟨S, G, rfl⟩
    | some p =>
      obtain ⟨S', hmasked⟩ := keepCred_veiled env (p.1.veiled S) p.2.id d
        (extractCred (input.config.map Config.mask)).1
      obtain ⟨S'', hkept⟩ := keepCred_veiled env p.1 p.2.id d (extractCred input.config).1
      refine ⟨S', givenBy p.2.id (input.config.map Config.mask) ++ G, ?_⟩
      rw [← finishCreate_veiled]
      simp only [Option.map_some, hmasked, hkept]
      rfl

theorem patch_veiled (caller : Caller) (d : Draw) (id : String) (body : UpdateBody)
    (h : ∀ input, UpdateBody.safeParse body = .ok input →
      World.movesAstray w.store id input = false → (w.store.getMonitor id).isSome →
      ∀ c, input.config = some c → c.OneSecret) :
    ∃ S' G', (w.veiled S G).patch env caller d id { body with config := body.config.map Config.mask }
      = (w.patch env caller d id body).veiled S' G' := by
  have hparse : UpdateBody.safeParse { body with config := body.config.map Config.mask }
      = (UpdateBody.safeParse body).map (fun i => { i with config := i.config.map Config.mask }) := by
    unfold UpdateBody.safeParse
    dsimp only
    split <;> rfl
  cases hbody : UpdateBody.safeParse body with
  | error issues =>
    rw [hbody] at hparse
    refine ⟨S, G, ?_⟩
    unfold World.patch
    rw [hparse, hbody]
    rfl
  | ok input =>
    rw [hbody] at hparse
    have hsame : World.movesAstray (w.veiled S G).store id
        { input with config := input.config.map Config.mask } = World.movesAstray w.store id input :=
      rfl
    cases hastray : World.movesAstray w.store id input with
    | true =>
      refine ⟨S, G, ?_⟩
      unfold World.patch
      simp only [hparse, hbody, Except.map, hsame, hastray]
      rfl
    | false =>
      rw [World.patch_eq hparse (hsame.trans hastray), World.patch_eq hbody hastray]
      rw [show (w.veiled S G).store.getMonitor id = w.store.getMonitor id from rfl]
      cases hfound : w.store.getMonitor id with
      | none => exact ⟨S, G, rfl⟩
      | some m =>
        have hstored := extractCred_map_mask (h input hbody hastray (by simp [hfound]))
        have hupdate := updateMonitor_veiled w.store S id d.now
          { input with config := (extractCred input.config).2 }
        obtain ⟨S', hmasked⟩ := keepCred_veiled env
          ((w.store.updateMonitor id d.now
            { input with config := (extractCred input.config).2 }).1.veiled S) id d
          (extractCred (input.config.map Config.mask)).1
        obtain ⟨S'', hkept⟩ := keepCred_veiled env
          (w.store.updateMonitor id d.now { input with config := (extractCred input.config).2 }).1
          id d (extractCred input.config).1
        refine ⟨S', givenBy id (input.config.map Config.mask) ++ G, ?_⟩
        simp only [hstored, hkept]
        rw [show (w.veiled S G).store = w.store.veiled S from rfl, hupdate, hmasked]
        rfl

end Veiled

/-! ### Requests that keep the secrets -/

namespace World

/-- The secret that was last given for a monitor. -/
def latest (w : World) (id : String) : Option Given := w.given.find? (fun g => g.monitorId == id)

/-- The value that was last given for a field of a monitor. -/
def lastGiven (w : World) (id field : String) : Option String :=
  (w.given.find? (fun g => g.monitorId == id && g.field == field)).map Given.value

end World

/-- A configuration that brings no secret names no field but the one the slot is for. -/
def NamesSlot (w : World) (id : String) (c : Config) : Prop :=
  c.secrets = [] → ∀ field, c.get "credField" = some (.str field) →
    ∀ g, w.latest id = some g → field = "" ∨ field = g.field

/-- The requests under which the secrets are kept: an accepted configuration has at most one
    secret, and a patch without one does not redirect the slot. -/
def Sound (w : World) : Call → Prop
  | .create _ _ body =>
    ∀ input, body.safeParse = .ok input → ∀ c, input.config = some c → c.OneSecret
  | .patch _ _ id body =>
    ∀ input, UpdateBody.safeParse body = .ok input → World.movesAstray w.store id input = false →
      (w.store.getMonitor id).isSome → ∀ c, input.config = some c → c.OneSecret ∧ NamesSlot w id c
  | .list _ => True
  | .get _ => True

/-- What is shown of a request does not depend on its secrets. -/
theorem handle_veiled (env : Env) (w : World) (S : List Secret) (G : List Given) (call : Call)
    (h : Sound w call) :
    ∃ S' G', (w.veiled S G).handle env call.mask = (w.handle env call).veiled S' G' := by
  cases call with
  | create caller d body => exact create_veiled env S w G caller d body h
  | patch caller d id body =>
    exact patch_veiled env S w G caller d id body
      (fun input hbody hastray hfound c hc => (h input hbody hastray hfound c hc).1)
  | list agentId => exact ⟨S, G, rfl⟩
  | get id =>
    refine ⟨S, G, ?_⟩
    show (w.veiled S G).get id = (w.get id).veiled S G
    unfold World.get
    rw [show (w.veiled S G).store.getMonitor id = w.store.getMonitor id from rfl]
    cases w.store.getMonitor id <;> rfl

/-- The run of blanked requests shows the same. -/
theorem exec_veiled {env : Env} {w w' : World} {calls : List Call}
    (hsound : (machine env).Meets Sound w calls) (hrun : (machine env).exec w calls = some w')
    (S : List Secret) (G : List Given) :
    ∃ S' G', (machine env).exec (w.veiled S G) (calls.map Call.mask) = some (w'.veiled S' G') := by
  induction calls generalizing w S G with
  | nil =>
    obtain rfl : w = w' := by simpa using hrun
    exact ⟨S, G, rfl⟩
  | cons call calls ih =>
    obtain ⟨u, hu, hrest⟩ := Machine.exec_cons_eq_some _ |>.mp hrun
    obtain ⟨hfresh, rfl⟩ := step_eq_some.mp hu
    obtain ⟨S', G', hstep⟩ := handle_veiled env w S G call hsound.1
    obtain ⟨S'', G'', htail⟩ := ih (hsound.2 _ hu) hrest S' G'
    refine ⟨S'', G'', ?_⟩
    have hmasked : call.mask.fresh (w.veiled S G).store = call.fresh w.store := by
      cases call <;> rfl
    rw [List.map_cons, Machine.exec_cons_eq_some]
    exact ⟨_, step_eq_some.mpr ⟨hmasked.trans hfresh, hstep⟩, htail⟩

/-! ### Nothing is shown -/

/-- No secret in a stored configuration, in a response or in an audit row. -/
structure Concealed (w : World) : Prop where
  monitors : ∀ m ∈ w.store.monitors, secretStrings (.obj m.config.fields) = []
  sent : ∀ r ∈ w.sent, secretStrings r.body = []
  audit : ∀ e ∈ w.audit, ∀ s ∈ secretStrings e.before ++ secretStrings e.after, s = redacted

theorem secretStrings_toDTO (m : Monitor) :
    secretStrings m.toDTO = secretStrings (.obj m.config.fields) := by
  simp [Monitor.toDTO, secretStrings, secretStringsFields, secretFields]

theorem secretStrings_monitor (code : ℕ) (m : Monitor) :
    secretStrings (Response.monitor code m).body = secretStrings (.obj m.config.fields) := by
  rw [Response.monitor, secretStrings_obj, List.flatMap_singleton, ← secretStrings_toDTO]
  rfl

theorem secretStrings_rows {ms : List Monitor}
    (h : ∀ m ∈ ms, secretStrings (.obj m.config.fields) = []) :
    secretStrings (Response.rows ms).body = [] := by
  rw [Response.rows, secretStrings_obj, List.flatMap_singleton]
  show secretStrings (.arr _) = []
  rw [secretStrings_arr, List.flatMap_eq_nil_iff]
  intro v hv
  obtain ⟨m, hm, rfl⟩ := List.mem_map.mp hv
  rw [secretStrings_toDTO]
  exact h m hm

theorem secretStrings_invalidRequest (issues : List Issue) :
    secretStrings (Response.invalidRequest issues).body = [] := by
  rw [Response.invalidRequest, secretStrings_obj]
  show secretStrings (.arr _) ++ [] = []
  rw [List.append_nil, secretStrings_arr, List.flatMap_eq_nil_iff]
  intro v hv
  obtain ⟨i, -, rfl⟩ := List.mem_map.mp hv
  rfl

namespace Concealed

variable {w : World}

theorem send (h : Concealed w) {r : Response} (hr : secretStrings r.body = []) :
    Concealed (w.send r) where
  monitors := h.monitors
  sent := List.forall_mem_append.mpr ⟨h.sent, List.forall_mem_singleton.mpr hr⟩
  audit := h.audit

/-- An audit row of a monitor without a secret. -/
theorem log (h : Concealed w) {m : Monitor} (hm : secretStrings (.obj m.config.fields) = [])
    (caller : Caller) (action target : String) :
    Concealed (w.log (buildAuditEntry caller action target m.toDTO)) where
  monitors := h.monitors
  sent := h.sent
  audit := by
    refine List.forall_mem_append.mpr ⟨h.audit, List.forall_mem_singleton.mpr fun s hs => ?_⟩
    rcases List.mem_append.mp hs with hs | hs
    · exact absurd hs List.not_mem_nil
    · rcases secretStrings_redact _ s hs with hs | hs
      · exact hs
      · rw [secretStrings_toDTO, hm] at hs
        exact absurd hs List.not_mem_nil

/-- Other monitors, without a secret. -/
theorem store (h : Concealed w) {db : Store} {given : List Given}
    (hdb : ∀ m ∈ db.monitors, secretStrings (.obj m.config.fields) = []) :
    Concealed { w with store := db, given := given } where
  monitors := hdb
  sent := h.sent
  audit := h.audit

theorem finishCreate (h : Concealed w) {m : Monitor}
    (hm : secretStrings (.obj m.config.fields) = []) (caller : Caller) (d : Draw)
    (config : Option Config) : Concealed (w.finishCreate caller d m config) := by
  unfold World.finishCreate
  cases hping : World.withPing w.store d m config with
  | none => exact h.send rfl
  | some db =>
    have hdb : ∀ m ∈ db.monitors, secretStrings (.obj m.config.fields) = [] := by
      unfold World.withPing at hping
      split at hping
      · obtain ⟨path, -, rfl⟩ := Option.map_eq_some_iff.mp hping
        intro m' hm'
        rcases Store.mem_ensureStoragePing hm' with hmem | rfl
        · exact h.monitors m' hmem
        · rfl
      · obtain rfl := Option.some.inj hping
        exact h.monitors
    exact ((h.store hdb).log hm _ _ _).send ((secretStrings_monitor _ _).trans hm)

theorem create (h : Concealed w) (env : Env) (caller : Caller) (d : Draw) (body : CreateBody)
    (hsound : ∀ input, body.safeParse = .ok input → ∀ c, input.config = some c → c.OneSecret) :
    Concealed (w.create env caller d body) := by
  cases hbody : body.safeParse with
  | error issues =>
    unfold World.create
    rw [hbody]
    exact h.send (secretStrings_invalidRequest issues)
  | ok input =>
    rw [World.create_eq hbody]
    dsimp only
    split
    · have hm : secretStrings (.obj ((extractCred input.config).2.getD .empty).fields) = [] :=
        secretStrings_stored_getD (hsound input hbody) rfl
      refine finishCreate (h.store ?_) hm caller d _
      rw [keepCred_monitors]
      exact List.forall_mem_append.mpr ⟨h.monitors, List.forall_mem_singleton.mpr hm⟩
    · exact h.send rfl

theorem patch (h : Concealed w) (env : Env) (caller : Caller) (d : Draw) (id : String)
    (body : UpdateBody) (hsound : Sound w (.patch caller d id body)) :
    Concealed (w.patch env caller d id body) := by
  cases hbody : UpdateBody.safeParse body with
  | error issues =>
    unfold World.patch
    rw [hbody]
    exact h.send (secretStrings_invalidRequest issues)
  | ok input =>
    cases hastray : World.movesAstray w.store id input with
    | true =>
      unfold World.patch
      simp only [hbody, hastray, if_true]
      exact h.send rfl
    | false =>
      rw [World.patch_eq hbody hastray]
      cases hfound : w.store.getMonitor id with
      | none => exact h.send rfl
      | some m =>
        have hone : ∀ c, input.config = some c → c.OneSecret :=
          fun c hc => (hsound input hbody hastray (by simp [hfound]) c hc).1
        have hstored : ∀ m ∈ w.store.monitors, secretStrings (.obj (m.patched d.now
            { input with config := (extractCred input.config).2 }).config.fields) = [] :=
          fun m hm => secretStrings_stored_getD hone (h.monitors m hm)
        have hm := hstored m (Table.lookup_some hfound).1
        refine ((h.store ?_).log hm _ _ _).send ((secretStrings_monitor _ _).trans hm)
        rw [keepCred_monitors]
        intro m' hm'
        obtain ⟨r, hr, rfl⟩ := Table.mem_update.mp hm'
        split
        · exact hstored r hr
        · exact h.monitors r hr

theorem handle (h : Concealed w) (env : Env) {call : Call} (hsound : Sound w call) :
    Concealed (w.handle env call) := by
  cases call with
  | create caller d body => exact h.create env caller d body hsound
  | patch caller d id body => exact h.patch env caller d id body hsound
  | list agentId =>
    refine h.send (secretStrings_rows fun m hm => ?_)
    cases agentId with
    | none => exact h.monitors m hm
    | some agentId => exact h.monitors m (List.mem_of_mem_filter hm)
  | get id =>
    show Concealed (w.get id)
    unfold World.get
    cases hfound : w.store.getMonitor id with
    | none => exact h.send rfl
    | some m =>
      exact h.send ((secretStrings_monitor _ _).trans (h.monitors m (Table.lookup_some hfound).1))

end Concealed


/-! ### The slot -/

theorem ref_inj {a b : String} (h : ref a = ref b) : a = b := by
  have hlist := congrArg String.toList h
  simp only [ref, String.toList_append, List.append_cancel_right_eq, List.append_cancel_left_eq]
    at hlist
  exact String.toList_inj.mp hlist

theorem legacyRef_ne_ref (a b : String) : legacyRef a ≠ ref b := by
  intro h
  have hlast := congrArg (fun s : String => s.toList.getLast?) h
  simp [ref, legacyRef, String.toList_append, List.getLast?_append, List.getLast?_cons] at hlast

/-- The slot of the monitor holds the new credential, and the others are as they were. -/
theorem getMonitorCred_setMonitorCred (db : Store) (env : Env) (id value iv now id' : String) :
    (db.setMonitorCred env id value iv now).getMonitorCred env id'
      = if id' = id then .ok (some value) else db.getMonitorCred env id' := by
  have hkey : ∀ r : Secret, ({ r with ciphertext := env.encryptSecret value iv, updatedAt := now } :
      Secret).ref = r.ref := fun _ => rfl
  have hlegacy : Table.lookup Secret.ref (legacyRef id')
      (db.setMonitorCred env id value iv now).secrets
        = Table.lookup Secret.ref (legacyRef id') db.secrets :=
    Table.lookup_upsert_of_ne hkey (Ne.symm (legacyRef_ne_ref id' id)) db.secrets
  unfold Store.getMonitorCred
  rw [hlegacy]
  by_cases hid : id' = id
  · subst hid
    -- the row of the slot is new or has its ciphertext replaced
    obtain ⟨row, hslot, hrow⟩ : ∃ row, Table.lookup Secret.ref (ref id')
        (db.setMonitorCred env id' value iv now).secrets = some row ∧
        row.ciphertext = env.encryptSecret value iv := by
      have hself : Table.lookup Secret.ref (Secret.ref ⟨ref id', env.encryptSecret value iv, now⟩)
          (Table.upsert Secret.ref ⟨ref id', env.encryptSecret value iv, now⟩ _ db.secrets)
            = some _ := Table.lookup_upsert_self hkey db.secrets
      refine ⟨_, hself, ?_⟩
      cases Table.lookup Secret.ref (Secret.ref ⟨ref id', env.encryptSecret value iv, now⟩)
        db.secrets <;> rfl
    rw [if_pos rfl, hslot]
    simp only [hrow, env.decrypt_encrypt]
    rfl
  · have hslot : Table.lookup Secret.ref (ref id') (db.setMonitorCred env id value iv now).secrets
        = Table.lookup Secret.ref (ref id') db.secrets :=
      Table.lookup_upsert_of_ne hkey (fun h => hid (ref_inj h.symm)) db.secrets
    rw [if_neg hid, hslot]

/-- The two kinds of configuration with at most one secret: what is taken out, what is given
    and what is stored. -/
theorem oneSecret_cases {config : Option Config} (h : ∀ c, config = some c → c.OneSecret) :
    ((∀ c, config = some c → c.secrets = []) ∧ extractCred config = (none, config) ∧
      ∀ id, givenBy id config = []) ∨
    ∃ c field v, config = some c ∧ field ∈ secretFields ∧ v ≠ "" ∧
      extractCred config = (some v, some ((c.without field).set "credField" (.str field))) ∧
      ∀ id, givenBy id config = [⟨id, field, v⟩] := by
  cases config with
  | none => exact .inl ⟨fun _ hc => (nomatch hc), rfl, fun _ => rfl⟩
  | some c =>
    rcases extractCred_cases c with ⟨hnone, heq⟩ | ⟨field, v, rest, hsecrets, heq⟩
    · refine .inl ⟨fun c' hc' => ?_, heq, fun id => ?_⟩
      · rw [← Option.some.inj hc']
        exact hnone
      · simp [givenBy, hnone]
    · obtain rfl : rest = [] := by
        have hone := (h c rfl).1
        rw [hsecrets, List.length_cons] at hone
        exact List.eq_nil_of_length_eq_zero (by omega)
      have hmem : (field, v) ∈ c.secrets := by
        rw [hsecrets]
        exact List.mem_singleton_self _
      obtain ⟨hfield, hv⟩ := Config.mem_secrets.mp hmem
      refine .inr ⟨c, field, v, rfl, hfield, (Config.secret_eq_some.mp hv).2, heq, fun id => ?_⟩
      simp [givenBy, hsecrets]

/-- The slots hold what was last given, and a configuration that names a field names the one
    its slot is for. -/
structure Kept (env : Env) (w : World) : Prop where
  slots : ∀ id, w.store.getMonitorCred env id = .ok ((w.latest id).map Given.value)
  known : ∀ g ∈ w.given, g.monitorId ∈ w.store.monitors.map Monitor.id ∧
    g.field ∈ secretFields ∧ g.value ≠ ""
  named : ∀ m ∈ w.store.monitors, ∀ field, m.config.get "credField" = some (.str field) →
    ∀ g, w.latest m.id = some g → field = "" ∨ field = g.field

namespace Kept

variable {env : Env} {w : World}

theorem send (h : Kept env w) (r : Response) : Kept env (w.send r) := ⟨h.slots, h.known, h.named⟩

theorem log (h : Kept env w) (e : AuditEntry) : Kept env (w.log e) := ⟨h.slots, h.known, h.named⟩

/-- Nothing was given for a monitor that is not there. -/
theorem latest_eq_none (h : Kept env w) {id : String}
    (hid : id ∉ w.store.monitors.map Monitor.id) : w.latest id = none := by
  rw [World.latest, List.find?_eq_none]
  intro g hg heq
  exact hid (beq_iff_eq.mp heq ▸ (h.known g hg).1)

/-- The slots after an accepted configuration. -/
theorem slots_keepCred {db : Store} {given : List Given} {config : Option Config}
    (hslots : ∀ id, db.getMonitorCred env id
      = .ok ((given.find? (fun g => g.monitorId == id)).map Given.value))
    (hone : ∀ c, config = some c → c.OneSecret) (id : String) (d : Draw) (id' : String) :
    (World.keepCred db env id d (extractCred config).1).getMonitorCred env id'
      = .ok (((givenBy id config ++ given).find? (fun g => g.monitorId == id')).map
        Given.value) := by
  rcases oneSecret_cases hone with ⟨-, hextract, hgiven⟩ | ⟨c, field, v, -, -, -, hextract, hgiven⟩
  · rw [hextract, hgiven]
    exact hslots id'
  · rw [hextract, hgiven]
    show (db.setMonitorCred env id v d.iv d.now).getMonitorCred env id' = _
    rw [getMonitorCred_setMonitorCred, List.singleton_append, List.find?_cons]
    by_cases hid : id' = id
    · rw [if_pos hid, hid]
      simp
    · have hbeq : (id == id') = false := beq_eq_false_iff_ne.mpr (Ne.symm hid)
      rw [if_neg hid, hslots]
      simp only [hbeq]

theorem find?_givenBy_of_ne {id i : String} (hne : i ≠ id) (config : Option Config)
    (given : List Given) :
    (givenBy id config ++ given).find? (fun g => g.monitorId == i)
      = given.find? (fun g => g.monitorId == i) := by
  have hnone : (givenBy id config).find? (fun g => g.monitorId == i) = none := by
    rw [List.find?_eq_none]
    intro g hg heq
    obtain ⟨s, -, rfl⟩ := List.mem_map.mp hg
    exact hne (beq_iff_eq.mp heq).symm
  rw [List.find?_append, hnone, Option.none_or]

/-- An accepted configuration of monitor `id`, with the rows of `db`: those that keep their
    configuration, the one that is given it, and those that name no field. -/
theorem accept (h : Kept env w) {config : Option Config} {db : Store} {id : String} (d : Draw)
    (hone : ∀ c, config = some c → c.OneSecret) (hslot : ∀ c, config = some c → NamesSlot w id c)
    (hsecrets : db.secrets = w.store.secrets)
    (hids : ∀ i ∈ w.store.monitors.map Monitor.id, i ∈ db.monitors.map Monitor.id)
    (hid : id ∈ db.monitors.map Monitor.id)
    (hrows : ∀ m ∈ db.monitors,
      (∃ m₀ ∈ w.store.monitors, m₀.id = m.id ∧ m₀.config = m.config ∧ (m.id = id → config = none)) ∨
      (m.id = id ∧ (extractCred config).2 = some m.config) ∨ m.config.get "credField" = none) :
    Kept env { w with
      store := World.keepCred db env id d (extractCred config).1
      given := givenBy id config ++ w.given } where
  slots := by
    have hslots : ∀ i, db.getMonitorCred env i
        = .ok ((w.given.find? (fun g => g.monitorId == i)).map Given.value) := by
      intro i
      rw [← World.latest, ← h.slots i, Store.getMonitorCred, Store.getMonitorCred, hsecrets]
    exact slots_keepCred hslots hone id d
  known := by
    intro g hg
    rw [keepCred_monitors]
    rcases List.mem_append.mp hg with hnew | hold
    · obtain ⟨⟨field, v⟩, hs, rfl⟩ := List.mem_map.mp hnew
      cases config with
      | none => exact absurd hs List.not_mem_nil
      | some c =>
        obtain ⟨hfield, hv⟩ := Config.mem_secrets.mp hs
        exact ⟨hid, hfield, (Config.secret_eq_some.mp hv).2⟩
    · exact ⟨hids _ (h.known g hold).1, (h.known g hold).2⟩
  named := by
    intro m hm field hfield g hg
    rw [keepCred_monitors] at hm
    simp only [World.latest] at hg
    rcases hrows m hm with ⟨m₀, hm₀, hid₀, hconfig, hnone⟩ | ⟨hmid, hstored⟩ | hmissing
    · -- a row with its old configuration
      rw [← hconfig] at hfield
      refine h.named m₀ hm₀ field hfield g ?_
      rw [hid₀, World.latest, ← hg]
      by_cases hmid : m.id = id
      · rw [hnone hmid]
        rfl
      · rw [find?_givenBy_of_ne hmid]
    · rcases oneSecret_cases hone with ⟨hnone, hextract, hgiven⟩ |
        ⟨c, field', v, -, -, -, hextract, hgiven⟩
      · rw [hextract] at hstored
        rw [hgiven, hmid] at hg
        exact hslot m.config hstored (hnone _ hstored) field hfield g hg
      · rw [hextract] at hstored
        rw [← Option.some.inj hstored, Config.get_set, if_pos rfl] at hfield
        rw [hgiven, hmid, List.singleton_append, List.find?_cons] at hg
        simp only [beq_self_eq_true, Option.some.injEq] at hg hfield
        rw [← hg]
        exact .inr (JsValue.str.inj hfield).symm
    · rw [hmissing] at hfield
      cases hfield

theorem finishCreate (h : Kept env w) (caller : Caller) (d : Draw) (m : Monitor)
    (config : Option Config) : Kept env (w.finishCreate caller d m config) := by
  unfold World.finishCreate
  cases hping : World.withPing w.store d m config with
  | none => exact h.send _
  | some db =>
    refine Kept.send (Kept.log ?_ _) _
    unfold World.withPing at hping
    split at hping
    · obtain ⟨path, -, rfl⟩ := Option.map_eq_some_iff.mp hping
      refine ⟨fun id => ?_, fun g hg => ?_, fun m' hm' field hfield g hg => ?_⟩
      · have hslots := h.slots id
        unfold Store.getMonitorCred at hslots ⊢
        rw [Store.ensureStoragePing_secrets]
        exact hslots
      · obtain ⟨hid, hrest⟩ := h.known g hg
        exact ⟨List.map_subset _ (Store.subset_ensureStoragePing _ _ _ _ _ _) hid, hrest⟩
      · rcases Store.mem_ensureStoragePing hm' with hold | rfl
        · exact h.named m' hold field hfield g hg
        · have hnone : (Store.newMonitor d.pingId d.now
              (storagePing m.agentId m.name (uncHost path))).config.get "credField" = none := rfl
          rw [hnone] at hfield
          cases hfield
    · obtain rfl := Option.some.inj hping
      exact ⟨h.slots, h.known, h.named⟩

theorem create (h : Kept env w) (caller : Caller) (d : Draw) (body : CreateBody)
    (hfresh : (Call.create caller d body).fresh w.store = true)
    (hone : ∀ input, body.safeParse = .ok input → ∀ c, input.config = some c → c.OneSecret) :
    Kept env (w.create env caller d body) := by
  cases hbody : body.safeParse with
  | error issues =>
    unfold World.create
    rw [hbody]
    exact h.send _
  | ok input =>
    rw [World.create_eq hbody]
    dsimp only
    split
    · have hnew : d.id ∉ w.store.monitors.map Monitor.id := by
        simp only [Call.fresh, Bool.and_eq_true, Bool.not_eq_true', bne_iff_ne] at hfresh
        simpa using hfresh.1.2
      refine finishCreate (accept h d (hone input hbody) ?_ ?_ ?_ ?_ ?_) caller d _ _
      · intro c _ _ field _ g hg
        rw [h.latest_eq_none hnew] at hg
        cases hg
      · rfl
      · intro i hi
        rw [List.map_append]
        exact List.mem_append_left _ hi
      · rw [List.map_append]
        exact List.mem_append_right _ (List.mem_singleton_self _)
      · intro m hm
        rcases List.mem_append.mp hm with hold | hm
        · refine .inl ⟨m, hold, rfl, rfl, fun hid => ?_⟩
          exact absurd (hid ▸ List.mem_map_of_mem hold) hnew
        · obtain rfl := List.mem_singleton.mp hm
          cases hstored : (extractCred input.config).2 with
          | none => exact .inr (.inr rfl)
          | some c => exact .inr (.inl ⟨rfl, rfl⟩)
    · exact h.send _

theorem patch (h : Kept env w) (caller : Caller) (d : Draw) (id : String) (body : UpdateBody)
    (hsound : Sound w (.patch caller d id body)) : Kept env (w.patch env caller d id body) := by
  cases hbody : UpdateBody.safeParse body with
  | error issues =>
    unfold World.patch
    rw [hbody]
    exact h.send _
  | ok input =>
    cases hastray : World.movesAstray w.store id input with
    | true =>
      unfold World.patch
      simp only [hbody, hastray, if_true]
      exact h.send _
    | false =>
      rw [World.patch_eq hbody hastray]
      cases hfound : w.store.getMonitor id with
      | none => exact h.send _
      | some m =>
        have hconfig := hsound input hbody hastray (by simp [hfound])
        obtain ⟨hmem, hmid⟩ := Table.lookup_some hfound
        have hkey : ∀ m : Monitor, (m.patched d.now
            { input with config := (extractCred input.config).2 }).id = m.id := fun _ => rfl
        have hids : (w.store.updateMonitor id d.now
            { input with config := (extractCred input.config).2 }).1.monitors.map Monitor.id
              = w.store.monitors.map Monitor.id := Table.map_update Monitor.id hkey w.store.monitors
        refine Kept.send (Kept.log (accept h d (fun c hc => (hconfig c hc).1)
          (fun c hc => (hconfig c hc).2) ?_ ?_ ?_ ?_) _) _
        · rfl
        · intro i hi
          rw [hids]
          exact hi
        · rw [hids]
          exact hmid ▸ List.mem_map_of_mem hmem
        · intro m' hm'
          obtain ⟨r, hr, rfl⟩ := Table.mem_update.mp hm'
          by_cases hid : r.id = id
          · rw [if_pos (by simpa using hid)]
            cases hstored : (extractCred input.config).2 with
            | none =>
              exact .inl ⟨r, hr, rfl, rfl, fun _ => config_eq_none hstored⟩
            | some c => exact .inr (.inl ⟨hid, rfl⟩)
          · rw [if_neg (by simpa using hid)]
            exact .inl ⟨r, hr, rfl, rfl, fun h => absurd h hid⟩

theorem handle (h : Kept env w) {call : Call} (hfresh : call.fresh w.store = true)
    (hsound : Sound w call) : Kept env (w.handle env call) := by
  cases call with
  | create caller d body => exact h.create caller d body hfresh hsound
  | patch caller d id body => exact h.patch caller d id body hsound
  | list agentId => exact h.send _
  | get id =>
    show Kept env (w.get id)
    unfold World.get
    cases w.store.getMonitor id with
    | none => exact h.send _
    | some m => exact h.send _

end Kept

/-! ### Delivery -/

/-- The delivery of a monitor that names a field puts the value last given for it there. -/
def Redelivers (env : Env) (w : World) : Prop :=
  ∀ m ∈ w.store.monitors, ∀ field, m.config.get "credField" = some (.str field) →
    w.store.injectCred env m.id m.config = .ok (match w.lastGiven m.id field with
      | some v => m.config.set field (.str v)
      | none => m.config)

theorem Kept.redelivers {env : Env} {w : World} (h : Kept env w) : Redelivers env w := by
  intro m hm field hfield
  have hfor : credFieldFor m.config = some field := by rw [credFieldFor, hfield]
  have hlast : ∀ g, w.lastGiven m.id field = some g → field ∈ secretFields := by
    intro v hv
    obtain ⟨g, hg, -⟩ := Option.map_eq_some_iff.mp hv
    have hmatch := List.find?_some hg
    rw [Bool.and_eq_true, beq_iff_eq, beq_iff_eq] at hmatch
    exact hmatch.2 ▸ (h.known g (List.mem_of_find?_eq_some hg)).2.1
  by_cases hempty : field = ""
  · have hnone : w.lastGiven m.id field = none := by
      cases hv : w.lastGiven m.id field with
      | none => rfl
      | some v => exact absurd (hempty ▸ hlast v hv) (by decide)
    rw [hnone, Store.injectCred, Store.injection, hfor]
    simp only [if_pos hempty]
    rfl
  · rw [Store.injectCred, Store.injection, hfor]
    simp only [if_neg hempty, h.slots]
    cases hlatest : w.latest m.id with
    | none =>
      have hnone : w.lastGiven m.id field = none := by
        rw [World.lastGiven, Option.map_eq_none_iff, List.find?_eq_none]
        rw [World.latest, List.find?_eq_none] at hlatest
        intro g hg hmatch
        rw [Bool.and_eq_true] at hmatch
        exact hlatest g hg hmatch.1
      rw [hnone]
      rfl
    | some g =>
      have hfield' : field = g.field := (h.named m hm field hfield g hlatest).resolve_left hempty
      have hvalue : g.value ≠ "" := (h.known g (List.mem_of_find?_eq_some hlatest)).2.2
      have hsome : w.lastGiven m.id field = some g.value := by
        obtain ⟨hgid, older, newer, hsplit, hbefore⟩ := List.find?_eq_some_iff_append.mp hlatest
        have hfind : w.given.find? (fun g => g.monitorId == m.id && g.field == field) = some g := by
          rw [List.find?_eq_some_iff_append]
          refine ⟨by simp [beq_iff_eq.mp hgid, hfield'], older, newer, hsplit, fun a ha => ?_⟩
          have hother := hbefore a ha
          simp only [Bool.not_eq_true'] at hother
          simp [hother]
        rw [World.lastGiven, hfind, Option.map_some]
      rw [hsome]
      simp only [Except.map, Option.map_some, if_neg hvalue]

/-! ### Runs -/

/-- No monitor, and no credential of one. -/
structure Initial (w : World) : Prop where
  monitors : w.store.monitors = []
  secrets : ∀ r ∈ w.store.secrets, ∀ id, r.ref ≠ ref id ∧ r.ref ≠ legacyRef id
  audit : w.audit = []
  sent : w.sent = []
  given : w.given = []

theorem Initial.concealed {w : World} (h : Initial w) : Concealed w := by
  constructor
  · simp [h.monitors]
  · simp [h.sent]
  · simp [h.audit]

theorem Initial.kept {env : Env} {w : World} (h : Initial w) : Kept env w := by
  constructor
  · intro id
    have hslot : Table.lookup Secret.ref (ref id) w.store.secrets = none :=
      Table.lookup_eq_none.mpr fun r hr => (h.secrets r hr id).1
    have hlegacy : Table.lookup Secret.ref (legacyRef id) w.store.secrets = none :=
      Table.lookup_eq_none.mpr fun r hr => (h.secrets r hr id).2
    rw [Store.getMonitorCred, hslot, hlegacy, World.latest, h.given]
    rfl
  · simp [h.given]
  · simp [h.monitors]

namespace Sample

/-- One agent, no monitor. -/
def world : World where
  store := ⟨["agent-1"], [], []⟩
  audit := []
  sent := []
  given := []

def caller : Caller := ⟨some "operator", some "10.0.0.5"⟩

def draw : Draw := ⟨"monitor-1", "monitor-2", "2026-01-01T00:00:00.000Z", "iv"⟩

/-- A database monitor is added with the configuration. -/
def add (config : Config) : Call :=
  .create caller draw ⟨"agent-1", "database", "Orders", none, some config⟩

/-- Its configuration is replaced. -/
def change (config : Config) : Call :=
  .patch caller draw "monitor-1" ⟨none, none, some config, none⟩

/-- A host and a password. -/
def login (password : String) : Config :=
  ⟨[("host", .str "db1"), ("password", .str password)],
    show ["host", "password"].Nodup by decide⟩

/-- A connection string beside the password. -/
def twoSecrets : Config :=
  ⟨[("connectionString", .str "Server=db1;Password=hunter2"), ("password", .str "hunter2")],
    by decide⟩

theorem initial_world : Initial world where
  monitors := rfl
  secrets _ hr := absurd hr List.not_mem_nil
  audit := rfl
  sent := rfl
  given := rfl

end Sample

/-- **Secrets of monitors.** After every run of requests that give at most one secret in a
    configuration and do not redirect its slot, no secret rests in a configuration, a response
    or an audit row, what is shown does not depend on the secrets that were given, and the
    delivery puts back the value last given for the field that is named. -/
theorem monitor_secrets (env : Env) {w₀ w : World} {calls : List Call} (hinit : Initial w₀)
    (hsound : (machine env).Meets Sound w₀ calls) (hrun : (machine env).exec w₀ calls = some w) :
    Concealed w ∧
    (∃ w', (machine env).exec w₀ (calls.map Call.mask) = some w' ∧
      w'.store.monitors = w.store.monitors ∧ w'.sent = w.sent ∧ w'.audit = w.audit) ∧
    Redelivers env w := by
  have hinv : Concealed w ∧ Kept env w := by
    refine Machine.inv_of_exec (I := fun w => Concealed w ∧ Kept env w) (G := Sound) ?_
      ⟨hinit.concealed, hinit.kept⟩ hsound hrun
    rintro u call u' ⟨hconcealed, hkept⟩ hcall hstep
    obtain ⟨hfresh, rfl⟩ := step_eq_some.mp hstep
    exact ⟨hconcealed.handle env hcall, hkept.handle hfresh hcall⟩
  refine ⟨hinv.1, ?_, hinv.2.redelivers⟩
  obtain ⟨S, G, hmasked⟩ := exec_veiled hsound hrun w₀.store.secrets w₀.given
  exact ⟨w.veiled S G, hmasked, rfl, rfl, rfl⟩

open Sample in
/-- The password of a monitor is given, and changed. -/
theorem monitor_secrets_changed : ∃ w,
    (machine env).exec world [add (login "hunter2"), change (login "hunter3")] = some w ∧
    Concealed w ∧ w.lastGiven "monitor-1" "password" = some "hunter3" ∧ Redelivers env w := by
  have hone : ∀ p, (login p).secrets.length ≤ 1 → (login p).OneSecret :=
    fun p hp => ⟨hp, List.forall_mem_cons.mpr ⟨rfl, List.forall_mem_singleton.mpr rfl⟩⟩
  have hsound : (machine env).Meets Sound world
      [add (login "hunter2"), change (login "hunter3")] := by
    refine Machine.Meets.cons ?_ rfl (Machine.Meets.cons ?_ rfl trivial)
    · intro input hinput c hc
      obtain rfl := Except.ok.inj hinput
      obtain rfl := Option.some.inj hc
      exact hone _ (by decide)
    · intro input hinput _ _ c hc
      obtain rfl := Except.ok.inj hinput
      obtain rfl := Option.some.inj hc
      exact ⟨hone _ (by decide), fun h => absurd h (by decide)⟩
  obtain ⟨hconcealed, -, hredelivers⟩ := monitor_secrets env initial_world hsound rfl
  exact ⟨_, rfl, hconcealed, rfl, hredelivers⟩

open Sample in
/-- Of two secrets in one configuration the second stays in it, in clear. -/
theorem monitor_secret_shown : ∃ w, (machine env).exec world [add twoSecrets] = some w ∧
    ¬ Concealed w := by
  refine ⟨_, rfl, fun h => ?_⟩
  have hshown := h.monitors _ List.mem_cons_self
  exact absurd hshown (by decide)

end Argus.Monitors
