import Argus.Auth.Login

namespace Argus.Auth

/-!
# The second factor

`totp_enabled`, `totp_secret` and `totp_recovery` are written by four operations, and the
pending secret of a setup shares its column with the active one.

* `Enrolled` — the second factor is on, with the secret in a given envelope.
* `Demands` — what that is worth: every login that returns tokens presented a code that
  verifies against the secret, or an unused recovery code.
* `NoSetup` — the condition: `beginSetup` does not run for a user whose factor is on.  It
  asks for no code and switches the factor off.
* `secondFactor_kept` — in every sequence of requests that meets it, the factor stays until
  a disable with a verified code, or an administrator's reset.
-/

variable {cfg : Config}

/-- The user's second factor is on, with this envelope as its secret. -/
def MasterDb.Enrolled (db : MasterDb) (id envelope : String) : Prop :=
  ∃ user, db.getUser id = some user ∧ user.totpEnabled = true ∧ user.totpSecret = some envelope

/-- A code that verifies against the secret in the envelope, or is an unused recovery code. -/
def Verifies (core : Core) (envelope : String) (recovery : List Digest) (code : String)
    (now : ℕ) : Prop :=
  (∃ key secret, core.masterKey = .ok key ∧ core.decryptSecret envelope key = .ok secret ∧
    core.verifyTotp secret code now = .ok true) ∨ sha256 (core.trimLower code) ∈ recovery

/-- What `verifyForLogin` can return: a rejection, a current code of the secret, or a code of
    the list with the rest of the list. -/
theorem verifyForLogin_cases {core : Core} {user : User} {code : String} {now : ℕ}
    {found : SecondFactor} (h : verifyForLogin core user code now = .ok found) :
    found = .rejected ∨
    (found = .totp ∧ ∃ envelope key secret, truthy user.totpSecret = some envelope ∧
      core.masterKey = .ok key ∧ core.decryptSecret envelope key = .ok secret ∧
      core.verifyTotp secret code now = .ok true) ∨
    (sha256 (core.trimLower code) ∈ user.totpRecovery.getD [] ∧
      found = .recovery ((user.totpRecovery.getD []).filter
        (fun hash => decide (hash ≠ sha256 (core.trimLower code))))) := by
  unfold verifyForLogin at h
  split at h
  · exact Or.inl (Except.ok.inj h).symm
  · split at h
    · exact Or.inl (Except.ok.inj h).symm
    · rename_i envelope henv
      cases hkey : core.masterKey with
      | error e => simp [hkey, bind, Except.bind] at h
      | ok key =>
        cases hdec : core.decryptSecret envelope key with
        | error e => simp [hkey, hdec, bind, Except.bind] at h
        | ok secret =>
          cases htotp : core.verifyTotp secret code now with
          | error e => simp [hkey, hdec, htotp, bind, Except.bind] at h
          | ok right =>
            simp only [hkey, hdec, htotp, bind, Except.bind, pure, Except.pure] at h
            cases right with
            | true =>
              have hfound := (Except.ok.inj h).symm
              exact Or.inr (Or.inl ⟨hfound, envelope, key, secret, henv, rfl, hdec, htotp⟩)
            | false =>
              rw [if_neg Bool.false_ne_true] at h
              split at h
              · rename_i hmem
                rw [List.contains_eq_mem, decide_eq_true_eq] at hmem
                exact Or.inr (Or.inr ⟨hmem, (Except.ok.inj h).symm⟩)
              · exact Or.inl (Except.ok.inj h).symm

/-- `verifyForLogin` accepts such codes only. -/
theorem verifies_of_verifyForLogin {core : Core} {user : User} {code envelope : String} {now : ℕ}
    {found : SecondFactor} (h : verifyForLogin core user code now = .ok found)
    (hfound : found ≠ .rejected) (hsecret : user.totpSecret = some envelope) :
    Verifies core envelope (user.totpRecovery.getD []) code now := by
  rcases verifyForLogin_cases h with hrej | ⟨-, env, key, secret, henv, hkey, hdec, htotp⟩ |
    ⟨hmem, -⟩
  · exact absurd hrej hfound
  · have hboth := (Option.filter_eq_some_iff.mp henv).1
    rw [hsecret] at hboth
    obtain rfl := Option.some.inj hboth
    exact Or.inl ⟨key, secret, hkey, hdec, htotp⟩
  · exact Or.inr hmem

/-- A request proves possession: the code it presents verifies when the user is read. -/
def Proves (cfg : Config) (b : Backend) (id envelope code : String) (ms : List Moment) : Prop :=
  ∃ user m, b.db.getUser id = some user ∧ ms.head? = some m ∧
    Verifies cfg.core envelope (user.totpRecovery.getD []) code (b.now + m.wait)

/-- Every login of the user that returns tokens presents a second factor. -/
def Demands (cfg : Config) (b : Backend) (id envelope : String) : Prop :=
  ∀ v s req claims raw used, b.serve cfg v = some s →
    s.proc = .login req (.done (.ok claims raw used)) → claims.sub = id →
    ∃ code, truthy req.code = some code ∧ Proves cfg b id envelope code v.moments

/-- The two ways a second factor may end: an administrator's reset, or a disable that proved
    possession. -/
def Released (cfg : Config) (id envelope : String) (b : Backend) (v : Visit) : Prop :=
  ∃ s, b.serve cfg v = some s ∧ (s.proc = .reset2fa id (.done true) ∨
    ∃ caller code shown used, s.proc = .disable2fa caller code (.done (.ok shown) used) ∧
      caller.sub = id ∧ Proves cfg b id envelope code v.moments)

/-- **Condition.** `beginSetup` is not served for the user while the second factor is on
    (without an encryption key it fails and does no harm). -/
def NoSetup (cfg : Config) (id : String) (b : Backend) (v : Visit) : Prop :=
  ∀ caller user key, v.proc = .setup2fa caller .start → caller.sub = id →
    b.db.getUser id = some user → cfg.core.masterKey = .ok key → user.totpEnabled = false

/-! ### Statements -/

/-- Only two statements can end an enrolment. -/
theorem MasterDb.Enrolled.exec {db : MasterDb} {id envelope : String} {stmt : Stmt}
    (h : db.Enrolled id envelope) (hsetup : ∀ env, stmt ≠ .beginSetup id env)
    (hdisable : stmt ≠ .disableTotp id) : (stmt.exec db).Enrolled id envelope := by
  obtain ⟨user, huser, henabled, hsecret⟩ := h
  refine ⟨stmt.set id user, by rw [Stmt.exec_getUser, huser]; rfl, ?_⟩
  -- `enableTotp` sets what is set already; the others leave both columns alone
  cases stmt <;> simp only [Stmt.set, Stmt.onUser]
  case beginSetup id' env =>
    have hne : id' ≠ id := fun heq => hsetup env (by rw [heq])
    rw [if_neg hne]
    exact ⟨henabled, hsecret⟩
  case disableTotp id' =>
    have hne : id' ≠ id := fun heq => hdisable (by rw [heq])
    rw [if_neg hne]
    exact ⟨henabled, hsecret⟩
  all_goals first
    | exact ⟨henabled, hsecret⟩
    | (split <;> first | exact ⟨henabled, hsecret⟩ | exact ⟨rfl, hsecret⟩)

/-! ### Requests -/

section Requests

variable {b : Backend} {v : Visit} {s : Served} {id envelope : String}

/-- **An enrolled user's login demands the second factor.** -/
theorem MasterDb.Enrolled.demands (hwf : b.db.WF) (h : b.db.Enrolled id envelope) :
    Demands cfg b id envelope := by
  intro v s req claims raw used hserve hs hsub
  obtain ⟨m, user, hm, hfind, hid, hsigns⟩ := Backend.serve_passed hserve hs
  obtain ⟨hget, -⟩ := MasterDb.findLocalUser_some hwf hfind
  obtain ⟨user', huser', henabled, hsecret⟩ := h
  rw [hid, hsub, huser'] at hget
  obtain rfl := Option.some.inj hget
  obtain ⟨code, found, hcode, hverify, hfound⟩ := hsigns.factor henabled
  exact ⟨code, hcode, user', m, huser', hm, verifies_of_verifyForLogin hverify hfound hsecret⟩

/-- Requests that issue neither of the two statements leave the enrolment alone. -/
theorem MasterDb.Enrolled.serve_other (h : b.db.Enrolled id envelope)
    (hserve : b.serve cfg v = some s)
    (hsetup : ∀ caller, v.proc.request = .setup2fa caller → caller.sub ≠ id)
    (hreset : v.proc.request ≠ .reset2fa id)
    (hdisable : ∀ caller code, v.proc.request = .disable2fa caller code → caller.sub ≠ id) :
    s.db.Enrolled id envelope := by
  obtain ⟨-, hrun⟩ := Backend.serve_eq_some.mp hserve
  refine (serve_inv (I := fun s => s.proc.request = v.proc.request ∧ s.db.Enrolled id envelope)
    hrun ?_ ⟨rfl, h⟩).2
  rintro t m a ⟨hreq, ht⟩ ha
  have hissued := Proc.step_issues ha
  refine ⟨(Proc.step_request ha).trans hreq, ht.exec ?_ ?_⟩
  · intro env hstmt
    rw [hstmt] at hissued
    obtain ⟨caller, key, hp, hsub⟩ := hissued
    rw [hp] at hreq
    exact hsetup caller hreq.symm hsub
  · intro hstmt
    rw [hstmt] at hissued
    rcases hissued with hp | ⟨caller, code, user, used, hp, hsub⟩
    · rw [hp] at hreq
      exact hreset hreq.symm
    · rw [hp] at hreq
      exact hdisable caller code hreq.symm hsub

/-- A setup without an encryption key writes nothing. -/
theorem MasterDb.Enrolled.serve_setup (h : b.db.Enrolled id envelope)
    (hserve : b.serve cfg v = some s) {caller : AccessClaims}
    (hp : v.proc = .setup2fa caller .start) (hkey : ∀ key, cfg.core.masterKey ≠ .ok key) :
    s.db.Enrolled id envelope := by
  obtain ⟨-, hrun⟩ := Backend.serve_eq_some.mp hserve
  refine (serve_inv (I := fun s =>
    (∃ pc, s.proc = .setup2fa caller pc ∧ ∀ key, pc ≠ .updating key) ∧
      s.db.Enrolled id envelope) hrun ?_ ⟨⟨.start, hp, by simp⟩, h⟩).2
  rintro t m a ⟨⟨pc, hpc, hne⟩, ht⟩ ha
  have hissued := Proc.step_issues ha
  rw [hpc] at ha hissued
  refine ⟨?_, ht.exec ?_ ?_⟩
  · simp only [Proc.step, Option.map_eq_some_iff] at ha
    obtain ⟨c, hc, rfl⟩ := ha
    refine ⟨c.next, rfl, fun key hnext => ?_⟩
    cases pc with
    | start =>
      obtain rfl := Option.some.inj hc
      simp only at hnext
      split at hnext
      · exact absurd hnext (by simp)
      · exact absurd hnext (by simp)
      · rename_i hok
        exact hkey _ hok
    | updating key' => exact hne key' rfl
    | done reply => exact absurd hc (by simp [SetupPc.step])
  · intro env hstmt
    rw [hstmt] at hissued
    obtain ⟨caller', key, hp', -⟩ := hissued
    exact hne key (Proc.setup2fa.inj hp').2
  · intro hstmt
    rw [hstmt] at hissued
    rcases hissued with hp' | ⟨_, _, _, _, hp', -⟩ <;> exact absurd hp' (by simp)

/-- An administrator's reset of an existing user succeeds. -/
theorem MasterDb.Enrolled.serve_reset (h : b.db.Enrolled id envelope)
    (hserve : b.serve cfg v = some s) (hp : v.proc = .reset2fa id .start) :
    s.proc = .reset2fa id (.done true) := by
  obtain ⟨-, hrun⟩ := Backend.serve_eq_some.mp hserve
  have hinv := serve_inv (I := fun s => ∃ pc, s.proc = .reset2fa id pc ∧ pc ≠ .done false ∧
    (pc = .start → s.db.Enrolled id envelope)) hrun ?_ ⟨.start, hp, by simp, fun _ => h⟩
  · obtain ⟨pc, hpc, hne, -⟩ := hinv
    have hfin := (Argus.Auth.serve_eq_some.mp hrun).2
    rw [hpc] at hfin ⊢
    cases pc with
    | done found =>
      cases found with
      | true => rfl
      | false => exact absurd rfl hne
    | _ => exact absurd hfin (by simp [Proc.finished])
  · rintro t m a ⟨pc, hpc, hne, hstart⟩ ha
    rw [hpc] at ha
    simp only [Proc.step, Option.map_eq_some_iff] at ha
    obtain ⟨c, hc, rfl⟩ := ha
    refine ⟨c.next, rfl, ?_⟩
    cases pc with
    | start =>
      obtain rfl := Option.some.inj hc
      obtain ⟨user, huser, -⟩ := hstart rfl
      simp [huser]
    | done found => exact absurd hc (by simp [ResetPc.step])
    | _ =>
      obtain rfl := Option.some.inj hc
      simp

/-- The first statement of a disable leads on only with a code that verifies. -/
theorem MasterDb.Enrolled.disable_start (h : b.db.Enrolled id envelope) {m : Moment}
    (hm : v.moments.head? = some m) {code : String} {c : Action DisablePc}
    (hc : DisablePc.start.step cfg (b.now + m.wait) b.db id code = some c) :
    c.stmt = .select ∧ ((∃ reply used, c.next = .done reply used) ∨
      Proves cfg b id envelope code v.moments) := by
  obtain ⟨user, huser, henabled, hsecret⟩ := h
  simp only [DisablePc.step] at hc
  split at hc
  · obtain rfl := Option.some.inj hc
    exact ⟨rfl, Or.inl ⟨_, _, rfl⟩⟩
  · obtain rfl := Option.some.inj hc
    refine ⟨rfl, ?_⟩
    have hproves : ∀ found, verifyForLogin cfg.core user code (b.now + m.wait) = .ok found →
        found ≠ .rejected → Proves cfg b id envelope code v.moments := by
      intro found hverify hfound
      exact ⟨user, m, huser, hm, verifies_of_verifyForLogin hverify hfound hsecret⟩
    rw [huser]
    simp only [afterGetEnabled, henabled, Bool.not_true, Bool.false_eq_true, if_false]
    cases hverify : verifyForLogin cfg.core user code (b.now + m.wait) with
    | error e => exact Or.inl ⟨_, _, rfl⟩
    | ok found =>
      cases found with
      | rejected => exact Or.inl ⟨_, _, rfl⟩
      | totp => exact Or.inr (hproves _ hverify (by simp))
      | recovery remaining => exact Or.inr (hproves _ hverify (by simp))

/-- A statement of a disable leaves the user enrolled, or is the last one and replies
    success. -/
theorem MasterDb.Enrolled.disable_step {db : MasterDb} (h : db.Enrolled id envelope) {now : ℕ}
    {userId code : String} {pc : DisablePc} {d : Action DisablePc}
    (hd : pc.step cfg now db userId code = some d) :
    (∃ shown used, d.next = .done (.ok shown) used) ∨ (d.stmt.exec db).Enrolled id envelope := by
  cases pc with
  | start =>
    right
    have hselect : d.stmt = .select := by
      simp only [DisablePc.step] at hd
      split at hd <;> obtain rfl := Option.some.inj hd <;> rfl
    rw [hselect]
    exact h
  | consuming user remaining =>
    obtain rfl := Option.some.inj hd
    exact Or.inr (h.exec (by simp) (by simp))
  | disabling user used =>
    obtain rfl := Option.some.inj hd
    exact Or.inl ⟨_, _, rfl⟩
  | done reply used => exact absurd hd (by simp [DisablePc.step])

/-- **A disable either changes nothing that matters or has proved possession.** -/
theorem MasterDb.Enrolled.serve_disable (h : b.db.Enrolled id envelope)
    (hserve : b.serve cfg v = some s) {caller : AccessClaims} {code : String}
    (hp : v.proc = .disable2fa caller code .start) (hsub : caller.sub = id) :
    s.db.Enrolled id envelope ∨
      (Proves cfg b id envelope code v.moments ∧
        ∃ shown used, s.proc = .disable2fa caller code (.done (.ok shown) used)) := by
  obtain ⟨m, ms, a, hms, ha, hrest⟩ := Backend.serve_start hserve
  rw [hp] at ha
  simp only [Proc.step, Option.map_eq_some_iff] at ha
  obtain ⟨c, hc, rfl⟩ := ha
  rw [hsub] at hc
  obtain ⟨hselect, hfirst⟩ := h.disable_start (v := v) (by rw [hms]; rfl) hc
  have hread : (Served.after ⟨b.db, b.now, v.proc, []⟩ m.wait
      (c.map (Proc.disable2fa caller code))).db.Enrolled id envelope := by
    show (c.stmt.exec b.db).Enrolled id envelope
    rw [hselect]
    exact h
  rcases hfirst with ⟨reply, used, hnext⟩ | hproves
  · -- refused at once
    left
    rw [serve_finished hrest (by
      show (Proc.disable2fa caller code c.next).finished = true
      rw [hnext]
      rfl)]
    exact hread
  · -- otherwise the factor is on until the last statement, which replies success
    have hinv := serve_inv (I := fun s => ∃ pc, s.proc = .disable2fa caller code pc ∧
      ((∃ shown used, pc = .done (.ok shown) used) ∨ s.db.Enrolled id envelope)) hrest ?_
      ⟨c.next, rfl, Or.inr hread⟩
    · obtain ⟨pc, hpc, ⟨shown, used, rfl⟩ | henr⟩ := hinv
      · exact Or.inr ⟨hproves, shown, used, hpc⟩
      · exact Or.inl henr
    · rintro t m' a ⟨pc, hpc, hpc'⟩ ha
      rw [hpc] at ha
      simp only [Proc.step, Option.map_eq_some_iff] at ha
      obtain ⟨d, hd, rfl⟩ := ha
      refine ⟨d.next, rfl, ?_⟩
      rcases hpc' with ⟨shown, used, rfl⟩ | henr
      · exact absurd hd (by simp [DisablePc.step])
      · exact henr.disable_step hd

end Requests

/-! ### Sequences of requests -/

/-- The state between two requests in which a user is enrolled. -/
structure Guarded (id envelope : String) (b : Backend) : Prop where
  wf : b.db.WF
  enrolled : b.db.Enrolled id envelope

/-- **Step lemma.** A request that meets the condition leaves the user enrolled, or releases
    the second factor. -/
theorem Guarded.step {b b' : Backend} {v : Visit} {id envelope : String}
    (h : Guarded id envelope b) (hG : NoSetup cfg id b v)
    (hstep : (sequential cfg).step b v = some b') :
    Guarded id envelope b' ∨ Released cfg id envelope b v := by
  obtain ⟨s, hserve, rfl⟩ := sequential_cases hstep
  have hwf : s.db.WF := Backend.serve_wf h.wf hserve
  obtain ⟨hstart, -⟩ := Backend.serve_eq_some.mp hserve
  by_cases hother : (∀ caller, v.proc.request = .setup2fa caller → caller.sub ≠ id) ∧
      v.proc.request ≠ .reset2fa id ∧
      ∀ caller code, v.proc.request = .disable2fa caller code → caller.sub ≠ id
  · exact Or.inl ⟨hwf, h.enrolled.serve_other hserve hother.1 hother.2.1 hother.2.2⟩
  -- a setup, a reset or a disable of this user
  cases hp : v.proc <;> rw [hp] at hstart hother <;> simp only [Proc.request] at hother
  case setup2fa caller pc =>
    obtain rfl := of_decide_eq_true hstart
    have hsub : caller.sub = id := by simpa using hother
    have hrow := h.enrolled
    obtain ⟨user, huser, henabled, -⟩ := hrow
    refine Or.inl ⟨hwf, h.enrolled.serve_setup hserve hp (fun key hkey => ?_)⟩
    rw [hG caller user key hp hsub huser hkey] at henabled
    exact absurd henabled (by simp)
  case reset2fa id' pc =>
    obtain rfl := of_decide_eq_true hstart
    obtain rfl : id' = id := by simpa using hother
    exact Or.inr ⟨s, hserve, Or.inl (h.enrolled.serve_reset hserve hp)⟩
  case disable2fa caller code pc =>
    obtain rfl := of_decide_eq_true hstart
    have hsub : caller.sub = id := by simpa using hother
    rcases h.enrolled.serve_disable hserve hp hsub with henr | ⟨hproves, shown, used, hs⟩
    · exact Or.inl ⟨hwf, henr⟩
    · exact Or.inr ⟨s, hserve, Or.inr ⟨caller, code, shown, used, hs, hsub, hproves⟩⟩
  all_goals exact absurd ⟨by simp, by simp, by simp⟩ hother

/-- **The second factor is kept until it is given up.**  A user who is enrolled with a secret
    in some state is still enrolled with it after any sequence of requests in which no setup
    runs while the factor is on, and every login demands it — unless one of the requests, in
    a state where the user was enrolled, was an administrator's reset or a disable that
    proved possession. -/
theorem secondFactor_kept {b₀ b : Backend} {vs : List Visit} {id envelope : String}
    (hwf : b₀.db.WF) (henr : b₀.db.Enrolled id envelope)
    (hG : (sequential cfg).Meets (NoSetup cfg id) b₀ vs)
    (hrun : (sequential cfg).exec b₀ vs = some b) :
    (b.db.Enrolled id envelope ∧ Demands cfg b id envelope) ∨
      ∃ before v after t, vs = before ++ v :: after ∧
        (sequential cfg).exec b₀ before = some t ∧ t.db.Enrolled id envelope ∧
        Released cfg id envelope t v := by
  rcases Machine.until_of_exec (I := Guarded id envelope)
      (E := fun b v _ => Released cfg id envelope b v)
      (fun _ _ _ h hG hstep => h.step hG hstep) ⟨hwf, henr⟩ hG hrun with
    h | ⟨before, v, after, t, t', hvs, ht, hguard, -, hrel⟩
  · exact Or.inl ⟨h.enrolled, h.enrolled.demands h.wf⟩
  · exact Or.inr ⟨before, v, after, t, hvs, ht, hguard.enrolled, hrel⟩

namespace Sample

/-- The user with a second factor and one recovery code. -/
def enrolledUser : User :=
  { user with
    totpEnabled := true
    totpSecret := some "env:123456"
    totpRecovery := some [sha256 "spare"] }

def enrolledDb : MasterDb := { users := [enrolledUser], refreshTokens := [token] }

theorem enrolledDb_wf : enrolledDb.WF := ⟨by decide, by decide, by decide, by decide⟩

/-- The payload of a token of the user. -/
def claims : AccessClaims := ⟨"u", some "s0", some 0⟩

end Sample

/-- A login with the current code, then a disable with a wrong one: the factor stays. -/
theorem secondFactor_kept_wrong_code :
    ∃ b, (sequential Sample.config).exec ⟨Sample.enrolledDb, 0⟩
        [⟨.login { username := "ann", password := "pw", code := some "123456" } .start,
            [{}, {}, {}, { fresh := { id := "s1", raw := "t1" } }]⟩,
         ⟨.disable2fa Sample.claims "654321" .start, [{}]⟩] = some b ∧
      b.db.Enrolled "u" "env:123456" ∧ Demands Sample.config b "u" "env:123456" := by
  obtain ⟨b, hrun⟩ : ∃ b, (sequential Sample.config).exec ⟨Sample.enrolledDb, 0⟩
      [⟨.login { username := "ann", password := "pw", code := some "123456" } .start,
          [{}, {}, {}, { fresh := { id := "s1", raw := "t1" } }]⟩,
       ⟨.disable2fa Sample.claims "654321" .start, [{}]⟩] = some b := ⟨_, rfl⟩
  have henr : Sample.enrolledDb.Enrolled "u" "env:123456" := ⟨_, rfl, rfl, rfl⟩
  have hG : (sequential Sample.config).Meets (NoSetup Sample.config "u") ⟨Sample.enrolledDb, 0⟩
      [⟨.login { username := "ann", password := "pw", code := some "123456" } .start,
          [{}, {}, {}, { fresh := { id := "s1", raw := "t1" } }]⟩,
       ⟨.disable2fa Sample.claims "654321" .start, [{}]⟩] :=
    ⟨fun _ _ _ hp => absurd hp (by simp),
      fun _ _ => ⟨fun _ _ _ hp => absurd hp (by simp), fun _ _ => trivial⟩⟩
  rcases secondFactor_kept Sample.enrolledDb_wf henr hG hrun with
    hkept | ⟨before, v, after, t, hvs, ht, -, s, hserve, hend⟩
  · exact ⟨b, hrun, hkept⟩
  · -- neither request is a release
    exfalso
    rcases before with _ | ⟨v₁, _ | ⟨v₂, before⟩⟩
    · obtain ⟨rfl, -⟩ := List.cons.inj hvs
      obtain rfl := Option.some.inj ht
      obtain rfl := Option.some.inj hserve
      rcases hend with hp | ⟨_, _, _, _, hp, -⟩ <;> exact Proc.noConfusion hp
    · obtain ⟨rfl, htail⟩ := List.cons.inj hvs
      obtain ⟨rfl, -⟩ := List.cons.inj htail
      obtain rfl := Option.some.inj ht
      obtain rfl := Option.some.inj hserve
      rcases hend with hp | ⟨_, _, _, _, hp, -⟩
      · exact Proc.noConfusion hp
      · have hreply : DisablePc.done .invalid2fa false = _ := (Proc.disable2fa.inj hp).2.2
        exact TwoFAReply.noConfusion (DisablePc.done.inj hreply).1
    · exact absurd hvs (by simp)

/-- **A setup switches the second factor off without a code.**  The user is enrolled; after
    `beginSetup`, which presents none, a login with the password alone returns tokens. -/
theorem secondFactor_dropped :
    ¬ ∀ (cfg : Config) (b₀ b : Backend) (vs : List Visit) (id envelope : String), b₀.db.WF →
      b₀.db.Enrolled id envelope → (sequential cfg).exec b₀ vs = some b →
      (b.db.Enrolled id envelope ∧ Demands cfg b id envelope) ∨
        ∃ before v after t, vs = before ++ v :: after ∧
          (sequential cfg).exec b₀ before = some t ∧ ∃ s, t.serve cfg v = some s ∧
            (s.proc = .reset2fa id (.done true) ∨
              (∃ caller code shown used,
                s.proc = .disable2fa caller code (.done (.ok shown) used)) ∨
              ∃ caller code shown, s.proc = .enable2fa caller code (.done (.ok shown))) := by
  intro h
  have henr : Sample.enrolledDb.Enrolled "u" "env:123456" := ⟨_, rfl, rfl, rfl⟩
  rcases h Sample.config ⟨Sample.enrolledDb, 0⟩ _
      [⟨.setup2fa Sample.claims .start, [{}, { fresh := { secret := "777777" } }]⟩]
      "u" "env:123456" Sample.enrolledDb_wf henr rfl with
    ⟨⟨user, huser, henabled, -⟩, -⟩ | ⟨before, v, after, t, hvs, ht, s, hserve, hend⟩
  · obtain rfl := Option.some.inj huser
    exact absurd henabled (by decide)
  · rcases before with _ | ⟨v₁, before⟩
    · obtain ⟨rfl, -⟩ := List.cons.inj hvs
      obtain rfl := Option.some.inj ht
      obtain rfl := Option.some.inj hserve
      rcases hend with hp | ⟨_, _, _, _, hp⟩ | ⟨_, _, _, hp⟩ <;> exact Proc.noConfusion hp
    · exact absurd hvs (by simp)

end Argus.Auth
