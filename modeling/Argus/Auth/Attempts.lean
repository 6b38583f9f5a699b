import Argus.Auth.Lockout
import Argus.Auth.TwoFactor

namespace Argus.Auth

/-!
# Failed logins, one after the other

Login attempts on an account are processed one at a time.  What the lockout is for is said by
a small automaton: a streak of failures that a success or an unlock ends, and a lock when the
streak reaches the limit.

* `LockState` — the automaton; `Outcome`, `outcome` — what an attempt is to it: a wrong
  password and a wrong second-factor code are both failures.
* `NoWrongCode` — the condition: no attempt with the right password presents a wrong code.
  The handler does not count those.
* `lockout_counts` — in every run of attempts and unlocks that meets it, counter and lock of
  the stored row are those of the automaton.
-/

variable {cfg : Config}

/-! ### The automaton -/

/-- A streak of failed logins and the end of the last lock. -/
structure LockState where
  streak : ℕ := 0
  lockedUntil : Option ℕ := none
deriving DecidableEq, Repr

/-- What a login attempt is. -/
inductive Outcome
  /-- The account is locked: nothing is checked. -/
  | refused
  /-- A wrong password, or a wrong second-factor code. -/
  | failed
  /-- Neither: a missing code, an incomplete request, an error of the server. -/
  | incomplete
  | succeeded
deriving DecidableEq, Repr

/-- The `N`-th failure in a row, recorded at instant `t`, locks the account for the window;
    a new streak begins when the lock has expired. -/
def LockState.attempt (N windowMs t : ℕ) (s : LockState) : Outcome → LockState
  | .failed =>
    if s.streak + 1 < N then { s with streak := s.streak + 1 } else ⟨0, some (t + windowMs)⟩
  | .succeeded => {}
  | _ => s

/-- What an attempt is, on the row it finds. -/
def outcome (core : Core) (now : ℕ) (req : LoginReq) (user : User) : Outcome :=
  if req.username = "" ∨ req.password = "" then .incomplete
  else if isLocked user now then .refused
  else if !checkPassword core user req.password then .failed
  else if user.totpEnabled then
    match truthy req.code with
    | none => .incomplete
    | some code =>
      match verifyForLogin core user code now with
      | .error _ => .incomplete
      | .ok .rejected => .failed
      | .ok _ => .succeeded
  else .succeeded

/-- The instant of the `k`-th statement of a visit. -/
def Visit.instant (v : Visit) (b : Backend) (k : ℕ) : ℕ :=
  b.now + ((v.moments.take k).map Moment.wait).sum

/-- How the automaton of an account follows a request: a login on the account is an attempt,
    decided by its first statement and recorded by its third; an unlock starts afresh. -/
def LockState.next (cfg : Config) (id : String) (N : ℕ) (b : Backend) (v : Visit)
    (s : LockState) : LockState :=
  match v.proc with
  | .login req _ =>
    match b.db.findLocalUser req.username with
    | some user =>
      if user.id = id then
        s.attempt N b.db.getLockoutPolicy.windowMs (v.instant b 3)
          (outcome cfg.core (v.instant b 1) req user)
      else s
    | none => s
  | .unlock id' _ => if id' = id then {} else s
  | _ => s

/-- A login attempt or an unlock. -/
def Visit.IsAttempt (v : Visit) : Prop :=
  (∃ req, v.proc = .login req .start) ∨ ∃ id, v.proc = .unlock id .start

/-- **Condition.** No attempt on the account presents the right password and a wrong second
    factor. -/
def NoWrongCode (cfg : Config) (id : String) (b : Backend) (v : Visit) : Prop :=
  ∀ req user, v.proc = .login req .start → b.db.findLocalUser req.username = some user →
    user.id = id → checkPassword cfg.core user req.password = true →
    outcome cfg.core (v.instant b 1) req user ≠ .failed

/-! ### The stored state -/

/-- Counter and lock of a stored row. -/
def MasterDb.lockState (db : MasterDb) (id : String) : Option LockState :=
  (db.getUser id).map (fun u => ⟨u.failedLoginCount, u.lockedUntil⟩)

section Statements

variable {db : MasterDb} {id : String}

theorem MasterDb.lockState_exec {stmt : Stmt} (hlock : ∀ t, stmt ≠ .lockAccount id t)
    (hcount : ∀ n, stmt ≠ .countFailure id n) (hclear : stmt ≠ .recordSuccess id) :
    (stmt.exec db).lockState id = db.lockState id := by
  unfold MasterDb.lockState
  rw [Stmt.exec_getUser, Option.map_map]
  refine Option.map_congr (fun u _ => ?_)
  obtain ⟨hc, hl⟩ := Stmt.set_lockout hlock hcount hclear u
  simp only [Function.comp_apply, hc, hl]

theorem MasterDb.lockState_recordSuccess {s : LockState} (h : db.lockState id = some s) :
    ((Stmt.recordSuccess id).exec db).lockState id = some {} := by
  unfold MasterDb.lockState at h ⊢
  obtain ⟨u, hu, -⟩ := Option.map_eq_some_iff.mp h
  rw [Stmt.exec_getUser, hu]
  simp [Stmt.set, Stmt.onUser]

/-- **The failure write is the automaton's step.** -/
theorem MasterDb.lockState_recordFailure {s : LockState} {user : User} {N t : ℕ}
    (hN : db.getLockoutPolicy.maxAttempts = N) (hu : db.getUser id = some user)
    (hs : db.lockState id = some s) (hid : user.id = id) :
    ((recordFailure user db.getLockoutPolicy t).exec db).lockState id
      = some (s.attempt N db.getLockoutPolicy.windowMs t .failed) := by
  obtain rfl : s = ⟨user.failedLoginCount, user.lockedUntil⟩ := by
    rw [MasterDb.lockState, hu] at hs
    exact (Option.some.inj hs).symm
  unfold MasterDb.lockState
  rw [Stmt.exec_getUser, hu]
  by_cases hfull : N ≤ user.failedLoginCount + 1
  · have hlt : ¬ user.failedLoginCount + 1 < N := by omega
    rw [recordFailure_of_le t hN hfull, hid]
    simp [Stmt.set, Stmt.onUser, LockState.attempt, hlt]
  · have hlt : user.failedLoginCount + 1 < N := by omega
    rw [recordFailure_of_not_le t hN hfull, hid]
    simp [Stmt.set, Stmt.onUser, LockState.attempt, hlt]

end Statements

/-! ### Attempts -/

/-- **The first statement decides.** -/
theorem LoginPc.start_outcome {now : ℕ} {fresh : Fresh} {db : MasterDb} {req : LoginReq}
    {user : User} {b : Action LoginPc} (h : LoginPc.start.step cfg now fresh db req = some b)
    (hfind : db.findLocalUser req.username = some user)
    (hright : checkPassword cfg.core user req.password = true →
      outcome cfg.core now req user ≠ .failed) :
    b.stmt = .select ∧ match outcome cfg.core now req user with
      | .failed => b.next = .failing user
      | .succeeded => b.next = .clearing user false ∨ ∃ rest, b.next = .consuming user rest
      | _ => ∃ reply, b.next = .done reply := by
  simp only [LoginPc.step] at h
  unfold outcome at hright ⊢
  split at h
  · rename_i hempty
    obtain rfl := Option.some.inj h
    rw [if_pos hempty]
    exact ⟨rfl, _, rfl⟩
  · rename_i hempty
    obtain rfl := Option.some.inj h
    rw [if_neg hempty] at hright ⊢
    refine ⟨rfl, ?_⟩
    simp only [hfind, afterFindLocalUser]
    -- `outcome` and the handler make the same tests; they part at a rejected code only
    by_cases hlocked : isLocked user now = true
    · simp [hlocked]
    · by_cases hpassword : checkPassword cfg.core user req.password = true
      · by_cases htotp : user.totpEnabled = true
        · cases hcode : truthy req.code with
          | none => simp [hlocked, hpassword, htotp]
          | some code =>
            cases hverify : verifyForLogin cfg.core user code now with
            | error e => cases e <;> simp [hlocked, hpassword, htotp, hverify]
            | ok found =>
              cases found with
              | rejected => simp [hlocked, hpassword, htotp, hcode, hverify] at hright
              | totp => simp [hlocked, hpassword, htotp, hverify]
              | recovery rest => simp [hlocked, hpassword, htotp, hverify]
        · simp [hlocked, hpassword, htotp]
      · simp [hlocked, hpassword]

section Visits

variable {b : Backend} {v : Visit} {s : Served} {id : String} {N : ℕ} {st : LockState}
  {req : LoginReq}

/-- A login that is past its checks clears counter and lock. -/
theorem serve_clears {t : Served} {ms : List Moment} {user : User} {pc : LoginPc}
    (hserve : serve cfg t ms = some s) (ht : t.proc = .login req pc)
    (hpc : (∃ used, pc = .clearing user used) ∨ ∃ rest, pc = .consuming user rest)
    (hid : user.id = id) (hst : t.db.lockState id = some st) : s.db.lockState id = some {} := by
  -- up to `recordSuccess` the row is there, from then on it is clear
  have hinv := serve_inv (I := fun t => ∃ pc, t.proc = .login req pc ∧
    (((∃ used, pc = .clearing user used) ∨ ∃ rest, pc = .consuming user rest) ∧
      (∃ st, t.db.lockState id = some st) ∨
    ((∃ used, pc = .stamping user used) ∨ (∃ used, pc = .issuing user used) ∨
      ∃ reply, pc = .done reply) ∧ t.db.lockState id = some {})) hserve ?_
    ⟨pc, ht, Or.inl ⟨hpc, st, hst⟩⟩
  · obtain ⟨pc', hproc, ⟨hbefore, -⟩ | ⟨-, hafter⟩⟩ := hinv
    · have hfin := (serve_eq_some.mp hserve).2
      rw [hproc] at hfin
      rcases hbefore with ⟨used, rfl⟩ | ⟨rest, rfl⟩ <;> exact absurd hfin (by simp [Proc.finished])
    · exact hafter
  · rintro t m a ⟨pc, hproc, hcase⟩ ha
    rw [hproc] at ha
    simp only [Proc.step, Option.map_eq_some_iff] at ha
    obtain ⟨c, hc, rfl⟩ := ha
    refine ⟨c.next, rfl, ?_⟩
    show _ ∨ _ ∧ (c.stmt.exec t.db).lockState id = some {}
    rcases hcase with ⟨⟨used, rfl⟩ | ⟨rest, rfl⟩, st', hst'⟩ |
      ⟨⟨used, rfl⟩ | ⟨used, rfl⟩ | ⟨reply, rfl⟩, hclear⟩
    · obtain rfl := Option.some.inj hc
      refine Or.inr ⟨Or.inl ⟨used, rfl⟩, ?_⟩
      rw [hid]
      exact MasterDb.lockState_recordSuccess hst'
    · obtain rfl := Option.some.inj hc
      refine Or.inl ⟨Or.inl ⟨true, rfl⟩, st', ?_⟩
      show ((Stmt.setRecovery user.id rest).exec t.db).lockState id = some st'
      rw [MasterDb.lockState_exec (by simp) (by simp) (by simp)]
      exact hst'
    · obtain rfl := Option.some.inj hc
      refine Or.inr ⟨Or.inr (Or.inl ⟨used, rfl⟩), ?_⟩
      rw [MasterDb.lockState_exec (by simp) (by simp) (by simp)]
      exact hclear
    · simp only [LoginPc.step] at hc
      split at hc
      · obtain rfl := Option.some.inj hc
        refine Or.inr ⟨Or.inr (Or.inr ⟨_, rfl⟩), ?_⟩
        rw [MasterDb.lockState_exec (by simp) (by simp) (by simp)]
        exact hclear
      · exact absurd hc (by simp)
    · exact absurd hc (by simp [LoginPc.step])

/-- A login with a wrong password reads the policy, writes the failure and replies. -/
theorem serve_failing {t : Served} {ms : List Moment} {user : User}
    (hserve : serve cfg t ms = some s) (ht : t.proc = .login req (.failing user)) :
    ∃ m₂ m₃ ms', ms = m₂ :: m₃ :: ms' ∧ s.db = (recordFailure user t.db.getLockoutPolicy
      (t.now + m₂.wait + m₃.wait)).exec t.db := by
  obtain ⟨m₂, ms₂, a₂, rfl, ha₂, hrest₂⟩ := serve_open hserve (by
    rw [ht]
    rfl)
  rw [ht] at ha₂
  obtain rfl := Option.some.inj ha₂
  obtain ⟨m₃, ms₃, a₃, rfl, ha₃, hrest₃⟩ := serve_open hrest₂ rfl
  obtain rfl := Option.some.inj ha₃
  refine ⟨m₂, m₃, ms₃, rfl, ?_⟩
  rw [serve_finished hrest₃ rfl]
  rfl

/-- **An attempt on the account** moves its row as the automaton moves. -/
theorem serve_attempt {user : User} (hwf : b.db.WF)
    (hN : b.db.getLockoutPolicy.maxAttempts = N) (hst : b.db.lockState id = some st)
    (hserve : b.serve cfg v = some s) (hp : v.proc = .login req .start)
    (hfind : b.db.findLocalUser req.username = some user) (hid : user.id = id)
    (hG : checkPassword cfg.core user req.password = true →
      outcome cfg.core (v.instant b 1) req user ≠ .failed) :
    s.db.lockState id = some (st.attempt N b.db.getLockoutPolicy.windowMs (v.instant b 3)
      (outcome cfg.core (v.instant b 1) req user)) := by
  obtain ⟨m, ms, a, hms, ha, hrest⟩ := Backend.serve_start hserve
  have hread : v.instant b 1 = b.now + m.wait := by simp [Visit.instant, hms]
  rw [hp] at ha
  simp only [Proc.step, Option.map_eq_some_iff] at ha
  obtain ⟨c, hc, rfl⟩ := ha
  rw [hread] at hG ⊢
  obtain ⟨hstmt, hnext⟩ := LoginPc.start_outcome hc hfind hG
  -- the database after the first statement is the one it found
  have hdb :
      (Served.after ⟨b.db, b.now, v.proc, []⟩ m.wait (c.map (Proc.login req))).db = b.db := by
    show c.stmt.exec b.db = b.db
    rw [hstmt]
    rfl
  have hstay : (∃ reply, c.next = .done reply) → s.db.lockState id = some st := by
    rintro ⟨reply, hreply⟩
    have hend := serve_finished hrest (by
      show (Proc.login req c.next).finished = true
      rw [hreply]
      rfl)
    rw [hend, hdb]
    exact hst
  cases hout : outcome cfg.core (b.now + m.wait) req user with
  | refused =>
    rw [hout] at hnext
    exact hstay hnext
  | incomplete =>
    rw [hout] at hnext
    exact hstay hnext
  | succeeded =>
    rw [hout] at hnext
    refine serve_clears hrest rfl ?_ hid (by rw [hdb]; exact hst)
    rcases hnext with hnext | hnext
    · exact Or.inl ⟨false, hnext⟩
    · exact Or.inr hnext
  | failed =>
    rw [hout] at hnext
    obtain ⟨hget, -⟩ := MasterDb.findLocalUser_some hwf hfind
    obtain ⟨m₂, m₃, ms₃, hms₂, hend⟩ := serve_failing hrest (by
      show Proc.login req c.next = _
      rw [hnext])
    have hwrite : v.instant b 3 = b.now + m.wait + m₂.wait + m₃.wait := by
      simp [Visit.instant, hms, hms₂]
      omega
    rw [hend, hdb, hwrite]
    exact MasterDb.lockState_recordFailure hN (hid ▸ hget) hst hid

/-- A login on another account leaves the row alone. -/
theorem serve_elsewhere (hserve : b.serve cfg v = some s) (hp : v.proc = .login req .start)
    (hother : ∀ user, b.db.findLocalUser req.username = some user → user.id ≠ id) :
    s.db.lockState id = b.db.lockState id := by
  obtain ⟨m, ms, a, -, ha, hrest⟩ := Backend.serve_start hserve
  rw [hp] at ha
  -- all writes of a login are to the row it read
  have hleave : ∀ {now : ℕ} {db : MasterDb} {fresh : Fresh} {pc : LoginPc} {a : Action Proc},
      (Proc.login req pc).step cfg now fresh db = some a →
      (∀ x, pc.user = some x → x.id ≠ id) → (a.stmt.exec db).lockState id = db.lockState id := by
    intro now db fresh pc a ha huser
    have hissued := Proc.step_issues ha
    refine MasterDb.lockState_exec (fun t hstmt => ?_) (fun n hstmt => ?_) (fun hstmt => ?_)
    · rw [hstmt] at hissued
      obtain ⟨_, user, _, hp', hid, -⟩ := hissued
      exact huser user (by rw [(Proc.login.inj hp').2]; rfl) hid
    · rw [hstmt] at hissued
      obtain ⟨_, user, _, hp', hid, -⟩ := hissued
      exact huser user (by rw [(Proc.login.inj hp').2]; rfl) hid
    · rw [hstmt] at hissued
      rcases hissued with ⟨_, user, _, hp', hid⟩ | ⟨_, hp', -⟩ | hp' | hp'
      · exact huser user (by rw [(Proc.login.inj hp').2]; rfl) hid
      all_goals exact absurd hp' (by simp)
  have hfirst := hleave ha (by simp [LoginPc.user])
  refine (serve_inv (I := fun t => (∃ pc, t.proc = .login req pc ∧ pc ≠ .start ∧
    ∀ x, pc.user = some x → x.id ≠ id) ∧ t.db.lockState id = b.db.lockState id) hrest ?_
    ⟨?_, hfirst⟩).2
  · rintro t m' a' ⟨⟨pc, hproc, hne, huser⟩, hsame⟩ ha'
    rw [hproc] at ha'
    refine ⟨?_, (hleave ha' huser).trans hsame⟩
    have hstep := ha'
    simp only [Proc.step, Option.map_eq_some_iff] at hstep
    obtain ⟨c, hc, rfl⟩ := hstep
    refine ⟨c.next, rfl, LoginPc.step_ne_start hc, fun x hx => ?_⟩
    obtain ⟨pc₀, hp₀, hx₀⟩ | ⟨hp₀, -⟩ := Proc.step_next_login ha' rfl hx
    · rw [← (Proc.login.inj hp₀).2] at hx₀
      exact huser x hx₀
    · exact absurd (Proc.login.inj hp₀).2 hne
  · have hstep := ha
    simp only [Proc.step, Option.map_eq_some_iff] at hstep
    obtain ⟨c, hc, rfl⟩ := hstep
    refine ⟨c.next, rfl, LoginPc.step_ne_start hc, fun x hx => ?_⟩
    obtain ⟨pc₀, hp₀, hx₀⟩ | ⟨-, hfind⟩ := Proc.step_next_login ha rfl hx
    · rw [← (Proc.login.inj hp₀).2] at hx₀
      exact absurd hx₀ (by simp [LoginPc.user])
    · exact hother x hfind

/-- An unlock clears the account it is for. -/
theorem serve_unlock {id' : String} (hst : b.db.lockState id = some st)
    (hserve : b.serve cfg v = some s) (hp : v.proc = .unlock id' .start) :
    s.db.lockState id = some (if id' = id then {} else st) := by
  obtain ⟨m, ms, a, -, ha, hrest⟩ := Backend.serve_start hserve
  rw [hp] at ha
  obtain rfl := Option.some.inj ha
  by_cases hsame : id' = id
  · -- the user exists, so the second statement clears the row
    have hfound : (b.db.getUser id').isSome = true := by
      unfold MasterDb.lockState at hst
      obtain ⟨u, hu, -⟩ := Option.map_eq_some_iff.mp hst
      rw [hsame, hu]
      rfl
    simp only [hfound, if_true] at hrest
    obtain ⟨m₂, ms₂, a₂, -, ha₂, hrest₂⟩ := serve_open hrest rfl
    obtain rfl := Option.some.inj ha₂
    rw [serve_finished hrest₂ rfl, if_pos hsame]
    show ((Stmt.recordSuccess id').exec b.db).lockState id = _
    rw [hsame]
    exact MasterDb.lockState_recordSuccess hst
  · rw [if_neg hsame]
    refine (serve_inv (I := fun t => (∃ pc, t.proc = .unlock id' pc) ∧
      t.db.lockState id = some st) hrest ?_ ⟨⟨_, rfl⟩, hst⟩).2
    rintro t m' a' ⟨⟨pc, hproc⟩, hst'⟩ ha'
    have hissued := Proc.step_issues ha'
    rw [hproc] at hissued ha'
    refine ⟨?_, ?_⟩
    · simp only [Proc.step, Option.map_eq_some_iff] at ha'
      obtain ⟨c, -, rfl⟩ := ha'
      exact ⟨c.next, rfl⟩
    · refine (MasterDb.lockState_exec (fun t' hstmt => ?_) (fun n hstmt => ?_)
        (fun hstmt => ?_)).trans hst' <;> rw [hstmt] at hissued
      · obtain ⟨_, _, _, hp', -⟩ := hissued
        exact absurd hp' (by simp)
      · obtain ⟨_, _, _, hp', -⟩ := hissued
        exact absurd hp' (by simp)
      · rcases hissued with ⟨_, _, _, hp', -⟩ | ⟨_, hp', -⟩ | hp' | hp'
        · exact absurd hp' (by simp)
        · exact absurd hp' (by simp)
        · exact absurd hp' (by simp)
        · exact hsame (Proc.unlock.inj hp').1

end Visits

/-! ### Runs of attempts -/

/-- Serving a request leaves the policy alone. -/
theorem Backend.serve_getLockoutPolicy {b : Backend} {v : Visit} {s : Served}
    (h : b.serve cfg v = some s) : s.db.getLockoutPolicy = b.db.getLockoutPolicy := by
  obtain ⟨-, hrun⟩ := Backend.serve_eq_some.mp h
  exact serve_inv (I := fun s => s.db.getLockoutPolicy = b.db.getLockoutPolicy) hrun
    (fun t m a ht _ => ht) rfl

/-- The automaton is in the state that is stored. -/
structure Follows (id : String) (N : ℕ) (b : Backend) (st : LockState) : Prop where
  wf : b.db.WF
  attempts : b.db.getLockoutPolicy.maxAttempts = N
  stored : b.db.lockState id = some st

/-- **Step lemma.** -/
theorem Follows.step {b b' : Backend} {v : Visit} {id : String} {N : ℕ} {st : LockState}
    (h : Follows id N b st) (hkind : v.IsAttempt) (hG : NoWrongCode cfg id b v)
    (hstep : (sequential cfg).step b v = some b') :
    Follows id N b' (LockState.next cfg id N b v st) := by
  obtain ⟨s, hserve, rfl⟩ := sequential_cases hstep
  refine ⟨Backend.serve_wf h.wf hserve, ?_, ?_⟩
  · rw [Backend.serve_getLockoutPolicy hserve]
    exact h.attempts
  · show s.db.lockState id = _
    rcases hkind with ⟨req, hp⟩ | ⟨id', hp⟩
    · cases hfind : b.db.findLocalUser req.username with
      | none =>
        rw [serve_elsewhere hserve hp (fun user huser => by simp [hfind] at huser), h.stored]
        simp [LockState.next, hp, hfind]
      | some user =>
        by_cases hid : user.id = id
        · rw [serve_attempt h.wf h.attempts h.stored hserve hp hfind hid (hG req user hp hfind hid)]
          simp [LockState.next, hp, hfind, hid]
        · have hother : ∀ user', b.db.findLocalUser req.username = some user' → user'.id ≠ id := by
            intro user' huser'
            rw [hfind] at huser'
            rw [← Option.some.inj huser']
            exact hid
          rw [serve_elsewhere hserve hp hother, h.stored]
          simp [LockState.next, hp, hfind, hid]
    · rw [serve_unlock h.stored hserve hp]
      simp [LockState.next, hp]

/-- **Lockout counts every failed login**, in every run of attempts and unlocks without a wrong
    second factor after the right password: counter and lock of the row are those of the
    automaton, so the account is locked exactly by the `N`-th failure in a row. -/
theorem lockout_counts {b₀ b : Backend} {vs : List Visit} {id : String} {N : ℕ} {st : LockState}
    (hwf : b₀.db.WF) (hN : b₀.db.getLockoutPolicy.maxAttempts = N)
    (hst : b₀.db.lockState id = some st)
    (hkind : (sequential cfg).Meets (fun _ v => v.IsAttempt) b₀ vs)
    (hG : (sequential cfg).Meets (NoWrongCode cfg id) b₀ vs)
    (hrun : (sequential cfg).exec b₀ vs = some b) :
    b.db.lockState id = some ((sequential cfg).track (LockState.next cfg id N) b₀ vs st) :=
  (Machine.rel_of_track (fun _ _ _ _ h hG hstep => Follows.step h hG.1 hG.2 hstep)
    ⟨hwf, hN, hst⟩ (hkind.and hG) hrun).stored

/-- Two wrong passwords in a row lock the account, from the second on. -/
theorem lockout_counts_passwords :
    ∃ b, (sequential Sample.config).exec ⟨Sample.strictDb, 0⟩
        [⟨Sample.guesses 0, [{}, {}, {}]⟩, ⟨Sample.guesses 1, [{}, {}, { wait := 3 }]⟩] = some b ∧
      b.db.lockState "u" = some ⟨0, some (3 + Sample.strictDb.getLockoutPolicy.windowMs)⟩ := by
  obtain ⟨b, hrun⟩ : ∃ b, (sequential Sample.config).exec ⟨Sample.strictDb, 0⟩
      [⟨Sample.guesses 0, [{}, {}, {}]⟩, ⟨Sample.guesses 1, [{}, {}, { wait := 3 }]⟩] = some b :=
    ⟨_, rfl⟩
  have hkind : (sequential Sample.config).Meets (fun _ v => v.IsAttempt) ⟨Sample.strictDb, 0⟩
      [⟨Sample.guesses 0, [{}, {}, {}]⟩, ⟨Sample.guesses 1, [{}, {}, { wait := 3 }]⟩] :=
    ⟨Or.inl ⟨_, rfl⟩, fun _ _ => ⟨Or.inl ⟨_, rfl⟩, fun _ _ => trivial⟩⟩
  have hG : (sequential Sample.config).Meets (NoWrongCode Sample.config "u") ⟨Sample.strictDb, 0⟩
      [⟨Sample.guesses 0, [{}, {}, {}]⟩, ⟨Sample.guesses 1, [{}, {}, { wait := 3 }]⟩] := by
    -- the password is wrong both times
    refine ⟨fun req user hp hfind _ hright => ?_, fun b₁ h₁ => ⟨?_, fun _ _ => trivial⟩⟩
    · obtain ⟨rfl, -⟩ := Proc.login.inj hp
      obtain rfl := Option.some.inj hfind
      exact absurd hright (by decide)
    · obtain rfl := Option.some.inj h₁
      intro req user hp hfind _ hright
      obtain ⟨rfl, -⟩ := Proc.login.inj hp
      obtain rfl := Option.some.inj hfind
      exact absurd hright (by decide)
  refine ⟨b, hrun, ?_⟩
  have hwf : Sample.strictDb.WF := Sample.strictWorld_initial.wf
  have hst : Sample.strictDb.lockState "u" = some {} := rfl
  rw [lockout_counts hwf Sample.strictDb_maxAttempts hst hkind hG hrun]
  rfl

/-- **Wrong second-factor codes are not counted.**  With one attempt allowed, two logins with
    the right password and a wrong code leave the account without a lock. -/
theorem lockout_ignores_codes :
    ¬ ∀ (cfg : Config) (b₀ b : Backend) (vs : List Visit) (id : String) (N : ℕ) (st : LockState),
      b₀.db.WF → b₀.db.getLockoutPolicy.maxAttempts = N → b₀.db.lockState id = some st →
      (sequential cfg).Meets (fun _ v => v.IsAttempt) b₀ vs →
      (sequential cfg).exec b₀ vs = some b →
      b.db.lockState id = some ((sequential cfg).track (LockState.next cfg id N) b₀ vs st) := by
  intro h
  let db : MasterDb := { Sample.enrolledDb with lockout := { maxAttempts := some 1 } }
  let guess : Visit :=
    ⟨.login { username := "ann", password := "pw", code := some "000000" } .start, [{}, {}, {}]⟩
  have hone : db.getLockoutPolicy.maxAttempts = (1 : ℕ) := by
    norm_num [db, MasterDb.getLockoutPolicy, positiveOr]
  have hkind : (sequential Sample.config).Meets (fun _ v => v.IsAttempt) ⟨db, 0⟩ [guess, guess] :=
    ⟨Or.inl ⟨_, rfl⟩, fun _ _ => ⟨Or.inl ⟨_, rfl⟩, fun _ _ => trivial⟩⟩
  have hwf : db.WF := ⟨by decide, by decide, by decide, by decide⟩
  have hstates := h Sample.config ⟨db, 0⟩ _ [guess, guess] "u" 1 {} hwf hone rfl hkind rfl
  have hlocked : none = some (0 + db.getLockoutPolicy.windowMs) :=
    congrArg LockState.lockedUntil (Option.some.inj hstates)
  exact absurd hlocked (by simp)

end Argus.Auth
