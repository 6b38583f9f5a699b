import Argus.Auth.Login

namespace Argus.Auth

/-!
# Account lockout under concurrency

`recordFailure` computes the new counter from the row the login read and writes it back as an
absolute value, so failures that overlap overwrite each other's increments.

* `recordFailed` — the failure writes of a run, with their instants.
* `CountKept` — the step condition: as long as the account has no lock, a failure write finds
  the counter its login read.
* `Tracked` — the invariant: the counter is the number of failures, until the lock is set.
* `lockout_not_outrun` — with the `N`-th failure the account is locked, and a locked account
  gives no tokens.
-/

variable {cfg : Config}

/-- Append the instant of a failure write of the user, if that is what a step is. -/
def recordFailed (id : String) (w : World) (l : Label) (failed : List ℕ) : List ℕ :=
  match l with
  | .run c _ =>
    match w.calls c with
    | .login _ (.counting user _) => if user.id = id then failed ++ [w.now] else failed
    | _ => failed
  | .tick _ => failed

/-- No success and no `clearLock` of the user. -/
def NoClear (cfg : Config) (id : String) (w : World) : Label → Prop
  | .run c fresh => ∀ a, w.action cfg c fresh = some a → a.stmt ≠ .recordSuccess id
  | .tick _ => True

/-- **Step condition.** A failure write of an account without a lock finds the counter that
    its login read. -/
def CountKept (id : String) (w : World) : Label → Prop
  | .run c _ => ∀ req user policy stored, w.calls c = .login req (.counting user policy) →
      user.id = id → w.db.getUser id = some stored → stored.lockedUntil = none →
      stored.failedLoginCount = user.failedLoginCount
  | .tick _ => True

/-! ### Statements -/

/-- The columns of the lockout change by three statements only. -/
theorem Stmt.set_lockout {stmt : Stmt} {id : String} (hlock : ∀ t, stmt ≠ .lockAccount id t)
    (hcount : ∀ n, stmt ≠ .countFailure id n) (hclear : stmt ≠ .recordSuccess id) (u : User) :
    (stmt.set id u).failedLoginCount = u.failedLoginCount ∧
      (stmt.set id u).lockedUntil = u.lockedUntil := by
  cases stmt
  case lockAccount id' t =>
    have hne : id' ≠ id := fun heq => hlock t (by rw [heq])
    simp [Stmt.set, Stmt.onUser, hne]
  case countFailure id' n =>
    have hne : id' ≠ id := fun heq => hcount n (by rw [heq])
    simp [Stmt.set, Stmt.onUser, hne]
  case recordSuccess id' =>
    have hne : id' ≠ id := fun heq => hclear (by rw [heq])
    simp [Stmt.set, Stmt.onUser, hne]
  all_goals first
    | exact ⟨rfl, rfl⟩
    | (unfold Stmt.set Stmt.onUser
       dsimp only
       split <;> exact ⟨rfl, rfl⟩)

/-- No statement changes the policy. -/
theorem Stmt.exec_getLockoutPolicy (stmt : Stmt) (db : MasterDb) :
    (stmt.exec db).getLockoutPolicy = db.getLockoutPolicy := rfl

section RecordFailure

variable {user : User} {policy : LockoutPolicy} {N : ℕ}

/-- The failure that fills the counter locks the account. -/
theorem recordFailure_of_le (now : ℕ) (hmax : policy.maxAttempts = N)
    (hle : N ≤ user.failedLoginCount + 1) :
    recordFailure user policy now = .lockAccount user.id (now + policy.windowMs) := by
  have hle' : policy.maxAttempts ≤ ((user.failedLoginCount + 1 : ℕ) : ℚ) := by
    rw [hmax]
    exact_mod_cast hle
  unfold recordFailure
  exact if_pos hle'

/-- Any other failure counts. -/
theorem recordFailure_of_not_le (now : ℕ) (hmax : policy.maxAttempts = N)
    (hlt : ¬ N ≤ user.failedLoginCount + 1) :
    recordFailure user policy now = .countFailure user.id (user.failedLoginCount + 1) := by
  have hlt' : ¬ policy.maxAttempts ≤ ((user.failedLoginCount + 1 : ℕ) : ℚ) := by
    rw [hmax]
    exact_mod_cast hlt
  unfold recordFailure
  exact if_neg hlt'

/-- The write of the failure that fills the counter. -/
theorem set_recordFailure_of_le (now : ℕ) (hmax : policy.maxAttempts = N)
    (hle : N ≤ user.failedLoginCount + 1) (u : User) :
    ((recordFailure user policy now).set user.id u).lockedUntil
      = some (now + policy.windowMs) := by
  rw [recordFailure_of_le now hmax hle]
  simp [Stmt.set, Stmt.onUser]

/-- The write of any other failure. -/
theorem set_recordFailure_of_not_le (now : ℕ) (hmax : policy.maxAttempts = N)
    (hlt : ¬ N ≤ user.failedLoginCount + 1) (u : User) :
    ((recordFailure user policy now).set user.id u).lockedUntil = u.lockedUntil ∧
      ((recordFailure user policy now).set user.id u).failedLoginCount
        = user.failedLoginCount + 1 := by
  rw [recordFailure_of_not_le now hmax hlt]
  simp [Stmt.set, Stmt.onUser]

end RecordFailure

/-! ### The invariants -/

/-- A login that is about to record its failure knows the policy. -/
def PolicyKnown (w : World) : Prop :=
  ∀ c req user policy, w.calls c = .login req (.counting user policy) →
    policy = w.db.getLockoutPolicy

theorem PolicyKnown.of_initial {w : World} (h : w.Initial) : PolicyKnown w := by
  intro c req user policy hc
  exact absurd (h.atStart hc) (by simp [Proc.atStart])

/-- The policy is read just before it is used. -/
theorem LoginPc.step_counting {now : ℕ} {fresh : Fresh} {db : MasterDb} {req : LoginReq}
    {pc : LoginPc} {b : Action LoginPc} {user : User} {policy : LockoutPolicy}
    (h : pc.step cfg now fresh db req = some b) (hnext : b.next = .counting user policy) :
    policy = db.getLockoutPolicy := by
  cases pc with
  | start =>
    simp only [LoginPc.step] at h
    split at h
    · obtain rfl := Option.some.inj h
      exact absurd hnext (by simp)
    · obtain rfl := Option.some.inj h
      simp only [afterFindLocalUser] at hnext
      repeat' split at hnext
      all_goals exact absurd hnext (by simp)
  | failing user' =>
    obtain rfl := Option.some.inj h
    exact (LoginPc.counting.inj hnext).2.symm
  | issuing user' used =>
    simp only [LoginPc.step] at h
    split at h
    · obtain rfl := Option.some.inj h
      exact absurd hnext (by simp)
    · exact absurd h (by simp)
  | done reply => exact absurd h (by simp [LoginPc.step])
  | _ =>
    obtain rfl := Option.some.inj h
    exact absurd hnext (by simp)

theorem PolicyKnown.step {w w' : World} {l : Label} (h : PolicyKnown w)
    (hstep : (machine cfg).step w l = some w') : PolicyKnown w' := by
  obtain ⟨ms, -, rfl⟩ | ⟨c, fresh, a, rfl, ha, rfl, -⟩ := step_cases hstep
  · exact h
  intro d req user policy hd
  rw [World.after_db, Stmt.exec_getLockoutPolicy]
  by_cases hdc : d = c
  · subst hdc
    rw [World.after_calls_self] at hd
    unfold World.action at ha
    cases hp : w.calls d <;> rw [hp] at ha <;>
      simp only [Proc.step, Option.map_eq_some_iff] at ha <;>
      obtain ⟨b, hb, rfl⟩ := ha <;>
      simp only [Action.map, Proc.login.injEq, reduceCtorEq] at hd
    obtain ⟨rfl, hnext⟩ := hd
    exact LoginPc.step_counting hb hnext
  · rw [World.after_calls_of_ne hdc] at hd
    exact h d req user policy hd

/-- **Invariant** of a stretch without success: the instants of the failure writes so far
    determine the counter, and from the `N`-th on the lock. -/
structure Tracked (id : String) (N : ℕ) (w : World) (failed : List ℕ) : Prop where
  policyKnown : PolicyKnown w
  positive : 1 ≤ N
  attempts : w.db.getLockoutPolicy.maxAttempts = N
  past : ∀ t ∈ failed, t ≤ w.now
  few : failed.length < N → ∃ u, w.db.getUser id = some u ∧
    u.failedLoginCount = failed.length ∧ u.lockedUntil = none
  locked : ∀ t, failed[N - 1]? = some t → ∃ u until_, w.db.getUser id = some u ∧
    u.lockedUntil = some until_ ∧ t + w.db.getLockoutPolicy.windowMs ≤ until_

section Step

variable {w : World} {c : ℕ} {fresh : Fresh} {a : Action Proc} {id : String} {N : ℕ}
  {failed : List ℕ}

/-- The row of a user after a statement. -/
theorem World.after_getUser {u : User} (hu : w.db.getUser id = some u) :
    (w.after c a).db.getUser id = some (a.stmt.set id u) := by
  rw [World.after_db, Stmt.exec_getUser, hu]
  rfl

/-- A statement that is no failure write leaves the account alone. -/
theorem Tracked.other (h : Tracked id N w failed) (ha : w.action cfg c fresh = some a)
    (hknown : PolicyKnown (w.after c a)) (hclear : a.stmt ≠ .recordSuccess id)
    (hcall : ∀ req user policy, w.calls c = .login req (.counting user policy) → user.id ≠ id) :
    Tracked id N (w.after c a) failed := by
  have hissued := Proc.step_issues ha
  have hset : ∀ u : User, (a.stmt.set id u).failedLoginCount = u.failedLoginCount ∧
      (a.stmt.set id u).lockedUntil = u.lockedUntil := by
    refine Stmt.set_lockout (fun t hstmt => ?_) (fun n hstmt => ?_) hclear
    · rw [hstmt] at hissued
      obtain ⟨req, user, policy, hp, hid, -⟩ := hissued
      exact hcall req user policy hp hid
    · rw [hstmt] at hissued
      obtain ⟨req, user, policy, hp, hid, -⟩ := hissued
      exact hcall req user policy hp hid
  refine ⟨hknown, h.positive, h.attempts, h.past, ?_, ?_⟩
  · intro hlen
    obtain ⟨u, hu, hcount, hnone⟩ := h.few hlen
    exact ⟨_, World.after_getUser hu, (hset u).1.trans hcount, (hset u).2.trans hnone⟩
  · intro t ht
    obtain ⟨u, until_, hu, huntil, hle⟩ := h.locked t ht
    exact ⟨_, until_, World.after_getUser hu, (hset u).2.trans huntil, hle⟩

/-- **A failure write counts**, and locks when the counter is full. -/
theorem Tracked.failure (h : Tracked id N w failed) (ha : w.action cfg c fresh = some a)
    (hknown : PolicyKnown (w.after c a)) (hG : CountKept id w (.run c fresh)) {req : LoginReq}
    {user : User} {policy : LockoutPolicy} (hc : w.calls c = .login req (.counting user policy))
    (hid : user.id = id) : Tracked id N (w.after c a) (failed ++ [w.now]) := by
  have hstmt : a.stmt = recordFailure user policy w.now := by
    unfold World.action at ha
    rw [hc] at ha
    obtain rfl := Option.some.inj ha
    rfl
  have hpolicy : policy = w.db.getLockoutPolicy := h.policyKnown c req user policy hc
  have hmax : policy.maxAttempts = N := by rw [hpolicy, h.attempts]
  have hfull : N ≤ user.failedLoginCount + 1 → ∀ u, (a.stmt.set id u).lockedUntil
      = some (w.now + w.db.getLockoutPolicy.windowMs) := by
    intro hle u
    rw [hstmt, ← hid, ← hpolicy]
    exact set_recordFailure_of_le w.now hmax hle u
  have hopen : ¬ N ≤ user.failedLoginCount + 1 → ∀ u, (a.stmt.set id u).lockedUntil = u.lockedUntil
      ∧ (a.stmt.set id u).failedLoginCount = user.failedLoginCount + 1 := by
    intro hlt u
    rw [hstmt, ← hid]
    exact set_recordFailure_of_not_le w.now hmax hlt u
  have hpast : ∀ t ∈ failed ++ [w.now], t ≤ w.now := by
    intro t ht
    rcases List.mem_append.mp ht with ht | ht
    · exact h.past t ht
    · exact le_of_eq (List.mem_singleton.mp ht)
  -- `few` and `locked` are exclusive: which one holds depends on the length
  by_cases hlen : failed.length < N
  · -- no lock yet: the write finds the counter that was read
    obtain ⟨u, hu, hcount, hnone⟩ := h.few hlen
    have hread : user.failedLoginCount = failed.length :=
      (hG req user policy u hc hid hu hnone).symm.trans hcount
    by_cases hlast : N ≤ user.failedLoginCount + 1
    · refine ⟨hknown, h.positive, h.attempts, hpast, fun hlen' => ?_, fun t ht => ?_⟩
      · rw [List.length_append, List.length_singleton] at hlen'
        omega
      · have hpos : N - 1 = failed.length := by omega
        rw [hpos, List.getElem?_append_right (le_refl _), Nat.sub_self] at ht
        obtain rfl : w.now = t := by simpa using ht
        exact ⟨_, _, World.after_getUser hu, hfull hlast u, le_refl _⟩
    · refine ⟨hknown, h.positive, h.attempts, hpast, fun _ => ?_, fun t ht => ?_⟩
      · refine ⟨_, World.after_getUser hu, ?_, (hopen hlast u).1.trans hnone⟩
        rw [(hopen hlast u).2, hread, List.length_append, List.length_singleton]
      · have hout : (failed ++ [w.now])[N - 1]? = none := by
          rw [List.getElem?_eq_none_iff, List.length_append, List.length_singleton]
          omega
        rw [hout] at ht
        exact absurd ht (by simp)
  · -- the lock is set: a later write can only move it forward
    refine ⟨hknown, h.positive, h.attempts, hpast, fun hlen' => ?_, fun t ht => ?_⟩
    · rw [List.length_append, List.length_singleton] at hlen'
      omega
    · have hpos := h.positive
      rw [List.getElem?_append_left (by omega)] at ht
      obtain ⟨u, until_, hu, huntil, hle⟩ := h.locked t ht
      by_cases hlast : N ≤ user.failedLoginCount + 1
      · have htw : t ≤ w.now := h.past t (List.mem_of_getElem? ht)
        exact ⟨_, _, World.after_getUser hu, hfull hlast u, Nat.add_le_add_right htw _⟩
      · exact ⟨_, until_, World.after_getUser hu, (hopen hlast u).1.trans huntil, hle⟩

end Step

/-- **Step lemma.** -/
theorem Tracked.step {w w' : World} {l : Label} {id : String} {N : ℕ} {failed : List ℕ}
    (h : Tracked id N w failed) (hG : CountKept id w l) (hclear : NoClear cfg id w l)
    (hstep : (machine cfg).step w l = some w') :
    Tracked id N w' (recordFailed id w l failed) := by
  have hknown := h.policyKnown.step hstep
  obtain ⟨ms, rfl, rfl⟩ | ⟨c, fresh, a, rfl, ha, rfl, -⟩ := step_cases hstep
  · exact ⟨hknown, h.positive, h.attempts, fun t ht => (h.past t ht).trans (Nat.le_add_right _ _),
      h.few, h.locked⟩
  · by_cases hwrite : ∃ req user policy, w.calls c = .login req (.counting user policy) ∧
        user.id = id
    · obtain ⟨req, user, policy, hc, hid⟩ := hwrite
      simp only [recordFailed, hc, hid, if_true]
      exact h.failure ha hknown hG hc hid
    · have hsame : recordFailed id w (.run c fresh) failed = failed := by
        simp only [recordFailed]
        split
        · rename_i req user policy hc
          exact if_neg (fun hid => hwrite ⟨req, user, policy, hc, hid⟩)
        · rfl
      rw [hsame]
      exact h.other ha hknown (hclear a ha)
        (fun req user policy hc hid => hwrite ⟨req, user, policy, hc, hid⟩)

/-! ### Locked accounts -/

/-- **A login that reads a locked row is refused.** -/
theorem login_refused {w w' : World} {c : ℕ} {fresh : Fresh} {req : LoginReq} {id : String}
    {u user : User} {until_ : ℕ} (hwf : w.db.WF) (hu : w.db.getUser id = some u)
    (huntil : u.lockedUntil = some until_) (hnow : w.now < until_)
    (hc : w.calls c = .login req .start) (hfind : w.db.findLocalUser req.username = some user)
    (hid : user.id = id) (hstep : (machine cfg).step w (.run c fresh) = some w') :
    ∃ reply, w'.calls c = .login req (.done reply) ∧
      ∀ claims raw used, reply ≠ .ok claims raw used := by
  obtain ⟨ms, hl, -⟩ | ⟨d, fresh', a, hl, ha, rfl, -⟩ := step_cases hstep
  · exact absurd hl (by simp)
  obtain ⟨rfl, rfl⟩ := Label.run.inj hl
  -- the row found by name is the one found by id
  have hsame : user = u := by
    obtain ⟨hget, -⟩ := MasterDb.findLocalUser_some hwf hfind
    rw [hid, hu] at hget
    exact (Option.some.inj hget).symm
  have hlocked : isLocked user w.now = true := by simp [isLocked, hsame, huntil, hnow]
  rw [World.after_calls_self]
  unfold World.action at ha
  rw [hc] at ha
  simp only [Proc.step, LoginPc.step, Option.map_eq_some_iff] at ha
  obtain ⟨b, hb, rfl⟩ := ha
  split at hb
  · obtain rfl := Option.some.inj hb
    exact ⟨_, rfl, by simp⟩
  · obtain rfl := Option.some.inj hb
    refine ⟨.accountLocked user.lockedUntil, ?_, by simp⟩
    simp [Action.map, hfind, afterFindLocalUser, hlocked]

/-- The policy is the same all along a run. -/
theorem getLockoutPolicy_of_run {w w' : World} {ls : List Label}
    (h : (machine cfg).exec w ls = some w') :
    w'.db.getLockoutPolicy = w.db.getLockoutPolicy := by
  refine Machine.rel_of_exec
    (R := fun w w' => w'.db.getLockoutPolicy = w.db.getLockoutPolicy) (fun _ => rfl) ?_ ?_ h
  · intro a b c hab hbc
    exact hbc.trans hab
  · intro v l v' hstep
    obtain ⟨ms, -, rfl⟩ | ⟨c, fresh, a, -, -, rfl, -⟩ := step_cases hstep <;> rfl

/-- **Lockout cannot be outrun.**  `w₁` is any reached state in which the account has neither
    a failure nor a lock; from there to `w₂` no success and no `clearLock` of it runs, and
    every failure write meets `CountKept`.  If `t` is the instant of the `N`-th failure write,
    the account is locked for the window from `t` on, and while it is, no login that reads the
    row returns tokens. -/
theorem lockout_not_outrun {w₀ w₁ w₂ : World} {ls₁ ls₂ : List Label} {id : String} {N t : ℕ}
    {u : User} (h₀ : w₀.Initial) (hrun₁ : (machine cfg).exec w₀ ls₁ = some w₁)
    (hu : w₁.db.getUser id = some u) (hcount : u.failedLoginCount = 0)
    (hnone : u.lockedUntil = none) (hN : 1 ≤ N)
    (hpolicy : w₁.db.getLockoutPolicy.maxAttempts = N)
    (hclear : (machine cfg).Meets (NoClear cfg id) w₁ ls₂)
    (hG : (machine cfg).Meets (CountKept id) w₁ ls₂)
    (hrun₂ : (machine cfg).exec w₁ ls₂ = some w₂)
    (ht : ((machine cfg).track (recordFailed id) w₁ ls₂ [])[N - 1]? = some t) :
    (∃ u₂ until_, w₂.db.getUser id = some u₂ ∧ u₂.lockedUntil = some until_ ∧
      t + w₁.db.getLockoutPolicy.windowMs ≤ until_) ∧
    (w₂.now < t + w₁.db.getLockoutPolicy.windowMs →
      ∀ c fresh req user w₃, w₂.calls c = .login req .start →
        w₂.db.findLocalUser req.username = some user → user.id = id →
        (machine cfg).step w₂ (.run c fresh) = some w₃ →
        ∃ reply, w₃.calls c = .login req (.done reply) ∧
          ∀ claims raw used, reply ≠ .ok claims raw used) := by
  have hknown : PolicyKnown w₁ :=
    Machine.inv_of_exec (G := fun _ _ => True) (fun _ _ _ h _ hstep => h.step hstep)
      (PolicyKnown.of_initial h₀) (Machine.Meets.always w₀ ls₁) hrun₁
  have hstart : Tracked id N w₁ [] :=
    ⟨hknown, hN, hpolicy, by simp, fun _ => ⟨u, hu, by rw [hcount]; rfl, hnone⟩, by simp⟩
  have htracked : Tracked id N w₂ ((machine cfg).track (recordFailed id) w₁ ls₂ []) :=
    Machine.rel_of_track
      (fun _ _ _ _ h hG hstep => Tracked.step h hG.1 hG.2 hstep) hstart (hG.and hclear) hrun₂
  have hsame : w₂.db.getLockoutPolicy = w₁.db.getLockoutPolicy := getLockoutPolicy_of_run hrun₂
  obtain ⟨u₂, until_, hu₂, huntil, hle⟩ := htracked.locked t ht
  rw [hsame] at hle
  refine ⟨⟨u₂, until_, hu₂, huntil, hle⟩, fun hnow c fresh req user w₃ hc hfind hid hstep => ?_⟩
  have hwf : w₂.db.WF := wf_of_run (wf_of_run h₀.wf hrun₁) hrun₂
  exact login_refused hwf hu₂ huntil (hnow.trans_le hle) hc hfind hid hstep

namespace Sample

/-- The account of the user locks at the second failure. -/
def strictDb : MasterDb := { db with lockout := { maxAttempts := some 2 } }

/-- Every request is a login with a wrong password. -/
def guesses : ℕ → Proc := fun _ => .login { username := "ann", password := "bad" } .start

theorem strictWorld_initial : (world strictDb guesses).Initial :=
  ⟨⟨by decide, by decide, by decide, by decide⟩, fun _ => rfl, rfl⟩

theorem strictDb_maxAttempts : strictDb.getLockoutPolicy.maxAttempts = (2 : ℕ) := by
  norm_num [strictDb, MasterDb.getLockoutPolicy, positiveOr]

end Sample

/-- Two logins with a wrong password, one after the other, lock the account. -/
theorem lockout_not_outrun_sequential :
    ∃ w₂, (machine Sample.config).exec (Sample.world Sample.strictDb Sample.guesses)
        [.run 0 {}, .run 0 {}, .run 0 {}, .run 1 {}, .run 1 {}, .run 1 {}] = some w₂ ∧
      ∃ u₂ until_, w₂.db.getUser "u" = some u₂ ∧ u₂.lockedUntil = some until_ ∧
        0 + Sample.strictDb.getLockoutPolicy.windowMs ≤ until_ := by
  obtain ⟨w₂, hrun⟩ : ∃ w₂,
      (machine Sample.config).exec (Sample.world Sample.strictDb Sample.guesses)
      [.run 0 {}, .run 0 {}, .run 0 {}, .run 1 {}, .run 1 {}, .run 1 {}] = some w₂ := ⟨_, rfl⟩
  have hclear : (machine Sample.config).Meets (NoClear Sample.config "u")
      (Sample.world Sample.strictDb Sample.guesses)
      [.run 0 {}, .run 0 {}, .run 0 {}, .run 1 {}, .run 1 {}, .run 1 {}] := by
    repeat'
      refine ⟨fun a ha hs => ?_, fun v h => ?_⟩
      · obtain rfl := Option.some.inj ha
        exact Stmt.noConfusion hs
      obtain rfl := Option.some.inj h
    trivial
  have hG : (machine Sample.config).Meets (CountKept "u")
      (Sample.world Sample.strictDb Sample.guesses)
      [.run 0 {}, .run 0 {}, .run 0 {}, .run 1 {}, .run 1 {}, .run 1 {}] := by
    -- the third statement of each login is the failure write, and finds what was read
    refine ⟨fun _ _ _ _ hc => LoginPc.noConfusion (Proc.login.inj hc).2, fun v h => ?_⟩
    obtain rfl := Option.some.inj h
    refine ⟨fun _ _ _ _ hc => LoginPc.noConfusion (Proc.login.inj hc).2, fun v h => ?_⟩
    obtain rfl := Option.some.inj h
    refine ⟨fun _ user _ stored hc _ hstored _ => ?_, fun v h => ?_⟩
    · obtain ⟨rfl, -⟩ := LoginPc.counting.inj (Proc.login.inj hc).2
      obtain rfl := Option.some.inj hstored
      rfl
    obtain rfl := Option.some.inj h
    refine ⟨fun _ _ _ _ hc => LoginPc.noConfusion (Proc.login.inj hc).2, fun v h => ?_⟩
    obtain rfl := Option.some.inj h
    refine ⟨fun _ _ _ _ hc => LoginPc.noConfusion (Proc.login.inj hc).2, fun v h => ?_⟩
    obtain rfl := Option.some.inj h
    refine ⟨fun _ user _ stored hc _ hstored _ => ?_, fun v h => trivial⟩
    obtain ⟨rfl, -⟩ := LoginPc.counting.inj (Proc.login.inj hc).2
    obtain rfl := Option.some.inj hstored
    rfl
  exact ⟨w₂, hrun, (lockout_not_outrun Sample.strictWorld_initial (Machine.exec_nil _ _) rfl rfl rfl
    (by decide) Sample.strictDb_maxAttempts hclear hG hrun rfl).1⟩

/-- **Two overlapping failures count as one.**  Both logins read the counter at zero and
    both write one; the account is not locked. -/
theorem lockout_outrun :
    ¬ ∀ (cfg : Config) (w₀ w₁ w₂ : World) (ls₁ ls₂ : List Label) (id : String) (N t : ℕ) (u : User),
      w₀.Initial → (machine cfg).exec w₀ ls₁ = some w₁ → w₁.db.getUser id = some u →
      u.failedLoginCount = 0 → u.lockedUntil = none → 1 ≤ N →
      w₁.db.getLockoutPolicy.maxAttempts = N → (machine cfg).Meets (NoClear cfg id) w₁ ls₂ →
      (machine cfg).exec w₁ ls₂ = some w₂ →
      ((machine cfg).track (recordFailed id) w₁ ls₂ [])[N - 1]? = some t →
      ∃ u₂ until_, w₂.db.getUser id = some u₂ ∧ u₂.lockedUntil = some until_ ∧
        t + w₁.db.getLockoutPolicy.windowMs ≤ until_ := by
  intro h
  have hclear : (machine Sample.config).Meets (NoClear Sample.config "u")
      (Sample.world Sample.strictDb Sample.guesses)
      [.run 0 {}, .run 1 {}, .run 0 {}, .run 1 {}, .run 0 {}, .run 1 {}] := by
    repeat'
      refine ⟨fun a ha hs => ?_, fun v h => ?_⟩
      · obtain rfl := Option.some.inj ha
        exact Stmt.noConfusion hs
      obtain rfl := Option.some.inj h
    trivial
  obtain ⟨u₂, until_, hu₂, huntil, -⟩ := h Sample.config _ _ _ [] _ "u" 2 0 _
    Sample.strictWorld_initial rfl rfl rfl rfl (by decide) Sample.strictDb_maxAttempts hclear
    rfl rfl
  obtain rfl := Option.some.inj hu₂
  exact absurd (show none = some until_ from huntil) (by simp)

end Argus.Auth
