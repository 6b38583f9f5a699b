import Argus.Auth.Sequential

namespace Argus.Auth

/-!
# What it takes to sign in

The login handler decides on the row its `SELECT` returned and never looks at it again.

* `SignsIn` — the checks of the handler on that row: not locked, right password, and a
  second factor if one is enabled.
* `LoginPc.passed` — the user for whom a login is past these checks, up to its reply.
* `step_passed` — a login gets past the checks by its `SELECT` only; `serve_passed` — a
  login that returned tokens passed them.
-/

variable {cfg : Config}

/-- **The checks of the login handler** on the row it read. -/
structure SignsIn (core : Core) (now : ℕ) (req : LoginReq) (user : User) : Prop where
  unlocked : isLocked user now = false
  password : checkPassword core user req.password = true
  factor : user.totpEnabled = true → ∃ code found, truthy req.code = some code ∧
    verifyForLogin core user code now = .ok found ∧ found ≠ .rejected

/-- The user for whom a login is past its checks. -/
def LoginPc.passed : LoginPc → Option String
  | .consuming user _ => some user.id
  | .clearing user _ => some user.id
  | .stamping user _ => some user.id
  | .issuing user _ => some user.id
  | .done (.ok claims _ _) => some claims.sub
  | _ => none

/-- The decision of the handler. -/
theorem afterFindLocalUser_passed {core : Core} {now : ℕ} {req : LoginReq} {found : Option User}
    {id : String} (h : (afterFindLocalUser core now req found).passed = some id) :
    ∃ user, found = some user ∧ user.id = id ∧ SignsIn core now req user := by
  -- one split for each test of the handler, in its order
  unfold afterFindLocalUser at h
  split at h
  · exact absurd h (by simp [LoginPc.passed])
  · rename_i user
    split at h
    · exact absurd h (by simp [LoginPc.passed])
    · rename_i hlocked
      split at h
      · exact absurd h (by simp [LoginPc.passed])
      · rename_i hpassword
        have hunlocked : isLocked user now = false := by simpa using hlocked
        have hright : checkPassword core user req.password = true := by simpa using hpassword
        split at h
        · split at h
          · exact absurd h (by simp [LoginPc.passed])
          · rename_i code hcode
            split at h
            -- of the five results of `verifyForLogin` two go on
            case h_4 hfactor =>
              exact ⟨user, rfl, Option.some.inj h, hunlocked, hright,
                fun _ => ⟨code, _, hcode, hfactor, by simp⟩⟩
            case h_5 remaining hfactor =>
              exact ⟨user, rfl, Option.some.inj h, hunlocked, hright,
                fun _ => ⟨code, _, hcode, hfactor, by simp⟩⟩
            all_goals exact absurd h (by simp [LoginPc.passed])
        · rename_i henabled
          exact ⟨user, rfl, Option.some.inj h, hunlocked, hright, fun he => absurd he henabled⟩

/-- **A login gets past its checks by its `SELECT` only.** -/
theorem LoginPc.step_passed {now : ℕ} {fresh : Fresh} {db : MasterDb} {req : LoginReq}
    {pc : LoginPc} {b : Action LoginPc} {id : String} (h : pc.step cfg now fresh db req = some b)
    (hid : b.next.passed = some id) :
    pc.passed = some id ∨ (pc = .start ∧ ∃ user, db.findLocalUser req.username = some user ∧
      user.id = id ∧ SignsIn cfg.core now req user) := by
  cases pc with
  | start =>
    right
    simp only [LoginPc.step] at h
    split at h
    · obtain rfl := Option.some.inj h
      exact absurd hid (by simp [LoginPc.passed])
    · obtain rfl := Option.some.inj h
      exact ⟨rfl, afterFindLocalUser_passed hid⟩
  | issuing user used =>
    left
    simp only [LoginPc.step] at h
    split at h
    · obtain rfl := Option.some.inj h
      exact hid
    · exact absurd h (by simp)
  | done reply => exact absurd h (by simp [LoginPc.step])
  | failing user =>
    obtain rfl := Option.some.inj h
    exact absurd hid (by simp [LoginPc.passed])
  | counting user policy =>
    obtain rfl := Option.some.inj h
    exact absurd hid (by simp [LoginPc.passed])
  | _ =>
    obtain rfl := Option.some.inj h
    exact Or.inl hid

/-- The handler never comes back to its first statement. -/
theorem LoginPc.step_ne_start {now : ℕ} {fresh : Fresh} {db : MasterDb} {req : LoginReq}
    {pc : LoginPc} {b : Action LoginPc} (h : pc.step cfg now fresh db req = some b) :
    b.next ≠ .start := by
  cases pc <;> simp only [LoginPc.step] at h <;> try split at h
  all_goals simp only [Option.some.injEq, reduceCtorEq] at h
  all_goals subst h
  all_goals try simp only [ne_eq, reduceCtorEq, not_false_eq_true]
  unfold afterFindLocalUser
  repeat' split
  all_goals simp

/-- **A login that returned tokens passed the checks**, on the row that was stored when it
    began. -/
theorem Backend.serve_passed {b : Backend} {v : Visit} {s : Served} {req : LoginReq}
    {claims : AccessClaims} {raw : String} {used : Bool} (h : b.serve cfg v = some s)
    (hs : s.proc = .login req (.done (.ok claims raw used))) :
    ∃ m user, v.moments.head? = some m ∧ b.db.findLocalUser req.username = some user ∧
      user.id = claims.sub ∧ SignsIn cfg.core (b.now + m.wait) req user := by
  obtain ⟨hstart, -⟩ := Backend.serve_eq_some.mp h
  have hreq : v.proc.request = .login req := by rw [← Backend.serve_request h, hs]; rfl
  obtain ⟨m, ms, a, hms, ha, hrest⟩ := Backend.serve_start h
  obtain ⟨pc, hp⟩ : ∃ pc, v.proc = .login req pc := by
    cases hp : v.proc <;> rw [hp] at hreq <;> simp only [Proc.request, reduceCtorEq] at hreq
    rw [Request.login.inj hreq]
    exact ⟨_, rfl⟩
  rw [hp] at hstart ha
  obtain rfl := of_decide_eq_true hstart
  simp only [Proc.step, Option.map_eq_some_iff] at ha
  obtain ⟨c, hc, rfl⟩ := ha
  -- from the second statement on the decision is only carried along
  have hcarry := serve_inv (I := fun s => ∃ pc, s.proc = .login req pc ∧ pc ≠ .start ∧
    (pc.passed = some claims.sub → c.next.passed = some claims.sub)) hrest ?_
    ⟨c.next, rfl, LoginPc.step_ne_start hc, fun hpass => hpass⟩
  · obtain ⟨pc, hpc, -, hpass⟩ := hcarry
    rw [hs] at hpc
    obtain rfl := (Proc.login.inj hpc).2
    obtain hnone | ⟨-, user, hfind, hid, hsigns⟩ := LoginPc.step_passed hc (hpass rfl)
    · exact absurd hnone (by simp [LoginPc.passed])
    · exact ⟨m, user, by rw [hms]; rfl, hfind, hid, hsigns⟩
  · rintro t m' a ⟨pc, hpc, hne, hpass⟩ ha
    rw [hpc] at ha
    simp only [Proc.step, Option.map_eq_some_iff] at ha
    obtain ⟨d, hd, rfl⟩ := ha
    refine ⟨d.next, rfl, LoginPc.step_ne_start hd, fun hnext => ?_⟩
    obtain hbefore | ⟨hpc', -⟩ := LoginPc.step_passed hd hnext
    · exact hpass hbefore
    · exact absurd hpc' hne

end Argus.Auth
