import Argus.Auth.TwoFactor

namespace Argus.Auth

/-!
# Single use of recovery codes

`verifyForLogin` works on the row its caller read, and writes the remaining hashes back as a
whole list.  A write that was computed from an older list forgets what happened since: two
requests may consume one code, and a consumed code may come back.

* `Proc.consuming` — a request between the two: it has matched a code, and its `UPDATE` is
  next.  `Proc.usedRecovery` — a request past its `UPDATE`, with the hash it consumed.
* `ListKept` — the step condition: the `UPDATE` finds all hashes its request read still
  stored, and no new codes are issued.
* `Consumed` — the invariant: a consumed hash is not stored, and one request consumed it.
-/

variable {cfg : Config}

/-- The stored recovery hashes of a user. -/
def MasterDb.recovery (db : MasterDb) (id : String) : List Digest :=
  ((db.getUser id).bind User.totpRecovery).getD []

/-- A request that has matched a recovery code and is about to write the remaining hashes. -/
def Proc.consuming : Proc → Option (User × List Digest)
  | .login _ (.consuming user remaining) => some (user, remaining)
  | .disable2fa _ _ (.consuming user remaining) => some (user, remaining)
  | _ => none

/-- The hash of the code a request presents as its second factor. -/
def Proc.submitted (core : Core) : Proc → Digest
  | .login req _ => sha256 (core.trimLower ((truthy req.code).getD ""))
  | .disable2fa _ code _ => sha256 (core.trimLower code)
  | _ => sha256 ""

/-- The user whose recovery code `verifyForLogin` has accepted and consumed for a request. -/
def Proc.recovered : Proc → Option String
  | .login _ (.clearing user true) => some user.id
  | .login _ (.stamping user true) => some user.id
  | .login _ (.issuing user true) => some user.id
  | .login _ (.done (.ok claims _ true)) => some claims.sub
  | .disable2fa caller _ (.disabling _ true) => some caller.sub
  | .disable2fa caller _ (.done _ true) => some caller.sub
  | _ => none

/-- Request `c` was accepted with a recovery code of the user, which had this hash. -/
def UsedRecovery (core : Core) (w : World) (id : String) (hash : Digest) (c : ℕ) : Prop :=
  (w.calls c).recovered = some id ∧ (w.calls c).submitted core = hash

/-- **Step condition.** A write of the remaining hashes finds every hash that its request
    read still stored, and no enable issues new codes. -/
def ListKept (id : String) (w : World) : Label → Prop
  | .run c _ =>
    (∀ user remaining, (w.calls c).consuming = some (user, remaining) → user.id = id →
      ∀ hash ∈ user.totpRecovery.getD [], hash ∈ w.db.recovery id) ∧
    ∀ caller code, w.calls c = .enable2fa caller code .updating → caller.sub ≠ id
  | .tick _ => True

/-! ### What `verifyForLogin` matched -/

/-- A recovery code that matched was in the list, and the rest of the list remains. -/
theorem verifyForLogin_recovery {core : Core} {user : User} {code : String} {now : ℕ}
    {remaining : List Digest} (h : verifyForLogin core user code now = .ok (.recovery remaining)) :
    sha256 (core.trimLower code) ∈ user.totpRecovery.getD [] ∧
      remaining = (user.totpRecovery.getD []).filter
        (fun hash => decide (hash ≠ sha256 (core.trimLower code))) := by
  rcases verifyForLogin_cases h with hrej | ⟨htotp, -⟩ | ⟨hmem, hrec⟩
  · exact absurd hrej (by simp)
  · exact absurd htotp (by simp)
  · exact ⟨hmem, SecondFactor.recovery.inj hrec⟩

/-- What a request knows when it is about to write the remaining hashes. -/
structure Matched (core : Core) (p : Proc) (user : User) (remaining : List Digest) : Prop where
  matched : p.submitted core ∈ user.totpRecovery.getD []
  rest : remaining = (user.totpRecovery.getD []).filter
    (fun hash => decide (hash ≠ p.submitted core))
  owner : ∀ caller code pc, p = .disable2fa caller code pc → user.id = caller.sub

/-- A login comes to its write by matching a code in the row it reads. -/
theorem LoginPc.step_consuming {now : ℕ} {fresh : Fresh} {db : MasterDb} {req : LoginReq}
    {pc : LoginPc} {b : Action LoginPc} {user : User} {remaining : List Digest}
    (h : pc.step cfg now fresh db req = some b) (hnext : b.next = .consuming user remaining) :
    ∃ code, truthy req.code = some code ∧
      verifyForLogin cfg.core user code now = .ok (.recovery remaining) := by
  cases pc with
  | start =>
    simp only [LoginPc.step] at h
    split at h
    · obtain rfl := Option.some.inj h
      exact absurd hnext (by simp)
    · obtain rfl := Option.some.inj h
      simp only [afterFindLocalUser] at hnext
      -- down the handler: found, not locked, right password, second factor on, a code given
      split at hnext
      · exact absurd hnext (by simp)
      · split at hnext
        · exact absurd hnext (by simp)
        · split at hnext
          · exact absurd hnext (by simp)
          · split at hnext
            · split at hnext
              · exact absurd hnext (by simp)
              · rename_i code hcode
                split at hnext
                case h_5 remaining' hverify =>
                  obtain ⟨rfl, rfl⟩ := LoginPc.consuming.inj hnext
                  exact ⟨code, hcode, hverify⟩
                all_goals exact absurd hnext (by simp)
            · exact absurd hnext (by simp)
  | issuing user used =>
    simp only [LoginPc.step] at h
    split at h
    · obtain rfl := Option.some.inj h
      exact absurd hnext (by simp)
    · exact absurd h (by simp)
  | done reply => exact absurd h (by simp [LoginPc.step])
  | _ =>
    obtain rfl := Option.some.inj h
    exact absurd hnext (by simp)

/-- So does a disable, in the row of its caller. -/
theorem DisablePc.step_consuming {now : ℕ} {db : MasterDb} {userId code : String}
    {pc : DisablePc} {b : Action DisablePc} {user : User} {remaining : List Digest}
    (h : pc.step cfg now db userId code = some b) (hnext : b.next = .consuming user remaining) :
    db.getUser userId = some user ∧
      verifyForLogin cfg.core user code now = .ok (.recovery remaining) := by
  cases pc with
  | start =>
    simp only [DisablePc.step] at h
    split at h
    · obtain rfl := Option.some.inj h
      exact absurd hnext (by simp)
    · obtain rfl := Option.some.inj h
      simp only [afterGetEnabled] at hnext
      split at hnext
      · exact absurd hnext (by simp)
      · rename_i found hfound
        split at hnext
        · exact absurd hnext (by simp)
        · split at hnext
          case h_4 remaining' hverify =>
            obtain ⟨rfl, rfl⟩ := DisablePc.consuming.inj hnext
            exact ⟨hfound, hverify⟩
          all_goals exact absurd hnext (by simp)
  | done reply used => exact absurd h (by simp [DisablePc.step])
  | _ =>
    obtain rfl := Option.some.inj h
    exact absurd hnext (by simp)

/-- **What a request knows when it has come to its write.** -/
theorem Proc.step_consuming {now : ℕ} {fresh : Fresh} {db : MasterDb} {p : Proc} {a : Action Proc}
    {user : User} {remaining : List Digest} (h : p.step cfg now fresh db = some a)
    (hnext : a.next.consuming = some (user, remaining)) :
    Matched cfg.core a.next user remaining := by
  cases p <;> simp only [Proc.step, Option.map_eq_some_iff] at h <;>
    obtain ⟨b, hb, rfl⟩ := h
  case login req pc =>
    have hpc : b.next = .consuming user remaining := by
      simp only [Action.map, Proc.consuming] at hnext
      split at hnext
      · rename_i hp
        obtain ⟨rfl, rfl⟩ := Prod.mk.inj (Option.some.inj hnext)
        exact (Proc.login.inj hp).2
      · rename_i hp
        exact absurd hp (by simp)
      · exact absurd hnext (by simp)
    obtain ⟨code, hcode, hverify⟩ := LoginPc.step_consuming hb hpc
    obtain ⟨hmem, hrest⟩ := verifyForLogin_recovery hverify
    refine ⟨?_, ?_, fun _ _ _ hp => absurd hp (by simp [Action.map])⟩
    · simpa [Action.map, Proc.submitted, hcode] using hmem
    · simpa [Action.map, Proc.submitted, hcode] using hrest
  case disable2fa caller code pc =>
    have hpc : b.next = .consuming user remaining := by
      simp only [Action.map, Proc.consuming] at hnext
      split at hnext
      · rename_i hp
        exact absurd hp (by simp)
      · rename_i hp
        obtain ⟨rfl, rfl⟩ := Prod.mk.inj (Option.some.inj hnext)
        exact (Proc.disable2fa.inj hp).2.2
      · exact absurd hnext (by simp)
    obtain ⟨hfound, hverify⟩ := DisablePc.step_consuming hb hpc
    obtain ⟨hmem, hrest⟩ := verifyForLogin_recovery hverify
    refine ⟨hmem, hrest, fun caller' code' pc' hp => ?_⟩
    obtain ⟨rfl, -, -⟩ := Proc.disable2fa.inj hp
    exact (Table.lookup_some hfound).2
  all_goals exact absurd hnext (by simp [Action.map, Proc.consuming])

/-! ### What a step consumes -/

/-- A request presents the same code all along. -/
theorem Proc.step_submitted {now : ℕ} {fresh : Fresh} {db : MasterDb} {p : Proc} {a : Action Proc}
    (h : p.step cfg now fresh db = some a) (core : Core) :
    a.next.submitted core = p.submitted core := by
  cases p <;> simp only [Proc.step, Option.map_eq_some_iff] at h <;>
    obtain ⟨b, hb, rfl⟩ := h <;> rfl

/-- The list of a user is written by requests that have matched a code. -/
theorem Proc.step_setRecovery {now : ℕ} {fresh : Fresh} {db : MasterDb} {p : Proc}
    {a : Action Proc} {id : String} {remaining : List Digest}
    (h : p.step cfg now fresh db = some a) (hstmt : a.stmt = .setRecovery id remaining) :
    ∃ user, p.consuming = some (user, remaining) ∧ user.id = id := by
  have hissued := Proc.step_issues h
  rw [hstmt] at hissued
  obtain ⟨req, user, rfl, hid⟩ | ⟨caller, code, user, rfl, hid⟩ := hissued
  · exact ⟨user, rfl, hid⟩
  · exact ⟨user, rfl, hid⟩

/-- No other step accepts a recovery code. -/
theorem Proc.step_recovered_of_none {now : ℕ} {fresh : Fresh} {db : MasterDb} {p : Proc}
    {a : Action Proc} (h : p.step cfg now fresh db = some a) (hp : p.consuming = none) :
    a.next.recovered = p.recovered := by
  cases p <;> simp only [Proc.step, Option.map_eq_some_iff] at h <;> obtain ⟨b, hb, rfl⟩ := h
  case login req pc =>
    cases pc with
    | consuming user remaining => exact absurd hp (by simp [Proc.consuming])
    | start =>
      simp only [LoginPc.step] at hb
      split at hb
      · obtain rfl := Option.some.inj hb
        rfl
      · obtain rfl := Option.some.inj hb
        simp only [Action.map, afterFindLocalUser]
        repeat' split
        all_goals rfl
    | issuing user used =>
      simp only [LoginPc.step] at hb
      split at hb
      · obtain rfl := Option.some.inj hb
        cases used <;> rfl
      · exact absurd hb (by simp)
    | clearing user used =>
      obtain rfl := Option.some.inj hb
      cases used <;> rfl
    | stamping user used =>
      obtain rfl := Option.some.inj hb
      cases used <;> rfl
    | done reply => exact absurd hb (by simp [LoginPc.step])
    | _ =>
      obtain rfl := Option.some.inj hb
      rfl
  case disable2fa caller code pc =>
    cases pc with
    | consuming user remaining => exact absurd hp (by simp [Proc.consuming])
    | start =>
      simp only [DisablePc.step] at hb
      split at hb
      · obtain rfl := Option.some.inj hb
        rfl
      · obtain rfl := Option.some.inj hb
        simp only [Action.map, afterGetEnabled]
        repeat' split
        all_goals rfl
    | disabling user used =>
      obtain rfl := Option.some.inj hb
      cases used <;> rfl
    | done reply used => exact absurd hb (by simp [DisablePc.step])
  all_goals rfl

/-- **A recovery code is accepted by the write of the remaining hashes**, and by nothing
    else. -/
theorem Proc.step_recovered {now : ℕ} {fresh : Fresh} {db : MasterDb} {p : Proc} {a : Action Proc}
    (h : p.step cfg now fresh db = some a) :
    (a.next.recovered = p.recovered ∧ ∀ id remaining, a.stmt ≠ .setRecovery id remaining) ∨
      ∃ user remaining, p.consuming = some (user, remaining) ∧ p.recovered = none ∧
        a.stmt = .setRecovery user.id remaining ∧
        ((∀ caller code pc, p = .disable2fa caller code pc → user.id = caller.sub) →
          a.next.recovered = some user.id) := by
  cases hp : p.consuming with
  | none =>
    refine Or.inl ⟨Proc.step_recovered_of_none h hp, fun id remaining hstmt => ?_⟩
    obtain ⟨user, hcons, -⟩ := Proc.step_setRecovery h hstmt
    rw [hp] at hcons
    exact absurd hcons (by simp)
  | some write =>
    obtain ⟨user, remaining⟩ := write
    refine Or.inr ⟨user, remaining, rfl, ?_⟩
    unfold Proc.consuming at hp
    split at hp
    · -- a login
      obtain ⟨rfl, rfl⟩ := Prod.mk.inj (Option.some.inj hp)
      obtain rfl := Option.some.inj h
      exact ⟨rfl, rfl, fun _ => rfl⟩
    · -- a disable: the row it read is the caller's
      obtain ⟨rfl, rfl⟩ := Prod.mk.inj (Option.some.inj hp)
      obtain rfl := Option.some.inj h
      exact ⟨rfl, rfl, fun howner => congrArg some (howner _ _ _ rfl).symm⟩
    · exact absurd hp (by simp)

/-- The list a write leaves behind. -/
theorem MasterDb.recovery_setRecovery {db : MasterDb} {id : String} {remaining : List Digest}
    {hash : Digest} (h : hash ∈ ((Stmt.setRecovery id remaining).exec db).recovery id) :
    hash ∈ remaining := by
  unfold MasterDb.recovery at h
  rw [Stmt.exec_getUser] at h
  cases huser : db.getUser id with
  | none => simp [huser] at h
  | some user => simpa [huser, Stmt.set, Stmt.onUser] using h

/-- Any other statement leaves the list alone, unless it is one that issues codes. -/
theorem MasterDb.recovery_exec {db : MasterDb} {id : String} {stmt : Stmt} {hash : Digest}
    (hset : ∀ remaining, stmt ≠ .setRecovery id remaining)
    (henable : ∀ codes, stmt ≠ .enableTotp id codes) (h : hash ∈ (stmt.exec db).recovery id) :
    hash ∈ db.recovery id := by
  unfold MasterDb.recovery at h ⊢
  rw [Stmt.exec_getUser] at h
  cases huser : db.getUser id with
  | none => simp [huser] at h
  | some user =>
    rw [huser, Option.map_some, Option.bind_some] at h
    rw [Option.bind_some]
    -- disable and reset clear the column; nothing else touches it
    suffices hsame : (stmt.set id user).totpRecovery = user.totpRecovery ∨
        (stmt.set id user).totpRecovery = none by
      rcases hsame with hsame | hnone
      · rwa [hsame] at h
      · rw [hnone] at h
        exact absurd h (by simp)
    cases stmt
    case setRecovery id' remaining =>
      have hne : id' ≠ id := fun heq => hset remaining (by rw [heq])
      simp [Stmt.set, Stmt.onUser, hne]
    case enableTotp id' codes =>
      have hne : id' ≠ id := fun heq => henable codes (by rw [heq])
      simp [Stmt.set, Stmt.onUser, hne]
    all_goals first
      | exact Or.inl rfl
      | (unfold Stmt.set Stmt.onUser
         dsimp only
         split <;> first | exact Or.inl rfl | exact Or.inr rfl)

/-! ### The invariant -/

/-- **Invariant.** -/
structure Consumed (cfg : Config) (id : String) (w : World) : Prop where
  matched : ∀ c user remaining, (w.calls c).consuming = some (user, remaining) →
    Matched cfg.core (w.calls c) user remaining
  gone : ∀ c hash, UsedRecovery cfg.core w id hash c → hash ∉ w.db.recovery id
  unique : ∀ c d hash, UsedRecovery cfg.core w id hash c → UsedRecovery cfg.core w id hash d →
    c = d

theorem Consumed.of_initial {w : World} (h : w.Initial) (id : String) : Consumed cfg id w := by
  have hidle : ∀ c, (w.calls c).consuming = none ∧ (w.calls c).recovered = none := by
    intro c
    have hstart := h.idle c
    cases hp : w.calls c <;> rw [hp] at hstart <;> try exact ⟨rfl, rfl⟩
    all_goals
      obtain rfl := of_decide_eq_true hstart
      exact ⟨rfl, rfl⟩
  refine ⟨?_, ?_, ?_⟩
  · intro c user remaining hc
    rw [(hidle c).1] at hc
    exact absurd hc (by simp)
  · rintro c hash ⟨hc, -⟩
    rw [(hidle c).2] at hc
    exact absurd hc (by simp)
  · rintro c d hash ⟨hc, -⟩ -
    rw [(hidle c).2] at hc
    exact absurd hc (by simp)

section Step

variable {w : World} {c : ℕ} {fresh : Fresh} {a : Action Proc} {id : String}

/-- A request that has consumed a code after a step did so before, or by this very write. -/
theorem UsedRecovery.back (ha : w.action cfg c fresh = some a) {d : ℕ} {hash : Digest}
    (h : UsedRecovery cfg.core (w.after c a) id hash d) :
    UsedRecovery cfg.core w id hash d ∨
      (d = c ∧ hash = (w.calls c).submitted cfg.core ∧ a.next.recovered = some id ∧
        a.next.recovered ≠ (w.calls c).recovered) := by
  by_cases hdc : d = c
  · subst hdc
    obtain ⟨hrec, hsub⟩ := h
    rw [World.after_calls_self] at hrec hsub
    rw [Proc.step_submitted ha] at hsub
    by_cases hsame : a.next.recovered = (w.calls d).recovered
    · exact Or.inl ⟨hsame.symm.trans hrec, hsub⟩
    · exact Or.inr ⟨rfl, hsub.symm, hrec, hsame⟩
  · left
    unfold UsedRecovery at h ⊢
    rw [World.after_calls_of_ne hdc] at h
    exact h

/-- **A write that meets the condition consumes a stored code**, and leaves no hash stored
    that was not stored before. -/
theorem Consumed.write (h : Consumed cfg id w)
    (hG : ListKept id w (.run c fresh)) {user : User} {remaining : List Digest}
    (hcons : (w.calls c).consuming = some (user, remaining)) (huser : user.id = id)
    (hstmt : a.stmt = .setRecovery user.id remaining) :
    (w.calls c).submitted cfg.core ∈ w.db.recovery id ∧
      ∀ hash ∈ (w.after c a).db.recovery id,
        hash ∈ w.db.recovery id ∧ hash ≠ (w.calls c).submitted cfg.core := by
  have hm := h.matched c user remaining hcons
  have hstored := hG.1 user remaining hcons huser
  refine ⟨hstored _ hm.matched, fun hash hhash => ?_⟩
  rw [World.after_db, hstmt, huser] at hhash
  have hrest := MasterDb.recovery_setRecovery hhash
  rw [hm.rest, List.mem_filter, decide_eq_true_eq] at hrest
  exact ⟨hstored hash hrest.1, hrest.2⟩

end Step

/-- **Step lemma.** -/
theorem Consumed.step {w w' : World} {l : Label} {id : String} (h : Consumed cfg id w)
    (hG : ListKept id w l) (hstep : (machine cfg).step w l = some w') : Consumed cfg id w' := by
  obtain ⟨ms, -, rfl⟩ | ⟨c, fresh, a, rfl, ha, rfl, -⟩ := step_cases hstep
  · exact ⟨h.matched, h.gone, h.unique⟩
  have hmatched : ∀ d user remaining, ((w.after c a).calls d).consuming = some (user, remaining) →
      Matched cfg.core ((w.after c a).calls d) user remaining := by
    intro d user remaining hd
    by_cases hdc : d = c
    · subst hdc
      rw [World.after_calls_self] at hd ⊢
      exact Proc.step_consuming ha hd
    · rw [World.after_calls_of_ne hdc] at hd ⊢
      exact h.matched d user remaining hd
  -- a write of the user's list, or a statement that issues no code
  by_cases hwrite : ∃ user remaining, (w.calls c).consuming = some (user, remaining) ∧
      user.id = id ∧ a.stmt = .setRecovery user.id remaining
  · obtain ⟨user, remaining, hcons, huser, hstmt⟩ := hwrite
    -- the code is still stored, so by `gone` nobody has consumed it before
    obtain ⟨hstored, hleft⟩ := h.write hG hcons huser hstmt
    refine ⟨hmatched, ?_, ?_⟩
    · intro d hash hd hmem
      obtain ⟨hold, hne⟩ := hleft hash hmem
      rcases UsedRecovery.back ha hd with hd | ⟨-, hhash, -⟩
      · exact h.gone d hash hd hold
      · exact hne hhash
    · intro d e hash hd he
      rcases UsedRecovery.back ha hd with hd | ⟨hdc, hhash, -⟩
      · rcases UsedRecovery.back ha he with he | ⟨-, hhash, -⟩
        · exact h.unique d e hash hd he
        · exact absurd (hhash ▸ hstored) (h.gone d hash hd)
      · rcases UsedRecovery.back ha he with he | ⟨hec, -⟩
        · exact absurd (hhash ▸ hstored) (h.gone e hash he)
        · rw [hdc, hec]
  · have hback : ∀ {d hash}, UsedRecovery cfg.core (w.after c a) id hash d →
        UsedRecovery cfg.core w id hash d := by
      intro d hash hd
      rcases UsedRecovery.back ha hd with hd | ⟨-, -, hrec, hne⟩
      · exact hd
      · rcases Proc.step_recovered ha with ⟨hsame, -⟩ | ⟨user, remaining, hcons, -, hstmt, hnew⟩
        · exact absurd hsame hne
        · have hid := hnew (h.matched c user remaining hcons).owner
          rw [hrec] at hid
          exact absurd ⟨user, remaining, hcons, (Option.some.inj hid).symm, hstmt⟩ hwrite
    have hleft : ∀ hash ∈ (w.after c a).db.recovery id, hash ∈ w.db.recovery id := by
      intro hash hmem
      have hissued := Proc.step_issues ha
      refine MasterDb.recovery_exec (fun remaining hstmt => ?_) (fun codes hstmt => ?_) hmem
      · rcases Proc.step_recovered ha with ⟨-, hno⟩ | ⟨user, remaining', hcons, -, hstmt', -⟩
        · exact hno id remaining hstmt
        · rw [hstmt] at hstmt'
          exact hwrite ⟨user, remaining', hcons, (Stmt.setRecovery.inj hstmt').1.symm,
            hstmt.trans hstmt'⟩
      · rw [hstmt] at hissued
        obtain ⟨caller, code, hp, hsub⟩ := hissued
        exact hG.2 caller code hp hsub
    refine ⟨hmatched, fun d hash hd hmem => h.gone d hash (hback hd) (hleft hash hmem), ?_⟩
    exact fun d e hash hd he => h.unique d e hash (hback hd) (hback he)

/-- A request that was accepted with a recovery code stays so. -/
theorem UsedRecovery.step {core : Core} {w w' : World} {l : Label} {id : String} {hash : Digest}
    {c : ℕ} (h : UsedRecovery core w id hash c) (hstep : (machine cfg).step w l = some w') :
    UsedRecovery core w' id hash c := by
  obtain ⟨ms, -, rfl⟩ | ⟨d, fresh, a, rfl, ha, rfl, -⟩ := step_cases hstep
  · exact h
  unfold UsedRecovery at h ⊢
  by_cases hcd : c = d
  · subst hcd
    rw [World.after_calls_self, Proc.step_submitted ha]
    rcases Proc.step_recovered ha with ⟨hsame, -⟩ | ⟨user, remaining, -, hnone, -⟩
    · rw [hsame]
      exact h
    · rw [hnone] at h
      exact absurd h.1 (by simp)
  · rw [World.after_calls_of_ne hcd]
    exact h

/-- **Recovery codes are consumed exactly once** in every run in which each write finds the
    hashes its request read: at most one request was accepted with a code, and from then on
    its hash is not stored. -/
theorem recoveryCode_consumed_once {w₀ w₁ w₂ : World} {ls₁ ls₂ : List Label} {id : String}
    (h₀ : w₀.Initial) (hG : (machine cfg).Meets (ListKept id) w₀ (ls₁ ++ ls₂))
    (hrun₁ : (machine cfg).exec w₀ ls₁ = some w₁) (hrun₂ : (machine cfg).exec w₁ ls₂ = some w₂)
    (hash : Digest) :
    (∀ c d, UsedRecovery cfg.core w₁ id hash c → UsedRecovery cfg.core w₁ id hash d → c = d) ∧
      ∀ c, UsedRecovery cfg.core w₁ id hash c → hash ∉ w₂.db.recovery id := by
  obtain ⟨hG₁, hG₂⟩ := hG.split hrun₁
  have h₁ : Consumed cfg id w₁ := Machine.inv_of_exec (fun _ _ _ h hG hstep => h.step hG hstep)
    (Consumed.of_initial h₀ id) hG₁ hrun₁
  have h₂ : Consumed cfg id w₂ := Machine.inv_of_exec (fun _ _ _ h hG hstep => h.step hG hstep)
    h₁ hG₂ hrun₂
  refine ⟨fun c d hc hd => h₁.unique c d hash hc hd, fun c hc => h₂.gone c hash ?_⟩
  exact Machine.inv_of_exec (G := fun _ _ => True) (I := fun w => UsedRecovery cfg.core w id hash c)
    (fun _ _ _ h _ hstep => h.step hstep) hc (Machine.Meets.always w₁ ls₂) hrun₂

/-- Two logins with the same recovery code, one after the other: the first consumes it. -/
theorem recoveryCode_consumed_once_sequential :
    let calls : ℕ → Proc := fun _ =>
      .login { username := "ann", password := "pw", code := some "spare" } .start
    ∃ w₁ w₂, (machine Sample.config).exec (Sample.world Sample.enrolledDb calls)
        [.run 0 {}, .run 0 {}] = some w₁ ∧
      (machine Sample.config).exec w₁ [.run 1 {}] = some w₂ ∧
      UsedRecovery Sample.core w₁ "u" (sha256 "spare") 0 ∧ sha256 "spare" ∉ w₂.db.recovery "u" := by
  intro calls
  have hinit : (Sample.world Sample.enrolledDb calls).Initial :=
    ⟨Sample.enrolledDb_wf, fun _ => rfl, rfl⟩
  obtain ⟨w₁, hrun₁, hused⟩ : ∃ w₁,
      (machine Sample.config).exec (Sample.world Sample.enrolledDb calls)
        [.run 0 {}, .run 0 {}] = some w₁ ∧
      UsedRecovery Sample.config.core w₁ "u" (sha256 "spare") 0 := ⟨_, rfl, rfl, rfl⟩
  obtain ⟨w₂, hrun₂⟩ : ∃ w₂, (machine Sample.config).exec w₁ [.run 1 {}] = some w₂ := by
    obtain rfl := Option.some.inj hrun₁
    exact ⟨_, rfl⟩
  have hG : (machine Sample.config).Meets (ListKept "u") (Sample.world Sample.enrolledDb calls)
      ([.run 0 {}, .run 0 {}] ++ [.run 1 {}]) := by
    refine ⟨⟨?_, ?_⟩, fun v₁ h₁ => ⟨⟨?_, ?_⟩, fun v₂ h₂ => ⟨⟨?_, ?_⟩, fun _ _ => trivial⟩⟩⟩
    · exact fun user remaining hcons => absurd hcons (by simp [Sample.world, calls, Proc.consuming])
    · exact fun caller code hp => Proc.noConfusion hp
    · -- the write finds the list that was read
      obtain rfl := Option.some.inj h₁
      intro user remaining hcons _ hash hhash
      obtain ⟨rfl, -⟩ := Prod.mk.inj (Option.some.inj hcons)
      exact hhash
    · obtain rfl := Option.some.inj h₁
      exact fun caller code hp => Proc.noConfusion hp
    · obtain rfl := Option.some.inj h₁
      obtain rfl := Option.some.inj h₂
      intro user remaining hcons
      exact absurd (show none = some (user, remaining) from hcons) (by simp)
    · obtain rfl := Option.some.inj h₁
      obtain rfl := Option.some.inj h₂
      exact fun caller code hp => Proc.noConfusion hp
  exact ⟨w₁, w₂, hrun₁, hrun₂, hused,
    (recoveryCode_consumed_once hinit hG hrun₁ hrun₂ (sha256 "spare")).2 0 hused⟩

/-- **One recovery code signs in twice.**  Both logins read the row before either writes; no
    code is issued in between. -/
theorem recoveryCode_used_twice :
    ¬ ∀ (cfg : Config) (w₀ w₁ w₂ : World) (ls₁ ls₂ : List Label) (id : String), w₀.Initial →
      (∀ c caller code pc, w₀.calls c ≠ .enable2fa caller code pc) →
      (machine cfg).exec w₀ ls₁ = some w₁ → (machine cfg).exec w₁ ls₂ = some w₂ →
      ∀ hash, (∀ c d, UsedRecovery cfg.core w₁ id hash c → UsedRecovery cfg.core w₁ id hash d →
        c = d) ∧ ∀ c, UsedRecovery cfg.core w₁ id hash c → hash ∉ w₂.db.recovery id := by
  intro h
  let calls : ℕ → Proc := fun _ =>
    .login { username := "ann", password := "pw", code := some "spare" } .start
  have hinit : (Sample.world Sample.enrolledDb calls).Initial :=
    ⟨Sample.enrolledDb_wf, fun _ => rfl, rfl⟩
  have h01 : 0 = 1 := (h Sample.config (Sample.world Sample.enrolledDb calls) _ _
    [.run 0 {}, .run 1 {}, .run 0 {}, .run 1 {}] [] "u" hinit
    (fun _ _ _ _ hp => Proc.noConfusion hp) rfl rfl (sha256 "spare")).1 0 1 ⟨rfl, rfl⟩ ⟨rfl, rfl⟩
  exact absurd h01 (by decide)

end Argus.Auth
