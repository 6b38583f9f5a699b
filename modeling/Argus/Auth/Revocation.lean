import Argus.Auth.Sessions

namespace Argus.Auth

/-!
# Global revocation

A global-revoke request — a password change, a 2FA reset, terminate-all — is meant to kill
every credential of its user: access tokens through the token version, refresh tokens
through `revokedAt`.

* `Killed` — a refresh token no request can exchange any more; final (`Killed.step`).
* `CleanRevoke` — the condition on the steps of the revoking request: its bulk `UPDATE`
  finds no rotation of the user between `SELECT` and `INSERT`; and the two requests that
  have no bulk `UPDATE` (the admin password change, which does not bump either, and the 2FA
  reset) begin when the user has no session.
* `Sweep` — what a revoking request achieves: the tokens stored before it are killed past
  its bulk `UPDATE`, the token version is newer past its bump.
* `globalRevoke_kills` — in every run with such a request, nothing from before it is
  accepted after it.
-/

variable {cfg : Config}

/-! ### Killed tokens -/

/-- The row of a token hash is dead, no rotation has it in hand, and a session that a
    rotation of it has created without telling anybody is dead too. -/
structure Killed (w : World) (hash : Digest) : Prop where
  dead : ∃ r ∈ w.db.refreshTokens, r.tokenHash = hash ∧ r.live w.now = false
  idle : ∀ c raw pc, w.calls c = .refresh raw pc → sha256 raw = hash →
    pc.inHand = none ∧ ∀ u tok sid, pc = .rotated u tok sid → w.db.SessionDead sid w.now

/-- **A killed token stays killed**, whatever runs next. -/
theorem Killed.step {w w' : World} {l : Label} {hash : Digest} (hs : Sessions w)
    (h : Killed w hash) (hstep : (machine cfg).step w l = some w') : Killed w' hash := by
  obtain ⟨hev, hnow⟩ := step_evolves hstep
  obtain ⟨r, hr, hhash, hdead⟩ := h.dead
  obtain ⟨r', hr', hle⟩ := hev.token hr
  refine ⟨⟨r', hr', hle.tokenHash.trans hhash, hle.not_live hnow hdead⟩, ?_⟩
  intro c raw pc hc hraw
  have hkeep : ∀ {pc}, w.calls c = .refresh raw pc →
      pc.inHand = none ∧ ∀ u tok sid, pc = .rotated u tok sid → w'.db.SessionDead sid w'.now := by
    intro pc hc
    obtain ⟨hnone, hrot⟩ := h.idle c raw pc hc hraw
    exact ⟨hnone, fun u tok sid hpc => (hrot u tok sid hpc).forward hev hnow⟩
  obtain ⟨ms, -, rfl⟩ | ⟨d, fresh, a, rfl, ha, rfl, -⟩ := step_cases hstep
  · exact hkeep hc
  by_cases hcd : c = d
  · subst hcd
    rw [World.after_calls_self] at hc
    obtain ⟨pc₀, b, hp, hb, rfl, -, -⟩ := Proc.step_next_refresh ha hc
    have hnone := (h.idle c raw pc₀ hp hraw).1
    obtain ⟨rfl, -, -, hnext | hnext | ⟨row, hrow, hnext⟩⟩ | ⟨row, t, rfl, rfl⟩ |
      ⟨row, rfl, -, rfl⟩ | ⟨u, tok, sid, claims, rfl, -, rfl⟩ := RefreshPc.step_cases hb
    · rw [hnext]
      exact ⟨rfl, fun _ _ _ hpc => absurd hpc (by simp)⟩
    · rw [hnext]
      exact ⟨rfl, fun _ _ _ hpc => absurd hpc (by simp)⟩
    · -- the `SELECT` would have to find the dead row live
      obtain ⟨hmem, hrhash, hlive⟩ := MasterDb.liveTokenByHash_some hrow
      have hsame : row = r := hs.wf.eq_of_hash hmem hr (hrhash.trans (hraw.trans hhash.symm))
      rw [hsame, hdead] at hlive
      exact absurd hlive (by simp)
    · exact absurd hnone (by simp [RefreshPc.inHand])
    · exact absurd hnone (by simp [RefreshPc.inHand])
    · exact ⟨rfl, fun _ _ _ hpc => absurd hpc (by simp)⟩
  · rw [World.after_calls_of_ne hcd] at hc
    exact hkeep hc

/-- An exchange of a killed token that completes from now on yields a dead session. -/
structure KilledSince (w₂ : World) (hash : Digest) (w : World) : Prop where
  sessions : Sessions w
  killed : Killed w hash
  exchanged : ∀ c raw claims tok, w.calls c = .refresh raw (.done (.ok claims tok)) →
    sha256 raw = hash → w₂.calls c = .refresh raw (.done (.ok claims tok)) ∨
      ∃ sid, claims.sid = some sid ∧ w.db.SessionDead sid w.now

theorem KilledSince.step {w₂ w w' : World} {l : Label} {hash : Digest}
    (h : KilledSince w₂ hash w) (hstep : (machine cfg).step w l = some w') :
    KilledSince w₂ hash w' := by
  obtain ⟨hev, hnow⟩ := step_evolves hstep
  refine ⟨h.sessions.step hstep, h.killed.step h.sessions hstep, ?_⟩
  intro c raw claims tok hc hraw
  have hkeep : w.calls c = .refresh raw (.done (.ok claims tok)) →
      w₂.calls c = .refresh raw (.done (.ok claims tok)) ∨
        ∃ sid, claims.sid = some sid ∧ w'.db.SessionDead sid w'.now := by
    intro hc
    rcases h.exchanged c raw claims tok hc hraw with hbefore | ⟨sid, hsid, hdead⟩
    · exact Or.inl hbefore
    · exact Or.inr ⟨sid, hsid, hdead.forward hev hnow⟩
  obtain ⟨ms, -, rfl⟩ | ⟨d, fresh, a, rfl, ha, rfl, -⟩ := step_cases hstep
  · exact hkeep hc
  by_cases hcd : c = d
  · subst hcd
    rw [World.after_calls_self] at hc
    obtain ⟨pc₀, b, hp, hb, hnextb, -, -⟩ := Proc.step_next_refresh ha hc
    obtain ⟨rfl, -, -, hnext | hnext | ⟨row, hrow, hnext⟩⟩ | ⟨row, t, rfl, rfl⟩ |
      ⟨row, rfl, -, rfl⟩ | ⟨u, tok', sid, claims', rfl, hclaims, rfl⟩ := RefreshPc.step_cases hb
    · exact absurd (hnext.symm.trans hnextb) (by simp)
    · exact absurd (hnext.symm.trans hnextb) (by simp)
    · exact absurd (hnext.symm.trans hnextb) (by simp)
    · exact absurd hnextb (by simp)
    · exact absurd hnextb (by simp)
    · have heq : claims' = claims := (RefreshReply.ok.inj (RefreshPc.done.inj hnextb)).1
      have hdead := (h.killed.idle c raw _ hp hraw).2 u tok' sid rfl
      exact Or.inr ⟨sid, by rw [← heq, hclaims], hdead.forward hev hnow⟩
  · rw [World.after_calls_of_ne hcd] at hc
    exact hkeep hc

/-! ### Revoking requests -/

/-- The user whose credentials a request is to revoke, and the session it spares. -/
def Proc.target : Proc → Option (String × Option String)
  | .terminateAll userId _ => some (userId, none)
  | .changePassword req _ => some (req.userId, req.sid)
  | .updateUser req _ => if (truthy req.password).isSome then some (req.id, none) else none
  | .reset2fa id _ => some (id, none)
  | _ => none

/-- The bulk `UPDATE` is the next statement. -/
def Proc.sweeping : Proc → Bool
  | .terminateAll _ .start => true
  | .changePassword _ .terminating => true
  | _ => false

/-- The first statement of a revoking request that has no bulk `UPDATE` is next. -/
def Proc.sweepless : Proc → Bool
  | .updateUser _ .start => true
  | .reset2fa _ .start => true
  | _ => false

/-- The request is past the point where the user's earlier refresh tokens have to be dead. -/
def Proc.swept : Proc → Bool
  | .terminateAll _ pc => decide (pc ≠ .start)
  | .changePassword _ .bumping => true
  | .changePassword _ (.versioning _) => true
  | .changePassword _ (.done (.ok _)) => true
  | .updateUser _ pc => decide (pc ≠ .start)
  | .reset2fa _ pc => decide (pc ≠ .start)
  | _ => false

/-- A password change is past its bump of the token version. -/
def Proc.bumped : Proc → Bool
  | .changePassword _ (.versioning _) => true
  | .changePassword _ (.done (.ok _)) => true
  | _ => false

/-- The user for whom a global revocation has completed. -/
def Proc.revokedUser : Proc → Option String
  | .terminateAll userId .done => some userId
  | .changePassword req (.done (.ok _)) => some req.userId
  | .updateUser req (.done .ok) => if (truthy req.password).isSome then some req.id else none
  | .reset2fa id (.done true) => some id
  | _ => none

/-- The session a self-service password change keeps. -/
def Proc.kept (p : Proc) : Option String := p.target.bind Prod.snd

/-- **What a global revocation promises.**  Request `e` began in `w₁` and was complete in
    `w₂`; in the later world `w₃` no access token signed before `w₁` is accepted, and no
    refresh token stored before `w₁` (the kept session apart) has been exchanged since `w₂`
    for an access token that is. -/
structure RevokedForGood (w₁ w₂ w₃ : World) (e : ℕ) (userId : String) : Prop where
  access : ∀ claims ∈ w₁.signed, claims.sub = userId → accepted w₃.db w₃.now claims = false
  refresh : ∀ r ∈ w₁.db.refreshTokens, r.userId = userId → (w₁.calls e).kept ≠ some r.id →
    ∀ c raw claims tok, sha256 raw = r.tokenHash →
      w₃.calls c = .refresh raw (.done (.ok claims tok)) →
      w₂.calls c ≠ .refresh raw (.done (.ok claims tok)) →
      accepted w₃.db w₃.now claims = false

/-- No rotation of the user is between its `SELECT` and its `INSERT`, the kept session
    apart. -/
def World.Quiet (w : World) (userId : String) (kept : Option String) : Prop :=
  ∀ c raw pc row, w.calls c = .refresh raw pc → pc.inHand = some row → row.userId = userId →
    kept = some row.id

/-- The user has no live session. -/
def World.SignedOut (w : World) (userId : String) : Prop :=
  ∀ r ∈ w.db.refreshTokens, r.userId = userId → r.live w.now = false

/-- **Step condition** of request `e`.  Its bulk `UPDATE` runs while no rotation of its user
    is half way; a request without a bulk `UPDATE` begins while there is nothing to revoke. -/
def CleanRevoke (e : ℕ) (w : World) : Label → Prop
  | .run c _ => c = e → ∀ userId kept, (w.calls e).target = some (userId, kept) →
    ((w.calls e).sweeping = true → w.Quiet userId kept) ∧
    ((w.calls e).sweepless = true → w.Quiet userId kept ∧ w.SignedOut userId)
  | .tick _ => True

/-! ### What a revoking request does -/

/-- The bulk `UPDATE` for a user and a spared session. -/
def sweepStmt (userId : String) (kept : Option String) (now : ℕ) : Stmt :=
  match kept with
  | some sid => .terminateOtherSessions userId sid now
  | none => .terminateAllForUser userId none now

/-- **The bulk `UPDATE` leaves no row of the user alive**, the spared one apart. -/
theorem sweepStmt_kills {db : MasterDb} {userId : String} {kept : Option String} (now : ℕ)
    {r : RefreshToken} (hr : r ∈ db.refreshTokens) (huser : r.userId = userId)
    (hkept : kept ≠ some r.id) :
    ∃ r' ∈ ((sweepStmt userId kept now).exec db).refreshTokens, r.Le r' ∧ r'.live now = false := by
  obtain ⟨hit, honTokens, hhit⟩ : ∃ hit,
      (sweepStmt userId kept now).onTokens = some (hit, now, false) ∧ hit r = r.live now := by
    cases kept with
    | none => exact ⟨_, rfl, by simp [huser]⟩
    | some sid =>
      have hne : r.id ≠ sid := fun h => hkept (by rw [h])
      exact ⟨_, rfl, by simp [huser, hne]⟩
  have htokens : ((sweepStmt userId kept now).exec db).refreshTokens
      = Table.update hit (RefreshToken.revoke now false) db.refreshTokens := by
    rw [Stmt.exec_tokens_of_ne (fun row h => by cases kept <;> simp [sweepStmt] at h), honTokens]
  rw [htokens]
  by_cases hlive : r.live now = true
  · refine ⟨r.revoke now false, Table.mem_update.mpr ⟨r, hr, by rw [hhit, if_pos hlive]⟩,
      RefreshToken.le_revoke now false r, rfl⟩
  · refine ⟨r, Table.mem_update.mpr ⟨r, hr, by rw [hhit, if_neg hlive]⟩,
      RefreshToken.Le.refl r, by simpa using hlive⟩

/-- The bump raises the stored version. -/
theorem bumpTokenVersion_version (db : MasterDb) (userId : String) :
    ((Stmt.bumpTokenVersion userId).exec db).getTokenVersion userId
      = (db.getTokenVersion userId).map (· + 1) := by
  unfold MasterDb.getTokenVersion
  rw [Stmt.exec_getUser, Option.map_map, Option.map_map]
  refine Option.map_congr (fun u _ => ?_)
  simp [Stmt.set, Stmt.onUser]

/-- A step never changes whom a request revokes. -/
theorem Proc.step_target {now : ℕ} {fresh : Fresh} {db : MasterDb} {p : Proc}
    {a : Action Proc} (h : p.step cfg now fresh db = some a) : a.next.target = p.target := by
  cases p <;> simp only [Proc.step, Option.map_eq_some_iff] at h <;>
    obtain ⟨b, hb, rfl⟩ := h <;> rfl

/-- The first statement of a password change leads to the write or to a refusal. -/
theorem PasswordPc.start_next {now : ℕ} {fresh : Fresh} {db : MasterDb} {req : PasswordReq}
    {b : Action PasswordPc} (h : PasswordPc.start.step cfg now fresh db req = some b) :
    b.next = .writing ∨ ∃ reply, b.next = .done reply ∧ ∀ x, reply ≠ .ok x := by
  simp only [PasswordPc.step] at h
  split at h
  · obtain rfl := Option.some.inj h
    exact Or.inr ⟨_, rfl, by simp⟩
  · obtain rfl := Option.some.inj h
    simp only [afterGetUser]
    split
    · exact Or.inr ⟨_, rfl, by simp⟩
    · split
      · exact Or.inr ⟨_, rfl, by simp⟩
      · split
        · exact Or.inl rfl
        · exact Or.inr ⟨_, rfl, by simp⟩

/-- How a revoking request gets past its bulk `UPDATE`, or past its start where it has none,
    and past its bump. -/
theorem Proc.step_sweep {now : ℕ} {fresh : Fresh} {db : MasterDb} {p : Proc} {a : Action Proc}
    {userId : String} {kept : Option String} (h : p.step cfg now fresh db = some a)
    (htarget : p.target = some (userId, kept)) :
    (a.next.swept = true → p.swept = true ∨ p.sweepless = true ∨
      (p.sweeping = true ∧ a.stmt = sweepStmt userId kept now)) ∧
    (a.next.bumped = true → p.bumped = true ∨ a.stmt = .bumpTokenVersion userId) := by
  cases p <;> simp only [Proc.target, reduceCtorEq, Option.some.injEq, Prod.mk.injEq] at htarget
  case terminateAll userId' pc =>
    obtain ⟨rfl, rfl⟩ := htarget
    simp only [Proc.step, Option.map_eq_some_iff] at h
    obtain ⟨b, hb, rfl⟩ := h
    refine ⟨fun _ => ?_, fun hbump => absurd hbump (by simp [Action.map, Proc.bumped])⟩
    cases pc with
    | start =>
      obtain rfl := Option.some.inj hb
      exact Or.inr (Or.inr ⟨rfl, rfl⟩)
    | bumping => exact Or.inl rfl
    | done => exact Or.inl rfl
  case changePassword req pc =>
    obtain ⟨rfl, rfl⟩ := htarget
    simp only [Proc.step, Option.map_eq_some_iff] at h
    obtain ⟨b, hb, rfl⟩ := h
    cases pc
    case start =>
      obtain hnext | ⟨reply, hnext, hne⟩ := PasswordPc.start_next hb
      · simp [Action.map, hnext, Proc.swept, Proc.bumped]
      · cases reply <;> simp_all [Action.map, Proc.swept, Proc.bumped]
    case terminating =>
      obtain rfl := Option.some.inj hb
      refine ⟨fun _ => Or.inr (Or.inr ⟨rfl, ?_⟩),
        fun hbump => absurd hbump (by simp [Action.map, Proc.bumped])⟩
      cases req.sid <;> rfl
    case bumping =>
      obtain rfl := Option.some.inj hb
      exact ⟨fun _ => Or.inl rfl, fun _ => Or.inr rfl⟩
    case versioning sid =>
      obtain rfl := Option.some.inj hb
      exact ⟨fun _ => Or.inl rfl, fun _ => Or.inl rfl⟩
    case done reply => exact absurd hb (by simp [PasswordPc.step])
    all_goals
      obtain rfl := Option.some.inj hb
      simp [Action.map, Proc.swept, Proc.bumped]
  case updateUser req pc =>
    simp only [Proc.step, Option.map_eq_some_iff] at h
    obtain ⟨b, hb, rfl⟩ := h
    refine ⟨fun _ => ?_, fun hbump => absurd hbump (by simp [Action.map, Proc.bumped])⟩
    cases pc with
    | start => exact Or.inr (Or.inl rfl)
    | updating => exact Or.inl rfl
    | done reply => exact Or.inl rfl
  case reset2fa id pc =>
    simp only [Proc.step, Option.map_eq_some_iff] at h
    obtain ⟨b, hb, rfl⟩ := h
    refine ⟨fun _ => ?_, fun hbump => absurd hbump (by simp [Action.map, Proc.bumped])⟩
    by_cases hstart : pc = .start
    · subst hstart
      exact Or.inr (Or.inl rfl)
    · exact Or.inl (by simp [Proc.swept, hstart])

/-- A request without a bulk `UPDATE` spares no session. -/
theorem Proc.kept_of_sweepless {p : Proc} {userId : String} {kept : Option String}
    (hless : p.sweepless = true) (htarget : p.target = some (userId, kept)) : kept = none := by
  cases p <;> simp only [Proc.sweepless, Bool.false_eq_true] at hless
  case updateUser req pc =>
    simp only [Proc.target] at htarget
    split at htarget
    · exact (Prod.mk.inj (Option.some.inj htarget)).2.symm
    · exact absurd htarget (by simp)
  case reset2fa id pc => exact (Prod.mk.inj (Option.some.inj htarget)).2.symm

/-! ### The invariant of a revoking request -/

section Sweep

variable {w : World} {e : ℕ} {fresh : Fresh} {a : Action Proc} {userId : String}
  {kept : Option String}

/-- The session a bulk `UPDATE` spares is one that a signed token names. -/
theorem Sessions.kept_signed (h : Sessions w) (hsweep : (w.calls e).sweeping = true)
    {sid : String} (htarget : (w.calls e).target = some (userId, some sid)) :
    ∃ claims ∈ w.signed, claims.sid = some sid := by
  cases hp : w.calls e <;> rw [hp] at htarget hsweep <;>
    simp only [Proc.sweeping, Bool.false_eq_true] at hsweep
  case terminateAll => simp [Proc.target] at htarget
  case changePassword req pc =>
    have hsid : req.sid = some sid := (Prod.mk.inj (Option.some.inj htarget)).2
    have hpc : pc ≠ .start := by
      rintro rfl
      simp at hsweep
    exact ⟨req.caller, (h.caller e req pc hp hpc).1, truthy_some hsid⟩

/-- **A bulk `UPDATE` that meets the condition kills the user's tokens.** -/
theorem Sessions.killed_of_sweep (h : Sessions w) (ha : w.action cfg e fresh = some a)
    (htarget : (w.calls e).target = some (userId, kept)) (hsweep : (w.calls e).sweeping = true)
    (hstmt : a.stmt = sweepStmt userId kept w.now) (hquiet : w.Quiet userId kept)
    {r : RefreshToken} (hr : r ∈ w.db.refreshTokens) (huser : r.userId = userId)
    (hkept : kept ≠ some r.id) : Killed (w.after e a) r.tokenHash := by
  constructor
  · obtain ⟨r', hr', hle, hdead⟩ := sweepStmt_kills w.now hr huser hkept
    rw [World.after_db, hstmt]
    exact ⟨r', hr', hle.tokenHash, hdead⟩
  · intro c raw pc hc hraw
    have hce : c ≠ e := by
      rintro rfl
      rw [World.after_calls_self] at hc
      have hsame := Proc.step_target ha
      rw [hc, htarget] at hsame
      exact absurd hsame (by simp [Proc.target])
    rw [World.after_calls_of_ne hce] at hc
    constructor
    · -- a rotation half way would hold this very row
      rw [Option.eq_none_iff_forall_ne_some]
      intro row hrow
      obtain ⟨r₂, hr₂, hid, huser₂, hhash⟩ := h.inHand c raw pc row hc hrow
      have hsame : r₂ = r := h.wf.eq_of_hash hr₂ hr (hhash.trans hraw)
      rw [hsame] at hid huser₂
      exact hkept (by rw [hid]; exact hquiet c raw pc row hc hrow (huser₂.symm.trans huser))
    · -- the row a rotation has just inserted is swept with the others
      rintro u tok sid rfl
      obtain ⟨⟨r₃, hr₃, hid, huser₃⟩, ⟨r₄, hr₄, hhash, huser₄⟩, hnew⟩ :=
        h.rotated c raw u tok sid hc
      have hsame : r₄ = r := h.wf.eq_of_hash hr₄ hr (hhash.trans hraw)
      have hkept₃ : kept ≠ some r₃.id := by
        rintro rfl
        obtain ⟨claims, hmem, hsid⟩ := h.kept_signed hsweep htarget
        exact hnew claims hmem (by rw [hsid, hid])
      have huser₃' : r₃.userId = userId := by rw [huser₃, ← huser₄, hsame, huser]
      obtain ⟨r', hr', hle, hdead⟩ := sweepStmt_kills w.now hr₃ huser₃' hkept₃
      rw [World.after_db, hstmt]
      exact ⟨r', hr', hle.id.trans hid, hdead⟩

/-- A user without sessions and half-way rotations has no token left to kill. -/
theorem Sessions.killed_of_signedOut (h : Sessions w) (hquiet : w.Quiet userId none)
    (hout : w.SignedOut userId) {r : RefreshToken} (hr : r ∈ w.db.refreshTokens)
    (huser : r.userId = userId) : Killed w r.tokenHash := by
  refine ⟨⟨r, hr, rfl, hout r hr huser⟩, fun c raw pc hc hraw => ⟨?_, ?_⟩⟩
  · rw [Option.eq_none_iff_forall_ne_some]
    intro row hrow
    obtain ⟨r₂, hr₂, -, huser₂, hhash⟩ := h.inHand c raw pc row hc hrow
    have hsame : r₂ = r := h.wf.eq_of_hash hr₂ hr (hhash.trans hraw)
    rw [hsame] at huser₂
    exact absurd (hquiet c raw pc row hc hrow (huser₂.symm.trans huser)) (by simp)
  · rintro u tok sid rfl
    obtain ⟨⟨r₃, hr₃, hid, huser₃⟩, ⟨r₄, hr₄, hhash, huser₄⟩, -⟩ := h.rotated c raw u tok sid hc
    have hsame : r₄ = r := h.wf.eq_of_hash hr₄ hr (hhash.trans hraw)
    have huser₃' : r₃.userId = userId := by rw [huser₃, ← huser₄, hsame, huser]
    exact ⟨r₃, hr₃, hid, hout r₃ hr₃ huser₃'⟩

/-- **Invariant** of request `e`, which began in `w₁` and revokes the user's credentials. -/
structure Sweep (w₁ : World) (e : ℕ) (userId : String) (kept : Option String) (w : World) :
    Prop where
  sessions : Sessions w
  forward : w₁.db.Evolves w.db
  target : (w.calls e).target = some (userId, kept)
  swept : (w.calls e).swept = true → ∀ r ∈ w₁.db.refreshTokens, r.userId = userId →
    kept ≠ some r.id → Killed w r.tokenHash
  bumped : (w.calls e).bumped = true → ∀ v₁ v, w₁.db.getTokenVersion userId = some v₁ →
    w.db.getTokenVersion userId = some v → v₁ < v

/-- A request of which no statement has run has swept and bumped nothing. -/
theorem Sweep.of_start (h : Sessions w) (hstart : (w.calls e).atStart = true)
    (htarget : (w.calls e).target = some (userId, kept)) : Sweep w e userId kept w := by
  have hidle : (w.calls e).swept = false ∧ (w.calls e).bumped = false := by
    cases hp : w.calls e <;> rw [hp] at hstart htarget <;>
      simp only [Proc.target, reduceCtorEq] at htarget
    all_goals
      obtain rfl := of_decide_eq_true hstart
      exact ⟨rfl, rfl⟩
  refine ⟨h, MasterDb.Evolves.refl _, htarget, ?_, ?_⟩
  · rw [hidle.1]
    exact fun hswept => absurd hswept (by simp)
  · rw [hidle.2]
    exact fun hbumped => absurd hbumped (by simp)

end Sweep

/-- **Step lemma.** -/
theorem Sweep.step {w₁ w w' : World} {e : ℕ} {userId : String} {kept : Option String} {l : Label}
    (h : Sweep w₁ e userId kept w) (hG : CleanRevoke e w l)
    (hstep : (machine cfg).step w l = some w') : Sweep w₁ e userId kept w' := by
  obtain ⟨hev, -⟩ := step_evolves hstep
  -- what is achieved stays achieved
  have hswept : (w.calls e).swept = true → ∀ r ∈ w₁.db.refreshTokens, r.userId = userId →
      kept ≠ some r.id → Killed w' r.tokenHash :=
    fun hs r hr huser hkept => (h.swept hs r hr huser hkept).step h.sessions hstep
  have hbumped : (w.calls e).bumped = true → ∀ v₁ v, w₁.db.getTokenVersion userId = some v₁ →
      w'.db.getTokenVersion userId = some v → v₁ < v := by
    intro hb v₁ v hv₁ hv
    obtain ⟨v₀, hv₀, hle⟩ := hev.version hv
    exact (h.bumped hb v₁ v₀ hv₁ hv₀).trans_le hle
  refine ⟨h.sessions.step hstep, h.forward.trans hev, ?_, ?_, ?_⟩
  all_goals obtain ⟨ms, rfl, rfl⟩ | ⟨c, fresh, a, rfl, ha, rfl, -⟩ := step_cases hstep
  · exact h.target
  · by_cases hce : e = c
    · subst hce
      rw [World.after_calls_self, Proc.step_target ha]
      exact h.target
    · rw [World.after_calls_of_ne hce]
      exact h.target
  · exact hswept
  · by_cases hce : e = c
    · subst hce
      rw [World.after_calls_self]
      intro hs r hr huser hkept
      obtain ⟨hsweep, hless⟩ := hG rfl userId kept h.target
      obtain ⟨r₀, hr₀, hle⟩ := h.forward.token hr
      obtain hold | hnone | ⟨hnow, hstmt⟩ := (Proc.step_sweep ha h.target).1 hs
      · exact hswept hold r hr huser hkept
      · -- no bulk `UPDATE`: there was nothing to revoke
        obtain ⟨hquiet, hout⟩ := hless hnone
        obtain rfl := Proc.kept_of_sweepless hnone h.target
        have hkilled := h.sessions.killed_of_signedOut hquiet hout hr₀ (hle.userId.trans huser)
        rw [← hle.tokenHash]
        exact hkilled.step h.sessions hstep
      · have hkilled := h.sessions.killed_of_sweep ha h.target hnow hstmt (hsweep hnow) hr₀
          (hle.userId.trans huser) (by rw [hle.id]; exact hkept)
        rw [← hle.tokenHash]
        exact hkilled
    · rw [World.after_calls_of_ne hce]
      exact hswept
  · exact hbumped
  · by_cases hce : e = c
    · subst hce
      rw [World.after_calls_self]
      intro hb v₁ v hv₁ hv
      obtain hold | hstmt := (Proc.step_sweep ha h.target).2 hb
      · exact hbumped hold v₁ v hv₁ hv
      · rw [World.after_db, hstmt, bumpTokenVersion_version, Option.map_eq_some_iff] at hv
        obtain ⟨v₀, hv₀, rfl⟩ := hv
        obtain ⟨v₁', hv₁', hle⟩ := h.forward.version hv₀
        rw [hv₁, Option.some.injEq] at hv₁'
        omega
    · rw [World.after_calls_of_ne hce]
      exact hbumped

/-! ### The whole run -/

/-- A completed revocation has swept, and has bumped if it spared a session. -/
theorem Proc.revokedUser_some {p : Proc} {userId : String} (h : p.revokedUser = some userId) :
    ∃ kept, p.target = some (userId, kept) ∧ p.swept = true ∧
      ∀ sid, kept = some sid → p.bumped = true := by
  unfold Proc.revokedUser at h
  split at h
  · obtain rfl := Option.some.inj h
    exact ⟨none, rfl, rfl, fun _ hsid => absurd hsid (by simp)⟩
  · obtain rfl := Option.some.inj h
    exact ⟨_, rfl, rfl, fun _ _ => rfl⟩
  · rename_i req
    split at h
    · rename_i hpass
      obtain rfl := Option.some.inj h
      exact ⟨none, by simp [Proc.target, hpass], rfl, fun _ hsid => absurd hsid (by simp)⟩
    · exact absurd h (by simp)
  · obtain rfl := Option.some.inj h
    exact ⟨none, rfl, rfl, fun _ hsid => absurd hsid (by simp)⟩
  · exact absurd h (by simp)

/-- A run never changes whom a request revokes. -/
theorem exec_target {w w' : World} {ls : List Label} (h : (machine cfg).exec w ls = some w')
    (e : ℕ) : (w'.calls e).target = (w.calls e).target := by
  refine Machine.rel_of_exec (R := fun w w' => (w'.calls e).target = (w.calls e).target)
    (fun _ => rfl) ?_ ?_ h
  · intro a b c hab hbc
    exact hbc.trans hab
  · intro w l w' hstep
    obtain ⟨ms, -, rfl⟩ | ⟨c, fresh, a, -, ha, rfl, -⟩ := step_cases hstep
    · rfl
    · by_cases hec : e = c
      · subst hec
        rw [World.after_calls_self, Proc.step_target ha]
      · rw [World.after_calls_of_ne hec]

/-- The invariant of sessions holds in every run. -/
theorem Sessions.of_run {w w' : World} {ls : List Label} (h : Sessions w)
    (hrun : (machine cfg).exec w ls = some w') : Sessions w' :=
  Machine.inv_of_exec (G := fun _ _ => True) (fun _ _ _ h _ hstep => h.step hstep) h
    (Machine.Meets.always w ls) hrun

/-- **Global revocation.**  In every run in which request `e` begins in `w₁`, takes its steps
    under `CleanRevoke` and has completed a revocation of the user in `w₂`, nothing issued to
    the user before `w₁` is worth anything in any later world `w₃`.  The steps of all other
    requests are arbitrary. -/
theorem globalRevoke_kills {w₀ w₁ w₂ w₃ : World} {ls₁ ls₂ ls₃ : List Label} {e : ℕ}
    {userId : String} (h₀ : w₀.Initial) (hrun₁ : (machine cfg).exec w₀ ls₁ = some w₁)
    (hstart : (w₁.calls e).atStart = true) (hG : (machine cfg).Meets (CleanRevoke e) w₁ ls₂)
    (hrun₂ : (machine cfg).exec w₁ ls₂ = some w₂)
    (hdone : (w₂.calls e).revokedUser = some userId)
    (hrun₃ : (machine cfg).exec w₂ ls₃ = some w₃) : RevokedForGood w₁ w₂ w₃ e userId := by
  have hs₁ : Sessions w₁ := (Sessions.of_initial h₀).of_run hrun₁
  obtain ⟨kept, htarget₂, hswept, hbumped⟩ := Proc.revokedUser_some hdone
  have htarget₁ : (w₁.calls e).target = some (userId, kept) :=
    (exec_target hrun₂ e).symm.trans htarget₂
  -- up to `w₂`: the revoking request does its work
  have hsweep : Sweep w₁ e userId kept w₂ :=
    Machine.inv_of_exec (fun _ _ _ h hG hstep => h.step hG hstep)
      (Sweep.of_start hs₁ hstart htarget₁) hG hrun₂
  -- from `w₂` on: what it killed stays dead
  have hsince : ∀ r ∈ w₁.db.refreshTokens, r.userId = userId → kept ≠ some r.id →
      KilledSince w₂ r.tokenHash w₃ := by
    intro r hr huser hkept
    refine Machine.inv_of_exec (G := fun _ _ => True) (fun _ _ _ h _ hstep => h.step hstep)
      ⟨hsweep.sessions, hsweep.swept hswept r hr huser hkept, ?_⟩
      (Machine.Meets.always w₂ ls₃) hrun₃
    exact fun c raw claims tok hc _ => Or.inl hc
  have hs₃ : Sessions w₃ := hsweep.sessions.of_run hrun₃
  refine ⟨fun claims hmem hsub => ?_, fun r hr huser hkept c raw claims tok hraw hc₃ hc₂ => ?_⟩
  · obtain ⟨r, hr, hsid, huser⟩ := hs₁.session claims hmem
    by_cases hkept : kept = some r.id
    · -- a token of the kept session: its version is old
      obtain ⟨tv, htv, hle⟩ := hs₁.version claims hmem
      refine not_accepted_of_version htv (fun v hv => ?_)
      rw [hsub] at hv
      obtain ⟨v₂, hv₂, hle₂⟩ := (exec_forward hrun₃).1.version hv
      obtain ⟨v₁, hv₁, -⟩ := hsweep.forward.version hv₂
      have hlt : v₁ < v₂ := hsweep.bumped (hbumped _ hkept) v₁ v₂ hv₁ hv₂
      have hle₁ : tv ≤ v₁ := hle v₁ (by rw [hsub]; exact hv₁)
      omega
    · -- a token of any other session: its row is dead
      obtain ⟨r₃, hr₃, hhash, hdead⟩ := (hsince r hr (huser.trans hsub) hkept).killed.dead
      have hev : w₁.db.Evolves w₃.db := hsweep.forward.trans (exec_forward hrun₃).1
      obtain ⟨r', hr', hle⟩ := hev.token hr
      have hsame : r₃ = r' := hs₃.wf.eq_of_hash hr₃ hr' (hhash.trans hle.tokenHash.symm)
      exact not_accepted_of_dead hs₃.wf hsid ⟨r₃, hr₃, by rw [hsame, hle.id], hdead⟩
  · rw [Proc.kept, htarget₁, Option.bind_some] at hkept
    obtain hbefore | ⟨sid, hsid, hdead⟩ :=
      (hsince r hr huser hkept).exchanged c raw claims tok hc₃ hraw
    · exact absurd hbefore hc₂
    · exact not_accepted_of_dead hs₃.wf hsid hdead

/-- A login, then terminate-all, then a refresh of a token stored before: the access token of
    the login is refused. -/
theorem globalRevoke_kills_terminateAll :
    let calls : ℕ → Proc := fun c => match c with
      | 0 => .login { username := "ann", password := "pw" } .start
      | 1 => .terminateAll "u" .start
      | _ => .refresh "t0" .start
    ∃ w₁ w₂ w₃, (machine Sample.config).exec (Sample.world Sample.db calls)
        [.run 0 {}, .run 0 {}, .run 0 {}, .run 0 { id := "s1", raw := "t1" }] = some w₁ ∧
      (machine Sample.config).exec w₁ [.run 1 {}, .run 1 {}] = some w₂ ∧
      (machine Sample.config).exec w₂ [.run 2 {}] = some w₃ ∧
      w₁.signed = [⟨"u", some "s1", some 0⟩] ∧ RevokedForGood w₁ w₂ w₃ 1 "u" := by
  intro calls
  have hinit : (Sample.world Sample.db calls).Initial := by
    refine ⟨Sample.db_wf, fun c => ?_, rfl⟩
    rcases c with _ | _ | c <;> rfl
  obtain ⟨w₁, hrun₁⟩ : ∃ w₁, (machine Sample.config).exec (Sample.world Sample.db calls)
      [.run 0 {}, .run 0 {}, .run 0 {}, .run 0 { id := "s1", raw := "t1" }] = some w₁ := ⟨_, rfl⟩
  have hG : (machine Sample.config).Meets (CleanRevoke 1) w₁ [.run 1 {}, .run 1 {}] := by
    obtain rfl := Option.some.inj hrun₁
    refine ⟨fun _ userId kept _ => ⟨fun _ => ?_, fun hless => absurd hless (by decide)⟩,
      fun w h => ⟨?_, fun _ _ => trivial⟩⟩
    · -- no refresh request has read its row
      intro c raw pc row hc hrow
      rcases c with _ | _ | c
      · exact Proc.noConfusion (show Proc.login _ _ = _ from hc)
      · exact Proc.noConfusion (show Proc.terminateAll _ _ = _ from hc)
      · obtain ⟨-, rfl⟩ := Proc.refresh.inj hc
        exact absurd hrow (by simp [RefreshPc.inHand])
    · obtain rfl := Option.some.inj h
      exact fun _ userId kept _ =>
        ⟨fun hsweep => absurd hsweep (by decide), fun hless => absurd hless (by decide)⟩
  obtain ⟨w₂, hrun₂, hdone⟩ : ∃ w₂,
      (machine Sample.config).exec w₁ [.run 1 {}, .run 1 {}] = some w₂ ∧
      (w₂.calls 1).revokedUser = some "u" := by
    obtain rfl := Option.some.inj hrun₁
    exact ⟨_, rfl, rfl⟩
  obtain ⟨w₃, hrun₃⟩ : ∃ w₃, (machine Sample.config).exec w₂ [.run 2 {}] = some w₃ := by
    obtain rfl := Option.some.inj hrun₁
    obtain rfl := Option.some.inj hrun₂
    exact ⟨_, rfl⟩
  refine ⟨w₁, w₂, w₃, hrun₁, hrun₂, hrun₃, ?_, ?_⟩
  · obtain rfl := Option.some.inj hrun₁
    rfl
  · refine globalRevoke_kills hinit hrun₁ ?_ hG hrun₂ hdone hrun₃
    obtain rfl := Option.some.inj hrun₁
    rfl

/-- **An administrator's password change revokes nothing.**  The user is signed in, an
    administrator sets a new password, and the access token from before is still accepted. -/
theorem globalRevoke_leaks :
    ¬ ∀ (cfg : Config) (w₀ w₁ w₂ w₃ : World) (ls₁ ls₂ ls₃ : List Label) (e : ℕ) (userId : String),
      w₀.Initial → (machine cfg).exec w₀ ls₁ = some w₁ → (w₁.calls e).atStart = true →
      (machine cfg).exec w₁ ls₂ = some w₂ → (w₂.calls e).revokedUser = some userId →
      (machine cfg).exec w₂ ls₃ = some w₃ → RevokedForGood w₁ w₂ w₃ e userId := by
  intro h
  let calls : ℕ → Proc := fun c => match c with
    | 0 => .login { username := "ann", password := "pw" } .start
    | _ => .updateUser { id := "u", password := some "new secret" } .start
  have hinit : (Sample.world Sample.db calls).Initial := by
    refine ⟨Sample.db_wf, fun c => ?_, rfl⟩
    rcases c with _ | c <;> rfl
  have hgood := h Sample.config (Sample.world Sample.db calls) _ _ _
    [.run 0 {}, .run 0 {}, .run 0 {}, .run 0 { id := "s1", raw := "t1" }]
    [.run 1 {}, .run 1 {}] [] 1 "u" hinit rfl rfl rfl rfl rfl
  have hrefused := hgood.access ⟨"u", some "s1", some 0⟩ (by decide) rfl
  exact absurd hrefused (by decide)

end Argus.Auth
