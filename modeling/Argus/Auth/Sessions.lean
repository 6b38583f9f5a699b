import Argus.Auth.Rotation

namespace Argus.Auth

/-!
# The sessions invariant

What signed access tokens and requests in progress know about the database, in every run of
every interleaving.  Two mechanisms end a session: the token version, compared with the `tv`
claim of access tokens, and `revokedAt` on the rows of `refresh_tokens`.

* `SessionDead` — a row that is revoked or expired, which is final (`SessionDead.forward`).
* `not_accepted_of_dead`, `not_accepted_of_version` — `authenticate` sees both mechanisms.
* `Sessions` — signed tokens name stored sessions and no newer version than the stored one;
  rotations in progress hold stored rows; the session a rotation has just created is in no
  signed token yet.  Kept by every step (`Sessions.step`).
-/

variable {cfg : Config}

/-! ### Dead sessions and stale versions -/

/-- The session has a row, and the row is revoked or expired. -/
def MasterDb.SessionDead (db : MasterDb) (sid : String) (now : ℕ) : Prop :=
  ∃ r ∈ db.refreshTokens, r.id = sid ∧ r.live now = false

/-- A dead session stays dead. -/
theorem MasterDb.SessionDead.forward {db db' : MasterDb} {sid : String} {now now' : ℕ}
    (h : db.SessionDead sid now) (hev : db.Evolves db') (hnow : now ≤ now') :
    db'.SessionDead sid now' := by
  obtain ⟨r, hr, hid, hdead⟩ := h
  obtain ⟨r', hr', hle⟩ := hev.token hr
  exact ⟨r', hr', hle.id.trans hid, hle.not_live hnow hdead⟩

theorem MasterDb.SessionDead.not_live {db : MasterDb} {sid : String} {now : ℕ} (hwf : db.WF)
    (h : db.SessionDead sid now) : db.isSessionLive sid now = false := by
  obtain ⟨r, hr, hid, hdead⟩ := h
  refine List.any_eq_false.mpr (fun r' hr' hlive => ?_)
  rw [Bool.and_eq_true, decide_eq_true_eq] at hlive
  have hsame : r' = r := hwf.eq_of_id hr' hr (hlive.1.trans hid.symm)
  rw [hsame, hdead] at hlive
  exact absurd hlive.2 (by simp)

/-- `authenticate` refuses a token whose session is dead. -/
theorem not_accepted_of_dead {db : MasterDb} {now : ℕ} {claims : AccessClaims} {sid : String}
    (hwf : db.WF) (hsid : claims.sid = some sid) (h : db.SessionDead sid now) :
    accepted db now claims = false := by
  rw [← Bool.not_eq_true, accepted_iff, revocationCheck_eq_none]
  rintro ⟨⟨-, hsession⟩, -⟩
  have hlive := hsession sid hsid
  rw [h.not_live hwf] at hlive
  exact absurd hlive (by simp)

/-- `authenticate` refuses a token of an older version. -/
theorem not_accepted_of_version {db : MasterDb} {now tv : ℕ} {claims : AccessClaims}
    (htv : claims.tv = some tv) (h : ∀ v, db.getTokenVersion claims.sub = some v → tv < v) :
    accepted db now claims = false := by
  rw [← Bool.not_eq_true, accepted_iff, revocationCheck_eq_none]
  rintro ⟨⟨hversion, -⟩, -⟩
  exact absurd (h tv (hversion tv htv)) (lt_irrefl tv)

/-- A stored version was there before, and was not newer. -/
theorem MasterDb.Evolves.version {db db' : MasterDb} (h : db.Evolves db') {id : String} {v' : ℕ}
    (hv : db'.getTokenVersion id = some v') :
    ∃ v, db.getTokenVersion id = some v ∧ v ≤ v' := by
  unfold MasterDb.getTokenVersion at hv ⊢
  rcases h.getUser id with ⟨-, hnone⟩ | ⟨u, u', hu, hu', hle⟩
  · rw [hnone] at hv
    exact absurd hv (by simp)
  · rw [hu', Option.map_some, Option.some.injEq] at hv
    exact ⟨u.tokenVersion, by rw [hu]; rfl, hv ▸ hle.tokenVersion⟩

/-! ### The invariant of every run -/

/-- The row a rotation works on, from its `SELECT` to its `INSERT`. -/
def RefreshPc.inHand : RefreshPc → Option RefreshToken
  | .selected row _ => some row
  | .revoked row => some row
  | _ => none

/-- **Invariant.**  What signed tokens and requests in progress know about the database. -/
structure Sessions (w : World) : Prop where
  wf : w.db.WF
  /-- A login's row carries no newer token version than the stored row. -/
  snapshot : ∀ c req pc u, w.calls c = .login req pc → pc.user = some u →
    ∀ v, w.db.getTokenVersion u.id = some v → u.tokenVersion ≤ v
  /-- A signed token names a stored session of its user … -/
  session : ∀ a ∈ w.signed, ∃ r ∈ w.db.refreshTokens, a.sid = some r.id ∧ r.userId = a.sub
  /-- … and no newer token version than the stored one. -/
  version : ∀ a ∈ w.signed, ∃ tv, a.tv = some tv ∧
    ∀ v, w.db.getTokenVersion a.sub = some v → tv ≤ v
  inHand : ∀ c raw pc row, w.calls c = .refresh raw pc → pc.inHand = some row →
    ∃ r ∈ w.db.refreshTokens, r.id = row.id ∧ r.userId = row.userId ∧ r.tokenHash = sha256 raw
  /-- A rotation that has inserted its row has not told anybody yet. -/
  rotated : ∀ c raw u tok sid, w.calls c = .refresh raw (.rotated u tok sid) →
    (∃ r ∈ w.db.refreshTokens, r.id = sid ∧ r.userId = u) ∧
    (∃ r ∈ w.db.refreshTokens, r.tokenHash = sha256 raw ∧ r.userId = u) ∧
    ∀ a ∈ w.signed, a.sid ≠ some sid
  distinct : ∀ c d raw raw' u u' tok tok' sid, w.calls c = .refresh raw (.rotated u tok sid) →
    w.calls d = .refresh raw' (.rotated u' tok' sid) → c = d
  /-- A password change in progress was admitted with a signed token. -/
  caller : ∀ c req pc, w.calls c = .changePassword req pc → pc ≠ .start →
    req.caller ∈ w.signed ∧ ∀ sid, pc = .versioning sid → req.caller.sid = some sid

theorem Sessions.of_initial {w : World} (h : w.Initial) : Sessions w := by
  have hlogin : ∀ {c req pc}, w.calls c = .login req pc → pc = .start :=
    fun hc => of_decide_eq_true (h.atStart hc)
  have hrefresh : ∀ {c raw pc}, w.calls c = .refresh raw pc → pc = .start :=
    fun hc => of_decide_eq_true (h.atStart hc)
  have hpassword : ∀ {c req pc}, w.calls c = .changePassword req pc → pc = .start :=
    fun hc => of_decide_eq_true (h.atStart hc)
  refine ⟨h.wf, ?_, ?_, ?_, ?_, ?_, ?_, ?_⟩
  · intro c req pc u hc hu
    rw [hlogin hc] at hu
    exact absurd hu (by simp [LoginPc.user])
  · rw [h.unsigned]
    simp
  · rw [h.unsigned]
    simp
  · intro c raw pc row hc hrow
    rw [hrefresh hc] at hrow
    exact absurd hrow (by simp [RefreshPc.inHand])
  · intro c raw u tok sid hc
    exact absurd (hrefresh hc) (by simp)
  · intro c d raw raw' u u' tok tok' sid hc
    exact absurd (hrefresh hc) (by simp)
  · intro c req pc hc hpc
    exact absurd (hpassword hc) hpc

/-! ### The invariant, step by step -/

section Step

variable {w : World} {c : ℕ} {fresh : Fresh} {a : Action Proc}

/-- A stored session is still stored after a statement. -/
theorem stored_after (a : Action Proc) {r : RefreshToken} (hr : r ∈ w.db.refreshTokens) :
    ∃ r' ∈ (w.after c a).db.refreshTokens, r.Le r' :=
  (a.stmt.exec_evolves w.db).token hr

theorem Sessions.snapshot_after (h : Sessions w) (ha : w.action cfg c fresh = some a)
    {d : ℕ} {req : LoginReq} {pc : LoginPc} {u : User}
    (hd : (w.after c a).calls d = .login req pc) (hu : pc.user = some u) {v : ℕ}
    (hv : (w.after c a).db.getTokenVersion u.id = some v) : u.tokenVersion ≤ v := by
  -- versions only grow, so the stored one before the step is enough
  obtain ⟨v₀, hv₀, hle⟩ := (a.stmt.exec_evolves w.db).version hv
  by_cases hdc : d = c
  · subst hdc
    rw [World.after_calls_self] at hd
    obtain ⟨pc₀, hp, hu₀⟩ | ⟨hp, hfind⟩ := Proc.step_next_login ha hd hu
    · exact (h.snapshot d req pc₀ u hp hu₀ v₀ hv₀).trans hle
    · obtain ⟨hget, -⟩ := MasterDb.findLocalUser_some h.wf hfind
      rw [MasterDb.getTokenVersion, hget, Option.map_some, Option.some.injEq] at hv₀
      omega
  · rw [World.after_calls_of_ne hdc] at hd
    exact (h.snapshot d req pc u hd hu v₀ hv₀).trans hle

/-- The session of a token that a step signs: stored afterwards, and none that a rotation of
    another request has just created. -/
theorem Sessions.signs (h : Sessions w) (ha : w.action cfg c fresh = some a)
    {claims : AccessClaims} (hs : a.signed = some claims) :
    (∃ r ∈ (w.after c a).db.refreshTokens, claims.sid = some r.id ∧ r.userId = claims.sub) ∧
    (∃ tv, claims.tv = some tv ∧ ∀ v, w.db.getTokenVersion claims.sub = some v → tv ≤ v) ∧
    ∀ d raw u tok sid, d ≠ c → w.calls d = .refresh raw (.rotated u tok sid) →
      claims.sid ≠ some sid := by
  obtain ⟨req, user, used, hp, hunused, hstmt, rfl⟩ | ⟨raw, u, tok, sid, hp, hstmt, rfl⟩ |
    ⟨req, sid, hp, hstmt, rfl⟩ := Proc.step_signed ha hs
  · -- a login: its session is new
    refine ⟨⟨newToken user.id cfg.refreshTtlSec w.now fresh req.userAgent req.ip, ?_, rfl, rfl⟩,
      ⟨_, rfl, fun v hv => ?_⟩, ?_⟩
    · rw [World.after_db, hstmt, Stmt.exec_insertToken]
      exact List.mem_append_right _ (List.mem_singleton_self _)
    · exact h.snapshot c req _ user hp rfl v hv
    · intro d raw u tok sid _ hd hsid
      obtain ⟨⟨r, hr, hid, -⟩, -, -⟩ := h.rotated d raw u tok sid hd
      rw [Option.some.injEq] at hsid
      exact (Fresh.unused_ne hunused hr).1 (hid.trans hsid.symm)
  · -- a refresh: its session is the row it inserted itself
    obtain ⟨⟨r, hr, hid, huser⟩, -, -⟩ := h.rotated c raw u tok sid hp
    obtain ⟨r', hr', hle⟩ := stored_after (c := c) a hr
    refine ⟨⟨r', hr', by rw [hle.id, hid], hle.userId.trans huser⟩, ⟨_, rfl, fun v hv => ?_⟩, ?_⟩
    · rw [hv, Option.getD_some]
    · intro d raw' u' tok' sid' hdc hd hsid
      rw [Option.some.injEq] at hsid
      subst hsid
      exact hdc (h.distinct d c raw' raw u' u tok' tok sid hd hp)
  · -- a password change: its session is that of a token signed before
    obtain ⟨hmem, hver⟩ := h.caller c req _ hp (by simp)
    have hsid : req.caller.sid = some sid := hver sid rfl
    obtain ⟨r, hr, hrid, huser⟩ := h.session _ hmem
    obtain ⟨r', hr', hle⟩ := stored_after (c := c) a hr
    refine ⟨⟨r', hr', by rw [hle.id, ← hrid, hsid], hle.userId.trans huser⟩,
      ⟨_, rfl, fun v hv => ?_⟩, ?_⟩
    · rw [hv, Option.getD_some]
    · intro d raw u tok sid' _ hd hsid'
      exact (h.rotated d raw u tok sid' hd).2.2 _ hmem (hsid.trans hsid')

theorem Sessions.signed_after (h : Sessions w) (ha : w.action cfg c fresh = some a)
    {claims : AccessClaims} (hmem : claims ∈ (w.after c a).signed) :
    (∃ r ∈ (w.after c a).db.refreshTokens, claims.sid = some r.id ∧ r.userId = claims.sub) ∧
    ∃ tv, claims.tv = some tv ∧
      ∀ v, (w.after c a).db.getTokenVersion claims.sub = some v → tv ≤ v := by
  have hver : ∀ {tv}, (∀ v, w.db.getTokenVersion claims.sub = some v → tv ≤ v) →
      ∀ v, (w.after c a).db.getTokenVersion claims.sub = some v → tv ≤ v := by
    intro tv hle v hv
    obtain ⟨v₀, hv₀, hv₀v⟩ := (a.stmt.exec_evolves w.db).version hv
    exact (hle v₀ hv₀).trans hv₀v
  rw [World.after_signed, List.mem_append, Option.mem_toList] at hmem
  rcases hmem with hold | hnew
  · obtain ⟨r, hr, hsid, huser⟩ := h.session _ hold
    obtain ⟨r', hr', hle⟩ := stored_after (c := c) a hr
    obtain ⟨tv, htv, hle'⟩ := h.version _ hold
    exact ⟨⟨r', hr', by rw [hsid, hle.id], hle.userId.trans huser⟩, tv, htv, hver hle'⟩
  · obtain ⟨hstored, ⟨tv, htv, hle'⟩, -⟩ := h.signs ha hnew
    exact ⟨hstored, tv, htv, hver hle'⟩

theorem Sessions.inHand_after (h : Sessions w) (ha : w.action cfg c fresh = some a)
    {d : ℕ} {raw : String} {pc : RefreshPc} {row : RefreshToken}
    (hd : (w.after c a).calls d = .refresh raw pc) (hrow : pc.inHand = some row) :
    ∃ r ∈ (w.after c a).db.refreshTokens,
      r.id = row.id ∧ r.userId = row.userId ∧ r.tokenHash = sha256 raw := by
  -- it is enough to have the row in the database before the step
  suffices hbefore : ∃ r ∈ w.db.refreshTokens,
      r.id = row.id ∧ r.userId = row.userId ∧ r.tokenHash = sha256 raw by
    obtain ⟨r, hr, hid, huser, hhash⟩ := hbefore
    obtain ⟨r', hr', hle⟩ := stored_after (c := c) a hr
    exact ⟨r', hr', hle.id.trans hid, hle.userId.trans huser, hle.tokenHash.trans hhash⟩
  by_cases hdc : d = c
  · subst hdc
    rw [World.after_calls_self] at hd
    obtain ⟨pc₀, b, hp, hb, rfl, -, -⟩ := Proc.step_next_refresh ha hd
    obtain ⟨rfl, -, -, hnext | hnext | ⟨row', hrow', hnext⟩⟩ | ⟨row', t, rfl, rfl⟩ |
      ⟨row', rfl, -, rfl⟩ | ⟨u, tok, sid, claims, rfl, -, rfl⟩ := RefreshPc.step_cases hb
    · exact absurd hrow (by simp [hnext, RefreshPc.inHand])
    · exact absurd hrow (by simp [hnext, RefreshPc.inHand])
    · rw [hnext] at hrow
      obtain rfl := Option.some.inj hrow
      obtain ⟨hmem, hhash, -⟩ := MasterDb.liveTokenByHash_some hrow'
      exact ⟨row', hmem, rfl, rfl, hhash⟩
    · obtain rfl := Option.some.inj hrow
      exact h.inHand d raw _ row' hp rfl
    · exact absurd hrow (by simp [RefreshPc.inHand])
    · exact absurd hrow (by simp [RefreshPc.inHand])
  · rw [World.after_calls_of_ne hdc] at hd
    exact h.inHand d raw pc row hd hrow

/-- A rotation that stands after its `INSERT` stood there before the step, or has just
    inserted a row with an unused id. -/
theorem Proc.rotated_back (ha : w.action cfg c fresh = some a) {d : ℕ} {raw u tok sid : String}
    (hd : (w.after c a).calls d = .refresh raw (.rotated u tok sid)) :
    (d ≠ c ∧ w.calls d = .refresh raw (.rotated u tok sid)) ∨
    (d = c ∧ fresh.unused w.db = true ∧ sid = fresh.id ∧ a.signed = none ∧
      ∃ row, w.calls c = .refresh raw (.revoked row) ∧ u = row.userId ∧
        a.stmt = .insertToken
          (newToken row.userId cfg.refreshTtlSec w.now fresh row.userAgent row.ip)) := by
  by_cases hdc : d = c
  · subst hdc
    right
    rw [World.after_calls_self] at hd
    obtain ⟨pc₀, b, hp, hb, hnextb, hstmt, hsigned⟩ := Proc.step_next_refresh ha hd
    obtain ⟨rfl, -, -, hnext | hnext | ⟨row', hrow', hnext⟩⟩ | ⟨row', t, rfl, rfl⟩ |
      ⟨row', rfl, hunused, rfl⟩ | ⟨u', tok', sid', claims, rfl, -, rfl⟩ := RefreshPc.step_cases hb
    · exact absurd (hnext.symm.trans hnextb) (by simp)
    · exact absurd (hnext.symm.trans hnextb) (by simp)
    · exact absurd (hnext.symm.trans hnextb) (by simp)
    · exact absurd hnextb (by simp)
    · obtain ⟨rfl, -, rfl⟩ := RefreshPc.rotated.inj hnextb
      exact ⟨rfl, hunused, rfl, hsigned, row', hp, rfl, hstmt⟩
    · exact absurd hnextb (by simp)
  · rw [World.after_calls_of_ne hdc] at hd
    exact Or.inl ⟨hdc, hd⟩

theorem Sessions.rotated_after (h : Sessions w) (ha : w.action cfg c fresh = some a)
    {d : ℕ} {raw u tok sid : String}
    (hd : (w.after c a).calls d = .refresh raw (.rotated u tok sid)) :
    (∃ r ∈ (w.after c a).db.refreshTokens, r.id = sid ∧ r.userId = u) ∧
    (∃ r ∈ (w.after c a).db.refreshTokens, r.tokenHash = sha256 raw ∧ r.userId = u) ∧
    ∀ claims ∈ (w.after c a).signed, claims.sid ≠ some sid := by
  obtain ⟨hdc, hd⟩ | ⟨rfl, hunused, rfl, hsigned, row, hp, rfl, hstmt⟩ := Proc.rotated_back ha hd
  -- an older rotation: the step may sign a token, but not for its session
  · obtain ⟨⟨r, hr, hid, huser⟩, ⟨r₁, hr₁, hhash, huser₁⟩, hnew⟩ := h.rotated d raw u tok sid hd
    obtain ⟨r', hr', hle⟩ := stored_after (c := c) a hr
    obtain ⟨r₁', hr₁', hle₁⟩ := stored_after (c := c) a hr₁
    refine ⟨⟨r', hr', hle.id.trans hid, hle.userId.trans huser⟩,
      ⟨r₁', hr₁', hle₁.tokenHash.trans hhash, hle₁.userId.trans huser₁⟩, fun claims hmem => ?_⟩
    rw [World.after_signed, List.mem_append, Option.mem_toList] at hmem
    rcases hmem with hold | hs
    · exact hnew claims hold
    · exact (h.signs ha hs).2.2 d raw u tok sid hdc hd
  -- the `INSERT` itself: no signed token can name an id that was not stored
  · obtain ⟨r, hr, -, huser, hhash⟩ := h.inHand d raw _ row hp rfl
    obtain ⟨r', hr', hle⟩ := stored_after (c := d) a hr
    refine ⟨⟨newToken row.userId cfg.refreshTtlSec w.now fresh row.userAgent row.ip, ?_, rfl, rfl⟩,
      ⟨r', hr', hle.tokenHash.trans hhash, hle.userId.trans huser⟩, fun claims hmem hsid => ?_⟩
    · rw [World.after_db, hstmt, Stmt.exec_insertToken]
      exact List.mem_append_right _ (List.mem_singleton_self _)
    · rw [World.after_signed, hsigned, Option.toList_none, List.append_nil] at hmem
      obtain ⟨r₀, hr₀, hsid₀, -⟩ := h.session claims hmem
      rw [hsid, Option.some.injEq] at hsid₀
      exact (Fresh.unused_ne hunused hr₀).1 hsid₀.symm

theorem Sessions.distinct_after (h : Sessions w) (ha : w.action cfg c fresh = some a)
    {d e : ℕ} {raw raw' u u' tok tok' sid : String}
    (hd : (w.after c a).calls d = .refresh raw (.rotated u tok sid))
    (he : (w.after c a).calls e = .refresh raw' (.rotated u' tok' sid)) : d = e := by
  -- two rows with one id: the younger would have been inserted with a used id
  obtain ⟨-, hd⟩ | ⟨hdc, hunused, hsid, -⟩ := Proc.rotated_back ha hd
  · obtain ⟨-, he⟩ | ⟨-, hunused, hsid, -⟩ := Proc.rotated_back ha he
    · exact h.distinct d e raw raw' u u' tok tok' sid hd he
    · obtain ⟨⟨r, hr, hid, -⟩, -, -⟩ := h.rotated d raw u tok sid hd
      exact absurd (hid.trans hsid) (Fresh.unused_ne hunused hr).1
  · obtain ⟨-, he⟩ | ⟨hec, -⟩ := Proc.rotated_back ha he
    · obtain ⟨⟨r, hr, hid, -⟩, -, -⟩ := h.rotated e raw' u' tok' sid he
      exact absurd (hid.trans hsid) (Fresh.unused_ne hunused hr).1
    · rw [hdc, hec]

theorem Sessions.caller_after (h : Sessions w) (ha : w.action cfg c fresh = some a)
    (hallow : w.admits c = true) {d : ℕ} {req : PasswordReq} {pc : PasswordPc}
    (hd : (w.after c a).calls d = .changePassword req pc) (hpc : pc ≠ .start) :
    req.caller ∈ (w.after c a).signed ∧
      ∀ sid, pc = .versioning sid → req.caller.sid = some sid := by
  have hgrow : ∀ {claims}, claims ∈ w.signed → claims ∈ (w.after c a).signed := by
    intro claims hmem
    rw [World.after_signed]
    exact List.mem_append_left _ hmem
  by_cases hdc : d = c
  · subst hdc
    rw [World.after_calls_self] at hd
    obtain ⟨pc₀, b, hp, hb, rfl, -, -⟩ := Proc.step_next_changePassword ha hd
    constructor
    · by_cases hstart : pc₀ = .start
      -- the first statement waits for `authenticate`
      · subst hstart
        rw [World.admits, hp] at hallow
        simp only [Proc.atStart, Proc.caller, decide_true, Bool.not_true, Bool.false_or,
          Option.all_some, Bool.and_eq_true, decide_eq_true_eq] at hallow
        exact hgrow hallow.1
      · exact hgrow (h.caller d req pc₀ hp hstart).1
    · intro sid hsid
      cases pc₀ <;> simp only [PasswordPc.step] at hb
      case start =>
        split at hb
        · obtain rfl := Option.some.inj hb
          exact absurd hsid (by simp)
        · obtain rfl := Option.some.inj hb
          unfold afterGetUser at hsid
          split at hsid
          · exact absurd hsid (by simp)
          · split at hsid
            · exact absurd hsid (by simp)
            · split at hsid <;> exact absurd hsid (by simp)
      -- only the bump leads to `versioning`, with the truthy part of the caller's `sid`
      case bumping =>
        obtain rfl := Option.some.inj hb
        cases hreq : req.sid with
        | none =>
          rw [hreq] at hsid
          exact absurd hsid (by simp)
        | some sid' =>
          rw [hreq] at hsid
          obtain rfl := PasswordPc.versioning.inj hsid
          exact truthy_some hreq
      case done reply => exact absurd hb (by simp)
      all_goals
        obtain rfl := Option.some.inj hb
        exact absurd hsid (by simp)
  · rw [World.after_calls_of_ne hdc] at hd
    obtain ⟨hmem, hver⟩ := h.caller d req pc hd hpc
    exact ⟨hgrow hmem, hver⟩

end Step

/-- **Step lemma.** -/
theorem Sessions.step {w w' : World} {l : Label} (h : Sessions w)
    (hstep : (machine cfg).step w l = some w') : Sessions w' := by
  obtain ⟨ms, -, rfl⟩ | ⟨c, fresh, a, rfl, ha, rfl, hallow⟩ := step_cases hstep
  · exact ⟨h.wf, h.snapshot, h.session, h.version, h.inHand, h.rotated, h.distinct, h.caller⟩
  · exact
      { wf := action_wf h.wf ha
        snapshot := fun _ _ _ _ hd hu _ hv => h.snapshot_after ha hd hu hv
        session := fun _ hmem => (h.signed_after ha hmem).1
        version := fun _ hmem => (h.signed_after ha hmem).2
        inHand := fun _ _ _ _ hd hrow => h.inHand_after ha hd hrow
        rotated := fun _ _ _ _ _ hd => h.rotated_after ha hd
        distinct := fun _ _ _ _ _ _ _ _ _ hd he => h.distinct_after ha hd he
        caller := fun _ _ _ hd hpc => h.caller_after ha hallow hd hpc }

end Argus.Auth
