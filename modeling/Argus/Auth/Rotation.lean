import Argus.Auth.Steps

namespace Argus.Auth

/-!
# Single use of refresh tokens

`rotateRefreshToken` validates a row in one statement and revokes it in another.  The
revoking `UPDATE` does not repeat the check (`Stmt.rotateOut` matches the id alone), so two
requests that both run their `SELECT` before either `UPDATE` exchange one token twice.

* `NoOverlap` — the step condition under which that cannot happen: the `SELECT` finds the
  row in nobody else's hands.
* `Claimed` — the invariant: a token is claimed by at most one request, and a request past
  its `UPDATE` leaves the row revoked.
-/

variable {cfg : Config}

/-- Between its `SELECT` and its `UPDATE` a rotation holds the row it read. -/
def RefreshPc.held : RefreshPc → Option RefreshToken
  | .selected row _ => some row
  | _ => none

/-- Past its `UPDATE` a rotation has revoked its row; it will return, or has returned, a
    non-null result. -/
def RefreshPc.spent : RefreshPc → Bool
  | .revoked _ => true
  | .rotated _ _ _ => true
  | .done (.ok _ _) => true
  | _ => false

/-- The refresh token for which `rotateRefreshToken` has returned a non-null result. -/
def Proc.returned : Proc → Option String
  | .refresh raw (.rotated _ _ _) => some raw
  | .refresh raw (.done (.ok _ _)) => some raw
  | _ => none

/-- **Step condition.** When the `SELECT` of a rotation finds a row, no other rotation is
    between its own `SELECT` of that row and its `UPDATE`. -/
def NoOverlap (w : World) : Label → Prop
  | .run c _ => ∀ raw row, w.calls c = .refresh raw .start →
      w.db.liveTokenByHash (sha256 raw) w.now = some row →
      ∀ d raw' pc row', w.calls d = .refresh raw' pc → pc.held = some row' → row'.id ≠ row.id
  | .tick _ => True

/-- A rotation of `raw` that has read a live row, whether or not it went on. -/
def Claims (w : World) (raw : String) (c : ℕ) : Prop :=
  ∃ pc, w.calls c = .refresh raw pc ∧ (pc.held.isSome ∨ pc.spent = true)

/-- **Invariant.** A held row is stored under the hash of the token; a spent token's row is
    revoked; one request at most claims a token. -/
structure Claimed (w : World) : Prop where
  wf : w.db.WF
  held : ∀ c raw pc row, w.calls c = .refresh raw pc → pc.held = some row →
    ∃ r ∈ w.db.refreshTokens, r.id = row.id ∧ r.tokenHash = sha256 raw
  spent : ∀ c raw pc, w.calls c = .refresh raw pc → pc.spent = true →
    ∃ r ∈ w.db.refreshTokens, r.tokenHash = sha256 raw ∧ r.revokedAt.isSome
  unique : ∀ raw c d, Claims w raw c → Claims w raw d → c = d

theorem Claimed.of_initial {w : World} (h : w.Initial) : Claimed w := by
  have hstart : ∀ {c raw pc}, w.calls c = .refresh raw pc → pc = .start :=
    fun hc => of_decide_eq_true (h.atStart hc)
  refine ⟨h.wf, ?_, ?_, ?_⟩
  · intro c raw pc row hc hheld
    rw [hstart hc] at hheld
    exact absurd hheld (by simp [RefreshPc.held])
  · intro c raw pc hc hspent
    rw [hstart hc] at hspent
    exact absurd hspent (by simp [RefreshPc.spent])
  · rintro raw c d ⟨pc, hc, hpc⟩ -
    rw [hstart hc] at hpc
    exact absurd hpc (by simp [RefreshPc.held, RefreshPc.spent])

/-- What is known about the rows survives any statement. -/
theorem Claimed.rows_forward {db db' : MasterDb} (h : db.Evolves db') {hash : Digest}
    (hr : ∃ r ∈ db.refreshTokens, r.tokenHash = hash ∧ r.revokedAt.isSome) :
    ∃ r ∈ db'.refreshTokens, r.tokenHash = hash ∧ r.revokedAt.isSome := by
  obtain ⟨r, hr, hhash, hrev⟩ := hr
  obtain ⟨r', hr', hle⟩ := h.token hr
  exact ⟨r', hr', hle.tokenHash.trans hhash, hle.revoked hrev⟩

/-- The `UPDATE` of a rotation revokes the row it holds. -/
theorem rotateOut_revokes {db : MasterDb} {id : String} {t : ℕ} {r : RefreshToken}
    (hr : r ∈ db.refreshTokens) (hid : r.id = id) :
    ∃ r' ∈ ((Stmt.rotateOut id t).exec db).refreshTokens,
      r'.tokenHash = r.tokenHash ∧ r'.revokedAt.isSome := by
  refine ⟨r.revoke t true, ?_, rfl, rfl⟩
  exact Table.mem_update.mpr ⟨r, hr, by simp [hid]⟩

section Handler

variable {now : ℕ} {fresh : Fresh} {db : MasterDb} {raw : String} {pc : RefreshPc}
  {b : Action RefreshPc}

/-- A rotation that holds a row has just found it live. -/
theorem RefreshPc.step_held {row : RefreshToken} (h : pc.step cfg now fresh db raw = some b)
    (hheld : b.next.held = some row) :
    pc = .start ∧ db.liveTokenByHash (sha256 raw) now = some row := by
  obtain ⟨rfl, -, -, hnext | hnext | ⟨row', hrow, hnext⟩⟩ | ⟨row', t, rfl, rfl⟩ |
    ⟨row', rfl, -, rfl⟩ | ⟨u, tok, sid, claims, rfl, -, rfl⟩ := RefreshPc.step_cases h
  · exact absurd hheld (by simp [hnext, RefreshPc.held])
  · exact absurd hheld (by simp [hnext, RefreshPc.held])
  · rw [hnext] at hheld
    obtain rfl := Option.some.inj hheld
    exact ⟨rfl, hrow⟩
  all_goals exact absurd hheld (by simp [RefreshPc.held])

/-- A spent rotation was spent before, or has just revoked the row it held. -/
theorem RefreshPc.step_spent (h : pc.step cfg now fresh db raw = some b)
    (hspent : b.next.spent = true) :
    (∃ row t, pc = .selected row t ∧ b.stmt = .rotateOut row.id t) ∨ pc.spent = true := by
  obtain ⟨rfl, -, -, hnext | hnext | ⟨row, -, hnext⟩⟩ | ⟨row, t, rfl, rfl⟩ |
    ⟨row, rfl, -, rfl⟩ | ⟨u, tok, sid, claims, rfl, -, rfl⟩ := RefreshPc.step_cases h
  -- the three outcomes of the `SELECT` come before the `UPDATE`
  · exact absurd hspent (by simp [hnext, RefreshPc.spent])
  · exact absurd hspent (by simp [hnext, RefreshPc.spent])
  · exact absurd hspent (by simp [hnext, RefreshPc.spent])
  · exact Or.inl ⟨row, t, rfl, rfl⟩
  · exact Or.inr rfl
  · exact Or.inr rfl

end Handler

/-- A request that claims a token after a step either claimed it before, or the step was its
    `SELECT` and found the row live. -/
theorem Claims.back {w : World} {c d : ℕ} {fresh : Fresh} {a : Action Proc} {raw : String}
    (ha : w.action cfg c fresh = some a) (h : Claims (w.after c a) raw d) :
    Claims w raw d ∨ (d = c ∧ w.calls c = .refresh raw .start ∧
      ∃ row, w.db.liveTokenByHash (sha256 raw) w.now = some row) := by
  obtain ⟨pc, hpc, hclaim⟩ := h
  by_cases hdc : d = c
  · subst hdc
    rw [World.after_calls_self] at hpc
    obtain ⟨pc₀, b, hp, hb, rfl, -, -⟩ := Proc.step_next_refresh ha hpc
    rcases hclaim with hheld | hspent
    · obtain ⟨row, hrow⟩ := Option.isSome_iff_exists.mp hheld
      obtain ⟨rfl, hlive⟩ := RefreshPc.step_held hb hrow
      exact Or.inr ⟨rfl, hp, row, hlive⟩
    · obtain ⟨row, t, rfl, -⟩ | hbefore := RefreshPc.step_spent hb hspent
      · exact Or.inl ⟨_, hp, Or.inl rfl⟩
      · exact Or.inl ⟨_, hp, Or.inr hbefore⟩
  · rw [World.after_calls_of_ne hdc] at hpc
    exact Or.inl ⟨pc, hpc, hclaim⟩

/-- No request claims a token whose row a `SELECT` finds live and in nobody's hands. -/
theorem Claimed.unclaimed {w : World} (h : Claimed w) {raw : String} {row : RefreshToken}
    (hrow : w.db.liveTokenByHash (sha256 raw) w.now = some row)
    (hfree : ∀ d raw' pc row', w.calls d = .refresh raw' pc → pc.held = some row' →
      row'.id ≠ row.id) (d : ℕ) : ¬ Claims w raw d := by
  obtain ⟨hmem, hhash, hlive⟩ := MasterDb.liveTokenByHash_some hrow
  rintro ⟨pc, hpc, hheld | hspent⟩
  · obtain ⟨row', hrow'⟩ := Option.isSome_iff_exists.mp hheld
    obtain ⟨r, hr, hid, hrhash⟩ := h.held d raw pc row' hpc hrow'
    have hsame : r = row := h.wf.eq_of_hash hr hmem (hrhash.trans hhash.symm)
    exact hfree d raw pc row' hpc hrow' (by rw [← hid, hsame])
  · obtain ⟨r, hr, hrhash, hrev⟩ := h.spent d raw pc hpc hspent
    have hsame : r = row := h.wf.eq_of_hash hr hmem (hrhash.trans hhash.symm)
    rw [hsame, (RefreshToken.live_iff.mp hlive).1] at hrev
    exact absurd hrev (by simp)

/-- **Step lemma.** A statement that meets `NoOverlap` keeps the invariant. -/
theorem Claimed.step {w w' : World} {l : Label} (h : Claimed w) (hG : NoOverlap w l)
    (hstep : (machine cfg).step w l = some w') : Claimed w' := by
  obtain ⟨ms, -, rfl⟩ | ⟨c, fresh, a, rfl, ha, rfl, -⟩ := step_cases hstep
  · exact ⟨h.wf, h.held, h.spent, h.unique⟩
  have hev : w.db.Evolves (w.after c a).db := a.stmt.exec_evolves w.db
  refine ⟨action_wf h.wf ha, ?_, ?_, ?_⟩
  · -- held: a fresh `SELECT` returns a stored row, an older one is still stored
    intro d raw pc row hpc hheld
    by_cases hdc : d = c
    · subst hdc
      rw [World.after_calls_self] at hpc
      obtain ⟨pc₀, b, hp, hb, rfl, -, -⟩ := Proc.step_next_refresh ha hpc
      obtain ⟨-, hlive⟩ := RefreshPc.step_held hb hheld
      obtain ⟨hmem, hhash, -⟩ := MasterDb.liveTokenByHash_some hlive
      obtain ⟨r', hr', hle⟩ := hev.token hmem
      exact ⟨r', hr', hle.id, hle.tokenHash.trans hhash⟩
    · rw [World.after_calls_of_ne hdc] at hpc
      obtain ⟨r, hr, hid, hhash⟩ := h.held d raw pc row hpc hheld
      obtain ⟨r', hr', hle⟩ := hev.token hr
      exact ⟨r', hr', hle.id.trans hid, hle.tokenHash.trans hhash⟩
  · -- spent: the `UPDATE` has just revoked the held row, or it was revoked before
    intro d raw pc hpc hspent
    by_cases hdc : d = c
    · subst hdc
      rw [World.after_calls_self] at hpc
      obtain ⟨pc₀, b, hp, hb, rfl, hstmt, -⟩ := Proc.step_next_refresh ha hpc
      obtain ⟨row, t, rfl, hrot⟩ | hbefore := RefreshPc.step_spent hb hspent
      · obtain ⟨r, hr, hid, hhash⟩ := h.held d raw _ row hp rfl
        rw [World.after_db, hstmt, hrot]
        obtain ⟨r', hr', hhash', hrev⟩ := rotateOut_revokes (t := t) hr hid
        exact ⟨r', hr', hhash'.trans hhash, hrev⟩
      · exact Claimed.rows_forward hev (h.spent d raw _ hp hbefore)
    · rw [World.after_calls_of_ne hdc] at hpc
      exact Claimed.rows_forward hev (h.spent d raw pc hpc hspent)
  · -- unique: a new claim comes from a `SELECT`, and that finds the token unclaimed
    intro raw d e hd he
    obtain hd' | ⟨hdc, hstart, row, hrow⟩ := Claims.back ha hd
    · obtain he' | ⟨-, hstart, row, hrow⟩ := Claims.back ha he
      · exact h.unique raw d e hd' he'
      · exact absurd hd' (h.unclaimed hrow (hG raw row hstart hrow) d)
    · obtain he' | ⟨hec, -, -⟩ := Claims.back ha he
      · exact absurd he' (h.unclaimed hrow (hG raw row hstart hrow) e)
      · rw [hdc, hec]

/-- **Run lemma.** -/
theorem Claimed.of_run {w₀ w : World} {ls : List Label} (h₀ : w₀.Initial)
    (hG : (machine cfg).Meets NoOverlap w₀ ls) (hrun : (machine cfg).exec w₀ ls = some w) :
    Claimed w :=
  Machine.inv_of_exec (fun _ _ _ h hG hstep => h.step hG hstep) (Claimed.of_initial h₀) hG hrun

theorem Claims.of_returned {w : World} {raw : String} {c : ℕ}
    (h : (w.calls c).returned = some raw) : Claims w raw c := by
  unfold Proc.returned at h
  split at h
  · rename_i hc
    obtain rfl := Option.some.inj h
    exact ⟨_, hc, Or.inr rfl⟩
  · rename_i hc
    obtain rfl := Option.some.inj h
    exact ⟨_, hc, Or.inr rfl⟩
  · exact absurd h (by simp)

/-- **Refresh tokens are single-use in every run without overlapping rotations.**  Whatever
    requests run, in whatever interleaving of their statements, at most one of the calls
    that present a token returns a non-null result. -/
theorem rotateRefreshToken_single_use {w₀ w : World} {ls : List Label} (h₀ : w₀.Initial)
    (hG : (machine cfg).Meets NoOverlap w₀ ls) (hrun : (machine cfg).exec w₀ ls = some w)
    (raw : String) (c d : ℕ) (hc : (w.calls c).returned = some raw)
    (hd : (w.calls d).returned = some raw) : c = d :=
  (Claimed.of_run h₀ hG hrun).unique raw c d (Claims.of_returned hc) (Claims.of_returned hd)

/-- The run `SELECT`, `UPDATE`, `INSERT` of one call, then a second call with the same
    token: the first alone returns. -/
theorem rotateRefreshToken_single_use_sequential :
    ∃ w, (machine Sample.config).exec (Sample.world Sample.db fun _ => .refresh "t0" .start)
        [.run 0 {}, .run 0 {}, .run 0 { id := "s1", raw := "t1" }, .run 1 {}] = some w ∧
      (w.calls 0).returned = some "t0" ∧
      ∀ d, (w.calls d).returned = some "t0" → d = 0 := by
  have hinit : (Sample.world Sample.db fun _ => .refresh "t0" .start).Initial :=
    ⟨Sample.db_wf, fun _ => rfl, rfl⟩
  have hG : (machine Sample.config).Meets NoOverlap
      (Sample.world Sample.db fun _ => .refresh "t0" .start)
      [.run 0 {}, .run 0 {}, .run 0 { id := "s1", raw := "t1" }, .run 1 {}] := by
    refine ⟨?_, fun w₁ h₁ => ⟨?_, fun w₂ h₂ => ⟨?_, fun w₃ h₃ => ⟨?_, fun _ _ => trivial⟩⟩⟩⟩
    · -- nobody has read anything yet
      intro raw row _ _ d raw' pc row' hd hheld
      obtain ⟨-, rfl⟩ := Proc.refresh.inj hd
      exact absurd hheld (by simp [RefreshPc.held])
    · obtain rfl := Option.some.inj h₁
      intro raw row hstart
      exact absurd (Proc.refresh.inj hstart).2 (by decide)
    · obtain rfl := Option.some.inj h₁
      obtain rfl := Option.some.inj h₂
      intro raw row hstart
      exact absurd (Proc.refresh.inj hstart).2 (by decide)
    · -- the second `SELECT` finds the row revoked
      obtain rfl := Option.some.inj h₁
      obtain rfl := Option.some.inj h₂
      obtain rfl := Option.some.inj h₃
      intro raw row hstart hrow
      obtain ⟨rfl, -⟩ := Proc.refresh.inj hstart
      exact absurd (show none = some row from hrow) (by simp)
  obtain ⟨w, hrun, hret⟩ : ∃ w, (machine Sample.config).exec
      (Sample.world Sample.db fun _ => .refresh "t0" .start)
      [.run 0 {}, .run 0 {}, .run 0 { id := "s1", raw := "t1" }, .run 1 {}] = some w ∧
      (w.calls 0).returned = some "t0" := ⟨_, rfl, rfl⟩
  exact ⟨w, hrun, hret, fun d hd => rotateRefreshToken_single_use hinit hG hrun "t0" d 0 hd hret⟩

/-- **Two overlapping calls both succeed.**  Both run their `SELECT` first; neither `UPDATE`
    notices the other. -/
theorem rotateRefreshToken_used_twice :
    ¬ ∀ (cfg : Config) (w₀ w : World) (ls : List Label), w₀.Initial →
      (machine cfg).exec w₀ ls = some w → ∀ raw c d, (w.calls c).returned = some raw →
      (w.calls d).returned = some raw → c = d := by
  intro h
  have hinit : (Sample.world Sample.db fun _ => .refresh "t0" .start).Initial :=
    ⟨Sample.db_wf, fun _ => rfl, rfl⟩
  have h01 : 0 = 1 := h Sample.config _ _
    [.run 0 {}, .run 1 {}, .run 0 {}, .run 0 { id := "s1", raw := "t1" }, .run 1 {},
      .run 1 { id := "s2", raw := "t2" }] hinit rfl "t0" 0 1 rfl rfl
  exact absurd h01 (by decide)

end Argus.Auth
