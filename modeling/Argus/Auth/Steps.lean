import Argus.Auth.Requests

namespace Argus.Auth

/-!
# What a statement and a step can do

Everything the invariants need to know about the twelve request kinds, said once:

* `MasterDb.Evolves` — how any sequence of statements may change the database: rows of
  `refresh_tokens` keep their identity and never come back from revocation, new rows are
  appended, users keep their names and their token version never falls (`exec_evolves`).
* `MasterDb.WF` — the keys are distinct; a statement keeps that unless it inserts a used
  key, and requests insert unused ones only (`action_wf`).
* `Stmt.IssuedBy` — which request issues a statement and where it stands; every invariant
  that some column or row is left alone is read off it (`Proc.step_issues`).
* `step_cases` — a step of `machine` is a statement of one request or a tick.
* `step_next_*` — a request that stands at some point of a handler after a step stood at
  the point before.
-/

/-! ### How rows may change -/

/-- A later version of a token row: same identity, and a revocation stays. -/
structure RefreshToken.Le (r r' : RefreshToken) : Prop where
  id : r'.id = r.id
  userId : r'.userId = r.userId
  tokenHash : r'.tokenHash = r.tokenHash
  expiresAt : r'.expiresAt = r.expiresAt
  revoked : r.revokedAt.isSome → r'.revokedAt.isSome

theorem RefreshToken.Le.refl (r : RefreshToken) : r.Le r := ⟨rfl, rfl, rfl, rfl, fun h => h⟩

theorem RefreshToken.Le.trans {a b c : RefreshToken} (h : a.Le b) (h' : b.Le c) : a.Le c :=
  ⟨h'.id.trans h.id, h'.userId.trans h.userId, h'.tokenHash.trans h.tokenHash,
    h'.expiresAt.trans h.expiresAt, fun ha => h'.revoked (h.revoked ha)⟩

/-- A revoked or expired row is not live, and no later version of it is. -/
theorem RefreshToken.Le.not_live {r r' : RefreshToken} (h : r.Le r') {now now' : ℕ}
    (hnow : now ≤ now') (hdead : r.live now = false) : r'.live now' = false := by
  have hexp := h.expiresAt
  simp only [RefreshToken.live, Bool.and_eq_false_iff, decide_eq_false_iff_not, not_lt,
    Option.isNone_eq_false_iff] at hdead ⊢
  rcases hdead with hrev | hle
  · exact Or.inl (h.revoked hrev)
  · right
    omega

/-- A later version of a user row: same identity, and no older token version. -/
structure User.Le (u u' : User) : Prop where
  id : u'.id = u.id
  username : u'.username = u.username
  tokenVersion : u.tokenVersion ≤ u'.tokenVersion

theorem User.Le.refl (u : User) : u.Le u := ⟨rfl, rfl, le_refl _⟩

theorem User.Le.trans {a b c : User} (h : a.Le b) (h' : b.Le c) : a.Le c :=
  ⟨h'.id.trans h.id, h'.username.trans h.username, h.tokenVersion.trans h'.tokenVersion⟩

/-- How a database may have changed after any number of statements. -/
structure MasterDb.Evolves (db db' : MasterDb) : Prop where
  tokens : ∃ f new, db'.refreshTokens = db.refreshTokens.map f ++ new ∧
    ∀ r : RefreshToken, r.Le (f r)
  users : ∃ g, db'.users = db.users.map g ∧ ∀ u : User, u.Le (g u)

namespace MasterDb.Evolves

theorem refl (db : MasterDb) : db.Evolves db :=
  ⟨⟨id, [], by simp, RefreshToken.Le.refl⟩, ⟨id, by simp, User.Le.refl⟩⟩

theorem trans {a b c : MasterDb} (h : a.Evolves b) (h' : b.Evolves c) : a.Evolves c := by
  obtain ⟨⟨f, new, hf, hfle⟩, ⟨g, hg, hgle⟩⟩ := h
  obtain ⟨⟨f', new', hf', hfle'⟩, ⟨g', hg', hgle'⟩⟩ := h'
  refine ⟨⟨f' ∘ f, new.map f' ++ new', ?_, fun r => (hfle r).trans (hfle' (f r))⟩,
    ⟨g' ∘ g, ?_, fun u => (hgle u).trans (hgle' (g u))⟩⟩
  · rw [hf', hf, List.map_append, List.map_map, List.append_assoc]
  · rw [hg', hg, List.map_map]

/-- Every row is still there, in a later version. -/
theorem token {db db' : MasterDb} (h : db.Evolves db') {r : RefreshToken}
    (hr : r ∈ db.refreshTokens) : ∃ r' ∈ db'.refreshTokens, r.Le r' := by
  obtain ⟨⟨f, new, hf, hle⟩, -⟩ := h
  refine ⟨f r, ?_, hle r⟩
  rw [hf]
  exact List.mem_append_left _ (List.mem_map_of_mem hr)

/-- A user's row is still found, in a later version. -/
theorem getUser {db db' : MasterDb} (h : db.Evolves db') (id : String) :
    (db.getUser id = none ∧ db'.getUser id = none) ∨
      ∃ u u', db.getUser id = some u ∧ db'.getUser id = some u' ∧ u.Le u' := by
  obtain ⟨-, ⟨g, hg, hle⟩⟩ := h
  -- the later table is an update of this one that matches every row
  have hfind : db'.getUser id = (db.getUser id).map g := by
    have hu : Table.lookup User.id id (Table.update (fun _ => true) g db.users)
        = (Table.lookup User.id id db.users).map (fun u => if true then g u else u) :=
      Table.lookup_update (fun u => (hle u).id) id db.users
    simpa [MasterDb.getUser, Table.update, hg] using hu
  cases hu : db.getUser id with
  | none => exact Or.inl ⟨rfl, by rw [hfind, hu]; rfl⟩
  | some u => exact Or.inr ⟨u, g u, rfl, by rw [hfind, hu]; rfl, hle u⟩

end MasterDb.Evolves

/-! ### What a statement does -/

/-- The `SET` clauses on users keep a row's identity and never lower its token version. -/
theorem Stmt.onUser_le {stmt : Stmt} {id : String} {set : User → User}
    (h : stmt.onUser = some (id, set)) (u : User) : u.Le (set u) := by
  cases stmt <;> simp only [Stmt.onUser, Option.some.injEq, Prod.mk.injEq, reduceCtorEq] at h
  all_goals obtain ⟨-, rfl⟩ := h
  case patchUser => exact ⟨rfl, rfl, le_refl _⟩
  case bumpTokenVersion => exact ⟨rfl, rfl, Nat.le_succ _⟩
  all_goals exact ⟨rfl, rfl, le_refl _⟩

/-- The `SET` clause of a revocation. -/
theorem RefreshToken.le_revoke (t : ℕ) (used : Bool) (r : RefreshToken) : r.Le (r.revoke t used) :=
  ⟨rfl, rfl, rfl, rfl, fun _ => rfl⟩

theorem Stmt.exec_users (stmt : Stmt) (db : MasterDb) :
    ∃ g, (stmt.exec db).users = db.users.map g ∧ ∀ u : User, u.Le (g u) := by
  cases h : stmt.onUser with
  | none => exact ⟨id, by simp [Stmt.exec, h], User.Le.refl⟩
  | some p =>
    refine ⟨fun u => if decide (u.id = p.1) then p.2 u else u, by simp [Stmt.exec, h, Table.update],
      fun u => ?_⟩
    show u.Le (if decide (u.id = p.1) then p.2 u else u)
    split
    · exact Stmt.onUser_le h u
    · exact User.Le.refl u

/-- What a statement does to the row of one user. -/
def Stmt.set (stmt : Stmt) (id : String) (u : User) : User :=
  match stmt.onUser with
  | some (id', f) => if id' = id then f u else u
  | none => u

/-- **A user's row after a statement.** -/
theorem Stmt.exec_getUser (stmt : Stmt) (db : MasterDb) (id : String) :
    (stmt.exec db).getUser id = (db.getUser id).map (stmt.set id) := by
  unfold MasterDb.getUser
  cases h : stmt.onUser with
  | none =>
    have hset : stmt.set id = fun u => u := funext fun u => by simp [Stmt.set, h]
    simp [Stmt.exec, h, hset]
  | some p =>
    have hrow : (stmt.exec db).users
        = Table.update (fun u => decide (u.id = p.1)) p.2 db.users := by
      simp [Stmt.exec, h]
    rw [hrow, Table.lookup_update (fun u => (Stmt.onUser_le h u).id)]
    refine Option.map_congr (fun u hu => ?_)
    have hid : u.id = id := (Table.lookup_some hu).2
    by_cases hp : p.1 = id
    · simp [Stmt.set, h, hp, hid]
    · have hne : u.id ≠ p.1 := fun heq => hp (heq.symm.trans hid)
      simp [Stmt.set, h, hp, hne]

/-- What a revoking or user statement does to the token table. -/
theorem Stmt.exec_tokens_of_ne {stmt : Stmt} (hne : ∀ row, stmt ≠ .insertToken row)
    (db : MasterDb) :
    (stmt.exec db).refreshTokens = match stmt.onTokens with
      | some (hit, t, used) => Table.update hit (RefreshToken.revoke t used) db.refreshTokens
      | none => db.refreshTokens := by
  cases stmt
  case insertToken row => exact absurd rfl (hne row)
  all_goals rfl

@[simp] theorem Stmt.exec_select (db : MasterDb) : Stmt.select.exec db = db := rfl

theorem Stmt.exec_insertToken (row : RefreshToken) (db : MasterDb) :
    ((Stmt.insertToken row).exec db).refreshTokens = db.refreshTokens ++ [row] := rfl

/-- Unless it inserts, a statement replaces each token row by a later version. -/
theorem Stmt.exec_tokens {stmt : Stmt} (hne : ∀ row, stmt ≠ .insertToken row) (db : MasterDb) :
    ∃ f, (stmt.exec db).refreshTokens = db.refreshTokens.map f ∧
      ∀ r : RefreshToken, r.Le (f r) := by
  rw [Stmt.exec_tokens_of_ne hne]
  cases stmt.onTokens with
  | none => exact ⟨id, by simp, RefreshToken.Le.refl⟩
  | some p =>
    refine ⟨fun r => if p.1 r then r.revoke p.2.1 p.2.2 else r, rfl, fun r => ?_⟩
    show r.Le (if p.1 r then r.revoke p.2.1 p.2.2 else r)
    split
    · exact RefreshToken.le_revoke _ _ r
    · exact RefreshToken.Le.refl r

/-- **A statement only moves the database forward.** -/
theorem Stmt.exec_evolves (stmt : Stmt) (db : MasterDb) : db.Evolves (stmt.exec db) := by
  refine ⟨?_, stmt.exec_users db⟩
  by_cases hins : ∃ row, stmt = .insertToken row
  · obtain ⟨row, rfl⟩ := hins
    exact ⟨id, [row], by simp [Stmt.exec_insertToken], RefreshToken.Le.refl⟩
  · have hne : ∀ row, stmt ≠ .insertToken row := fun row h => hins ⟨row, h⟩
    obtain ⟨f, hf, hle⟩ := Stmt.exec_tokens hne db
    exact ⟨f, [], by simp [hf], hle⟩

/-! ### Distinct keys -/

/-- The keys of both tables are distinct (`token_hash` because tokens are random). -/
structure MasterDb.WF (db : MasterDb) : Prop where
  tokenIds : (db.refreshTokens.map RefreshToken.id).Nodup
  tokenHashes : (db.refreshTokens.map RefreshToken.tokenHash).Nodup
  userIds : (db.users.map User.id).Nodup
  usernames : (db.users.map User.username).Nodup

/-- Two rows of a well-formed table with one hash are the same row. -/
theorem MasterDb.WF.eq_of_hash {db : MasterDb} (h : db.WF) {r r' : RefreshToken}
    (hr : r ∈ db.refreshTokens) (hr' : r' ∈ db.refreshTokens)
    (heq : r.tokenHash = r'.tokenHash) : r = r' :=
  List.inj_on_of_nodup_map h.tokenHashes hr hr' heq

/-- Two rows of a well-formed table with one id are the same row. -/
theorem MasterDb.WF.eq_of_id {db : MasterDb} (h : db.WF) {r r' : RefreshToken}
    (hr : r ∈ db.refreshTokens) (hr' : r' ∈ db.refreshTokens) (heq : r.id = r'.id) : r = r' :=
  List.inj_on_of_nodup_map h.tokenIds hr hr' heq

/-- A statement keeps the keys distinct if the row it inserts has unused keys. -/
theorem Stmt.exec_wf {stmt : Stmt} {db : MasterDb} (h : db.WF)
    (hins : ∀ row, stmt = .insertToken row →
      ∀ r ∈ db.refreshTokens, r.id ≠ row.id ∧ r.tokenHash ≠ row.tokenHash) :
    (stmt.exec db).WF := by
  -- no `UPDATE` touches a key column, so only an insert needs the hypothesis
  obtain ⟨g, hg, hgle⟩ := stmt.exec_users db
  have huid : ((stmt.exec db).users.map User.id).Nodup := by
    rw [hg, Table.map_map_keep (fun u => (hgle u).id)]
    exact h.userIds
  have hname : ((stmt.exec db).users.map User.username).Nodup := by
    rw [hg, Table.map_map_keep (fun u => (hgle u).username)]
    exact h.usernames
  by_cases hex : ∃ row, stmt = .insertToken row
  · obtain ⟨row, rfl⟩ := hex
    have hnew := hins row rfl
    exact ⟨Table.nodup_append_singleton h.tokenIds (fun r hr => (hnew r hr).1),
      Table.nodup_append_singleton h.tokenHashes (fun r hr => (hnew r hr).2), huid, hname⟩
  · obtain ⟨f, hf, hle⟩ := Stmt.exec_tokens (fun row hrow => hex ⟨row, hrow⟩) db
    refine ⟨?_, ?_, huid, hname⟩
    · rw [hf, Table.map_map_keep (fun r => (hle r).id)]
      exact h.tokenIds
    · rw [hf, Table.map_map_keep (fun r => (hle r).tokenHash)]
      exact h.tokenHashes

/-! ### What a step of a request does -/

/-- An unused id and an unused token belong to no stored row. -/
theorem Fresh.unused_ne {fresh : Fresh} {db : MasterDb} (h : fresh.unused db = true)
    {r : RefreshToken} (hr : r ∈ db.refreshTokens) :
    r.id ≠ fresh.id ∧ r.tokenHash ≠ sha256 fresh.raw := by
  unfold Fresh.unused at h
  rw [Bool.and_eq_true] at h
  have hr' := List.all_eq_true.mp h.2 r hr
  rw [Bool.and_eq_true, decide_eq_true_eq, decide_eq_true_eq] at hr'
  exact hr'

theorem Fresh.unused_raw {fresh : Fresh} {db : MasterDb} (h : fresh.unused db = true) :
    fresh.raw ≠ "" := by
  unfold Fresh.unused at h
  rw [Bool.and_eq_true] at h
  exact of_decide_eq_true h.1

/-- Only a login and a refresh insert, and what they insert has unused keys and is not
    revoked. -/
theorem Proc.step_insert {cfg : Config} {now : ℕ} {fresh : Fresh} {db : MasterDb} {p : Proc}
    {a : Action Proc} {row : RefreshToken} (h : p.step cfg now fresh db = some a)
    (hrow : a.stmt = .insertToken row) :
    fresh.unused db = true ∧ row.id = fresh.id ∧ row.tokenHash = sha256 fresh.raw ∧
      row.revokedAt = none := by
  cases p <;> simp only [Proc.step, Option.map_eq_some_iff] at h <;>
    obtain ⟨b, hb, rfl⟩ := h <;> simp only [Action.map] at hrow
  -- of each handler's branches only `issuing` and `revoked` survive `hrow`
  case login req pc =>
    cases pc <;> simp only [LoginPc.step] at hb <;> try split at hb
    all_goals simp only [Option.some.injEq, reduceCtorEq] at hb
    all_goals subst hb
    all_goals try simp only [recordFailure] at hrow
    all_goals try split at hrow
    all_goals simp only [Stmt.insertToken.injEq, reduceCtorEq] at hrow
    all_goals subst hrow
    exact ⟨‹_›, rfl, rfl, rfl⟩
  case refresh raw pc =>
    cases pc <;> simp only [RefreshPc.step] at hb <;> try split at hb
    all_goals simp only [Option.some.injEq, reduceCtorEq] at hb
    all_goals subst hb
    all_goals simp only [Stmt.insertToken.injEq, reduceCtorEq] at hrow
    all_goals subst hrow
    exact ⟨‹_›, rfl, rfl, rfl⟩
  all_goals
    rename_i pc
    cases pc <;> simp only [LogoutPc.step, TerminatePc.step, TerminateAllPc.step, PasswordPc.step,
      UpdateUserPc.step, ResetPc.step, UnlockPc.step, SetupPc.step, EnablePc.step,
      DisablePc.step] at hb <;> try split at hb
  all_goals simp only [Option.some.injEq, reduceCtorEq] at hb
  all_goals subst hb
  all_goals try split at hrow
  all_goals simp only [reduceCtorEq] at hrow

/-- **Which request issues a statement, and where it stands.**  Statements that only read may
    come from anywhere. -/
def Stmt.IssuedBy (now : ℕ) (p : Proc) : Stmt → Prop
  | .select => True
  | .insertToken _ => (∃ req user used, p = .login req (.issuing user used)) ∨
      ∃ raw row, p = .refresh raw (.revoked row)
  | .rotateOut id t => ∃ raw row, p = .refresh raw (.selected row t) ∧ row.id = id
  | .revokeRefreshToken hash t => ∃ raw, p = .logout raw .revoking ∧ sha256 raw = hash ∧ t = now
  | .terminateSession id t => p = .terminateSession id .updating ∧ t = now
  | .terminateAllForUser id _ t => (p = .terminateAll id .start ∨
      ∃ req, p = .changePassword req .terminating ∧ req.userId = id) ∧ t = now
  | .terminateOtherSessions id _ t =>
      ∃ req, p = .changePassword req .terminating ∧ req.userId = id ∧ t = now
  | .bumpTokenVersion id => p = .terminateAll id .bumping ∨ p = .reset2fa id .bumping ∨
      ∃ req, p = .changePassword req .bumping ∧ req.userId = id
  | .lockAccount id t => ∃ req user policy, p = .login req (.counting user policy) ∧
      user.id = id ∧ policy.maxAttempts ≤ (user.failedLoginCount + 1 : ℕ) ∧
      t = now + policy.windowMs
  | .countFailure id n => ∃ req user policy, p = .login req (.counting user policy) ∧
      user.id = id ∧ ¬ policy.maxAttempts ≤ (user.failedLoginCount + 1 : ℕ) ∧
      n = user.failedLoginCount + 1
  | .recordSuccess id => (∃ req user used, p = .login req (.clearing user used) ∧ user.id = id) ∨
      (∃ req, p = .changePassword req .clearing ∧ req.userId = id) ∨
      p = .reset2fa id .clearing ∨ p = .unlock id .clearing
  | .markLoggedIn id _ => ∃ req user used, p = .login req (.stamping user used) ∧ user.id = id
  | .setPassword id _ => ∃ req, p = .changePassword req .writing ∧ req.userId = id
  | .patchUser id _ => ∃ req, p = .updateUser req .updating ∧ req.id = id
  | .beginSetup id _ => ∃ caller key, p = .setup2fa caller (.updating key) ∧ caller.sub = id
  | .enableTotp id _ => ∃ caller code, p = .enable2fa caller code .updating ∧ caller.sub = id
  | .setRecovery id rest => (∃ req user, p = .login req (.consuming user rest) ∧ user.id = id) ∨
      ∃ caller code user, p = .disable2fa caller code (.consuming user rest) ∧ user.id = id
  | .disableTotp id => p = .reset2fa id .resetting ∨
      ∃ caller code user used, p = .disable2fa caller code (.disabling user used) ∧ caller.sub = id

/-- Every statement is issued where `IssuedBy` says. -/
theorem Proc.step_issues {cfg : Config} {now : ℕ} {fresh : Fresh} {db : MasterDb} {p : Proc}
    {a : Action Proc} (h : p.step cfg now fresh db = some a) : a.stmt.IssuedBy now p := by
  cases p <;> simp only [Proc.step, Option.map_eq_some_iff] at h <;>
    obtain ⟨b, hb, rfl⟩ := h <;> rename_i pc <;> simp only [Action.map]
  case login req =>
    cases pc <;> simp only [LoginPc.step] at hb
    -- the one branch whose statement depends on a test
    case counting user policy =>
      obtain rfl := Option.some.inj hb
      simp only [recordFailure]
      split
      · rename_i hmax
        exact ⟨req, user, policy, rfl, rfl, by exact_mod_cast hmax, rfl⟩
      · rename_i hmax
        exact ⟨req, user, policy, rfl, rfl, by exact_mod_cast hmax, rfl⟩
    all_goals try split at hb
    all_goals simp only [Option.some.injEq, reduceCtorEq] at hb
    all_goals subst hb
    all_goals simp [Stmt.IssuedBy]
  case changePassword req =>
    cases pc <;> simp only [PasswordPc.step] at hb <;> try split at hb
    all_goals simp only [Option.some.injEq, reduceCtorEq] at hb
    all_goals subst hb
    all_goals simp [Stmt.IssuedBy]
  all_goals
    cases pc <;> simp only [RefreshPc.step, LogoutPc.step, TerminatePc.step, TerminateAllPc.step,
      UpdateUserPc.step, ResetPc.step, UnlockPc.step, SetupPc.step, EnablePc.step,
      DisablePc.step] at hb <;> try split at hb
  all_goals simp only [Option.some.injEq, reduceCtorEq] at hb
  all_goals subst hb
  all_goals simp [Stmt.IssuedBy]

/-- A request at some point of the refresh handler got there by a step of that handler. -/
theorem Proc.step_next_refresh {cfg : Config} {now : ℕ} {fresh : Fresh} {db : MasterDb}
    {p : Proc} {a : Action Proc} {raw : String} {pc : RefreshPc}
    (h : p.step cfg now fresh db = some a) (hnext : a.next = .refresh raw pc) :
    ∃ pc₀ b, p = .refresh raw pc₀ ∧ pc₀.step cfg now fresh db raw = some b ∧
      b.next = pc ∧ a.stmt = b.stmt ∧ a.signed = b.signed := by
  cases p <;> simp only [Proc.step, Option.map_eq_some_iff] at h <;>
    obtain ⟨b, hb, rfl⟩ := h <;>
    simp only [Action.map, Proc.refresh.injEq, reduceCtorEq] at hnext
  obtain ⟨rfl, hpc⟩ := hnext
  exact ⟨_, b, rfl, hb, hpc, rfl, rfl⟩

/-- **Inversion of the refresh handler**: each statement, with what it was decided on. -/
theorem RefreshPc.step_cases {cfg : Config} {now : ℕ} {fresh : Fresh} {db : MasterDb}
    {raw : String} {pc : RefreshPc} {b : Action RefreshPc}
    (h : pc.step cfg now fresh db raw = some b) :
    (pc = .start ∧ b.stmt = .select ∧ b.signed = none ∧
      (b.next = .done .invalidRequest ∨ b.next = .done .invalidToken ∨
        ∃ row, db.liveTokenByHash (sha256 raw) now = some row ∧ b.next = .selected row now)) ∨
    (∃ row t, pc = .selected row t ∧
      b = { stmt := .rotateOut row.id t, next := .revoked row }) ∨
    (∃ row, pc = .revoked row ∧ fresh.unused db = true ∧
      b = { stmt := .insertToken
              (newToken row.userId cfg.refreshTtlSec now fresh row.userAgent row.ip)
            next := .rotated row.userId fresh.raw fresh.id }) ∨
    (∃ userId token sid claims, pc = .rotated userId token sid ∧
      claims = ⟨userId, some sid, some ((db.getTokenVersion userId).getD 0)⟩ ∧
      b = { stmt := .select, next := .done (.ok claims token), signed := some claims }) := by
  cases pc with
  | start =>
    left
    simp only [RefreshPc.step] at h
    split at h
    · obtain rfl := Option.some.inj h
      exact ⟨rfl, rfl, rfl, Or.inl rfl⟩
    · obtain rfl := Option.some.inj h
      refine ⟨rfl, rfl, rfl, Or.inr ?_⟩
      cases hrow : db.liveTokenByHash (sha256 raw) now with
      | none => exact Or.inl rfl
      | some row => exact Or.inr ⟨row, rfl, rfl⟩
  | selected row t =>
    obtain rfl := Option.some.inj h
    exact Or.inr (Or.inl ⟨row, t, rfl, rfl⟩)
  | revoked row =>
    simp only [RefreshPc.step] at h
    split at h
    · rename_i hunused
      obtain rfl := Option.some.inj h
      exact Or.inr (Or.inr (Or.inl ⟨row, rfl, hunused, rfl⟩))
    · exact absurd h (by simp)
  | rotated userId token sid =>
    obtain rfl := Option.some.inj h
    exact Or.inr (Or.inr (Or.inr ⟨userId, token, sid, _, rfl, rfl, rfl⟩))
  | done reply => exact absurd h (by simp [RefreshPc.step])

/-- The row the `SELECT` of `rotateRefreshToken` finds is stored, has the hash and is live. -/
theorem MasterDb.liveTokenByHash_some {db : MasterDb} {hash : Digest} {now : ℕ}
    {row : RefreshToken} (h : db.liveTokenByHash hash now = some row) :
    row ∈ db.refreshTokens ∧ row.tokenHash = hash ∧ row.live now = true := by
  have hp := List.find?_some h
  rw [Bool.and_eq_true, decide_eq_true_eq] at hp
  exact ⟨List.mem_of_find?_eq_some h, hp⟩

/-- The row a login works with, from its `SELECT` to its last statement. -/
def LoginPc.user : LoginPc → Option User
  | .failing user => some user
  | .counting user _ => some user
  | .consuming user _ => some user
  | .clearing user _ => some user
  | .stamping user _ => some user
  | .issuing user _ => some user
  | _ => none

/-- A login works with the row its `SELECT` returned. -/
theorem afterFindLocalUser_user {core : Core} {now : ℕ} {req : LoginReq} {found : Option User}
    {u : User} (h : (afterFindLocalUser core now req found).user = some u) : found = some u := by
  unfold afterFindLocalUser at h
  -- the branches that reply at once keep no row
  split at h
  · exact absurd h (by simp [LoginPc.user])
  · split at h
    · exact absurd h (by simp [LoginPc.user])
    · split at h
      · exact h
      · split at h
        · split at h
          · exact absurd h (by simp [LoginPc.user])
          · split at h <;> first | exact h | exact absurd h (by simp [LoginPc.user])
        · exact h

/-- The row `findLocalUser` returns is the stored row of its user. -/
theorem MasterDb.findLocalUser_some {db : MasterDb} (hwf : db.WF) {username : String} {u : User}
    (h : db.findLocalUser username = some u) :
    db.getUser u.id = some u ∧ u.username = username := by
  unfold MasterDb.findLocalUser at h
  split at h
  · exact absurd h (by simp)
  · rename_i user hlook
    split at h
    · exact absurd h (by simp)
    · obtain rfl := Option.some.inj h
      obtain ⟨hmem, hname⟩ := Table.lookup_some hlook
      exact ⟨Table.lookup_of_mem hwf.userIds hmem, hname⟩

/-- A login that works with a row after a step worked with it before, or has just read it. -/
theorem Proc.step_next_login {cfg : Config} {now : ℕ} {fresh : Fresh} {db : MasterDb}
    {p : Proc} {a : Action Proc} {req : LoginReq} {pc : LoginPc} {u : User}
    (h : p.step cfg now fresh db = some a) (hnext : a.next = .login req pc)
    (hu : pc.user = some u) :
    (∃ pc₀, p = .login req pc₀ ∧ pc₀.user = some u) ∨
      (p = .login req .start ∧ db.findLocalUser req.username = some u) := by
  cases p <;> simp only [Proc.step, Option.map_eq_some_iff] at h <;>
    obtain ⟨b, hb, rfl⟩ := h <;>
    simp only [Action.map, Proc.login.injEq, reduceCtorEq] at hnext
  obtain ⟨rfl, rfl⟩ := hnext
  rename_i pc₀
  cases pc₀ <;> simp only [LoginPc.step] at hb
  case start =>
    right
    split at hb
    · obtain rfl := Option.some.inj hb
      exact absurd hu (by simp [LoginPc.user])
    · obtain rfl := Option.some.inj hb
      exact ⟨rfl, afterFindLocalUser_user hu⟩
  case issuing user used =>
    split at hb
    · obtain rfl := Option.some.inj hb
      exact absurd hu (by simp [LoginPc.user])
    · exact absurd hb (by simp)
  case done reply => exact absurd hb (by simp)
  all_goals
    obtain rfl := Option.some.inj hb
    first
    | exact Or.inl ⟨_, rfl, hu⟩
    | exact absurd hu (by simp [LoginPc.user])

/-- A password change past its first statement got there by a step of that handler. -/
theorem Proc.step_next_changePassword {cfg : Config} {now : ℕ} {fresh : Fresh} {db : MasterDb}
    {p : Proc} {a : Action Proc} {req : PasswordReq} {pc : PasswordPc}
    (h : p.step cfg now fresh db = some a) (hnext : a.next = .changePassword req pc) :
    ∃ pc₀ b, p = .changePassword req pc₀ ∧ pc₀.step cfg now fresh db req = some b ∧
      b.next = pc ∧ a.stmt = b.stmt ∧ a.signed = b.signed := by
  cases p <;> simp only [Proc.step, Option.map_eq_some_iff] at h <;>
    obtain ⟨b, hb, rfl⟩ := h <;>
    simp only [Action.map, Proc.changePassword.injEq, reduceCtorEq] at hnext
  obtain ⟨rfl, hpc⟩ := hnext
  exact ⟨_, b, rfl, hb, hpc, rfl, rfl⟩

/-- **Where access tokens come from**: the end of a login, of a refresh, or of a password
    change. -/
theorem Proc.step_signed {cfg : Config} {now : ℕ} {fresh : Fresh} {db : MasterDb} {p : Proc}
    {a : Action Proc} {claims : AccessClaims} (h : p.step cfg now fresh db = some a)
    (hs : a.signed = some claims) :
    (∃ req user used, p = .login req (.issuing user used) ∧ fresh.unused db = true ∧
      a.stmt = .insertToken
        (newToken user.id cfg.refreshTtlSec now fresh req.userAgent req.ip) ∧
      claims = ⟨user.id, some fresh.id, some user.tokenVersion⟩) ∨
    (∃ raw userId token sid, p = .refresh raw (.rotated userId token sid) ∧ a.stmt = .select ∧
      claims = ⟨userId, some sid, some ((db.getTokenVersion userId).getD 0)⟩) ∨
    (∃ req sid, p = .changePassword req (.versioning sid) ∧ a.stmt = .select ∧
      claims = ⟨req.userId, some sid, some ((db.getTokenVersion req.userId).getD 0)⟩) := by
  cases p <;> simp only [Proc.step, Option.map_eq_some_iff] at h <;>
    obtain ⟨b, hb, rfl⟩ := h <;> simp only [Action.map] at hs <;> rename_i pc
  -- three handlers sign, each in one branch
  case login req =>
    cases pc <;> simp only [LoginPc.step] at hb <;> try split at hb
    all_goals simp only [Option.some.injEq, reduceCtorEq] at hb
    all_goals subst hb
    all_goals simp only [Option.some.injEq, reduceCtorEq] at hs
    exact Or.inl ⟨req, _, _, rfl, ‹_›, rfl, hs.symm⟩
  case refresh raw =>
    cases pc <;> simp only [RefreshPc.step] at hb <;> try split at hb
    all_goals simp only [Option.some.injEq, reduceCtorEq] at hb
    all_goals subst hb
    all_goals simp only [Option.some.injEq, reduceCtorEq] at hs
    exact Or.inr (Or.inl ⟨raw, _, _, _, rfl, rfl, hs.symm⟩)
  case changePassword req =>
    cases pc <;> simp only [PasswordPc.step] at hb <;> try split at hb
    all_goals simp only [Option.some.injEq, reduceCtorEq] at hb
    all_goals subst hb
    all_goals simp only [Option.some.injEq, reduceCtorEq] at hs
    exact Or.inr (Or.inr ⟨req, _, rfl, rfl, hs.symm⟩)
  all_goals
    cases pc <;> simp only [LogoutPc.step, TerminatePc.step, TerminateAllPc.step,
      UpdateUserPc.step, ResetPc.step, UnlockPc.step, SetupPc.step, EnablePc.step,
      DisablePc.step] at hb <;> try split at hb
  all_goals simp only [Option.some.injEq, reduceCtorEq] at hb
  all_goals subst hb
  all_goals simp only [reduceCtorEq] at hs

/-! ### What a step of the machine does -/

variable {cfg : Config} {w w' : World} {l : Label}

/-- **Inversion.** A step of the machine is a statement of one request, or a tick. -/
theorem step_cases (h : (machine cfg).step w l = some w') :
    (∃ ms, l = .tick ms ∧ w' = { w with now := w.now + ms }) ∨
      ∃ c fresh a, l = .run c fresh ∧ w.action cfg c fresh = some a ∧ w' = w.after c a ∧
        w.admits c = true := by
  cases l with
  | tick ms => exact Or.inl ⟨ms, rfl, (Option.some.inj h).symm⟩
  | run c fresh =>
    simp only [machine] at h
    split at h
    · rename_i hallow
      obtain ⟨a, ha, rfl⟩ := Option.map_eq_some_iff.mp h
      exact Or.inr ⟨c, fresh, a, rfl, ha, rfl, hallow⟩
    · exact absurd h (by simp)

@[simp] theorem World.after_db (c : ℕ) (a : Action Proc) :
    (w.after c a).db = a.stmt.exec w.db := rfl

@[simp] theorem World.after_now (c : ℕ) (a : Action Proc) : (w.after c a).now = w.now := rfl

@[simp] theorem World.after_signed (c : ℕ) (a : Action Proc) :
    (w.after c a).signed = w.signed ++ a.signed.toList := rfl

@[simp] theorem World.after_calls_self (c : ℕ) (a : Action Proc) :
    (w.after c a).calls c = a.next := by
  simp [World.after]

@[simp] theorem World.after_calls_of_ne {c d : ℕ} (h : d ≠ c) (a : Action Proc) :
    (w.after c a).calls d = w.calls d := by
  simp [World.after, h]

/-- The statement of a request keeps the keys distinct. -/
theorem action_wf {c : ℕ} {fresh : Fresh} {a : Action Proc} (hwf : w.db.WF)
    (ha : w.action cfg c fresh = some a) : (w.after c a).db.WF := by
  refine Stmt.exec_wf hwf (fun row hrow r hr => ?_)
  obtain ⟨hunused, hid, hhash, -⟩ := Proc.step_insert ha hrow
  rw [hid, hhash]
  exact Fresh.unused_ne hunused hr

theorem step_wf (hwf : w.db.WF) (h : (machine cfg).step w l = some w') : w'.db.WF := by
  obtain ⟨ms, -, rfl⟩ | ⟨c, fresh, a, -, ha, rfl, -⟩ := step_cases h
  · exact hwf
  · exact action_wf hwf ha

theorem wf_of_run {ls : List Label} (hwf : w.db.WF) (h : (machine cfg).exec w ls = some w') :
    w'.db.WF :=
  Machine.inv_of_exec (G := fun _ _ => True) (I := fun w => w.db.WF)
    (fun _ _ _ hwf _ h => step_wf hwf h) hwf (Machine.Meets.always w ls) h

/-- **A step only moves the world forward**: the database evolves and time does not go
    back. -/
theorem step_evolves (h : (machine cfg).step w l = some w') :
    w.db.Evolves w'.db ∧ w.now ≤ w'.now := by
  obtain ⟨ms, -, rfl⟩ | ⟨c, fresh, a, -, ha, rfl, -⟩ := step_cases h
  · exact ⟨MasterDb.Evolves.refl _, Nat.le_add_right _ _⟩
  · exact ⟨a.stmt.exec_evolves w.db, le_refl _⟩

/-- A whole run moves the world forward. -/
theorem exec_forward {ls : List Label} (h : (machine cfg).exec w ls = some w') :
    w.db.Evolves w'.db ∧ w.now ≤ w'.now :=
  Machine.rel_of_exec (R := fun w w' => w.db.Evolves w'.db ∧ w.now ≤ w'.now)
    (fun w => ⟨MasterDb.Evolves.refl w.db, le_refl _⟩)
    (fun h h' => ⟨h.1.trans h'.1, h.2.trans h'.2⟩) (fun _ _ _ h => step_evolves h) h

/-- The state in which runs start: distinct keys, and no request has issued a statement. -/
structure World.Initial (w : World) : Prop where
  wf : w.db.WF
  idle : ∀ c, (w.calls c).atStart = true
  unsigned : w.signed = []

/-- Where runs start, every request is at its first statement. -/
theorem World.Initial.atStart {w : World} (h : w.Initial) {c : ℕ} {p : Proc}
    (hc : w.calls c = p) : p.atStart = true := by
  rw [← hc]
  exact h.idle c

/-! ### A small instance, for runs that are evaluated -/

namespace Sample

/-- Stand-ins for the cryptographic functions: a password verifies against its own hash, an
    envelope opens to the secret in it, the current code of a secret is its text. -/
def core : Core where
  verifyPassword password hash := decide (hash = "scrypt:" ++ password)
  hashPassword _ password := "scrypt:" ++ password
  masterKey := .ok "key"
  encryptSecret secret _ := "env:" ++ secret
  decryptSecret envelope _ := .ok ((envelope.drop 4).toString)
  verifyTotp secret code _ := .ok (decide (code = secret))
  trimLower code := code

def config : Config := ⟨core, 600⟩

def user : User := { id := "u", username := "ann", passwordHash := some "scrypt:pw" }

def token : RefreshToken :=
  { id := "s0", userId := "u", tokenHash := sha256 "t0", expiresAt := 1000 }

/-- One user, one live session. -/
def db : MasterDb where
  users := [user]
  refreshTokens := [token]

/-- The world in which request `c` is `calls c` and nothing has happened yet. -/
def world (db : MasterDb) (calls : ℕ → Proc) : World := ⟨db, 0, [], calls⟩

theorem db_wf : db.WF := ⟨by decide, by decide, by decide, by decide⟩

end Sample

end Argus.Auth
