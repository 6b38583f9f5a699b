import Argus.Access.Directory
import Argus.Auth.Steps

namespace Argus.Access

open Auth

/-!
# Federated sign-in

The authorization-code flow of `oidc.routes.ts`: a login at a provider leaves a random state
value in the table of pending logins, and a callback that brings it back signs in the account
of the subject the provider vouches for.  All providers share the table, and the account is
found under the user name `oidc:` followed by the subject.

* `findOrProvisionUser`, `startFlow`, `completeFlow` — the functions of the source; what the
  identity provider answers and what the server draws are part of the request.
* `federation` — logins, callbacks, local users being created and time passing, in any order.
* `Proper` — a callback whose subject and state value are the provider's own, and whose user
  name no local user has taken.
* `federated_account` — in a run of proper callbacks the account is the one of the pair of
  provider and subject, federated, and every state value is used once, in time, at the
  provider it was issued for.
-/

/-- An enabled provider: the one of the environment, or a row of `oidc_providers`. -/
inductive Provider
  | env
  | row (id : String)
deriving DecidableEq, Repr

/-- The answer of a `userinfo` endpoint. -/
structure UserInfo where
  sub : String
  email : Option String := none
  name : Option String := none
  preferredUsername : Option String := none
deriving DecidableEq, Repr

structure OidcProfile where
  sub : String
  email : Option String
  name : String
deriving DecidableEq, Repr

/-- The profile `exchangeCode` makes of the answer. -/
def UserInfo.profile (info : UserInfo) : OidcProfile where
  sub := info.sub
  email := info.email
  name := ((info.name.or info.preferredUsername).or info.email).getD info.sub

/-- The user name of a federated account. -/
def OidcProfile.username (profile : OidcProfile) : String := "oidc:" ++ profile.sub

/-- `findOrProvisionUser`; `id` is what the database draws for a new row, `none` an insert that
    fails on it. -/
def Directory.findOrProvisionUser (db : Directory) (id : String) (profile : OidcProfile) :
    Option (Directory × User) :=
  match Table.lookup User.username profile.username db.users with
  | some existing => some (db, existing)
  | none =>
    if db.users.any (fun u => decide (u.id = id)) then none
    else
      let created : User :=
        { id := id
          username := profile.username
          displayName := profile.name
          email := profile.email
          authProvider := .oidc }
      some ({ db with users := db.users ++ [created] }, created)

/-! ### The flow -/

structure PendingState where
  verifier : String
  expiresAt : ℕ
deriving DecidableEq, Repr

/-- `STATE_TTL_MS`. -/
def stateTtlMs : ℕ := 10 * 60 * 1000

/-- A state value as it was issued. -/
structure Issued where
  state : String
  provider : Provider
  issuedAt : ℕ
deriving DecidableEq, Repr

/-- A callback that signed somebody in. -/
structure Completion where
  provider : Provider
  sub : String
  state : String
  account : String
  completedAt : ℕ
deriving DecidableEq, Repr

/-- The server: the database, the clock and the table of pending logins; what was issued and
    completed so far is recorded beside it. -/
structure Federation where
  db : Directory
  now : ℕ
  pending : String → Option PendingState
  issued : List Issued
  completed : List Completion

/-- What a callback brings and meets: the query, the answer of the provider (`none` when the
    discovery or an exchange fails), and what the server draws. -/
structure Callback where
  provider : Provider
  code : Option String
  state : Option String
  info : Option UserInfo
  userId : String
  fresh : Fresh
  userAgent : Option String := none
  ip : Option String := none
deriving DecidableEq, Repr

inductive Visit
  /-- A login; the state value and the verifier are drawn at random. -/
  | login (provider : Provider) (state verifier : String)
  | callback (cb : Callback)
  /-- An administrator creates a local user. -/
  | createUser (id salt : String) (input : CreateUserInput)
  | tick (now : ℕ)
deriving DecidableEq, Repr

namespace Federation

variable (w : Federation)

/-- `startFlow`. -/
def startFlow (provider : Provider) (state verifier : String) : Federation :=
  { w with
    pending := Function.update w.pending state (some ⟨verifier, w.now + stateTtlMs⟩)
    issued := w.issued ++ [⟨state, provider, w.now⟩] }

/-- The state value a callback may use: it is pending and has not expired. -/
def validState (cb : Callback) : Option String :=
  match truthy cb.code, truthy cb.state with
  | some _, some state =>
    if (w.pending state).any (fun entry => decide (w.now ≤ entry.expiresAt)) then some state
    else none
  | _, _ => none

/-- `completeFlow` after the user is found: a disabled one is refused, else a session is opened. -/
def signIn (refreshTtlSec : ℕ) (cb : Callback) (state : String) (profile : OidcProfile)
    (found : Directory × User) : Federation :=
  if found.2.disabled then { w with db := found.1 }
  else
    { w with
      db := found.1.onMaster (.insertToken
        (newToken found.2.id refreshTtlSec w.now cb.fresh cb.userAgent cb.ip))
      completed := w.completed ++ [⟨cb.provider, profile.sub, state, found.2.id, w.now⟩] }

/-- `completeFlow`: the state value is spent before the provider is asked. -/
def completeFlow (refreshTtlSec : ℕ) (cb : Callback) : Federation :=
  match w.validState cb with
  | none => w
  | some state =>
    let spent := { w with pending := Function.update w.pending state none }
    match cb.info with
    | none => spent
    | some info =>
      match w.db.findOrProvisionUser cb.userId info.profile with
      | none => spent
      | some found => spent.signIn refreshTtlSec cb state info.profile found

end Federation

/-- The routes.  A state value is sixteen random bytes: one that was issued is not drawn
    again. -/
def federation (core : Core) (refreshTtlSec : ℕ) : Machine Federation Visit where
  step w
    | .login provider state verifier =>
      if w.issued.any (fun i => decide (i.state = state)) then none
      else some (w.startFlow provider state verifier)
    | .callback cb => some (w.completeFlow refreshTtlSec cb)
    | .createUser id salt input => some { w with db := (w.db.createUser core id salt input).1 }
    | .tick now => if w.now ≤ now then some { w with now := now } else none

/-! ### The invariant -/

/-- A callback that keeps to its provider: no other provider has signed in the subject, its user
    name is no local user's, and the state value was not issued for another provider. -/
def Proper (w : Federation) (cb : Callback) : Prop :=
  (∀ info, cb.info = some info →
    (∀ c ∈ w.completed, c.sub = info.sub → c.provider = cb.provider) ∧
    ∀ u ∈ w.db.users, u.username = "oidc:" ++ info.sub → u.authProvider = .oidc) ∧
  ∀ i ∈ w.issued, cb.state = some i.state → i.provider = cb.provider

/-- What is wanted of the callbacks that completed. -/
structure Federation.Sound (w : Federation) : Prop where
  /-- The account is a function of provider and subject, and an injective one. -/
  injective : ∀ c₁ ∈ w.completed, ∀ c₂ ∈ w.completed,
    c₁.account = c₂.account ↔ c₁.provider = c₂.provider ∧ c₁.sub = c₂.sub
  /-- The account is a federated one. -/
  federated : ∀ c ∈ w.completed,
    ∃ user ∈ w.db.users, user.id = c.account ∧ user.authProvider = .oidc
  /-- The state value was issued at the provider, at most its lifetime ago. -/
  bound : ∀ c ∈ w.completed, ∃ i ∈ w.issued, i.state = c.state ∧ i.provider = c.provider ∧
    i.issuedAt ≤ c.completedAt ∧ c.completedAt ≤ i.issuedAt + stateTtlMs
  /-- No state value is used twice. -/
  once : (w.completed.map Completion.state).Nodup

/-- The unique keys of `users`. -/
structure Directory.UniqueUsers (db : Directory) : Prop where
  ids : (db.users.map User.id).Nodup
  usernames : (db.users.map User.username).Nodup

/-- The invariant behind `Sound`. -/
structure Federation.Kept (w : Federation) : Prop where
  unique : w.db.UniqueUsers
  /-- The account of a completed callback carries the user name of its subject. -/
  account : ∀ c ∈ w.completed, ∃ user ∈ w.db.users,
    user.id = c.account ∧ user.username = "oidc:" ++ c.sub ∧ user.authProvider = .oidc
  provider : ∀ c₁ ∈ w.completed, ∀ c₂ ∈ w.completed, c₁.sub = c₂.sub →
    c₁.provider = c₂.provider
  bound : ∀ c ∈ w.completed, ∃ i ∈ w.issued, i.state = c.state ∧ i.provider = c.provider ∧
    i.issuedAt ≤ c.completedAt ∧ c.completedAt ≤ i.issuedAt + stateTtlMs
  once : (w.completed.map Completion.state).Nodup
  /-- A pending state value was issued and is unused. -/
  pending : ∀ state entry, w.pending state = some entry →
    (∃ i ∈ w.issued, i.state = state ∧ entry.expiresAt = i.issuedAt + stateTtlMs) ∧
    state ∉ w.completed.map Completion.state
  past : ∀ i ∈ w.issued, i.issuedAt ≤ w.now

namespace Federation

variable {w : Federation}

theorem Kept.sound (h : w.Kept) : w.Sound where
  injective := by
    intro c₁ h₁ c₂ h₂
    obtain ⟨u₁, hu₁, hid₁, hname₁, -⟩ := h.account c₁ h₁
    obtain ⟨u₂, hu₂, hid₂, hname₂, -⟩ := h.account c₂ h₂
    constructor
    · intro hacc
      -- one account is one row, and one row has one user name
      obtain rfl : u₁ = u₂ := List.inj_on_of_nodup_map h.unique.ids hu₁ hu₂
        (hid₁.trans (hacc.trans hid₂.symm))
      have hsub : c₁.sub = c₂.sub := String.append_right_inj _ |>.mp (hname₁.symm.trans hname₂)
      exact ⟨h.provider c₁ h₁ c₂ h₂ hsub, hsub⟩
    · rintro ⟨-, hsub⟩
      obtain rfl : u₁ = u₂ := List.inj_on_of_nodup_map h.unique.usernames hu₁ hu₂
        (by rw [hname₁, hname₂, hsub])
      rw [← hid₁, hid₂]
  federated := by
    intro c hc
    obtain ⟨user, huser, hid, -, hprov⟩ := h.account c hc
    exact ⟨user, huser, hid, hprov⟩
  bound := h.bound
  once := h.once

/-- More users do no harm, as long as the keys stay unique. -/
theorem Kept.withDb (h : w.Kept) {db : Directory} (hunique : db.UniqueUsers)
    (hgrow : ∀ u ∈ w.db.users, u ∈ db.users) : Kept { w with db := db } where
  unique := hunique
  account := by
    intro c hc
    obtain ⟨user, huser, hrest⟩ := h.account c hc
    exact ⟨user, hgrow user huser, hrest⟩
  provider := h.provider
  bound := h.bound
  once := h.once
  pending := h.pending
  past := h.past

theorem Kept.startFlow (h : w.Kept) {state : String}
    (hnew : ∀ i ∈ w.issued, i.state ≠ state) (provider : Provider) (verifier : String) :
    (w.startFlow provider state verifier).Kept where
  unique := h.unique
  account := h.account
  provider := h.provider
  bound := by
    intro c hc
    obtain ⟨i, hi, hrest⟩ := h.bound c hc
    exact ⟨i, List.mem_append_left _ hi, hrest⟩
  once := h.once
  pending := by
    intro s entry hentry
    by_cases hs : s = state
    · subst hs
      obtain rfl : (⟨verifier, w.now + stateTtlMs⟩ : PendingState) = entry := by
        simpa [Federation.startFlow] using hentry
      refine ⟨⟨⟨s, provider, w.now⟩, by simp [Federation.startFlow], rfl, rfl⟩, fun hmem => ?_⟩
      -- a completed callback used a state value issued before
      obtain ⟨c, hc, rfl⟩ := List.mem_map.mp hmem
      obtain ⟨i, hi, his, -⟩ := h.bound c hc
      exact hnew i hi his
    · have hold : w.pending s = some entry := by
        rw [← hentry]
        exact (Function.update_of_ne hs _ _).symm
      obtain ⟨⟨i, hi, hrest⟩, hunused⟩ := h.pending s entry hold
      exact ⟨⟨i, List.mem_append_left _ hi, hrest⟩, hunused⟩
  past := by
    intro i hi
    rcases List.mem_append.mp hi with hi | hi
    · exact h.past i hi
    · rw [List.mem_singleton.mp hi]
      exact le_rfl

/-- A state value that is spent. -/
theorem Kept.spend (h : w.Kept) (state : String) :
    Kept { w with pending := Function.update w.pending state none } where
  unique := h.unique
  account := h.account
  provider := h.provider
  bound := h.bound
  once := h.once
  pending := by
    intro s entry hentry
    by_cases hs : s = state
    · subst hs
      simp at hentry
    · refine h.pending s entry ?_
      rw [← hentry]
      exact (Function.update_of_ne hs _ _).symm
  past := h.past

/-- A valid state value was given, issued, is unused and in time. -/
theorem Kept.validState (h : w.Kept) {cb : Callback} {state : String}
    (hvalid : w.validState cb = some state) :
    cb.state = some state ∧ state ∉ w.completed.map Completion.state ∧
      ∃ i ∈ w.issued, i.state = state ∧ w.now ≤ i.issuedAt + stateTtlMs := by
  unfold Federation.validState at hvalid
  split at hvalid
  · rename_i code given _ hgiven
    split at hvalid
    · rename_i hany
      obtain rfl := Option.some.inj hvalid
      cases hentry : w.pending given with
      | none => simp [hentry] at hany
      | some entry =>
        have hle : w.now ≤ entry.expiresAt := by simpa [hentry] using hany
        obtain ⟨⟨i, hi, his, hexp⟩, hunused⟩ := h.pending given entry hentry
        exact ⟨truthy_some hgiven, hunused, i, hi, his, hexp ▸ hle⟩
    · exact absurd hvalid (by simp)
  · exact absurd hvalid (by simp)

end Federation

/-! ### Users found and created -/

section Users

variable {db db' : Directory}

/-- A row with a new id and a new user name. -/
theorem Directory.UniqueUsers.append (h : db.UniqueUsers) {row : User}
    (hid : ∀ u ∈ db.users, u.id ≠ row.id) (hname : ∀ u ∈ db.users, u.username ≠ row.username) :
    Directory.UniqueUsers { db with users := db.users ++ [row] } :=
  ⟨Table.nodup_append_singleton h.ids hid, Table.nodup_append_singleton h.usernames hname⟩

/-- The user found or provisioned has the user name of the profile; a new one is federated. -/
theorem findOrProvisionUser_spec {id : String} {profile : OidcProfile} {user : User}
    (h : db.UniqueUsers) (hfound : db.findOrProvisionUser id profile = some (db', user)) :
    db'.UniqueUsers ∧ (∀ u ∈ db.users, u ∈ db'.users) ∧ user ∈ db'.users ∧
      user.username = profile.username ∧ (user ∈ db.users ∨ user.authProvider = .oidc) := by
  unfold Directory.findOrProvisionUser at hfound
  split at hfound
  · rename_i existing hlookup
    obtain ⟨rfl, rfl⟩ := Prod.mk.inj (Option.some.inj hfound)
    obtain ⟨hmem, hname⟩ := Table.lookup_some hlookup
    exact ⟨h, fun _ hu => hu, hmem, hname, Or.inl hmem⟩
  · rename_i hlookup
    split at hfound
    · exact absurd hfound (by simp)
    · rename_i hid
      obtain ⟨rfl, rfl⟩ := Prod.mk.inj (Option.some.inj hfound)
      refine ⟨h.append (fun u hu heq => hid ?_) (Table.lookup_eq_none.mp hlookup),
        fun u hu => List.mem_append_left _ hu, by simp, rfl, Or.inr rfl⟩
      exact List.any_eq_true.mpr ⟨u, hu, decide_eq_true heq⟩

theorem createUser_unique (core : Core) (id salt : String) (input : CreateUserInput)
    (h : db.UniqueUsers) :
    (db.createUser core id salt input).1.UniqueUsers ∧
      ∀ u ∈ db.users, u ∈ (db.createUser core id salt input).1.users := by
  rcases db.createUser_users core id salt input with heq | ⟨created, -, hfresh, heq⟩
  · exact ⟨⟨heq ▸ h.ids, heq ▸ h.usernames⟩, fun u hu => heq ▸ hu⟩
  · have happ := h.append (fun u hu => (hfresh u hu).1) (fun u hu => (hfresh u hu).2)
    exact ⟨⟨heq ▸ happ.ids, heq ▸ happ.usernames⟩, fun u hu => heq ▸ List.mem_append_left _ hu⟩

end Users

/-! ### Runs -/

namespace Federation

variable {w w' : Federation}

/-- The session of somebody signed in by a proper callback. -/
theorem Kept.signIn (h : w.Kept) {refreshTtlSec : ℕ} {cb : Callback} {state : String}
    {info : UserInfo} {db : Directory} {user : User} (hproper : Proper w cb)
    (hinfo : cb.info = some info) (hvalid : w.validState cb = some state)
    (hfound : w.db.findOrProvisionUser cb.userId info.profile = some (db, user)) :
    (Federation.signIn { w with pending := Function.update w.pending state none } refreshTtlSec cb
      state info.profile (db, user)).Kept := by
  obtain ⟨hunique, hgrow, hmem, hname, hold⟩ := findOrProvisionUser_spec h.unique hfound
  obtain ⟨hgiven, hunused, i, hi, his, htime⟩ := h.validState hvalid
  obtain ⟨hsub, hlocal⟩ := hproper.1 info hinfo
  have hspent := (h.spend state).withDb hunique hgrow
  unfold Federation.signIn
  split
  · exact hspent
  · -- the account carries the user name of the subject, and no local user has it
    have hoidc : user.authProvider = .oidc :=
      hold.elim (fun hu => hlocal user hu hname) id
    refine ⟨⟨hunique.ids, hunique.usernames⟩, ?_, ?_, ?_, ?_, ?_, h.past⟩
    · intro c hc
      rcases List.mem_append.mp hc with hc | hc
      · exact hspent.account c hc
      · rw [List.mem_singleton.mp hc]
        exact ⟨user, hmem, rfl, hname, hoidc⟩
    · intro c₁ h₁ c₂ h₂ heq
      rcases List.mem_append.mp h₁ with h₁ | h₁ <;> rcases List.mem_append.mp h₂ with h₂ | h₂
      · exact h.provider c₁ h₁ c₂ h₂ heq
      · rw [List.mem_singleton.mp h₂] at heq ⊢
        exact hsub c₁ h₁ heq
      · rw [List.mem_singleton.mp h₁] at heq ⊢
        exact (hsub c₂ h₂ heq.symm).symm
      · rw [List.mem_singleton.mp h₁, List.mem_singleton.mp h₂]
    · intro c hc
      rcases List.mem_append.mp hc with hc | hc
      · exact h.bound c hc
      · rw [List.mem_singleton.mp hc]
        exact ⟨i, hi, his, hproper.2 i hi (his ▸ hgiven), h.past i hi, htime⟩
    · rw [List.map_append, List.map_singleton]
      refine List.nodup_append.mpr ⟨h.once, List.nodup_singleton _, ?_⟩
      rintro s hs s' hs' rfl
      rw [List.mem_singleton.mp hs'] at hs
      exact hunused hs
    · intro s entry hentry
      obtain ⟨hissued, hfree⟩ := hspent.pending s entry hentry
      refine ⟨hissued, fun hs => ?_⟩
      rw [List.map_append, List.map_singleton, List.mem_append, List.mem_singleton] at hs
      rcases hs with hs | rfl
      · exact hfree hs
      · simp at hentry

theorem Kept.completeFlow (h : w.Kept) {cb : Callback} (hproper : Proper w cb)
    (refreshTtlSec : ℕ) : (w.completeFlow refreshTtlSec cb).Kept := by
  unfold Federation.completeFlow
  split
  · exact h
  · rename_i state hvalid
    dsimp only
    split
    · exact h.spend state
    · rename_i info hinfo
      split
      · exact h.spend state
      · rename_i found hfound
        exact h.signIn hproper hinfo hvalid hfound

/-- One step, by its kind. -/
theorem Kept.step {core : Core} {refreshTtlSec : ℕ} {v : Visit} (h : w.Kept)
    (hproper : ∀ cb, v = .callback cb → Proper w cb)
    (hstep : (federation core refreshTtlSec).step w v = some w') : w'.Kept := by
  cases v with
  | login provider state verifier =>
    simp only [federation] at hstep
    split at hstep
    · exact absurd hstep (by simp)
    · rename_i hnew
      obtain rfl := Option.some.inj hstep
      refine h.startFlow (fun i hi heq => hnew ?_) provider verifier
      exact List.any_eq_true.mpr ⟨i, hi, decide_eq_true heq⟩
  | callback cb =>
    obtain rfl := Option.some.inj hstep
    exact h.completeFlow (hproper cb rfl) refreshTtlSec
  | createUser id salt input =>
    obtain rfl := Option.some.inj hstep
    have hunique := createUser_unique core id salt input h.unique
    exact h.withDb hunique.1 hunique.2
  | tick now =>
    simp only [federation] at hstep
    split at hstep
    · rename_i hle
      obtain rfl := Option.some.inj hstep
      exact ⟨h.unique, h.account, h.provider, h.bound, h.once, h.pending,
        fun i hi => (h.past i hi).trans hle⟩
    · exact absurd hstep (by simp)

/-- Where runs start: any user table, nothing pending and nothing recorded. -/
structure Initial (w : Federation) : Prop where
  unique : w.db.UniqueUsers
  pending : ∀ state, w.pending state = none
  issued : w.issued = []
  completed : w.completed = []

theorem Initial.kept (h : w.Initial) : w.Kept where
  unique := h.unique
  account := by simp [h.completed]
  provider := by simp [h.completed]
  bound := by simp [h.completed]
  once := by simp [h.completed]
  pending := by simp [h.pending]
  past := by simp [h.issued]

end Federation

/-- **Federated accounts.**  After every run of logins, callbacks, new local users and time
    passing in which every callback is proper: the account is determined by provider and
    subject, injectively; it is no local one; and the state value was issued at the same
    provider, is used once, and in time. -/
theorem federated_account (core : Core) (refreshTtlSec : ℕ) {w w' : Federation}
    {visits : List Visit} (hinit : w.Initial)
    (hproper : (federation core refreshTtlSec).Meets
      (fun w v => ∀ cb, v = .callback cb → Proper w cb) w visits)
    (hrun : (federation core refreshTtlSec).exec w visits = some w') : w'.Sound :=
  (Machine.inv_of_exec (I := Federation.Kept) (fun _ _ _ h hcb hstep => h.step hcb hstep)
    hinit.kept hproper hrun).sound

/-! ### Two providers -/

namespace Sample

/-- A directory without users. -/
def empty : Directory where
  users := []
  refreshTokens := []
  groups := []
  roles := []
  permissions := []
  rolePermissions := []
  groupRoles := []
  userGroups := []
  userAttributes := []

def portal : Federation := ⟨empty, 0, fun _ => none, [], []⟩

theorem portal_initial : portal.Initial := ⟨⟨by decide, by decide⟩, fun _ => rfl, rfl, rfl⟩

/-- The callback of provider `p` for the subject `sub`. -/
def callback (p state sub userId raw : String) : Callback where
  provider := .row p
  code := some "code"
  state := some state
  info := some { sub := sub }
  userId := userId
  fresh := { id := raw, raw := raw }

/-- A sign-in at provider `a` for the subject `1`, then one at `b` for `sub`. -/
def visits (sub : String) : List Visit :=
  [ .login (.row "a") "s" "v", .callback (callback "a" "s" "1" "u" "r"),
    .login (.row "b") "t" "v", .callback (callback "b" "t" sub "x" "q") ]

end Sample

open Sample in
/-- Provider `a` signs in the subject `1`, provider `b` the subject `2`. -/
theorem federated_account_two :
    ∃ w', (federation Auth.Sample.core 600).exec portal (visits "2") = some w' ∧
      w'.completed.map Completion.account = ["u", "x"] ∧ w'.Sound := by
  have hproper : (federation Auth.Sample.core 600).Meets
      (fun w v => ∀ cb, v = .callback cb → Proper w cb) portal (visits "2") := by
    refine .cons ?_ rfl (.cons ?_ rfl (.cons ?_ rfl (.cons ?_ rfl trivial)))
    · rintro cb ⟨⟩
    · rintro cb ⟨⟩
      refine ⟨fun info hinfo => ?_, by decide⟩
      obtain rfl : ({ sub := "1" } : UserInfo) = info := Option.some.inj hinfo
      exact ⟨by decide, by decide⟩
    · rintro cb ⟨⟩
    · rintro cb ⟨⟩
      refine ⟨fun info hinfo => ?_, by decide⟩
      obtain rfl : ({ sub := "2" } : UserInfo) = info := Option.some.inj hinfo
      exact ⟨by decide, by decide⟩
  exact ⟨_, rfl, by decide, federated_account Auth.Sample.core 600 portal_initial hproper rfl⟩

open Sample in
/-- Both providers vouch for a subject `1` of their own; the second callback signs in the
    account of the first. -/
theorem federated_account_shared :
    portal.Initial ∧
    ∃ w', (federation Auth.Sample.core 600).exec portal (visits "1") = some w' ∧
      w'.completed = [⟨.row "a", "1", "s", "u", 0⟩, ⟨.row "b", "1", "t", "u", 0⟩] ∧ ¬ w'.Sound := by
  refine ⟨portal_initial, _, rfl, by decide, fun hsound => ?_⟩
  have hsame := (hsound.injective ⟨.row "a", "1", "s", "u", 0⟩ (by decide)
    ⟨.row "b", "1", "t", "u", 0⟩ (by decide)).mp rfl
  exact absurd hsame.1 (by decide)

end Argus.Access
