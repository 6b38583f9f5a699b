import Argus.Auth.Steps

namespace Argus.Auth

/-!
# Browser tabs on one session

The fetch client of the frontend (`api.ts`) in any number of tabs.  The tabs share the tokens
in `localStorage`; each has its own `refreshInFlight`, so a tab joins its own refresh but not
that of another tab.

* `Tab`, `Browser` — the tabs, the shared tokens and the server with its refresh rows.
* `browser` — the machine: answers of 401, the statements of the rotations the tabs asked for,
  their answers arriving, sessions given up, and an environment that does everything else.
* `Undisturbed` — the environment neither revokes nor outlives the tokens of the session.
* `Exclusive` — a tab starts a refresh only while no other tab has one in flight.
* `tabs_keep_session` — in undisturbed runs with exclusive refreshes no tab loses the session.

Calls and answers other than 401 change nothing that is modelled and have no step.
-/

/-- `refreshInFlight`: the token read from the store and how far the server has got. -/
structure RefreshCall where
  token : String
  pc : RefreshPc := .start
deriving DecidableEq, Repr

/-- A tab: its refresh in flight, the calls that await it, and the calls that have learnt that
    it failed but have not run `onSessionExpired` yet. -/
structure Tab where
  refresh : Option RefreshCall := none
  waiting : ℕ := 0
  expiring : ℕ := 0
  /-- `onSessionExpired` has run. -/
  expired : Bool := false
deriving DecidableEq, Repr

/-- The tokens in `localStorage`. -/
structure TokenStore where
  access : Option AccessClaims := none
  refresh : Option String := none
deriving DecidableEq, Repr

/-- All tabs of a browser and the server; `session` lists the refresh tokens the session has
    had so far. -/
structure Browser where
  db : MasterDb
  now : ℕ
  store : TokenStore
  tabs : ℕ → Tab
  session : List String

inductive BrowserEvent
  /-- A call of the tab is answered 401 and runs `refreshTokens`. -/
  | unauthorized (t : ℕ)
  /-- The server issues the next statement of the tab's refresh. -/
  | serve (t : ℕ) (fresh : Fresh)
  /-- The answer to the refresh reaches the tab. -/
  | settle (t : ℕ)
  /-- A call that awaited a failed refresh runs `onSessionExpired`. -/
  | expire (t : ℕ)
  /-- Whatever else happens at the server. -/
  | environment (db : MasterDb) (now : ℕ)

namespace Browser

variable (w : Browser)

/-- The browser with another state of tab `t`. -/
def setTab (t : ℕ) (tab : Tab) : Browser := { w with tabs := Function.update w.tabs t tab }

/-- `refreshTokens` up to its first `await`. -/
def refreshTokens (t : ℕ) : Browser :=
  let tab := w.tabs t
  if tab.refresh.isSome then w.setTab t { tab with waiting := tab.waiting + 1 }
  else match truthy w.store.refresh with
    | none => w.setTab t { tab with expiring := tab.expiring + 1 }
    | some token =>
      w.setTab t { tab with refresh := some { token := token }, waiting := tab.waiting + 1 }

/-- The state after a statement of the refresh of tab `t`; an inserted token becomes part of the
    session. -/
def served (t : ℕ) (call : RefreshCall) (a : Action RefreshPc) : Browser :=
  { w.setTab t { w.tabs t with refresh := some { call with pc := a.next } } with
    db := a.stmt.exec w.db
    session := match a.next with
      | .rotated _ token _ => w.session ++ [token]
      | _ => w.session }

/-- The rest of `refreshTokens`: `setTokens` and the calls go on, or all of them give up. -/
def settled (t : ℕ) (reply : RefreshReply) : Browser :=
  let tab := w.tabs t
  let failed := w.setTab t
    { tab with refresh := none, waiting := 0, expiring := tab.expiring + tab.waiting }
  match reply with
  | .ok access token =>
    if token = "" then failed
    else { w.setTab t { tab with refresh := none, waiting := 0 } with
      store := ⟨some access, some token⟩ }
  | _ => failed

end Browser

/-- The tabs of a browser, with the server. -/
def browser (cfg : Config) : Machine Browser BrowserEvent where
  step w
    | .unauthorized t => some (w.refreshTokens t)
    | .serve t fresh => match (w.tabs t).refresh with
      | none => none
      | some call => (call.pc.step cfg w.now fresh w.db call.token).map (w.served t call)
    | .settle t => match (w.tabs t).refresh with
      | some ⟨_, .done reply⟩ => some (w.settled t reply)
      | _ => none
    | .expire t =>
      if (w.tabs t).expiring = 0 then none
      else some { w.setTab t { w.tabs t with
          expiring := (w.tabs t).expiring - 1, expired := true } with store := {} }
    | .environment db now => some { w with db := db, now := now }

/-- The server accepts the refresh token. -/
def MasterDb.acceptsRefresh (db : MasterDb) (now : ℕ) (raw : String) : Prop :=
  raw ≠ "" ∧ (db.liveTokenByHash (sha256 raw) now).isSome = true

/-- The session is neither revoked nor expired by what the environment does. -/
def Undisturbed (w : Browser) : BrowserEvent → Prop
  | .environment db now => ∀ raw ∈ w.session,
      w.db.acceptsRefresh w.now raw → db.acceptsRefresh now raw
  | _ => True

/-- A refresh starts only while no other tab has one in flight. -/
def Exclusive (w : Browser) : BrowserEvent → Prop
  | .unauthorized t => ∀ t', t' ≠ t → (w.tabs t').refresh = none
  | _ => True

/-! ### The invariant -/

/-- The token that a refresh, wherever the server is with it, still has to find or to bring. -/
def RefreshCall.carries (call : RefreshCall) : Option String :=
  match call.pc with
  | .start => some call.token
  | .rotated _ token _ => some token
  | .done (.ok _ token) => some token
  | _ => none

/-- The refresh has not been refused. -/
def RefreshCall.sound (call : RefreshCall) : Prop :=
  ∀ reply, call.pc = .done reply → ∃ access token, reply = .ok access token

/-- The session is in good order. -/
structure Browser.Steady (w : Browser) : Prop where
  calm : ∀ t, (w.tabs t).expiring = 0 ∧ (w.tabs t).expired = false
  alone : ∀ t t', (w.tabs t).refresh ≠ none → (w.tabs t').refresh ≠ none → t = t'
  sound : ∀ t call, (w.tabs t).refresh = some call → call.sound
  /-- What a refresh carries is accepted. -/
  carried : ∀ t call raw, (w.tabs t).refresh = some call → call.carries = some raw →
    raw ∈ w.session ∧ w.db.acceptsRefresh w.now raw
  /-- With no refresh in flight, the stored token is accepted. -/
  stored : (∀ t, (w.tabs t).refresh = none) →
    ∃ raw ∈ w.session, w.store.refresh = some raw ∧ w.db.acceptsRefresh w.now raw

namespace Browser

variable {w w' : Browser} {cfg : Config}

@[simp] theorem setTab_self (t : ℕ) (tab : Tab) : (w.setTab t tab).tabs t = tab :=
  Function.update_self _ _ _

theorem setTab_of_ne {t t' : ℕ} (h : t' ≠ t) (tab : Tab) :
    (w.setTab t tab).tabs t' = w.tabs t' := Function.update_of_ne h _ _

/-- A step of one tab, while the others have no refresh in flight. -/
theorem Steady.of_tab (h : w.Steady) {t : ℕ}
    (hidle : ∀ t', t' ≠ t → (w.tabs t').refresh = none)
    (hothers : ∀ t', t' ≠ t → w'.tabs t' = w.tabs t')
    (hcalm : (w'.tabs t).expiring = 0 ∧ (w'.tabs t).expired = false)
    (hcall : ∀ call, (w'.tabs t).refresh = some call → call.sound ∧
      ∀ raw, call.carries = some raw → raw ∈ w'.session ∧ w'.db.acceptsRefresh w'.now raw)
    (hstored : (w'.tabs t).refresh = none →
      ∃ raw ∈ w'.session, w'.store.refresh = some raw ∧ w'.db.acceptsRefresh w'.now raw) :
    w'.Steady := by
  -- a refresh in flight is the one of `t`
  have honly : ∀ t', (w'.tabs t').refresh ≠ none → t' = t := by
    intro t' hrefresh
    by_contra hne
    rw [hothers t' hne] at hrefresh
    exact hrefresh (hidle t' hne)
  refine ⟨fun t' => ?_, fun t₁ t₂ h₁ h₂ => (honly t₁ h₁).trans (honly t₂ h₂).symm, ?_, ?_,
    fun hnone => hstored (hnone t)⟩
  · by_cases ht : t' = t
    · rw [ht]
      exact hcalm
    · rw [hothers t' ht]
      exact h.calm t'
  · intro t' call hcall'
    obtain rfl := honly t' (by simp [hcall'])
    exact (hcall call hcall').1
  · intro t' call raw hcall' hraw
    obtain rfl := honly t' (by simp [hcall'])
    exact (hcall call hcall').2 raw hraw

theorem Steady.refreshTokens (h : w.Steady) {t : ℕ}
    (hidle : ∀ t', t' ≠ t → (w.tabs t').refresh = none) : (w.refreshTokens t).Steady := by
  have hcalm := h.calm t
  unfold Browser.refreshTokens
  dsimp only
  split
  · -- the tab joins its own refresh
    rename_i hsome
    refine h.of_tab hidle (fun t' ht => setTab_of_ne ht _) ?_ ?_ ?_
    · simpa using hcalm
    · intro call hcall
      have hold : (w.tabs t).refresh = some call := by simpa using hcall
      exact ⟨h.sound t call hold, fun raw hraw => h.carried t call raw hold hraw⟩
    · intro hnone
      have hold : (w.tabs t).refresh = none := by simpa using hnone
      rw [hold] at hsome
      exact absurd hsome (by simp)
  · rename_i hnone
    have hall : ∀ t', (w.tabs t').refresh = none := by
      intro t'
      by_cases ht : t' = t
      · rw [ht]
        simpa using hnone
      · exact hidle t' ht
    obtain ⟨raw, hraw, hstore, hacc⟩ := h.stored hall
    have htruthy : truthy w.store.refresh = some raw := by simp [truthy, hstore, hacc.1]
    rw [htruthy]
    refine h.of_tab hidle (fun t' ht => setTab_of_ne ht _) ?_ ?_ ?_
    · simpa using hcalm
    · intro call hcall
      obtain rfl : ({ token := raw } : RefreshCall) = call := by simpa using hcall
      refine ⟨fun reply hreply => absurd hreply (by simp), fun token htoken => ?_⟩
      obtain rfl : raw = token := by simpa [RefreshCall.carries] using htoken
      exact ⟨hraw, hacc⟩
    · intro hnone
      exact absurd hnone (by simp)

/-- A token just inserted is accepted, as refresh tokens have a positive lifetime. -/
theorem acceptsRefresh_inserted (httl : 0 < cfg.refreshTtlSec) {db : MasterDb} {now : ℕ}
    {fresh : Fresh} (hfresh : fresh.unused db = true) (userId : String)
    (userAgent ip : Option String) :
    ((Stmt.insertToken (newToken userId cfg.refreshTtlSec now fresh userAgent ip)).exec
      db).acceptsRefresh now fresh.raw := by
  refine ⟨Fresh.unused_raw hfresh, ?_⟩
  rw [MasterDb.liveTokenByHash, List.find?_isSome, Stmt.exec_insertToken]
  refine ⟨newToken userId cfg.refreshTtlSec now fresh userAgent ip, by simp, ?_⟩
  have hlater : now < now + cfg.refreshTtlSec * 1000 := by omega
  simp [newToken, RefreshToken.live, hlater]

/-- The `SELECT` of a rotation finds a token that is accepted. -/
theorem selected_of_accepted {db : MasterDb} {now : ℕ} {raw : String} {fresh : Fresh}
    {a : Action RefreshPc} (hacc : db.acceptsRefresh now raw)
    (h : RefreshPc.start.step cfg now fresh db raw = some a) :
    ∃ row, a.next = .selected row now := by
  simp only [RefreshPc.step, if_neg hacc.1] at h
  obtain rfl := Option.some.inj h
  obtain ⟨row, hrow⟩ := Option.isSome_iff_exists.mp hacc.2
  exact ⟨row, by simp [hrow]⟩

theorem Steady.served (h : w.Steady) (httl : 0 < cfg.refreshTtlSec) {t : ℕ} {call : RefreshCall}
    {fresh : Fresh} {a : Action RefreshPc} (hcall : (w.tabs t).refresh = some call)
    (hstep : call.pc.step cfg w.now fresh w.db call.token = some a) :
    (w.served t call a).Steady := by
  have hidle : ∀ t', t' ≠ t → (w.tabs t').refresh = none := by
    intro t' hne
    by_contra hrefresh
    exact hne (h.alone t' t hrefresh (by simp [hcall]))
  refine h.of_tab hidle (fun t' ht => setTab_of_ne ht _) ?_ ?_ ?_
  · simpa [Browser.served] using h.calm t
  · intro call' hcall'
    obtain rfl : ({ call with pc := a.next } : RefreshCall) = call' := by
      simpa [Browser.served] using hcall'
    -- the statements of the rotation, one after the other
    rcases RefreshPc.step_cases hstep with ⟨hpc, -⟩ | ⟨row, t, hpc, rfl⟩ |
      ⟨row, hpc, hunused, rfl⟩ | ⟨userId, token, sid, claims, hpc, -, rfl⟩
    · have hacc := (h.carried t call call.token hcall (by simp [RefreshCall.carries, hpc])).2
      rw [hpc] at hstep
      obtain ⟨row, hnext⟩ := selected_of_accepted hacc hstep
      rw [hnext]
      exact ⟨fun reply hreply => absurd hreply (by simp),
        fun raw hraw => absurd hraw (by simp [RefreshCall.carries])⟩
    · exact ⟨fun reply hreply => absurd hreply (by simp),
        fun raw hraw => absurd hraw (by simp [RefreshCall.carries])⟩
    · refine ⟨fun reply hreply => absurd hreply (by simp), fun raw hraw => ?_⟩
      obtain rfl : fresh.raw = raw := by simpa [RefreshCall.carries] using hraw
      exact ⟨by simp [Browser.served], acceptsRefresh_inserted httl hunused _ _ _⟩
    · have hold := h.carried t call token hcall (by simp [RefreshCall.carries, hpc])
      refine ⟨fun reply hreply => ⟨claims, token, by simpa using hreply.symm⟩, fun raw hraw => ?_⟩
      obtain rfl : token = raw := by simpa [RefreshCall.carries] using hraw
      exact hold
  · intro hnone
    exact absurd hnone (by simp [Browser.served])

/-- The answer to a refresh is the token it carries. -/
theorem Steady.settled (h : w.Steady) {t : ℕ} {sent : String} {reply : RefreshReply}
    (hcall : (w.tabs t).refresh = some ⟨sent, .done reply⟩) : (w.settled t reply).Steady := by
  have hidle : ∀ t', t' ≠ t → (w.tabs t').refresh = none := by
    intro t' hne
    by_contra hrefresh
    exact hne (h.alone t' t hrefresh (by simp [hcall]))
  obtain ⟨access, token, rfl⟩ := h.sound t _ hcall reply rfl
  obtain ⟨hmem, hacc⟩ := h.carried t _ token hcall rfl
  simp only [Browser.settled, if_neg hacc.1]
  refine h.of_tab hidle (fun t' ht => setTab_of_ne ht _) ?_ ?_ ?_
  · simpa using h.calm t
  · intro call hsome
    exact absurd hsome (by simp)
  · exact fun _ => ⟨token, hmem, rfl, hacc⟩

theorem Steady.environment (h : w.Steady) {db : MasterDb} {now : ℕ}
    (hkeep : ∀ raw ∈ w.session, w.db.acceptsRefresh w.now raw → db.acceptsRefresh now raw) :
    Browser.Steady { w with db := db, now := now } where
  calm := h.calm
  alone := h.alone
  sound := h.sound
  carried := by
    intro t call raw hcall hraw
    obtain ⟨hmem, hacc⟩ := h.carried t call raw hcall hraw
    exact ⟨hmem, hkeep raw hmem hacc⟩
  stored := by
    intro hnone
    obtain ⟨raw, hmem, hstore, hacc⟩ := h.stored hnone
    exact ⟨raw, hmem, hstore, hkeep raw hmem hacc⟩

/-- One step, by its kind. -/
theorem Steady.step (h : w.Steady) (httl : 0 < cfg.refreshTtlSec) {e : BrowserEvent}
    (hkeep : Undisturbed w e) (halone : Exclusive w e)
    (hstep : (browser cfg).step w e = some w') : w'.Steady := by
  cases e with
  | unauthorized t =>
    obtain rfl := Option.some.inj hstep
    exact h.refreshTokens halone
  | serve t fresh =>
    simp only [browser] at hstep
    split at hstep
    · exact absurd hstep (by simp)
    · rename_i call hcall
      obtain ⟨a, ha, rfl⟩ := Option.map_eq_some_iff.mp hstep
      exact h.served httl hcall ha
  | settle t =>
    simp only [browser] at hstep
    split at hstep
    · rename_i sent reply hcall
      obtain rfl := Option.some.inj hstep
      exact h.settled hcall
    · exact absurd hstep (by simp)
  | expire t =>
    simp only [browser, if_pos (h.calm t).1] at hstep
    exact absurd hstep (by simp)
  | environment db now =>
    obtain rfl := Option.some.inj hstep
    exact h.environment hkeep

/-- Where runs start: a browser signed in, with no call answered yet. -/
structure Initial (w : Browser) : Prop where
  idle : ∀ t, w.tabs t = {}
  signedIn : ∃ raw, w.session = [raw] ∧ w.store.refresh = some raw ∧
    w.db.acceptsRefresh w.now raw

theorem Initial.steady (h : w.Initial) : w.Steady where
  calm := by simp [h.idle]
  alone := by simp [h.idle]
  sound := by simp [h.idle]
  carried := by simp [h.idle]
  stored := by
    obtain ⟨raw, hsession, hstore, hacc⟩ := h.signedIn
    exact fun _ => ⟨raw, by simp [hsession], hstore, hacc⟩

end Browser

/-- **Tabs keep the session.**  In every run in which the environment leaves the session alone
    and a tab starts a refresh only while no other tab has one in flight: no tab gives the
    session up, and whenever no refresh is in flight the stored token is one the server
    accepts. -/
theorem tabs_keep_session {cfg : Config} (httl : 0 < cfg.refreshTtlSec) {w w' : Browser}
    {events : List BrowserEvent} (hinit : w.Initial)
    (hkeep : (browser cfg).Meets Undisturbed w events)
    (halone : (browser cfg).Meets Exclusive w events)
    (hrun : (browser cfg).exec w events = some w') :
    (∀ t, (w'.tabs t).expired = false) ∧
    ((∀ t, (w'.tabs t).refresh = none) →
      ∃ raw, w'.store.refresh = some raw ∧ w'.db.acceptsRefresh w'.now raw) := by
  have hsteady : w'.Steady :=
    Machine.inv_of_exec (I := Browser.Steady)
      (fun _ _ _ h hboth hstep => h.step httl hboth.1 hboth.2 hstep) hinit.steady
      (hkeep.and halone) hrun
  refine ⟨fun t => (hsteady.calm t).2, fun hnone => ?_⟩
  obtain ⟨raw, -, hstore, hacc⟩ := hsteady.stored hnone
  exact ⟨raw, hstore, hacc⟩

/-! ### Two tabs -/

namespace Sample

/-- Signed in with the live session of `db`. -/
def signedIn : Browser := ⟨db, 0, ⟨none, some "t0"⟩, fun _ => {}, ["t0"]⟩

theorem signedIn_initial : signedIn.Initial :=
  ⟨fun _ => rfl, "t0", rfl, rfl, by decide, by decide⟩

/-- A statement of the rotation that tab `t` asked for. -/
def rotating (t : ℕ) : BrowserEvent :=
  .serve t (if t = 0 then { id := "s1", raw := "t1" } else { id := "s2", raw := "t2" })

/-- Tab `0` refreshes, then tab `1` does. -/
def inTurn : List BrowserEvent :=
  [ .unauthorized 0, rotating 0, rotating 0, rotating 0, rotating 0, .settle 0,
    .unauthorized 1, rotating 1, rotating 1, rotating 1, rotating 1, .settle 1 ]

/-- Both tabs have read the token before the first rotation ends. -/
def atOnce : List BrowserEvent :=
  [ .unauthorized 0, .unauthorized 1, rotating 0, rotating 0, rotating 0, rotating 0, rotating 1,
    .settle 0, .settle 1, .expire 1 ]

end Sample

open Sample in
/-- Two tabs that refresh in turn stay signed in, with the token of the second rotation. -/
theorem tabs_keep_session_inTurn :
    ∃ w', (browser config).exec signedIn inTurn = some w' ∧ w'.store.refresh = some "t2" ∧
      ∀ t, (w'.tabs t).expired = false := by
  have hkeep : (browser config).Meets Undisturbed signedIn inTurn := by
    repeat refine .cons trivial rfl ?_
    trivial
  have halone : (browser config).Meets Exclusive signedIn inTurn := by
    refine .cons (fun _ _ => rfl) rfl ?_
    repeat refine .cons trivial rfl ?_
    refine .cons (fun t _ => ?_) rfl ?_
    · match t with
      | 0 => rfl
      | n + 1 => rfl
    repeat refine .cons trivial rfl ?_
    trivial
  exact ⟨_, rfl, rfl, (tabs_keep_session (by decide) signedIn_initial hkeep halone rfl).1⟩

open Sample in
/-- Two tabs that refresh at once: the second rotation finds the token used, and its tab throws
    away the tokens of the first, which the server accepts. -/
theorem tabs_log_out :
    signedIn.Initial ∧ (browser config).Meets Undisturbed signedIn atOnce ∧
    ∃ w', (browser config).exec signedIn atOnce = some w' ∧ (w'.tabs 1).expired = true ∧
      w'.store.refresh = none ∧ w'.db.acceptsRefresh w'.now "t1" := by
  refine ⟨signedIn_initial, ?_, _, rfl, rfl, rfl, by decide, by decide⟩
  repeat refine .cons trivial rfl ?_
  trivial

end Argus.Auth
