import Argus.Auth.Steps

namespace Argus.Auth

/-!
# Requests processed one at a time

A request that is served alone issues its statements one after the other with nothing in
between but the passing of time.

* `Served` — the database, the clock and the request; `alone` is the machine that runs it.
* `serve` — the request from its first statement to its reply.
* `Backend`, `sequential` — the machine whose steps are whole requests.
* `alone_interleaves` — what is served alone is a run of `machine`: the sequential results
  are about the same requests as the concurrent ones.
-/

variable {cfg : Config}

/-- The sessions that a logout or a terminate statement matches.  The `UPDATE` of a rotation
    supersedes a session, which is not a hit. -/
def Stmt.hits (stmt : Stmt) (db : MasterDb) : List String :=
  match stmt with
  | .rotateOut _ _ => []
  | _ => match stmt.onTokens with
    | some (hit, _, _) => (db.refreshTokens.filter hit).map RefreshToken.id
    | none => []

/-- A request that is being served alone, with the sessions it has hit so far. -/
structure Served where
  db : MasterDb
  now : ℕ
  proc : Proc
  hits : List String := []

/-- When a statement happens, counted from the one before, and what it draws. -/
structure Moment where
  wait : ℕ := 0
  fresh : Fresh := {}
deriving DecidableEq, Repr

/-- The request has sent its reply. -/
def Proc.finished : Proc → Bool
  | .login _ (.done _) => true
  | .refresh _ (.done _) => true
  | .logout _ .done => true
  | .terminateSession _ (.done _) => true
  | .terminateAll _ .done => true
  | .changePassword _ (.done _) => true
  | .updateUser _ (.done _) => true
  | .reset2fa _ (.done _) => true
  | .unlock _ (.done _) => true
  | .setup2fa _ (.done _) => true
  | .enable2fa _ _ (.done _) => true
  | .disable2fa _ _ (.done _ _) => true
  | _ => false

/-- The state after the statement of `a`. -/
def Served.after (s : Served) (wait : ℕ) (a : Action Proc) : Served where
  db := a.stmt.exec s.db
  now := s.now + wait
  proc := a.next
  hits := s.hits ++ a.stmt.hits s.db

/-- One request on its own; once it has replied nothing happens any more. -/
def alone (cfg : Config) : Machine Served Moment where
  step s m :=
    if s.proc.finished then some s
    else (s.proc.step cfg (s.now + m.wait) m.fresh s.db).map (s.after m.wait)

/-- Serve a request to its end. -/
def serve (cfg : Config) (s : Served) (ms : List Moment) : Option Served :=
  ((alone cfg).exec s ms).filter (fun s' => s'.proc.finished)

theorem serve_eq_some {s s' : Served} {ms : List Moment} :
    serve cfg s ms = some s' ↔ (alone cfg).exec s ms = some s' ∧ s'.proc.finished = true := by
  rw [serve, Option.filter_eq_some_iff]

/-- **Inversion.** -/
theorem alone_cases {s s' : Served} {m : Moment} (h : (alone cfg).step s m = some s') :
    (s.proc.finished = true ∧ s' = s) ∨
      ∃ a, s.proc.finished = false ∧ s.proc.step cfg (s.now + m.wait) m.fresh s.db = some a ∧
        s' = s.after m.wait a := by
  simp only [alone] at h
  split at h
  · rename_i hfin
    exact Or.inl ⟨hfin, (Option.some.inj h).symm⟩
  · rename_i hfin
    obtain ⟨a, ha, rfl⟩ := Option.map_eq_some_iff.mp h
    exact Or.inr ⟨a, by simpa using hfin, ha, rfl⟩

theorem serve_cons {s s' : Served} {m : Moment} {ms : List Moment} :
    serve cfg s (m :: ms) = some s' ↔
      ∃ t, (alone cfg).step s m = some t ∧ serve cfg t ms = some s' := by
  simp only [serve_eq_some, Machine.exec_cons_eq_some]
  constructor
  · rintro ⟨⟨t, ht, hrun⟩, hfin⟩
    exact ⟨t, ht, hrun, hfin⟩
  · rintro ⟨t, ht, hrun, hfin⟩
    exact ⟨⟨t, ht, hrun⟩, hfin⟩

/-- A request that has not replied issues another statement. -/
theorem serve_open {s s' : Served} {ms : List Moment} (h : serve cfg s ms = some s')
    (hopen : s.proc.finished = false) :
    ∃ m ms' a, ms = m :: ms' ∧ s.proc.step cfg (s.now + m.wait) m.fresh s.db = some a ∧
      serve cfg (s.after m.wait a) ms' = some s' := by
  cases ms with
  | nil =>
    obtain ⟨hrun, hfin⟩ := serve_eq_some.mp h
    obtain rfl := Option.some.inj hrun
    rw [hopen] at hfin
    exact absurd hfin (by simp)
  | cons m ms =>
    rw [serve_cons] at h
    obtain ⟨t, ht, hrest⟩ := h
    obtain ⟨hfin, -⟩ | ⟨a, -, ha, rfl⟩ := alone_cases ht
    · rw [hopen] at hfin
      exact absurd hfin (by simp)
    · exact ⟨m, ms, a, rfl, ha, hrest⟩

/-- A request that has replied is over. -/
theorem serve_finished {s s' : Served} {ms : List Moment} (h : serve cfg s ms = some s')
    (hfin : s.proc.finished = true) : s' = s := by
  -- moments left over after the reply do nothing
  induction ms with
  | nil => exact (Option.some.inj (serve_eq_some.mp h).1).symm
  | cons m ms ih =>
    rw [serve_cons] at h
    obtain ⟨t, ht, hrest⟩ := h
    obtain ⟨-, rfl⟩ | ⟨a, hopen, -⟩ := alone_cases ht
    · exact ih hrest
    · rw [hfin] at hopen
      exact absurd hopen (by simp)

/-- **Invariant rule** for a request served alone: what each of its statements keeps holds
    when it has replied. -/
theorem serve_inv {I : Served → Prop} {s s' : Served} {ms : List Moment}
    (h : serve cfg s ms = some s')
    (hstep : ∀ (s : Served) (m : Moment) a, I s →
      s.proc.step cfg (s.now + m.wait) m.fresh s.db = some a → I (s.after m.wait a))
    (hs : I s) : I s' := by
  obtain ⟨hrun, -⟩ := serve_eq_some.mp h
  refine Machine.inv_of_exec (G := fun _ _ => True) ?_ hs (Machine.Meets.always s ms) hrun
  intro t m t' ht _ hstep'
  obtain ⟨-, rfl⟩ | ⟨a, -, ha, rfl⟩ := alone_cases hstep'
  · exact ht
  · exact hstep t m a ht ha

/-- A request without an access token of its caller never asks for one. -/
theorem Proc.step_caller {now : ℕ} {fresh : Fresh} {db : MasterDb} {p : Proc} {a : Action Proc}
    (h : p.step cfg now fresh db = some a) (hp : p.caller = none) : a.next.caller = none := by
  cases p <;> simp only [Proc.step, Option.map_eq_some_iff] at h <;>
    obtain ⟨b, hb, rfl⟩ := h <;> simp only [Proc.caller, reduceCtorEq] at hp <;> try rfl
  -- the one handler whose program counter decides whether it has a caller
  case terminateSession id pc =>
    cases pc with
    | listing caller => exact absurd hp (by simp)
    | selecting =>
      obtain rfl := Option.some.inj hb
      by_cases hfound : db.refreshTokens.any (fun r => decide (r.id = id)) = true
      · simp only [Action.map, hfound]
        rfl
      · simp only [Action.map, hfound]
        rfl
    | updating =>
      obtain rfl := Option.some.inj hb
      rfl
    | done found => exact absurd hb (by simp [TerminatePc.step])

/-- **Serving alone is one of the interleavings.**  What a request without caller does alone,
    request `c` of any world with that database and clock can do while the others wait. -/
theorem alone_interleaves {s s' : Served} {ms : List Moment}
    (h : (alone cfg).exec s ms = some s') (hcaller : s.proc.caller = none) {w : World} {c : ℕ}
    (hdb : w.db = s.db) (hnow : w.now = s.now) (hproc : w.calls c = s.proc) :
    ∃ ls w', (machine cfg).exec w ls = some w' ∧ w'.db = s'.db ∧ w'.now = s'.now ∧
      w'.calls = Function.update w.calls c s'.proc := by
  -- each moment becomes a tick and a statement of request `c`
  induction ms generalizing s w with
  | nil =>
    obtain rfl : s = s' := by simpa using h
    exact ⟨[], w, rfl, hdb, hnow, by rw [← hproc, Function.update_eq_self]⟩
  | cons m ms ih =>
    obtain ⟨t, ht, hrest⟩ := (alone cfg).exec_cons_eq_some.mp h
    obtain ⟨-, rfl⟩ | ⟨a, -, ha, rfl⟩ := alone_cases ht
    · exact ih hrest hcaller hdb hnow hproc
    · -- wait, then let request `c` issue its statement
      let v : World := { w with now := w.now + m.wait }
      have hallow : v.admits c = true := by
        show (!(w.calls c).atStart || (w.calls c).caller.all _) = true
        rw [hproc, hcaller]
        simp
      have hact : v.action cfg c m.fresh = some a := by
        show (w.calls c).step cfg (w.now + m.wait) m.fresh w.db = some a
        rw [hproc, hnow, hdb]
        exact ha
      have hrun : (machine cfg).exec w [.tick m.wait, .run c m.fresh] = some (v.after c a) := by
        show ((if v.admits c then (v.action cfg c m.fresh).map (v.after c) else none).bind some) = _
        rw [hallow, hact]
        rfl
      obtain ⟨ls, w', hls, hdb', hnow', hcalls⟩ := ih (w := v.after c a) hrest
        (Proc.step_caller ha hcaller) (by rw [World.after_db]; exact congrArg _ hdb)
        (by rw [World.after_now]; exact congrArg (· + m.wait) hnow) (World.after_calls_self c a)
      refine ⟨[.tick m.wait, .run c m.fresh] ++ ls, w', ?_, hdb', hnow', ?_⟩
      · rw [Machine.exec_append, hrun]
        exact hls
      · rw [hcalls]
        show Function.update (Function.update w.calls c a.next) c s'.proc = _
        rw [Function.update_idem]

/-! ### One request after the other -/

/-- The backend between two requests. -/
structure Backend where
  db : MasterDb
  now : ℕ

/-- A request, with the moments of its statements. -/
structure Visit where
  proc : Proc
  moments : List Moment
deriving DecidableEq, Repr

/-- Serve one request; its reply is in the program counter it ends with. -/
def Backend.serve (cfg : Config) (b : Backend) (v : Visit) : Option Served :=
  if v.proc.atStart then Argus.Auth.serve cfg ⟨b.db, b.now, v.proc, []⟩ v.moments else none

/-- Requests, one after the other. -/
def sequential (cfg : Config) : Machine Backend Visit where
  step b v := (b.serve cfg v).map (fun s => ⟨s.db, s.now⟩)

/-- A request that has not begun has not replied. -/
theorem Proc.not_finished_of_atStart {p : Proc} (h : p.atStart = true) : p.finished = false := by
  cases p <;> rename_i pc <;> cases pc <;> first | rfl | exact absurd h (by simp [Proc.atStart])

theorem sequential_cases {b b' : Backend} {v : Visit}
    (h : (sequential cfg).step b v = some b') :
    ∃ s, b.serve cfg v = some s ∧ b' = ⟨s.db, s.now⟩ := by
  obtain ⟨s, hs, rfl⟩ := Option.map_eq_some_iff.mp h
  exact ⟨s, hs, rfl⟩

theorem Backend.serve_eq_some {b : Backend} {v : Visit} {s : Served} :
    b.serve cfg v = some s ↔
      v.proc.atStart = true ∧
        Argus.Auth.serve cfg ⟨b.db, b.now, v.proc, []⟩ v.moments = some s := by
  unfold Backend.serve
  split <;> simp_all

/-- **The first statement** of a served request happens in the state the request found; the
    rest follows. -/
theorem Backend.serve_start {b : Backend} {v : Visit} {s : Served} (h : b.serve cfg v = some s) :
    ∃ m ms a, v.moments = m :: ms ∧
      v.proc.step cfg (b.now + m.wait) m.fresh b.db = some a ∧
      Argus.Auth.serve cfg (Served.after ⟨b.db, b.now, v.proc, []⟩ m.wait a) ms = some s := by
  obtain ⟨hstart, hserve⟩ := Backend.serve_eq_some.mp h
  exact serve_open hserve (Proc.not_finished_of_atStart hstart)

/-! ### A request keeps its parameters -/

/-- A request without its program counter. -/
inductive Request
  | login (req : LoginReq)
  | refresh (raw : String)
  | logout (raw : String)
  | terminateSession (id : String)
  | terminateAll (userId : String)
  | changePassword (req : PasswordReq)
  | updateUser (req : UpdateUserReq)
  | reset2fa (id : String)
  | unlock (id : String)
  | setup2fa (caller : AccessClaims)
  | enable2fa (caller : AccessClaims) (code : String)
  | disable2fa (caller : AccessClaims) (code : String)
deriving DecidableEq, Repr

def Proc.request : Proc → Request
  | .login req _ => .login req
  | .refresh raw _ => .refresh raw
  | .logout raw _ => .logout raw
  | .terminateSession id _ => .terminateSession id
  | .terminateAll userId _ => .terminateAll userId
  | .changePassword req _ => .changePassword req
  | .updateUser req _ => .updateUser req
  | .reset2fa id _ => .reset2fa id
  | .unlock id _ => .unlock id
  | .setup2fa caller _ => .setup2fa caller
  | .enable2fa caller code _ => .enable2fa caller code
  | .disable2fa caller code _ => .disable2fa caller code

theorem Proc.step_request {now : ℕ} {fresh : Fresh} {db : MasterDb} {p : Proc} {a : Action Proc}
    (h : p.step cfg now fresh db = some a) : a.next.request = p.request := by
  cases p <;> simp only [Proc.step, Option.map_eq_some_iff] at h <;>
    obtain ⟨b, hb, rfl⟩ := h <;> rfl

theorem Backend.serve_request {b : Backend} {v : Visit} {s : Served} (h : b.serve cfg v = some s) :
    s.proc.request = v.proc.request := by
  obtain ⟨-, hserve⟩ := Backend.serve_eq_some.mp h
  refine serve_inv (I := fun s => s.proc.request = v.proc.request) hserve ?_ rfl
  intro t m a ht ha
  exact (Proc.step_request ha).trans ht

/-- Serving a request keeps the keys distinct. -/
theorem Backend.serve_wf {b : Backend} {v : Visit} {s : Served} (hwf : b.db.WF)
    (h : b.serve cfg v = some s) : s.db.WF := by
  obtain ⟨-, hrun⟩ := Backend.serve_eq_some.mp h
  refine serve_inv (I := fun s => s.db.WF) hrun (fun t m a ht ha => ?_) hwf
  exact action_wf (w := ⟨t.db, t.now + m.wait, [], fun _ => t.proc⟩) (c := 0) ht ha

end Argus.Auth
