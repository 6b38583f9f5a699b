import Argus.Auth.Rotation
import Argus.Auth.Sequential
import Argus.Lib.Chains

namespace Argus.Auth

/-!
# Session chains

Rows of `refresh_tokens` carry no link to the row they replaced.  The links are implicit in
the requests: a login starts a chain, a successful refresh appends to the chain of the row
it was given.  A ledger keeps them next to the database while requests are processed one at
a time.

* `Ledger`, `SessionOp`, `ledger` — the sequential system.
* `Linked` — the invariant: the chains partition the rows, all rows but the last of a chain
  are revoked, and the last one is revoked exactly when a logout or terminate has hit it.
* `SessionChains` — what follows for live rows, for `rotateRefreshToken` and for
  `authenticate`.
-/

variable {cfg : Config}

/-! ### The sequential system -/

/-- The database and the clock between two requests, with the links nobody stores. -/
structure Ledger where
  db : MasterDb
  now : ℕ
  /-- The session ids of each login, oldest first. -/
  chains : List (List String) := []
  /-- The sessions that a logout or a terminate has hit. -/
  hit : List String := []

/-- The operations on sessions: a request from its first statement to its reply, and the two
    bulk revocations on their own. -/
inductive SessionOp
  | request (p : Proc) (ms : List Moment)
  | terminateAllForUser (userId : String) (exceptTokenHash : Option Digest) (wait : ℕ)
  | terminateOtherSessions (userId exceptSessionId : String) (wait : ℕ)
deriving DecidableEq, Repr

/-- The session a raw refresh token stands for. -/
def MasterDb.sessionOf (db : MasterDb) (raw : String) : Option String :=
  (db.refreshTokens.find? (fun r => decide (r.tokenHash = sha256 raw))).map RefreshToken.id

/-- The chains after a request has replied: a login that returned tokens starts a chain, a
    refresh that did appends to the chain of the session it was given. -/
def link (db : MasterDb) (p : Proc) (chains : List (List String)) : List (List String) :=
  match p with
  | .login _ (.done (.ok claims _ _)) => chains ++ [claims.sid.toList]
  | .refresh raw (.done (.ok claims _)) =>
    match db.sessionOf raw, claims.sid with
    | some old, some new => Chains.extend old new chains
    | _, _ => chains
  | _ => chains

/-- A request that is about to be served. -/
def Ledger.serving (L : Ledger) (p : Proc) : Served := ⟨L.db, L.now, p, []⟩

/-- A single statement on its own. -/
def Ledger.issue (L : Ledger) (wait : ℕ) (stmt : Stmt) : Ledger where
  db := stmt.exec L.db
  now := L.now + wait
  chains := L.chains
  hit := L.hit ++ stmt.hits L.db

/-- Sessions, one operation at a time. -/
def ledger (cfg : Config) : Machine Ledger SessionOp where
  step L
    | .request p ms =>
      if p.atStart then
        (serve cfg (L.serving p) ms).map (fun s =>
          { db := s.db, now := s.now, chains := link L.db s.proc L.chains, hit := L.hit ++ s.hits })
      else none
    | .terminateAllForUser userId exceptTokenHash wait =>
      some (L.issue wait (.terminateAllForUser userId exceptTokenHash (L.now + wait)))
    | .terminateOtherSessions userId exceptSessionId wait =>
      some (L.issue wait (.terminateOtherSessions userId exceptSessionId (L.now + wait)))

/-- Where histories begin: distinct user keys, and no session. -/
structure Ledger.Initial (L : Ledger) : Prop where
  wf : L.db.WF
  noSession : L.db.refreshTokens = []
  noChain : L.chains = []
  noHit : L.hit = []

/-! ### The invariant -/

/-- **Invariant.** -/
structure Linked (db : MasterDb) (chains : List (List String)) (hit : List String) : Prop where
  wf : db.WF
  disjoint : chains.flatten.Nodup
  nonempty : ∀ ch ∈ chains, ch ≠ []
  rows : ∀ sid, sid ∈ chains.flatten ↔ ∃ r ∈ db.refreshTokens, r.id = sid
  tokens : ∀ r ∈ db.refreshTokens, r.tokenHash ≠ sha256 ""
  hits : ∀ sid ∈ hit, ∃ r ∈ db.refreshTokens, r.id = sid
  superseded : ∀ ch ∈ chains, ∀ r ∈ db.refreshTokens, r.id ∈ ch → ch.getLast? ≠ some r.id →
    r.revokedAt.isSome
  last : ∀ ch ∈ chains, ∀ r ∈ db.refreshTokens, ch.getLast? = some r.id →
    (r.revokedAt.isSome ↔ r.id ∈ hit)

theorem Linked.of_initial {L : Ledger} (h : L.Initial) : Linked L.db L.chains L.hit := by
  refine ⟨h.wf, ?_, ?_, ?_, ?_, ?_, ?_, ?_⟩
  · rw [h.noChain]
    simp
  · rw [h.noChain]
    simp
  · rw [h.noChain, h.noSession]
    simp
  · rw [h.noSession]
    simp
  · rw [h.noHit]
    simp
  · rw [h.noChain]
    simp
  · rw [h.noChain]
    simp

section Statements

variable {db : MasterDb} {chains : List (List String)} {hit : List String}

/-- The chain of a stored session. -/
theorem Linked.chain (h : Linked db chains hit) {r : RefreshToken} (hr : r ∈ db.refreshTokens) :
    ∃ ch ∈ chains, r.id ∈ ch :=
  List.mem_flatten.mp ((h.rows r.id).mpr ⟨r, hr, rfl⟩)

/-- **A session that is not revoked is the last of its chain and was never hit.** -/
theorem Linked.of_not_revoked (h : Linked db chains hit) {r : RefreshToken}
    (hr : r ∈ db.refreshTokens) (hrev : r.revokedAt = none) :
    (∃ ch ∈ chains, ch.getLast? = some r.id) ∧ r.id ∉ hit := by
  obtain ⟨ch, hch, hmem⟩ := h.chain hr
  have hlast : ch.getLast? = some r.id := by
    by_contra hne
    have hsome := h.superseded ch hch r hr hmem hne
    rw [hrev] at hsome
    exact absurd hsome (by simp)
  refine ⟨⟨ch, hch, hlast⟩, fun hhit => ?_⟩
  have hsome := (h.last ch hch r hr hlast).mpr hhit
  rw [hrev] at hsome
  exact absurd hsome (by simp)

/-- **Conversely, the last session of a chain is not revoked until it is hit.** -/
theorem Linked.not_revoked (h : Linked db chains hit) {r : RefreshToken} {ch : List String}
    (hr : r ∈ db.refreshTokens) (hch : ch ∈ chains) (hlast : ch.getLast? = some r.id)
    (hhit : r.id ∉ hit) : r.revokedAt = none := by
  rw [← Option.not_isSome_iff_eq_none, h.last ch hch r hr hlast]
  exact hhit

/-- Statements that touch no session keep the invariant. -/
theorem Linked.of_tokens (h : Linked db chains hit) {db' : MasterDb} (hwf : db'.WF)
    (heq : db'.refreshTokens = db.refreshTokens) : Linked db' chains hit := by
  refine ⟨hwf, h.disjoint, h.nonempty, ?_, ?_, ?_, ?_, ?_⟩
  · rw [heq]
    exact h.rows
  · rw [heq]
    exact h.tokens
  · rw [heq]
    exact h.hits
  · rw [heq]
    exact h.superseded
  · rw [heq]
    exact h.last

/-- A revocation leaves the identity of a row as it is. -/
theorem RefreshToken.ite_revoke (matched : Bool) (t : ℕ) (used : Bool) (r : RefreshToken) :
    (if matched then r.revoke t used else r).id = r.id ∧
      (if matched then r.revoke t used else r).tokenHash = r.tokenHash := by
  split <;> exact ⟨rfl, rfl⟩

/-- A row with unused keys is not stored, in no chain, and was never hit. -/
theorem Linked.fresh_row (h : Linked db chains hit) {fresh : Fresh} {row : RefreshToken}
    (hunused : fresh.unused db = true) (hid : row.id = fresh.id)
    (hhash : row.tokenHash = sha256 fresh.raw) :
    (∀ r ∈ db.refreshTokens, r.id ≠ row.id ∧ r.tokenHash ≠ row.tokenHash) ∧
      row.id ∉ chains.flatten ∧ row.id ∉ hit := by
  have hnew : ∀ r ∈ db.refreshTokens, r.id ≠ row.id ∧ r.tokenHash ≠ row.tokenHash := by
    intro r hr
    rw [hid, hhash]
    exact Fresh.unused_ne hunused hr
  refine ⟨hnew, fun hin => ?_, fun hhit => ?_⟩
  · obtain ⟨r, hr, hsame⟩ := (h.rows _).mp hin
    exact (hnew r hr).1 hsame
  · obtain ⟨r, hr, hsame⟩ := h.hits _ hhit
    exact (hnew r hr).1 hsame

/-- **A revoking statement keeps the invariant**: the rows it matches are hit. -/
theorem Linked.hit_stmt (h : Linked db chains hit) {stmt : Stmt}
    (hins : ∀ row, stmt ≠ .insertToken row) (hrot : ∀ id t, stmt ≠ .rotateOut id t) :
    Linked (stmt.exec db) chains (hit ++ stmt.hits db) := by
  have hwf : (stmt.exec db).WF := Stmt.exec_wf h.wf (fun row hrow => absurd hrow (hins row))
  have htokens := Stmt.exec_tokens_of_ne hins db
  have hhits : stmt.hits db = stmt.onTokens.elim []
      (fun p => (db.refreshTokens.filter p.1).map RefreshToken.id) := by
    unfold Stmt.hits
    split
    · exact absurd rfl (hrot _ _)
    · cases stmt.onTokens <;> rfl
  cases hon : stmt.onTokens with
  | none =>
    rw [hon] at htokens hhits
    rw [hhits, Option.elim_none, List.append_nil]
    exact h.of_tokens hwf htokens
  | some p =>
    obtain ⟨matched, t, used⟩ := p
    rw [hon] at htokens hhits
    have hmem : ∀ r', r' ∈ (stmt.exec db).refreshTokens ↔
        ∃ r ∈ db.refreshTokens, (if matched r then r.revoke t used else r) = r' := by
      intro r'
      rw [htokens]
      exact Table.mem_update
    have hid : ∀ r : RefreshToken, (if matched r then r.revoke t used else r).id = r.id :=
      fun r => (RefreshToken.ite_revoke (matched r) t used r).1
    -- ids are distinct, so a session is hit exactly when its own row is matched
    have hmatch : ∀ r ∈ db.refreshTokens, (r.id ∈ stmt.hits db ↔ matched r = true) := by
      intro r hr
      rw [hhits, Option.elim_some, List.mem_map]
      constructor
      · rintro ⟨r₂, hr₂, hsame⟩
        obtain ⟨hr₂, hm⟩ := List.mem_filter.mp hr₂
        rw [← h.wf.eq_of_id hr₂ hr hsame]
        exact hm
      · intro hm
        exact ⟨r, List.mem_filter.mpr ⟨hr, hm⟩, rfl⟩
    refine ⟨hwf, h.disjoint, h.nonempty, ?_, ?_, ?_, ?_, ?_⟩
    · -- rows: an update neither adds nor removes one
      intro sid
      rw [h.rows]
      constructor
      · rintro ⟨r, hr, rfl⟩
        exact ⟨_, (hmem _).mpr ⟨r, hr, rfl⟩, hid r⟩
      · rintro ⟨r', hr', rfl⟩
        obtain ⟨r, hr, rfl⟩ := (hmem _).mp hr'
        exact ⟨r, hr, (hid r).symm⟩
    · intro r' hr'
      obtain ⟨r, hr, rfl⟩ := (hmem _).mp hr'
      rw [(RefreshToken.ite_revoke (matched r) t used r).2]
      exact h.tokens r hr
    · -- hits: what the statement matches is stored
      intro sid hsid
      have hstored : ∃ r ∈ db.refreshTokens, r.id = sid := by
        rcases List.mem_append.mp hsid with hold | hnew
        · exact h.hits sid hold
        · rw [hhits] at hnew
          obtain ⟨r, hr, rfl⟩ := List.mem_map.mp hnew
          exact ⟨r, (List.mem_filter.mp hr).1, rfl⟩
      obtain ⟨r, hr, rfl⟩ := hstored
      exact ⟨_, (hmem _).mpr ⟨r, hr, rfl⟩, hid r⟩
    · -- superseded: a revocation is not taken back
      intro ch hch r' hr' hin hlast
      obtain ⟨r, hr, rfl⟩ := (hmem _).mp hr'
      rw [hid] at hin hlast
      have hrev := h.superseded ch hch r hr hin hlast
      split
      · rfl
      · exact hrev
    · -- last: matched rows become revoked and hit, the others keep both
      intro ch hch r' hr' hlast
      obtain ⟨r, hr, rfl⟩ := (hmem _).mp hr'
      rw [hid] at hlast
      rw [hid, List.mem_append, hmatch r hr]
      by_cases hm : matched r = true
      · simp [hm, RefreshToken.revoke]
      · rw [if_neg hm]
        simp only [hm, Bool.false_eq_true, or_false]
        exact h.last ch hch r hr hlast

/-- **A login keeps the invariant**: its session is a chain of its own. -/
theorem Linked.login (h : Linked db chains hit) {fresh : Fresh} {row : RefreshToken}
    (hunused : fresh.unused db = true) (hid : row.id = fresh.id)
    (hhash : row.tokenHash = sha256 fresh.raw) (hrev : row.revokedAt = none) :
    Linked ((Stmt.insertToken row).exec db) (chains ++ [[row.id]]) hit := by
  obtain ⟨hnew, hout, hnohit⟩ := h.fresh_row hunused hid hhash
  have hmem : ∀ r, r ∈ ((Stmt.insertToken row).exec db).refreshTokens ↔
      r ∈ db.refreshTokens ∨ r = row := by
    intro r
    rw [Stmt.exec_insertToken, List.mem_append, List.mem_singleton]
  refine ⟨Stmt.exec_wf h.wf (fun row' hrow' => ?_), ?_, ?_, ?_, ?_, ?_, ?_, ?_⟩
  · obtain rfl := Stmt.insertToken.inj hrow'
    exact hnew
  · -- disjoint: the new chain has the new session only
    rw [List.flatten_append, List.nodup_append]
    refine ⟨h.disjoint, by simp, fun a ha b hb hab => ?_⟩
    obtain rfl : b = row.id := by simpa using hb
    exact hout (hab ▸ ha)
  · intro ch hch
    rcases List.mem_append.mp hch with hold | hnewest
    · exact h.nonempty ch hold
    · rw [List.mem_singleton.mp hnewest]
      simp
  · -- rows: one more session, one more row
    intro sid
    simp only [hmem, List.flatten_append, List.mem_append, h.rows]
    constructor
    · rintro (⟨r, hr, rfl⟩ | hsid)
      · exact ⟨r, Or.inl hr, rfl⟩
      · obtain rfl : sid = row.id := by simpa using hsid
        exact ⟨row, Or.inr rfl, rfl⟩
    · rintro ⟨r, hr | rfl, rfl⟩
      · exact Or.inl ⟨r, hr, rfl⟩
      · exact Or.inr (by simp)
  · intro r hr
    rcases (hmem r).mp hr with hr | rfl
    · exact h.tokens r hr
    · rw [hhash]
      exact fun heq => Fresh.unused_raw hunused (Digest.sha256.inj heq)
  · intro sid hsid
    obtain ⟨r, hr, hsame⟩ := h.hits sid hsid
    exact ⟨r, (hmem r).mpr (Or.inl hr), hsame⟩
  · -- superseded: the only session of the new chain is its last
    intro ch hch r hr hin hlast
    rcases List.mem_append.mp hch with hold | hnewest
    · rcases (hmem r).mp hr with hr | rfl
      · exact h.superseded ch hold r hr hin hlast
      · exact absurd (List.mem_flatten.mpr ⟨ch, hold, hin⟩) hout
    · obtain rfl := List.mem_singleton.mp hnewest
      have hrow : r.id = row.id := List.mem_singleton.mp hin
      exact absurd (by rw [hrow]; rfl) hlast
  · intro ch hch r hr hlast
    rcases (hmem r).mp hr with hr | rfl
    · rcases List.mem_append.mp hch with hch | hch
      · exact h.last ch hch r hr hlast
      · obtain rfl := List.mem_singleton.mp hch
        exact absurd (by simpa using hlast.symm) (hnew r hr).1
    · -- the new session is neither revoked nor hit
      simp [hrev, hnohit]

/-- A chain holding a live session ends in it. -/
theorem Linked.getLast?_of_live (h : Linked db chains hit) {old : RefreshToken}
    (hold : old ∈ db.refreshTokens) (hlive : old.revokedAt = none) {ch : List String}
    (hch : ch ∈ chains) (hmem : old.id ∈ ch) : ch.getLast? = some old.id := by
  obtain ⟨⟨ch', hch', hlast'⟩, -⟩ := h.of_not_revoked hold hlive
  rw [Chains.eq_of_mem h.disjoint hch hch' hmem (List.mem_of_getLast? hlast')]
  exact hlast'

/-- The rows after a rotation: those before, one of them revoked, and the new row. -/
theorem Stmt.mem_refreshTokens_rotate {sid : String} {t : ℕ} {r' : RefreshToken} :
    r' ∈ ((Stmt.insertToken row).exec ((Stmt.rotateOut sid t).exec db)).refreshTokens ↔
      (∃ r ∈ db.refreshTokens, (if decide (r.id = sid) then r.revoke t true else r) = r') ∨
        r' = row := by
  rw [Stmt.exec_insertToken, List.mem_append, List.mem_singleton]
  exact or_congr_left Table.mem_update

/-- **A rotation keeps the invariant**: the session it was given is superseded, its successor
    is the last of the chain. -/
theorem Linked.rotate (h : Linked db chains hit) {fresh : Fresh} {old row : RefreshToken} {t : ℕ}
    (hold : old ∈ db.refreshTokens) (hlive : old.revokedAt = none)
    (hunused : fresh.unused db = true) (hid : row.id = fresh.id)
    (hhash : row.tokenHash = sha256 fresh.raw) (hrev : row.revokedAt = none) :
    Linked ((Stmt.insertToken row).exec ((Stmt.rotateOut old.id t).exec db))
      (Chains.extend old.id row.id chains) hit := by
  obtain ⟨hnew, hout, hnohit⟩ := h.fresh_row hunused hid hhash
  have hin : old.id ∈ chains.flatten := (h.rows _).mpr ⟨old, hold, rfl⟩
  have hsame := fun r : RefreshToken => RefreshToken.ite_revoke (decide (r.id = old.id)) t true r
  refine ⟨?_, Chains.nodup_flatten_extend h.disjoint hout, ?_, ?_, ?_, ?_, ?_, ?_⟩
  · refine Stmt.exec_wf (Stmt.exec_wf h.wf (by simp)) (fun row' hrow' r' hr' => ?_)
    obtain rfl := Stmt.insertToken.inj hrow'
    obtain ⟨r, hr, rfl⟩ := Table.mem_update.mp hr'
    rw [(hsame r).1, (hsame r).2]
    exact hnew r hr
  · intro ch hch
    obtain ⟨ch₀, hch₀, ⟨-, rfl⟩ | ⟨-, rfl⟩⟩ := Chains.mem_extend.mp hch
    · simp
    · exact h.nonempty ch hch₀
  · -- rows: the chain grows by the row that is inserted
    intro sid
    rw [Chains.mem_flatten_extend hin, h.rows]
    simp only [Stmt.mem_refreshTokens_rotate]
    constructor
    · rintro (⟨r, hr, rfl⟩ | rfl)
      · exact ⟨_, Or.inl ⟨r, hr, rfl⟩, (hsame r).1⟩
      · exact ⟨row, Or.inr rfl, rfl⟩
    · rintro ⟨r', ⟨r, hr, rfl⟩ | rfl, rfl⟩
      · exact Or.inl ⟨r, hr, (hsame r).1.symm⟩
      · exact Or.inr rfl
  · intro r' hr'
    obtain ⟨r, hr, rfl⟩ | rfl := Stmt.mem_refreshTokens_rotate.mp hr'
    · rw [(hsame r).2]
      exact h.tokens r hr
    · rw [hhash]
      exact fun heq => Fresh.unused_raw hunused (Digest.sha256.inj heq)
  · intro sid hsid
    obtain ⟨r, hr, rfl⟩ := h.hits sid hsid
    exact ⟨_, Stmt.mem_refreshTokens_rotate.mpr (Or.inl ⟨r, hr, rfl⟩), (hsame r).1⟩
  · -- superseded: the old session now is, the others were
    intro ch hch r' hr' hin' hlast'
    obtain ⟨ch₀, hch₀, ⟨hold₀, rfl⟩ | ⟨hold₀, rfl⟩⟩ := Chains.mem_extend.mp hch
    · obtain ⟨r, hr, rfl⟩ | rfl := Stmt.mem_refreshTokens_rotate.mp hr'
      · rw [(hsame r).1] at hin' hlast'
        by_cases hro : r.id = old.id
        · simp [hro, RefreshToken.revoke]
        · have hr₀ : r.id ∈ ch₀ := by
            rcases List.mem_append.mp hin' with hr₀ | hr₀
            · exact hr₀
            · exact absurd (List.mem_singleton.mp hr₀) (hnew r hr).1
          have hne : ch₀.getLast? ≠ some r.id := by
            rw [h.getLast?_of_live hold hlive hch₀ hold₀]
            exact fun heq => hro (Option.some.inj heq).symm
          simpa [hro] using h.superseded ch₀ hch₀ r hr hr₀ hne
      · exact absurd (by simp) hlast'
    · obtain ⟨r, hr, rfl⟩ | rfl := Stmt.mem_refreshTokens_rotate.mp hr'
      · rw [(hsame r).1] at hin' hlast'
        have hro : r.id ≠ old.id := fun heq => hold₀ (heq ▸ hin')
        simpa [hro] using h.superseded ch hch₀ r hr hin' hlast'
      · exact absurd (List.mem_flatten.mpr ⟨ch, hch₀, hin'⟩) hout
  · -- last: the extended chain ends in the new session, the other chains end as before
    intro ch hch r' hr' hlast'
    obtain ⟨ch₀, hch₀, ⟨hold₀, rfl⟩ | ⟨hold₀, rfl⟩⟩ := Chains.mem_extend.mp hch
    · obtain ⟨r, hr, rfl⟩ | rfl := Stmt.mem_refreshTokens_rotate.mp hr'
      · rw [(hsame r).1, List.getLast?_append] at hlast'
        exact absurd (by simpa using hlast'.symm) (hnew r hr).1
      · simp [hrev, hnohit]
    · obtain ⟨r, hr, rfl⟩ | rfl := Stmt.mem_refreshTokens_rotate.mp hr'
      · rw [(hsame r).1] at hlast' ⊢
        have hro : r.id ≠ old.id := fun heq => hold₀ (heq ▸ List.mem_of_getLast? hlast')
        simpa [hro] using h.last ch hch₀ r hr hlast'
      · exact absurd (List.mem_flatten.mpr ⟨ch, hch₀, List.mem_of_getLast? hlast'⟩) hout

end Statements

/-! ### Requests keep the invariant -/

/-- The session of a token is that of its row. -/
theorem MasterDb.sessionOf_of_mem {db : MasterDb} (hwf : db.WF) {r : RefreshToken} {raw : String}
    (hr : r ∈ db.refreshTokens) (hhash : r.tokenHash = sha256 raw) :
    db.sessionOf raw = some r.id := by
  unfold MasterDb.sessionOf
  cases hfind : db.refreshTokens.find? (fun r => decide (r.tokenHash = sha256 raw)) with
  | none => exact absurd (decide_eq_true hhash) (List.find?_eq_none.mp hfind r hr)
  | some r' =>
    have hhash' : r'.tokenHash = sha256 raw := by simpa using List.find?_some hfind
    rw [hwf.eq_of_hash (List.mem_of_find?_eq_some hfind) hr (hhash'.trans hhash.symm)]
    rfl

/-- What a statement of any request but a refresh does to sessions and chains: at most it
    revokes, and the one that inserts ends a login. -/
theorem Proc.step_link {now : ℕ} {fresh : Fresh} {db : MasterDb} {p : Proc} {a : Action Proc}
    (h : p.step cfg now fresh db = some a) (hp : ∀ raw pc, p ≠ .refresh raw pc)
    (db₀ : MasterDb) (chains : List (List String)) :
    (∀ raw pc, a.next ≠ .refresh raw pc) ∧ link db₀ p chains = chains ∧
    (((∀ row, a.stmt ≠ .insertToken row) ∧ (∀ id t, a.stmt ≠ .rotateOut id t) ∧
        link db₀ a.next chains = chains) ∨
      ∃ row, a.stmt = .insertToken row ∧ link db₀ a.next chains = chains ++ [[row.id]]) := by
  have hissued := Proc.step_issues h
  cases p <;> simp only [Proc.step, Option.map_eq_some_iff] at h <;> obtain ⟨b, hb, rfl⟩ := h
  case refresh raw pc => exact absurd rfl (hp raw pc)
  case login req pc =>
    refine ⟨fun raw pc' => by simp [Action.map], ?_⟩
    cases pc with
    | start =>
      refine ⟨rfl, Or.inl ?_⟩
      simp only [LoginPc.step] at hb
      split at hb
      · obtain rfl := Option.some.inj hb
        exact ⟨by simp [Action.map], by simp [Action.map], rfl⟩
      · obtain rfl := Option.some.inj hb
        refine ⟨by simp [Action.map], by simp [Action.map], ?_⟩
        -- the first statement never ends in tokens
        unfold Action.map link
        split
        · rename_i heq
          have hdone := (Proc.login.inj heq).2
          unfold afterFindLocalUser at hdone
          repeat' split at hdone
          all_goals exact absurd hdone (by simp)
        · rename_i heq
          exact absurd heq (by simp)
        · rfl
    | issuing user used =>
      refine ⟨rfl, Or.inr ?_⟩
      simp only [LoginPc.step] at hb
      split at hb
      · obtain rfl := Option.some.inj hb
        exact ⟨_, rfl, rfl⟩
      · exact absurd hb (by simp)
    | counting user policy =>
      obtain rfl := Option.some.inj hb
      refine ⟨rfl, Or.inl ⟨?_, ?_, rfl⟩⟩ <;> simp only [Action.map, recordFailure] <;>
        split <;> simp
    | done reply => exact absurd hb (by simp [LoginPc.step])
    | _ =>
      obtain rfl := Option.some.inj hb
      exact ⟨rfl, Or.inl ⟨by simp [Action.map], by simp [Action.map], rfl⟩⟩
  all_goals
    refine ⟨fun raw pc' => by simp [Action.map], rfl,
      Or.inl ⟨fun row hrow => ?_, fun id t hrot => ?_, rfl⟩⟩
  all_goals first | rw [hrow] at hissued | rw [hrot] at hissued
  all_goals simp [Stmt.IssuedBy] at hissued

/-- **A request that is no refresh keeps the invariant.** -/
theorem Linked.serve_other {L : Ledger} (h : Linked L.db L.chains L.hit) {p : Proc}
    (hp : ∀ raw pc, p ≠ .refresh raw pc) (hstart : p.atStart = true) {ms : List Moment} {s : Served}
    (hserve : serve cfg (L.serving p) ms = some s) :
    Linked s.db (link L.db s.proc L.chains) (L.hit ++ s.hits) := by
  refine (serve_inv (I := fun s => (∀ raw pc, s.proc ≠ .refresh raw pc) ∧
    Linked s.db (link L.db s.proc L.chains) (L.hit ++ s.hits)) hserve ?_ ⟨hp, ?_⟩).2
  · rintro s m a ⟨hkind, hs⟩ ha
    obtain ⟨hkind', hbefore, ⟨hins, hrot, hafter⟩ | ⟨row, hstmt, hafter⟩⟩ :=
      Proc.step_link ha hkind L.db L.chains
    · refine ⟨hkind', ?_⟩
      show Linked (a.stmt.exec s.db) (link L.db a.next L.chains)
        (L.hit ++ (s.hits ++ a.stmt.hits s.db))
      rw [hbefore] at hs
      rw [hafter, ← List.append_assoc]
      exact hs.hit_stmt hins hrot
    · refine ⟨hkind', ?_⟩
      show Linked (a.stmt.exec s.db) (link L.db a.next L.chains)
        (L.hit ++ (s.hits ++ a.stmt.hits s.db))
      obtain ⟨hunused, hid, hhash, hrev⟩ := Proc.step_insert ha hstmt
      have hnohit : a.stmt.hits s.db = [] := by rw [hstmt]; rfl
      rw [hbefore] at hs
      rw [hafter, hnohit, List.append_nil, hstmt]
      exact hs.login hunused hid hhash hrev
  · have hlink : link L.db p L.chains = L.chains := by
      cases p <;> try rfl
      case login req pc =>
        obtain rfl := of_decide_eq_true hstart
        rfl
      case refresh raw pc => exact absurd rfl (hp raw pc)
    show Linked L.db (link L.db p L.chains) (L.hit ++ [])
    rw [hlink, List.append_nil]
    exact h

/-- Where a refresh that is served alone stands, relative to the database it began with. -/
def RefreshPc.Progress (db₀ : MasterDb) (chains : List (List String)) (hit : List String)
    (raw : String) (db : MasterDb) : RefreshPc → Prop
  | .start => db = db₀
  | .selected row _ => db = db₀ ∧ row ∈ db₀.refreshTokens ∧ row.tokenHash = sha256 raw ∧
      row.revokedAt = none
  | .revoked row => (∃ t, db = (Stmt.rotateOut row.id t).exec db₀) ∧ row ∈ db₀.refreshTokens ∧
      row.tokenHash = sha256 raw ∧ row.revokedAt = none
  | .rotated _ _ sid => ∃ old, db₀.sessionOf raw = some old ∧
      Linked db (Chains.extend old sid chains) hit
  | .done (.ok claims _) => ∃ old sid, db₀.sessionOf raw = some old ∧ claims.sid = some sid ∧
      Linked db (Chains.extend old sid chains) hit
  | .done _ => db = db₀

/-- Revoking a row leaves ids and tokens as they are. -/
theorem Fresh.unused_rotateOut {fresh : Fresh} {db : MasterDb} (id : String) (t : ℕ) :
    fresh.unused ((Stmt.rotateOut id t).exec db) = fresh.unused db := by
  have hrow : ((Stmt.rotateOut id t).exec db).refreshTokens
      = db.refreshTokens.map (fun r => if decide (r.id = id) then r.revoke t true else r) := rfl
  unfold Fresh.unused
  rw [hrow, List.all_map]
  congr 2
  funext r
  simp only [Function.comp_apply]
  split <;> rfl

/-- **A refresh keeps the invariant.** -/
theorem Linked.serve_refresh {L : Ledger} (h : Linked L.db L.chains L.hit) {raw : String}
    {ms : List Moment} {s : Served}
    (hserve : serve cfg (L.serving (.refresh raw .start)) ms = some s) :
    Linked s.db (link L.db s.proc L.chains) (L.hit ++ s.hits) := by
  have hinv := serve_inv (I := fun s => s.hits = [] ∧ ∃ pc, s.proc = .refresh raw pc ∧
    pc.Progress L.db L.chains L.hit raw s.db) hserve ?_ ⟨rfl, .start, rfl, rfl⟩
  · obtain ⟨hhits, pc, hproc, hpc⟩ := hinv
    have hfin := (serve_eq_some.mp hserve).2
    rw [hproc] at hfin ⊢
    rw [hhits, List.append_nil]
    cases pc with
    | done reply =>
      cases reply with
      | ok claims token =>
        obtain ⟨old, sid, hold, hsid, hlinked⟩ := hpc
        simp only [link, hold, hsid]
        exact hlinked
      | _ =>
        rw [show s.db = L.db from hpc]
        exact h
    | _ => exact absurd hfin (by simp [Proc.finished])
  · rintro s m a ⟨hhits, pc, hproc, hpc⟩ ha
    rw [hproc] at ha
    simp only [Proc.step, Option.map_eq_some_iff] at ha
    obtain ⟨b, hb, rfl⟩ := ha
    obtain ⟨rfl, hstmt, -, hnext⟩ | ⟨row, t, rfl, rfl⟩ |
      ⟨row, rfl, hunused, rfl⟩ | ⟨u, tok, sid, claims, rfl, hclaims, rfl⟩ := RefreshPc.step_cases hb
    · -- the `SELECT`
      have hdb : (s.after m.wait (b.map (Proc.refresh raw))).db = L.db := by
        show b.stmt.exec s.db = L.db
        rw [hstmt]
        exact hpc
      refine ⟨?_, b.next, rfl, ?_⟩
      · simp [Served.after, Action.map, hhits, hstmt, Stmt.hits, Stmt.onTokens]
      rw [hdb]
      obtain hnext | hnext | ⟨row, hrow, hnext⟩ := hnext
      · rw [hnext]
        exact rfl
      · rw [hnext]
        exact rfl
      · rw [hnext]
        rw [show s.db = L.db from hpc] at hrow
        obtain ⟨hmem, hhash, hlive⟩ := MasterDb.liveTokenByHash_some hrow
        exact ⟨rfl, hmem, hhash, (RefreshToken.live_iff.mp hlive).1⟩
    · -- the `UPDATE`
      obtain ⟨hdb, hrow⟩ := hpc
      refine ⟨?_, .revoked row, rfl, ⟨t, ?_⟩, hrow⟩
      · simp [Served.after, Action.map, hhits, Stmt.hits]
      show (Stmt.rotateOut row.id t).exec s.db = _
      rw [hdb]
    · -- the `INSERT`: only now the chain is extended
      obtain ⟨⟨t, hdb⟩, hmem, hhash, hrev⟩ := hpc
      refine ⟨by simp [Served.after, Action.map, hhits, Stmt.hits, Stmt.onTokens],
        .rotated row.userId m.fresh.raw m.fresh.id, rfl, row.id,
        MasterDb.sessionOf_of_mem h.wf hmem hhash, ?_⟩
      rw [hdb, Fresh.unused_rotateOut] at hunused
      show Linked ((Stmt.insertToken _).exec s.db) _ _
      rw [hdb]
      exact h.rotate hmem hrev hunused rfl rfl rfl
    · obtain ⟨old, hold, hlinked⟩ := hpc
      refine ⟨by simp [Served.after, Action.map, hhits, Stmt.hits, Stmt.onTokens], _, rfl, old, sid,
        hold, by rw [hclaims], hlinked⟩

theorem Linked.issue {L : Ledger} (h : Linked L.db L.chains L.hit) (wait : ℕ) {stmt : Stmt}
    (hins : ∀ row, stmt ≠ .insertToken row) (hrot : ∀ id t, stmt ≠ .rotateOut id t) :
    Linked (L.issue wait stmt).db (L.issue wait stmt).chains (L.issue wait stmt).hit :=
  h.hit_stmt hins hrot

/-- **Step lemma.** -/
theorem Linked.step {L L' : Ledger} {op : SessionOp} (h : Linked L.db L.chains L.hit)
    (hstep : (ledger cfg).step L op = some L') : Linked L'.db L'.chains L'.hit := by
  cases op with
  | request p ms =>
    simp only [ledger] at hstep
    split at hstep
    · rename_i hstart
      obtain ⟨s, hserve, rfl⟩ := Option.map_eq_some_iff.mp hstep
      by_cases hp : ∃ raw pc, p = .refresh raw pc
      · obtain ⟨raw, pc, rfl⟩ := hp
        obtain rfl := of_decide_eq_true hstart
        exact h.serve_refresh hserve
      · exact h.serve_other (fun raw pc heq => hp ⟨raw, pc, heq⟩) hstart hserve
    · exact absurd hstep (by simp)
  | terminateAllForUser userId exceptTokenHash wait =>
    obtain rfl := Option.some.inj hstep
    exact h.issue wait (by simp) (by simp)
  | terminateOtherSessions userId exceptSessionId wait =>
    obtain rfl := Option.some.inj hstep
    exact h.issue wait (by simp) (by simp)

/-- **Run lemma.** -/
theorem Linked.of_run {L₀ L : Ledger} {ops : List SessionOp} (h₀ : L₀.Initial)
    (hrun : (ledger cfg).exec L₀ ops = some L) : Linked L.db L.chains L.hit :=
  Machine.inv_of_exec (G := fun _ _ => True) (I := fun L => Linked L.db L.chains L.hit)
    (fun _ _ _ h _ hstep => h.step hstep) (Linked.of_initial h₀) (Machine.Meets.always L₀ ops) hrun

/-! ### What the chains are good for -/

/-- A session that is the last of its chain. -/
def Ledger.IsLast (L : Ledger) (sid : String) : Prop := ∃ ch ∈ L.chains, ch.getLast? = some sid

/-- **The session chains of a reached state.** -/
structure SessionChains (cfg : Config) (L : Ledger) : Prop where
  /-- A row belongs to exactly one chain; no chain is empty, and its links are rows. -/
  rows : ∀ r ∈ L.db.refreshTokens, ∃! ch, ch ∈ L.chains ∧ r.id ∈ ch
  nonempty : ∀ ch ∈ L.chains, ch ≠ []
  links : ∀ ch ∈ L.chains, ∀ sid ∈ ch, ∃ r ∈ L.db.refreshTokens, r.id = sid
  /-- At most one row of a chain is live, and it is the last. -/
  live_last : ∀ ch ∈ L.chains, ∀ r ∈ L.db.refreshTokens, r.id ∈ ch → r.live L.now = true →
    ch.getLast? = some r.id
  live_unique : ∀ ch ∈ L.chains, ∀ r ∈ L.db.refreshTokens, ∀ r' ∈ L.db.refreshTokens,
    r.id ∈ ch → r'.id ∈ ch → r.live L.now = true → r'.live L.now = true → r = r'
  /-- `rotateRefreshToken` of any token, whenever its statements happen, succeeds exactly on
      the last row of a chain that is neither hit nor expired. -/
  rotate : ∀ raw (m₁ m₂ m₃ m₄ : Moment), m₃.fresh.unused L.db = true →
    ∃ s, serve cfg (L.serving (.refresh raw .start)) [m₁, m₂, m₃, m₄] = some s ∧
      (s.proc.returned = some raw ↔ ∃ r ∈ L.db.refreshTokens, r.tokenHash = sha256 raw ∧
        L.IsLast r.id ∧ r.id ∉ L.hit ∧ L.now + m₁.wait < r.expiresAt)
  /-- The revocation checks of `authenticate`, at any instant. -/
  access : ∀ now sub sid tv, revocationCheck L.db now ⟨sub, some sid, some tv⟩ = none ↔
    L.db.getTokenVersion sub = some tv ∧
      ∃ r ∈ L.db.refreshTokens, r.id = sid ∧ r.live now = true ∧ L.IsLast sid

section Refresh

variable (cfg : Config) (L : Ledger) {raw : String} (m₁ m₂ m₃ m₄ : Moment)

/-- A refresh whose `SELECT` finds a row returns a successor. -/
theorem serve_refresh_of_some {row : RefreshToken} (hraw : raw ≠ "")
    (hrow : L.db.liveTokenByHash (sha256 raw) (L.now + m₁.wait) = some row)
    (hunused : m₃.fresh.unused L.db = true) :
    ∃ s, serve cfg (L.serving (.refresh raw .start)) [m₁, m₂, m₃, m₄] = some s ∧
      s.proc.returned = some raw := by
  have hunused' : m₃.fresh.unused ((Stmt.rotateOut row.id (L.now + m₁.wait)).exec L.db) = true := by
    rw [Fresh.unused_rotateOut]
    exact hunused
  simp [serve, Machine.exec_cons, alone, Ledger.serving, Proc.finished, Proc.step, RefreshPc.step,
    hraw, hrow, Served.after, Action.map, hunused', Proc.returned]

/-- A refresh whose `SELECT` finds no row is refused. -/
theorem serve_refresh_of_none
    (hnone : raw = "" ∨ L.db.liveTokenByHash (sha256 raw) (L.now + m₁.wait) = none) :
    ∃ s, serve cfg (L.serving (.refresh raw .start)) [m₁, m₂, m₃, m₄] = some s ∧
      s.proc.returned = none := by
  by_cases hraw : raw = ""
  · simp [serve, Machine.exec_cons, alone, Ledger.serving, Proc.finished, Proc.step, RefreshPc.step,
      hraw, Served.after, Action.map, Proc.returned]
  · have hfind := hnone.resolve_left hraw
    simp [serve, Machine.exec_cons, alone, Ledger.serving, Proc.finished, Proc.step, RefreshPc.step,
      hraw, hfind, Served.after, Action.map, Proc.returned]

end Refresh

/-- **A rotation succeeds exactly on the last row of a chain**, not hit and not expired. -/
theorem Linked.returned_iff {L : Ledger} (h : Linked L.db L.chains L.hit) (raw : String)
    (m₁ m₂ m₃ m₄ : Moment) (hunused : m₃.fresh.unused L.db = true) :
    ∃ s, serve cfg (L.serving (.refresh raw .start)) [m₁, m₂, m₃, m₄] = some s ∧
      (s.proc.returned = some raw ↔ ∃ r ∈ L.db.refreshTokens, r.tokenHash = sha256 raw ∧
        L.IsLast r.id ∧ r.id ∉ L.hit ∧ L.now + m₁.wait < r.expiresAt) := by
  by_cases hraw : raw = ""
  · -- the empty string is no token
    obtain ⟨s, hs, hret⟩ := serve_refresh_of_none cfg L m₁ m₂ m₃ m₄ (Or.inl hraw)
    refine ⟨s, hs, ?_⟩
    rw [hret]
    refine ⟨fun hsome => absurd hsome (by simp), ?_⟩
    rintro ⟨r, hr, hhash, -⟩
    exact absurd (hhash.trans (by rw [hraw])) (h.tokens r hr)
  · cases hfind : L.db.liveTokenByHash (sha256 raw) (L.now + m₁.wait) with
    | some row =>
      obtain ⟨s, hs, hret⟩ := serve_refresh_of_some cfg L m₁ m₂ m₃ m₄ hraw hfind hunused
      refine ⟨s, hs, fun _ => ?_, fun _ => hret⟩
      obtain ⟨hmem, hhash, hlive⟩ := MasterDb.liveTokenByHash_some hfind
      obtain ⟨hrev, hexp⟩ := RefreshToken.live_iff.mp hlive
      obtain ⟨hlast, hhit⟩ := h.of_not_revoked hmem hrev
      exact ⟨row, hmem, hhash, hlast, hhit, hexp⟩
    | none =>
      obtain ⟨s, hs, hret⟩ := serve_refresh_of_none cfg L m₁ m₂ m₃ m₄ (Or.inr hfind)
      refine ⟨s, hs, ?_⟩
      rw [hret]
      refine ⟨fun hsome => absurd hsome (by simp), ?_⟩
      rintro ⟨r, hr, hhash, ⟨ch, hch, hlast⟩, hhit, hexp⟩
      have hlive : r.live (L.now + m₁.wait) = true :=
        RefreshToken.live_iff.mpr ⟨h.not_revoked hr hch hlast hhit, hexp⟩
      exact absurd (by simp [hhash, hlive]) (List.find?_eq_none.mp hfind r hr)

/-- **An access token passes exactly with the current version and a live last session.** -/
theorem Linked.revocationCheck_iff {L : Ledger} (h : Linked L.db L.chains L.hit) (now : ℕ)
    (sub sid : String) (tv : ℕ) :
    revocationCheck L.db now ⟨sub, some sid, some tv⟩ = none ↔
      L.db.getTokenVersion sub = some tv ∧
        ∃ r ∈ L.db.refreshTokens, r.id = sid ∧ r.live now = true ∧ L.IsLast sid := by
  rw [revocationCheck_eq_none]
  constructor
  · rintro ⟨hversion, hsession⟩
    obtain ⟨r, hr, hp⟩ := List.any_eq_true.mp (hsession sid rfl)
    rw [Bool.and_eq_true, decide_eq_true_eq] at hp
    -- a live session is not revoked, so it is the last of its chain
    obtain ⟨hlast, -⟩ := h.of_not_revoked hr (RefreshToken.live_iff.mp hp.2).1
    rw [hp.1] at hlast
    exact ⟨hversion tv rfl, r, hr, hp.1, hp.2, hlast⟩
  · rintro ⟨hversion, r, hr, hid, hlive, -⟩
    refine ⟨fun tv' htv' => ?_, fun sid' hsid' => ?_⟩
    · obtain rfl := Option.some.inj htv'
      exact hversion
    · obtain rfl := Option.some.inj hsid'
      exact List.any_eq_true.mpr ⟨r, hr, by simp [hid, hlive]⟩

/-- **Session-chain invariant.**  In every state that any sequence of operations reaches, with
    any clock that does not go back, the rows form chains as `SessionChains` says. -/
theorem ledger_sessionChains {L₀ L : Ledger} {ops : List SessionOp} (h₀ : L₀.Initial)
    (hrun : (ledger cfg).exec L₀ ops = some L) : SessionChains cfg L := by
  have h : Linked L.db L.chains L.hit := Linked.of_run h₀ hrun
  have hlast : ∀ ch ∈ L.chains, ∀ r ∈ L.db.refreshTokens, r.id ∈ ch → r.live L.now = true →
      ch.getLast? = some r.id := by
    intro ch hch r hr hmem hlive
    obtain ⟨⟨ch', hch', hlast'⟩, -⟩ := h.of_not_revoked hr (RefreshToken.live_iff.mp hlive).1
    rw [Chains.eq_of_mem h.disjoint hch hch' hmem (List.mem_of_getLast? hlast')]
    exact hlast'
  refine ⟨?_, h.nonempty, ?_, hlast, ?_, h.returned_iff, h.revocationCheck_iff⟩
  · intro r hr
    obtain ⟨ch, hch, hmem⟩ := h.chain hr
    exact ⟨ch, ⟨hch, hmem⟩, fun ch' hch' => Chains.eq_of_mem h.disjoint hch'.1 hch hch'.2 hmem⟩
  · intro ch hch sid hsid
    exact (h.rows sid).mp (List.mem_flatten.mpr ⟨ch, hch, hsid⟩)
  · intro ch hch r hr r' hr' hmem hmem' hlive hlive'
    have hsame := (hlast ch hch r hr hmem hlive).symm.trans (hlast ch hch r' hr' hmem' hlive')
    exact h.wf.eq_of_id hr hr' (Option.some.inj hsame)

/-- A login, a refresh of its token, then the bulk revocation that spares the new session. -/
theorem ledger_sessionChains_rotation :
    ∃ L, (ledger Sample.config).exec ⟨{ Sample.db with refreshTokens := [] }, 0, [], []⟩
        [.request (.login { username := "ann", password := "pw" } .start)
          [{}, {}, {}, { fresh := { id := "s1", raw := "t1" } }],
         .request (.refresh "t1" .start)
          [{}, { wait := 5 }, { fresh := { id := "s2", raw := "t2" } }, {}],
         .terminateOtherSessions "u" "s2" 0] = some L ∧
      L.chains = [["s1", "s2"]] ∧ L.hit = [] ∧ SessionChains Sample.config L := by
  have hinit : (⟨{ Sample.db with refreshTokens := [] }, 0, [], []⟩ : Ledger).Initial :=
    ⟨⟨by decide, by decide, by decide, by decide⟩, rfl, rfl, rfl⟩
  obtain ⟨L, hrun, hchains, hhit⟩ : ∃ L, (ledger Sample.config).exec
      ⟨{ Sample.db with refreshTokens := [] }, 0, [], []⟩
      [.request (.login { username := "ann", password := "pw" } .start)
        [{}, {}, {}, { fresh := { id := "s1", raw := "t1" } }],
       .request (.refresh "t1" .start)
        [{}, { wait := 5 }, { fresh := { id := "s2", raw := "t2" } }, {}],
       .terminateOtherSessions "u" "s2" 0] = some L ∧
      L.chains = [["s1", "s2"]] ∧ L.hit = [] := ⟨_, rfl, rfl, rfl⟩
  exact ⟨L, hrun, hchains, hhit, ledger_sessionChains hinit hrun⟩

end Argus.Auth
