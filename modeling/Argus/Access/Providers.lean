import Argus.Core.Envelope
import Argus.Lib.Interleaving
import Argus.Lib.Table

namespace Argus.Access.Providers

open Core (Cipher EnvelopeError encryptSecret decryptSecret)

/-!
# OIDC providers and their secrets

`oidc-providers.ts`: the rows of the providers, with their client secrets sealed in another table.
A call writes first one table and then the other, and calls overlap.

* `ProviderDb` — both tables, with what was written to them.
* `Call.step` — `createOidcProvider`, `updateOidcProvider` and `deleteOidcProvider`, one statement
  at a time; `administration` interleaves any number of them.
* `listEnabledPublicProviders`, `getProviderConfig` — the login page, and the login behind it.
* `Kept` — the invariant: a reference leads to the secret that was sealed last for the provider.
* `login_page_sound` — the page shows the providers whose login works, and no others.
-/

/-! ### Tables -/

/-- `OIDC_BRANDS`. -/
def OIDC_BRANDS : List String :=
  ["generic", "google", "microsoft", "authentik", "auth0", "clerk", "okta", "keycloak", "github",
    "gitlab"]

def asBrand (v : String) : String := if v ∈ OIDC_BRANDS then v else "generic"

/-- A row of `oidc_providers`. -/
structure ProviderRow where
  id : String
  name : String
  issuer : String
  clientId : String
  clientSecretRef : Option String
  enabled : Bool
  brand : String
deriving DecidableEq, Repr

/-- A row of `secrets`. -/
structure SecretRow where
  ref : String
  ciphertext : String
deriving DecidableEq, Repr

def SecretRow.replace (new stored : SecretRow) : SecretRow :=
  { stored with ciphertext := new.ciphertext }

theorem SecretRow.ref_replace (new stored : SecretRow) : (new.replace stored).ref = stored.ref :=
  rfl

theorem lookup_replace_self (row : SecretRow) (secrets : List SecretRow) :
    Table.lookup SecretRow.ref row.ref (Table.upsert SecretRow.ref row row.replace secrets)
      = some (((Table.lookup SecretRow.ref row.ref secrets).map row.replace).getD row) :=
  Table.lookup_upsert_self row.ref_replace secrets

theorem lookup_replace_of_ne {row : SecretRow} {k : String} (h : row.ref ≠ k)
    (secrets : List SecretRow) :
    Table.lookup SecretRow.ref k (Table.upsert SecretRow.ref row row.replace secrets)
      = Table.lookup SecretRow.ref k secrets :=
  Table.lookup_upsert_of_ne row.ref_replace h secrets

structure ProviderDb where
  providers : List ProviderRow
  secrets : List SecretRow
  /-- The ids of all rows that were ever inserted. -/
  drawn : List String
  /-- The secrets that were sealed, each with the id it was given for; the last one comes first. -/
  given : List (String × String)
  key : (providers.map ProviderRow.id).Nodup
  refs : (secrets.map SecretRow.ref).Nodup
  ids : ∀ p ∈ providers, p.id ∈ drawn

namespace ProviderDb

def empty : ProviderDb :=
  ⟨[], [], [], [], List.nodup_nil, List.nodup_nil, fun _ h => absurd h List.not_mem_nil⟩

variable (db : ProviderDb)

/-- `INSERT INTO oidc_providers`, under a new id. -/
def insert (row : ProviderRow) (h : row.id ∉ db.drawn) : ProviderDb where
  providers := db.providers ++ [row]
  secrets := db.secrets
  drawn := row.id :: db.drawn
  given := db.given
  key := Table.nodup_append_singleton db.key (fun p hp heq => h (heq ▸ db.ids p hp))
  refs := db.refs
  ids := List.forall_mem_append.mpr ⟨fun p hp => List.mem_cons_of_mem _ (db.ids p hp),
    List.forall_mem_singleton.mpr List.mem_cons_self⟩

theorem nodup_update {providers : List ProviderRow} (h : (providers.map ProviderRow.id).Nodup)
    (p : ProviderRow → Bool) {f : ProviderRow → ProviderRow} (hf : ∀ r, (f r).id = r.id) :
    ((Table.update p f providers).map ProviderRow.id).Nodup := by
  rw [Table.map_update ProviderRow.id hf]
  exact h

theorem ids_update (p : ProviderRow → Bool) {f : ProviderRow → ProviderRow}
    (hf : ∀ r, (f r).id = r.id) : ∀ r ∈ Table.update p f db.providers, r.id ∈ db.drawn := by
  intro r hr
  have hid : r.id ∈ db.providers.map ProviderRow.id := by
    rw [← Table.map_update ProviderRow.id hf]
    exact List.mem_map_of_mem hr
  obtain ⟨q, hq, hqid⟩ := List.mem_map.mp hid
  exact hqid ▸ db.ids q hq

/-- `UPDATE oidc_providers … WHERE id = …`. -/
def update (id : String) (f : ProviderRow → ProviderRow) (hf : ∀ p, (f p).id = p.id) :
    ProviderDb where
  providers := Table.update (fun p => p.id == id) f db.providers
  secrets := db.secrets
  drawn := db.drawn
  given := db.given
  key := nodup_update db.key _ hf
  refs := db.refs
  ids := db.ids_update _ hf

/-- `DELETE FROM oidc_providers WHERE id = …`. -/
def delete (id : String) : ProviderDb where
  providers := db.providers.filter (fun p => p.id != id)
  secrets := db.secrets
  drawn := db.drawn
  given := db.given
  key := (List.filter_sublist.map ProviderRow.id).nodup db.key
  refs := db.refs
  ids p hp := db.ids p (List.mem_filter.mp hp).1

/-- `INSERT INTO secrets … ON CONFLICT (ref) DO UPDATE SET ciphertext`. -/
def upsertSecret (id plaintext : String) (row : SecretRow) : ProviderDb where
  providers := db.providers
  secrets := Table.upsert SecretRow.ref row row.replace db.secrets
  drawn := db.drawn
  given := (id, plaintext) :: db.given
  key := db.key
  refs := Table.nodup_upsert row.ref_replace db.refs
  ids := db.ids

/-- `DELETE FROM secrets WHERE ref = …`. -/
def deleteSecret (ref : String) : ProviderDb where
  providers := db.providers
  secrets := db.secrets.filter (fun s => s.ref != ref)
  drawn := db.drawn
  given := db.given
  key := db.key
  refs := (List.filter_sublist.map SecretRow.ref).nodup db.refs
  ids := db.ids

/-- The secret that was sealed last for a provider. -/
def lastGiven (id : String) : Option String :=
  (db.given.find? (fun g => g.1 == id)).map Prod.snd

end ProviderDb

/-- `secretRef`. -/
def secretRef (id : String) : String := "oidc:" ++ id ++ ":secret"

/-! ### Administration -/

structure CreateOidcProviderRequest where
  name : String
  issuer : String
  clientId : String
  clientSecret : Option String
  enabled : Option Bool
  brand : Option String

structure UpdateOidcProviderRequest where
  name : Option String := none
  issuer : Option String := none
  clientId : Option String := none
  clientSecret : Option String := none
  enabled : Option Bool := none
  brand : Option String := none

/-- `if (clientSecret)`. -/
def truthy (s : Option String) : Option String := s.filter (· ≠ "")

def newRow (id : String) (input : CreateOidcProviderRequest) : ProviderRow where
  id := id
  name := input.name
  issuer := input.issuer
  clientId := input.clientId
  clientSecretRef := none
  enabled := input.enabled.getD false
  brand := asBrand (input.brand.getD "generic")

/-- The columns of a patch, and the reference if a secret was stored. -/
def patched (patch : UpdateOidcProviderRequest) (ref : Option String) (p : ProviderRow) :
    ProviderRow where
  id := p.id
  name := patch.name.getD p.name
  issuer := patch.issuer.getD p.issuer
  clientId := patch.clientId.getD p.clientId
  clientSecretRef := ref.or p.clientSecretRef
  enabled := patch.enabled.getD p.enabled
  brand := (patch.brand.map asBrand).getD p.brand

inductive Call
  | create (input : CreateOidcProviderRequest)
  | update (id : String) (patch : UpdateOidcProviderRequest)
  | delete (id : String)

/-- Where a call stands. -/
inductive Pc
  | start
  /-- Before the insert of `storeSecret`. -/
  | storing (id plaintext : String) (patch : UpdateOidcProviderRequest)
  /-- Before the update of the row. -/
  | writing (id : String) (patch : UpdateOidcProviderRequest) (ref : Option String)
  /-- The row is deleted, and its secret is not. -/
  | dropping (ref : String)
  | done
  /-- The key was refused. -/
  | failed

/-- What a statement draws: the id of a new row, and an IV. -/
structure Draw where
  id : String
  iv : Vector UInt8 12

/-- The next statement of a call.  An id is drawn once. -/
def Call.step (cipher : Cipher) (key : List UInt8) (c : Call) (d : Draw) (db : ProviderDb) :
    Pc → Option (ProviderDb × Pc)
  | .start =>
    match c with
    | .create input =>
      if h : (newRow d.id input).id ∉ db.drawn then
        some (db.insert (newRow d.id input) h,
          match truthy input.clientSecret with
          | some secret => .storing d.id secret {}
          | none => .done)
      else none
    | .update id patch =>
      some (db,
        match truthy patch.clientSecret with
        | some secret => .storing id secret patch
        | none => .writing id patch none)
    | .delete id =>
      some (db.delete id,
        match (Table.lookup ProviderRow.id id db.providers).bind (truthy ·.clientSecretRef) with
        | some ref => .dropping ref
        | none => .done)
  | .storing id plaintext patch =>
    match encryptSecret cipher d.iv plaintext key (.ofNat 1) with
    | .ok ciphertext =>
      some (db.upsertSecret id plaintext ⟨secretRef id, ciphertext⟩,
        .writing id patch (some (secretRef id)))
    | .error _ => some (db, .failed)
  | .writing id patch ref => some (db.update id (patched patch ref) (fun _ => rfl), .done)
  | .dropping ref => some (db.deleteSecret ref, .done)
  | .done | .failed => none

abbrev World := Interleaving.World ProviderDb Pc

def World.initial : World := ⟨.empty, fun _ => .start⟩

def administration (cipher : Cipher) (key : List UInt8) (calls : ℕ → Call) :
    Machine World (ℕ × Draw) :=
  Interleaving.machine fun i d db pc => (calls i).step cipher key d db pc

/-! ### The login -/

/-- `u.replace(/\/$/, "")`. -/
def trimSlash (u : String) : String :=
  if u.toList.getLast? = some '/' then String.ofList u.toList.dropLast else u

def redirectUriFor (publicUrl id : String) : String :=
  trimSlash publicUrl ++ "/api/auth/oidc/" ++ id ++ "/callback"

structure PublicOidcProvider where
  id : String
  name : String
  brand : String
  loginUrl : String
deriving DecidableEq, Repr

def listEnabledPublicProviders (db : ProviderDb) : List PublicOidcProvider :=
  ((db.providers.filter (·.enabled)).filter (fun p => (truthy p.clientSecretRef).isSome)).map
    fun p => ⟨p.id, p.name, asBrand p.brand, "/api/auth/oidc/" ++ p.id ++ "/login"⟩

structure OidcConfig where
  issuer : String
  clientId : String
  clientSecret : String
  redirectUri : String
deriving DecidableEq, Repr

def getProviderConfig (cipher : Cipher) (db : ProviderDb) (id : String) (key : List UInt8)
    (publicUrl : String) : Except EnvelopeError (Option OidcConfig) :=
  match db.providers.find? (fun p => p.id == id && p.enabled) with
  | none => .ok none
  | some provider =>
    match truthy provider.clientSecretRef with
    | none => .ok none
    | some ref =>
      match Table.lookup SecretRow.ref ref db.secrets with
      | none => .ok none
      | some secret =>
        (decryptSecret cipher secret.ciphertext key).map fun clientSecret =>
          some ⟨provider.issuer, provider.clientId, clientSecret, redirectUriFor publicUrl id⟩

/-! ### References -/

theorem secretRef_inj {a b : String} (h : secretRef a = secretRef b) : a = b := by
  have hlist := congrArg String.toList h
  simp only [secretRef, String.toList_append, List.append_cancel_right_eq,
    List.append_cancel_left_eq] at hlist
  exact String.toList_inj.mp hlist

theorem secretRef_of_truthy {r : Option String} {ref : String} (h : truthy r = some ref) :
    r = some ref := by
  rw [truthy, Option.filter_eq_some_iff] at h
  exact h.1

section

variable (cipher : Cipher) (key : List UInt8)

/-- The secret that was given last for a provider is there, sealed. -/
def Stored (db : ProviderDb) (id : String) : Prop :=
  ∃ plaintext iv, db.lastGiven id = some plaintext ∧ ∃ row ∈ db.secrets, row.ref = secretRef id ∧
    encryptSecret cipher iv plaintext key (.ofNat 1) = .ok row.ciphertext

/-- The provider was deleted. -/
def Gone (db : ProviderDb) (id : String) : Prop :=
  id ∈ db.drawn ∧ ∀ p ∈ db.providers, p.id ≠ id

/-- What a call goes by is still so. -/
def Sound (db : ProviderDb) : Pc → Prop
  | .writing id _ (some ref) => ref = secretRef id ∧ (Stored cipher key db id ∨ Gone db id)
  | .dropping ref => ∃ id, ref = secretRef id ∧ Gone db id
  | _ => True

/-- **Invariant.**  Every reference leads to a secret, and the calls know what they do. -/
structure Kept (w : World) : Prop where
  rows : ∀ p ∈ w.db.providers, ∀ ref, p.clientSecretRef = some ref →
    ref = secretRef p.id ∧ Stored cipher key w.db p.id
  calls : ∀ i, Sound cipher key w.db (w.pcs i)

/-- What a statement does to the others: a secret that is stored stays, or its provider is gone;
    and what is gone stays so. -/
structure Evolves (db db' : ProviderDb) : Prop where
  stored : ∀ id, Stored cipher key db id → Stored cipher key db' id ∨ Gone db' id
  gone : ∀ id, Gone db id → Gone db' id

end

variable {cipher : Cipher} {key : List UInt8} {db db' : ProviderDb}

theorem Evolves.refl (db : ProviderDb) : Evolves cipher key db db :=
  ⟨fun _ h => .inl h, fun _ h => h⟩

theorem Evolves.sound (h : Evolves cipher key db db') {pc : Pc} (hpc : Sound cipher key db pc) :
    Sound cipher key db' pc := by
  cases pc with
  | writing id patch ref =>
    cases ref with
    | none => trivial
    | some ref =>
      obtain ⟨href, hstored⟩ := hpc
      refine ⟨href, ?_⟩
      rcases hstored with hstored | hgone
      · exact h.stored id hstored
      · exact .inr (h.gone id hgone)
  | dropping ref =>
    obtain ⟨id, href, hgone⟩ := hpc
    exact ⟨id, href, h.gone id hgone⟩
  | start => trivial
  | storing id plaintext patch => trivial
  | done => trivial
  | failed => trivial

/-- A secret of a provider that is there stays. -/
theorem Evolves.stored_of_mem (h : Evolves cipher key db db') {p : ProviderRow}
    (hp : p ∈ db'.providers) (hstored : Stored cipher key db p.id) :
    Stored cipher key db' p.id := by
  rcases h.stored p.id hstored with hstored | hgone
  · exact hstored
  · exact absurd rfl (hgone.2 p hp)

/-! ### Statements -/

theorem evolves_insert (row : ProviderRow) (h : row.id ∉ db.drawn) :
    Evolves cipher key db (db.insert row h) where
  stored _ hstored := .inl hstored
  gone id hgone := by
    refine ⟨List.mem_cons_of_mem _ hgone.1, ?_⟩
    intro p hp
    rcases List.mem_append.mp hp with hp | hp
    · exact hgone.2 p hp
    · rw [List.mem_singleton.mp hp]
      rintro rfl
      exact h hgone.1

theorem evolves_update (id : String) (f : ProviderRow → ProviderRow) (hf : ∀ p, (f p).id = p.id) :
    Evolves cipher key db (db.update id f hf) where
  stored _ hstored := .inl hstored
  gone id' hgone := by
    refine ⟨hgone.1, ?_⟩
    intro p hp
    obtain ⟨q, hq, rfl⟩ := Table.mem_update.mp hp
    split
    · rw [hf]
      exact hgone.2 q hq
    · exact hgone.2 q hq

theorem evolves_delete (id : String) : Evolves cipher key db (db.delete id) where
  stored _ hstored := .inl hstored
  gone _ hgone := ⟨hgone.1, fun p hp => hgone.2 p (List.mem_filter.mp hp).1⟩

theorem gone_delete {id : String} (h : id ∈ db.drawn) : Gone (db.delete id) id :=
  ⟨h, fun _ hp => bne_iff_ne.mp (List.mem_filter.mp hp).2⟩

theorem lastGiven_upsertSecret (id plaintext : String) (row : SecretRow) (id' : String) :
    (db.upsertSecret id plaintext row).lastGiven id'
      = if id = id' then some plaintext else db.lastGiven id' := by
  show (List.find? _ ((id, plaintext) :: db.given)).map Prod.snd = _
  rw [List.find?_cons]
  by_cases hid : id = id'
  · rw [if_pos hid, beq_iff_eq.mpr hid]
    rfl
  · rw [if_neg hid, beq_eq_false_iff_ne.mpr hid]
    rfl

theorem stored_upsertSecret {iv : Vector UInt8 12} {id plaintext ciphertext : String}
    (h : encryptSecret cipher iv plaintext key (.ofNat 1) = .ok ciphertext) :
    Stored cipher key (db.upsertSecret id plaintext ⟨secretRef id, ciphertext⟩) id := by
  refine ⟨plaintext, iv, by rw [lastGiven_upsertSecret, if_pos rfl], ?_⟩
  have hfound := lookup_replace_self ⟨secretRef id, ciphertext⟩ db.secrets
  obtain ⟨hmem, href⟩ := Table.lookup_some hfound
  refine ⟨_, hmem, href, ?_⟩
  -- the row is new, or it takes the new ciphertext
  cases hold : Table.lookup SecretRow.ref (secretRef id) db.secrets with
  | none => exact h
  | some old => exact h

theorem evolves_upsertSecret {iv : Vector UInt8 12} {id plaintext ciphertext : String}
    (h : encryptSecret cipher iv plaintext key (.ofNat 1) = .ok ciphertext) :
    Evolves cipher key db (db.upsertSecret id plaintext ⟨secretRef id, ciphertext⟩) where
  stored id' hstored := by
    by_cases hid : id = id'
    · exact .inl (hid ▸ stored_upsertSecret h)
    · obtain ⟨plaintext', iv', hgiven, row, hrow, href, hcipher⟩ := hstored
      refine .inl ⟨plaintext', iv', by rw [lastGiven_upsertSecret, if_neg hid]; exact hgiven, ?_⟩
      have hlookup := Table.lookup_of_mem db.refs hrow
      have hne : (SecretRow.mk (secretRef id) ciphertext).ref ≠ row.ref :=
        fun heq => hid (secretRef_inj (heq.trans href))
      rw [← lookup_replace_of_ne hne] at hlookup
      exact ⟨row, (Table.lookup_some hlookup).1, href, hcipher⟩
  gone _ hgone := hgone

theorem evolves_deleteSecret {id : String} (h : Gone db id) :
    Evolves cipher key db (db.deleteSecret (secretRef id)) where
  stored id' hstored := by
    by_cases hid : id' = id
    · exact .inr (hid ▸ h)
    · obtain ⟨plaintext, iv, hgiven, row, hrow, href, hcipher⟩ := hstored
      refine .inl ⟨plaintext, iv, hgiven, row, List.mem_filter.mpr ⟨hrow, ?_⟩, href, hcipher⟩
      exact bne_iff_ne.mpr (fun heq => hid (secretRef_inj (href.symm.trans heq)))
  gone _ hgone := hgone

/-! ### Calls -/

/-- **Step lemma.**  A statement evolves the tables, leaves its call sound, and sets no reference
    but those of secrets that are stored. -/
theorem step_kept {c : Call} {d : Draw} {pc pc' : Pc}
    (hrows : ∀ p ∈ db.providers, ∀ ref, p.clientSecretRef = some ref →
      ref = secretRef p.id ∧ Stored cipher key db p.id)
    (hpc : Sound cipher key db pc) (hstep : c.step cipher key d db pc = some (db', pc')) :
    Evolves cipher key db db' ∧ Sound cipher key db' pc' ∧
      ∀ p ∈ db'.providers, ∀ ref, p.clientSecretRef = some ref →
        ref = secretRef p.id ∧ Stored cipher key db' p.id := by
  cases pc with
  | start =>
    cases c with
    | create input =>
      simp only [Call.step] at hstep
      split at hstep
      · rename_i hnew
        obtain ⟨rfl, rfl⟩ := Prod.mk.inj (Option.some.inj hstep)
        refine ⟨evolves_insert _ hnew, ?_, ?_⟩
        · split <;> trivial
        · intro p hp ref href
          rcases List.mem_append.mp hp with hp | hp
          · exact hrows p hp ref href
          · rw [List.mem_singleton.mp hp] at href
            cases href
      · cases hstep
    | update id patch =>
      obtain ⟨rfl, rfl⟩ := Prod.mk.inj (Option.some.inj hstep)
      refine ⟨.refl db, ?_, hrows⟩
      split <;> trivial
    | delete id =>
      obtain ⟨rfl, rfl⟩ := Prod.mk.inj (Option.some.inj hstep)
      refine ⟨evolves_delete id, ?_, fun p hp => hrows p (List.mem_filter.mp hp).1⟩
      split
      · rename_i ref href
        obtain ⟨p, hp, htruthy⟩ := Option.bind_eq_some_iff.mp href
        obtain ⟨hrow, hid⟩ := Table.lookup_some hp
        refine ⟨id, ?_, gone_delete (hid ▸ db.ids p hrow)⟩
        rw [(hrows p hrow ref (secretRef_of_truthy htruthy)).1, hid]
      · trivial
  | storing id plaintext patch =>
    simp only [Call.step] at hstep
    split at hstep
    · rename_i ciphertext hcipher
      obtain ⟨rfl, rfl⟩ := Prod.mk.inj (Option.some.inj hstep)
      have hevolves : Evolves cipher key db
          (db.upsertSecret id plaintext ⟨secretRef id, ciphertext⟩) := evolves_upsertSecret hcipher
      refine ⟨hevolves, ⟨rfl, .inl (stored_upsertSecret hcipher)⟩, ?_⟩
      intro p hp ref href
      obtain ⟨heq, hstored⟩ := hrows p hp ref href
      exact ⟨heq, hevolves.stored_of_mem hp hstored⟩
    · obtain ⟨rfl, rfl⟩ := Prod.mk.inj (Option.some.inj hstep)
      exact ⟨.refl db, trivial, hrows⟩
  | writing id patch ref =>
    obtain ⟨rfl, rfl⟩ := Prod.mk.inj (Option.some.inj hstep)
    have hevolves : Evolves cipher key db (db.update id (patched patch ref) (fun _ => rfl)) :=
      evolves_update id _ _
    refine ⟨hevolves, trivial, ?_⟩
    intro p hp ref' href
    obtain ⟨q, hq, rfl⟩ := Table.mem_update.mp hp
    split at href
    · rename_i hid
      have hqid : q.id = id := beq_iff_eq.mp hid
      simp only [hid, if_true]
      show ref' = secretRef q.id ∧ Stored cipher key db q.id
      cases ref with
      | none => exact hrows q hq ref' href
      | some ref =>
        obtain rfl := Option.some.inj (show some ref = some ref' from href)
        obtain ⟨heq, hstored⟩ := hpc
        refine ⟨hqid ▸ heq, ?_⟩
        rcases hstored with hstored | hgone
        · exact hqid ▸ hstored
        · exact absurd hqid (hgone.2 q hq)
    · rename_i hid
      simp only [hid]
      exact hrows q hq ref' href
  | dropping ref =>
    obtain ⟨rfl, rfl⟩ := Prod.mk.inj (Option.some.inj hstep)
    obtain ⟨id, rfl, hgone⟩ := hpc
    have hevolves : Evolves cipher key db (db.deleteSecret (secretRef id)) :=
      evolves_deleteSecret hgone
    refine ⟨hevolves, trivial, ?_⟩
    intro p hp ref href
    obtain ⟨heq, hstored⟩ := hrows p hp ref href
    exact ⟨heq, hevolves.stored_of_mem hp hstored⟩
  | done => cases hstep
  | failed => cases hstep

theorem Kept.initial : Kept cipher key World.initial :=
  ⟨fun _ h => absurd h List.not_mem_nil, fun _ => trivial⟩

theorem Kept.step {calls : ℕ → Call} {w w' : World} {l : ℕ × Draw} (h : Kept cipher key w)
    (hstep : (administration cipher key calls).step w l = some w') : Kept cipher key w' := by
  obtain ⟨db, pc, hcall, rfl⟩ := Interleaving.machine_step.mp hstep
  obtain ⟨hevolves, hpc, hrows⟩ := step_kept h.rows (h.calls l.1) hcall
  refine ⟨hrows, ?_⟩
  exact Interleaving.forall_update hpc (fun j _ => hevolves.sound (h.calls j))

theorem kept_of_run {calls : ℕ → Call} {w : World} {ls : List (ℕ × Draw)}
    (hrun : (administration cipher key calls).exec .initial ls = some w) : Kept cipher key w :=
  Machine.inv_of_exec (fun _ _ _ h _ hstep => h.step hstep) .initial
    (Machine.Meets.always _ _) hrun

/-! ### The login page -/

theorem separator_notMem_one : Core.SEPARATOR ∉ (JsNumber.ofNat 1).toChars := by
  have hone : JsNumber.ofNat 1 = .fin (.ofInt 1 (by decide)) := by
    have h := JsNumber.ofRat_intCast (show |(1 : ℤ)| ≤ 2 ^ 53 by decide)
    simpa [JsNumber.ofNat] using h
  rw [hone]
  exact Core.separator_notMem_of_lt (n := 1) (by simp [Double.ofInt]) (by decide) (by decide)

theorem decrypt_stored (hc : cipher.Lawful) {iv : Vector UInt8 12} {plaintext ciphertext : String}
    (h : encryptSecret cipher iv plaintext key (.ofNat 1) = .ok ciphertext) :
    decryptSecret cipher ciphertext key = .ok plaintext := by
  by_cases hkey : key.length = 32
  · rw [Core.encryptSecret_eq cipher iv plaintext _ hkey] at h
    obtain rfl := Except.ok.inj h
    exact Core.decrypt_envelope cipher iv plaintext hc hkey separator_notMem_one
  · rw [encryptSecret, if_pos hkey] at h
    cases h

/-- The row of an enabled provider is the one that is found. -/
theorem find_enabled {db : ProviderDb} {p : ProviderRow} (hp : p ∈ db.providers)
    (henabled : p.enabled = true) :
    db.providers.find? (fun q => q.id == p.id && q.enabled) = some p := by
  cases hfind : db.providers.find? (fun q => q.id == p.id && q.enabled) with
  | none =>
    have hno := List.find?_eq_none.mp hfind p hp
    simp [henabled] at hno
  | some q =>
    have hq := List.find?_some hfind
    rw [Bool.and_eq_true, beq_iff_eq] at hq
    rw [List.inj_on_of_nodup_map db.key (List.mem_of_find?_eq_some hfind) hp hq.1]

/-- **The login page.**  After any run of administrative calls, however their statements
    interleave, a provider is on the page exactly if its login has a configuration; and that one
    holds the client secret that was given last. -/
theorem login_page_sound (hc : cipher.Lawful) {calls : ℕ → Call} {w : World}
    {ls : List (ℕ × Draw)} (hrun : (administration cipher key calls).exec .initial ls = some w)
    (publicUrl id : String) :
    ((∃ row ∈ listEnabledPublicProviders w.db, row.id = id) ∧
      ∃ p ∈ w.db.providers, p.id = id ∧ p.enabled = true ∧
        ∃ secret, w.db.lastGiven id = some secret ∧ getProviderConfig cipher w.db id key publicUrl
          = .ok (some ⟨p.issuer, p.clientId, secret, redirectUriFor publicUrl id⟩)) ∨
    ((∀ row ∈ listEnabledPublicProviders w.db, row.id ≠ id) ∧
      getProviderConfig cipher w.db id key publicUrl = .ok none) := by
  have hkept : Kept cipher key w := kept_of_run hrun
  by_cases hlisted : ∃ row ∈ listEnabledPublicProviders w.db, row.id = id
  · refine .inl ⟨hlisted, ?_⟩
    obtain ⟨_, hrow, rfl⟩ := hlisted
    obtain ⟨p, hp, rfl⟩ := List.mem_map.mp hrow
    obtain ⟨hfilter, href⟩ := List.mem_filter.mp hp
    obtain ⟨hmem, henabled⟩ := List.mem_filter.mp hfilter
    obtain ⟨ref, htruthy⟩ := Option.isSome_iff_exists.mp href
    obtain ⟨rfl, plaintext, iv, hgiven, row, hsecret, hrowRef, hcipher⟩ :=
      hkept.rows p hmem ref (secretRef_of_truthy htruthy)
    refine ⟨p, hmem, rfl, henabled, plaintext, hgiven, ?_⟩
    have hlookup : Table.lookup SecretRow.ref (secretRef p.id) w.db.secrets = some row :=
      hrowRef ▸ Table.lookup_of_mem w.db.refs hsecret
    show getProviderConfig cipher w.db p.id key publicUrl = _
    rw [getProviderConfig, find_enabled hmem henabled]
    dsimp only
    rw [htruthy]
    dsimp only
    rw [hlookup]
    dsimp only
    rw [decrypt_stored hc hcipher]
    rfl
  · refine .inr ⟨fun row hrow heq => hlisted ⟨row, hrow, heq⟩, ?_⟩
    rw [getProviderConfig]
    split
    · rfl
    · rename_i p hfind
      have hp := List.find?_some hfind
      rw [Bool.and_eq_true, beq_iff_eq] at hp
      split
      · rfl
      · -- it would be on the page
        rename_i ref href
        refine absurd ⟨_, List.mem_map_of_mem (List.mem_filter.mpr ⟨List.mem_filter.mpr
          ⟨List.mem_of_find?_eq_some hfind, hp.2⟩, ?_⟩), hp.1⟩ hlisted
        exact Option.isSome_iff_exists.mpr ⟨ref, href⟩

namespace Sample

def okta : CreateOidcProviderRequest :=
  ⟨"Okta", "https://okta", "client", some "s3cret", some true, none⟩

/-- A provider is created, and its secret changed while it is deleted. -/
def calls : ℕ → Call
  | 0 => .create okta
  | 1 => .update "p" { clientSecret := some "s4cret" }
  | _ => .delete "p"

def draw : Draw := ⟨"p", Core.Sample.iv⟩

def created : List (ℕ × Draw) := [(0, draw), (0, draw), (0, draw)]

/-- The change stores its secret after the other one was deleted. -/
def crossed : List (ℕ × Draw) := created ++ [(1, draw), (2, draw), (2, draw), (1, draw), (1, draw)]

end Sample

open Sample in
/-- A provider that is created and not deleted is on the page, and its login works. -/
theorem login_page_sound_okta :
    ∃ w, (administration Core.Sample.cipher Core.Sample.key calls).exec .initial created = some w ∧
      ∃ p ∈ w.db.providers, p.id = "p" ∧ ∃ secret, w.db.lastGiven "p" = some secret ∧
        getProviderConfig Core.Sample.cipher w.db "p" Core.Sample.key "https://argus/"
          = .ok (some ⟨p.issuer, p.clientId, secret, redirectUriFor "https://argus/" "p"⟩) := by
  obtain ⟨w, hrun, hids⟩ := Option.map_eq_some_iff.mp (show
    ((administration Core.Sample.cipher Core.Sample.key calls).exec .initial created).map
      (fun w => (listEnabledPublicProviders w.db).map PublicOidcProvider.id) = some ["p"] by
        decide +kernel)
  obtain ⟨row, hrow, hid⟩ := List.mem_map.mp (hids ▸ List.mem_singleton_self "p")
  rcases login_page_sound Core.Sample.lawful hrun "https://argus/" "p" with
    ⟨-, p, hp, hpid, -, secret, hgiven, hconfig⟩ | ⟨hno, -⟩
  · exact ⟨w, hrun, p, hp, hpid, secret, hgiven, hconfig⟩
  · exact absurd hid (hno row hrow)

open Sample in
/-- A secret can outlive its provider. -/
theorem secret_outlives_provider :
    ((administration Core.Sample.cipher Core.Sample.key calls).exec .initial crossed).map
      (fun w => (w.db.providers, w.db.secrets.map SecretRow.ref))
        = some ([], ["oidc:p:secret"]) := by
  decide +kernel

end Argus.Access.Providers
