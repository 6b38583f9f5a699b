import Argus.Access.References

namespace Argus.Access

open Auth

/-!
# What administrators can give themselves

The gate in front of every route (`requirePermission` of `plugins/rbac.ts`), and who can widen
what it lets through.

* `Directory.requirePermission` — the gate, for operators and display devices.
* `Narrower` — a directory that grants no more than another one; `gate_mono`, its gate is no
  wider.
* `grants_never_grow` — requests of callers who hold none of the three write permissions, in any
  number and order, never widen anybody's access.
* `write_escalates` — each of the three is enough to widen one's own: `roles:write` to
  everything there is.
-/

/-! ### The gate -/

/-- What `requirePermission` answers: the handler runs, or the code and reason it sends. -/
inductive Gate
  | passed
  | unauthorized
  | deviceNotAllowed
  | forbidden (reason : AuthzReason)
deriving DecidableEq, Repr

/-- `requirePermission(action, { allowDevice, resource })`; `required` is what the resource asks
    of the subject's attributes. -/
def Directory.requirePermission (db : Directory) (caller : Caller) (action : String)
    (allowDevice : Bool) (required : Option (List (String × List String))) : Gate :=
  match db.subjectOf caller with
  | none => .unauthorized
  | some subject =>
    -- a display may only touch what opts in
    if !allowDevice && isDeviceSubject subject then .deviceNotAllowed
    else
      let reason := authorize subject action required
      if reason.allowed then .passed else .forbidden reason

theorem requirePermission_eq_passed {db : Directory} {caller : Caller} {action : String}
    {allowDevice : Bool} {required : Option (List (String × List String))} :
    db.requirePermission caller action allowDevice required = .passed ↔
      ∃ subject, db.subjectOf caller = some subject ∧
        (allowDevice = true ∨ isDeviceSubject subject = false) ∧
        (authorize subject action required).allowed = true := by
  rw [Directory.requirePermission]
  cases db.subjectOf caller with
  | none => simp
  | some subject =>
    cases hdevice : isDeviceSubject subject <;>
      cases hallowed : (authorize subject action required).allowed <;>
      cases allowDevice <;> simp [hdevice, hallowed]

/-- The administration routes ask for a permission only. -/
theorem permits_iff {db : Directory} {caller : Caller} {action : String} :
    db.permits caller action = true ↔
      db.requirePermission caller action false none = .passed := by
  rw [requirePermission_eq_passed, Directory.permits]
  cases db.subjectOf caller with
  | none => simp
  | some subject => simp

/-! ### Subjects -/

/-- A subject that holds no more than another one. -/
structure Subject.Within (s' s : Subject) : Prop where
  userId : s'.userId = s.userId
  isOwner : s'.isOwner = true → s.isOwner = true
  permissions : s'.permissions ⊆ s.permissions
  attributes : s'.attributes ⊆ s.attributes

theorem satisfiesAttributes_mono {s' s : Subject} (h : s'.Within s)
    {required : List (String × List String)} (hs : satisfiesAttributes s' required = true) :
    satisfiesAttributes s required = true := by
  rw [satisfiesAttributes, List.all_eq_true] at hs ⊢
  intro constraint hc
  obtain ⟨attr, hattr, hmet⟩ := List.any_eq_true.mp (hs constraint hc)
  exact List.any_eq_true.mpr ⟨attr, h.attributes hattr, hmet⟩

/-- Owners pass; everybody else needs the permission and the attributes. -/
theorem authorize_allowed {s : Subject} {action : String}
    {required : Option (List (String × List String))} :
    (authorize s action required).allowed = true ↔ s.isOwner = true ∨
      action ∈ s.permissions ∧ ∀ r ∈ required, satisfiesAttributes s r = true := by
  rw [authorize]
  cases howner : s.isOwner with
  | true => simp [AuthzReason.allowed]
  | false =>
    by_cases hperm : action ∈ s.permissions
    · cases required with
      | none => simp [hperm, AuthzReason.allowed]
      | some r => cases hr : satisfiesAttributes s r <;> simp [hperm, hr, AuthzReason.allowed]
    · simp [hperm, AuthzReason.allowed]

theorem authorize_mono {s' s : Subject} (h : s'.Within s) {action : String}
    {required : Option (List (String × List String))}
    (ha : (authorize s' action required).allowed = true) :
    (authorize s action required).allowed = true := by
  rw [authorize_allowed] at ha ⊢
  rcases ha with howner | ⟨hperm, hattrs⟩
  · exact Or.inl (h.isOwner howner)
  · exact Or.inr ⟨h.permissions hperm, fun r hr => satisfiesAttributes_mono h (hattrs r hr)⟩

/-! ### Grants -/

namespace Directory

variable {db : Directory}

/-- Access flows from a user over its groups and their roles to permissions. -/
theorem mem_permissionKeys {u k : String} : k ∈ db.permissionKeys u ↔
    ∃ g r p, ⟨u, g⟩ ∈ db.userGroups ∧ ⟨g, r⟩ ∈ db.groupRoles ∧ ⟨r, p⟩ ∈ db.rolePermissions ∧
      ⟨p, k⟩ ∈ db.permissions := by
  simp only [permissionKeys, List.mem_flatMap, List.mem_filter, List.mem_map, decide_eq_true_eq]
  constructor
  · rintro ⟨ug, ⟨hug, rfl⟩, gr, ⟨hgr, hg⟩, rp, ⟨hrp, hr⟩, p, ⟨hp, hid⟩, rfl⟩
    refine ⟨ug.groupId, gr.roleId, rp.permissionId, hug, ?_, ?_, ?_⟩
    · rw [← hg]
      exact hgr
    · rw [← hr]
      exact hrp
    · rw [← hid]
      exact hp
  · rintro ⟨g, r, p, hug, hgr, hrp, hp⟩
    exact ⟨⟨u, g⟩, ⟨hug, rfl⟩, ⟨g, r⟩, ⟨hgr, rfl⟩, ⟨r, p⟩, ⟨hrp, rfl⟩, ⟨p, k⟩, ⟨hp, rfl⟩, rfl⟩

theorem resolveSubject_eq_some {u : String} {s : Subject} : db.resolveSubject u = some s ↔
    ∃ user, db.getUser u = some user ∧ user.disabled = false ∧
      s = ⟨user.id, user.isOwner, (db.permissionKeys u).eraseDups,
        (db.userAttributes.filter (fun a => decide (a.userId = u))).map
          (fun a => (a.key, a.value))⟩ := by
  rw [resolveSubject]
  cases db.getUser u with
  | none => simp
  | some user =>
    cases hdisabled : user.disabled with
    | true => simp [hdisabled]
    | false =>
      simp only [hdisabled, Bool.false_eq_true, if_false, Option.some.injEq]
      constructor
      · rintro rfl
        exact ⟨user, rfl, hdisabled, rfl⟩
      · rintro ⟨user', rfl, -, rfl⟩
        rfl

end Directory

/-- `db'` grants nothing that `db` does not: its tables of grants hold no further rows, and its
    users are users of `db`. -/
structure Narrower (db' db : Directory) : Prop where
  users : ∀ u user, db'.getUser u = some user → db.getUser u = some user
  userGroups : db'.userGroups ⊆ db.userGroups
  groupRoles : db'.groupRoles ⊆ db.groupRoles
  rolePermissions : db'.rolePermissions ⊆ db.rolePermissions
  permissions : db'.permissions ⊆ db.permissions
  userAttributes : db'.userAttributes ⊆ db.userAttributes

namespace Narrower

variable {db db' db'' : Directory}

theorem refl (db : Directory) : Narrower db db :=
  ⟨fun _ _ h => h, List.Subset.refl _, List.Subset.refl _, List.Subset.refl _,
    List.Subset.refl _, List.Subset.refl _⟩

theorem trans (h : Narrower db'' db') (h' : Narrower db' db) : Narrower db'' db where
  users u user hu := h'.users u user (h.users u user hu)
  userGroups := List.Subset.trans h.userGroups h'.userGroups
  groupRoles := List.Subset.trans h.groupRoles h'.groupRoles
  rolePermissions := List.Subset.trans h.rolePermissions h'.rolePermissions
  permissions := List.Subset.trans h.permissions h'.permissions
  userAttributes := List.Subset.trans h.userAttributes h'.userAttributes

theorem permissionKeys (h : Narrower db' db) (u : String) :
    db'.permissionKeys u ⊆ db.permissionKeys u := by
  intro k hk
  obtain ⟨g, r, p, hug, hgr, hrp, hp⟩ := Directory.mem_permissionKeys.mp hk
  exact Directory.mem_permissionKeys.mpr ⟨g, r, p, h.userGroups hug, h.groupRoles hgr,
    h.rolePermissions hrp, h.permissions hp⟩

/-- Whoever is behind a request was behind it before, with no less. -/
theorem subjectOf (h : Narrower db' db) {caller : Caller} {s' : Subject}
    (hs : db'.subjectOf caller = some s') : ∃ s, db.subjectOf caller = some s ∧ s'.Within s := by
  cases caller with
  | staticAdmin => exact ⟨s', hs, rfl, id, List.Subset.refl _, List.Subset.refl _⟩
  | device id => exact ⟨s', hs, rfl, fun h => h, List.Subset.refl _, List.Subset.refl _⟩
  | user u =>
    obtain ⟨user, huser, hdisabled, rfl⟩ := Directory.resolveSubject_eq_some.mp hs
    refine ⟨_, Directory.resolveSubject_eq_some.mpr
      ⟨user, h.users u user huser, hdisabled, rfl⟩, rfl, id, ?_, ?_⟩
    · intro k hk
      rw [List.mem_eraseDups] at hk ⊢
      exact h.permissionKeys u hk
    · exact List.map_subset _ (List.filter_subset _ h.userAttributes)

/-- What the gate lets through in the narrower directory it lets through in the other one. -/
theorem gate_mono (h : Narrower db' db) {caller : Caller} {action : String} {allowDevice : Bool}
    {required : Option (List (String × List String))}
    (hgate : db'.requirePermission caller action allowDevice required = .passed) :
    db.requirePermission caller action allowDevice required = .passed := by
  obtain ⟨s', hs', hdevice, hallowed⟩ := requirePermission_eq_passed.mp hgate
  obtain ⟨s, hs, hwithin⟩ := h.subjectOf hs'
  refine requirePermission_eq_passed.mpr ⟨s, hs, hdevice.imp_right ?_,
    authorize_mono hwithin hallowed⟩
  rw [isDeviceSubject, isDeviceSubject, hwithin.userId]
  exact id

/-! ### Deletions -/

theorem deleteUserRow (id : String) : Narrower (db.deleteUserRow id) db where
  users u user hu := by
    rw [MasterDb.getUser] at hu ⊢
    exact Table.lookup_of_delete hu
  userGroups := List.filter_subset_self _
  groupRoles := List.Subset.refl _
  rolePermissions := List.Subset.refl _
  permissions := List.Subset.refl _
  userAttributes := List.filter_subset_self _

theorem deleteGroupRow (id : String) : Narrower (db.deleteGroupRow id) db where
  users _ _ hu := hu
  userGroups := List.filter_subset_self _
  groupRoles := List.filter_subset_self _
  rolePermissions := List.Subset.refl _
  permissions := List.Subset.refl _
  userAttributes := List.Subset.refl _

theorem deleteRoleRow (id : String) : Narrower (db.deleteRoleRow id) db where
  users _ _ hu := hu
  userGroups := List.Subset.refl _
  groupRoles := List.filter_subset_self _
  rolePermissions := List.filter_subset_self _
  permissions := List.Subset.refl _
  userAttributes := List.Subset.refl _

end Narrower

/-! ### Runs without a write permission -/

/-- The permissions of the routes that grant something. -/
def writePermissions : List String := ["users:write", "groups:write", "roles:write"]

/-- One request of a caller without them deletes, or does nothing. -/
theorem handle_narrower (core : Core) {db : Directory} {req : Request}
    (h : ∀ action ∈ writePermissions, db.permits req.caller action = false) :
    Narrower (handle core db req) db := by
  obtain ⟨caller, op⟩ := req
  unfold handle
  split
  · rename_i hpermits
    have hnot : op.permission ∉ writePermissions := by
      intro hmem
      rw [h _ hmem] at hpermits
      exact Bool.noConfusion hpermits
    cases op with
    | deleteUser id =>
      exact guarded_cases (P := fun d => Narrower d db) (.refl db) (fun _ _ => .deleteUserRow id)
    | deleteGroup id =>
      exact guarded_cases (P := fun d => Narrower d db) (.refl db) (fun _ _ => .deleteGroupRow id)
    | deleteRole id =>
      exact guarded_cases (P := fun d => Narrower d db) (.refl db) (fun _ _ => .deleteRoleRow id)
    | _ => simp [Op.permission, writePermissions] at hnot
  · exact .refl db

theorem Narrower.permits_eq_false {db db' : Directory} (h : Narrower db' db) {caller : Caller}
    {action : String} (hp : db.permits caller action = false) :
    db'.permits caller action = false := by
  rw [← Bool.not_eq_true] at hp ⊢
  exact fun hp' => hp (permits_iff.mpr (h.gate_mono (permits_iff.mp hp')))

/-- **Nobody gains access from those who may not write.** After any requests whose callers hold
    none of the write permissions, the gate lets nobody through who was not let through
    before. -/
theorem grants_never_grow (core : Core) {db db' : Directory} {reqs : List Request}
    (hcallers : ∀ req ∈ reqs, ∀ action ∈ writePermissions,
      db.permits req.caller action = false)
    (hrun : (administration core).exec db reqs = some db') {caller : Caller} {action : String}
    {allowDevice : Bool} {required : Option (List (String × List String))}
    (hgate : db'.requirePermission caller action allowDevice required = .passed) :
    db.requirePermission caller action allowDevice required = .passed := by
  suffices hnarrower : Narrower db' db from hnarrower.gate_mono hgate
  clear hgate
  -- the callers hold no more in the states between than at the start
  suffices hrest : ∀ mid : Directory, Narrower mid db →
      (administration core).exec mid reqs = some db' → Narrower db' db from
    hrest db (.refl db) hrun
  clear hrun
  induction reqs with
  | nil =>
    intro mid hmid hrun
    obtain rfl : mid = db' := by simpa using hrun
    exact hmid
  | cons req reqs ih =>
    intro mid hmid hrun
    obtain ⟨next, hnext, hrun⟩ := (administration core).exec_cons_eq_some.mp hrun
    obtain rfl : handle core mid req = next := Option.some.inj hnext
    rw [List.forall_mem_cons] at hcallers
    have hstep : Narrower (handle core mid req) mid :=
      handle_narrower core (fun action ha => hmid.permits_eq_false (hcallers.1 action ha))
    exact ih hcallers.2 _ (hstep.trans hmid) hrun

/-- A keeper, who may delete groups and no more, deletes the group of a reader: the reader is
    locked out and the keeper keeps what he had. -/
theorem grants_never_grow_keeper :
    let db : Directory :=
      { Sample.directory with
        users := [{ id := "k", username := "keeper" }, { id := "r", username := "reader" }]
        groups := [{ id := "keepers", name := "keepers" }, { id := "readers", name := "readers" }]
        roles := [{ id := "keeper", name := "keeper" }, { id := "reader", name := "reader" }]
        permissions := [⟨"p", "groups:delete"⟩, ⟨"q", "agents:read"⟩]
        rolePermissions := [⟨"keeper", "p"⟩, ⟨"reader", "q"⟩]
        groupRoles := [⟨"keepers", "keeper"⟩, ⟨"readers", "reader"⟩]
        userGroups := [⟨"k", "keepers"⟩, ⟨"r", "readers"⟩] }
    ∃ db', (administration Auth.Sample.core).exec db [⟨.user "k", .deleteGroup "readers"⟩]
        = some db' ∧
      db.requirePermission (.user "r") "agents:read" true none = .passed ∧
      db'.requirePermission (.user "r") "agents:read" true none = .forbidden .missingPermission ∧
      db.requirePermission (.user "k") "groups:delete" false none = .passed := by
  intro db
  have hrun : (administration Auth.Sample.core).exec db [⟨.user "k", .deleteGroup "readers"⟩]
      = some _ := rfl
  refine ⟨_, hrun, by decide, by decide, ?_⟩
  exact grants_never_grow Auth.Sample.core (by decide) hrun (by decide)

/-! ### One request with a write permission -/

/-- An operator passes with an enabled row that owns the system or holds the permission. -/
theorem permits_user {db : Directory} {u action : String} :
    db.permits (.user u) action = true ↔ ∃ user, db.getUser u = some user ∧
      user.disabled = false ∧ "device:".toList.isPrefixOf user.id.toList = false ∧
      (user.isOwner = true ∨ action ∈ db.permissionKeys u) := by
  rw [permits_iff, requirePermission_eq_passed]
  simp only [Directory.subjectOf, Directory.resolveSubject_eq_some, authorize_allowed,
    Bool.false_eq_true, false_or]
  constructor
  · rintro ⟨s, ⟨user, huser, hdisabled, rfl⟩, hdevice, hallowed⟩
    refine ⟨user, huser, hdisabled, hdevice, hallowed.imp_right fun h => ?_⟩
    exact List.mem_eraseDups.mp h.1
  · rintro ⟨user, huser, hdisabled, hdevice, hallowed⟩
    refine ⟨_, ⟨user, huser, hdisabled, rfl⟩, hdevice, hallowed.imp_right fun h => ?_⟩
    exact ⟨List.mem_eraseDups.mpr h, by simp⟩

/-- A directory with the same users lets an operator do what its grants now say. -/
theorem permits_after {db db' : Directory} {u action action' : String}
    (hbefore : db.permits (.user u) action = true) (husers : db'.users = db.users)
    (hkeys : action ∈ db.permissionKeys u → action' ∈ db'.permissionKeys u) :
    db'.permits (.user u) action' = true := by
  obtain ⟨user, huser, hdisabled, hdevice, howner⟩ := permits_user.mp hbefore
  refine permits_user.mpr ⟨user, ?_, hdisabled, hdevice, howner.imp_right hkeys⟩
  rw [MasterDb.getUser, husers]
  exact huser

theorem handle_permitted (core : Core) {db : Directory} {req : Request}
    (h : db.permits req.caller req.op.permission = true) :
    handle core db req = (req.op.run core db).1 := by
  rw [handle, if_pos h]

section Escalates

variable {db : Directory} {u : String} (core : Core)

/-- Whoever may write roles puts every permission into one of the roles held. -/
theorem roles_write_escalates (hrefs : db.References)
    (h : db.permits (.user u) "roles:write" = true) :
    ∃ op, ∀ p ∈ db.permissions, (handle core db ⟨.user u, op⟩).permits (.user u) p.key = true := by
  -- the role that grants `roles:write`; owners need none
  obtain ⟨role, hrole⟩ : ∃ role, "roles:write" ∈ db.permissionKeys u →
      ∃ g, ⟨u, g⟩ ∈ db.userGroups ∧ ⟨g, role⟩ ∈ db.groupRoles := by
    by_cases hkey : "roles:write" ∈ db.permissionKeys u
    · obtain ⟨g, role, p, hug, hgr, -, -⟩ := Directory.mem_permissionKeys.mp hkey
      exact ⟨role, fun _ => ⟨g, hug, hgr⟩⟩
    · exact ⟨"", fun hmem => absurd hmem hkey⟩
  refine ⟨.setRolePermissions role (db.permissions.map Permission.key), fun p hp => ?_⟩
  obtain ⟨rows, hrun, hrows⟩ :=
    setRolePermissions_spec db role (db.permissions.map Permission.key)
  rw [handle_permitted core h, Op.run, hrun]
  refine permits_after h rfl (fun hkey => ?_)
  obtain ⟨g, hug, hgr⟩ := hrole hkey
  refine Directory.mem_permissionKeys.mpr ⟨g, role, p.id, hug, hgr, ?_, hp⟩
  exact (hrows _).mpr (Or.inr
    ⟨rfl, (hrefs.groupRoles _ hgr).2, p, hp, rfl, List.mem_map_of_mem hp⟩)

/-- Whoever may write groups puts every role into one of the groups joined. -/
theorem groups_write_escalates (hrefs : db.References)
    (h : db.permits (.user u) "groups:write" = true) :
    ∃ op, ∀ r p k, ⟨r, p⟩ ∈ db.rolePermissions → ⟨p, k⟩ ∈ db.permissions →
      (handle core db ⟨.user u, op⟩).permits (.user u) k = true := by
  obtain ⟨group, hgroup⟩ : ∃ group, "groups:write" ∈ db.permissionKeys u →
      ⟨u, group⟩ ∈ db.userGroups := by
    by_cases hkey : "groups:write" ∈ db.permissionKeys u
    · obtain ⟨group, r, p, hug, -, -, -⟩ := Directory.mem_permissionKeys.mp hkey
      exact ⟨group, fun _ => hug⟩
    · exact ⟨"", fun hmem => absurd hmem hkey⟩
  refine ⟨.setGroupRoles group (db.roles.map Role.id), fun r p k hrp hp => ?_⟩
  obtain ⟨rows, hrun, hrows⟩ := setGroupRoles_spec db group (db.roles.map Role.id)
  rw [handle_permitted core h, Op.run, hrun]
  refine permits_after h rfl (fun hkey => ?_)
  refine Directory.mem_permissionKeys.mpr ⟨group, r, p, hgroup hkey, ?_, hrp, hp⟩
  exact (hrows _).mpr (Or.inr
    ⟨rfl, (hrefs.rolePermissions _ hrp).1, (hrefs.userGroups _ (hgroup hkey)).2, fun _ hx => hx⟩)

/-- Whoever may write users joins every group. -/
theorem users_write_escalates (hrefs : db.References)
    (h : db.permits (.user u) "users:write" = true) :
    ∃ op, ∀ g r p k, ⟨g, r⟩ ∈ db.groupRoles → ⟨r, p⟩ ∈ db.rolePermissions →
      ⟨p, k⟩ ∈ db.permissions → (handle core db ⟨.user u, op⟩).permits (.user u) k = true := by
  refine ⟨.setUserGroups u (db.groups.map Group.id), fun g r p k hgr hrp hp => ?_⟩
  obtain ⟨rows, hrun, hrows⟩ := setUserGroups_spec db u (db.groups.map Group.id)
  rw [handle_permitted core h, Op.run, hrun]
  refine permits_after h rfl (fun hkey => ?_)
  obtain ⟨group, -, -, hug, -⟩ := Directory.mem_permissionKeys.mp hkey
  refine Directory.mem_permissionKeys.mpr ⟨g, r, p, ?_, hgr, hrp, hp⟩
  exact (hrows _).mpr (Or.inr
    ⟨rfl, (hrefs.groupRoles _ hgr).1, (hrefs.userGroups _ hug).1, fun _ hx => hx⟩)

end Escalates

/-- **Each write permission is as good as the grants it reaches.**  In every state that
    administration leads to, one request gives its caller every permission there is, with
    `roles:write`; every one that some role grants, with `groups:write`; every one that some
    group grants, with `users:write`. -/
theorem write_escalates (core : Core) {start db : Directory} {reqs : List Request}
    (hstart : start.References) (hrun : (administration core).exec start reqs = some db)
    (u : String) :
    (db.permits (.user u) "roles:write" = true → ∃ op, ∀ p ∈ db.permissions,
      (handle core db ⟨.user u, op⟩).permits (.user u) p.key = true) ∧
    (db.permits (.user u) "groups:write" = true →
      ∃ op, ∀ r p k, ⟨r, p⟩ ∈ db.rolePermissions → ⟨p, k⟩ ∈ db.permissions →
        (handle core db ⟨.user u, op⟩).permits (.user u) k = true) ∧
    (db.permits (.user u) "users:write" = true →
      ∃ op, ∀ g r p k, ⟨g, r⟩ ∈ db.groupRoles → ⟨r, p⟩ ∈ db.rolePermissions →
        ⟨p, k⟩ ∈ db.permissions → (handle core db ⟨.user u, op⟩).permits (.user u) k = true) :=
  have hrefs := references_kept core hstart hrun
  ⟨roles_write_escalates core hrefs, groups_write_escalates core hrefs,
    users_write_escalates core hrefs⟩

open Sample in
/-- The operator of the sample, who renames his role first. -/
theorem write_escalates_operator :
    ∃ db, (administration Auth.Sample.core).exec directory
        [⟨.user "op", .updateRole "editor" (some "author") none⟩] = some db ∧
      ∃ op, ∀ p ∈ db.permissions,
        (handle Auth.Sample.core db ⟨.user "op", op⟩).permits (.user "op") p.key = true := by
  have hrefs : directory.References := by constructor <;> decide
  have hrun : (administration Auth.Sample.core).exec directory
      [⟨.user "op", .updateRole "editor" (some "author") none⟩] = some _ := rfl
  exact ⟨_, hrun, (write_escalates Auth.Sample.core hrefs hrun "op").1 (by decide)⟩

end Argus.Access
