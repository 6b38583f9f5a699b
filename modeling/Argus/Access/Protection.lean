import Argus.Access.Directory
import Argus.Auth.Steps

namespace Argus.Access

open Auth

/-!
# Protected entities under administration

The administration routes of `users.routes.ts`, `groups.routes.ts` and `roles.routes.ts` as a
machine over the directory, and what it leaves of the protected entities: the rows of owner
and system users, of system groups and of system roles, with the rows attached to them.

* `Op`, `Op.run` — the operations behind the routes; `handle` — a request with its caller,
  whom `requirePermission` lets through or not; `administration` — the machine.
* `Directory.shielded` — everything that protection is about.
* `Spares` — an operation that does not reach the protected entities past `assertMutable`: the
  setters, the second-factor reset and the unlock carry no guard, and a cascade runs below it.
* `protected_kept` — sparing requests, in any number and from any caller, leave `shielded` as
  it was.
-/

/-! ### Requests -/

/-- The administration operations, with their parsed bodies; what the server draws for a new
    row or password is part of the label. -/
inductive Op
  | createUser (id salt : String) (input : CreateUserInput)
  | updateUser (id salt : String) (patch : UpdateUserInput)
  | deleteUser (id : String)
  | setUserGroups (id : String) (groupIds : List String)
  | setUserAttributes (id : String) (attributes : List (String × String))
  /-- `POST /api/users/:id/2fa/reset`. -/
  | resetTwoFa (id : String)
  /-- `POST /api/users/:id/unlock`. -/
  | unlock (id : String)
  | createGroup (id name : String) (description : Option String) (roleIds : List String)
  | updateGroup (id : String) (name description : Option String)
  | deleteGroup (id : String)
  | setGroupRoles (id : String) (roleIds : List String)
  | createRole (id name : String) (description : Option String) (permissionKeys : List String)
  | updateRole (id : String) (name description : Option String)
  | deleteRole (id : String)
  | setRolePermissions (id : String) (permissionKeys : List String)
deriving DecidableEq, Repr

/-- The permission the route of an operation requires. -/
def Op.permission : Op → String
  | .createUser .. | .updateUser .. | .setUserGroups .. | .setUserAttributes ..
  | .resetTwoFa .. | .unlock .. => "users:write"
  | .deleteUser .. => "users:delete"
  | .createGroup .. | .updateGroup .. | .setGroupRoles .. => "groups:write"
  | .deleteGroup .. => "groups:delete"
  | .createRole .. | .updateRole .. | .setRolePermissions .. => "roles:write"
  | .deleteRole .. => "roles:delete"

/-- The handlers that look the user up before they write, without a guard. -/
def Directory.onExistingUser (db : Directory) (id : String) (write : Directory × Reply) :
    Directory × Reply :=
  if (db.getUser id).isSome then write else (db, .notFound)

/-- What the handler of a route does once the caller is let through. -/
def Op.run (core : Core) (db : Directory) : Op → Directory × Reply
  | .createUser id salt input => db.createUser core id salt input
  | .updateUser id salt patch => db.updateUser core id salt patch
  | .deleteUser id => db.deleteUser id
  | .setUserGroups id groupIds => db.setUserGroups id groupIds
  | .setUserAttributes id attributes => db.onExistingUser id (db.setUserAttributes id attributes)
  | .resetTwoFa id => db.onExistingUser id
      ((((db.onMaster (.disableTotp id)).onMaster (.bumpTokenVersion id)).onMaster
        (.recordSuccess id)), .ok)
  | .unlock id => db.onExistingUser id (db.onMaster (.recordSuccess id), .ok)
  | .createGroup id name description roleIds => db.createGroup id name description roleIds
  | .updateGroup id name description => db.updateGroup id name description
  | .deleteGroup id => db.deleteGroup id
  | .setGroupRoles id roleIds => db.setGroupRoles id roleIds
  | .createRole id name description keys => db.createRole id name description keys
  | .updateRole id name description => db.updateRole id name description
  | .deleteRole id => db.deleteRole id
  | .setRolePermissions id keys => db.setRolePermissions id keys

/-- Who `authenticate` found behind a request. -/
inductive Caller
  | staticAdmin
  | device (id : String)
  | user (id : String)
deriving DecidableEq, Repr

/-- `req.subject`. -/
def Directory.subjectOf (db : Directory) : Caller → Option Subject
  | .staticAdmin => some staticAdminSubject
  | .device id => some (deviceSubject id)
  | .user id => db.resolveSubject id

/-- `requirePermission(action)` lets the caller through. -/
def Directory.permits (db : Directory) (caller : Caller) (action : String) : Bool :=
  match db.subjectOf caller with
  | none => false
  | some subject => !isDeviceSubject subject && (authorize subject action none).allowed

/-- A request of an administrator. -/
structure Request where
  caller : Caller
  op : Op
deriving DecidableEq, Repr

/-- A request the caller may not make changes nothing. -/
def handle (core : Core) (db : Directory) (req : Request) : Directory :=
  if db.permits req.caller req.op.permission then (req.op.run core db).1 else db

/-- The administration routes, one request after the other. -/
def administration (core : Core) : Machine Directory Request where
  step db req := some (handle core db req)

/-! ### Protected rows of one table -/

section Shields

variable {α : Type} [Protectable α] {key : α → String} {rows : List α} {id : String}

/-- A protected row has the key `id`. -/
def shields (key : α → String) (rows : List α) (id : String) : Bool :=
  (rows.filter isProtected).any (fun r => decide (key r = id))

theorem shields_eq_false :
    shields key rows id = false ↔ ∀ r ∈ rows, isProtected r = true → key r ≠ id := by
  simp [shields, List.any_eq_false]

/-- With distinct keys, a row found unprotected is the only one with its key. -/
theorem shields_of_lookup {r : α} (hnd : (rows.map key).Nodup)
    (h : Table.lookup key id rows = some r) (hr : isProtected r = false) :
    shields key rows id = false := by
  refine shields_eq_false.mpr (fun r' hr' hprot hkey => ?_)
  obtain ⟨hmem, hid⟩ := Table.lookup_some h
  obtain rfl : r' = r := List.inj_on_of_nodup_map hnd hr' hmem (hkey.trans hid.symm)
  rw [hr] at hprot
  exact Bool.noConfusion hprot

/-- A key no row has is not shielded. -/
theorem shields_of_fresh (h : ∀ r ∈ rows, key r ≠ id) : shields key rows id = false :=
  shields_eq_false.mpr (fun r hr _ => h r hr)

/-- Deleting the rows of an unshielded key leaves the protected ones. -/
theorem filter_delete_unshielded (h : shields key rows id = false) :
    (rows.filter (fun r => decide (key r ≠ id))).filter isProtected = rows.filter isProtected := by
  refine Table.filter_delete (fun r hr hprot => ?_)
  exact decide_eq_true (shields_eq_false.mp h r hr hprot)

/-- Updating the rows of an unshielded key leaves the protected ones. -/
theorem filter_update_unshielded {f : α → α} (hf : ∀ r, isProtected (f r) = isProtected r)
    (h : shields key rows id = false) :
    (Table.update (fun r => decide (key r = id)) f rows).filter isProtected
      = rows.filter isProtected := by
  rw [Table.filter_update _ hf]
  refine Table.update_of_ne (fun r hr => ?_)
  exact shields_eq_false.mp h r (List.mem_filter.mp hr).1 (List.mem_filter.mp hr).2

theorem filter_append_unprotected {r : α} (hr : isProtected r = false) :
    (rows ++ [r]).filter isProtected = rows.filter isProtected := by
  simp [hr]

end Shields

/-! ### The protected part of the directory -/

/-- The protected rows and the rows attached to them. -/
structure Shielded where
  users : List User
  groups : List Group
  roles : List Role
  userGroups : List UserGroup
  userAttributes : List UserAttribute
  groupRoles : List GroupRole
  rolePermissions : List RolePermission
deriving DecidableEq, Repr

namespace Directory

variable (db : Directory)

/-- A user with `isOwner` or `isSystem` has the id. -/
def protectedUser (id : String) : Bool := shields User.id db.users id

def systemGroup (id : String) : Bool := shields Group.id db.groups id

def systemRole (id : String) : Bool := shields Role.id db.roles id

/-- What no administrator is to change. -/
def shielded : Shielded where
  users := db.users.filter isProtected
  groups := db.groups.filter isProtected
  roles := db.roles.filter isProtected
  userGroups := db.userGroups.filter (fun r => db.protectedUser r.userId)
  userAttributes := db.userAttributes.filter (fun r => db.protectedUser r.userId)
  groupRoles := db.groupRoles.filter (fun r => db.systemGroup r.groupId)
  rolePermissions := db.rolePermissions.filter (fun r => db.systemRole r.roleId)

/-- The primary keys of the three entity tables. -/
structure Keyed : Prop where
  users : (db.users.map User.id).Nodup
  groups : (db.groups.map Group.id).Nodup
  roles : (db.roles.map Role.id).Nodup

end Directory

/-- `db'` has the protected part of `db`, and its primary keys still hold. -/
structure Spared (db db' : Directory) : Prop where
  shielded : db'.shielded = db.shielded
  keyed : db.Keyed → db'.Keyed

namespace Spared

variable {db db' db'' : Directory}

theorem refl (db : Directory) : Spared db db := ⟨rfl, id⟩

theorem trans (h : Spared db db') (h' : Spared db' db'') : Spared db db'' :=
  ⟨h'.shielded.trans h.shielded, fun hkeyed => h'.keyed (h.keyed hkeyed)⟩

/-- The same users are protected as before. -/
theorem protectedUser (h : Spared db db') : db'.protectedUser = db.protectedUser := by
  have husers := congrArg Shielded.users h.shielded
  funext id
  exact congrArg (List.any · (fun u : User => decide (u.id = id))) husers

theorem systemGroup (h : Spared db db') : db'.systemGroup = db.systemGroup := by
  have hgroups := congrArg Shielded.groups h.shielded
  funext id
  exact congrArg (List.any · (fun g : Group => decide (g.id = id))) hgroups

theorem systemRole (h : Spared db db') : db'.systemRole = db.systemRole := by
  have hroles := congrArg Shielded.roles h.shielded
  funext id
  exact congrArg (List.any · (fun r : Role => decide (r.id = id))) hroles

/-- The protected parts agree when they do table by table; an attached row is judged by the
    protected rows of before. -/
theorem of_tables (hkeyed : db.Keyed → db'.Keyed)
    (husers : db'.users.filter isProtected = db.users.filter isProtected)
    (hgroups : db'.groups.filter isProtected = db.groups.filter isProtected)
    (hroles : db'.roles.filter isProtected = db.roles.filter isProtected)
    (hug : db'.userGroups.filter (fun r => db.protectedUser r.userId)
      = db.userGroups.filter (fun r => db.protectedUser r.userId))
    (hua : db'.userAttributes.filter (fun r => db.protectedUser r.userId)
      = db.userAttributes.filter (fun r => db.protectedUser r.userId))
    (hgr : db'.groupRoles.filter (fun r => db.systemGroup r.groupId)
      = db.groupRoles.filter (fun r => db.systemGroup r.groupId))
    (hrp : db'.rolePermissions.filter (fun r => db.systemRole r.roleId)
      = db.rolePermissions.filter (fun r => db.systemRole r.roleId)) : Spared db db' := by
  have hpu : db'.protectedUser = db.protectedUser := by
    funext id
    rw [Directory.protectedUser, shields, husers]
    rfl
  have hsg : db'.systemGroup = db.systemGroup := by
    funext id
    rw [Directory.systemGroup, shields, hgroups]
    rfl
  have hsr : db'.systemRole = db.systemRole := by
    funext id
    rw [Directory.systemRole, shields, hroles]
    rfl
  refine ⟨?_, hkeyed⟩
  rw [Directory.shielded, Directory.shielded, hpu, hsg, hsr, husers, hgroups, hroles, hug, hua,
    hgr, hrp]

/-- Where the entity tables stay, only the attached rows have to be looked at. -/
theorem of_attached (husers : db'.users = db.users) (hgroups : db'.groups = db.groups)
    (hroles : db'.roles = db.roles)
    (hug : db'.userGroups.filter (fun r => db.protectedUser r.userId)
      = db.userGroups.filter (fun r => db.protectedUser r.userId))
    (hua : db'.userAttributes.filter (fun r => db.protectedUser r.userId)
      = db.userAttributes.filter (fun r => db.protectedUser r.userId))
    (hgr : db'.groupRoles.filter (fun r => db.systemGroup r.groupId)
      = db.groupRoles.filter (fun r => db.systemGroup r.groupId))
    (hrp : db'.rolePermissions.filter (fun r => db.systemRole r.roleId)
      = db.rolePermissions.filter (fun r => db.systemRole r.roleId)) : Spared db db' := by
  refine of_tables (fun hkeyed => ⟨?_, ?_, ?_⟩) (by rw [husers]) (by rw [hgroups])
    (by rw [hroles]) hug hua hgr hrp
  · rw [husers]
    exact hkeyed.users
  · rw [hgroups]
    exact hkeyed.groups
  · rw [hroles]
    exact hkeyed.roles

end Spared

/-! ### The setters -/

section Setters

variable {db : Directory} {id : String}

/-- The rows of one owner deleted: those of the owners in `p` stay. -/
theorem filter_cleared {α : Type} (owner : α → String) {p : String → Bool} (rows : List α)
    (h : p id = false) :
    (rows.filter (fun r => decide (owner r ≠ id))).filter (fun r => p (owner r))
      = rows.filter (fun r => p (owner r)) := by
  refine Table.filter_delete (fun r _ hp => decide_eq_true (fun heq => ?_))
  rw [heq, h] at hp
  exact Bool.noConfusion hp

/-- The rows of one owner replaced: those of the owners in `p` stay. -/
theorem filter_replaced {α β : Type} [DecidableEq α] (owner : α → String) {p : String → Bool}
    (rows : List α) (h : p id = false) {mk : β → α} (hmk : ∀ x, owner (mk x) = id)
    (new : List β) :
    (Table.insertNew (rows.filter (fun r => decide (owner r ≠ id))) (new.map mk)).filter
        (fun r => p (owner r))
      = rows.filter (fun r => p (owner r)) := by
  rw [Table.filter_insertNew, filter_cleared owner rows h]
  intro r hr
  obtain ⟨x, -, rfl⟩ := List.mem_map.mp hr
  rw [hmk x, h]

theorem setUserGroups_spared (h : db.protectedUser id = false) (groupIds : List String) :
    Spared db (db.setUserGroups id groupIds).1 := by
  have hcleared := filter_cleared UserGroup.userId db.userGroups h
  unfold Directory.setUserGroups Directory.insertUserGroups
  dsimp only
  split_ifs
  · exact .of_attached rfl rfl rfl hcleared rfl rfl rfl
  · exact .of_attached rfl rfl rfl (filter_replaced UserGroup.userId _ h (fun _ => rfl) _) rfl rfl
      rfl
  · exact .of_attached rfl rfl rfl hcleared rfl rfl rfl

theorem setUserAttributes_spared (h : db.protectedUser id = false)
    (attributes : List (String × String)) :
    Spared db (db.setUserAttributes id attributes).1 := by
  have hcleared := filter_cleared UserAttribute.userId db.userAttributes h
  unfold Directory.setUserAttributes
  dsimp only
  split_ifs
  · exact .of_attached rfl rfl rfl rfl hcleared rfl rfl
  · refine .of_attached rfl rfl rfl rfl ?_ rfl rfl
    rw [List.filter_append, hcleared, List.append_right_eq_self, List.filter_eq_nil_iff]
    intro r hr
    obtain ⟨entry, -, rfl⟩ := List.mem_map.mp hr
    rw [h]
    exact Bool.false_ne_true
  · exact .of_attached rfl rfl rfl rfl hcleared rfl rfl

theorem setGroupRoles_spared (h : db.systemGroup id = false) (roleIds : List String) :
    Spared db (db.setGroupRoles id roleIds).1 := by
  have hcleared := filter_cleared GroupRole.groupId db.groupRoles h
  unfold Directory.setGroupRoles Directory.insertGroupRoles
  dsimp only
  split_ifs
  · exact .of_attached rfl rfl rfl rfl rfl hcleared rfl
  · exact .of_attached rfl rfl rfl rfl rfl (filter_replaced GroupRole.groupId _ h (fun _ => rfl) _)
      rfl
  · exact .of_attached rfl rfl rfl rfl rfl hcleared rfl

theorem setRolePermissions_spared (h : db.systemRole id = false) (permissionKeys : List String) :
    Spared db (db.setRolePermissions id permissionKeys).1 := by
  have hcleared := filter_cleared RolePermission.roleId db.rolePermissions h
  unfold Directory.setRolePermissions Directory.insertRolePermissions
  dsimp only
  split_ifs
  · exact .of_attached rfl rfl rfl rfl rfl rfl hcleared
  · exact .of_attached rfl rfl rfl rfl rfl rfl
      (filter_replaced RolePermission.roleId _ h (fun _ => rfl) _)
  · exact .of_attached rfl rfl rfl rfl rfl rfl hcleared

end Setters

/-! ### Rows created -/

section Creation

variable {db : Directory} {id : String}

theorem andThen_spared {a : Directory × Reply} {b : Directory → Directory × Reply}
    (ha : Spared db a.1) (hb : Spared a.1 (b a.1).1) : Spared db (andThen a b).1 := by
  unfold andThen
  split
  · exact ha.trans hb
  · exact ha

theorem insertUser_spared {created : User} (hprot : isProtected created = false)
    (hfresh : ∀ u ∈ db.users, u.id ≠ created.id) :
    Spared db { db with users := db.users ++ [created] } :=
  .of_tables (fun hkeyed =>
      ⟨Table.nodup_append_singleton hkeyed.users hfresh, hkeyed.groups, hkeyed.roles⟩)
    (filter_append_unprotected hprot) rfl rfl rfl rfl rfl rfl

theorem insertGroup_spared {created : Group} (hprot : isProtected created = false)
    (hfresh : ∀ g ∈ db.groups, g.id ≠ created.id) :
    Spared db { db with groups := db.groups ++ [created] } :=
  .of_tables (fun hkeyed =>
      ⟨hkeyed.users, Table.nodup_append_singleton hkeyed.groups hfresh, hkeyed.roles⟩)
    rfl (filter_append_unprotected hprot) rfl rfl rfl rfl rfl

theorem insertRole_spared {created : Role} (hprot : isProtected created = false)
    (hfresh : ∀ r ∈ db.roles, r.id ≠ created.id) :
    Spared db { db with roles := db.roles ++ [created] } :=
  .of_tables (fun hkeyed =>
      ⟨hkeyed.users, hkeyed.groups, Table.nodup_append_singleton hkeyed.roles hfresh⟩)
    rfl rfl (filter_append_unprotected hprot) rfl rfl rfl rfl

/-- The memberships and attributes of a user who is not protected. -/
theorem attachUser_spared (h : db.protectedUser id = false) (groupIds : List String)
    (attributes : List (String × String)) :
    Spared db (andThen (if groupIds.isEmpty then (db, .ok) else db.setUserGroups id groupIds)
      (fun db => if attributes.isEmpty then (db, .ok)
        else db.setUserAttributes id attributes)).1 := by
  have hgroups : Spared db
      (if groupIds.isEmpty then (db, .ok) else db.setUserGroups id groupIds).1 := by
    split
    · exact .refl db
    · exact setUserGroups_spared h groupIds
  refine andThen_spared hgroups ?_
  generalize (if groupIds.isEmpty then (db, .ok) else db.setUserGroups id groupIds) = attached
    at hgroups ⊢
  split
  · exact .refl _
  · exact setUserAttributes_spared (by rw [hgroups.protectedUser, h]) attributes

/-- The row a `create` inserts broke no key. -/
theorem fresh_of_any {α : Type} {key name : α → String} {rows : List α} {k n : String}
    (h : ¬ rows.any (fun r => decide (key r = k) || decide (name r = n)) = true) :
    ∀ r ∈ rows, key r ≠ k := by
  intro r hr hk
  exact h (List.any_eq_true.mpr ⟨r, hr, by simp [hk]⟩)

theorem createUser_spared (core : Core) (salt : String) (input : CreateUserInput) :
    Spared db (db.createUser core id salt input).1 := by
  unfold Directory.createUser
  split
  · exact .refl db
  · rename_i hany
    have hfresh := fresh_of_any hany
    dsimp only
    refine Spared.trans (insertUser_spared ?_ ?_) (attachUser_spared ?_ _ _)
    · rfl
    · exact hfresh
    · rw [(insertUser_spared rfl hfresh).protectedUser]
      exact shields_of_fresh hfresh

theorem createGroup_spared (name : String) (description : Option String) (roleIds : List String) :
    Spared db (db.createGroup id name description roleIds).1 := by
  unfold Directory.createGroup
  split
  · exact .refl db
  · rename_i hany
    have hfresh := fresh_of_any hany
    dsimp only
    split
    · exact insertGroup_spared rfl hfresh
    · refine Spared.trans (insertGroup_spared ?_ ?_) (setGroupRoles_spared ?_ roleIds)
      · rfl
      · exact hfresh
      · rw [(insertGroup_spared rfl hfresh).systemGroup]
        exact shields_of_fresh hfresh

theorem createRole_spared (name : String) (description : Option String)
    (permissionKeys : List String) :
    Spared db (db.createRole id name description permissionKeys).1 := by
  unfold Directory.createRole
  split
  · exact .refl db
  · rename_i hany
    have hfresh := fresh_of_any hany
    dsimp only
    split
    · exact insertRole_spared rfl hfresh
    · refine Spared.trans (insertRole_spared ?_ ?_) (setRolePermissions_spared ?_ permissionKeys)
      · rfl
      · exact hfresh
      · rw [(insertRole_spared rfl hfresh).systemRole]
        exact shields_of_fresh hfresh

end Creation

/-! ### Rows updated and deleted -/

section Guarded

variable {db : Directory} {id : String}

/-- A guarded service writes only to a row that is not protected. -/
theorem guarded_spared {α : Type} [Protectable α] {row : Option α} {what : α → String}
    {write : α → Directory × Reply}
    (h : ∀ existing, row = some existing → isProtected existing = false →
      Spared db (write existing).1) : Spared db (guarded db row what write).1 := by
  unfold guarded
  split
  · exact .refl db
  · split
    · exact .refl db
    · rename_i existing hprot
      exact h existing rfl (by simpa using hprot)

/-- A statement on one user that is not protected. -/
theorem onMaster_spared {stmt : Stmt} {set : User → User} (hstmt : stmt.onUser = some (id, set))
    (hid : ∀ u, (set u).id = u.id) (hset : ∀ u, isProtected (set u) = isProtected u)
    (h : db.protectedUser id = false) : Spared db (db.onMaster stmt) := by
  have husers : (db.onMaster stmt).users
      = Table.update (fun u => decide (u.id = id)) set db.users := by
    simp only [Directory.onMaster, Stmt.exec, hstmt]
  refine .of_tables (fun hkeyed => ⟨?_, hkeyed.groups, hkeyed.roles⟩) ?_ rfl rfl rfl rfl rfl rfl
  · rw [husers, Table.map_update User.id hid]
    exact hkeyed.users
  · rw [husers]
    exact filter_update_unshielded hset h

theorem updateUser_spared (hkeyed : db.Keyed) (core : Core) (salt : String)
    (patch : UpdateUserInput) : Spared db (db.updateUser core id salt patch).1 := by
  refine guarded_spared (fun existing hrow hprot => ?_)
  exact onMaster_spared rfl (fun _ => rfl) (fun _ => rfl)
    (shields_of_lookup hkeyed.users hrow hprot)

theorem deleteUser_spared (hkeyed : db.Keyed) : Spared db (db.deleteUser id).1 := by
  refine guarded_spared (fun existing hrow hprot => ?_)
  have hid : db.protectedUser id = false := shields_of_lookup hkeyed.users hrow hprot
  refine .of_tables (fun _ => ⟨?_, hkeyed.groups, hkeyed.roles⟩) (filter_delete_unshielded hid)
    rfl rfl (filter_cleared UserGroup.userId _ hid) (filter_cleared UserAttribute.userId _ hid)
    rfl rfl
  exact hkeyed.users.sublist (List.filter_sublist.map User.id)

theorem updateGroup_spared (hkeyed : db.Keyed) (name description : Option String) :
    Spared db (db.updateGroup id name description).1 := by
  refine guarded_spared (fun existing hrow hprot => ?_)
  split
  · exact .refl db
  · refine .of_tables (fun _ => ⟨hkeyed.users, ?_, hkeyed.roles⟩) rfl ?_ rfl rfl rfl rfl rfl
    · dsimp only
      rw [Table.map_update Group.id (f := Group.patch name description) (fun _ => rfl)]
      exact hkeyed.groups
    · exact filter_update_unshielded (fun _ => rfl)
        (shields_of_lookup hkeyed.groups hrow hprot)

theorem updateRole_spared (hkeyed : db.Keyed) (name description : Option String) :
    Spared db (db.updateRole id name description).1 := by
  refine guarded_spared (fun existing hrow hprot => ?_)
  split
  · exact .refl db
  · refine .of_tables (fun _ => ⟨hkeyed.users, hkeyed.groups, ?_⟩) rfl rfl ?_ rfl rfl rfl rfl
    · dsimp only
      rw [Table.map_update Role.id (f := Role.patch name description) (fun _ => rfl)]
      exact hkeyed.roles
    · exact filter_update_unshielded (fun _ => rfl)
        (shields_of_lookup hkeyed.roles hrow hprot)

/-- A group that is deleted takes its memberships along: they must be nobody's who is
    protected. -/
theorem deleteGroup_spared (hkeyed : db.Keyed)
    (hfree : db.systemGroup id = false →
      ∀ r ∈ db.userGroups, r.groupId = id → db.protectedUser r.userId = false) :
    Spared db (db.deleteGroup id).1 := by
  refine guarded_spared (fun existing hrow hprot => ?_)
  have hid : db.systemGroup id = false := shields_of_lookup hkeyed.groups hrow hprot
  refine .of_tables (fun _ => ⟨hkeyed.users, ?_, hkeyed.roles⟩) rfl
    (filter_delete_unshielded hid) rfl ?_ rfl (filter_cleared GroupRole.groupId _ hid) rfl
  · exact hkeyed.groups.sublist (List.filter_sublist.map Group.id)
  · refine Table.filter_delete (fun r hr hp => decide_eq_true (fun heq => ?_))
    rw [hfree hid r hr heq] at hp
    exact Bool.noConfusion hp

/-- A role that is deleted is taken from every group: none of them may be a system group. -/
theorem deleteRole_spared (hkeyed : db.Keyed)
    (hfree : db.systemRole id = false →
      ∀ r ∈ db.groupRoles, r.roleId = id → db.systemGroup r.groupId = false) :
    Spared db (db.deleteRole id).1 := by
  refine guarded_spared (fun existing hrow hprot => ?_)
  have hid : db.systemRole id = false := shields_of_lookup hkeyed.roles hrow hprot
  refine .of_tables (fun _ => ⟨hkeyed.users, hkeyed.groups, ?_⟩) rfl rfl
    (filter_delete_unshielded hid) rfl rfl ?_ (filter_cleared RolePermission.roleId _ hid)
  · exact hkeyed.roles.sublist (List.filter_sublist.map Role.id)
  · refine Table.filter_delete (fun r hr hp => decide_eq_true (fun heq => ?_))
    rw [hfree hid r hr heq] at hp
    exact Bool.noConfusion hp

end Guarded

/-! ### Runs -/

/-- An operation that stays away from the protected entities where no guard does it: a setter,
    a second-factor reset or an unlock of something else, the deletion of a group without
    protected members, the deletion of a role that no system group carries. -/
def Spares (db : Directory) : Op → Prop
  | .setUserGroups id _ | .setUserAttributes id _ | .resetTwoFa id | .unlock id =>
      db.protectedUser id = false
  | .setGroupRoles id _ => db.systemGroup id = false
  | .setRolePermissions id _ => db.systemRole id = false
  | .deleteGroup id => db.systemGroup id = false →
      ∀ r ∈ db.userGroups, r.groupId = id → db.protectedUser r.userId = false
  | .deleteRole id => db.systemRole id = false →
      ∀ r ∈ db.groupRoles, r.roleId = id → db.systemGroup r.groupId = false
  | _ => True

theorem onExistingUser_spared {db : Directory} {id : String} {write : Directory × Reply}
    (h : Spared db write.1) : Spared db (db.onExistingUser id write).1 := by
  unfold Directory.onExistingUser
  split
  · exact h
  · exact .refl db

/-- Clearing a second factor, the sessions and the lock of a user who is not protected. -/
theorem resetTwoFa_spared {db : Directory} {id : String} (h : db.protectedUser id = false) :
    Spared db (((db.onMaster (.disableTotp id)).onMaster (.bumpTokenVersion id)).onMaster
      (.recordSuccess id)) := by
  have hdisable : Spared db (db.onMaster (.disableTotp id)) :=
    onMaster_spared rfl (fun _ => rfl) (fun _ => rfl) h
  have hbump : Spared _ ((db.onMaster (.disableTotp id)).onMaster (.bumpTokenVersion id)) :=
    onMaster_spared rfl (fun _ => rfl) (fun _ => rfl) (by rw [hdisable.protectedUser, h])
  refine (hdisable.trans hbump).trans ?_
  exact onMaster_spared rfl (fun _ => rfl) (fun _ => rfl)
    (by rw [(hdisable.trans hbump).protectedUser, h])

/-- One operation, case by case. -/
theorem run_spared {db : Directory} (core : Core) (hkeyed : db.Keyed) {op : Op}
    (h : Spares db op) : Spared db (op.run core db).1 := by
  cases op with
  | createUser id salt input => exact createUser_spared core salt input
  | updateUser id salt patch => exact updateUser_spared hkeyed core salt patch
  | deleteUser id => exact deleteUser_spared hkeyed
  | setUserGroups id groupIds => exact setUserGroups_spared h groupIds
  | setUserAttributes id attributes =>
    exact onExistingUser_spared (setUserAttributes_spared h attributes)
  | resetTwoFa id => exact onExistingUser_spared (resetTwoFa_spared h)
  | unlock id =>
    exact onExistingUser_spared (onMaster_spared rfl (fun _ => rfl) (fun _ => rfl) h)
  | createGroup id name description roleIds => exact createGroup_spared name description roleIds
  | updateGroup id name description => exact updateGroup_spared hkeyed name description
  | deleteGroup id => exact deleteGroup_spared hkeyed h
  | setGroupRoles id roleIds => exact setGroupRoles_spared h roleIds
  | createRole id name description keys => exact createRole_spared name description keys
  | updateRole id name description => exact updateRole_spared hkeyed name description
  | deleteRole id => exact deleteRole_spared hkeyed h
  | setRolePermissions id keys => exact setRolePermissions_spared h keys

/-- **Protection.**  In every run of administration requests, by whichever callers, that spare
    the protected entities, the protected rows and everything attached to them stay as they
    were. -/
theorem protected_kept (core : Core) {db db' : Directory} {reqs : List Request}
    (hkeyed : db.Keyed)
    (hspares : (administration core).Meets (fun db req => Spares db req.op) db reqs)
    (hrun : (administration core).exec db reqs = some db') : db'.shielded = db.shielded := by
  have hspared : Spared db db' ∧ db'.Keyed := by
    refine Machine.inv_of_exec (I := fun s => Spared db s ∧ s.Keyed) ?_ ⟨.refl db, hkeyed⟩
      hspares hrun
    rintro s req s' ⟨hs, hks⟩ hreq hstep
    obtain rfl := Option.some.inj hstep
    have hreq : Spared s (handle core s req) := by
      unfold handle
      split
      · exact run_spared core hks hreq
      · exact .refl s
    exact ⟨hs.trans hreq, hreq.keyed hks⟩
  exact hspared.1.shielded

/-! ### A directory with an owner, a system role and an operator -/

namespace Sample

/-- The operator `op` holds `roles:write` and `users:write` through the role `editor`; the
    system role `admin` grants both too. -/
def directory : Directory where
  users :=
    [ { id := "own", username := "owner", isOwner := true },
      { id := "op", username := "operator" } ]
  refreshTokens := []
  groups := [{ id := "g", name := "operators" }]
  roles :=
    [{ id := "admin", name := "admin", isSystem := true }, { id := "editor", name := "editor" }]
  permissions := [⟨"p", "roles:write"⟩, ⟨"q", "users:write"⟩]
  rolePermissions := [⟨"admin", "p"⟩, ⟨"admin", "q"⟩, ⟨"editor", "p"⟩, ⟨"editor", "q"⟩]
  groupRoles := [⟨"g", "editor"⟩]
  userGroups := [⟨"op", "g"⟩]
  userAttributes := []

theorem directory_keyed : directory.Keyed := by constructor <;> decide

end Sample

open Sample in
/-- The operator empties the role `editor`, tries to disable the owner and is refused, and
    would not be allowed to write any more: the owner and the role `admin` stay. -/
theorem protected_kept_operator :
    let reqs : List Request :=
      [ ⟨.user "op", .updateUser "own" "" { disabled := some true }⟩,
        ⟨.user "op", .setRolePermissions "editor" []⟩,
        ⟨.user "op", .updateRole "editor" (some "none") none⟩ ]
    ∃ db', (administration Auth.Sample.core).exec directory reqs = some db' ∧
      db'.rolePermissions ≠ directory.rolePermissions ∧ db'.shielded = directory.shielded := by
  intro reqs
  have hspares : (administration Auth.Sample.core).Meets (fun db req => Spares db req.op)
      directory reqs := by
    refine .cons trivial rfl (.cons ?_ rfl (.cons trivial rfl trivial))
    show Directory.systemRole _ "editor" = false
    decide
  refine ⟨_, rfl, by decide, ?_⟩
  exact protected_kept Auth.Sample.core directory_keyed hspares rfl

open Sample in
/-- An operator who is not the owner and may write roles takes every permission from a system
    role: `setRolePermissions` never asks `assertMutable`. -/
theorem system_role_emptied :
    directory.Keyed ∧ (directory.resolveSubject "op").map Subject.isOwner = some false ∧
    directory.permits (.user "op") "roles:write" = true ∧
    ∃ db', (administration Auth.Sample.core).exec directory
        [⟨.user "op", .setRolePermissions "admin" []⟩] = some db' ∧
      db'.shielded ≠ directory.shielded := by
  refine ⟨directory_keyed, by decide, by decide, _, rfl, by decide⟩

end Argus.Access
