import Argus.Auth.MasterDb
import Argus.Lib.JsText

namespace Argus.Access

open Auth

/-!
# The directory — users, groups, roles and permissions

The tables behind every authorization decision and the services `users.ts`, `groups.ts` and
`roles.ts` that administer them.  Access flows from a user over its groups and their roles to
permissions; `resolveSubject` collects it and `authorize` decides on it.

* `Directory` — the master database with the tables of the access model.
* `Directory.resolveSubject`, `authorize` — who may do what.
* `assertMutable` and the services — one definition per exported function.  A service that
  throws keeps what it wrote before, since no transaction surrounds it; a broken unique or
  foreign key makes the statement fail (`Reply.failed`).

Column defaults are those of `master/schema.ts`; `createdAt`, `updatedAt` and the id of a
`user_attributes` row are left out, as no service reads them.
-/

/-! ### Rows -/

/-- A row of `groups`. -/
structure Group where
  id : String
  name : String
  description : String := ""
  isSystem : Bool := false
deriving DecidableEq, Repr

/-- A row of `roles`. -/
structure Role where
  id : String
  name : String
  description : String := ""
  isSystem : Bool := false
deriving DecidableEq, Repr

/-- A row of `permissions`; `key` is of the form `resource:action`. -/
structure Permission where
  id : String
  key : String
deriving DecidableEq, Repr

/-- A row of `role_permissions`. -/
structure RolePermission where
  roleId : String
  permissionId : String
deriving DecidableEq, Repr

/-- A row of `group_roles`. -/
structure GroupRole where
  groupId : String
  roleId : String
deriving DecidableEq, Repr

/-- A row of `user_groups`. -/
structure UserGroup where
  userId : String
  groupId : String
deriving DecidableEq, Repr

/-- A row of `user_attributes`. -/
structure UserAttribute where
  userId : String
  key : String
  value : String
deriving DecidableEq, Repr

/-- The master database with the tables of the access model. -/
structure Directory extends MasterDb where
  groups : List Group
  roles : List Role
  permissions : List Permission
  rolePermissions : List RolePermission
  groupRoles : List GroupRole
  userGroups : List UserGroup
  userAttributes : List UserAttribute
deriving Repr

/-! ### Subjects -/

/-- `AuthSubject`, the resolved caller of a request. -/
structure Subject where
  userId : String
  isOwner : Bool
  permissions : List String
  attributes : List (String × String)
deriving DecidableEq, Repr

/-- `STATIC_ADMIN_SUBJECT`. -/
def staticAdminSubject : Subject := ⟨"static-admin", true, [], []⟩

/-- `DEVICE_READ_PERMS`. -/
def deviceReadPerms : List String :=
  ["dashboard:read", "wallboards:read", "agents:read", "monitors:read", "notifications:read",
    "ticker:read"]

/-- `deviceSubject`. -/
def deviceSubject (deviceId : String) : Subject :=
  ⟨"device:" ++ deviceId, false, deviceReadPerms, []⟩

/-- `isDeviceSubject`. -/
def isDeviceSubject (subject : Subject) : Bool :=
  "device:".toList.isPrefixOf subject.userId.toList

namespace Directory

variable (db : Directory)

/-- The permission keys a user holds: `user_groups` joined with `group_roles`,
    `role_permissions` and `permissions`. -/
def permissionKeys (userId : String) : List String :=
  (db.userGroups.filter (fun ug => decide (ug.userId = userId))).flatMap fun ug =>
    (db.groupRoles.filter (fun gr => decide (gr.groupId = ug.groupId))).flatMap fun gr =>
      (db.rolePermissions.filter (fun rp => decide (rp.roleId = gr.roleId))).flatMap fun rp =>
        (db.permissions.filter (fun p => decide (p.id = rp.permissionId))).map Permission.key

/-- `resolveSubject`. -/
def resolveSubject (userId : String) : Option Subject :=
  match db.getUser userId with
  | none => none
  | some user =>
    if user.disabled then none else some
      { userId := user.id
        isOwner := user.isOwner
        permissions := (db.permissionKeys userId).eraseDups
        attributes := (db.userAttributes.filter (fun a => decide (a.userId = userId))).map
          (fun a => (a.key, a.value)) }

end Directory

/-- `AuthzReason`. -/
inductive AuthzReason
  | ownerBypass
  | granted
  | missingPermission
  | attributeMismatch
deriving DecidableEq, Repr

/-- `AuthzReason.allowed` of the decision record `authorize` returns. -/
def AuthzReason.allowed : AuthzReason → Bool
  | .ownerBypass | .granted => true
  | .missingPermission | .attributeMismatch => false

/-- `satisfiesAttributes`: every required key is met by one of the subject's attributes; a
    constraint lists the values it allows. -/
def satisfiesAttributes (subject : Subject) (required : List (String × List String)) : Bool :=
  required.all fun constraint =>
    subject.attributes.any fun attr =>
      decide (attr.1 = constraint.1) && constraint.2.contains attr.2

/-- `authorize`; `required` is `resource?.requiredAttributes`. -/
def authorize (subject : Subject) (action : String)
    (required : Option (List (String × List String))) : AuthzReason :=
  if subject.isOwner then .ownerBypass
  else if !subject.permissions.contains action then .missingPermission
  else if required.any (fun r => !satisfiesAttributes subject r) then .attributeMismatch
  else .granted

/-! ### Protection -/

/-- `Protectable`: what carries the flags of a protected record. -/
class Protectable (α : Type) where
  isProtected : α → Bool

export Protectable (isProtected)

instance : Protectable User := ⟨fun u => u.isSystem || u.isOwner⟩
instance : Protectable Group := ⟨Group.isSystem⟩
instance : Protectable Role := ⟨Role.isSystem⟩

/-- What a service answers: a value that the route sends on, `undefined` or `false` for a
    missing row, `ProtectedEntityError` with its message, or a statement that failed. -/
inductive Reply
  | ok
  | notFound
  | protectedEntity (message : String)
  | failed
deriving DecidableEq, Repr

/-- The message of `assertMutable`. -/
def protectedMessage (what : String) : String :=
  what ++ " is a protected system entity and cannot be modified or deleted."

/-- The shape of every guarded service: read the row, refuse if it is missing or protected
    (`assertMutable`), else go on with it. -/
def guarded {α : Type} [Protectable α] (db : Directory) (row : Option α) (what : α → String)
    (write : α → Directory × Reply) : Directory × Reply :=
  match row with
  | none => (db, .notFound)
  | some existing =>
    if isProtected existing then (db, .protectedEntity (protectedMessage (what existing)))
    else write existing

/-- `await a; await b`: `b` runs unless `a` threw. -/
def andThen (a : Directory × Reply) (b : Directory → Directory × Reply) : Directory × Reply :=
  match a.2 with
  | .ok => b a.1
  | _ => a

/-- A second part that leaves the users alone. -/
theorem andThen_users {a : Directory × Reply} {b : Directory → Directory × Reply}
    (h : ∀ db, (b db).1.users = db.users) : (andThen a b).1.users = a.1.users := by
  unfold andThen
  split
  · exact h a.1
  · rfl

namespace Directory

variable (db : Directory)

/-- A statement of the authentication services on the tables they share. -/
def onMaster (stmt : Stmt) : Directory := { db with toMasterDb := stmt.exec db.toMasterDb }

def getGroup (id : String) : Option Group := Table.lookup Group.id id db.groups

def getRole (id : String) : Option Role := Table.lookup Role.id id db.roles

/-! ### Joins -/

/-- `INSERT INTO user_groups … ON CONFLICT DO NOTHING`. -/
def insertUserGroups (rows : List UserGroup) : Directory × Reply :=
  if rows.all (fun r => db.users.any (fun u => decide (u.id = r.userId))
      && db.groups.any (fun g => decide (g.id = r.groupId))) then
    ({ db with userGroups := Table.insertNew db.userGroups rows }, .ok)
  else (db, .failed)

/-- `INSERT INTO group_roles … ON CONFLICT DO NOTHING`. -/
def insertGroupRoles (rows : List GroupRole) : Directory × Reply :=
  if rows.all (fun r => db.groups.any (fun g => decide (g.id = r.groupId))
      && db.roles.any (fun x => decide (x.id = r.roleId))) then
    ({ db with groupRoles := Table.insertNew db.groupRoles rows }, .ok)
  else (db, .failed)

/-- `INSERT INTO role_permissions … ON CONFLICT DO NOTHING`. -/
def insertRolePermissions (rows : List RolePermission) : Directory × Reply :=
  if rows.all (fun r => db.roles.any (fun x => decide (x.id = r.roleId))
      && db.permissions.any (fun p => decide (p.id = r.permissionId))) then
    ({ db with rolePermissions := Table.insertNew db.rolePermissions rows }, .ok)
  else (db, .failed)

/-- `setUserGroups`: no guard, and the old memberships go before the new ones are checked. -/
def setUserGroups (userId : String) (groupIds : List String) : Directory × Reply :=
  let cleared := { db with
    userGroups := db.userGroups.filter (fun r => decide (r.userId ≠ userId)) }
  if groupIds.isEmpty then (cleared, .ok)
  else cleared.insertUserGroups (groupIds.map (fun groupId => ⟨userId, groupId⟩))

/-- The entries of the `Map` that `setUserAttributes` fills: keys trimmed, blank ones dropped,
    the last value of a key in the place of its first. -/
def cleanedAttributes (attributes : List (String × String)) : List (String × String) :=
  attributes.foldl (fun cleaned a =>
    let key := JsText.trim a.1
    if key = "" then cleaned
    else Table.upsert Prod.fst (key, JsText.trim a.2) (fun e => (e.1, JsText.trim a.2)) cleaned) []

/-- `setUserAttributes`. -/
def setUserAttributes (userId : String) (attributes : List (String × String)) :
    Directory × Reply :=
  let cleaned := cleanedAttributes attributes
  let kept := db.userAttributes.filter (fun r => decide (r.userId ≠ userId))
  let cleared := { db with userAttributes := kept }
  if cleaned.isEmpty then (cleared, .ok)
  else if db.users.any (fun u => decide (u.id = userId)) then
    ({ db with userAttributes := kept ++ cleaned.map (fun e => ⟨userId, e.1, e.2⟩) }, .ok)
  else (cleared, .failed)

/-- `setGroupRoles`. -/
def setGroupRoles (groupId : String) (roleIds : List String) : Directory × Reply :=
  let cleared := { db with
    groupRoles := db.groupRoles.filter (fun r => decide (r.groupId ≠ groupId)) }
  if roleIds.isEmpty then (cleared, .ok)
  else cleared.insertGroupRoles (roleIds.map (fun roleId => ⟨groupId, roleId⟩))

/-- `setRolePermissions`: unknown keys are dropped. -/
def setRolePermissions (roleId : String) (permissionKeys : List String) : Directory × Reply :=
  let resolved := (db.permissions.filter (fun p => permissionKeys.contains p.key)).map Permission.id
  let cleared := { db with
    rolePermissions := db.rolePermissions.filter (fun r => decide (r.roleId ≠ roleId)) }
  if resolved.isEmpty then (cleared, .ok)
  else cleared.insertRolePermissions (resolved.map (fun permissionId => ⟨roleId, permissionId⟩))

end Directory

/-! ### Users -/

/-- `CreateUserInput`. -/
structure CreateUserInput where
  username : String
  displayName : Option String := none
  email : Option String := none
  password : String
  groupIds : List String := []
  attributes : List (String × String) := []
deriving DecidableEq, Repr

/-- The row `createUser` inserts. -/
def CreateUserInput.created (core : Core) (id salt : String) (input : CreateUserInput) : User where
  id := id
  username := input.username
  displayName := input.displayName.getD input.username
  email := input.email
  authProvider := .localAuth
  passwordHash := some (core.hashPassword salt input.password)

/-- `UpdateUserInput`; `email` is absent, `null` or a text. -/
structure UpdateUserInput where
  displayName : Option String := none
  email : Option (Option String) := none
  disabled : Option Bool := none
  password : Option String := none
deriving DecidableEq, Repr

namespace Directory

variable (db : Directory)

/-- `createUser`; `id` and `salt` are what the database and `hashPassword` draw. -/
def createUser (core : Core) (id salt : String) (input : CreateUserInput) : Directory × Reply :=
  if db.users.any (fun u => decide (u.id = id) || decide (u.username = input.username)) then
    (db, .failed)
  else
    let db := { db with users := db.users ++ [input.created core id salt] }
    andThen
      (if input.groupIds.isEmpty then (db, .ok) else db.setUserGroups id input.groupIds)
      (fun db => if input.attributes.isEmpty then (db, .ok)
        else db.setUserAttributes id input.attributes)

/-- Memberships live in a table of their own. -/
@[simp] theorem setUserGroups_users (userId : String) (groupIds : List String) :
    (db.setUserGroups userId groupIds).1.users = db.users := by
  unfold setUserGroups insertUserGroups
  dsimp only
  split_ifs <;> rfl

@[simp] theorem setUserAttributes_users (userId : String) (attributes : List (String × String)) :
    (db.setUserAttributes userId attributes).1.users = db.users := by
  unfold setUserAttributes
  dsimp only
  split_ifs <;> rfl

/-- `createUser` leaves the users as they are, or adds a local one whose id and user name are
    new. -/
theorem createUser_users (core : Core) (id salt : String) (input : CreateUserInput) :
    (db.createUser core id salt input).1.users = db.users ∨
      ∃ created : User, created.authProvider = .localAuth ∧
        (∀ u ∈ db.users, u.id ≠ created.id ∧ u.username ≠ created.username) ∧
        (db.createUser core id salt input).1.users = db.users ++ [created] := by
  unfold createUser
  split
  · exact Or.inl rfl
  · rename_i hany
    refine Or.inr ⟨input.created core id salt, rfl,
      fun u hu => ⟨fun heq => hany ?_, fun heq => hany ?_⟩, ?_⟩
    · exact List.any_eq_true.mpr ⟨u, hu, by simp [heq, CreateUserInput.created]⟩
    · exact List.any_eq_true.mpr ⟨u, hu, by simp [heq, CreateUserInput.created]⟩
    · dsimp only
      rw [andThen_users]
      · split_ifs <;> simp
      · intro db'
        split_ifs <;> simp

/-- `updateUser`. -/
def updateUser (core : Core) (id salt : String) (patch : UpdateUserInput) : Directory × Reply :=
  guarded db (db.getUser id) (fun u => "User \"" ++ u.username ++ "\"") fun _ =>
    (db.onMaster (.patchUser id
      { displayName := patch.displayName
        email := patch.email
        disabled := patch.disabled
        passwordHash := (truthy patch.password).map (core.hashPassword salt) }), .ok)

/-- `DELETE FROM users WHERE id = …` with its cascades. -/
def deleteUserRow (id : String) : Directory :=
  { db with
    users := db.users.filter (fun u => decide (u.id ≠ id))
    refreshTokens := db.refreshTokens.filter (fun r => decide (r.userId ≠ id))
    userGroups := db.userGroups.filter (fun r => decide (r.userId ≠ id))
    userAttributes := db.userAttributes.filter (fun r => decide (r.userId ≠ id)) }

/-- `deleteUser`. -/
def deleteUser (id : String) : Directory × Reply :=
  guarded db (db.getUser id) (fun u => "User \"" ++ u.username ++ "\"") fun _ =>
    (db.deleteUserRow id, .ok)

end Directory

/-! ### Groups and roles -/

/-- The `SET` clause of `updateGroup`. -/
def Group.patch (name description : Option String) (g : Group) : Group :=
  { g with name := name.getD g.name, description := description.getD g.description }

/-- The `SET` clause of `updateRole`. -/
def Role.patch (name description : Option String) (r : Role) : Role :=
  { r with name := name.getD r.name, description := description.getD r.description }

namespace Directory

variable (db : Directory)

/-- `createGroup`. -/
def createGroup (id name : String) (description : Option String) (roleIds : List String) :
    Directory × Reply :=
  if db.groups.any (fun g => decide (g.id = id) || decide (g.name = name)) then (db, .failed)
  else
    let created : Group := { id := id, name := name, description := description.getD "" }
    let db := { db with groups := db.groups ++ [created] }
    if roleIds.isEmpty then (db, .ok) else db.setGroupRoles id roleIds

/-- `updateGroup`; a name that another group has breaks the unique key. -/
def updateGroup (id : String) (name description : Option String) : Directory × Reply :=
  guarded db (db.getGroup id) (fun g => "Group \"" ++ g.name ++ "\"") fun _ =>
    if name.any (fun n => db.groups.any (fun g => decide (g.id ≠ id) && decide (g.name = n))) then
      (db, .failed)
    else
      ({ db with
        groups := Table.update (fun g => decide (g.id = id)) (Group.patch name description)
          db.groups }, .ok)

/-- `DELETE FROM groups WHERE id = …` with its cascades. -/
def deleteGroupRow (id : String) : Directory :=
  { db with
    groups := db.groups.filter (fun g => decide (g.id ≠ id))
    groupRoles := db.groupRoles.filter (fun r => decide (r.groupId ≠ id))
    userGroups := db.userGroups.filter (fun r => decide (r.groupId ≠ id)) }

/-- `deleteGroup`. -/
def deleteGroup (id : String) : Directory × Reply :=
  guarded db (db.getGroup id) (fun g => "Group \"" ++ g.name ++ "\"") fun _ =>
    (db.deleteGroupRow id, .ok)

/-- `createRole`. -/
def createRole (id name : String) (description : Option String) (permissionKeys : List String) :
    Directory × Reply :=
  if db.roles.any (fun r => decide (r.id = id) || decide (r.name = name)) then (db, .failed)
  else
    let created : Role := { id := id, name := name, description := description.getD "" }
    let db := { db with roles := db.roles ++ [created] }
    if permissionKeys.isEmpty then (db, .ok) else db.setRolePermissions id permissionKeys

/-- `updateRole`. -/
def updateRole (id : String) (name description : Option String) : Directory × Reply :=
  guarded db (db.getRole id) (fun r => "Role \"" ++ r.name ++ "\"") fun _ =>
    if name.any (fun n => db.roles.any (fun r => decide (r.id ≠ id) && decide (r.name = n))) then
      (db, .failed)
    else
      ({ db with
        roles := Table.update (fun r => decide (r.id = id)) (Role.patch name description)
          db.roles }, .ok)

/-- `DELETE FROM roles WHERE id = …` with its cascades. -/
def deleteRoleRow (id : String) : Directory :=
  { db with
    roles := db.roles.filter (fun r => decide (r.id ≠ id))
    rolePermissions := db.rolePermissions.filter (fun r => decide (r.roleId ≠ id))
    groupRoles := db.groupRoles.filter (fun r => decide (r.roleId ≠ id)) }

/-- `deleteRole`. -/
def deleteRole (id : String) : Directory × Reply :=
  guarded db (db.getRole id) (fun r => "Role \"" ++ r.name ++ "\"") fun _ =>
    (db.deleteRoleRow id, .ok)

end Directory

end Argus.Access
