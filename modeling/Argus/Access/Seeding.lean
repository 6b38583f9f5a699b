import Argus.Access.Escalation

namespace Argus.Access

open Auth

/-!
# The catalogue at every start

`seedRbac` of `seed/rbac.ts` runs whenever the application starts and writes the catalogue of
`rbac.ts` into the directory: permissions, system roles, default groups and their grants.

* `allPermissions`, `SystemRole`, `systemGroups` — the catalogue.
* `seedRbac` — one definition for each statement, in the order they run.
* `boot_restores` — whatever the directory was before: the catalogue holds, no row of an
  operator is lost, and a second start changes nothing.
* `only_owners_pass` — a permission outside the catalogue is nobody's but the owners', in every
  run from a start on.  `agents:approve` is one: the role `admin` is meant to have it.
-/

/-! ### The catalogue -/

/-- `ALL_PERMISSIONS`, the values of `PERMISSION_CATALOGUE`. -/
def allPermissions : List String :=
  ["dashboard:read",
    "monitors:read", "monitors:write", "monitors:delete",
    "agents:read", "agents:write", "agents:restart", "agents:update", "agents:delete",
    "events:read",
    "logs:read",
    "uptime:read",
    "audit:read",
    "reports:read", "reports:generate",
    "notifications:read", "notifications:ack",
    "users:read", "users:write", "users:delete",
    "groups:read", "groups:write", "groups:delete",
    "roles:read", "roles:write", "roles:delete",
    "settings:read", "settings:write",
    "public:read", "public:write",
    "wallboards:read", "wallboards:write", "wallboards:delete",
    "devices:read", "devices:write", "devices:delete",
    "ticker:read", "ticker:write",
    "retention:read", "retention:write",
    "backups:read", "backups:run", "backups:restore",
    "developer:read"]

/-- `SystemRole`. -/
inductive SystemRole
  | superadmin
  | admin
  | operator
  | viewer
deriving DecidableEq, Repr

namespace SystemRole

/-- `SYSTEM_ROLES`. -/
def all : List SystemRole := [superadmin, admin, operator, viewer]

def name : SystemRole → String
  | superadmin => "superadmin"
  | admin => "admin"
  | operator => "operator"
  | viewer => "viewer"

/-- `SYSTEM_ROLE_PERMISSIONS`, with `"*"` expanded as the seed does. -/
def permissions : SystemRole → List String
  | superadmin => allPermissions
  | admin =>
    ["dashboard:read",
      "monitors:read", "monitors:write", "monitors:delete",
      "agents:read", "agents:write", "agents:approve", "agents:restart", "agents:update",
      "events:read", "logs:read", "uptime:read", "audit:read",
      "reports:read", "reports:generate",
      "notifications:read", "notifications:ack",
      "wallboards:read", "wallboards:write", "wallboards:delete",
      "devices:read", "devices:write", "devices:delete",
      "ticker:read", "ticker:write",
      "backups:read", "backups:run",
      "developer:read"]
  | operator =>
    ["dashboard:read", "monitors:read", "agents:read", "agents:restart",
      "events:read", "logs:read", "uptime:read",
      "reports:read", "reports:generate",
      "notifications:read", "notifications:ack",
      "wallboards:read", "public:read"]
  | viewer =>
    ["dashboard:read", "monitors:read", "agents:read", "events:read",
      "logs:read", "uptime:read", "reports:read", "notifications:read",
      "wallboards:read", "public:read"]

theorem mem_all (role : SystemRole) : role ∈ all := by cases role <;> decide

end SystemRole

/-- An entry of `SYSTEM_GROUPS`. -/
structure SystemGroup where
  name : String
  description : String
  role : SystemRole
deriving DecidableEq, Repr

/-- `SYSTEM_GROUPS`. -/
def systemGroups : List SystemGroup :=
  [⟨"Owners", "Protected superadmins (holds the owner account).", .superadmin⟩,
    ⟨"Administrators", "Full operational administration.", .admin⟩,
    ⟨"Operators", "Day-to-day operations and reporting.", .operator⟩,
    ⟨"Viewers", "Read-only access.", .viewer⟩]

/-! ### The statements -/

/-- The ids the database draws for the rows that are inserted. -/
structure Draw where
  permission : String → String
  role : SystemRole → String
  group : String → String

/-- `new Map(rows.map((r) => [key, id])).get(k)`: of rows with one key the last counts. -/
def idOf {α : Type} (key id : α → String) (rows : List α) (k : String) : Option String :=
  ((rows.filter (fun r => decide (key r = k))).getLast?).map id

namespace Draw

variable (draw : Draw)

def permissionRows : List Permission :=
  allPermissions.map fun key => ⟨draw.permission key, key⟩

def roleRows : List Role :=
  SystemRole.all.map fun role =>
    { id := draw.role role
      name := role.name
      description := role.name ++ " (system role)"
      isSystem := true }

def groupRows : List Group :=
  systemGroups.map fun g =>
    { id := draw.group g.name
      name := g.name
      description := g.description
      isSystem := true }

end Draw

namespace Directory

variable (draw : Draw) (db : Directory)

/-- The upsert of the catalogue. -/
def upsertPermissions : Directory :=
  { db with
    permissions := Table.insertMissing Permission.key draw.permissionRows db.permissions }

/-- `DELETE FROM permissions WHERE key NOT IN …`, which takes their grants along. -/
def prunePermissions : Directory :=
  let retired := db.permissions.filter (fun p => !allPermissions.contains p.key)
  { db with
    permissions := db.permissions.filter (fun p => allPermissions.contains p.key)
    rolePermissions := db.rolePermissions.filter
      (fun rp => !(retired.map Permission.id).contains rp.permissionId) }

def insertSystemRoles : Directory :=
  { db with roles := Table.insertMissing Role.name draw.roleRows db.roles }

def insertSystemGroups : Directory :=
  { db with groups := Table.insertMissing Group.name draw.groupRows db.groups }

/-- The grants of the system roles; a key outside the catalogue has no row and is skipped. -/
def systemGrants : List RolePermission :=
  SystemRole.all.flatMap fun role =>
    match idOf Role.name Role.id db.roles role.name with
    | none => []
    | some roleId => role.permissions.filterMap fun key =>
        (idOf Permission.key Permission.id db.permissions key).map fun id => ⟨roleId, id⟩

/-- The roles of the default groups. -/
def systemGroupRoles : List GroupRole :=
  systemGroups.filterMap fun g =>
    match idOf Group.name Group.id db.groups g.name,
      idOf Role.name Role.id db.roles g.role.name with
    | some groupId, some roleId => some ⟨groupId, roleId⟩
    | _, _ => none

/-- The tables of entities once the first three steps are done. -/
def seedEntities : Directory :=
  (((db.upsertPermissions draw).prunePermissions).insertSystemRoles draw).insertSystemGroups draw

/-- `seedRbac`. -/
def seedRbac : Directory :=
  let db := db.seedEntities draw
  let db := if db.systemGrants.isEmpty then db else (db.insertRolePermissions db.systemGrants).1
  if db.systemGroupRoles.isEmpty then db else (db.insertGroupRoles db.systemGroupRoles).1

end Directory

/-! ### What a start leaves -/

section IdOf

variable {α : Type} {key id : α → String} {rows : List α} {k i : String}

theorem mem_of_idOf (h : idOf key id rows k = some i) : ∃ r ∈ rows, key r = k ∧ id r = i := by
  obtain ⟨r, hlast, hid⟩ := Option.map_eq_some_iff.mp h
  obtain ⟨hmem, hkey⟩ := List.mem_filter.mp (List.mem_of_getLast? hlast)
  exact ⟨r, hmem, of_decide_eq_true hkey, hid⟩

theorem exists_idOf (h : k ∈ rows.map key) : ∃ i, idOf key id rows k = some i := by
  obtain ⟨r, hr, hk⟩ := List.mem_map.mp h
  have hmem : r ∈ rows.filter (fun r => decide (key r = k)) :=
    List.mem_filter.mpr ⟨hr, decide_eq_true hk⟩
  cases hlast : (rows.filter (fun r => decide (key r = k))).getLast? with
  | none =>
    rw [List.getLast?_eq_none_iff.mp hlast] at hmem
    exact absurd hmem List.not_mem_nil
  | some r' => exact ⟨id r', by rw [idOf, hlast, Option.map_some]⟩

end IdOf

namespace Directory

variable (draw : Draw) (db : Directory)

theorem mem_systemGrants {r : RolePermission} : r ∈ db.systemGrants ↔
    ∃ role : SystemRole, idOf Role.name Role.id db.roles role.name = some r.roleId ∧
      ∃ key ∈ role.permissions,
        idOf Permission.key Permission.id db.permissions key = some r.permissionId := by
  rw [systemGrants, List.mem_flatMap]
  constructor
  · rintro ⟨role, -, hr⟩
    cases hrole : idOf Role.name Role.id db.roles role.name with
    | none =>
      rw [hrole] at hr
      exact absurd hr List.not_mem_nil
    | some roleId =>
      rw [hrole] at hr
      obtain ⟨key, hkey, hid⟩ := List.mem_filterMap.mp hr
      obtain ⟨permissionId, hkeyId, rfl⟩ := Option.map_eq_some_iff.mp hid
      exact ⟨role, hrole, key, hkey, hkeyId⟩
  · rintro ⟨role, hrole, key, hkey, hid⟩
    refine ⟨role, role.mem_all, ?_⟩
    rw [hrole]
    exact List.mem_filterMap.mpr ⟨key, hkey, Option.map_eq_some_iff.mpr ⟨_, hid, rfl⟩⟩

theorem mem_systemGroupRoles {r : GroupRole} : r ∈ db.systemGroupRoles ↔
    ∃ g ∈ systemGroups, idOf Group.name Group.id db.groups g.name = some r.groupId ∧
      idOf Role.name Role.id db.roles g.role.name = some r.roleId := by
  rw [systemGroupRoles, List.mem_filterMap]
  refine exists_congr fun g => and_congr_right fun _ => ?_
  cases idOf Group.name Group.id db.groups g.name with
  | none => simp
  | some groupId =>
    cases idOf Role.name Role.id db.roles g.role.name with
    | none => simp
    | some roleId =>
      obtain ⟨_, _⟩ := r
      simp

/-- The rows the seed inserts refer to rows it has just read. -/
theorem insertRolePermissions_systemGrants :
    (db.insertRolePermissions db.systemGrants).1 =
      { db with rolePermissions := Table.insertNew db.rolePermissions db.systemGrants } := by
  rw [insertRolePermissions, if_pos]
  refine List.all_eq_true.mpr (fun r hr => ?_)
  obtain ⟨role, hrole, key, -, hkey⟩ := db.mem_systemGrants.mp hr
  obtain ⟨x, hx, -, hxid⟩ := mem_of_idOf hrole
  obtain ⟨p, hp, -, hpid⟩ := mem_of_idOf hkey
  rw [Bool.and_eq_true, List.any_eq_true, List.any_eq_true]
  exact ⟨⟨x, hx, decide_eq_true hxid⟩, p, hp, decide_eq_true hpid⟩

theorem insertGroupRoles_systemGroupRoles :
    (db.insertGroupRoles db.systemGroupRoles).1 =
      { db with groupRoles := Table.insertNew db.groupRoles db.systemGroupRoles } := by
  rw [insertGroupRoles, if_pos]
  refine List.all_eq_true.mpr (fun r hr => ?_)
  obtain ⟨g, -, hgroup, hrole⟩ := db.mem_systemGroupRoles.mp hr
  obtain ⟨y, hy, -, hyid⟩ := mem_of_idOf hgroup
  obtain ⟨x, hx, -, hxid⟩ := mem_of_idOf hrole
  rw [Bool.and_eq_true, List.any_eq_true, List.any_eq_true]
  exact ⟨⟨y, hy, decide_eq_true hyid⟩, x, hx, decide_eq_true hxid⟩

/-- The four statements on the entities together. -/
theorem seedEntities_eq :
    db.seedEntities draw =
      { db with
        permissions := (Table.insertMissing Permission.key draw.permissionRows
          db.permissions).filter (fun p => allPermissions.contains p.key)
        rolePermissions := (db.upsertPermissions draw).prunePermissions.rolePermissions
        roles := Table.insertMissing Role.name draw.roleRows db.roles
        groups := Table.insertMissing Group.name draw.groupRows db.groups } := by
  simp only [seedEntities, upsertPermissions, prunePermissions, insertSystemRoles,
    insertSystemGroups]

/-- The groups' roles do not depend on the grants. -/
theorem systemGroupRoles_of_grants (rows : List RolePermission) :
    ({ db with rolePermissions := rows } : Directory).systemGroupRoles = db.systemGroupRoles := by
  simp only [systemGroupRoles]

/-- The whole seed as one change of the tables: grants are added to what the entities are. -/
theorem seedRbac_eq :
    db.seedRbac draw =
      { db.seedEntities draw with
        rolePermissions := Table.insertNew (db.seedEntities draw).rolePermissions
          (db.seedEntities draw).systemGrants
        groupRoles := Table.insertNew (db.seedEntities draw).groupRoles
          (db.seedEntities draw).systemGroupRoles } := by
  rw [seedRbac]
  generalize db.seedEntities draw = entities
  -- an insert of no rows changes nothing, so the two emptiness tests do not matter
  have hgrants : ∀ d : Directory, (if d.systemGrants.isEmpty then d
      else (d.insertRolePermissions d.systemGrants).1) =
        { d with rolePermissions := Table.insertNew d.rolePermissions d.systemGrants } := by
    intro d
    split
    · rename_i hempty
      rw [List.isEmpty_iff.mp hempty, Table.insertNew, List.foldl_nil]
    · exact d.insertRolePermissions_systemGrants
  have hgroupRoles : ∀ d : Directory, (if d.systemGroupRoles.isEmpty then d
      else (d.insertGroupRoles d.systemGroupRoles).1) =
        { d with groupRoles := Table.insertNew d.groupRoles d.systemGroupRoles } := by
    intro d
    split
    · rename_i hempty
      rw [List.isEmpty_iff.mp hempty, Table.insertNew, List.foldl_nil]
    · exact d.insertGroupRoles_systemGroupRoles
  dsimp only
  rw [hgrants, hgroupRoles, systemGroupRoles_of_grants]

/-- The keys of the permissions are those of the catalogue. -/
theorem seedEntities_keys {key : String} :
    key ∈ (db.seedEntities draw).permissions.map Permission.key ↔ key ∈ allPermissions := by
  rw [seedEntities_eq]
  dsimp only
  constructor
  · intro h
    obtain ⟨p, hp, rfl⟩ := List.mem_map.mp h
    exact List.contains_iff_mem.mp (List.mem_filter.mp hp).2
  · intro h
    have hkey : key ∈ (Table.insertMissing Permission.key draw.permissionRows
        db.permissions).map Permission.key := by
      refine Table.key_mem_insertMissing.mpr (Or.inr ?_)
      rw [Draw.permissionRows, List.map_map]
      exact List.mem_map.mpr ⟨key, h, rfl⟩
    obtain ⟨p, hp, rfl⟩ := List.mem_map.mp hkey
    exact List.mem_map_of_mem (List.mem_filter.mpr ⟨hp, List.contains_iff_mem.mpr h⟩)

theorem seedEntities_roles (role : SystemRole) :
    role.name ∈ (db.seedEntities draw).roles.map Role.name := by
  rw [seedEntities_eq]
  dsimp only
  refine Table.key_mem_insertMissing.mpr (Or.inr ?_)
  rw [Draw.roleRows, List.map_map]
  exact List.mem_map.mpr ⟨role, role.mem_all, rfl⟩

theorem seedEntities_groups {g : SystemGroup} (hg : g ∈ systemGroups) :
    g.name ∈ (db.seedEntities draw).groups.map Group.name := by
  rw [seedEntities_eq]
  dsimp only
  refine Table.key_mem_insertMissing.mpr (Or.inr ?_)
  rw [Draw.groupRows, List.map_map]
  exact List.mem_map.mpr ⟨g, hg, rfl⟩

end Directory

/-- The catalogue holds: the permissions are those it lists, the system roles and default
    groups are there, and their grants too. -/
structure Directory.Seeded (db : Directory) : Prop where
  keys : ∀ key, key ∈ db.permissions.map Permission.key ↔ key ∈ allPermissions
  roles : ∀ role : SystemRole, role.name ∈ db.roles.map Role.name
  groups : ∀ g ∈ systemGroups, g.name ∈ db.groups.map Group.name
  grants : db.systemGrants ⊆ db.rolePermissions
  groupRoles : db.systemGroupRoles ⊆ db.groupRoles

namespace Directory

variable (draw : Draw) {db : Directory}

/-- Grants added to a directory whose entities are in place. -/
theorem seeded_of_entities {db : Directory}
    (hkeys : ∀ key, key ∈ db.permissions.map Permission.key ↔ key ∈ allPermissions)
    (hroles : ∀ role : SystemRole, role.name ∈ db.roles.map Role.name)
    (hgroups : ∀ g ∈ systemGroups, g.name ∈ db.groups.map Group.name) :
    ({ db with
      rolePermissions := Table.insertNew db.rolePermissions db.systemGrants
      groupRoles := Table.insertNew db.groupRoles db.systemGroupRoles } : Directory).Seeded where
  keys := hkeys
  roles := hroles
  groups := hgroups
  grants _ hr := Table.mem_insertNew.mpr (Or.inr ((mem_systemGrants _).mpr
    ((mem_systemGrants _).mp hr)))
  groupRoles _ hr := Table.mem_insertNew.mpr (Or.inr ((mem_systemGroupRoles _).mpr
    ((mem_systemGroupRoles _).mp hr)))

theorem seedRbac_seeded (db : Directory) : (db.seedRbac draw).Seeded := by
  rw [seedRbac_eq]
  exact seeded_of_entities (fun _ => db.seedEntities_keys draw) (db.seedEntities_roles draw)
    (fun _ hg => db.seedEntities_groups draw hg)

/-- Where the catalogue holds the entities stay. -/
theorem Seeded.seedEntities (h : db.Seeded) : db.seedEntities draw = db := by
  have hcontains : ∀ p ∈ db.permissions, allPermissions.contains p.key = true := by
    intro p hp
    exact List.contains_iff_mem.mpr ((h.keys p.key).mp (List.mem_map_of_mem hp))
  have hupsert : db.upsertPermissions draw = db := by
    rw [upsertPermissions, Table.insertMissing_of_mem]
    intro r hr
    obtain ⟨key, hkey, rfl⟩ := List.mem_map.mp hr
    exact (h.keys key).mpr hkey
  have hprune : db.prunePermissions = db := by
    have hretired : db.permissions.filter (fun p => !allPermissions.contains p.key) = [] := by
      refine List.filter_eq_nil_iff.mpr (fun p hp => ?_)
      rw [hcontains p hp]
      exact Bool.false_ne_true
    rw [prunePermissions, hretired, List.filter_eq_self.mpr hcontains]
    simp
  have hroles : db.insertSystemRoles draw = db := by
    rw [insertSystemRoles, Table.insertMissing_of_mem]
    intro r hr
    obtain ⟨role, -, rfl⟩ := List.mem_map.mp hr
    exact h.roles role
  have hgroups : db.insertSystemGroups draw = db := by
    rw [insertSystemGroups, Table.insertMissing_of_mem]
    intro r hr
    obtain ⟨g, hg, rfl⟩ := List.mem_map.mp hr
    exact h.groups g hg
  rw [Directory.seedEntities, hupsert, hprune, hroles, hgroups]

/-- A start on a directory where the catalogue holds changes nothing. -/
theorem Seeded.seedRbac (h : db.Seeded) : db.seedRbac draw = db := by
  rw [seedRbac_eq, h.seedEntities draw, Table.insertNew_of_subset h.grants,
    Table.insertNew_of_subset h.groupRoles]

/-- The members of a default group hold what the catalogue gives its role. -/
theorem Seeded.permissionKeys (h : db.Seeded) {g : SystemGroup} (hg : g ∈ systemGroups) :
    ∃ group ∈ db.groups, group.name = g.name ∧ ∀ u, ⟨u, group.id⟩ ∈ db.userGroups →
      ∀ key ∈ g.role.permissions, key ∈ allPermissions → key ∈ db.permissionKeys u := by
  obtain ⟨groupId, hgroupId⟩ := exists_idOf (h.groups g hg)
  obtain ⟨roleId, hroleId⟩ := exists_idOf (h.roles g.role)
  obtain ⟨group, hgroup, hname, rfl⟩ := mem_of_idOf hgroupId
  refine ⟨group, hgroup, hname, fun u hu key hkey hcatalogue => ?_⟩
  obtain ⟨permissionId, hpermissionId⟩ := exists_idOf ((h.keys key).mpr hcatalogue)
  obtain ⟨p, hp, rfl, hid⟩ := mem_of_idOf hpermissionId
  refine mem_permissionKeys.mpr ⟨group.id, roleId, permissionId, hu, ?_, ?_, ?_⟩
  · exact h.groupRoles (db.mem_systemGroupRoles.mpr ⟨g, hg, hgroupId, hroleId⟩)
  · exact h.grants (db.mem_systemGrants.mpr ⟨g.role, hroleId, p.key, hkey, hpermissionId⟩)
  · rw [← hid]
    exact hp

/-- Tables the seed does not write. -/
theorem seedRbac_kept (db : Directory) : (db.seedRbac draw).users = db.users ∧
    (db.seedRbac draw).userGroups = db.userGroups ∧
    (db.seedRbac draw).userAttributes = db.userAttributes := by
  simp only [seedRbac_eq, seedEntities_eq, and_self]

/-- Tables it only adds to. -/
theorem subset_seedRbac (db : Directory) : db.groups ⊆ (db.seedRbac draw).groups ∧
    db.roles ⊆ (db.seedRbac draw).roles ∧ db.groupRoles ⊆ (db.seedRbac draw).groupRoles := by
  simp only [seedRbac_eq, seedEntities_eq]
  refine ⟨Table.subset_insertMissing _ _, Table.subset_insertMissing _ _, fun r hr => ?_⟩
  exact Table.mem_insertNew.mpr (Or.inl hr)

/-- A permission of the catalogue keeps its row, and the grants of it stay. -/
theorem rolePermission_seedRbac (hids : (db.permissions.map Permission.id).Nodup) {r p key : String}
    (hp : ⟨p, key⟩ ∈ db.permissions) (hkey : key ∈ allPermissions)
    (hrp : ⟨r, p⟩ ∈ db.rolePermissions) :
    ⟨p, key⟩ ∈ (db.seedRbac draw).permissions ∧
      ⟨r, p⟩ ∈ (db.seedRbac draw).rolePermissions := by
  have hkept : ⟨r, p⟩ ∈ (db.upsertPermissions draw).prunePermissions.rolePermissions := by
    simp only [prunePermissions, upsertPermissions]
    refine List.mem_filter.mpr ⟨hrp, ?_⟩
    -- a retired permission was there before, and has another id
    rw [Bool.not_eq_true', List.contains_eq_mem, decide_eq_false_iff_not]
    intro hretired
    obtain ⟨q, hq, hqid⟩ := List.mem_map.mp hretired
    obtain ⟨hq, hout⟩ := List.mem_filter.mp hq
    have hnot : q.key ∉ allPermissions := by simpa using hout
    rcases Table.mem_insertMissing hq with hold | ⟨hnew, -⟩
    · obtain rfl : q = ⟨p, key⟩ := List.inj_on_of_nodup_map hids hold hp hqid
      exact hnot hkey
    · obtain ⟨key', hkey', rfl⟩ := List.mem_map.mp hnew
      exact hnot hkey'
  simp only [seedRbac_eq, seedEntities_eq]
  refine ⟨List.mem_filter.mpr ⟨Table.subset_insertMissing _ _ hp, ?_⟩, ?_⟩
  · exact List.contains_iff_mem.mpr hkey
  · exact Table.mem_insertNew.mpr (Or.inl hkept)

/-- A start takes no permission of the catalogue from anybody. -/
theorem permissionKeys_seedRbac (hids : (db.permissions.map Permission.id).Nodup) {u key : String}
    (hkey : key ∈ allPermissions) (h : key ∈ db.permissionKeys u) :
    key ∈ (db.seedRbac draw).permissionKeys u := by
  obtain ⟨g, r, p, hug, hgr, hrp, hp⟩ := mem_permissionKeys.mp h
  obtain ⟨hp', hrp'⟩ := rolePermission_seedRbac draw hids hp hkey hrp
  refine mem_permissionKeys.mpr ⟨g, r, p, ?_, (db.subset_seedRbac draw).2.2 hgr, hrp', hp'⟩
  rw [(db.seedRbac_kept draw).2.1]
  exact hug

end Directory

/-- **What a start restores, and what it leaves alone.**  Whatever the directory was, the
    members of the default groups hold afterwards what the catalogue gives them; users, their
    memberships and attributes stay as they were, no group, role or assignment is lost, and
    nobody loses a permission of the catalogue; and a second start changes nothing. -/
theorem boot_restores (draw : Draw) {db : Directory}
    (hids : (db.permissions.map Permission.id).Nodup) :
    (∀ g ∈ systemGroups, ∃ group ∈ (db.seedRbac draw).groups, group.name = g.name ∧
      ∀ u, ⟨u, group.id⟩ ∈ db.userGroups → ∀ key ∈ g.role.permissions, key ∈ allPermissions →
        key ∈ (db.seedRbac draw).permissionKeys u) ∧
    ((db.seedRbac draw).users = db.users ∧ (db.seedRbac draw).userGroups = db.userGroups ∧
      (db.seedRbac draw).userAttributes = db.userAttributes ∧
      db.groups ⊆ (db.seedRbac draw).groups ∧ db.roles ⊆ (db.seedRbac draw).roles ∧
      db.groupRoles ⊆ (db.seedRbac draw).groupRoles ∧
      ∀ u, ∀ key ∈ allPermissions, key ∈ db.permissionKeys u →
        key ∈ (db.seedRbac draw).permissionKeys u) ∧
    ∀ draw', (db.seedRbac draw).seedRbac draw' = db.seedRbac draw := by
  have hseeded := db.seedRbac_seeded draw
  obtain ⟨husers, huserGroups, huserAttributes⟩ := db.seedRbac_kept draw
  obtain ⟨hgroups, hroles, hgroupRoles⟩ := db.subset_seedRbac draw
  refine ⟨fun g hg => ?_, ⟨husers, huserGroups, huserAttributes, hgroups, hroles, hgroupRoles,
    fun u key hkey h => Directory.permissionKeys_seedRbac draw hids hkey h⟩,
    fun draw' => hseeded.seedRbac draw'⟩
  rw [← huserGroups]
  exact hseeded.permissionKeys hg

namespace Sample

/-- Ids that are names, for readability. -/
def draw : Draw := ⟨id, SystemRole.name, id⟩

end Sample

open Sample in
/-- The operator of the sample keeps `roles:write`; another start changes nothing. -/
theorem boot_restores_operator :
    "roles:write" ∈ (directory.seedRbac draw).permissionKeys "op" ∧
      (directory.seedRbac draw).seedRbac draw = directory.seedRbac draw := by
  have hids : (directory.permissions.map Permission.id).Nodup := by decide
  obtain ⟨-, ⟨-, -, -, -, -, -, hkeys⟩, hagain⟩ := boot_restores draw hids
  exact ⟨hkeys "op" "roles:write" (by decide) (by decide), hagain draw⟩

/-! ### Starts and requests -/

/-- What happens to a directory: the application starts, or a request arrives. -/
inductive DirectoryEvent
  | boot (draw : Draw)
  | request (req : Request)

/-- Starts and administration requests in any order. -/
def deployment (core : Core) : Machine Directory DirectoryEvent where
  step db
    | .boot draw => some (db.seedRbac draw)
    | .request req => some (handle core db req)

namespace Directory

variable {db : Directory}

/-- No setter writes the table of permissions. -/
theorem setters_permissions (db : Directory) (id : String) (ids : List String)
    (attributes : List (String × String)) :
    (db.setUserGroups id ids).1.permissions = db.permissions ∧
      (db.setUserAttributes id attributes).1.permissions = db.permissions ∧
      (db.setGroupRoles id ids).1.permissions = db.permissions ∧
      (db.setRolePermissions id ids).1.permissions = db.permissions := by
  obtain ⟨_, hug, -⟩ := setUserGroups_spec db id ids
  obtain ⟨_, hua, -⟩ := setUserAttributes_spec db id attributes
  obtain ⟨_, hgr, -⟩ := setGroupRoles_spec db id ids
  obtain ⟨_, hrp, -⟩ := setRolePermissions_spec db id ids
  exact ⟨by rw [hug], by rw [hua], by rw [hgr], by rw [hrp]⟩

theorem createUser_permissions (core : Core) (id salt : String) (input : CreateUserInput) :
    (db.createUser core id salt input).1.permissions = db.permissions := by
  unfold createUser
  split
  · rfl
  · dsimp only
    set db' : Directory := { db with users := db.users ++ [input.created core id salt] } with hdb'
    have hgroups : (if input.groupIds.isEmpty then (db', Reply.ok)
        else db'.setUserGroups id input.groupIds).1.permissions = db.permissions := by
      split
      · rfl
      · exact (db'.setters_permissions id input.groupIds []).1
    unfold andThen
    split
    · dsimp only
      split
      · exact hgroups
      · exact ((setters_permissions _ id [] input.attributes).2.1).trans hgroups
    · exact hgroups

/-- No operation adds a permission or removes one. -/
theorem run_permissions (core : Core) (op : Op) :
    (op.run core db).1.permissions = db.permissions := by
  cases op with
  | createUser id salt input => exact createUser_permissions core id salt input
  | updateUser id salt patch =>
    exact guarded_cases (P := fun d => d.permissions = db.permissions) rfl (fun _ _ => rfl)
  | deleteUser id =>
    exact guarded_cases (P := fun d => d.permissions = db.permissions) rfl (fun _ _ => rfl)
  | setUserGroups id groupIds => exact (db.setters_permissions id groupIds []).1
  | setUserAttributes id attributes =>
    exact onExistingUser_cases (P := fun d => d.permissions = db.permissions) rfl
      (db.setters_permissions id [] attributes).2.1
  | resetTwoFa id =>
    exact onExistingUser_cases (P := fun d => d.permissions = db.permissions) rfl rfl
  | unlock id =>
    exact onExistingUser_cases (P := fun d => d.permissions = db.permissions) rfl rfl
  | createGroup id name description roleIds =>
    show (db.createGroup id name description roleIds).1.permissions = db.permissions
    unfold createGroup
    split
    · rfl
    · dsimp only
      split
      · rfl
      · exact (setters_permissions _ id roleIds []).2.2.1
  | updateGroup id name description =>
    refine guarded_cases (P := fun d => d.permissions = db.permissions) rfl (fun _ _ => ?_)
    split <;> rfl
  | deleteGroup id =>
    exact guarded_cases (P := fun d => d.permissions = db.permissions) rfl (fun _ _ => rfl)
  | setGroupRoles id roleIds => exact (db.setters_permissions id roleIds []).2.2.1
  | createRole id name description keys =>
    show (db.createRole id name description keys).1.permissions = db.permissions
    unfold createRole
    split
    · rfl
    · dsimp only
      split
      · rfl
      · exact (setters_permissions _ id keys []).2.2.2
  | updateRole id name description =>
    refine guarded_cases (P := fun d => d.permissions = db.permissions) rfl (fun _ _ => ?_)
    split <;> rfl
  | deleteRole id =>
    exact guarded_cases (P := fun d => d.permissions = db.permissions) rfl (fun _ _ => rfl)
  | setRolePermissions id keys => exact (db.setters_permissions id keys []).2.2.2

end Directory

/-- From a start on, the permissions are those of the catalogue. -/
theorem keys_after_boot (core : Core) {start db : Directory} {past rest : List DirectoryEvent}
    {draw : Draw}
    (hrun : (deployment core).exec start (past ++ .boot draw :: rest) = some db) :
    ∀ key, key ∈ db.permissions.map Permission.key ↔ key ∈ allPermissions := by
  rw [Machine.exec_append, Option.bind_eq_some_iff] at hrun
  obtain ⟨before, -, hrun⟩ := hrun
  obtain ⟨booted, hboot, hrun⟩ := (deployment core).exec_cons_eq_some.mp hrun
  obtain rfl : before.seedRbac draw = booted := Option.some.inj hboot
  refine Machine.inv_of_exec
    (I := fun d : Directory => ∀ key, key ∈ d.permissions.map Permission.key ↔
      key ∈ allPermissions)
    ?_ (before.seedRbac_seeded draw).keys (Machine.Meets.always _ rest) hrun
  intro s event s' hs _ hstep
  cases event with
  | boot draw' =>
    obtain rfl : s.seedRbac draw' = s' := Option.some.inj hstep
    exact (s.seedRbac_seeded draw').keys
  | request req =>
    obtain rfl : handle core s req = s' := Option.some.inj hstep
    intro key
    rw [← hs key, handle]
    split
    · rw [Directory.run_permissions]
    · rfl

/-- **A permission outside the catalogue is nobody's.**  In every run that starts the
    application, whatever was asked before and after, the gate of such an action lets only an
    owner through: no role can be given the permission. -/
theorem only_owners_pass (core : Core) {start db : Directory} {past rest : List DirectoryEvent}
    {draw : Draw} (hrun : (deployment core).exec start (past ++ .boot draw :: rest) = some db)
    {action : String} (haction : action ∉ allPermissions) {caller : Caller} {allowDevice : Bool}
    {required : Option (List (String × List String))}
    (hgate : db.requirePermission caller action allowDevice required = .passed) :
    caller = .staticAdmin ∨
      ∃ u user, caller = .user u ∧ db.getUser u = some user ∧ user.isOwner = true := by
  have hkeys := keys_after_boot core hrun
  obtain ⟨s, hs, -, hallowed⟩ := requirePermission_eq_passed.mp hgate
  cases caller with
  | staticAdmin => exact Or.inl rfl
  | device id =>
    obtain rfl : deviceSubject id = s := Option.some.inj hs
    rcases authorize_allowed.mp hallowed with howner | ⟨hperm, -⟩
    · exact absurd howner Bool.false_ne_true
    · -- what displays may read is in the catalogue
      have hread : ∀ key ∈ deviceReadPerms, key ∈ allPermissions := by decide
      exact absurd (hread action hperm) haction
  | user u =>
    obtain ⟨user, huser, -, rfl⟩ := Directory.resolveSubject_eq_some.mp hs
    rcases authorize_allowed.mp hallowed with howner | ⟨hperm, -⟩
    · exact Or.inr ⟨u, user, rfl, huser, howner⟩
    · obtain ⟨g, r, p, -, -, -, hp⟩ :=
        Directory.mem_permissionKeys.mp (List.mem_eraseDups.mp hperm)
      exact absurd ((hkeys action).mp (List.mem_map_of_mem hp)) haction

open Sample in
/-- `agents:approve` is in the role `admin` and not in the catalogue: after a start an
    administrator does not pass. -/
theorem only_owners_pass_approve :
    let start : Directory := { directory with userGroups := [⟨"op", "Administrators"⟩] }
    "agents:approve" ∈ SystemRole.admin.permissions ∧
    ∃ db, (deployment Auth.Sample.core).exec start ([] ++ [.boot draw]) = some db ∧
      db.requirePermission (.user "op") "agents:approve" false none ≠ .passed := by
  intro start
  have hrun : (deployment Auth.Sample.core).exec start ([] ++ [.boot draw])
      = some (start.seedRbac draw) := rfl
  refine ⟨by decide, _, hrun, fun hpassed => ?_⟩
  rcases only_owners_pass Auth.Sample.core hrun (by decide) hpassed with
    hstatic | ⟨u, user, hcaller, huser, howner⟩
  · exact Caller.noConfusion hstatic
  · obtain rfl : "op" = u := Caller.user.inj hcaller
    rw [MasterDb.getUser, (start.seedRbac_kept draw).1] at huser
    obtain rfl : { id := "op", username := "operator" } = user := Option.some.inj huser
    exact Bool.false_ne_true howner

end Argus.Access
