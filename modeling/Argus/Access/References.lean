import Argus.Access.Protection

namespace Argus.Access

open Auth

/-!
# The foreign keys of the directory

What the four setters leave in the join tables, and that administration never leaves a row
that refers to nothing.

* `setUserGroups_spec`, `setGroupRoles_spec`, `setRolePermissions_spec`,
  `setUserAttributes_spec` — the rows after a setter, whether or not its insert went through.
* `Directory.References` — every membership, grant and attribute refers to rows that exist.
* `references_kept` — so it is after any requests.
-/

/-- A key that some row has. -/
theorem any_key {α : Type} {key : α → String} {rows : List α} {id : String} :
    rows.any (fun r => decide (key r = id)) = true ↔ id ∈ rows.map key := by
  simp [List.any_eq_true]

/-! ### What the setters leave -/

section Setters

variable (db : Directory) (id : String)

/-- The rows of the other owners, and the new ones if all of them refer to existing rows. -/
theorem setUserGroups_spec (groupIds : List String) :
    ∃ rows, (db.setUserGroups id groupIds).1 = { db with userGroups := rows } ∧
      ∀ r, r ∈ rows ↔ (r ∈ db.userGroups ∧ r.userId ≠ id) ∨
        (r.userId = id ∧ r.groupId ∈ groupIds ∧ id ∈ db.users.map User.id ∧
          ∀ g ∈ groupIds, g ∈ db.groups.map Group.id) := by
  unfold Directory.setUserGroups Directory.insertUserGroups
  dsimp only
  split_ifs with hempty hrefs
  · obtain rfl := List.isEmpty_iff.mp hempty
    exact ⟨_, rfl, fun r => by simp⟩
  · refine ⟨_, rfl, fun r => ?_⟩
    simp only [List.all_map, List.all_eq_true, Function.comp_apply, Bool.and_eq_true,
      any_key] at hrefs
    rw [Table.mem_insertNew, List.mem_filter, List.mem_map, decide_eq_true_eq]
    refine or_congr_right ⟨?_, ?_⟩
    · rintro ⟨g, hg, rfl⟩
      exact ⟨rfl, hg, (hrefs g hg).1, fun g' hg' => (hrefs g' hg').2⟩
    · rintro ⟨rfl, hg, -⟩
      exact ⟨r.groupId, hg, rfl⟩
  · refine ⟨_, rfl, fun r => ?_⟩
    simp only [List.all_map, List.all_eq_true, Function.comp_apply, Bool.and_eq_true,
      any_key] at hrefs
    rw [List.mem_filter, decide_eq_true_eq, iff_self_or]
    rintro ⟨-, -, hid, hgroups⟩
    exact absurd (fun g hg => ⟨hid, hgroups g hg⟩) hrefs

theorem setGroupRoles_spec (roleIds : List String) :
    ∃ rows, (db.setGroupRoles id roleIds).1 = { db with groupRoles := rows } ∧
      ∀ r, r ∈ rows ↔ (r ∈ db.groupRoles ∧ r.groupId ≠ id) ∨
        (r.groupId = id ∧ r.roleId ∈ roleIds ∧ id ∈ db.groups.map Group.id ∧
          ∀ x ∈ roleIds, x ∈ db.roles.map Role.id) := by
  unfold Directory.setGroupRoles Directory.insertGroupRoles
  dsimp only
  split_ifs with hempty hrefs
  · obtain rfl := List.isEmpty_iff.mp hempty
    exact ⟨_, rfl, fun r => by simp⟩
  · refine ⟨_, rfl, fun r => ?_⟩
    simp only [List.all_map, List.all_eq_true, Function.comp_apply, Bool.and_eq_true,
      any_key] at hrefs
    rw [Table.mem_insertNew, List.mem_filter, List.mem_map, decide_eq_true_eq]
    refine or_congr_right ⟨?_, ?_⟩
    · rintro ⟨x, hx, rfl⟩
      exact ⟨rfl, hx, (hrefs x hx).1, fun x' hx' => (hrefs x' hx').2⟩
    · rintro ⟨rfl, hx, -⟩
      exact ⟨r.roleId, hx, rfl⟩
  · refine ⟨_, rfl, fun r => ?_⟩
    simp only [List.all_map, List.all_eq_true, Function.comp_apply, Bool.and_eq_true,
      any_key] at hrefs
    rw [List.mem_filter, decide_eq_true_eq, iff_self_or]
    rintro ⟨-, -, hid, hroles⟩
    exact absurd (fun x hx => ⟨hid, hroles x hx⟩) hrefs

/-- Unknown permission keys are dropped, so only the role itself can be missing. -/
theorem setRolePermissions_spec (permissionKeys : List String) :
    ∃ rows, (db.setRolePermissions id permissionKeys).1 = { db with rolePermissions := rows } ∧
      ∀ r, r ∈ rows ↔ (r ∈ db.rolePermissions ∧ r.roleId ≠ id) ∨
        (r.roleId = id ∧ id ∈ db.roles.map Role.id ∧
          ∃ p ∈ db.permissions, p.id = r.permissionId ∧ p.key ∈ permissionKeys) := by
  unfold Directory.setRolePermissions Directory.insertRolePermissions
  dsimp only
  have hresolved : ∀ x, x ∈ (db.permissions.filter
      (fun p => permissionKeys.contains p.key)).map Permission.id ↔
      ∃ p ∈ db.permissions, p.id = x ∧ p.key ∈ permissionKeys := by
    intro x
    simp only [List.mem_map, List.mem_filter, List.contains_iff_mem, and_assoc]
    exact exists_congr fun p => and_congr_right fun _ => and_comm
  generalize (db.permissions.filter
    (fun p => permissionKeys.contains p.key)).map Permission.id = resolved at hresolved ⊢
  split_ifs with hempty hrefs
  · obtain rfl := List.isEmpty_iff.mp hempty
    refine ⟨_, rfl, fun r => ?_⟩
    rw [List.mem_filter, decide_eq_true_eq, iff_self_or, ← hresolved]
    simp
  · refine ⟨_, rfl, fun r => ?_⟩
    simp only [List.all_map, List.all_eq_true, Function.comp_apply, Bool.and_eq_true,
      any_key] at hrefs
    rw [Table.mem_insertNew, List.mem_filter, List.mem_map, decide_eq_true_eq, ← hresolved]
    refine or_congr_right ⟨?_, ?_⟩
    · rintro ⟨p, hp, rfl⟩
      exact ⟨rfl, (hrefs p hp).1, hp⟩
    · rintro ⟨rfl, -, hp⟩
      exact ⟨r.permissionId, hp, rfl⟩
  · refine ⟨_, rfl, fun r => ?_⟩
    simp only [List.all_map, List.all_eq_true, Function.comp_apply, Bool.and_eq_true,
      any_key] at hrefs
    rw [List.mem_filter, decide_eq_true_eq, iff_self_or]
    rintro ⟨-, hid, -⟩
    refine absurd (fun x hx => ⟨hid, ?_⟩) hrefs
    obtain ⟨p, hp, rfl, -⟩ := (hresolved x).mp hx
    exact List.mem_map_of_mem hp

theorem setUserAttributes_spec (attributes : List (String × String)) :
    ∃ rows, (db.setUserAttributes id attributes).1 = { db with userAttributes := rows } ∧
      ∀ r ∈ rows, r ∈ db.userAttributes ∨ r.userId = id ∧ id ∈ db.users.map User.id := by
  unfold Directory.setUserAttributes
  dsimp only
  split_ifs with hempty hrefs
  · exact ⟨_, rfl, fun r hr => Or.inl (List.mem_filter.mp hr).1⟩
  · refine ⟨_, rfl, fun r hr => ?_⟩
    rcases List.mem_append.mp hr with hold | hnew
    · exact Or.inl (List.mem_filter.mp hold).1
    · obtain ⟨entry, -, rfl⟩ := List.mem_map.mp hnew
      exact Or.inr ⟨rfl, any_key.mp hrefs⟩
  · exact ⟨_, rfl, fun r hr => Or.inl (List.mem_filter.mp hr).1⟩

end Setters

/-! ### The foreign keys -/

/-- Every attached row refers to rows that exist. -/
structure Directory.References (db : Directory) : Prop where
  userGroups : ∀ r ∈ db.userGroups,
    r.userId ∈ db.users.map User.id ∧ r.groupId ∈ db.groups.map Group.id
  groupRoles : ∀ r ∈ db.groupRoles,
    r.groupId ∈ db.groups.map Group.id ∧ r.roleId ∈ db.roles.map Role.id
  rolePermissions : ∀ r ∈ db.rolePermissions,
    r.roleId ∈ db.roles.map Role.id ∧ r.permissionId ∈ db.permissions.map Permission.id
  userAttributes : ∀ r ∈ db.userAttributes, r.userId ∈ db.users.map User.id

namespace Directory.References

variable {db : Directory}

/-- More entities break no reference. -/
theorem of_entities (h : db.References) {db' : Directory}
    (husers : db.users.map User.id ⊆ db'.users.map User.id)
    (hgroups : db.groups.map Group.id ⊆ db'.groups.map Group.id)
    (hroles : db.roles.map Role.id ⊆ db'.roles.map Role.id)
    (hpermissions : db.permissions.map Permission.id ⊆ db'.permissions.map Permission.id)
    (hug : db'.userGroups = db.userGroups) (hgr : db'.groupRoles = db.groupRoles)
    (hrp : db'.rolePermissions = db.rolePermissions)
    (hua : db'.userAttributes = db.userAttributes) : db'.References where
  userGroups r hr := by
    rw [hug] at hr
    exact ⟨husers (h.userGroups r hr).1, hgroups (h.userGroups r hr).2⟩
  groupRoles r hr := by
    rw [hgr] at hr
    exact ⟨hgroups (h.groupRoles r hr).1, hroles (h.groupRoles r hr).2⟩
  rolePermissions r hr := by
    rw [hrp] at hr
    exact ⟨hroles (h.rolePermissions r hr).1, hpermissions (h.rolePermissions r hr).2⟩
  userAttributes r hr := by
    rw [hua] at hr
    exact husers (h.userAttributes r hr)

theorem setUserGroups (h : db.References) (id : String) (groupIds : List String) :
    (db.setUserGroups id groupIds).1.References := by
  obtain ⟨rows, heq, hrows⟩ := setUserGroups_spec db id groupIds
  rw [heq]
  refine ⟨fun r hr => ?_, h.groupRoles, h.rolePermissions, h.userAttributes⟩
  rcases (hrows r).mp hr with ⟨hold, -⟩ | ⟨rfl, hg, hid, hgroups⟩
  · exact h.userGroups r hold
  · exact ⟨hid, hgroups _ hg⟩

theorem setGroupRoles (h : db.References) (id : String) (roleIds : List String) :
    (db.setGroupRoles id roleIds).1.References := by
  obtain ⟨rows, heq, hrows⟩ := setGroupRoles_spec db id roleIds
  rw [heq]
  refine ⟨h.userGroups, fun r hr => ?_, h.rolePermissions, h.userAttributes⟩
  rcases (hrows r).mp hr with ⟨hold, -⟩ | ⟨rfl, hx, hid, hroles⟩
  · exact h.groupRoles r hold
  · exact ⟨hid, hroles _ hx⟩

theorem setRolePermissions (h : db.References) (id : String) (permissionKeys : List String) :
    (db.setRolePermissions id permissionKeys).1.References := by
  obtain ⟨rows, heq, hrows⟩ := setRolePermissions_spec db id permissionKeys
  rw [heq]
  refine ⟨h.userGroups, h.groupRoles, fun r hr => ?_, h.userAttributes⟩
  rcases (hrows r).mp hr with ⟨hold, -⟩ | ⟨rfl, hid, p, hp, hpid, -⟩
  · exact h.rolePermissions r hold
  · rw [← hpid]
    exact ⟨hid, List.mem_map_of_mem hp⟩

theorem setUserAttributes (h : db.References) (id : String)
    (attributes : List (String × String)) :
    (db.setUserAttributes id attributes).1.References := by
  obtain ⟨rows, heq, hrows⟩ := setUserAttributes_spec db id attributes
  rw [heq]
  refine ⟨h.userGroups, h.groupRoles, h.rolePermissions, fun r hr => ?_⟩
  rcases hrows r hr with hold | ⟨rfl, hid⟩
  · exact h.userAttributes r hold
  · exact hid

/-- A statement on a user changes no key. -/
theorem onMaster (h : db.References) (stmt : Stmt) : (db.onMaster stmt).References := by
  obtain ⟨g, hg, hle⟩ := stmt.exec_users db.toMasterDb
  refine h.of_entities ?_ (List.Subset.refl _) (List.Subset.refl _) (List.Subset.refl _) rfl rfl
    rfl rfl
  show db.users.map User.id ⊆ (stmt.exec db.toMasterDb).users.map User.id
  rw [hg, Table.map_map_keep (fun u => (hle u).id)]
  exact List.Subset.refl _

theorem createUser (h : db.References) (core : Core) (id salt : String)
    (input : CreateUserInput) : (db.createUser core id salt input).1.References := by
  unfold Directory.createUser
  split
  · exact h
  · dsimp only
    have hinserted : References { db with users := db.users ++ [input.created core id salt] } :=
      h.of_entities (List.map_subset _ (List.subset_append_left _ _)) (List.Subset.refl _)
        (List.Subset.refl _) (List.Subset.refl _) rfl rfl rfl rfl
    generalize ({ db with users := db.users ++ [input.created core id salt] } : Directory) = db'
      at hinserted ⊢
    have hgroups : (if input.groupIds.isEmpty then (db', Reply.ok)
        else db'.setUserGroups id input.groupIds).1.References := by
      split
      · exact hinserted
      · exact hinserted.setUserGroups id input.groupIds
    unfold andThen
    split
    · dsimp only
      split
      · exact hgroups
      · exact hgroups.setUserAttributes id input.attributes
    · exact hgroups

theorem createGroup (h : db.References) (id name : String) (description : Option String)
    (roleIds : List String) : (db.createGroup id name description roleIds).1.References := by
  unfold Directory.createGroup
  split
  · exact h
  · dsimp only
    have hinserted : References
        { db with groups := db.groups ++ [⟨id, name, description.getD "", false⟩] } :=
      h.of_entities (List.Subset.refl _) (List.map_subset _ (List.subset_append_left _ _))
        (List.Subset.refl _) (List.Subset.refl _) rfl rfl rfl rfl
    split
    · exact hinserted
    · exact hinserted.setGroupRoles id roleIds

theorem createRole (h : db.References) (id name : String) (description : Option String)
    (permissionKeys : List String) :
    (db.createRole id name description permissionKeys).1.References := by
  unfold Directory.createRole
  split
  · exact h
  · dsimp only
    have hinserted : References
        { db with roles := db.roles ++ [⟨id, name, description.getD "", false⟩] } :=
      h.of_entities (List.Subset.refl _) (List.Subset.refl _)
        (List.map_subset _ (List.subset_append_left _ _)) (List.Subset.refl _) rfl rfl rfl rfl
    split
    · exact hinserted
    · exact hinserted.setRolePermissions id permissionKeys

end Directory.References

/-- What a guarded service leaves: the directory as it was, or what `write` made of it. -/
theorem guarded_cases {α : Type} [Protectable α] {P : Directory → Prop} {db : Directory}
    {row : Option α} {what : α → String} {write : α → Directory × Reply} (hdb : P db)
    (hwrite : ∀ existing, row = some existing → P (write existing).1) :
    P (guarded db row what write).1 := by
  unfold guarded
  split
  · exact hdb
  · rename_i existing
    split
    · exact hdb
    · exact hwrite existing rfl

/-- What a handler that looks the user up leaves. -/
theorem onExistingUser_cases {P : Directory → Prop} {db : Directory} {id : String}
    {write : Directory × Reply} (hdb : P db) (hwrite : P write.1) :
    P (db.onExistingUser id write).1 := by
  unfold Directory.onExistingUser
  split
  · exact hwrite
  · exact hdb

/-- A key that is not deleted is still there. -/
theorem mem_map_of_kept {α : Type} {key : α → String} {rows : List α} {id k : String}
    (hk : k ∈ rows.map key) (hne : k ≠ id) :
    k ∈ (rows.filter (fun r => decide (key r ≠ id))).map key := by
  obtain ⟨r, hr, rfl⟩ := List.mem_map.mp hk
  exact List.mem_map_of_mem (List.mem_filter.mpr ⟨hr, decide_eq_true hne⟩)

namespace Directory.References

variable {db : Directory}

/-- The cascade takes the rows that refer to the user. -/
theorem deleteUserRow (h : db.References) (id : String) : (db.deleteUserRow id).References where
  userGroups r hr := by
    obtain ⟨hold, hne⟩ := List.mem_filter.mp hr
    exact ⟨mem_map_of_kept (h.userGroups r hold).1 (of_decide_eq_true hne),
      (h.userGroups r hold).2⟩
  groupRoles := h.groupRoles
  rolePermissions := h.rolePermissions
  userAttributes r hr := by
    obtain ⟨hold, hne⟩ := List.mem_filter.mp hr
    exact mem_map_of_kept (h.userAttributes r hold) (of_decide_eq_true hne)

theorem deleteGroupRow (h : db.References) (id : String) :
    (db.deleteGroupRow id).References where
  userGroups r hr := by
    obtain ⟨hold, hne⟩ := List.mem_filter.mp hr
    exact ⟨(h.userGroups r hold).1,
      mem_map_of_kept (h.userGroups r hold).2 (of_decide_eq_true hne)⟩
  groupRoles r hr := by
    obtain ⟨hold, hne⟩ := List.mem_filter.mp hr
    exact ⟨mem_map_of_kept (h.groupRoles r hold).1 (of_decide_eq_true hne),
      (h.groupRoles r hold).2⟩
  rolePermissions := h.rolePermissions
  userAttributes := h.userAttributes

theorem deleteRoleRow (h : db.References) (id : String) : (db.deleteRoleRow id).References where
  userGroups := h.userGroups
  groupRoles r hr := by
    obtain ⟨hold, hne⟩ := List.mem_filter.mp hr
    exact ⟨(h.groupRoles r hold).1,
      mem_map_of_kept (h.groupRoles r hold).2 (of_decide_eq_true hne)⟩
  rolePermissions r hr := by
    obtain ⟨hold, hne⟩ := List.mem_filter.mp hr
    exact ⟨mem_map_of_kept (h.rolePermissions r hold).1 (of_decide_eq_true hne),
      (h.rolePermissions r hold).2⟩
  userAttributes := h.userAttributes

theorem updateGroup (h : db.References) (id : String) (name description : Option String) :
    (db.updateGroup id name description).1.References := by
  refine guarded_cases h (fun _ _ => ?_)
  split
  · exact h
  · refine h.of_entities (List.Subset.refl _) ?_ (List.Subset.refl _) (List.Subset.refl _) rfl rfl
      rfl rfl
    dsimp only
    rw [Table.map_update Group.id (f := Group.patch name description) (fun _ => rfl)]
    exact List.Subset.refl _

theorem updateRole (h : db.References) (id : String) (name description : Option String) :
    (db.updateRole id name description).1.References := by
  refine guarded_cases h (fun _ _ => ?_)
  split
  · exact h
  · refine h.of_entities (List.Subset.refl _) (List.Subset.refl _) ?_ (List.Subset.refl _) rfl rfl
      rfl rfl
    dsimp only
    rw [Table.map_update Role.id (f := Role.patch name description) (fun _ => rfl)]
    exact List.Subset.refl _

/-- One operation, case by case. -/
theorem run (h : db.References) (core : Core) (op : Op) : (op.run core db).1.References := by
  cases op with
  | createUser id salt input => exact h.createUser core id salt input
  | updateUser id salt patch => exact guarded_cases h (fun _ _ => h.onMaster _)
  | deleteUser id => exact guarded_cases h (fun _ _ => h.deleteUserRow id)
  | setUserGroups id groupIds => exact h.setUserGroups id groupIds
  | setUserAttributes id attributes =>
    exact onExistingUser_cases h (h.setUserAttributes id attributes)
  | resetTwoFa id =>
    exact onExistingUser_cases h (((h.onMaster _).onMaster _).onMaster _)
  | unlock id => exact onExistingUser_cases h (h.onMaster _)
  | createGroup id name description roleIds => exact h.createGroup id name description roleIds
  | updateGroup id name description => exact h.updateGroup id name description
  | deleteGroup id => exact guarded_cases h (fun _ _ => h.deleteGroupRow id)
  | setGroupRoles id roleIds => exact h.setGroupRoles id roleIds
  | createRole id name description keys => exact h.createRole id name description keys
  | updateRole id name description => exact h.updateRole id name description
  | deleteRole id => exact guarded_cases h (fun _ _ => h.deleteRoleRow id)
  | setRolePermissions id keys => exact h.setRolePermissions id keys

end Directory.References

/-- Requests of whichever callers, in any number and order, leave no dangling row. -/
theorem references_kept (core : Core) {db db' : Directory} {reqs : List Request}
    (h : db.References) (hrun : (administration core).exec db reqs = some db') :
    db'.References := by
  refine Machine.inv_of_exec (I := Directory.References) ?_ h (Machine.Meets.always db reqs) hrun
  intro s req s' hs _ hstep
  obtain rfl := Option.some.inj hstep
  show (handle core s req).References
  unfold handle
  split
  · exact hs.run core req.op
  · exact hs

end Argus.Access
