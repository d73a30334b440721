import NexusEngine.StoredColumns
import NexusEngine.KeyedTables

/-!
# The tables of roles and permissions

Roles, permissions, and the two tables that link users with roles and roles with permissions. A
link has an identifier of its own, and the pair that it links is unique.
-/

namespace NexusEngine.RbacTables

open StoredColumns KeyedTables CalendarTime

structure Role where
  id : Uuid
  name : String
  description : Option String
  isActive : Bool
  createdAt : Instant
  deriving DecidableEq, Repr

structure Permission where
  id : Uuid
  name : String
  description : Option String
  resource : String
  action : String
  deriving DecidableEq, Repr

structure UserRole where
  id : Uuid
  userId : Uuid
  roleId : Uuid
  assignedBy : Option String
  deriving DecidableEq, Repr

structure RolePermission where
  id : Uuid
  roleId : Uuid
  permissionId : Uuid
  deriving DecidableEq, Repr

def UserRole.pair (l : UserRole) : Uuid × Uuid := (l.userId, l.roleId)

def RolePermission.pair (l : RolePermission) : Uuid × Uuid := (l.roleId, l.permissionId)

structure RbacStore where
  roles : Table Role Uuid Role.id
  permissions : Table Permission Uuid Permission.id
  userRoles : Table UserRole Uuid UserRole.id
  rolePermissions : Table RolePermission Uuid RolePermission.id

def RbacStore.empty : RbacStore := ⟨.empty, .empty, .empty, .empty⟩

/-! ## Statements -/

structure RolePatch where
  name : Option String
  description : Option (Option String)
  isActive : Option Bool
  deriving DecidableEq, Repr

def RolePatch.apply (p : RolePatch) (r : Role) : Role :=
  { r with
    name := p.name.getD r.name
    description := p.description.getD r.description
    isActive := p.isActive.getD r.isActive }

def Role.diff (old new : Role) : RolePatch where
  name := changed old.name new.name
  description := changed old.description new.description
  isActive := changed old.isActive new.isActive

/-- A link is deleted as the object that was loaded. -/
inductive RbacStatement where
  | insertRole (r : Role)
  | updateRole (id : Uuid) (patch : RolePatch)
  | insertPermission (p : Permission)
  | insertUserRole (l : UserRole)
  | deleteUserRole (l : UserRole)
  | insertRolePermission (l : RolePermission)
  | deleteRolePermission (l : RolePermission)
  deriving DecidableEq, Repr

namespace RbacStore

def insertRole (t : RbacStore) (r : Role) : Option RbacStore := do
  let name ← varchar 80 r.name
  let description ← nullable text r.description
  if t.roles.rows.any fun s => s.name == name then none
  else
    let roles ← t.roles.insert { r with name := name, description := description }
    return { t with roles := roles }

def updateRole (t : RbacStore) (id : Uuid) (patch : RolePatch) : Option RbacStore := do
  let name ← nullable (varchar 80) patch.name
  let description ← nullable (nullable text) patch.description
  if t.roles.rows.any fun r => r.id != id && name == some r.name then none
  else
    let roles ← t.roles.update id { patch with name := name, description := description }.apply
      fun _ => rfl
    return { t with roles := roles }

def insertPermission (t : RbacStore) (p : Permission) : Option RbacStore := do
  let name ← varchar 120 p.name
  let description ← nullable text p.description
  let resource ← varchar 60 p.resource
  let action ← varchar 60 p.action
  if t.permissions.rows.any fun q => q.name == name then none
  else
    let permissions ← t.permissions.insert { p with
      name := name, description := description, resource := resource, action := action }
    return { t with permissions := permissions }

def insertUserRole (userExists : Uuid → Bool) (t : RbacStore) (l : UserRole) :
    Option RbacStore := do
  let assignedBy ← nullable (varchar 120) l.assignedBy
  if t.userRoles.rows.any fun m => m.pair == l.pair then none
  else if userExists l.userId && (t.roles.find? l.roleId).isSome then
    let userRoles ← t.userRoles.insert { l with assignedBy := assignedBy }
    return { t with userRoles := userRoles }
  else none

def insertRolePermission (t : RbacStore) (l : RolePermission) : Option RbacStore :=
  if t.rolePermissions.rows.any fun m => m.pair == l.pair then none
  else if (t.roles.find? l.roleId).isSome && (t.permissions.find? l.permissionId).isSome then
    (t.rolePermissions.insert l).map fun rolePermissions =>
      { t with rolePermissions := rolePermissions }
  else none

end RbacStore

/-- The users are rows of another service. -/
def RbacStatement.apply (userExists : Uuid → Bool) :
    RbacStatement → RbacStore → Option RbacStore
  | .insertRole r, t => t.insertRole r
  | .updateRole id patch, t => t.updateRole id patch
  | .insertPermission p, t => t.insertPermission p
  | .insertUserRole l, t => t.insertUserRole userExists l
  | .deleteUserRole l, t => some { t with userRoles := t.userRoles.delete l.id }
  | .insertRolePermission l, t => t.insertRolePermission l
  | .deleteRolePermission l, t => some { t with rolePermissions := t.rolePermissions.delete l.id }

/-- A new name waits for another statement that gives it away, and a link for another one on the
same pair. -/
def RbacStatement.conflicts : RbacStatement → RbacStatement → Bool
  | .insertRole r, .insertRole r' => r.id == r'.id || r.name == r'.name
  | .insertRole r, .updateRole _ patch => patch.name == some r.name
  | .updateRole _ patch, .insertRole r => patch.name == some r.name
  | .updateRole id patch, .updateRole id' patch' =>
    id == id' || (patch.name.isSome && patch.name == patch'.name)
  | .insertPermission p, .insertPermission p' => p.id == p'.id || p.name == p'.name
  | .insertUserRole l, .insertUserRole l' => l.id == l'.id || l.pair == l'.pair
  | .insertUserRole l, .deleteUserRole l' => l.id == l'.id || l.pair == l'.pair
  | .deleteUserRole l, .insertUserRole l' => l.id == l'.id || l.pair == l'.pair
  | .deleteUserRole l, .deleteUserRole l' => l.id == l'.id
  | .insertRolePermission l, .insertRolePermission l' => l.id == l'.id || l.pair == l'.pair
  | .insertRolePermission l, .deleteRolePermission l' => l.id == l'.id || l.pair == l'.pair
  | .deleteRolePermission l, .insertRolePermission l' => l.id == l'.id || l.pair == l'.pair
  | .deleteRolePermission l, .deleteRolePermission l' => l.id == l'.id
  | _, _ => false

/-! ## What an accepted statement does -/

namespace RbacStore

variable {userExists : Uuid → Bool} {t t' : RbacStore}

theorem insertRole_eq_some {r : Role} (h : t.insertRole r = some t') :
    ∃ name description roles, varchar 80 r.name = some name ∧
      nullable text r.description = some description ∧ (∀ s ∈ t.roles.rows, s.name ≠ name) ∧
      t.roles.insert { r with name := name, description := description } = some roles ∧
      t' = { t with roles := roles } := by
  simp only [insertRole, Option.bind_eq_bind, Option.bind_eq_some_iff,
    Option.ite_none_left_eq_some, Option.pure_def, Option.some.injEq, List.any_eq_true, beq_iff_eq,
    not_exists, not_and] at h
  obtain ⟨name, hname, description, hdescription, hfresh, roles, hinsert, rfl⟩ := h
  exact ⟨name, description, roles, hname, hdescription, hfresh, hinsert, rfl⟩

theorem updateRole_eq_some {id : Uuid} {patch : RolePatch} (h : t.updateRole id patch = some t') :
    ∃ name description roles, nullable (varchar 80) patch.name = some name ∧
      nullable (nullable text) patch.description = some description ∧
      t.roles.update id { patch with name := name, description := description }.apply
        (fun _ => rfl) = some roles ∧
      t' = { t with roles := roles } := by
  simp only [updateRole, Option.bind_eq_bind, Option.bind_eq_some_iff,
    Option.ite_none_left_eq_some, Option.pure_def, Option.some.injEq] at h
  obtain ⟨name, hname, description, hdescription, -, roles, hupdate, rfl⟩ := h
  exact ⟨name, description, roles, hname, hdescription, hupdate, rfl⟩

theorem insertPermission_eq_some {p : Permission} (h : t.insertPermission p = some t') :
    ∃ q permissions, q.id = p.id ∧ t.permissions.insert q = some permissions ∧
      t' = { t with permissions := permissions } := by
  simp only [insertPermission, Option.bind_eq_bind, Option.bind_eq_some_iff,
    Option.ite_none_left_eq_some, Option.pure_def, Option.some.injEq] at h
  obtain ⟨name, -, description, -, resource, -, action, -, -, permissions, hinsert, rfl⟩ := h
  refine ⟨_, permissions, ?_, hinsert, rfl⟩
  rfl

/-- An inserted link is the only one of its pair, between rows that exist. -/
theorem insertUserRole_eq_some {l : UserRole} : t.insertUserRole userExists l = some t' ↔
    ∃ assignedBy userRoles, nullable (varchar 120) l.assignedBy = some assignedBy ∧
      (∀ m ∈ t.userRoles.rows, m.pair ≠ l.pair) ∧ userExists l.userId = true ∧
      (t.roles.find? l.roleId).isSome = true ∧
      t.userRoles.insert { l with assignedBy := assignedBy } = some userRoles ∧
      t' = { t with userRoles := userRoles } := by
  simp only [insertUserRole, Option.bind_eq_bind, Option.bind_eq_some_iff,
    Option.ite_none_left_eq_some, Option.ite_none_right_eq_some, Option.pure_def,
    Option.some.injEq, List.any_eq_true, beq_iff_eq, not_exists, not_and, Bool.and_eq_true]
  constructor
  · rintro ⟨assignedBy, hassigned, hpair, ⟨huser, hrole⟩, userRoles, hinsert, rfl⟩
    exact ⟨assignedBy, userRoles, hassigned, hpair, huser, hrole, hinsert, rfl⟩
  · rintro ⟨assignedBy, userRoles, hassigned, hpair, huser, hrole, hinsert, rfl⟩
    exact ⟨assignedBy, hassigned, hpair, ⟨huser, hrole⟩, userRoles, hinsert, rfl⟩

theorem insertRolePermission_eq_some {l : RolePermission} :
    t.insertRolePermission l = some t' ↔ ∃ rolePermissions,
      (∀ m ∈ t.rolePermissions.rows, m.pair ≠ l.pair) ∧ (t.roles.find? l.roleId).isSome = true ∧
      (t.permissions.find? l.permissionId).isSome = true ∧
      t.rolePermissions.insert l = some rolePermissions ∧
      t' = { t with rolePermissions := rolePermissions } := by
  simp only [insertRolePermission, Option.ite_none_left_eq_some, Option.ite_none_right_eq_some,
    Option.map_eq_some_iff, List.any_eq_true, beq_iff_eq, not_exists, not_and, Bool.and_eq_true]
  constructor
  · rintro ⟨hpair, ⟨hrole, hpermission⟩, rolePermissions, hinsert, rfl⟩
    exact ⟨rolePermissions, hpair, hrole, hpermission, hinsert, rfl⟩
  · rintro ⟨rolePermissions, hpair, hrole, hpermission, hinsert, rfl⟩
    exact ⟨hpair, ⟨hrole, hpermission⟩, rolePermissions, hinsert, rfl⟩

end RbacStore

end NexusEngine.RbacTables
