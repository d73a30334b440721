import NexusEngine.AuthService
import NexusEngine.GroupedCounts

/-!
# The service of users, roles and permissions

Users and roles are created, changed and linked, each operation in one transaction, and listed
with what they are linked to. What a role is linked to is read by queries of its own: the
permissions by a join, and the number of users by a count over the groups of the links.
-/

namespace NexusEngine.RbacService

open TransactionalRequests TextEncodings CalendarTime StoredColumns KeyedTables AccountTables
  RbacTables Database GroupedCounts AuthService

/-- What an operation draws from its surroundings: the identifiers of the row and of the links it
inserts, a salt and the timestamp of the row, and the order of rows where a query leaves it
open. -/
structure RbacEnv where
  uuid4 : Uuid
  linkUuid4 : ℕ → Uuid
  salt : ℕ
  createdAt : Instant
  rowOrder : Uuid → Uuid → Bool
  collate : String → String → Bool

/-! ## Requests and responses -/

structure PermissionRead where
  id : Uuid
  name : String
  description : Option String
  resource : String
  action : String
  deriving DecidableEq, Repr

structure PermissionCreate where
  name : String
  name_min : 2 ≤ name.toList.length
  name_max : name.toList.length ≤ 120
  resource : String
  resource_min : 1 ≤ resource.toList.length
  resource_max : resource.toList.length ≤ 60
  action : String
  action_min : 1 ≤ action.toList.length
  action_max : action.toList.length ≤ 60
  description : Option String := none
  description_max : ∀ d, description = some d → d.toList.length ≤ 500

structure RoleRead where
  id : Uuid
  name : String
  description : Option String
  isActive : Bool
  permissionCount : ℕ
  userCount : ℕ
  permissions : List PermissionRead
  createdAt : Instant
  deriving DecidableEq, Repr

structure RoleCreate where
  name : String
  name_min : 2 ≤ name.toList.length
  name_max : name.toList.length ≤ 80
  description : Option String := none
  description_max : ∀ d, description = some d → d.toList.length ≤ 500
  permissionIds : List Uuid := []

structure RoleUpdate where
  name : Option String := none
  name_min : ∀ s, name = some s → 2 ≤ s.toList.length
  name_max : ∀ s, name = some s → s.toList.length ≤ 80
  description : Option String := none
  description_max : ∀ d, description = some d → d.toList.length ≤ 500
  isActive : Option Bool := none
  permissionIds : Option (List Uuid) := none

structure RoleSummary where
  id : Uuid
  name : String
  deriving DecidableEq, Repr

structure RbacUserRead where
  id : Uuid
  email : String
  displayName : String
  isActive : Bool
  isAdmin : Bool
  roles : List RoleSummary
  deriving DecidableEq, Repr

structure RbacUserCreate where
  email : String
  email_min : 3 ≤ email.toList.length
  email_max : email.toList.length ≤ 255
  displayName : String
  displayName_min : 1 ≤ displayName.toList.length
  displayName_max : displayName.toList.length ≤ 120
  password : String
  password_min : 8 ≤ password.toList.length
  password_max : password.toList.length ≤ 128
  isAdmin : Bool := false
  roleIds : List Uuid := []

structure RbacUserUpdate where
  displayName : Option String := none
  displayName_min : ∀ s, displayName = some s → 1 ≤ s.toList.length
  displayName_max : ∀ s, displayName = some s → s.toList.length ≤ 120
  isAdmin : Option Bool := none

structure RoleAssignmentResult where
  detail : String
  userId : Uuid
  roleId : Uuid
  roles : List RoleSummary
  deriving DecidableEq, Repr

/-! ## Internal loaders -/

/-- The roles that are linked to the users, each with the user. -/
def linkedRoles (env : RbacEnv) (userIds : List Uuid) (t : RbacStore) : List (Uuid × Role) :=
  ((t.userRoles.scan env.rowOrder).filterMap fun l =>
    if l.userId ∈ userIds then (t.roles.find? l.roleId).map fun r => (l.userId, r)
    else none).insertionSort fun a b => env.collate a.2.name b.2.name

def rolesByUser (env : RbacEnv) (userIds : List Uuid) : Service (Uuid → List Role) :=
  if userIds = [] then return fun _ => []
  else do
    let rows ← Request.select fun db => linkedRoles env userIds db.rbac
    return groupOf rows

def linkedPermissions (env : RbacEnv) (roleIds : List Uuid) (t : RbacStore) :
    List (Uuid × Permission) :=
  ((t.rolePermissions.scan env.rowOrder).filterMap fun l =>
    if l.roleId ∈ roleIds then (t.permissions.find? l.permissionId).map fun p => (l.roleId, p)
    else none).insertionSort fun a b => env.collate a.2.name b.2.name

def permissionsByRole (env : RbacEnv) (roleIds : List Uuid) : Service (Uuid → List Permission) :=
  if roleIds = [] then return fun _ => []
  else do
    let rows ← Request.select fun db => linkedPermissions env roleIds db.rbac
    return groupOf rows

def userCountsByRole : Service (List (Uuid × ℕ)) :=
  Request.select fun db => groupCounts (db.rbac.userRoles.rows.map UserRole.roleId)

def permissionToRead (p : Permission) : PermissionRead where
  id := p.id
  name := p.name
  description := p.description
  resource := p.resource
  action := p.action

def roleSummary (r : Role) : RoleSummary := ⟨r.id, r.name⟩

def userToRead (user : User) (roles : List Role) : RbacUserRead where
  id := user.id
  email := user.email
  displayName := user.displayName
  isActive := user.isActive
  isAdmin := user.isAdmin
  roles := roles.map roleSummary

def roleToRead (role : Role) (permissions : List Permission) (userCount : ℕ) : RoleRead where
  id := role.id
  name := role.name
  description := role.description
  isActive := role.isActive
  permissionCount := permissions.length
  userCount := userCount
  permissions := permissions.map permissionToRead
  createdAt := role.createdAt

/-! ## Users -/

/-- The users that pass the conditions. An empty search is none, and `ilike` is the operator of
the database. -/
def userPasses (ilike : String → String → Bool) (isActive : Option Bool) (search : Option String)
    (u : User) : Bool :=
  (isActive.all fun b => u.isActive == b) &&
    (search.filter (· ≠ "")).all fun s =>
      ilike u.displayName ("%" ++ s ++ "%") || ilike u.email ("%" ++ s ++ "%")

def listUsers (env : RbacEnv) (ilike : String → String → Bool) (isActive : Option Bool := none)
    (search : Option String := none) : Service (List RbacUserRead) := do
  ensure ((search.all fun s => (text s).isSome) = true) .rejected
  let users ← Request.select fun db =>
    ((db.accounts.users.scan env.rowOrder).filter (userPasses ilike isActive search)).insertionSort
      fun u v => env.collate u.displayName v.displayName
  let rolesByUser ← rolesByUser env (users.map User.id)
  return users.map fun u => userToRead u (rolesByUser u.id)

def getUserOrm (userId : Uuid) : Service User := do
  let user ← Request.select fun db => db.accounts.users.find? userId
  found user (.http 404 "User not found")

/-- A user whose object the session has. -/
def userView (env : RbacEnv) (user : User) : Service RbacUserRead := do
  let rolesByUser ← rolesByUser env [user.id]
  return userToRead user (rolesByUser user.id)

def unknownIds (kind : String) (missing : List Uuid) : ServiceError :=
  .http 404 ("Unknown " ++ kind ++ " id(s): " ++ ", ".intercalate (missing.map uuidText))

def newUser (env : RbacEnv) (payload : RbacUserCreate) (hashedPassword : String) : User where
  id := env.uuid4
  email := payload.email
  displayName := payload.displayName
  hashedPassword := hashedPassword
  isActive := true
  isAdmin := payload.isAdmin

/-- The roles that a new user is given. The query returns every role once. -/
def requestedRoles (env : RbacEnv) (roleIds : List Uuid) : Service (List Role) :=
  if roleIds = [] then return []
  else do
    let roles ← Request.select fun db =>
      (db.rbac.roles.scan env.rowOrder).filter fun r => r.id ∈ roleIds
    let missing := roleIds.filter fun id => id ∉ roles.map Role.id
    -- the rollback undoes the flush of the user
    ensure (missing = []) (unknownIds "role" missing)
    return roles

def roleLinks (env : RbacEnv) (userId : Uuid) (roles : List Role) : List Statement :=
  roles.mapIdx fun i r => .rbac (.insertUserRole ⟨env.linkUuid4 i, userId, r.id, none⟩)

def createUser (crypto : AuthCrypto) (env : RbacEnv) (payload : RbacUserCreate) :
    Service RbacUserRead := do
  ensure ((text payload.email).isSome = true) .rejected
  let rows ← Request.select fun db =>
    db.accounts.users.rows.filter fun u => u.email = payload.email
  let existing ← scalarOneOrNone rows
  ensure (existing.isNone = true) (.http 409 "A user with this email already exists")
  let hashedPassword ← found (crypto.hashPassword env.salt payload.password) .exception
  let user := newUser env payload hashedPassword
  Request.send fun _ => [.account (.insertUser user)]
  let roles ← requestedRoles env payload.roleIds
  Request.send fun _ => roleLinks env user.id roles
  Request.commitTransaction
  userView env user

def updatedUser (user : User) (payload : RbacUserUpdate) : User :=
  { user with
    displayName := payload.displayName.getD user.displayName
    isAdmin := payload.isAdmin.getD user.isAdmin }

/-- The update of a user object that was loaded as `old`. -/
def saveUser (old new : User) : List Statement :=
  if old = new then [] else [.account (.updateUser old.id (old.diff new))]

def updateUser (env : RbacEnv) (userId : Uuid) (payload : RbacUserUpdate) :
    Service RbacUserRead := do
  let user ← getUserOrm userId
  Request.send fun _ => saveUser user (updatedUser user payload)
  Request.commitTransaction
  userView env (updatedUser user payload)

/-! ## Roles -/

def listRoles (env : RbacEnv) : Service (List RoleRead) := do
  let roles ← Request.select fun db =>
    (db.rbac.roles.scan env.rowOrder).insertionSort fun r s => env.collate r.name s.name
  let permsByRole ← permissionsByRole env (roles.map Role.id)
  let counts ← userCountsByRole
  return roles.map fun r => roleToRead r (permsByRole r.id) (countOf counts r.id)

def getRoleOrm (roleId : Uuid) : Service Role := do
  let role ← Request.select fun db => db.rbac.roles.find? roleId
  found role (.http 404 "Role not found")

def roleReadFor (env : RbacEnv) (role : Role) : Service RoleRead := do
  let permsByRole ← permissionsByRole env [role.id]
  let counts ← userCountsByRole
  return roleToRead role (permsByRole role.id) (countOf counts role.id)

def validatePermissionIds (env : RbacEnv) (permissionIds : List Uuid) : Service Unit :=
  if permissionIds = [] then return ()
  else do
    let permissions ← Request.select fun db =>
      (db.rbac.permissions.scan env.rowOrder).filter fun p => p.id ∈ permissionIds
    let missing := permissionIds.filter fun id => id ∉ permissions.map Permission.id
    ensure (missing = []) (unknownIds "permission" missing)

/-- One link for each permission, in the order in which they occur first. -/
def permissionLinks (env : RbacEnv) (roleId : Uuid) (permissionIds : List Uuid) :
    List Statement :=
  permissionIds.eraseDups.mapIdx fun i id =>
    .rbac (.insertRolePermission ⟨env.linkUuid4 i, roleId, id⟩)

/-- The role of a name, other than the one that is changed. -/
def roleByName (name : String) (other : Role → Bool) : Service (Option Role) := do
  ensure ((text name).isSome = true) .rejected
  let rows ← Request.select fun db => db.rbac.roles.rows.filter fun r => r.name = name && other r
  scalarOneOrNone rows

def newRole (env : RbacEnv) (payload : RoleCreate) : Role where
  id := env.uuid4
  name := payload.name
  description := payload.description
  isActive := true
  createdAt := env.createdAt

def createRole (env : RbacEnv) (payload : RoleCreate) : Service RoleRead := do
  let existing ← roleByName payload.name fun _ => true
  ensure (existing.isNone = true) (.http 409 "A role with this name already exists")
  validatePermissionIds env payload.permissionIds
  let role := newRole env payload
  Request.send fun _ => [.rbac (.insertRole role)]
  Request.send fun _ => permissionLinks env role.id payload.permissionIds
  Request.commitTransaction
  roleReadFor env role

def checkName (role : Role) : Option String → Service Unit
  | none => return ()
  | some name =>
    if name = role.name then return ()
    else do
      let clash ← roleByName name fun r => r.id ≠ role.id
      ensure (clash.isNone = true) (.http 409 "A role with this name already exists")

def updatedRole (role : Role) (payload : RoleUpdate) : Role :=
  { role with
    name := payload.name.getD role.name
    description := payload.description.orElse fun _ => role.description
    isActive := payload.isActive.getD role.isActive }

def saveRole (old new : Role) : List Statement :=
  if old = new then [] else [.rbac (.updateRole old.id (old.diff new))]

/-- Send a changed role and, where permissions are given, replace its links by links to these. -/
def replaceLinks (env : RbacEnv) (roleId : Uuid) (save : List Statement) :
    Option (List Uuid) → Service Unit
  | none => Request.send fun _ => save
  | some permissionIds => do
    validatePermissionIds env permissionIds
    let existingLinks ← Request.select fun db =>
      (db.rbac.rolePermissions.scan env.rowOrder).filter fun l => l.roleId = roleId
    Request.send fun _ => save ++ existingLinks.map fun l => .rbac (.deleteRolePermission l)
    Request.send fun _ => permissionLinks env roleId permissionIds

def updateRole (env : RbacEnv) (roleId : Uuid) (payload : RoleUpdate) : Service RoleRead := do
  let role ← getRoleOrm roleId
  checkName role payload.name
  replaceLinks env role.id (saveRole role (updatedRole role payload)) payload.permissionIds
  Request.commitTransaction
  roleReadFor env (updatedRole role payload)

/-! ## Permissions -/

def newPermission (env : RbacEnv) (payload : PermissionCreate) : Permission where
  id := env.uuid4
  name := payload.name
  description := payload.description
  resource := payload.resource
  action := payload.action

def createPermission (env : RbacEnv) (payload : PermissionCreate) : Service PermissionRead := do
  ensure ((text payload.name).isSome = true) .rejected
  let rows ← Request.select fun db =>
    db.rbac.permissions.rows.filter fun p => p.name = payload.name
  let existing ← scalarOneOrNone rows
  ensure (existing.isNone = true) (.http 409 "A permission with this name already exists")
  let permission := newPermission env payload
  Request.send fun _ => [.rbac (.insertPermission permission)]
  Request.commitTransaction
  let row ← Request.select fun db => db.rbac.permissions.find? permission.id
  let permission ← found row .exception
  return permissionToRead permission

/-! ## Role assignment -/

def roleSummariesForUser (env : RbacEnv) (userId : Uuid) : Service (List RoleSummary) := do
  let rolesByUser ← rolesByUser env [userId]
  return (rolesByUser userId).map roleSummary

/-- The link of a user to a role. -/
def userRole (userId roleId : Uuid) : Service (Option UserRole) := do
  let _ ← getUserOrm userId
  let _ ← getRoleOrm roleId
  let rows ← Request.select fun db =>
    db.rbac.userRoles.rows.filter fun l => l.userId = userId && l.roleId = roleId
  scalarOneOrNone rows

/-- Add a link where there is none. -/
def addLink (env : RbacEnv) (userId roleId : Uuid) (assignedBy : String) :
    Option UserRole → Service String
  | some _ => return "Role already assigned"
  | none => do
    Request.send fun _ =>
      [.rbac (.insertUserRole ⟨env.linkUuid4 0, userId, roleId, some assignedBy⟩)]
    Request.commitTransaction
    return "Role assigned"

def assignRole (env : RbacEnv) (userId roleId : Uuid) (assignedBy : String) :
    Service RoleAssignmentResult := do
  let existing ← userRole userId roleId
  let detail ← addLink env userId roleId assignedBy existing
  let roles ← roleSummariesForUser env userId
  return ⟨detail, userId, roleId, roles⟩

def removeRole (env : RbacEnv) (userId roleId : Uuid) : Service RoleAssignmentResult := do
  let existing ← userRole userId roleId
  let link ← found existing (.http 404 "This role is not assigned to the user")
  Request.send fun _ => [.rbac (.deleteUserRole link)]
  Request.commitTransaction
  let roles ← roleSummariesForUser env userId
  return ⟨"Role removed", userId, roleId, roles⟩

/-! ## Requests -/

inductive RbacRequest where
  | createUser (env : RbacEnv) (payload : RbacUserCreate)
  | updateUser (env : RbacEnv) (userId : Uuid) (payload : RbacUserUpdate)
  | createRole (env : RbacEnv) (payload : RoleCreate)
  | updateRole (env : RbacEnv) (roleId : Uuid) (payload : RoleUpdate)
  | createPermission (env : RbacEnv) (payload : PermissionCreate)
  | assignRole (env : RbacEnv) (userId roleId : Uuid) (assignedBy : String)
  | removeRole (env : RbacEnv) (userId roleId : Uuid)

inductive RbacResponse where
  | user (view : RbacUserRead)
  | role (view : RoleRead)
  | permission (view : PermissionRead)
  | assignment (result : RoleAssignmentResult)
  deriving DecidableEq, Repr

def RbacRequest.request (crypto : AuthCrypto) : RbacRequest → Service RbacResponse
  | createUser env payload => do
    let view ← RbacService.createUser crypto env payload
    return .user view
  | updateUser env userId payload => do
    let view ← RbacService.updateUser env userId payload
    return .user view
  | createRole env payload => do
    let view ← RbacService.createRole env payload
    return .role view
  | updateRole env roleId payload => do
    let view ← RbacService.updateRole env roleId payload
    return .role view
  | createPermission env payload => do
    let view ← RbacService.createPermission env payload
    return .permission view
  | assignRole env userId roleId assignedBy => do
    let result ← RbacService.assignRole env userId roleId assignedBy
    return .assignment result
  | removeRole env userId roleId => do
    let result ← RbacService.removeRole env userId roleId
    return .assignment result

end NexusEngine.RbacService
