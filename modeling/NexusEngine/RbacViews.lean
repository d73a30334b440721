import NexusEngine.RbacLifecycle

/-!
# The views of users and roles

The number of users of a role is counted over the groups of the links, and the roles of a user are
joined to them. No pair is linked twice and every link has both its ends, so that the two numbers
are the same.
-/

namespace NexusEngine.RbacViews

open TransactionalRequests StoredColumns KeyedTables AccountTables RbacTables Database
  GroupedCounts AuthService RbacService RbacLifecycle

def execAll (crypto : AuthCrypto) (s : Store Db) (rs : List RbacRequest) : Store Db :=
  s.execAll postgres (rs.map (·.request crypto))

/-! ## Lists -/

theorem mem_linkedRoles {env : RbacEnv} {userIds : List Uuid} {t : RbacStore} {id : Uuid}
    {r : Role} : (id, r) ∈ linkedRoles env userIds t ↔
      id ∈ userIds ∧ ∃ l ∈ t.userRoles.rows, l.userId = id ∧ t.roles.find? l.roleId = some r := by
  rw [linkedRoles, (List.perm_insertionSort _ _).mem_iff, List.mem_filterMap]
  constructor
  · rintro ⟨l, hl, hrow⟩
    rw [Option.ite_none_right_eq_some, Option.map_eq_some_iff] at hrow
    obtain ⟨huser, r', hr', hpair⟩ := hrow
    obtain ⟨rfl, rfl⟩ := Prod.mk.inj hpair
    exact ⟨huser, l, Table.mem_scan.mp hl, rfl, hr'⟩
  · rintro ⟨huser, l, hl, rfl, hr⟩
    exact ⟨l, Table.mem_scan.mpr hl, by simp [huser, hr]⟩

/-- The users in the order of a listing. -/
def listedUsers (env : RbacEnv) (db : Db) : List User :=
  (db.accounts.users.scan env.rowOrder).insertionSort fun u v =>
    env.collate u.displayName v.displayName

def userList (env : RbacEnv) (db : Db) : List RbacUserRead :=
  (listedUsers env db).map fun u =>
    userToRead u (groupOf (linkedRoles env ((listedUsers env db).map User.id) db.rbac) u.id)

def listedRoles (env : RbacEnv) (db : Db) : List Role :=
  (db.rbac.roles.scan env.rowOrder).insertionSort fun r s => env.collate r.name s.name

def roleList (env : RbacEnv) (db : Db) : List RoleRead :=
  (listedRoles env db).map fun r => roleToRead r
    (groupOf (linkedPermissions env ((listedRoles env db).map Role.id) db.rbac) r.id)
    (countOf (groupCounts (db.rbac.userRoles.rows.map UserRole.roleId)) r.id)

section

variable {env : RbacEnv} {db : Db} {n : ℕ}

theorem listedUsers_perm : (listedUsers env db).Perm db.accounts.users.rows :=
  (List.perm_insertionSort _ _).trans (Table.scan_perm _ _)

theorem listedRoles_perm : (listedRoles env db).Perm db.rbac.roles.rows :=
  (List.perm_insertionSort _ _).trans (Table.scan_perm _ _)

theorem listUsers_answer (ilike : String → String → Bool) :
    ((listUsers env ilike).serial postgres db db n).result = .ok (userList env db) := by
  have hanswer : (listUsers env ilike).wp postgres
      (fun result _ _ _ => result = .ok (userList env db)) db db n := by
    apply (Request.wp_bind ..).mpr
    refine wp_ensure.mpr ⟨fun hnot => absurd rfl hnot, fun _ => ?_⟩
    apply (Request.wp_bind ..).mpr
    rw [Request.wp_select]
    apply (Request.wp_bind ..).mpr
    apply rolesByUser_wp
    apply Request.wp_return
    have hall : ∀ us : List User, us.filter (userPasses ilike none none) = us := by
      simp [userPasses]
    rw [hall]
    rfl
  exact (Request.serial_sound hanswer).elim fun _ h => h

theorem listRoles_answer :
    ((listRoles env).serial postgres db db n).result = .ok (roleList env db) := by
  have hanswer : (listRoles env).wp postgres
      (fun result _ _ _ => result = .ok (roleList env db)) db db n := by
    apply (Request.wp_bind ..).mpr
    rw [Request.wp_select]
    apply (Request.wp_bind ..).mpr
    apply permissionsByRole_wp
    apply (Request.wp_bind ..).mpr
    rw [userCountsByRole, Request.wp_select]
    exact Request.wp_return rfl
  exact (Request.serial_sound hanswer).elim fun _ h => h

theorem userList_ids : ((userList env db).map RbacUserRead.id).Perm
    (db.accounts.users.rows.map User.id) := by
  rw [userList, List.map_map]
  exact listedUsers_perm.map User.id

theorem roleList_ids : ((roleList env db).map RoleRead.id).Perm
    (db.rbac.roles.rows.map Role.id) := by
  rw [roleList, List.map_map]
  exact listedRoles_perm.map Role.id

/-- A user's roles are those that a link leads to. -/
theorem roles_of_user {u : User} (hu : u ∈ db.accounts.users.rows) {role : Role}
    (hrole : role ∈ db.rbac.roles.rows) :
    role.id ∈ (userToRead u (groupOf (linkedRoles env ((listedUsers env db).map User.id) db.rbac)
        u.id)).roles.map RoleSummary.id ↔
      ∃ l ∈ db.rbac.userRoles.rows, l.userId = u.id ∧ l.roleId = role.id := by
  have hlisted : u.id ∈ (listedUsers env db).map User.id :=
    List.mem_map_of_mem (listedUsers_perm.mem_iff.mpr hu)
  rw [userToRead, List.map_map, List.mem_map]
  simp only [mem_groupOf, mem_linkedRoles]
  constructor
  · rintro ⟨r, ⟨-, l, hl, huser, hfind⟩, hid⟩
    exact ⟨l, hl, huser, (Table.find?_eq_some.mp hfind).2.symm.trans hid⟩
  · rintro ⟨l, hl, huser, hid⟩
    refine ⟨role, ⟨hlisted, l, hl, huser, ?_⟩, rfl⟩
    rw [hid]
    exact Table.find?_of_mem hrole

/-- The count over the groups is the number of users that have the role. -/
theorem userCount_eq (env' : RbacEnv) (h : LinkInv db) {role : Role}
    (hrole : role ∈ db.rbac.roles.rows) :
    countOf (groupCounts (db.rbac.userRoles.rows.map UserRole.roleId)) role.id =
      (userList env' db).countP fun u => role.id ∈ u.roles.map RoleSummary.id := by
  have hpairs : (db.rbac.userRoles.rows.map fun l => (l.userId, l.roleId)).Nodup := h.userPairs
  have hcount := count_right db.accounts.users.nodup hpairs h.users role.id
  rw [countOf_groupCounts, hcount, userList, List.countP_map,
    listedUsers_perm.countP_eq]
  apply List.countP_congr
  intro u hu
  simp only [Function.comp, decide_eq_true_eq, roles_of_user hu hrole]
  simp

theorem permissions_sublist (roleIds : List Uuid) (t : RbacStore) (id : Uuid)
    (links : List RolePermission) :
    ((groupOf (links.filterMap fun l =>
        if l.roleId ∈ roleIds then (t.permissions.find? l.permissionId).map fun p => (l.roleId, p)
        else none) id).map Permission.id).Sublist
      ((links.filter fun l => l.roleId = id).map RolePermission.permissionId) := by
  induction links with
  | nil => exact .slnil
  | cons l links ih =>
    rw [List.filterMap_cons]
    split
    · exact ih.trans ((List.sublist_cons_self _ _).filter _ |>.map _)
    · next row hrow =>
      rw [Option.ite_none_right_eq_some, Option.map_eq_some_iff] at hrow
      obtain ⟨-, p, hp, rfl⟩ := hrow
      by_cases hid : l.roleId = id
      · simpa [groupOf, hid, (Table.find?_eq_some.mp hp).2] using ih
      · simpa [groupOf, hid] using ih

/-- The permissions of a role are pairwise different. -/
theorem permissions_nodup (h : LinkInv db) (roleIds : List Uuid) (id : Uuid) :
    ((groupOf (linkedPermissions env roleIds db.rbac) id).map Permission.id).Nodup := by
  have hswapped : (db.rbac.rolePermissions.rows.map fun l => (l.permissionId, l.roleId)).Nodup := by
    have hpairs := h.rolePairs.map Prod.swap_injective
    rwa [List.map_map] at hpairs
  have hscan : ((db.rbac.rolePermissions.scan env.rowOrder).map fun l =>
      (l.permissionId, l.roleId)).Nodup :=
    ((Table.scan_perm _ _).map _).nodup_iff.mpr hswapped
  have hperm : ((groupOf (linkedPermissions env roleIds db.rbac) id).map Permission.id).Perm
      ((groupOf ((db.rbac.rolePermissions.scan env.rowOrder).filterMap fun l =>
        if l.roleId ∈ roleIds then
          (db.rbac.permissions.find? l.permissionId).map fun p => (l.roleId, p)
        else none) id).map Permission.id) :=
    (((List.perm_insertionSort _ _).filter _).map _).map _
  rw [hperm.nodup_iff]
  exact (nodup_linked hscan id).sublist (permissions_sublist _ _ _ _)

end

/-! ## Runs -/

/-- The two listings, each with its own order of rows, agree with each other: the number of users
of a role is that of the users who have it, and its permissions are as many as it says and
pairwise different. -/
structure ViewsAgree (users : List RbacUserRead) (roles : List RoleRead) : Prop where
  userCount : ∀ r ∈ roles,
    r.userCount = users.countP fun u => r.id ∈ u.roles.map RoleSummary.id
  permissionCount : ∀ r ∈ roles, r.permissionCount = r.permissions.length
  permissions : ∀ r ∈ roles, (r.permissions.map PermissionRead.id).Nodup

theorem viewsAgree_of_linkInv {db : Db} (h : LinkInv db) (env env' : RbacEnv) :
    ViewsAgree (userList env db) (roleList env' db) := by
  constructor
  · intro r hr
    obtain ⟨role, hrole, rfl⟩ := List.mem_map.mp hr
    exact userCount_eq env h (listedRoles_perm.mem_iff.mp hrole)
  · intro r hr
    obtain ⟨role, -, rfl⟩ := List.mem_map.mp hr
    simp [roleToRead]
  · intro r hr
    obtain ⟨role, -, rfl⟩ := List.mem_map.mp hr
    rw [roleToRead, List.map_map]
    exact permissions_nodup h ((listedRoles env' db).map Role.id) role.id

/-- What holds of a store that runs of the service reach: no pair is linked twice, the listings
show every user and every role once and agree, and a call that is rejected changes nothing. -/
structure Consistent (crypto : AuthCrypto) (ilike : String → String → Bool) (s : Store Db) :
    Prop where
  userRoles : (s.db.rbac.userRoles.rows.map UserRole.pair).Nodup
  rolePermissions : (s.db.rbac.rolePermissions.rows.map RolePermission.pair).Nodup
  views : ∀ env env', ∃ users roles,
    ((listUsers env ilike).serial postgres s.db s.db s.sequence).result = .ok users ∧
      ((listRoles env').serial postgres s.db s.db s.sequence).result = .ok roles ∧
      (users.map RbacUserRead.id).Perm (s.db.accounts.users.rows.map User.id) ∧
      (roles.map RoleRead.id).Perm (s.db.rbac.roles.rows.map Role.id) ∧ ViewsAgree users roles
  rejected : ∀ (r : RbacRequest) (error : ServiceError),
    ((r.request crypto).serial postgres s.db s.db s.sequence).result = .error error →
      (s.exec postgres (r.request crypto)).db = s.db

theorem consistent_of_linkInv {crypto : AuthCrypto} {ilike : String → String → Bool} {s : Store Db}
    (h : LinkInv s.db) : Consistent crypto ilike s where
  userRoles := h.userPairs
  rolePermissions := h.rolePairs
  views env env' := ⟨userList env s.db, roleList env' s.db, listUsers_answer ilike,
    listRoles_answer, userList_ids, roleList_ids, viewsAgree_of_linkInv h env env'⟩
  rejected r error herror := by
    have hkept : (r.request crypto).wp postgres (KeptIfRejected s.db) s.db s.db s.sequence :=
      request_rejected r
    exact (Request.serial_sound hkept).elim fun _ h => h error herror

/-- The views agree in every state that serial runs from empty tables reach. -/
theorem views_agree (crypto : AuthCrypto) (ilike : String → String → Bool) (n : ℕ)
    (rs : List RbacRequest) : Consistent crypto ilike (execAll crypto ⟨emptyDb, n⟩ rs) := by
  have hrun : LinkInv (execAll crypto ⟨emptyDb, n⟩ rs).db :=
    Store.execAll_preserves (P := fun s => LinkInv s.db) (Q := fun _ _ => True) linkInv_empty
      (fun _ _ _ _ => trivial)
      fun s r _ h => Store.exec_invariant (fun _ _ _ happly h => h.apply happly) _ s h
  exact consistent_of_linkInv hrun

end NexusEngine.RbacViews
