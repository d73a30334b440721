import NexusEngine.RbacService
import NexusEngine.AuthLifecycle
import NexusEngine.QuietRequests

/-!
# What the tables of roles keep

No statement that a constraint lets through stores a pair twice, or leaves a link whose user or
role is gone. An operation that is not answered has committed nothing.
-/

namespace NexusEngine.RbacLifecycle

open TransactionalRequests StoredColumns KeyedTables AccountTables RbacTables Database
  GroupedCounts AuthService AuthLifecycle AuditedOperations QuietRequests RbacService

/-! ## Users -/

/-- What a statement does to the users: it adds one, or changes columns other than the email. -/
theorem apply_users {statement : AccountStatement} {s s' : AccountStore}
    (h : statement.apply s = some s') :
    (∃ u v, statement = .insertUser u ∧ s.users.insert v = some s'.users ∧
        ∀ r ∈ s.users.rows, r.email ≠ v.email) ∨
      ∃ f : User → User, (∀ u, (f u).id = u.id ∧ (f u).email = u.email) ∧
        s'.users.rows = s.users.rows.map f := by
  have same : ∀ users : Table User Uuid User.id, users = s.users →
      ∃ f : User → User, (∀ u, (f u).id = u.id ∧ (f u).email = u.email) ∧
        users.rows = s.users.rows.map f := by
    rintro _ rfl
    exact ⟨id, fun _ => ⟨rfl, rfl⟩, (List.map_id _).symm⟩
  cases statement with
  | insertUser u =>
    obtain ⟨_, _, _, users, -, -, -, hfresh, hinsert, rfl⟩ := AccountStore.insertUser_eq_some.mp h
    exact .inl ⟨u, _, rfl, hinsert, hfresh⟩
  | updateUser id patch =>
    obtain ⟨_, users, -, hupdate, rfl⟩ := AccountStore.updateUser_eq_some.mp h
    refine .inr ⟨_, fun u => ?_, (Table.update_eq_some.mp hupdate).2⟩
    split <;> exact ⟨rfl, rfl⟩
  | updatePassword id hashedPassword =>
    simp only [AccountStatement.apply, AccountStore.updatePassword, Option.bind_eq_bind,
      Option.bind_eq_some_iff, Option.pure_def, Option.some.injEq] at h
    obtain ⟨_, -, users, hupdate, rfl⟩ := h
    refine .inr ⟨_, fun u => ?_, (Table.update_eq_some.mp hupdate).2⟩
    split <;> exact ⟨rfl, rfl⟩
  | updateIsActive id isActive =>
    obtain ⟨users, hupdate, rfl⟩ := Option.map_eq_some_iff.mp h
    refine .inr ⟨_, fun u => ?_, (Table.update_eq_some.mp hupdate).2⟩
    split <;> exact ⟨rfl, rfl⟩
  | insertRefreshToken t =>
    obtain ⟨_, -, -, hrest, -⟩ := insertRefreshToken_eq_some h
    exact .inr (same s'.users (by rw [hrest]))
  | updateRefreshToken id now =>
    obtain ⟨-, hrest, -⟩ := updateRefreshToken_eq_some.mp h
    exact .inr (same s'.users (by rw [hrest]))
  | insertPasswordResetToken t =>
    obtain ⟨_, -, hrest, -⟩ := insertPasswordResetToken_eq_some h
    exact .inr (same s'.users (by rw [hrest]))
  | updatePasswordResetToken id now =>
    obtain ⟨hrest, -⟩ := updatePasswordResetToken_eq_some h
    exact .inr (same s'.users (by rw [hrest]))

/-- No user is deleted. -/
theorem apply_user_exists {statement : AccountStatement} {s s' : AccountStore}
    (h : statement.apply s = some s') {id : Uuid} (hid : id ∈ s.users.rows.map User.id) :
    id ∈ s'.users.rows.map User.id := by
  rcases apply_users h with ⟨u, v, -, hinsert, -⟩ | ⟨f, hf, hrows⟩
  · rw [(Table.insert_eq_some.mp hinsert).2, List.map_append]
    exact List.mem_append_left _ hid
  · have hids : s'.users.rows.map User.id = s.users.rows.map User.id := by
      rw [hrows, List.map_map]
      apply List.map_congr_left
      intro u _
      exact (hf u).1
    rwa [hids]

/-! ## Links -/

/-- The links of the tables: no pair occurs twice, and users and roles that are linked exist. -/
structure LinkInv (db : Db) : Prop where
  userPairs : (db.rbac.userRoles.rows.map UserRole.pair).Nodup
  rolePairs : (db.rbac.rolePermissions.rows.map RolePermission.pair).Nodup
  users : ∀ l ∈ db.rbac.userRoles.rows, l.userId ∈ db.accounts.users.rows.map User.id
  roles : ∀ l ∈ db.rbac.userRoles.rows, l.roleId ∈ db.rbac.roles.rows.map Role.id

theorem linkInv_empty : LinkInv emptyDb where
  userPairs := .nil
  rolePairs := .nil
  users := fun _ h => nomatch h
  roles := fun _ h => nomatch h

theorem nodup_concat {α β : Type} {key : α → β} {rows : List α} {r : α}
    (h : (rows.map key).Nodup) (hfresh : ∀ s ∈ rows, key s ≠ key r) :
    ((rows ++ [r]).map key).Nodup := by
  rw [List.map_append, List.map_singleton, List.nodup_append]
  refine ⟨h, List.nodup_singleton _, ?_⟩
  intro a ha b hb
  obtain ⟨s, hs, rfl⟩ := List.mem_map.mp ha
  rw [List.mem_singleton.mp hb]
  exact hfresh s hs

section

variable {db db' : Db}

theorem LinkInv.rbac (h : LinkInv db) {statement : RbacStatement} {t : RbacStore}
    (hst : statement.apply (fun id => (db.accounts.users.find? id).isSome) db.rbac = some t) :
    LinkInv { db with rbac := t } := by
  cases statement with
  | insertRole r =>
    obtain ⟨_, _, roles, -, -, -, hinsert, rfl⟩ := RbacStore.insertRole_eq_some hst
    refine { h with roles := fun l hl => ?_ }
    show l.roleId ∈ roles.rows.map Role.id
    rw [(Table.insert_eq_some.mp hinsert).2, List.map_append]
    exact List.mem_append_left _ (h.roles l hl)
  | updateRole id patch =>
    obtain ⟨_, _, roles, -, -, hupdate, rfl⟩ := RbacStore.updateRole_eq_some hst
    refine { h with roles := fun l hl => ?_ }
    show l.roleId ∈ roles.rows.map Role.id
    rw [Table.keys_update hupdate]
    exact h.roles l hl
  | insertPermission p =>
    obtain ⟨_, permissions, -, -, rfl⟩ := RbacStore.insertPermission_eq_some hst
    exact { h with }
  | insertUserRole l =>
    have hinserted : db.rbac.insertUserRole
        (fun id => (db.accounts.users.find? id).isSome) l = some t := hst
    obtain ⟨assignedBy, userRoles, -, hpair, huser, hrole, hinsert, rfl⟩ :=
      RbacStore.insertUserRole_eq_some.mp hinserted
    have hrows := (Table.insert_eq_some.mp hinsert).2
    refine { h with userPairs := ?_, users := fun m hm => ?_, roles := fun m hm => ?_ }
    · show (userRoles.rows.map UserRole.pair).Nodup
      rw [hrows]
      exact nodup_concat h.userPairs hpair
    · rw [hrows, List.mem_append, List.mem_singleton] at hm
      rcases hm with hm | rfl
      · exact h.users m hm
      · exact Table.isSome_find?.mp huser
    · rw [hrows, List.mem_append, List.mem_singleton] at hm
      rcases hm with hm | rfl
      · exact h.roles m hm
      · exact Table.isSome_find?.mp hrole
  | deleteUserRole l =>
    obtain rfl := Option.some.inj hst
    exact { h with
      userPairs := h.userPairs.sublist (List.filter_sublist.map _)
      users := fun m hm => h.users m (List.mem_of_mem_filter hm)
      roles := fun m hm => h.roles m (List.mem_of_mem_filter hm) }
  | insertRolePermission l =>
    obtain ⟨rolePermissions, hpair, -, -, hinsert, rfl⟩ :=
      RbacStore.insertRolePermission_eq_some.mp hst
    refine { h with rolePairs := ?_ }
    show (rolePermissions.rows.map RolePermission.pair).Nodup
    rw [(Table.insert_eq_some.mp hinsert).2]
    exact nodup_concat h.rolePairs hpair
  | deleteRolePermission l =>
    obtain rfl := Option.some.inj hst
    exact { h with rolePairs := h.rolePairs.sublist (List.filter_sublist.map _) }

/-- Every statement keeps the links in order. -/
theorem LinkInv.apply {w : Statement} (happly : postgres.apply w db = some db') (h : LinkInv db) :
    LinkInv db' := by
  cases w with
  | insertAuditLogEntry entry n =>
    obtain ⟨_, -, -, rfl⟩ := apply_insertAuditLogEntry.mp happly
    exact { h with }
  | hsm statement =>
    obtain ⟨_, -, rfl⟩ := apply_hsm.mp happly
    exact { h with }
  | configuration statement =>
    obtain ⟨_, -, rfl⟩ := apply_configuration.mp happly
    exact { h with }
  | parameter statement =>
    obtain ⟨_, -, rfl⟩ := apply_parameter.mp happly
    exact { h with }
  | account statement =>
    obtain ⟨_, hst, rfl⟩ := apply_account.mp happly
    exact { h with users := fun l hl => apply_user_exists hst (h.users l hl) }
  | anomaly statement =>
    obtain ⟨_, -, rfl⟩ := apply_anomaly.mp happly
    exact { h with }
  | tenancy statement =>
    obtain ⟨_, -, rfl⟩ := apply_tenancy.mp happly
    exact { h with }
  | rbac statement =>
    obtain ⟨_, hst, rfl⟩ := apply_rbac.mp happly
    exact h.rbac hst
  | deleteTenant id =>
    obtain ⟨-, rfl⟩ := apply_deleteTenant.mp happly
    exact { h with }

end

/-! ## Reads

What an operation reads after its commit is always answered. -/

section

variable {durable work : Db} {n : ℕ} {env : RbacEnv}

theorem rolesByUser_wp {userIds : List Uuid}
    {post : Except ServiceError (Uuid → List Role) → Db → Db → ℕ → Prop}
    (h : post (.ok (groupOf (linkedRoles env userIds work.rbac))) durable work n) :
    (rolesByUser env userIds).wp postgres post durable work n := by
  unfold rolesByUser
  split
  · next hnone =>
    have hempty : linkedRoles env userIds work.rbac = [] := by
      simp [linkedRoles, hnone]
    rw [hempty] at h
    exact Request.wp_return h
  · apply (Request.wp_bind ..).mpr
    rw [Request.wp_select]
    exact Request.wp_return h

theorem permissionsByRole_wp {roleIds : List Uuid}
    {post : Except ServiceError (Uuid → List Permission) → Db → Db → ℕ → Prop}
    (h : post (.ok (groupOf (linkedPermissions env roleIds work.rbac))) durable work n) :
    (permissionsByRole env roleIds).wp postgres post durable work n := by
  unfold permissionsByRole
  split
  · next hnone =>
    have hempty : linkedPermissions env roleIds work.rbac = [] := by
      simp [linkedPermissions, hnone]
    rw [hempty] at h
    exact Request.wp_return h
  · apply (Request.wp_bind ..).mpr
    rw [Request.wp_select]
    exact Request.wp_return h

theorem userView_wp {user : User} {post : Except ServiceError RbacUserRead → Db → Db → ℕ → Prop}
    (h : ∀ roles, post (.ok (userToRead user roles)) durable work n) :
    (userView env user).wp postgres post durable work n :=
  (Request.wp_bind ..).mpr (rolesByUser_wp (Request.wp_return (h _)))

theorem roleReadFor_wp {role : Role} {post : Except ServiceError RoleRead → Db → Db → ℕ → Prop}
    (h : ∀ view, post (.ok view) durable work n) :
    (roleReadFor env role).wp postgres post durable work n := by
  apply (Request.wp_bind ..).mpr
  apply permissionsByRole_wp
  apply (Request.wp_bind ..).mpr
  rw [userCountsByRole, Request.wp_select]
  exact Request.wp_return (h _)

theorem roleSummariesForUser_wp {userId : Uuid}
    {post : Except ServiceError (List RoleSummary) → Db → Db → ℕ → Prop}
    (h : ∀ roles, post (.ok roles) durable work n) :
    (roleSummariesForUser env userId).wp postgres post durable work n :=
  (Request.wp_bind ..).mpr (rolesByUser_wp (Request.wp_return (h _)))

end

/-! ## Rejected calls -/

/-- A request that is not answered has left the database. -/
def KeptIfRejected (db : Db) {α : Type} : Except ServiceError α → Db → Db → ℕ → Prop :=
  fun result durable _ _ => ∀ error, result = .error error → durable = db

section

variable {crypto : AuthCrypto} {db work : Db} {n : ℕ} {env : RbacEnv} {α β : Type}

theorem keptIfRejected_ok {value : α} {durable work : Db} {k : ℕ} :
    KeptIfRejected db (.ok value) durable work k := fun _ h => nomatch h

/-- What precedes the commit cannot change the database. -/
theorem rejected_bind {p : Service α} {f : α → Service β} (h : p.NeverCommits)
    (next : ∀ value work' k, (f value).wp postgres (KeptIfRejected db) db work' k) :
    (p >>= f).wp postgres (KeptIfRejected db) db work n :=
  h.wp_bind (fun _ _ _ _ _ => rfl) next

theorem rejected_read {p : Service α} {f : α → Service β} (h : p.ReadsOnly)
    (next : ∀ value work' k, (f value).wp postgres (KeptIfRejected db) db work' k) :
    (p >>= f).wp postgres (KeptIfRejected db) db work n := rejected_bind h.neverCommits next

theorem rejected_send {statements : ℕ → List Statement} {f : Unit → Service β}
    (next : ∀ work' k, (f ()).wp postgres (KeptIfRejected db) db work' k) :
    (Request.send statements >>= f).wp postgres (KeptIfRejected db) db work n :=
  rejected_bind (Request.neverCommits_send _) fun _ => next

theorem rejected_commit {f : Unit → Service β}
    (h : ∀ durable, (f ()).wp postgres (KeptIfRejected db) durable durable n) :
    (Request.commitTransaction >>= f).wp postgres (KeptIfRejected db) db work n :=
  Request.wp_commitTransaction_bind (h work)

theorem getUserOrm_readsOnly (userId : Uuid) : (getUserOrm userId).ReadsOnly :=
  (Request.readsOnly_select _).bind fun _ => found_readsOnly _ _

theorem getRoleOrm_readsOnly (roleId : Uuid) : (getRoleOrm roleId).ReadsOnly :=
  (Request.readsOnly_select _).bind fun _ => found_readsOnly _ _

theorem requestedRoles_readsOnly (roleIds : List Uuid) : (requestedRoles env roleIds).ReadsOnly := by
  unfold requestedRoles
  split
  · trivial
  · apply (Request.readsOnly_select _).bind
    intro roles
    apply (ensure_readsOnly _ _).bind
    intro _
    trivial

theorem validatePermissionIds_readsOnly (permissionIds : List Uuid) :
    (validatePermissionIds env permissionIds).ReadsOnly := by
  unfold validatePermissionIds
  split
  · trivial
  · apply (Request.readsOnly_select _).bind
    intro permissions
    exact ensure_readsOnly _ _

theorem roleByName_readsOnly (name : String) (other : Role → Bool) :
    (roleByName name other).ReadsOnly := by
  apply (ensure_readsOnly _ _).bind
  intro _
  apply (Request.readsOnly_select _).bind
  intro rows
  exact scalarOneOrNone_readsOnly _

theorem checkName_readsOnly (role : Role) (name : Option String) :
    (checkName role name).ReadsOnly := by
  cases name with
  | none => trivial
  | some name =>
    simp only [checkName]
    split
    · trivial
    · apply (roleByName_readsOnly _ _).bind
      intro clash
      exact ensure_readsOnly (clash.isNone = true) _

theorem userRole_readsOnly (userId roleId : Uuid) : (userRole userId roleId).ReadsOnly := by
  apply (getUserOrm_readsOnly _).bind
  intro _
  apply (getRoleOrm_readsOnly _).bind
  intro _
  apply (Request.readsOnly_select _).bind
  intro rows
  exact scalarOneOrNone_readsOnly _

theorem replaceLinks_neverCommits (roleId : Uuid) (save : List Statement)
    (permissionIds : Option (List Uuid)) :
    (replaceLinks env roleId save permissionIds).NeverCommits := by
  cases permissionIds with
  | none => trivial
  | some permissionIds =>
    apply (validatePermissionIds_readsOnly _).neverCommits.bind
    intro _
    apply (Request.readsOnly_select _).neverCommits.bind
    intro links
    exact (Request.neverCommits_send _).bind fun _ => Request.neverCommits_send _

theorem createUser_rejected (payload : RbacUserCreate) :
    (createUser crypto env payload).wp postgres (KeptIfRejected db) db work n := by
  apply rejected_read (ensure_readsOnly _ _)
  intro _ _ _
  apply rejected_read (Request.readsOnly_select _)
  intro rows _ _
  apply rejected_read (scalarOneOrNone_readsOnly rows)
  intro existing _ _
  apply rejected_read (ensure_readsOnly _ _)
  intro _ _ _
  apply rejected_read (found_readsOnly _ _)
  intro hashedPassword _ _
  apply rejected_send
  intro _ _
  apply rejected_read (requestedRoles_readsOnly _)
  intro roles _ _
  apply rejected_send
  intro _ _
  exact rejected_commit fun _ => userView_wp fun _ => keptIfRejected_ok

theorem updateUser_rejected (userId : Uuid) (payload : RbacUserUpdate) :
    (updateUser env userId payload).wp postgres (KeptIfRejected db) db work n := by
  apply rejected_read (getUserOrm_readsOnly _)
  intro user _ _
  apply rejected_send
  intro _ _
  exact rejected_commit fun _ => userView_wp fun _ => keptIfRejected_ok

theorem createRole_rejected (payload : RoleCreate) :
    (createRole env payload).wp postgres (KeptIfRejected db) db work n := by
  apply rejected_read (roleByName_readsOnly _ _)
  intro existing _ _
  apply rejected_read (ensure_readsOnly _ _)
  intro _ _ _
  apply rejected_read (validatePermissionIds_readsOnly _)
  intro _ _ _
  apply rejected_send
  intro _ _
  apply rejected_send
  intro _ _
  exact rejected_commit fun _ => roleReadFor_wp fun _ => keptIfRejected_ok

theorem updateRole_rejected (roleId : Uuid) (payload : RoleUpdate) :
    (updateRole env roleId payload).wp postgres (KeptIfRejected db) db work n := by
  apply rejected_read (getRoleOrm_readsOnly _)
  intro role _ _
  apply rejected_read (checkName_readsOnly _ _)
  intro _ _ _
  apply rejected_bind (replaceLinks_neverCommits _ _ _)
  intro _ _ _
  exact rejected_commit fun _ => roleReadFor_wp fun _ => keptIfRejected_ok

/-- The permission that is read back after the commit is there. -/
theorem createPermission_rejected (payload : PermissionCreate) :
    (createPermission env payload).wp postgres (KeptIfRejected db) db work n := by
  apply rejected_read (ensure_readsOnly _ _)
  intro _ _ _
  apply rejected_read (Request.readsOnly_select _)
  intro rows _ _
  apply rejected_read (scalarOneOrNone_readsOnly rows)
  intro existing _ _
  apply rejected_read (ensure_readsOnly _ _)
  intro _ _ _
  apply (Request.wp_bind ..).mpr
  refine Request.wp_send.mpr ⟨fun _ _ _ => rfl, fun work' hsent => ?_⟩
  apply Request.wp_commitTransaction_bind
  apply (Request.wp_bind ..).mpr
  rw [Request.wp_select]
  apply (Request.wp_bind ..).mpr
  refine wp_found.mpr ⟨fun hnone => ?_, fun row _ => Request.wp_return keptIfRejected_ok⟩
  rw [StatementSemantics.applyAll_singleton] at hsent
  obtain ⟨t, hst, rfl⟩ := apply_rbac.mp hsent
  obtain ⟨p, permissions, hid, hinsert, rfl⟩ := RbacStore.insertPermission_eq_some hst
  have hfind := Table.find?_insert hinsert p.id
  rw [if_pos rfl, hid] at hfind
  exact absurd (hfind.symm.trans hnone) (Option.some_ne_none _)

theorem assignRole_rejected (userId roleId : Uuid) (assignedBy : String) :
    (assignRole env userId roleId assignedBy).wp postgres (KeptIfRejected db) db work n := by
  apply rejected_read (userRole_readsOnly _ _)
  intro existing _ _
  cases existing with
  | some link =>
    simp only [addLink, Request.pure_eq, Request.done_bind]
    exact (Request.wp_bind ..).mpr
      (roleSummariesForUser_wp fun _ => Request.wp_return keptIfRejected_ok)
  | none =>
    simp only [addLink, Request.bind_assoc, Request.pure_eq, Request.done_bind]
    apply rejected_send
    intro _ _
    exact rejected_commit fun _ => (Request.wp_bind ..).mpr
      (roleSummariesForUser_wp fun _ => Request.wp_return keptIfRejected_ok)

theorem removeRole_rejected (userId roleId : Uuid) :
    (removeRole env userId roleId).wp postgres (KeptIfRejected db) db work n := by
  apply rejected_read (userRole_readsOnly _ _)
  intro existing _ _
  apply rejected_read (found_readsOnly _ _)
  intro link _ _
  apply rejected_send
  intro _ _
  exact rejected_commit fun _ => (Request.wp_bind ..).mpr
    (roleSummariesForUser_wp fun _ => Request.wp_return keptIfRejected_ok)

theorem KeptIfRejected.map {f : α → β} {result : Except ServiceError α} {durable work : Db} {k : ℕ}
    (h : KeptIfRejected db result durable work k) :
    KeptIfRejected db (result.map f) durable work k := by
  intro error herror
  cases result with
  | ok value => cases herror
  | error e => exact h e rfl

theorem request_rejected (r : RbacRequest) :
    (r.request crypto).wp postgres (KeptIfRejected db) db work n := by
  cases r with
  | createUser env payload =>
    exact Request.wp_answer (Request.wp_mono (createUser_rejected payload)
      fun _ _ _ _ h => h.map)
  | updateUser env userId payload =>
    exact Request.wp_answer (Request.wp_mono (updateUser_rejected userId payload)
      fun _ _ _ _ h => h.map)
  | createRole env payload =>
    exact Request.wp_answer (Request.wp_mono (createRole_rejected payload)
      fun _ _ _ _ h => h.map)
  | updateRole env roleId payload =>
    exact Request.wp_answer (Request.wp_mono (updateRole_rejected roleId payload)
      fun _ _ _ _ h => h.map)
  | createPermission env payload =>
    exact Request.wp_answer (Request.wp_mono (createPermission_rejected payload)
      fun _ _ _ _ h => h.map)
  | assignRole env userId roleId assignedBy =>
    exact Request.wp_answer (Request.wp_mono (assignRole_rejected userId roleId assignedBy)
      fun _ _ _ _ h => h.map)
  | removeRole env userId roleId =>
    exact Request.wp_answer (Request.wp_mono (removeRole_rejected userId roleId)
      fun _ _ _ _ h => h.map)

end

end NexusEngine.RbacLifecycle
