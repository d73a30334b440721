import NexusEngine.RbacLifecycle

/-!
# Replacing the permissions of a role

An update of a role edits the object first, then checks the permissions, deletes the links and
inserts new ones. Where it goes through, the role has exactly the given permissions, and where a
check fails nothing of the edits is kept.
-/

namespace NexusEngine.RolePermissionSets

open TransactionalRequests KeyedTables StoredColumns RbacTables Database GroupedCounts AuthService
  AuthLifecycle RbacService RbacLifecycle

/-! ## Links -/

section

variable {db : Db} {env : RbacEnv} {roleId : Uuid}

def withLinks (db : Db) (links : Table RolePermission Uuid RolePermission.id) : Db :=
  { db with rbac := { db.rbac with rolePermissions := links } }

def linksOf (roleId : Uuid) (t : RbacStore) : List RolePermission :=
  t.rolePermissions.rows.filter fun l => l.roleId = roleId

theorem apply_deleteRolePermission (l : RolePermission) (db : Db) :
    postgres.apply (.rbac (.deleteRolePermission l)) db =
      some (withLinks db (db.rbac.rolePermissions.delete l.id)) := rfl

/-- Links are deleted by their identifiers. -/
theorem applyAll_deleteLinks (links : List RolePermission) (db : Db) :
    ∃ kept, postgres.applyAll (links.map fun l => .rbac (.deleteRolePermission l)) db =
        some (withLinks db kept) ∧
      kept.rows = db.rbac.rolePermissions.rows.filter fun m => m.id ∉ links.map RolePermission.id := by
  induction links generalizing db with
  | nil => exact ⟨db.rbac.rolePermissions, rfl, by simp⟩
  | cons l links ih =>
    obtain ⟨kept, happly, hrows⟩ := ih (withLinks db (db.rbac.rolePermissions.delete l.id))
    refine ⟨kept, ?_, ?_⟩
    · rw [List.map_cons, StatementSemantics.applyAll_cons, apply_deleteRolePermission,
        Option.bind_some, happly]
      rfl
    · rw [hrows]
      simp only [withLinks, Table.delete, Table.rows_filter, List.filter_filter]
      apply List.filter_congr
      intro m _
      by_cases hlast : m.id = l.id <;> by_cases hrest : m.id ∈ links.map RolePermission.id <;>
        simp [List.map_cons, List.mem_cons, hlast, hrest]

/-- The identifiers of the links from `start` on are new, and no two are the same. -/
structure NewLinks (env : RbacEnv) (start count : ℕ) (links : List RolePermission) : Prop where
  fresh : ∀ i, start ≤ i → i < start + count → env.linkUuid4 i ∉ links.map RolePermission.id
  distinct : ∀ i j, start ≤ i → i < j → j < start + count → env.linkUuid4 i ≠ env.linkUuid4 j

/-- The links that an update inserts. -/
def newLinks (env : RbacEnv) (roleId : Uuid) (start : ℕ) (ids : List Uuid) : List RolePermission :=
  ids.mapIdx fun i id => ⟨env.linkUuid4 (start + i), roleId, id⟩

theorem newLinks_cons (env : RbacEnv) (roleId : Uuid) (start : ℕ) (id : Uuid) (ids : List Uuid) :
    newLinks env roleId start (id :: ids) =
      ⟨env.linkUuid4 start, roleId, id⟩ :: newLinks env roleId (start + 1) ids := by
  simp [newLinks, List.mapIdx_cons, Nat.add_comm, Nat.add_left_comm]

theorem permissionLinks_eq (env : RbacEnv) (roleId : Uuid) (permissionIds : List Uuid) :
    permissionLinks env roleId permissionIds =
      (newLinks env roleId 0 permissionIds.eraseDups).map fun l => .rbac (.insertRolePermission l) := by
  apply List.ext_getElem
  · simp [permissionLinks, newLinks]
  · intro i hi hi'
    simp [permissionLinks, newLinks]

theorem newLinks_permissionId (env : RbacEnv) (roleId : Uuid) (start : ℕ) (ids : List Uuid) :
    (newLinks env roleId start ids).map RolePermission.permissionId = ids := by
  induction ids generalizing start with
  | nil => rfl
  | cons id ids ih => rw [newLinks_cons, List.map_cons, ih]

theorem newLinks_roleId {start : ℕ} {ids : List Uuid} {l : RolePermission}
    (h : l ∈ newLinks env roleId start ids) : l.roleId = roleId := by
  obtain ⟨i, _, rfl⟩ := List.mem_mapIdx.mp h
  rfl

/-- New links of distinct permissions that are there are accepted for a role without any of them. -/
theorem applyAll_insertLinks {start : ℕ} {ids : List Uuid} (hnodup : ids.Nodup)
    (hrole : (db.rbac.roles.find? roleId).isSome = true)
    (hids : ∀ id ∈ ids, (db.rbac.permissions.find? id).isSome = true)
    (hfree : ∀ l ∈ db.rbac.rolePermissions.rows, l.roleId = roleId → l.permissionId ∉ ids)
    (hnew : NewLinks env start ids.length db.rbac.rolePermissions.rows) :
    ∃ links, postgres.applyAll ((newLinks env roleId start ids).map fun l =>
        .rbac (.insertRolePermission l)) db = some (withLinks db links) ∧
      links.rows = db.rbac.rolePermissions.rows ++ newLinks env roleId start ids := by
  induction ids generalizing start db with
  | nil => exact ⟨db.rbac.rolePermissions, rfl, by simp [newLinks]⟩
  | cons id ids ih =>
    obtain ⟨hid, hnodup⟩ := List.nodup_cons.mp hnodup
    have hcount : start < start + (id :: ids).length := by
      rw [List.length_cons]
      omega
    have hfind : db.rbac.rolePermissions.find? (env.linkUuid4 start) = none := by
      apply Table.find?_eq_none.mpr
      intro l hl hlid
      exact hnew.fresh start le_rfl hcount (hlid ▸ List.mem_map_of_mem hl)
    obtain ⟨inserted, hinserted⟩ : ∃ inserted, db.rbac.rolePermissions.insert
        ⟨env.linkUuid4 start, roleId, id⟩ = some inserted := Table.insert_isSome hfind
    have hrows := (Table.insert_eq_some.mp hinserted).2
    have hinsert : postgres.apply
        (.rbac (.insertRolePermission ⟨env.linkUuid4 start, roleId, id⟩)) db =
          some (withLinks db inserted) := by
      apply apply_rbac.mpr
      refine ⟨_, RbacStore.insertRolePermission_eq_some.mpr ⟨inserted, ?_, hrole,
        hids id List.mem_cons_self, hinserted, rfl⟩, rfl⟩
      intro m hm hpair
      have hpair' := Prod.mk.inj hpair
      exact hfree m hm hpair'.1 (hpair'.2 ▸ List.mem_cons_self)
    have hfree' : ∀ l ∈ inserted.rows, l.roleId = roleId → l.permissionId ∉ ids := by
      intro l hl hlrole hmem
      rw [hrows, List.mem_append, List.mem_singleton] at hl
      rcases hl with hl | rfl
      · exact hfree l hl hlrole (List.mem_cons_of_mem id hmem)
      · exact hid hmem
    have hnew' : NewLinks env (start + 1) ids.length inserted.rows := by
      rw [List.length_cons] at hnew
      constructor
      · intro i hi hlast hmem
        rw [hrows, List.map_append, List.mem_append] at hmem
        rcases hmem with hmem | hmem
        · exact hnew.fresh i (by omega) (by omega) hmem
        · exact hnew.distinct start i le_rfl (by omega) (by omega) (List.mem_singleton.mp hmem).symm
      · intro i j hi hij hlast
        exact hnew.distinct i j (by omega) hij (by omega)
    obtain ⟨links, happly, hlinks⟩ : ∃ links, postgres.applyAll
        ((newLinks env roleId (start + 1) ids).map fun l => .rbac (.insertRolePermission l))
          (withLinks db inserted) = some (withLinks db links) ∧
        links.rows = inserted.rows ++ newLinks env roleId (start + 1) ids :=
      ih hnodup hrole (fun id' hid' => hids id' (List.mem_cons_of_mem id hid')) hfree' hnew'
    refine ⟨links, ?_, ?_⟩
    · rw [newLinks_cons, List.map_cons, StatementSemantics.applyAll_cons, hinsert,
        Option.bind_some, happly]
    · rw [hlinks, newLinks_cons, hrows, List.append_assoc, List.singleton_append]

end

/-! ## The role itself -/

section

variable {db : Db} {env : RbacEnv} {roleId : Uuid} {role : Role} {payload : RoleUpdate} {n : ℕ}

def withRoles (db : Db) (roles : Table Role Uuid Role.id) : Db :=
  { db with rbac := { db.rbac with roles := roles } }

/-- The texts that change have no NUL character. -/
structure Textual (role : Role) (payload : RoleUpdate) : Prop where
  name : ∀ name, payload.name = some name → name = role.name ∨ text name = some name
  description : ∀ d, payload.description = some d → some d = role.description ∨ text d = some d

/-- The given name is a new one, and a role has it. -/
def NameTaken (db : Db) (role : Role) (payload : RoleUpdate) : Prop :=
  ∃ name, payload.name = some name ∧ name ≠ role.name ∧ ∃ r ∈ db.rbac.roles.rows, r.name = name

theorem name_bound (h : Textual role payload) :
    nullable (varchar 80) (role.diff (updatedRole role payload)).name =
      some (role.diff (updatedRole role payload)).name := by
  simp only [Role.diff, updatedRole]
  cases hname : payload.name with
  | none => simp [changed, nullable]
  | some name =>
    by_cases hsame : role.name = name
    · simp [changed, nullable, hsame]
    · rcases h.name name hname with heq | htext
      · exact absurd heq.symm hsame
      · have hstored := varchar_of_text htext (payload.name_max name hname)
        simp [changed, nullable, hsame, hstored]

theorem description_bound_iff :
    nullable (nullable text) (role.diff (updatedRole role payload)).description =
        some (role.diff (updatedRole role payload)).description ↔
      ∀ d, payload.description = some d → some d = role.description ∨ text d = some d := by
  simp only [Role.diff, updatedRole]
  cases hdescription : payload.description with
  | none => simp [changed, nullable]
  | some d =>
    by_cases hsame : role.description = some d
    · simp [changed, nullable, hsame]
    · have hne : some d ≠ role.description := Ne.symm hsame
      cases htext : text d <;> simp [changed, nullable, hsame, hne, htext]

theorem diff_apply (role : Role) (payload : RoleUpdate) :
    (role.diff (updatedRole role payload)).apply role = updatedRole role payload := by
  simp [RolePatch.apply, Role.diff, updatedRole]

/-- Saving the role sets its columns, where the texts can be stored. -/
theorem saveRole_accepts (hfind : db.rbac.roles.find? roleId = some role)
    (hfree : ¬ NameTaken db role payload) (htext : Textual role payload) :
    ∃ roles, postgres.applyAll (saveRole role (updatedRole role payload)) db =
        some (withRoles db roles) ∧
      ∀ k, roles.find? k =
        if k = roleId then some (updatedRole role payload) else db.rbac.roles.find? k := by
  obtain ⟨hmem, hid⟩ := Table.find?_eq_some.mp hfind
  unfold saveRole
  split
  · next hsame =>
    refine ⟨db.rbac.roles, rfl, fun k => ?_⟩
    by_cases hk : k = roleId
    · rw [if_pos hk, hk, hfind, ← hsame]
    · rw [if_neg hk]
  · have hupdate : ∃ roles, db.rbac.roles.update role.id
        (role.diff (updatedRole role payload)).apply (fun _ => rfl) = some roles :=
      Table.update_isSome (hid ▸ hfind)
    obtain ⟨roles, hroles⟩ := hupdate
    have hunique : (db.rbac.roles.rows.any fun r => r.id != role.id &&
        (role.diff (updatedRole role payload)).name == some r.name) = false := by
      apply List.any_eq_false.mpr
      intro r hr hclash
      simp only [Bool.and_eq_true, bne_iff_ne, beq_iff_eq, Role.diff, updatedRole] at hclash
      obtain ⟨hother, hname⟩ := hclash
      cases hgiven : payload.name with
      | none => simp [hgiven, changed] at hname
      | some name =>
        simp only [hgiven, Option.getD_some, changed] at hname
        split at hname
        · cases hname
        · next hsame =>
          exact hfree ⟨name, hgiven, Ne.symm hsame, r, hr, (Option.some.inj hname).symm⟩
    have happly : db.rbac.updateRole role.id (role.diff (updatedRole role payload)) =
        some { db.rbac with roles := roles } := by
      simp only [RbacStore.updateRole, name_bound htext, description_bound_iff.mpr htext.description,
        Option.bind_eq_bind, Option.bind_some, hunique, Bool.false_eq_true, if_false, hroles]
      rfl
    refine ⟨roles, ?_, fun k => ?_⟩
    · rw [StatementSemantics.applyAll_singleton]
      exact apply_rbac.mpr ⟨_, happly, rfl⟩
    · have hown : db.rbac.roles.find? role.id = some role := hid ▸ hfind
      rw [Table.find?_update_of_find? hroles hown k, diff_apply, hid]

/-- A new description with a NUL character is rejected. -/
theorem saveRole_rejects {rest : List Statement}
    (h : ¬ ∀ d, payload.description = some d → some d = role.description ∨ text d = some d) :
    postgres.applyAll (saveRole role (updatedRole role payload) ++ rest) db = none := by
  push Not at h
  obtain ⟨d, hgiven, hnew, htext⟩ := h
  have hrefused : text d = none := by
    cases ht : text d with
    | none => rfl
    | some t => exact absurd (text_eq_some ht ▸ ht) htext
  have hchanged : role ≠ updatedRole role payload := by
    intro hsame
    have hdescription := congrArg Role.description hsame
    rw [updatedRole, hgiven] at hdescription
    exact hnew hdescription.symm
  have hpatch : (role.diff (updatedRole role payload)).description = some (some d) := by
    simp [Role.diff, updatedRole, hgiven, changed, Ne.symm hnew]
  have hupdate : db.rbac.updateRole role.id (role.diff (updatedRole role payload)) = none := by
    simp [RbacStore.updateRole, hpatch, nullable, hrefused]
  have happly : postgres.apply
      (.rbac (.updateRole role.id (role.diff (updatedRole role payload)))) db = none := by
    cases hresult : postgres.apply
        (.rbac (.updateRole role.id (role.diff (updatedRole role payload)))) db with
    | none => rfl
    | some db' =>
      obtain ⟨t, hstatement, -⟩ := apply_rbac.mp hresult
      cases hupdate.symm.trans hstatement
  rw [saveRole, if_neg hchanged, List.singleton_append, StatementSemantics.applyAll_cons, happly,
    Option.bind_none]

end

/-! ## The checks -/

section

variable {durable work db : Db} {env : RbacEnv} {roleId : Uuid} {role : Role}
  {payload : RoleUpdate} {n : ℕ} {post : Except ServiceError Unit → Db → Db → ℕ → Prop}

/-- The name passes where it is not taken and, if it is new, has no NUL character. -/
theorem checkName_wp (hfind : work.rbac.roles.find? roleId = some role)
    (rejected : (∃ name, payload.name = some name ∧ name ≠ role.name ∧ text name ≠ some name) →
      ∀ error, post (.error error) durable work n)
    (taken : NameTaken work role payload → ∀ error, post (.error error) durable work n)
    (passes : (∀ name, payload.name = some name → name = role.name ∨ text name = some name) →
      ¬ NameTaken work role payload → post (.ok ()) durable work n) :
    (checkName role payload.name).wp postgres post durable work n := by
  cases hgiven : payload.name with
  | none =>
    refine Request.wp_return (passes (fun _ h => ?_) ?_)
    · cases hgiven.symm.trans h
    · rintro ⟨_, h, -⟩
      cases hgiven.symm.trans h
  | some name =>
    have hsome : ∀ name', payload.name = some name' → name' = name :=
      fun _ h => (Option.some.inj (hgiven.symm.trans h)).symm
    simp only [checkName]
    split
    · next hsame =>
      refine Request.wp_return (passes (fun name' h => .inl (hsome name' h ▸ hsame)) ?_)
      rintro ⟨name', h, hnew, -⟩
      exact hnew (hsome name' h ▸ hsame)
    · next hnew =>
      simp only [roleByName, Request.bind_assoc]
      apply (Request.wp_bind ..).mpr
      refine wp_ensure.mpr ⟨fun hnul => rejected ⟨name, hgiven, hnew, ?_⟩ _, fun hsent => ?_⟩
      · intro htext
        exact hnul (by rw [htext, Option.isSome_some])
      have htext : text name = some name := by
        obtain ⟨t, ht⟩ := Option.isSome_iff_exists.mp hsent
        rwa [text_eq_some ht] at ht
      apply (Request.wp_bind ..).mpr
      rw [Request.wp_select]
      have hclash : ∀ r, r ∈ (work.rbac.roles.rows.filter fun r => r.name = name && r.id ≠ role.id) ↔
          r ∈ work.rbac.roles.rows ∧ r.name = name := by
        intro r
        simp only [List.mem_filter, Bool.and_eq_true, decide_eq_true_eq]
        constructor
        · rintro ⟨hr, hname, -⟩
          exact ⟨hr, hname⟩
        · rintro ⟨hr, hname⟩
          refine ⟨hr, hname, fun hid => hnew ?_⟩
          have hrole := Table.find?_of_mem hr
          rw [hid, (Table.find?_eq_some.mp hfind).2, hfind] at hrole
          rw [Option.some.inj hrole, hname]
      have htaken : ∀ r ∈ (work.rbac.roles.rows.filter fun r => r.name = name && r.id ≠ role.id),
          NameTaken work role payload := by
        intro r hr
        exact ⟨name, hgiven, hnew, r, (hclash r).mp hr⟩
      generalize hrows : (work.rbac.roles.rows.filter fun r => r.name = name && r.id ≠ role.id) = rows
        at hclash htaken
      apply (Request.wp_bind ..).mpr
      apply scalarOneOrNone_wp
      · intro hseveral
        cases rows with
        | nil => exact absurd (Nat.zero_le 1) hseveral
        | cons r rest => exact taken (htaken r List.mem_cons_self) _
      · intro _
        cases rows with
        | nil =>
          apply ensure_answers rfl
          refine passes (fun name' h => .inr (hsome name' h ▸ htext)) ?_
          rintro ⟨name', h, -, r, hr, hname⟩
          cases (hclash r).mpr ⟨hr, hsome name' h ▸ hname⟩
        | cons r rest =>
          refine wp_ensure.mpr ⟨fun _ => taken (htaken r List.mem_cons_self) _, fun hnone => ?_⟩
          cases hnone

/-- The permissions pass where all of them are there. -/
theorem validatePermissionIds_wp {permissionIds : List Uuid}
    (unknown : (∃ id ∈ permissionIds, work.rbac.permissions.find? id = none) →
      ∀ error, post (.error error) durable work n)
    (passes : (∀ id ∈ permissionIds, (work.rbac.permissions.find? id).isSome = true) →
      post (.ok ()) durable work n) :
    (validatePermissionIds env permissionIds).wp postgres post durable work n := by
  unfold validatePermissionIds
  split
  · next hnone =>
    apply Request.wp_return
    apply passes
    simp [hnone]
  · apply (Request.wp_bind ..).mpr
    rw [Request.wp_select]
    have hfound : ∀ id ∈ permissionIds,
        (id ∈ ((work.rbac.permissions.scan env.rowOrder).filter fun p => p.id ∈ permissionIds).map
          Permission.id ↔ (work.rbac.permissions.find? id).isSome = true) := by
      intro id hid
      rw [Table.isSome_find?]
      simp only [List.mem_map, List.mem_filter, Table.mem_scan, decide_eq_true_eq]
      constructor
      · rintro ⟨p, hp, hpid⟩
        exact ⟨p, hp.1, hpid⟩
      · rintro ⟨p, hp, hpid⟩
        exact ⟨p, ⟨hp, hpid ▸ hid⟩, hpid⟩
    refine wp_ensure.mpr ⟨fun hmissing => unknown ?_ _, fun hmissing => passes fun id hid => ?_⟩
    · obtain ⟨id, hmem⟩ := List.exists_mem_of_ne_nil _ hmissing
      obtain ⟨hid, hnot⟩ := List.mem_filter.mp hmem
      rw [decide_eq_true_eq, hfound id hid] at hnot
      exact ⟨id, hid, by simpa using hnot⟩
    · have hnot := List.filter_eq_nil_iff.mp hmissing id hid
      rw [decide_eq_true_eq, not_not] at hnot
      exact (hfound id hid).mp hnot

end

/-! ## The update -/

/-- The role has its new columns and the permissions of the list, one link for each, and nothing
else has changed. -/
structure RoleReplaced (db : Db) (roleId : Uuid) (role : Role) (payload : RoleUpdate)
    (permissionIds : List Uuid) (db' : Db) : Prop where
  roles : ∀ k, db'.rbac.roles.find? k =
    if k = roleId then some (updatedRole role payload) else db.rbac.roles.find? k
  permissions : ∀ id, id ∈ (linksOf roleId db'.rbac).map RolePermission.permissionId ↔
    id ∈ permissionIds
  once : ((linksOf roleId db'.rbac).map RolePermission.permissionId).Nodup
  otherLinks : (db'.rbac.rolePermissions.rows.filter fun l => l.roleId ≠ roleId) =
    db.rbac.rolePermissions.rows.filter fun l => l.roleId ≠ roleId
  others : db' = { db with rbac := { db.rbac with
    roles := db'.rbac.roles, rolePermissions := db'.rbac.rolePermissions } }

section

variable {durable db : Db} {env : RbacEnv} {roleId : Uuid} {role : Role} {payload : RoleUpdate}
  {permissionIds : List Uuid} {n : ℕ}

/-- The rows after the deletion of the old links and the insertion of new ones. -/
theorem roleReplaced {roles : Table Role Uuid Role.id}
    {links : Table RolePermission Uuid RolePermission.id}
    (hroles : ∀ k, roles.find? k =
      if k = roleId then some (updatedRole role payload) else db.rbac.roles.find? k)
    (hlinks : links.rows = (db.rbac.rolePermissions.rows.filter fun l => l.roleId ≠ roleId) ++
      newLinks env roleId 0 permissionIds.eraseDups) :
    RoleReplaced db roleId role payload permissionIds (withLinks (withRoles db roles) links) := by
  have hold : ((db.rbac.rolePermissions.rows.filter fun l => l.roleId ≠ roleId).filter
      fun l => l.roleId = roleId) = [] := by
    apply List.filter_eq_nil_iff.mpr
    intro l hl
    simpa using (List.mem_filter.mp hl).2
  have hnew : ((newLinks env roleId 0 permissionIds.eraseDups).filter fun l => l.roleId = roleId) =
      newLinks env roleId 0 permissionIds.eraseDups := by
    apply List.filter_eq_self.mpr
    intro l hl
    simpa using newLinks_roleId hl
  have hof : linksOf roleId (withLinks (withRoles db roles) links).rbac =
      newLinks env roleId 0 permissionIds.eraseDups := by
    show (links.rows.filter fun l => l.roleId = roleId) = _
    rw [hlinks, List.filter_append, hold, hnew, List.nil_append]
  have hother : ((newLinks env roleId 0 permissionIds.eraseDups).filter
      fun l => l.roleId ≠ roleId) = [] := by
    apply List.filter_eq_nil_iff.mpr
    intro l hl
    simpa using newLinks_roleId hl
  refine ⟨hroles, fun id => ?_, ?_, ?_, rfl⟩
  · rw [hof, newLinks_permissionId, List.mem_eraseDups]
  · rw [hof, newLinks_permissionId]
    exact nodup_eraseDups _
  · show (links.rows.filter fun l => l.roleId ≠ roleId) = _
    rw [hlinks, List.filter_append, hother, List.append_nil, List.filter_filter]
    simp

/-- The links of the role are those that the deletion names. -/
theorem kept_links (env : RbacEnv) (roleId : Uuid) (t : RbacStore) :
    (t.rolePermissions.rows.filter fun m => m.id ∉ ((t.rolePermissions.scan env.rowOrder).filter
      fun l => l.roleId = roleId).map RolePermission.id) =
      t.rolePermissions.rows.filter fun l => l.roleId ≠ roleId := by
  apply List.filter_congr
  intro m hm
  have hmem : m.id ∈ ((t.rolePermissions.scan env.rowOrder).filter
      fun l => l.roleId = roleId).map RolePermission.id ↔ m.roleId = roleId := by
    simp only [List.mem_map, List.mem_filter, Table.mem_scan, decide_eq_true_eq]
    constructor
    · rintro ⟨l, ⟨hl, hrole⟩, hid⟩
      have hsame := Table.find?_of_mem hl
      rw [hid, Table.find?_of_mem hm] at hsame
      rw [Option.some.inj hsame, hrole]
    · exact fun hrole => ⟨m, ⟨hm, hrole⟩, rfl⟩
  rw [decide_eq_decide, not_congr hmem]

/-- How the replacement of the links ends where the name has passed. -/
theorem replaceLinks_wp {post : Except ServiceError Unit → Db → Db → ℕ → Prop}
    (hfind : db.rbac.roles.find? roleId = some role)
    (hnew : NewLinks env 0 permissionIds.eraseDups.length db.rbac.rolePermissions.rows)
    (hfree : ¬ NameTaken db role payload)
    (hname : ∀ name, payload.name = some name → name = role.name ∨ text name = some name)
    (unknown : (∃ id ∈ permissionIds, db.rbac.permissions.find? id = none) →
      ∀ error, post (.error error) durable db n)
    (rejected : ¬ Textual role payload → ∀ error work k, post (.error error) durable work k)
    (replaced : (∀ id ∈ permissionIds, (db.rbac.permissions.find? id).isSome = true) →
      Textual role payload → ∀ db' k, RoleReplaced db roleId role payload permissionIds db' →
        post (.ok ()) durable db' k) :
    (replaceLinks env roleId (saveRole role (updatedRole role payload))
      (some permissionIds)).wp postgres post durable db n := by
  apply (Request.wp_bind ..).mpr
  refine validatePermissionIds_wp (fun hunknown => unknown hunknown) fun hknown => ?_
  apply (Request.wp_bind ..).mpr
  rw [Request.wp_select]
  apply (Request.wp_bind ..).mpr
  by_cases hdescription : ∀ d, payload.description = some d →
      some d = role.description ∨ text d = some d
  · have htextual : Textual role payload := ⟨hname, hdescription⟩
    obtain ⟨roles, hsave, hroles⟩ := saveRole_accepts hfind hfree htextual
    obtain ⟨kept, hdelete, hkept⟩ := applyAll_deleteLinks
      ((db.rbac.rolePermissions.scan env.rowOrder).filter fun l => l.roleId = roleId)
      (withRoles db roles)
    have hkeptRows : kept.rows = db.rbac.rolePermissions.rows.filter fun l => l.roleId ≠ roleId :=
      hkept.trans (kept_links env roleId db.rbac)
    have hsent : postgres.applyAll (saveRole role (updatedRole role payload) ++
        ((db.rbac.rolePermissions.scan env.rowOrder).filter fun l => l.roleId = roleId).map
          fun l => .rbac (.deleteRolePermission l)) db =
        some (withLinks (withRoles db roles) kept) := by
      rw [StatementSemantics.applyAll_append, hsave, Option.bind_some, hdelete]
    apply Request.wp_send_of_some hsent
    have hrole : ((withLinks (withRoles db roles) kept).rbac.roles.find? roleId).isSome = true := by
      show (roles.find? roleId).isSome = true
      rw [hroles, if_pos rfl, Option.isSome_some]
    have hnone : ∀ l ∈ kept.rows, l.roleId = roleId → l.permissionId ∉ permissionIds.eraseDups := by
      intro l hl hlrole
      rw [hkeptRows] at hl
      exact absurd hlrole (of_decide_eq_true (List.mem_filter.mp hl).2)
    have hnew' : NewLinks env 0 permissionIds.eraseDups.length kept.rows := by
      refine ⟨fun i hi hlast hmem => hnew.fresh i hi hlast ?_, hnew.distinct⟩
      rw [hkeptRows] at hmem
      exact (List.filter_sublist.map _).subset hmem
    obtain ⟨links, hinsert, hlinks⟩ : ∃ links, postgres.applyAll
        ((newLinks env roleId 0 permissionIds.eraseDups).map fun l =>
          .rbac (.insertRolePermission l)) (withLinks (withRoles db roles) kept) =
            some (withLinks (withLinks (withRoles db roles) kept) links) ∧
        links.rows = kept.rows ++ newLinks env roleId 0 permissionIds.eraseDups :=
      applyAll_insertLinks (nodup_eraseDups permissionIds) hrole
        (fun id hid => hknown id (List.mem_eraseDups.mp hid)) hnone hnew'
    rw [permissionLinks_eq]
    apply Request.wp_send_of_some hinsert
    apply replaced hknown htextual
    apply roleReplaced hroles
    rw [hlinks, hkeptRows]
  · refine Request.wp_send.mpr ⟨fun _ => rejected (fun h => hdescription h.description) _ _ _,
      fun work' hsent => ?_⟩
    cases (saveRole_rejects hdescription).symm.trans hsent

/-- How an update with permissions ends. -/
theorem updateRole_ends (hfind : db.rbac.roles.find? roleId = some role)
    (hgiven : payload.permissionIds = some permissionIds)
    (hnew : NewLinks env 0 permissionIds.eraseDups.length db.rbac.rolePermissions.rows) :
    (updateRole env roleId payload).wp postgres
      (fun result durable _ _ =>
        match result with
        | .ok _ => (∀ id ∈ permissionIds, (db.rbac.permissions.find? id).isSome = true) ∧
            ¬ NameTaken db role payload ∧ Textual role payload ∧
            RoleReplaced db roleId role payload permissionIds durable
        | .error _ => (∃ id ∈ permissionIds, db.rbac.permissions.find? id = none) ∨
            NameTaken db role payload ∨ ¬ Textual role payload) db db n := by
  have hid : role.id = roleId := (Table.find?_eq_some.mp hfind).2
  simp only [updateRole, getRoleOrm, Request.bind_assoc]
  apply (Request.wp_bind ..).mpr
  rw [Request.wp_select]
  apply (Request.wp_bind ..).mpr
  refine wp_found_of_some hfind ?_
  apply (Request.wp_bind ..).mpr
  apply checkName_wp hfind
  · rintro ⟨name, hname, hchanged, htext⟩ error
    refine .inr (.inr fun h => ?_)
    rcases h.name name hname with hsame | hstored
    · exact hchanged hsame
    · exact htext hstored
  · intro htaken error
    exact .inr (.inl htaken)
  · intro hname hfree
    rw [hid, hgiven]
    apply (Request.wp_bind ..).mpr
    apply replaceLinks_wp hfind hnew hfree hname
    · intro hunknown error
      exact .inl hunknown
    · intro htextual error work k
      exact .inr (.inr htextual)
    · intro hknown htextual db' k hreplaced
      apply Request.wp_commitTransaction_bind
      apply roleReadFor_wp
      intro view
      exact ⟨hknown, hfree, htextual, hreplaced⟩

end

/-- An update with known permissions and a name that is free gives the role exactly these, and
changes nothing else, if and only if no changed text has a NUL character. In every other case the
database keeps its state. -/
theorem permissions_replaced {env : RbacEnv} {s : Store Db} {roleId : Uuid} {role : Role}
    {payload : RoleUpdate} {permissionIds : List Uuid}
    (hfind : s.db.rbac.roles.find? roleId = some role)
    (hgiven : payload.permissionIds = some permissionIds)
    (hnew : NewLinks env 0 permissionIds.eraseDups.length s.db.rbac.rolePermissions.rows) :
    ((∀ id ∈ permissionIds, (s.db.rbac.permissions.find? id).isSome = true) →
      ¬ NameTaken s.db role payload →
        ((Answered (updateRole env roleId payload) s ∧
            RoleReplaced s.db roleId role payload permissionIds
              (s.exec postgres (updateRole env roleId payload)).db) ↔ Textual role payload)) ∧
    ((∃ id ∈ permissionIds, s.db.rbac.permissions.find? id = none) ∨ NameTaken s.db role payload ∨
      ¬ Textual role payload → ¬ Answered (updateRole env roleId payload) s ∧
        (s.exec postgres (updateRole env roleId payload)).db = s.db) := by
  have hwp : (updateRole env roleId payload).wp postgres _ s.db s.db s.sequence :=
    updateRole_ends hfind hgiven hnew
  have hrejected : (updateRole env roleId payload).wp postgres (KeptIfRejected s.db) s.db s.db
      s.sequence := updateRole_rejected roleId payload
  obtain ⟨_, hends⟩ := Request.serial_sound hwp
  obtain ⟨_, hkept⟩ := Request.serial_sound hrejected
  unfold Answered
  cases hresult : ((updateRole env roleId payload).serial postgres s.db s.db s.sequence).result with
  | ok view =>
    rw [hresult] at hends
    obtain ⟨hknown, hfree, htextual, hreplaced⟩ := hends
    constructor
    · intro _ _
      exact ⟨fun _ => htextual, fun _ => ⟨⟨view, rfl⟩, hreplaced⟩⟩
    · rintro (⟨id, hid, hnone⟩ | htaken | hnot)
      · have hsome := hknown id hid
        rw [hnone] at hsome
        cases hsome
      · exact absurd htaken hfree
      · exact absurd htextual hnot
  | error error =>
    rw [hresult] at hends
    have hnone : ¬ ∃ view, (Except.error error : Except ServiceError RoleRead) = .ok view := by
      rintro ⟨_, h⟩
      cases h
    constructor
    · intro hknown hfree
      constructor
      · exact fun h => absurd h.1 hnone
      · intro htextual
        rcases hends with ⟨id, hid, hunknown⟩ | htaken | hnot
        · have hsome := hknown id hid
          rw [hunknown] at hsome
          cases hsome
        · exact absurd htaken hfree
        · exact absurd htextual hnot
    · intro _
      exact ⟨hnone, hkept error hresult⟩

/-! ## A sample role -/

def sampleRoleEnv : RbacEnv where
  uuid4 := 20
  linkUuid4 i := 100 + i
  salt := 0
  createdAt := 63839664000000000
  rowOrder a b := decide (a ≤ b)
  collate a b := decide (a ≤ b)

def samplePermission (id : Uuid) (action : String) : Permission where
  id := id
  name := "key:" ++ action
  description := none
  resource := "key"
  action := action

def sampleRole : Role where
  id := 1
  name := "Operators"
  description := some "Turns the keys"
  isActive := true
  createdAt := 63839664000000000

/-- A role with two permissions of three. -/
def sampleRoles : Store Db where
  db := { emptyDb with rbac := { RbacStore.empty with
    roles := ⟨[sampleRole], by decide⟩
    permissions := ⟨[samplePermission 11 "read", samplePermission 12 "rotate",
      samplePermission 13 "disable"], by decide⟩
    rolePermissions := ⟨[⟨31, 1, 11⟩, ⟨32, 1, 12⟩], by decide⟩ } }
  sequence := 1

def sampleRoleUpdate (name : String) (hname : name.toList.length = 8 := by decide) : RoleUpdate where
  name := some name
  name_min := by simp [hname]
  name_max := by simp [hname]
  description_max := by simp
  permissionIds := some [13, 12, 13]

theorem sampleRoles_free {name : String} (hname : name.toList.length = 8) :
    ¬ NameTaken sampleRoles.db sampleRole (sampleRoleUpdate name hname) := by
  rintro ⟨name', hgiven, -, r, hr, rfl⟩
  obtain rfl : r = sampleRole := List.mem_singleton.mp hr
  obtain rfl : name = "Operators" := Option.some.inj hgiven
  exact absurd hname (by decide)

/-- The role is renamed and gets a permission that it did not have, which is given twice. -/
theorem permissions_replaced_sample :
    Answered (updateRole sampleRoleEnv 1 (sampleRoleUpdate "Auditors")) sampleRoles ∧
      RoleReplaced sampleRoles.db 1 sampleRole (sampleRoleUpdate "Auditors") [13, 12, 13]
        (sampleRoles.exec postgres
          (updateRole sampleRoleEnv 1 (sampleRoleUpdate "Auditors"))).db := by
  have hnew : NewLinks sampleRoleEnv 0 2 [⟨31, 1, 11⟩, ⟨32, 1, 12⟩] := by
    constructor
    · intro i _ _ hmem
      have hold : ∀ id ∈ [31, 32], id < 100 := by decide
      have hsmall : 100 + i < 100 := hold (100 + i) hmem
      omega
    · intro i j _ hij _ heq
      have hsame : i = j := Nat.add_left_cancel heq
      omega
  refine ((permissions_replaced rfl rfl hnew).1 (by decide) (sampleRoles_free _)).mpr
    ⟨fun name hname => .inr ?_, fun d hd => nomatch hd⟩
  obtain rfl : "Auditors" = name := Option.some.inj hname
  decide

/-- The schema takes a name with a NUL character, and the database does not. -/
theorem nul_name_refused :
    (∀ id ∈ [13, 12, 13], (sampleRoles.db.rbac.permissions.find? id).isSome = true) ∧
      ¬ NameTaken sampleRoles.db sampleRole (sampleRoleUpdate "Aud\x00tors") ∧
      ¬ Answered (updateRole sampleRoleEnv 1 (sampleRoleUpdate "Aud\x00tors")) sampleRoles ∧
      ∃ role, (sampleRoles.exec postgres (updateRole sampleRoleEnv 1
          (sampleRoleUpdate "Aud\x00tors"))).db.rbac.roles.find? 1 = some role ∧
        role.name ≠ "Aud\x00tors" := by
  refine ⟨by decide, sampleRoles_free _, ?_, sampleRole, by decide, by decide⟩
  have hrejected : ((updateRole sampleRoleEnv 1 (sampleRoleUpdate "Aud\x00tors")).serial postgres
      sampleRoles.db sampleRoles.db 1).result = .error .rejected := by decide
  rintro ⟨view, hview⟩
  cases hrejected.symm.trans hview

end NexusEngine.RolePermissionSets
