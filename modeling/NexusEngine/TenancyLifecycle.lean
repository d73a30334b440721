import NexusEngine.TenancyService

/-!
# What the requests of the tenancy service do

A tenant is inserted with its provisioning job. A change replaces one tenant, a step of a job
replaces the job and, if it is the last one, the status of its tenant. A delete takes the tenant away with all that
belongs to it, or is stopped by a row of the audit log that refers to the tenant.
-/

namespace NexusEngine.TenancyLifecycle

open TransactionalRequests StoredColumns KeyedTables TenancyTables AnomalyTables Database
  TenancyService

/-! ## Deletes of single rows -/

theorem filter_delete {Row : Type} {key : Row → Uuid} {t : Table Row Uuid key} {k : Uuid}
    {p : Row → Bool} (h : ∀ r ∈ t.rows, key r = k → p r = false) :
    (t.delete k).filter p = t.filter p := by
  refine Table.ext ?_
  rw [Table.rows_filter, Table.delete, Table.rows_filter, List.filter_filter]
  refine List.filter_congr fun r hr => ?_
  by_cases hk : key r = k
  · simp [hk, h r hr hk]
  · simp [hk]

/-- The statement deletes a row that belongs to the tenant, where there is one. -/
def DeletesChild (tenantId : Uuid) (s : TenancyStore) : Statement → Prop
  | .tenancy (.deleteProvisioningJob id) =>
    ∀ j ∈ s.provisioningJobs.rows, j.id = id → j.tenantId = tenantId
  | .tenancy (.deleteMembership id) => ∀ m ∈ s.memberships.rows, m.id = id → m.tenantId = tenantId
  | .tenancy (.deleteSchemaValidation id) =>
    ∀ v ∈ s.schemaValidations.rows, v.id = id → v.tenantId = tenantId
  | .tenancy (.deleteBackupSnapshot id) =>
    ∀ b ∈ s.backupSnapshots.rows, b.id = id → b.tenantId = tenantId
  | _ => False

/-- A store that has lost rows of the tenant and nothing else. -/
structure Shrinks (tenantId : Uuid) (s s' : TenancyStore) : Prop where
  deleted : s'.deleteTenant tenantId = s.deleteTenant tenantId
  provisioningJobs : s'.provisioningJobs.rows ⊆ s.provisioningJobs.rows
  memberships : s'.memberships.rows ⊆ s.memberships.rows
  schemaValidations : s'.schemaValidations.rows ⊆ s.schemaValidations.rows
  backupSnapshots : s'.backupSnapshots.rows ⊆ s.backupSnapshots.rows

theorem Shrinks.child {tenantId : Uuid} {s s' : TenancyStore} (h : Shrinks tenantId s s')
    {w : Statement} (hw : DeletesChild tenantId s w) : DeletesChild tenantId s' w := by
  unfold DeletesChild at hw ⊢
  split at hw
  · exact fun j hj => hw j (h.provisioningJobs hj)
  · exact fun m hm => hw m (h.memberships hm)
  · exact fun v hv => hw v (h.schemaValidations hv)
  · exact fun b hb => hw b (h.backupSnapshots hb)
  · exact hw.elim

theorem rows_delete_subset {Row : Type} {key : Row → Uuid} (t : Table Row Uuid key) (k : Uuid) :
    (t.delete k).rows ⊆ t.rows := List.filter_subset_self _

theorem apply_deletesChild {tenantId : Uuid} {db : Db} {w : Statement}
    (h : DeletesChild tenantId db.tenancy w) :
    ∃ tenancy, postgres.apply w db = some { db with tenancy := tenancy } ∧
      Shrinks tenantId db.tenancy tenancy := by
  have kept : ∀ {Row : Type} {tenantOf : Row → Uuid} {r : Row}, tenantOf r = tenantId →
      (tenantOf r != tenantId) = false := by
    intro Row tenantOf r hr
    simp [hr]
  unfold DeletesChild at h
  split at h
  · refine ⟨_, rfl, ?_, rows_delete_subset _ _, fun _ => id, fun _ => id, fun _ => id⟩
    simp only [TenancyStore.deleteTenant, filter_delete fun j hj hid => kept (h j hj hid)]
  · refine ⟨_, rfl, ?_, fun _ => id, rows_delete_subset _ _, fun _ => id, fun _ => id⟩
    simp only [TenancyStore.deleteTenant, filter_delete fun m hm hid => kept (h m hm hid)]
  · refine ⟨_, rfl, ?_, fun _ => id, fun _ => id, rows_delete_subset _ _, fun _ => id⟩
    simp only [TenancyStore.deleteTenant, filter_delete fun v hv hid => kept (h v hv hid)]
  · refine ⟨_, rfl, ?_, fun _ => id, fun _ => id, fun _ => id, rows_delete_subset _ _⟩
    simp only [TenancyStore.deleteTenant, filter_delete fun b hb hid => kept (h b hb hid)]
  · exact h.elim

theorem applyAll_deletesChildren {tenantId : Uuid} {ws : List Statement} {db : Db}
    (h : ∀ w ∈ ws, DeletesChild tenantId db.tenancy w) :
    ∃ tenancy, postgres.applyAll ws db = some { db with tenancy := tenancy } ∧
      tenancy.deleteTenant tenantId = db.tenancy.deleteTenant tenantId := by
  induction ws generalizing db with
  | nil => exact ⟨db.tenancy, rfl, rfl⟩
  | cons w ws ih =>
    obtain ⟨tenancy, happly, hshrinks⟩ := apply_deletesChild (h w List.mem_cons_self)
    have hws : ∀ w' ∈ ws, DeletesChild tenantId ({ db with tenancy := tenancy } : Db).tenancy w' :=
      fun w' hw' => hshrinks.child (h w' (List.mem_cons_of_mem _ hw'))
    obtain ⟨tenancy', hrest, hdeleted⟩ := ih hws
    refine ⟨tenancy', ?_, hdeleted.trans hshrinks.deleted⟩
    rw [StatementSemantics.applyAll_cons, happly]
    exact hrest

/-- What the relationships of a tenant load are rows that belong to it. -/
theorem deletesChild_of_mem {Row : Type} {key tenantOf : Row → Uuid} {t : Table Row Uuid key}
    {tenantId : Uuid} {r : Row} (hr : r ∈ t.rows.filter fun r => tenantOf r = tenantId) :
    ∀ r' ∈ t.rows, key r' = key r → tenantOf r' = tenantId := by
  intro r' hr' hkey
  obtain ⟨hmem, htenant⟩ := List.mem_filter.mp hr
  rw [t.eq_of_key_eq hr' hmem hkey]
  exact of_decide_eq_true htenant

theorem deleteStatements_eq (s : TenancyStore) (tenantId : Uuid) :
    ∃ ws, deleteStatements s tenantId = ws ++ [.deleteTenant tenantId] ∧
      ∀ w ∈ ws, DeletesChild tenantId s w := by
  refine ⟨_, rfl, fun w hw => ?_⟩
  simp only [List.mem_append] at hw
  rcases hw with ((hw | hw) | hw) | hw
  · obtain ⟨j, hj, rfl⟩ := List.mem_map.mp hw
    exact deletesChild_of_mem hj
  · obtain ⟨m, hm, rfl⟩ := List.mem_map.mp hw
    exact deletesChild_of_mem hm
  · obtain ⟨v, hv, rfl⟩ := List.mem_map.mp hw
    exact deletesChild_of_mem hv
  · obtain ⟨b, hb, rfl⟩ := List.mem_map.mp hw
    exact deletesChild_of_mem hb

/-- The deletes of a tenant succeed together exactly when no row of the audit log refers to it,
and then do what `ON DELETE` says. -/
theorem applyAll_deleteStatements {tenantId : Uuid} {db db' : Db} :
    postgres.applyAll (deleteStatements db.tenancy tenantId) db = some db' ↔
      (∀ r ∈ db.auditLog, r.tenantId ≠ some tenantId) ∧
        db' = { db with
          tenancy := db.tenancy.deleteTenant tenantId
          anomalies := clearTenant tenantId db.anomalies } := by
  obtain ⟨ws, hws, hchildren⟩ := deleteStatements_eq db.tenancy tenantId
  obtain ⟨tenancy, happly, hdeleted⟩ := applyAll_deletesChildren hchildren
  rw [hws, StatementSemantics.applyAll_append, happly, Option.bind_some,
    StatementSemantics.applyAll_singleton, apply_deleteTenant, hdeleted]

/-! ## Changes of single rows -/

/-- The row of the tenant is replaced by its image, and the other rows stay. -/
def ReplacesTenant (tenantId : Uuid) (f : Tenant → Tenant)
    (tenants tenants' : Table Tenant Uuid Tenant.id) : Prop :=
  ∀ k, tenants'.find? k = (tenants.find? k).map fun t => if t.id = tenantId then f t else t

def withTenants (db : Db) (tenants : Table Tenant Uuid Tenant.id) : Db :=
  { db with tenancy := { db.tenancy with tenants := tenants } }

theorem replacesTenant_refl {tenantId : Uuid} {f : Tenant → Tenant} (hf : ∀ t, f t = t)
    (tenants : Table Tenant Uuid Tenant.id) : ReplacesTenant tenantId f tenants tenants := by
  intro k
  simp [hf]

/-- Only the image of the row that is there counts. -/
theorem ReplacesTenant.congr {tenantId : Uuid} {f g : Tenant → Tenant}
    {tenants tenants' : Table Tenant Uuid Tenant.id} {tenant : Tenant}
    (h : ReplacesTenant tenantId f tenants tenants') (hfind : tenants.find? tenantId = some tenant)
    (hfg : f tenant = g tenant) : ReplacesTenant tenantId g tenants tenants' := by
  intro k
  rw [h k]
  cases hk : tenants.find? k with
  | none => rfl
  | some t =>
    obtain ⟨ht, rfl⟩ := Table.find?_eq_some.mp hk
    by_cases hid : t.id = tenantId
    · subst hid
      rw [hk] at hfind
      cases hfind
      simp [hfg]
    · simp [hid]

theorem applyAll_tenantStatements {tenantId : Uuid} {patch : TenantPatch} {db db' : Db}
    (h : postgres.applyAll (tenantStatements tenantId patch) db = some db') :
    ∃ bound tenants, patch.bound = some bound ∧
      ReplacesTenant tenantId bound.apply db.tenancy.tenants tenants ∧
        db' = withTenants db tenants := by
  unfold tenantStatements at h
  split at h
  · next hempty =>
    subst hempty
    cases h
    exact ⟨{}, db.tenancy.tenants, rfl, replacesTenant_refl (fun _ => rfl) _, rfl⟩
  · rw [StatementSemantics.applyAll_singleton] at h
    obtain ⟨tenancy, hupdate, rfl⟩ := apply_tenancy.mp h
    obtain ⟨bound, hbound, hupdate⟩ := Option.bind_eq_some_iff.mp hupdate
    obtain ⟨tenants, htenants, htenancy⟩ := Option.bind_eq_some_iff.mp hupdate
    cases htenancy
    exact ⟨bound, tenants, hbound, Table.find?_update htenants, rfl⟩

theorem applyAll_tenantStatements_isSome {tenantId : Uuid} {patch bound : TenantPatch}
    {tenant : Tenant} {db : Db} (hbound : patch.bound = some bound)
    (hfind : db.tenancy.tenants.find? tenantId = some tenant) :
    ∃ db', postgres.applyAll (tenantStatements tenantId patch) db = some db' := by
  unfold tenantStatements
  split
  · exact ⟨db, rfl⟩
  · obtain ⟨tenants, htenants⟩ : ∃ tenants, db.tenancy.tenants.update tenantId bound.apply
        (fun _ => rfl) = some tenants := Table.update_isSome hfind
    refine ⟨withTenants db tenants, ?_⟩
    rw [StatementSemantics.applyAll_singleton]
    refine apply_tenancy.mpr ⟨{ db.tenancy with tenants := tenants }, ?_, rfl⟩
    simp [TenancyStatement.apply, TenancyStore.updateTenant, hbound, htenants]

theorem bound_status (status : Option TenantStatus) :
    ({ status := status.map some } : TenantPatch).bound = some { status := status.map some } := by
  cases status <;> rfl

/-- Writing a status that differs, or nothing, sets the status. -/
theorem apply_status (tenant : Tenant) (status : TenantStatus) :
    ({ status := (changed tenant.status status).map some } : TenantPatch).apply tenant =
      { tenant with status := status } := by
  unfold changed
  split
  · next h => simp [TenantPatch.apply, ← h]
  · rfl

theorem ReplacesTenant.status {tenantId : Uuid} {status : TenantStatus} {tenant : Tenant}
    {tenants tenants' : Table Tenant Uuid Tenant.id}
    (h : ReplacesTenant tenantId
      ({ status := (changed tenant.status status).map some } : TenantPatch).apply tenants tenants')
    (hfind : tenants.find? tenantId = some tenant) :
    ReplacesTenant tenantId (fun t => { t with status := status }) tenants tenants' :=
  h.congr hfind (apply_status tenant status)

/-! ## Steps of a job -/

theorem remainingSteps_concat {completed : List String} {step : String} {rest : List String}
    (h : remainingSteps completed = step :: rest) : remainingSteps (completed ++ [step]) = rest := by
  have hnodup : (step :: rest).Nodup := by
    rw [← h]
    exact List.Nodup.filter _ (by decide)
  have hfilter : remainingSteps (completed ++ [step]) =
      (remainingSteps completed).filter fun s => s ≠ step := by
    simp only [remainingSteps, List.filter_filter, List.mem_append, List.mem_singleton, not_or]
    refine List.filter_congr fun s _ => ?_
    simp [and_comm]
  have hrest : rest.filter (fun s => s ≠ step) = rest := by
    refine List.filter_eq_self.mpr fun s hs => ?_
    have hne : s ≠ step := fun heq => (List.nodup_cons.mp hnodup).1 (heq ▸ hs)
    simpa using hne
  rw [hfilter, h, List.filter_cons_of_neg (by simp), hrest]

/-- The name of a step fits its column. -/
theorem bound_currentStep {completed : List String} (old : Option String) :
    nullable (nullable (varchar 60)) (changed old (remainingSteps completed).head?) =
      some (changed old (remainingSteps completed).head?) := by
  have hfits : ∀ s ∈ provisioningSteps, varchar 60 s = some s := by decide
  unfold changed
  split
  · rfl
  · cases hhead : (remainingSteps completed).head? with
    | none => rfl
    | some s =>
      have hs : s ∈ remainingSteps completed := List.mem_of_mem_head? hhead
      simp [nullable, hfits s (List.mem_filter.mp hs).1]

/-- The tenant of a job is active when no step remains. -/
theorem applyAll_advancedTenant (db : Db) (job : TenantProvisioningJob) :
    ∃ tenants,
      postgres.applyAll (advancedTenant job (db.tenancy.tenants.find? job.tenantId)) db =
        some (withTenants db tenants) ∧
      ReplacesTenant job.tenantId
        (fun t => if remainingSteps job.completedSteps = [] then { t with status := .active } else t)
        db.tenancy.tenants tenants := by
  cases hfind : db.tenancy.tenants.find? job.tenantId with
  | none =>
    refine ⟨db.tenancy.tenants, rfl, fun k => ?_⟩
    cases hk : db.tenancy.tenants.find? k with
    | none => rfl
    | some t =>
      obtain ⟨ht, rfl⟩ := Table.find?_eq_some.mp hk
      have hne : t.id ≠ job.tenantId := Table.find?_eq_none.mp hfind t ht
      simp [hne]
  | some tenant =>
    obtain ⟨-, hid⟩ := Table.find?_eq_some.mp hfind
    simp only [advancedTenant]
    by_cases hlast : remainingSteps job.completedSteps = []
    · simp only [hlast, if_true]
      rw [hid]
      obtain ⟨db', hdb'⟩ := applyAll_tenantStatements_isSome (bound_status _) hfind
      obtain ⟨bound, tenants, hbound, hreplaces, rfl⟩ := applyAll_tenantStatements hdb'
      rw [bound_status] at hbound
      cases hbound
      exact ⟨tenants, hdb', hreplaces.status hfind⟩
    · simp only [hlast, if_false]
      exact ⟨db.tenancy.tenants, rfl, replacesTenant_refl (fun _ => rfl) _⟩

/-- The row of a job is replaced. -/
theorem updateProvisioningJob_advanced {s : TenancyStore} {job : TenantProvisioningJob}
    (hjob : s.provisioningJobs.find? job.id = some job) (step : String) :
    ∃ jobs,
      s.updateProvisioningJob job.id (job.diff (advancedJob job step)) =
        some { s with provisioningJobs := jobs } ∧
      ∀ k, jobs.find? k = (s.provisioningJobs.find? k).map fun j =>
        if j.id = job.id then advancedJob job step else j := by
  have hmem := (Table.find?_eq_some.mp hjob).1
  obtain ⟨jobs, hjobs⟩ : ∃ jobs, s.provisioningJobs.update job.id
      (fun j =>
        { j with
          status := (changed job.status (advancedJob job step).status).getD j.status
          completedSteps :=
            (changed job.completedSteps (advancedJob job step).completedSteps).getD j.completedSteps
          currentStep :=
            (changed job.currentStep (advancedJob job step).currentStep).getD j.currentStep })
      (fun _ => rfl) = some jobs := Table.update_isSome hjob
  have hstep : nullable (nullable (varchar 60)) (job.diff (advancedJob job step)).currentStep =
      some (changed job.currentStep (advancedJob job step).currentStep) :=
    bound_currentStep job.currentStep
  refine ⟨jobs, ?_, fun k => ?_⟩
  · simp only [TenancyStore.updateProvisioningJob, hstep]
    simp [TenantProvisioningJob.diff, hjobs]
  · rw [Table.find?_update hjobs]
    cases hk : s.provisioningJobs.find? k with
    | none => rfl
    | some j =>
      obtain ⟨hj, rfl⟩ := Table.find?_eq_some.mp hk
      by_cases hid : j.id = job.id
      · obtain rfl := s.provisioningJobs.eq_of_key_eq hj hmem hid
        simp [advancedJob]
      · simp [hid]

/-- What the last flush of a step does. -/
theorem applyAll_advance {db : Db} {jobId : Uuid} {job : TenantProvisioningJob} {step : String}
    {rest : List String} (hjob : db.tenancy.provisioningJobs.find? jobId = some job)
    (hremaining : remainingSteps job.completedSteps = step :: rest) :
    ∃ tenants jobs,
      postgres.applyAll (advancedTenant (advancedJob job step)
          (db.tenancy.tenants.find? job.tenantId) ++
        [.tenancy (.updateProvisioningJob job.id (job.diff (advancedJob job step)))]) db =
        some { db with
          tenancy := { db.tenancy with tenants := tenants, provisioningJobs := jobs } } ∧
      ReplacesTenant job.tenantId (fun t => if rest = [] then { t with status := .active } else t)
        db.tenancy.tenants tenants ∧
      ∀ k, jobs.find? k = (db.tenancy.provisioningJobs.find? k).map fun j =>
        if j.id = jobId then advancedJob job step else j := by
  obtain ⟨-, rfl⟩ := Table.find?_eq_some.mp hjob
  have hrest : remainingSteps (advancedJob job step).completedSteps = rest :=
    remainingSteps_concat hremaining
  obtain ⟨tenants, htenants, hreplaces⟩ := applyAll_advancedTenant db (advancedJob job step)
  rw [hrest] at hreplaces
  obtain ⟨jobs, hupdate, hjobs⟩ : ∃ jobs,
      (withTenants db tenants).tenancy.updateProvisioningJob job.id
        (job.diff (advancedJob job step)) =
          some { db.tenancy with tenants := tenants, provisioningJobs := jobs } ∧
      ∀ k, jobs.find? k = (db.tenancy.provisioningJobs.find? k).map fun j =>
        if j.id = job.id then advancedJob job step else j :=
    updateProvisioningJob_advanced (s := (withTenants db tenants).tenancy) hjob step
  refine ⟨tenants, jobs, ?_, hreplaces, hjobs⟩
  have hsent : postgres.applyAll (advancedTenant (advancedJob job step)
      (db.tenancy.tenants.find? job.tenantId)) db = some (withTenants db tenants) := htenants
  rw [StatementSemantics.applyAll_append, hsent, Option.bind_some,
    StatementSemantics.applyAll_singleton]
  exact apply_tenancy.mpr ⟨_, hupdate, rfl⟩

/-! ## Rules -/

theorem applyAll_tenancy_singleton {statement : TenancyStatement} {db db' : Db}
    (h : postgres.applyAll [.tenancy statement] db = some db') :
    ∃ tenancy, statement.apply db.tenancy = some tenancy ∧ db' = { db with tenancy := tenancy } := by
  rw [StatementSemantics.applyAll_singleton] at h
  exact apply_tenancy.mp h

/-- The row of an inserted tenant: texts are bound to their columns. -/
structure StoredTenant (t row : Tenant) : Prop where
  id : row.id = t.id
  slug : varchar 80 t.slug = some row.slug
  status : row.status = t.status
  dbSchemaValid : row.dbSchemaValid = t.dbSchemaValid
  encryptionValid : row.encryptionValid = t.encryptionValid

structure StoredJob (j row : TenantProvisioningJob) : Prop where
  id : row.id = j.id
  tenantId : row.tenantId = j.tenantId
  status : row.status = j.status
  completedSteps : row.completedSteps = j.completedSteps

theorem insertTenant_inserts {s s' : TenancyStore} {t : Tenant} (h : s.insertTenant t = some s') :
    ∃ row, s.tenants.find? t.id = none ∧ StoredTenant t row ∧
      s'.provisioningJobs = s.provisioningJobs ∧
        ∀ k, s'.tenants.find? k = if t.id = k then some row else s.tenants.find? k := by
  simp only [TenancyStore.insertTenant, Option.bind_eq_bind, Option.bind_eq_some_iff] at h
  obtain ⟨slug, hslug, orgId, -, displayName, -, region, -, dbSchemaName, -, networkCidr, -,
    networkVpc, -, dekLabel, -, h⟩ := h
  split at h
  · cases h
  · obtain ⟨tenants, hinsert, hs'⟩ := Option.bind_eq_some_iff.mp h
    cases hs'
    have hlookup := Table.find?_insert hinsert
    refine ⟨_, (Table.insert_eq_some.mp hinsert).1, ?_, rfl, hlookup⟩
    exact ⟨rfl, hslug, rfl, rfl, rfl⟩

theorem insertProvisioningJob_inserts {s s' : TenancyStore} {j : TenantProvisioningJob}
    (h : s.insertProvisioningJob j = some s') :
    ∃ row, StoredJob j row ∧ s'.tenants = s.tenants ∧
      ∀ k, s'.provisioningJobs.find? k =
        if j.id = k then some row else s.provisioningJobs.find? k := by
  simp only [TenancyStore.insertProvisioningJob, Option.bind_eq_bind, Option.bind_eq_some_iff] at h
  obtain ⟨currentStep, -, h⟩ := h
  split at h
  · obtain ⟨jobs, hinsert, hs'⟩ := Option.bind_eq_some_iff.mp h
    cases hs'
    have hlookup := Table.find?_insert hinsert
    refine ⟨_, ?_, rfl, hlookup⟩
    exact ⟨rfl, rfl, rfl, rfl⟩
  · cases h

section

variable {durable work : Db} {n : ℕ}

/-- The rule of a creation: a tenant and its job are inserted, and nothing else changes. -/
theorem createTenant_wp {env : TenancyEnv} {payload : TenantCreate}
    {post : Except ServiceError Tenant → Db → Db → ℕ → Prop}
    (failed : ∀ error w k, post (.error error) durable w k)
    (created : ∀ inserted tenancy tenant, work.tenancy.insertTenant (newTenant env payload) =
      some inserted → inserted.insertProvisioningJob (provisioningJob env (newTenant env payload)) =
        some tenancy → tenancy.tenants.find? env.tenantId = some tenant →
      let after := { work with tenancy := tenancy }
      post (.ok tenant) after after (n + 2)) :
    (createTenant env payload).wp postgres post durable work n := by
  refine (Request.wp_bind ..).mpr ?_
  rw [Request.wp_select]
  refine (Request.wp_bind ..).mpr (wp_ensure.mpr ⟨fun _ => failed _ _ _, fun _ => ?_⟩)
  refine (Request.wp_bind ..).mpr (Request.wp_send.mpr
    ⟨fun _ => failed _ _ _, fun work' hwork => ?_⟩)
  obtain ⟨inserted, hinserted, rfl⟩ := applyAll_tenancy_singleton hwork
  refine (Request.wp_bind ..).mpr (Request.wp_send.mpr
    ⟨fun _ => failed _ _ _, fun work' hwork => ?_⟩)
  obtain ⟨tenancy, htenancy, rfl⟩ := applyAll_tenancy_singleton hwork
  obtain ⟨tenant, -, -, -, htenants⟩ := insertTenant_inserts hinserted
  obtain ⟨job, -, hsame, -⟩ := insertProvisioningJob_inserts htenancy
  have htenant : tenancy.tenants.find? (newTenant env payload).id = some tenant := by
    rw [hsame, htenants]
    exact if_pos rfl
  refine Request.wp_commitTransaction_bind ((Request.wp_bind ..).mpr ?_)
  rw [Request.wp_select]
  exact wp_found.mpr ⟨fun hnone => (nomatch htenant.symm.trans hnone), fun r hr =>
    created inserted tenancy r hinserted htenancy hr⟩

/-! ### Changing -/

theorem getTenant_wp {tenantId : Uuid} {post : Except ServiceError Tenant → Db → Db → ℕ → Prop}
    (missing : work.tenancy.tenants.find? tenantId = none →
      post (.error (.http 404 "Tenant not found")) durable work n)
    (got : ∀ tenant, work.tenancy.tenants.find? tenantId = some tenant →
      post (.ok tenant) durable work n) :
    (getTenant tenantId).wp postgres post durable work n := by
  apply (Request.wp_bind ..).mpr
  rw [Request.wp_select]
  exact wp_found.mpr ⟨missing, got⟩

/-- The rule of a write of a tenant that is there. -/
theorem saveTenant_wp {tenantId : Uuid} {patch : TenantPatch} {tenant : Tenant}
    {post : Except ServiceError Tenant → Db → Db → ℕ → Prop}
    (hfind : work.tenancy.tenants.find? tenantId = some tenant)
    (failed : patch.bound = none → post (.error .rejected) durable work (n + 1))
    (saved : ∀ bound tenants row, patch.bound = some bound →
      ReplacesTenant tenantId bound.apply work.tenancy.tenants tenants →
        post (.ok row) (withTenants work tenants) (withTenants work tenants) (n + 1)) :
    (saveTenant tenantId patch).wp postgres post durable work n := by
  apply (Request.wp_bind ..).mpr
  refine Request.wp_send.mpr ⟨fun hnone => failed ?_, fun work' hwork => ?_⟩
  · by_contra hbound
    obtain ⟨bound, hbound⟩ := Option.ne_none_iff_exists'.mp hbound
    obtain ⟨db', hdb'⟩ := applyAll_tenantStatements_isSome hbound hfind
    rw [hnone] at hdb'
    cases hdb'
  · obtain ⟨bound, tenants, hbound, hreplaces, rfl⟩ := applyAll_tenantStatements hwork
    apply Request.wp_commitTransaction_bind
    apply (Request.wp_bind ..).mpr
    rw [Request.wp_select]
    refine wp_found.mpr ⟨fun hnone => ?_, fun row _ => saved bound tenants row hbound hreplaces⟩
    have hrow : tenants.find? tenantId = none := hnone
    rw [hreplaces, hfind] at hrow
    cases hrow

theorem updateTenant_wp {tenantId : Uuid} {payload : TenantUpdate}
    {post : Except ServiceError Tenant → Db → Db → ℕ → Prop}
    (failed : ∀ error k, post (.error error) durable work k)
    (updated : ∀ tenant bound tenants row, work.tenancy.tenants.find? tenantId = some tenant →
      (payload.patch tenant).bound = some bound →
        ReplacesTenant tenantId bound.apply work.tenancy.tenants tenants →
          post (.ok row) (withTenants work tenants) (withTenants work tenants) (n + 1)) :
    (updateTenant tenantId payload).wp postgres post durable work n := by
  apply (Request.wp_bind ..).mpr
  refine getTenant_wp (fun _ => failed _ _) fun tenant htenant => ?_
  exact saveTenant_wp htenant (fun _ => failed _ _) fun bound tenants row hbound hreplaces =>
    updated tenant bound tenants row htenant hbound hreplaces

/-- Setting the status of a tenant that is there succeeds. -/
theorem setTenantStatus_wp {tenantId : Uuid} {newStatus : TenantStatus}
    {post : Except ServiceError Tenant → Db → Db → ℕ → Prop}
    (missing : work.tenancy.tenants.find? tenantId = none →
      post (.error (.http 404 "Tenant not found")) durable work n)
    (set : ∀ tenant tenants row, work.tenancy.tenants.find? tenantId = some tenant →
      ReplacesTenant tenantId (fun t => { t with status := newStatus }) work.tenancy.tenants
        tenants →
          post (.ok row) (withTenants work tenants) (withTenants work tenants) (n + 1)) :
    (setTenantStatus tenantId newStatus).wp postgres post durable work n := by
  apply (Request.wp_bind ..).mpr
  refine getTenant_wp missing fun tenant htenant => ?_
  refine saveTenant_wp htenant (fun hnone => ?_) fun bound tenants row hbound hreplaces => ?_
  · rw [bound_status] at hnone
    cases hnone
  · rw [bound_status] at hbound
    cases hbound
    exact set tenant tenants row htenant (hreplaces.status htenant)

/-! ### Provisioning -/

/-- Advancing a job that is there succeeds. -/
theorem advanceProvisioningJob_wp {jobId : Uuid}
    {post : Except ServiceError TenantProvisioningJob → Db → Db → ℕ → Prop}
    (missing : work.tenancy.provisioningJobs.find? jobId = none →
      post (.error (.http 404 "Provisioning job not found")) durable work n)
    (complete : ∀ job, work.tenancy.provisioningJobs.find? jobId = some job →
      remainingSteps job.completedSteps = [] → post (.ok job) durable work n)
    (advanced : ∀ job step rest tenants jobs,
      work.tenancy.provisioningJobs.find? jobId = some job →
      remainingSteps job.completedSteps = step :: rest →
      ReplacesTenant job.tenantId
        (fun t => if rest = [] then { t with status := .active } else t)
        work.tenancy.tenants tenants →
      (∀ k, jobs.find? k = (work.tenancy.provisioningJobs.find? k).map fun j =>
        if j.id = jobId then advancedJob job step else j) →
      let after := { work with
        tenancy := { work.tenancy with tenants := tenants, provisioningJobs := jobs } }
      post (.ok (advancedJob job step)) after after (n + 1)) :
    (advanceProvisioningJob jobId).wp postgres post durable work n := by
  apply (Request.wp_bind ..).mpr
  rw [Request.wp_select]
  apply (Request.wp_bind ..).mpr
  refine wp_found.mpr ⟨missing, fun job hjob => ?_⟩
  apply (Request.wp_bind ..).mpr
  rw [Request.wp_select]
  cases hremaining : remainingSteps job.completedSteps with
  | nil => exact Request.wp_return (complete job hjob hremaining)
  | cons step rest =>
    obtain ⟨tenants, jobs, happly, htenants, hjobs⟩ := applyAll_advance hjob hremaining
    apply (Request.wp_bind ..).mpr
    refine Request.wp_send.mpr ⟨fun hnone => ?_, fun work' hwork => ?_⟩
    · rw [happly] at hnone
      cases hnone
    · rw [happly] at hwork
      cases hwork
      exact Request.wp_commitTransaction_bind
        (Request.wp_return (advanced job step rest tenants jobs hjob hremaining htenants hjobs))

/-- The rule of a delete. -/
theorem deleteTenant_wp {tenantId : Uuid} {post : Except ServiceError Unit → Db → Db → ℕ → Prop}
    (missing : work.tenancy.tenants.find? tenantId = none →
      post (.error (.http 404 "Tenant not found")) durable work n)
    (stopped : (∃ r ∈ work.auditLog, r.tenantId = some tenantId) →
      post (.error .rejected) durable work (n + 1))
    (deleted : (∀ r ∈ work.auditLog, r.tenantId ≠ some tenantId) →
      let after := { work with
        tenancy := work.tenancy.deleteTenant tenantId
        anomalies := clearTenant tenantId work.anomalies }
      post (.ok ()) after after (n + 1)) :
    (TenancyService.deleteTenant tenantId).wp postgres post durable work n := by
  refine (Request.wp_bind ..).mpr ((Request.wp_bind ..).mpr ?_)
  rw [Request.wp_select]
  refine wp_found.mpr ⟨missing, fun tenant htenant => ?_⟩
  obtain ⟨-, rfl⟩ := Table.find?_eq_some.mp htenant
  refine (Request.wp_bind ..).mpr ?_
  rw [Request.wp_select]
  refine (Request.wp_bind ..).mpr (Request.wp_send.mpr ⟨fun hnone => ?_, fun after hafter => ?_⟩)
  · refine stopped ?_
    by_contra hnot
    have hsome := applyAll_deleteStatements.mpr ⟨fun r hr hid => hnot ⟨r, hr, hid⟩, rfl⟩
    rw [hnone] at hsome
    cases hsome
  · obtain ⟨hlog, rfl⟩ := applyAll_deleteStatements.mp hafter
    exact Request.wp_commitTransaction (deleted hlog)

end

/-! ## A sample tenant -/

def sampleTenantCreate : TenantCreate where
  slug := "acme"
  orgId := "ORG-1"
  displayName := "Acme"
  tier := .standard
  region := "eu-west-1"
  dbSchemaName := "tenant_acme"

end NexusEngine.TenancyLifecycle
