import Mathlib.Data.List.Induction
import NexusEngine.TenancyLifecycle

/-!
# Provisioning and suspending tenants

Administrators set the status of a tenant, and the last step of its provisioning job sets it too.
The steps of the job are names: nothing that they stand for is recorded with the tenant.
-/

namespace NexusEngine.TenantProvisioning

open TransactionalRequests StoredColumns KeyedTables TenancyTables Database TenancyService
  TenancyLifecycle

/-! ## Requests -/

inductive TenancyRequest where
  | createTenant (env : TenancyEnv) (payload : TenantCreate)
  | updateTenant (tenantId : Uuid) (payload : TenantUpdate)
  | setTenantStatus (tenantId : Uuid) (newStatus : TenantStatus)
  | advanceProvisioningJob (jobId : Uuid)

/-- The request, without its response. -/
def TenancyRequest.request : TenancyRequest → Service Unit
  | createTenant env payload => do
    let _ ← TenancyService.createTenant env payload
    return ()
  | updateTenant tenantId payload => do
    let _ ← TenancyService.updateTenant tenantId payload
    return ()
  | setTenantStatus tenantId newStatus => do
    let _ ← TenancyService.setTenantStatus tenantId newStatus
    return ()
  | advanceProvisioningJob jobId => do
    let _ ← TenancyService.advanceProvisioningJob jobId
    return ()

def execAll (s : Store Db) (rs : List TenancyRequest) : Store Db :=
  s.execAll postgres (rs.map (·.request))

/-- The request is answered, and not refused. -/
def Answered (s : Store Db) (r : TenancyRequest) : Prop :=
  (r.request.serial postgres s.db s.db s.sequence).result = .ok ()

theorem execAll_concat (s : Store Db) (rs : List TenancyRequest) (r : TenancyRequest) :
    execAll s (rs ++ [r]) = (execAll s rs).exec postgres r.request :=
  Store.execAll_concat ..

/-! ## What one request does -/

/-- The job has one step left, and it is the tenant's. -/
def LastStep (s : TenancyStore) (jobId tenantId : Uuid) : Prop :=
  ∃ job, s.provisioningJobs.find? jobId = some job ∧
    (remainingSteps job.completedSteps).length = 1 ∧ job.tenantId = tenantId

/-- A tenant that has just been created. -/
structure Fresh (env : TenancyEnv) (tenant : Tenant) (job : TenantProvisioningJob) : Prop where
  status : tenant.status = .provisioning
  dbSchemaValid : tenant.dbSchemaValid = false
  encryptionValid : tenant.encryptionValid = false
  running : job.status = .running
  tenantId : job.tenantId = env.tenantId

/-- Why a request changes nothing. -/
def Idle (s : TenancyStore) (result : Except ServiceError Unit) : TenancyRequest → Prop
  | .createTenant _ _ => result ≠ .ok ()
  | .updateTenant _ _ => result ≠ .ok ()
  | .setTenantStatus tenantId _ => s.tenants.find? tenantId = none
  | .advanceProvisioningJob jobId =>
    ∀ job, s.provisioningJobs.find? jobId = some job → remainingSteps job.completedSteps = []

/-- A request in terms of what is found before and after it. -/
inductive Change (s s' : TenancyStore) : TenancyRequest → Except ServiceError Unit → Prop where
  | idle {r : TenancyRequest} {result : Except ServiceError Unit} (same : s' = s)
      (reason : Idle s result r) : Change s s' r result
  | created {env : TenancyEnv} {payload : TenantCreate} {tenant : Tenant}
      {job : TenantProvisioningJob} (fresh : Fresh env tenant job)
      (tenantFree : s.tenants.find? env.tenantId = none)
      (tenants : ∀ k, s'.tenants.find? k =
        if env.tenantId = k then some tenant else s.tenants.find? k)
      (jobs : ∀ k, s'.provisioningJobs.find? k =
        if env.jobId = k then some job else s.provisioningJobs.find? k) :
      Change s s' (.createTenant env payload) (.ok ())
  | updated {tenantId : Uuid} {payload : TenantUpdate} {tenant : Tenant} {bound : TenantPatch}
      (there : s.tenants.find? tenantId = some tenant)
      (fits : (payload.patch tenant).bound = some bound)
      (tenants : ReplacesTenant tenantId bound.apply s.tenants s'.tenants)
      (jobs : s'.provisioningJobs = s.provisioningJobs) :
      Change s s' (.updateTenant tenantId payload) (.ok ())
  | statusSet {tenantId : Uuid} {newStatus : TenantStatus}
      (tenants : ReplacesTenant tenantId (fun t => { t with status := newStatus })
        s.tenants s'.tenants)
      (jobs : s'.provisioningJobs = s.provisioningJobs) :
      Change s s' (.setTenantStatus tenantId newStatus) (.ok ())
  | advanced {jobId : Uuid} {job : TenantProvisioningJob} {step : String} {rest : List String}
      (there : s.provisioningJobs.find? jobId = some job)
      (remaining : remainingSteps job.completedSteps = step :: rest)
      (tenants : ReplacesTenant job.tenantId
        (fun t => if rest = [] then { t with status := .active } else t) s.tenants s'.tenants)
      (jobs : ∀ k, s'.provisioningJobs.find? k = (s.provisioningJobs.find? k).map fun j =>
        if j.id = jobId then advancedJob job step else j) :
      Change s s' (.advanceProvisioningJob jobId) (.ok ())

/-- The step lemma of the service. -/
theorem exec_change (s : Store Db) (r : TenancyRequest) :
    Change s.db.tenancy (s.exec postgres r.request).db.tenancy r
      (r.request.serial postgres s.db s.db s.sequence).result := by
  have hchange : r.request.wp postgres
      (fun result durable _ _ => Change s.db.tenancy durable.tenancy r result)
      s.db s.db s.sequence := by
    cases r with
    | createTenant env payload =>
      apply Request.wp_answer
      refine createTenant_wp (fun error _ _ => .idle rfl fun hok => (nomatch hok)) ?_
      intro inserted tenancy tenant hinserted htenancy htenant
      obtain ⟨stored, hfree, hbound, hjobs, htenants⟩ := insertTenant_inserts hinserted
      obtain ⟨job, hjob, hsame, hlookup⟩ := insertProvisioningJob_inserts htenancy
      have hfresh : Fresh env stored job := ⟨hbound.status, hbound.dbSchemaValid,
        hbound.encryptionValid, hjob.status, hjob.tenantId⟩
      refine .created hfresh hfree (fun k => ?_) fun k => ?_
      · rw [hsame]
        exact htenants k
      · rw [hlookup, hjobs]
        rfl
    | updateTenant tenantId payload =>
      apply Request.wp_answer
      exact updateTenant_wp (fun error _ => .idle rfl fun hok => (nomatch hok))
        fun tenant bound tenants row hfind hbound hreplaces => .updated hfind hbound hreplaces rfl
    | setTenantStatus tenantId newStatus =>
      apply Request.wp_answer
      exact setTenantStatus_wp (fun hmissing => .idle rfl hmissing)
        fun tenant tenants row hfind hreplaces => .statusSet hreplaces rfl
    | advanceProvisioningJob jobId =>
      apply Request.wp_answer
      refine advanceProvisioningJob_wp (fun hmissing => .idle rfl fun job hjob => ?_)
        (fun job hjob hcomplete => .idle rfl fun job' hjob' => ?_)
        fun job step rest tenants jobs hjob hremaining htenants hjobs =>
          .advanced hjob hremaining htenants hjobs
      · rw [hmissing] at hjob
        cases hjob
      · rw [hjob] at hjob'
        cases hjob'
        exact hcomplete
  exact (Request.serial_sound hchange).elim fun _ h => h

theorem exec_concat (s : Store Db) (rs : List TenancyRequest) (r : TenancyRequest) :
    Change (execAll s rs).db.tenancy (execAll s (rs ++ [r])).db.tenancy r
      (r.request.serial postgres (execAll s rs).db (execAll s rs).db
        (execAll s rs).sequence).result := by
  rw [execAll_concat]
  exact exec_change _ r

/-! ## The status of a tenant -/

def statusOf (s : TenancyStore) (tenantId : Uuid) : Option TenantStatus :=
  (s.tenants.find? tenantId).map Tenant.status

theorem statusOf_replaces {s s' : TenancyStore} {tenantId : Uuid} {f : Tenant → Tenant}
    (h : ReplacesTenant tenantId f s.tenants s'.tenants) (t : Uuid) :
    statusOf s' t =
      (s.tenants.find? t).map fun r => if t = tenantId then (f r).status else r.status := by
  rw [statusOf, h]
  cases ht : s.tenants.find? t with
  | none => rfl
  | some r =>
    obtain ⟨-, rfl⟩ := Table.find?_eq_some.mp ht
    by_cases hid : r.id = tenantId <;> simp [hid]

section

variable {s s' : TenancyStore} {r : TenancyRequest} {result : Except ServiceError Unit}

/-- The status of a tenant changes when it is set, and with the last step of its job. -/
theorem Change.statusOf_eq (h : Change s s' r result) {t : Uuid} {status : TenantStatus}
    (hstatus : statusOf s t = some status) (hset : ∀ new, r ≠ .setTenantStatus t new) :
    statusOf s' t = some status ∨
      ∃ jobId, r = .advanceProvisioningJob jobId ∧ LastStep s jobId t := by
  obtain ⟨tenant, htenant, rfl⟩ := Option.map_eq_some_iff.mp hstatus
  cases h with
  | idle same => exact .inl (same ▸ hstatus)
  | @created env _ _ _ fresh tenantFree tenants jobs =>
    refine .inl ?_
    have hne : env.tenantId ≠ t := by
      rintro rfl
      rw [htenant] at tenantFree
      cases tenantFree
    rw [statusOf, tenants, if_neg hne, htenant]
    rfl
  | updated there fits tenants jobs =>
    have hbound := TenantPatch.binds fits
    refine .inl ?_
    rw [statusOf_replaces tenants, htenant]
    simp [TenantPatch.apply, hbound.status, TenantUpdate.patch]
  | @statusSet tenantId newStatus tenants jobs =>
    refine .inl ?_
    have hne : t ≠ tenantId := by
      rintro rfl
      exact hset newStatus rfl
    rw [statusOf_replaces tenants, htenant]
    simp [hne]
  | @advanced jobId job step rest there remaining tenants jobs =>
    by_cases hlast : rest = [] ∧ t = job.tenantId
    · exact .inr ⟨jobId, rfl, job, there, by simp [remaining, hlast.1], hlast.2.symm⟩
    · refine .inl ?_
      rw [statusOf_replaces tenants, htenant]
      by_cases hrest : rest = []
      · have hne : t ≠ job.tenantId := fun heq => hlast ⟨hrest, heq⟩
        simp [hne]
      · simp [hrest]

/-- The last step makes the tenant active. -/
theorem Change.statusOf_lastStep {jobId t : Uuid}
    (h : Change s s' (.advanceProvisioningJob jobId) result) (hlast : LastStep s jobId t)
    {status : TenantStatus} (hstatus : statusOf s t = some status) :
    statusOf s' t = some .active := by
  obtain ⟨job, hjob, hlength, rfl⟩ := hlast
  obtain ⟨tenant, htenant, rfl⟩ := Option.map_eq_some_iff.mp hstatus
  cases h with
  | idle same reason =>
    rw [reason job hjob] at hlength
    cases hlength
  | advanced there remaining tenants jobs =>
    rw [there] at hjob
    cases hjob
    rw [remaining, List.length_cons, Nat.succ.injEq, List.length_eq_zero_iff] at hlength
    rw [statusOf_replaces tenants, htenant]
    simp [hlength]

end

/-! ## Suspended tenants -/

/-- In the run, advancing a job changes the status of tenants in provisioning only, and a suspended
tenant stays suspended until its status is set. -/
structure KeepsSuspensions (s : Store Db) (rs : List TenancyRequest) : Prop where
  advance : ∀ before jobId after, rs = before ++ .advanceProvisioningJob jobId :: after →
    ∀ t status, statusOf (execAll s before).db.tenancy t = some status →
      statusOf (execAll s (before ++ [.advanceProvisioningJob jobId])).db.tenancy t ≠
        some status → status = .provisioning
  suspended : ∀ before during after, rs = before ++ during ++ after → ∀ t,
    statusOf (execAll s before).db.tenancy t = some .suspended →
      (∀ r ∈ during, ∀ new, r ≠ .setTenantStatus t new) →
        statusOf (execAll s (before ++ during)).db.tenancy t = some .suspended

/-- The last step of a job finds its tenant in provisioning, or active already. -/
def CompletesProvisioning (s : Store Db) (rs : List TenancyRequest) : Prop :=
  ∀ before jobId after, rs = before ++ .advanceProvisioningJob jobId :: after →
    ∀ t status, LastStep (execAll s before).db.tenancy jobId t →
      statusOf (execAll s before).db.tenancy t = some status →
        status = .provisioning ∨ status = .active

theorem suspended_run {s : Store Db} {rs : List TenancyRequest}
    (hcond : CompletesProvisioning s rs) {before during after : List TenancyRequest}
    (hrs : rs = before ++ during ++ after) {t : Uuid}
    (hstart : statusOf (execAll s before).db.tenancy t = some .suspended)
    (hset : ∀ r ∈ during, ∀ new, r ≠ .setTenantStatus t new) :
    statusOf (execAll s (before ++ during)).db.tenancy t = some .suspended := by
  induction during using List.reverseRecOn generalizing after with
  | nil => rwa [List.append_nil]
  | append_singleton during r ih =>
    have hsplit : rs = before ++ during ++ (r :: after) := by
      rw [hrs]
      simp
    have hbefore := ih hsplit fun r' hr' => hset r' (List.mem_append_left _ hr')
    rw [← List.append_assoc]
    have hr := hset r (List.mem_append_right _ (List.mem_singleton_self r))
    rcases (exec_concat s (before ++ during) r).statusOf_eq hbefore hr with hsame | hlast
    · exact hsame
    · obtain ⟨jobId, rfl, hlast⟩ := hlast
      have hallowed := hcond (before ++ during) jobId after hsplit t .suspended hlast hbefore
      rcases hallowed with h | h <;> cases h

/-- In every run suspensions are kept exactly when the last step of a job never meets a tenant
that is neither in provisioning nor active. -/
theorem keepsSuspensions_iff (s : Store Db) (rs : List TenancyRequest) :
    KeepsSuspensions s rs ↔ CompletesProvisioning s rs := by
  constructor
  · intro h before jobId after hrs t status hlast hstatus
    have hactive := (exec_concat s before _).statusOf_lastStep hlast hstatus
    by_cases hsame : status = .active
    · exact .inr hsame
    · refine .inl (h.advance before jobId after hrs t status hstatus ?_)
      rw [hactive]
      exact fun heq => hsame (Option.some.inj heq).symm
  · intro h
    refine ⟨fun before jobId after hrs t status hstatus hchanged => ?_,
      fun before during after hrs t hstart hset => suspended_run h hrs hstart hset⟩
    have hnotSet : ∀ new,
        TenancyRequest.advanceProvisioningJob jobId ≠ .setTenantStatus t new :=
      fun new heq => nomatch heq
    rcases (exec_concat s before _).statusOf_eq hstatus hnotSet with hsame | hlast
    · exact absurd hsame hchanged
    · obtain ⟨jobId', heq, hlast⟩ := hlast
      cases heq
      rcases h before jobId after hrs t status hlast hstatus with hprovisioning | hactive
      · exact hprovisioning
      · subst hactive
        exact absurd ((exec_concat s before _).statusOf_lastStep hlast hstatus) hchanged

def sampleTenant : TenancyRequest := .createTenant ⟨7, 8⟩ sampleTenantCreate

/-- A suspended tenant goes live with the last step of its job. -/
theorem suspended_tenant_activated :
    let before := [sampleTenant, .setTenantStatus 7 .suspended] ++
      List.replicate 5 (.advanceProvisioningJob 8)
    statusOf (execAll ⟨emptyDb, 1⟩ before).db.tenancy 7 = some .suspended ∧
      statusOf (execAll ⟨emptyDb, 1⟩ (before ++ [.advanceProvisioningJob 8])).db.tenancy 7 =
        some .active ∧
      ¬ KeepsSuspensions ⟨emptyDb, 1⟩ (before ++ [.advanceProvisioningJob 8]) := by
  intro before
  have hsuspended : statusOf (execAll ⟨emptyDb, 1⟩ before).db.tenancy 7 = some .suspended := by
    decide +kernel
  have hactive : statusOf (execAll ⟨emptyDb, 1⟩
      (before ++ [.advanceProvisioningJob 8])).db.tenancy 7 = some .active := by
    decide +kernel
  refine ⟨hsuspended, hactive, fun h => ?_⟩
  have hprovisioning := h.advance before 8 [] rfl 7 .suspended hsuspended (by rw [hactive]; decide)
  cases hprovisioning

/-! ## The isolation of provisioned tenants -/

/-- The client sets one of the flags that decide about a breach. -/
def SetsFlags (payload : TenantUpdate) : Prop :=
  payload.dbSchemaValid.isSome ∨ payload.encryptionValid.isSome

/-- An update of the tenant in the run has set one of the flags. -/
def FlagsSet (s : Store Db) (rs : List TenancyRequest) (tenantId : Uuid) : Prop :=
  ∃ before payload after, rs = before ++ .updateTenant tenantId payload :: after ∧
    SetsFlags payload ∧ Answered (execAll s before) (.updateTenant tenantId payload)

/-- After the run no tenant is in breach whose job is complete, unless an update has set a flag. -/
def SoundlyProvisioned (s : Store Db) (rs : List TenancyRequest) : Prop :=
  ∀ tenant ∈ (execAll s rs).db.tenancy.tenants.rows,
    ∀ job ∈ (execAll s rs).db.tenancy.provisioningJobs.rows, job.tenantId = tenant.id →
      job.status = .complete → ¬ FlagsSet s rs tenant.id → tenant.isolationLevel ≠ "breach"

/-- What is known of the tenants and the jobs of a run. -/
structure RunInvariant (s : Store Db) (rs : List TenancyRequest) : Prop where
  tenant : ∀ k job, (execAll s rs).db.tenancy.provisioningJobs.find? k = some job →
    ∃ t, (execAll s rs).db.tenancy.tenants.find? job.tenantId = some t
  flags : ∀ k t, (execAll s rs).db.tenancy.tenants.find? k = some t → ¬ FlagsSet s rs k →
    t.dbSchemaValid = false ∧ t.encryptionValid = false
  completed : ∀ k job, (execAll s rs).db.tenancy.provisioningJobs.find? k = some job →
    job.status = .complete → ∃ before after, rs = before ++ .advanceProvisioningJob k :: after ∧
      LastStep (execAll s before).db.tenancy k job.tenantId

theorem FlagsSet.concat {s : Store Db} {rs : List TenancyRequest} {t : Uuid}
    (h : FlagsSet s rs t) (rs' : List TenancyRequest) : FlagsSet s (rs ++ rs') t := by
  obtain ⟨before, payload, after, rfl, hsets, hanswered⟩ := h
  exact ⟨before, payload, after ++ rs', by simp, hsets, hanswered⟩

section

variable {s s' : TenancyStore} {r : TenancyRequest} {result : Except ServiceError Unit}

/-- No tenant goes. -/
theorem Change.tenant_stays (h : Change s s' r result) {k : Uuid} {t : Tenant}
    (ht : s.tenants.find? k = some t) : ∃ t', s'.tenants.find? k = some t' := by
  cases h with
  | idle same => exact ⟨t, same ▸ ht⟩
  | created fresh tenantFree tenants jobs =>
    rw [tenants, ht]
    split
    · exact ⟨_, rfl⟩
    · exact ⟨_, rfl⟩
  | updated there fits tenants jobs => exact ⟨_, by rw [tenants, ht]; rfl⟩
  | statusSet tenants jobs => exact ⟨_, by rw [tenants, ht]; rfl⟩
  | advanced there remaining tenants jobs => exact ⟨_, by rw [tenants, ht]; rfl⟩

/-- The flags of a tenant are those that it had, those of a new tenant, or set by an update. -/
theorem Change.flags (h : Change s s' r result) {k : Uuid} {t' : Tenant}
    (ht' : s'.tenants.find? k = some t') :
    (∃ t, s.tenants.find? k = some t ∧ t'.dbSchemaValid = t.dbSchemaValid ∧
        t'.encryptionValid = t.encryptionValid) ∨
      (t'.dbSchemaValid = false ∧ t'.encryptionValid = false) ∨
      ∃ payload, r = .updateTenant k payload ∧ SetsFlags payload ∧ result = .ok () := by
  cases h with
  | idle same => exact .inl ⟨t', same ▸ ht', rfl, rfl⟩
  | created fresh tenantFree tenants jobs =>
    rw [tenants] at ht'
    split at ht'
    · cases ht'
      exact .inr (.inl ⟨fresh.dbSchemaValid, fresh.encryptionValid⟩)
    · exact .inl ⟨t', ht', rfl, rfl⟩
  | @updated tenantId payload tenant bound there fits tenants jobs =>
    rw [tenants, Option.map_eq_some_iff] at ht'
    obtain ⟨t, ht, rfl⟩ := ht'
    obtain ⟨-, rfl⟩ := Table.find?_eq_some.mp ht
    by_cases hid : t.id = tenantId
    · by_cases hsets : SetsFlags payload
      · exact .inr (.inr ⟨payload, by rw [hid], hsets, rfl⟩)
      · -- neither flag is among the fields of the body
        simp only [SetsFlags, not_or, Option.not_isSome_iff_eq_none] at hsets
        have hbound := TenantPatch.binds fits
        refine .inl ⟨t, ht, ?_, ?_⟩
        · simp [hid, TenantPatch.apply, hbound.dbSchemaValid, TenantUpdate.patch, hsets.1, assigned]
        · simp [hid, TenantPatch.apply, hbound.encryptionValid, TenantUpdate.patch, hsets.2,
            assigned]
    · exact .inl ⟨t, ht, by simp [hid], by simp [hid]⟩
  | statusSet tenants jobs =>
    rw [tenants, Option.map_eq_some_iff] at ht'
    obtain ⟨t, ht, rfl⟩ := ht'
    refine .inl ⟨t, ht, ?_, ?_⟩
    · split <;> rfl
    · split <;> rfl
  | advanced there remaining tenants jobs =>
    rw [tenants, Option.map_eq_some_iff] at ht'
    obtain ⟨t, ht, rfl⟩ := ht'
    refine .inl ⟨t, ht, ?_, ?_⟩
    · split
      · split <;> rfl
      · rfl
    · split
      · split <;> rfl
      · rfl

/-- A job is a new one, or one that was there and that only its last step completes. -/
theorem Change.job (h : Change s s' r result) {k : Uuid} {job' : TenantProvisioningJob}
    (hjob' : s'.provisioningJobs.find? k = some job') :
    (∃ env payload t, r = .createTenant env payload ∧ job'.tenantId = env.tenantId ∧
        job'.status = .running ∧ s'.tenants.find? env.tenantId = some t) ∨
      ∃ job, s.provisioningJobs.find? k = some job ∧ job'.tenantId = job.tenantId ∧
        (job'.status = job.status ∨
          r = .advanceProvisioningJob k ∧ LastStep s k job.tenantId) := by
  cases h with
  | idle same => exact .inr ⟨job', same ▸ hjob', rfl, .inl rfl⟩
  | @created env payload tenant job fresh tenantFree tenants jobs =>
    rw [jobs] at hjob'
    split at hjob'
    · cases hjob'
      exact .inl ⟨env, payload, tenant, rfl, fresh.tenantId, fresh.running, by
        rw [tenants, if_pos rfl]⟩
    · exact .inr ⟨job', hjob', rfl, .inl rfl⟩
  | updated there fits tenants jobs => exact .inr ⟨job', jobs ▸ hjob', rfl, .inl rfl⟩
  | statusSet tenants jobs => exact .inr ⟨job', jobs ▸ hjob', rfl, .inl rfl⟩
  | @advanced jobId job step rest there remaining tenants jobs =>
    rw [jobs, Option.map_eq_some_iff] at hjob'
    obtain ⟨j, hj, rfl⟩ := hjob'
    obtain ⟨-, rfl⟩ := Table.find?_eq_some.mp hj
    by_cases hid : j.id = jobId
    · subst hid
      rw [there] at hj
      cases hj
      refine .inr ⟨job, there, by simp [advancedJob], ?_⟩
      by_cases hrest : rest = []
      · exact .inr ⟨rfl, job, there, by simp [remaining, hrest], rfl⟩
      · refine .inl ?_
        simp [advancedJob, remainingSteps_concat remaining, hrest]
    · exact .inr ⟨j, hj, by simp [hid], .inl (by simp [hid])⟩

/-- The last step completes the job. -/
theorem Change.completes {k t : Uuid} (h : Change s s' (.advanceProvisioningJob k) result)
    (hlast : LastStep s k t) :
    ∃ job', s'.provisioningJobs.find? k = some job' ∧ job'.tenantId = t ∧
      job'.status = .complete := by
  obtain ⟨job, hjob, hlength, rfl⟩ := hlast
  obtain ⟨-, rfl⟩ := Table.find?_eq_some.mp hjob
  cases h with
  | idle same reason =>
    rw [reason job hjob] at hlength
    cases hlength
  | @advanced _ _ step _ there remaining tenants jobs =>
    rw [there] at hjob
    cases hjob
    rw [remaining, List.length_cons, Nat.succ.injEq, List.length_eq_zero_iff] at hlength
    refine ⟨advancedJob job step, ?_, rfl, ?_⟩
    · rw [jobs, there]
      simp
    · simp [advancedJob, remainingSteps_concat remaining, hlength]

end

/-- The run lemma. -/
theorem run_invariant (n : ℕ) (rs : List TenancyRequest) : RunInvariant ⟨emptyDb, n⟩ rs := by
  induction rs using List.reverseRecOn with
  | nil => exact ⟨fun k job h => (nomatch h), fun k t h => (nomatch h), fun k job h => (nomatch h)⟩
  | append_singleton rs r ih =>
    have hstep := exec_concat ⟨emptyDb, n⟩ rs r
    refine ⟨fun k job hjob => ?_, fun k t ht hset => ?_, fun k job hjob hcomplete => ?_⟩
    · rcases hstep.job hjob with ⟨env, payload, t, -, htenant, -, ht⟩ | ⟨job₀, hjob₀, htenant, -⟩
      · exact ⟨t, htenant ▸ ht⟩
      · obtain ⟨t, ht⟩ := ih.tenant k job₀ hjob₀
        exact hstep.tenant_stays (htenant ▸ ht)
    · rcases hstep.flags ht with ⟨t₀, ht₀, hschema, hencryption⟩ | hfresh | hupdate
      · have hbefore := ih.flags k t₀ ht₀ fun hflags => hset (hflags.concat [r])
        exact ⟨hschema.trans hbefore.1, hencryption.trans hbefore.2⟩
      · exact hfresh
      · obtain ⟨payload, rfl, hsets, hanswered⟩ := hupdate
        exact absurd ⟨rs, payload, [], rfl, hsets, hanswered⟩ hset
    · rcases hstep.job hjob with ⟨env, payload, t, -, -, hrunning, -⟩ |
        ⟨job₀, hjob₀, htenant, hsame | ⟨rfl, hlast⟩⟩
      · rw [hrunning] at hcomplete
        cases hcomplete
      · obtain ⟨before, after, rfl, hlast⟩ := ih.completed k job₀ hjob₀ (hsame ▸ hcomplete)
        exact ⟨before, after ++ [r], by simp, htenant ▸ hlast⟩
      · exact ⟨rs, [], rfl, htenant ▸ hlast⟩

/-- A step of a job sets no flag. -/
theorem flagsSet_of_advance {s : Store Db} {rs : List TenancyRequest} {jobId t : Uuid}
    (h : FlagsSet s (rs ++ [.advanceProvisioningJob jobId]) t) : FlagsSet s rs t := by
  obtain ⟨before, payload, after, heq, hsets, hanswered⟩ := h
  rcases concat_eq_append_cons.mp heq with ⟨-, hlast, -⟩ | ⟨after, -, hrs⟩
  · cases hlast
  · exact ⟨before, payload, after, hrs, hsets, hanswered⟩

/-- Where no flag has been set, the last step leaves a tenant in breach. -/
theorem breach_of_lastStep {n : ℕ} {rs : List TenancyRequest} {jobId t : Uuid}
    (hlast : LastStep (execAll ⟨emptyDb, n⟩ rs).db.tenancy jobId t)
    (hset : ¬ FlagsSet ⟨emptyDb, n⟩ rs t) :
    ¬ SoundlyProvisioned ⟨emptyDb, n⟩ (rs ++ [.advanceProvisioningJob jobId]) := by
  intro hsound
  have hstep := exec_concat ⟨emptyDb, n⟩ rs (.advanceProvisioningJob jobId)
  have hinv := run_invariant n (rs ++ [.advanceProvisioningJob jobId])
  obtain ⟨job, hjob, htenantId, hcomplete⟩ := hstep.completes hlast
  obtain ⟨tenant, htenant⟩ := hinv.tenant jobId job hjob
  rw [htenantId] at htenant
  have hset' : ¬ FlagsSet ⟨emptyDb, n⟩ (rs ++ [.advanceProvisioningJob jobId]) t :=
    fun h => hset (flagsSet_of_advance h)
  have hflags := hinv.flags t tenant htenant hset'
  -- the tenant was there, and the last step has made it active
  obtain ⟨job₀, hjob₀, -, htenant₀⟩ := id hlast
  obtain ⟨tenant₀, ht₀⟩ := (run_invariant n rs).tenant jobId job₀ hjob₀
  have hstatus : statusOf (execAll ⟨emptyDb, n⟩ rs).db.tenancy t = some tenant₀.status := by
    rw [statusOf, ← htenant₀, ht₀]
    rfl
  have hactive := hstep.statusOf_lastStep hlast hstatus
  rw [statusOf, htenant, Option.map_some, Option.some.injEq] at hactive
  obtain ⟨hmem, rfl⟩ := Table.find?_eq_some.mp htenant
  refine hsound tenant hmem job (Table.find?_eq_some.mp hjob).1 htenantId hcomplete hset' ?_
  exact Tenant.isolationLevel_eq_breach.mpr ⟨by rw [hactive]; decide, .inl hflags.1⟩

/-- Provisioning ends in a sound tenant, at every point of a run, exactly when each last step of a
job comes after an update that has set a flag: the steps themselves set none. -/
theorem soundlyProvisioned_iff (n : ℕ) (rs : List TenancyRequest) :
    (∀ before after, rs = before ++ after → SoundlyProvisioned ⟨emptyDb, n⟩ before) ↔
      ∀ before jobId after, rs = before ++ .advanceProvisioningJob jobId :: after → ∀ t,
        LastStep (execAll ⟨emptyDb, n⟩ before).db.tenancy jobId t →
          FlagsSet ⟨emptyDb, n⟩ before t := by
  constructor
  · intro h before jobId after hrs t hlast
    by_contra hset
    exact breach_of_lastStep hlast hset (h _ after (by rw [hrs]; simp))
  · rintro h before after rfl tenant - job hjob htenant hcomplete hset
    have hfind := Table.find?_of_mem hjob
    obtain ⟨front, back, rfl, hlast⟩ :=
      (run_invariant n before).completed job.id job hfind hcomplete
    have hflags := h front job.id (back ++ after) (by simp) job.tenantId hlast
    exact absurd (htenant ▸ hflags.concat _) hset

/-- A tenant that all steps of its job have provisioned is in breach. -/
theorem provisioned_tenant_in_breach :
    let rs := sampleTenant :: List.replicate 6 (.advanceProvisioningJob 8)
    ((execAll ⟨emptyDb, 1⟩ rs).db.tenancy.provisioningJobs.rows.map fun j =>
        (j.tenantId, j.status, j.completedSteps)) = [(7, .complete, provisioningSteps)] ∧
      ((execAll ⟨emptyDb, 1⟩ rs).db.tenancy.tenants.rows.map fun t =>
        (t.id, t.status, t.isolationLevel)) = [(7, .active, "breach")] ∧
      ¬ SoundlyProvisioned ⟨emptyDb, 1⟩ rs := by
  intro rs
  have hjobs : ((execAll ⟨emptyDb, 1⟩ rs).db.tenancy.provisioningJobs.rows.map fun j =>
      (j.tenantId, j.status, j.completedSteps)) = [(7, .complete, provisioningSteps)] := by
    decide +kernel
  have htenants : ((execAll ⟨emptyDb, 1⟩ rs).db.tenancy.tenants.rows.map fun t =>
      (t.id, t.status, t.isolationLevel)) = [(7, .active, "breach")] := by
    decide +kernel
  refine ⟨hjobs, htenants, fun h => ?_⟩
  obtain ⟨tenant, htenant, hteq⟩ := List.mem_map.mp
    (htenants ▸ List.mem_singleton_self (7, TenantStatus.active, "breach"))
  obtain ⟨job, hjob, hjeq⟩ := List.mem_map.mp
    (hjobs ▸ List.mem_singleton_self (7, ProvisioningJobStatus.complete, provisioningSteps))
  simp only [Prod.mk.injEq] at hteq hjeq
  refine h tenant htenant job hjob (hjeq.1.trans hteq.1.symm) hjeq.2.1 ?_ hteq.2.2
  rintro ⟨before, payload, after, heq, -, -⟩
  have hmem : TenancyRequest.updateTenant tenant.id payload ∈ rs :=
    heq ▸ List.mem_append_right _ List.mem_cons_self
  rcases List.mem_cons.mp hmem with hnew | hadvance
  · cases hnew
  · cases List.eq_of_mem_replicate hadvance

end NexusEngine.TenantProvisioning
