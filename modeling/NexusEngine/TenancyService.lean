import NexusEngine.Database

/-!
# The service of tenants

A tenant is created with its provisioning job, changed by administrators and by the steps of the
job, and deleted with the rows that belong to it.
-/

namespace NexusEngine.TenancyService

open TransactionalRequests StoredColumns KeyedTables TenancyTables Database

/-- What an operation draws from its surroundings: the identifiers of the rows it inserts. -/
structure TenancyEnv where
  tenantId : Uuid
  jobId : Uuid

structure TenantCreate where
  slug : String
  orgId : String
  displayName : String
  tier : TenantTier
  isolationMode : IsolationMode := .strict
  region : String
  dbSchemaName : String
  networkCidr : Option String := none
  networkVpc : Option String := none
  networkShared : Bool := false
  dekLabel : Option String := none

def getTenant (tenantId : Uuid) : Service Tenant := do
  let tenant ← Request.select fun db => db.tenancy.tenants.find? tenantId
  found tenant (.http 404 "Tenant not found")

/-! ## Creating -/

def newTenant (env : TenancyEnv) (payload : TenantCreate) : Tenant where
  id := env.tenantId
  slug := payload.slug
  orgId := payload.orgId
  displayName := payload.displayName
  tier := payload.tier
  isolationMode := payload.isolationMode
  status := .provisioning
  region := payload.region
  dbSchemaName := payload.dbSchemaName
  dbSchemaValid := false
  networkCidr := payload.networkCidr
  networkVpc := payload.networkVpc
  networkShared := payload.networkShared
  dekLabel := payload.dekLabel
  encryptionValid := false
  eventsPerSecond := 0

def provisioningJob (env : TenancyEnv) (tenant : Tenant) : TenantProvisioningJob where
  id := env.jobId
  tenantId := tenant.id
  status := .running
  completedSteps := []
  currentStep := provisioningSteps.head?
  etaSeconds := none

/-- The insert would be an integrity error: the table refuses a row that an empty one takes. -/
def violatesUnique (s : TenancyStore) (tenant : Tenant) : Bool :=
  (TenancyStore.empty.insertTenant tenant).isSome && (s.insertTenant tenant).isNone

/-- The flush that a unique column rejects is answered with a conflict. -/
def createTenant (env : TenancyEnv) (payload : TenantCreate) : Service Tenant := do
  let tenant := newTenant env payload
  let duplicate ← Request.select fun db => violatesUnique db.tenancy tenant
  ensure (duplicate = false) (.http 409 "A tenant with this slug or org_id already exists")
  Request.send fun _ => [.tenancy (.insertTenant tenant)]
  Request.send fun _ => [.tenancy (.insertProvisioningJob (provisioningJob env tenant))]
  Request.commitTransaction
  let row ← Request.select fun db => db.tenancy.tenants.find? tenant.id
  found row .exception

/-! ## Changing -/

/-- The fields of a request body that the client has set, with `none` for `null`. -/
structure TenantUpdate where
  displayName : Option (Option String) := none
  tier : Option (Option TenantTier) := none
  isolationMode : Option (Option IsolationMode) := none
  region : Option (Option String) := none
  networkCidr : Option (Option String) := none
  networkVpc : Option (Option String) := none
  networkShared : Option (Option Bool) := none
  dekLabel : Option (Option String) := none
  dbSchemaValid : Option (Option Bool) := none
  encryptionValid : Option (Option Bool) := none
  eventsPerSecond : Option (Option Rat) := none

/-- The column is written where the attribute is set to another value than the loaded one. -/
def assigned {α : Type} [DecidableEq α] (old : Option α) :
    Option (Option α) → Option (Option α)
  | none => none
  | some new => changed old new

def TenantUpdate.patch (payload : TenantUpdate) (tenant : Tenant) : TenantPatch where
  displayName := assigned (some tenant.displayName) payload.displayName
  tier := assigned (some tenant.tier) payload.tier
  isolationMode := assigned (some tenant.isolationMode) payload.isolationMode
  region := assigned (some tenant.region) payload.region
  networkCidr := assigned tenant.networkCidr payload.networkCidr
  networkVpc := assigned tenant.networkVpc payload.networkVpc
  networkShared := assigned (some tenant.networkShared) payload.networkShared
  dekLabel := assigned tenant.dekLabel payload.dekLabel
  dbSchemaValid := assigned (some tenant.dbSchemaValid) payload.dbSchemaValid
  encryptionValid := assigned (some tenant.encryptionValid) payload.encryptionValid
  eventsPerSecond := assigned (some tenant.eventsPerSecond) payload.eventsPerSecond

/-- An object without a changed attribute is not written. -/
def tenantStatements (tenantId : Uuid) (patch : TenantPatch) : List Statement :=
  if patch = {} then [] else [.tenancy (.updateTenant tenantId patch)]

/-- Write the tenant, commit and load it again. -/
def saveTenant (tenantId : Uuid) (patch : TenantPatch) : Service Tenant := do
  Request.send fun _ => tenantStatements tenantId patch
  Request.commitTransaction
  let row ← Request.select fun db => db.tenancy.tenants.find? tenantId
  found row .exception

def updateTenant (tenantId : Uuid) (payload : TenantUpdate) : Service Tenant := do
  let tenant ← getTenant tenantId
  saveTenant tenantId (payload.patch tenant)

def setTenantStatus (tenantId : Uuid) (newStatus : TenantStatus) : Service Tenant := do
  let tenant ← getTenant tenantId
  saveTenant tenantId { status := (changed tenant.status newStatus).map some }

/-! ## Provisioning -/

def remainingSteps (completedSteps : List String) : List String :=
  provisioningSteps.filter fun s => s ∉ completedSteps

/-- The job after one more step. -/
def advancedJob (job : TenantProvisioningJob) (completedStep : String) : TenantProvisioningJob :=
  let completedSteps := job.completedSteps ++ [completedStep]
  let stillRemaining := remainingSteps completedSteps
  { job with
    completedSteps := completedSteps
    currentStep := stillRemaining.head?
    status := if stillRemaining = [] then .complete else job.status }

/-- The tenant is active with the last step. -/
def advancedTenant (job : TenantProvisioningJob) (tenant : Option Tenant) : List Statement :=
  match tenant with
  | none => []
  | some tenant =>
    if remainingSteps job.completedSteps = [] then
      tenantStatements tenant.id { status := (changed tenant.status .active).map some }
    else []

def advanceProvisioningJob (jobId : Uuid) : Service TenantProvisioningJob := do
  let row ← Request.select fun db => db.tenancy.provisioningJobs.find? jobId
  let job ← found row (.http 404 "Provisioning job not found")
  let tenant ← Request.select fun db => db.tenancy.tenants.find? job.tenantId
  match remainingSteps job.completedSteps with
  | [] => return job
  | completedStep :: _ => do
    let advanced := advancedJob job completedStep
    Request.send fun _ => advancedTenant advanced tenant ++
      [.tenancy (.updateProvisioningJob job.id (job.diff advanced))]
    Request.commitTransaction
    return advanced

/-! ## Deleting -/

/-- The deletes of the rows that the relationships of a tenant load, and of the tenant. -/
def deleteStatements (s : TenancyStore) (tenantId : Uuid) : List Statement :=
  let own := fun (rows : List TenantChild) => rows.filter fun r => r.tenantId = tenantId
  (s.provisioningJobs.rows.filter fun j => j.tenantId = tenantId).map
      (fun j => .tenancy (.deleteProvisioningJob j.id)) ++
    (own s.memberships.rows).map (fun m => .tenancy (.deleteMembership m.id)) ++
    (own s.schemaValidations.rows).map (fun v => .tenancy (.deleteSchemaValidation v.id)) ++
    (own s.backupSnapshots.rows).map (fun b => .tenancy (.deleteBackupSnapshot b.id)) ++
    [.deleteTenant tenantId]

def deleteTenant (tenantId : Uuid) : Service Unit := do
  let tenant ← getTenant tenantId
  let statements ← Request.select fun db => deleteStatements db.tenancy tenant.id
  Request.send fun _ => statements
  Request.commitTransaction

end NexusEngine.TenancyService
