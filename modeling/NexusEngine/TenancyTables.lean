import NexusEngine.StoredColumns
import NexusEngine.KeyedTables

/-!
# The tables of tenancy

Tenants and the rows that refer to them. Of the rows that no modelled service writes only the
identifiers and the references are kept: deleting a tenant deletes the ones and clears the
reference of the others.
-/

namespace NexusEngine.TenancyTables

open StoredColumns KeyedTables

inductive TenantTier where
  | enterprise | premium | standard
  deriving DecidableEq, Repr

def TenantTier.value : TenantTier → String
  | .enterprise => "enterprise"
  | .premium => "premium"
  | .standard => "standard"

inductive IsolationMode where
  | strict | standard | shared
  deriving DecidableEq, Repr

def IsolationMode.value : IsolationMode → String
  | .strict => "strict"
  | .standard => "standard"
  | .shared => "shared"

inductive TenantStatus where
  | active | provisioning | suspended | decommissioned
  deriving DecidableEq, Repr

structure Tenant where
  id : Uuid
  slug : String
  orgId : String
  displayName : String
  tier : TenantTier
  isolationMode : IsolationMode
  status : TenantStatus
  region : String
  dbSchemaName : String
  dbSchemaValid : Bool
  networkCidr : Option String
  networkVpc : Option String
  networkShared : Bool
  dekLabel : Option String
  encryptionValid : Bool
  eventsPerSecond : Rat
  deriving DecidableEq, Repr

/-- The weighted posture: a valid schema and encryption weigh more than a network of its own. -/
def Tenant.isolationScore (t : Tenant) : Rat :=
  (if t.dbSchemaValid then 40 else 0) + (if t.networkShared then 0 else 20) +
    (if t.encryptionValid then 40 else 0)

def Tenant.isolationLevel (t : Tenant) : String :=
  if t.status = .provisioning then "pending"
  else if !t.dbSchemaValid || !t.encryptionValid then "breach"
  else if t.networkShared then "partial"
  else "strict"

theorem Tenant.isolationLevel_eq_breach {t : Tenant} :
    t.isolationLevel = "breach" ↔
      t.status ≠ .provisioning ∧ (t.dbSchemaValid = false ∨ t.encryptionValid = false) := by
  unfold isolationLevel
  split
  · simp [*]
  · split
    · simp_all
    · split <;> simp_all

inductive ProvisioningJobStatus where
  | running | paused | complete | aborted
  deriving DecidableEq, Repr

def ProvisioningJobStatus.value : ProvisioningJobStatus → String
  | .running => "running"
  | .paused => "paused"
  | .complete => "complete"
  | .aborted => "aborted"

def provisioningSteps : List String :=
  ["org_namespace_created", "network_policy_applied", "schema_migration", "dek_generation",
    "isolation_validation", "initial_snapshot"]

structure TenantProvisioningJob where
  id : Uuid
  tenantId : Uuid
  status : ProvisioningJobStatus
  completedSteps : List String
  currentStep : Option String
  etaSeconds : Option ℤ
  deriving DecidableEq, Repr

/-- A membership, a schema validation or a backup snapshot: it is deleted with its tenant. -/
structure TenantChild where
  id : Uuid
  tenantId : Uuid
  deriving DecidableEq, Repr

/-- The columns of an `UPDATE` of a tenant, with `none` for the value `NULL`. -/
structure TenantPatch where
  displayName : Option (Option String) := none
  tier : Option (Option TenantTier) := none
  isolationMode : Option (Option IsolationMode) := none
  status : Option (Option TenantStatus) := none
  region : Option (Option String) := none
  dbSchemaValid : Option (Option Bool) := none
  networkCidr : Option (Option String) := none
  networkVpc : Option (Option String) := none
  networkShared : Option (Option Bool) := none
  dekLabel : Option (Option String) := none
  encryptionValid : Option (Option Bool) := none
  eventsPerSecond : Option (Option Rat) := none
  deriving DecidableEq

/-- A `NOT NULL` column that an update writes. -/
def notNull {α : Type} (column : α → Option α) : Option (Option α) → Option (Option (Option α))
  | none => some none
  | some none => none
  | some (some a) => (column a).map fun a => some (some a)

theorem notNull_some {α : Type} {v v' : Option (Option α)} (h : notNull some v = some v') :
    v' = v := by
  rcases v with _ | _ | a
  · cases h
    rfl
  · cases h
  · cases h
    rfl

/-- The patch with its values bound to the columns. -/
def TenantPatch.bound (p : TenantPatch) : Option TenantPatch := do
  let displayName ← notNull (varchar 120) p.displayName
  let tier ← notNull some p.tier
  let isolationMode ← notNull some p.isolationMode
  let status ← notNull some p.status
  let region ← notNull (varchar 40) p.region
  let dbSchemaValid ← notNull some p.dbSchemaValid
  let networkCidr ← nullable (nullable (varchar 40)) p.networkCidr
  let networkVpc ← nullable (nullable (varchar 30)) p.networkVpc
  let networkShared ← notNull some p.networkShared
  let dekLabel ← nullable (nullable (varchar 60)) p.dekLabel
  let encryptionValid ← notNull some p.encryptionValid
  let eventsPerSecond ← notNull some p.eventsPerSecond
  return ⟨displayName, tier, isolationMode, status, region, dbSchemaValid, networkCidr, networkVpc,
    networkShared, dekLabel, encryptionValid, eventsPerSecond⟩

def TenantPatch.apply (p : TenantPatch) (t : Tenant) : Tenant :=
  { t with
    displayName := (p.displayName.getD none).getD t.displayName
    tier := (p.tier.getD none).getD t.tier
    isolationMode := (p.isolationMode.getD none).getD t.isolationMode
    status := (p.status.getD none).getD t.status
    region := (p.region.getD none).getD t.region
    dbSchemaValid := (p.dbSchemaValid.getD none).getD t.dbSchemaValid
    networkCidr := p.networkCidr.getD t.networkCidr
    networkVpc := p.networkVpc.getD t.networkVpc
    networkShared := (p.networkShared.getD none).getD t.networkShared
    dekLabel := p.dekLabel.getD t.dekLabel
    encryptionValid := (p.encryptionValid.getD none).getD t.encryptionValid
    eventsPerSecond := (p.eventsPerSecond.getD none).getD t.eventsPerSecond }

theorem TenantPatch.bound_eq_some {p b : TenantPatch} :
    p.bound = some b ↔
      notNull (varchar 120) p.displayName = some b.displayName ∧ notNull some p.tier = some b.tier ∧
      notNull some p.isolationMode = some b.isolationMode ∧ notNull some p.status = some b.status ∧
      notNull (varchar 40) p.region = some b.region ∧
      notNull some p.dbSchemaValid = some b.dbSchemaValid ∧
      nullable (nullable (varchar 40)) p.networkCidr = some b.networkCidr ∧
      nullable (nullable (varchar 30)) p.networkVpc = some b.networkVpc ∧
      notNull some p.networkShared = some b.networkShared ∧
      nullable (nullable (varchar 60)) p.dekLabel = some b.dekLabel ∧
      notNull some p.encryptionValid = some b.encryptionValid ∧
      notNull some p.eventsPerSecond = some b.eventsPerSecond := by
  constructor
  · intro h
    obtain ⟨_, h₁, h⟩ := Option.bind_eq_some_iff.mp h
    obtain ⟨_, h₂, h⟩ := Option.bind_eq_some_iff.mp h
    obtain ⟨_, h₃, h⟩ := Option.bind_eq_some_iff.mp h
    obtain ⟨_, h₄, h⟩ := Option.bind_eq_some_iff.mp h
    obtain ⟨_, h₅, h⟩ := Option.bind_eq_some_iff.mp h
    obtain ⟨_, h₆, h⟩ := Option.bind_eq_some_iff.mp h
    obtain ⟨_, h₇, h⟩ := Option.bind_eq_some_iff.mp h
    obtain ⟨_, h₈, h⟩ := Option.bind_eq_some_iff.mp h
    obtain ⟨_, h₉, h⟩ := Option.bind_eq_some_iff.mp h
    obtain ⟨_, h₁₀, h⟩ := Option.bind_eq_some_iff.mp h
    obtain ⟨_, h₁₁, h⟩ := Option.bind_eq_some_iff.mp h
    obtain ⟨_, h₁₂, h⟩ := Option.bind_eq_some_iff.mp h
    cases h
    exact ⟨h₁, h₂, h₃, h₄, h₅, h₆, h₇, h₈, h₉, h₁₀, h₁₁, h₁₂⟩
  · rintro ⟨h₁, h₂, h₃, h₄, h₅, h₆, h₇, h₈, h₉, h₁₀, h₁₁, h₁₂⟩
    simp [TenantPatch.bound, h₁, h₂, h₃, h₄, h₅, h₆, h₇, h₈, h₉, h₁₀, h₁₁, h₁₂]

/-- Binding changes texts only. -/
structure TenantPatch.Binds (p p' : TenantPatch) : Prop where
  status : p'.status = p.status
  dbSchemaValid : p'.dbSchemaValid = p.dbSchemaValid
  encryptionValid : p'.encryptionValid = p.encryptionValid
  notNull : p.status ≠ some none ∧ p.dbSchemaValid ≠ some none ∧ p.encryptionValid ≠ some none

theorem TenantPatch.binds {p p' : TenantPatch} (h : p.bound = some p') : p.Binds p' := by
  have written : ∀ {α : Type} {v v' : Option (Option α)}, TenancyTables.notNull some v = some v' →
      v ≠ some none := by
    rintro α v v' hv rfl
    cases hv
  obtain ⟨-, -, -, hstatus, -, hschema, -, -, -, -, hencryption, -⟩ :=
    TenantPatch.bound_eq_some.mp h
  exact ⟨notNull_some hstatus, notNull_some hschema, notNull_some hencryption, written hstatus,
    written hschema, written hencryption⟩

structure TenantProvisioningJobPatch where
  status : Option ProvisioningJobStatus
  completedSteps : Option (List String)
  currentStep : Option (Option String)
  deriving DecidableEq

def TenantProvisioningJob.diff (old new : TenantProvisioningJob) : TenantProvisioningJobPatch where
  status := changed old.status new.status
  completedSteps := changed old.completedSteps new.completedSteps
  currentStep := changed old.currentStep new.currentStep

structure BreachAlert where
  id : Uuid
  sourceTenantId : Option Uuid
  targetTenantId : Option Uuid
  deriving DecidableEq, Repr

structure ComplianceViolation where
  id : Uuid
  tenantId : Option Uuid
  deriving DecidableEq, Repr

structure TenancyStore where
  tenants : Table Tenant Uuid Tenant.id
  provisioningJobs : Table TenantProvisioningJob Uuid TenantProvisioningJob.id
  memberships : Table TenantChild Uuid TenantChild.id
  schemaValidations : Table TenantChild Uuid TenantChild.id
  backupSnapshots : Table TenantChild Uuid TenantChild.id
  breachAlerts : List BreachAlert
  complianceViolations : List ComplianceViolation

def TenancyStore.empty : TenancyStore := ⟨.empty, .empty, .empty, .empty, .empty, [], []⟩

/-! ## Statements -/

inductive TenancyStatement where
  | insertTenant (t : Tenant)
  | updateTenant (id : Uuid) (patch : TenantPatch)
  | insertProvisioningJob (j : TenantProvisioningJob)
  | updateProvisioningJob (id : Uuid) (patch : TenantProvisioningJobPatch)
  | deleteProvisioningJob (id : Uuid)
  | deleteMembership (id : Uuid)
  | deleteSchemaValidation (id : Uuid)
  | deleteBackupSnapshot (id : Uuid)
  deriving DecidableEq

namespace TenancyStore

def insertTenant (s : TenancyStore) (t : Tenant) : Option TenancyStore := do
  let slug ← varchar 80 t.slug
  let orgId ← varchar 20 t.orgId
  let displayName ← varchar 120 t.displayName
  let region ← varchar 40 t.region
  let dbSchemaName ← varchar 80 t.dbSchemaName
  let networkCidr ← nullable (varchar 40) t.networkCidr
  let networkVpc ← nullable (varchar 30) t.networkVpc
  let dekLabel ← nullable (varchar 60) t.dekLabel
  if s.tenants.rows.any fun r => r.slug == slug || r.orgId == orgId then none
  else
    let tenants ← s.tenants.insert
      { t with
        slug := slug
        orgId := orgId
        displayName := displayName
        region := region
        dbSchemaName := dbSchemaName
        networkCidr := networkCidr
        networkVpc := networkVpc
        dekLabel := dekLabel }
    return { s with tenants := tenants }

def updateTenant (s : TenancyStore) (id : Uuid) (patch : TenantPatch) : Option TenancyStore := do
  let patch ← patch.bound
  let tenants ← s.tenants.update id patch.apply fun _ => rfl
  return { s with tenants := tenants }

def insertProvisioningJob (s : TenancyStore) (j : TenantProvisioningJob) :
    Option TenancyStore := do
  let currentStep ← nullable (varchar 60) j.currentStep
  if (s.tenants.find? j.tenantId).isSome then
    let jobs ← s.provisioningJobs.insert { j with currentStep := currentStep }
    return { s with provisioningJobs := jobs }
  else none

def updateProvisioningJob (s : TenancyStore) (id : Uuid) (patch : TenantProvisioningJobPatch) :
    Option TenancyStore := do
  let currentStep ← nullable (nullable (varchar 60)) patch.currentStep
  let jobs ← s.provisioningJobs.update id
    (fun j =>
      { j with
        status := patch.status.getD j.status
        completedSteps := patch.completedSteps.getD j.completedSteps
        currentStep := currentStep.getD j.currentStep })
    fun _ => rfl
  return { s with provisioningJobs := jobs }

/-- The tenant goes, and with it its reference in every row that has one. -/
def deleteTenant (s : TenancyStore) (id : Uuid) : TenancyStore where
  tenants := s.tenants.delete id
  provisioningJobs := s.provisioningJobs.filter fun j => j.tenantId != id
  memberships := s.memberships.filter fun m => m.tenantId != id
  schemaValidations := s.schemaValidations.filter fun v => v.tenantId != id
  backupSnapshots := s.backupSnapshots.filter fun b => b.tenantId != id
  breachAlerts := s.breachAlerts.map fun a =>
    { a with
      sourceTenantId := if a.sourceTenantId = some id then none else a.sourceTenantId
      targetTenantId := if a.targetTenantId = some id then none else a.targetTenantId }
  complianceViolations := s.complianceViolations.map fun v =>
    if v.tenantId = some id then { v with tenantId := none } else v

end TenancyStore

def TenancyStatement.apply : TenancyStatement → TenancyStore → Option TenancyStore
  | .insertTenant t, s => s.insertTenant t
  | .updateTenant id patch, s => s.updateTenant id patch
  | .insertProvisioningJob j, s => s.insertProvisioningJob j
  | .updateProvisioningJob id patch, s => s.updateProvisioningJob id patch
  | .deleteProvisioningJob id, s =>
    some { s with provisioningJobs := s.provisioningJobs.delete id }
  | .deleteMembership id, s => some { s with memberships := s.memberships.delete id }
  | .deleteSchemaValidation id, s =>
    some { s with schemaValidations := s.schemaValidations.delete id }
  | .deleteBackupSnapshot id, s => some { s with backupSnapshots := s.backupSnapshots.delete id }

def TenancyStatement.conflicts : TenancyStatement → TenancyStatement → Bool
  | .insertTenant t, .insertTenant t' => t.id == t'.id || t.slug == t'.slug || t.orgId == t'.orgId
  | .updateTenant id _, .updateTenant id' _ => id == id'
  | .insertProvisioningJob j, .insertProvisioningJob j' => j.id == j'.id
  | .updateProvisioningJob id _, .updateProvisioningJob id' _ => id == id'
  | .deleteProvisioningJob id, .deleteProvisioningJob id' => id == id'
  | .deleteMembership id, .deleteMembership id' => id == id'
  | .deleteSchemaValidation id, .deleteSchemaValidation id' => id == id'
  | .deleteBackupSnapshot id, .deleteBackupSnapshot id' => id == id'
  | _, _ => false

end NexusEngine.TenancyTables
