import NexusEngine.EngineService
import NexusEngine.TenantAttribution

/-!
# The overview of tenancy and the usage of a tenant

The overview classifies every backup snapshot by the time that has passed since it was taken. The
usage of a tenant counts its current snapshots by a query with a time that was computed before.
-/

namespace NexusEngine.TenancyScreens

open TransactionalRequests CalendarTime StoredColumns KeyedTables TenancyTables Database
  TenancyService RankedRows
open TenantAttribution (TenantStatus.value)
open TenancyLifecycle (sampleTenantCreate)
open EngineService (roundTo)

/-! ## Columns that only the screens read -/

inductive SnapshotStatus where
  | current | stale | pending
  deriving DecidableEq, Repr

def SnapshotStatus.value : SnapshotStatus → String
  | .current => "current"
  | .stale => "stale"
  | .pending => "pending"

structure TenantBackupSnapshot where
  status : SnapshotStatus
  sizeBytes : Option ℤ
  takenAt : Option Instant
  retentionDays : ℤ
  retainedCount : ℤ
  staleReason : Option String
  deriving DecidableEq, Repr

structure TenantSchemaValidation where
  schemaName : String
  schemaVersion : String
  tableCount : Option ℤ
  status : String
  detail : Option String
  validatedAt : Instant
  deriving DecidableEq, Repr

inductive BreachSeverity where
  | critical | warning
  deriving DecidableEq, Repr

def BreachSeverity.value : BreachSeverity → String
  | .critical => "critical"
  | .warning => "warning"

structure BreachAlertDetail where
  severity : BreachSeverity
  title : String
  description : String
  resource : Option String
  principal : Option String
  actionTaken : Option String
  detectedAt : Instant
  dismissed : Bool
  deriving DecidableEq, Repr

/-- The columns of the rows of the store, by their identifiers. -/
structure ScreenColumns where
  snapshot : Uuid → TenantBackupSnapshot
  validation : Uuid → TenantSchemaValidation
  alert : Uuid → BreachAlertDetail

/-- The orders in which the queries of the overview return rows: of the tenants by their names, of
the jobs by their creation, of the other rows as the database likes. -/
structure ScreenOrders where
  tenants : Uuid → Uuid → Bool
  jobs : Uuid → Uuid → Bool
  validations : Uuid → Uuid → Bool
  snapshots : Uuid → Uuid → Bool

/-! ## Responses -/

structure TenantRead where
  id : Uuid
  slug : String
  orgId : String
  displayName : String
  tier : String
  isolationMode : String
  status : String
  region : String
  dbSchemaName : String
  dbSchemaValid : Bool
  networkCidr : Option String
  networkVpc : Option String
  networkShared : Bool
  dekLabel : Option String
  encryptionValid : Bool
  eventsPerSecond : ℚ
  isolationScore : ℚ
  isolationLevel : String
  deriving DecidableEq, Repr

structure IsolationSummary where
  enforced : ℕ
  partialCount : ℕ
  breach : ℕ
  pending : ℕ
  total : ℕ
  deriving DecidableEq, Repr

structure BreachAlertRead where
  id : Uuid
  severity : String
  title : String
  description : String
  sourceTenantSlug : Option String
  targetTenantSlug : Option String
  resource : Option String
  principal : Option String
  actionTaken : Option String
  detectedAt : Instant
  dismissed : Bool
  deriving DecidableEq, Repr

structure ProvisioningStepRead where
  stepKey : String
  label : String
  status : String
  deriving DecidableEq, Repr

structure ProvisioningJobRead where
  id : Uuid
  tenantSlug : String
  status : String
  percentComplete : ℤ
  steps : List ProvisioningStepRead
  etaSeconds : Option ℤ
  deriving DecidableEq, Repr

structure TenantSchemaValidationRead where
  tenantSlug : String
  schemaName : String
  schemaVersion : String
  tableCount : Option ℤ
  status : String
  detail : Option String
  validatedAt : Instant
  deriving DecidableEq, Repr

structure BackupSnapshotRead where
  tenantSlug : String
  status : String
  sizeBytes : Option ℤ
  takenAt : Option Instant
  ageHours : Option ℚ
  retentionDays : ℤ
  retainedCount : ℤ
  staleReason : Option String
  deriving DecidableEq, Repr

structure TenancyOverview where
  tenants : List TenantRead
  isolationSummary : IsolationSummary
  breachAlerts : List BreachAlertRead
  activeProvisioning : List ProvisioningJobRead
  schemaValidations : List TenantSchemaValidationRead
  backupSnapshots : List BackupSnapshotRead
  totalEventsPerSecond : ℚ
  deriving DecidableEq, Repr

structure TenantUsageSummary where
  tenantId : Uuid
  slug : String
  displayName : String
  status : String
  memberCount : ℕ
  eventsPerSecond : ℚ
  provisioningJobsTotal : ℕ
  activeProvisioningJobs : ℕ
  schemaValidationsTotal : ℕ
  backupSnapshotsTotal : ℕ
  currentBackupSnapshots : ℕ
  isolationScore : ℚ
  isolationLevel : String
  deriving DecidableEq, Repr

/-! ## The overview -/

def tenantToRead (tenant : Tenant) : TenantRead where
  id := tenant.id
  slug := tenant.slug
  orgId := tenant.orgId
  displayName := tenant.displayName
  tier := tenant.tier.value
  isolationMode := tenant.isolationMode.value
  status := TenantStatus.value tenant.status
  region := tenant.region
  dbSchemaName := tenant.dbSchemaName
  dbSchemaValid := tenant.dbSchemaValid
  networkCidr := tenant.networkCidr
  networkVpc := tenant.networkVpc
  networkShared := tenant.networkShared
  dekLabel := tenant.dekLabel
  encryptionValid := tenant.encryptionValid
  eventsPerSecond := tenant.eventsPerSecond
  isolationScore := tenant.isolationScore
  isolationLevel := tenant.isolationLevel

def isolationSummary (tenants : List Tenant) : IsolationSummary where
  enforced := tenants.countP fun t => t.isolationLevel = "strict"
  partialCount := tenants.countP fun t => t.isolationLevel = "partial"
  breach := tenants.countP fun t => t.isolationLevel = "breach"
  pending := tenants.countP fun t => t.isolationLevel = "pending"
  total := tenants.length

def stepLabel : String → String
  | "org_namespace_created" => "Org namespace created"
  | "network_policy_applied" => "VPC + network policy applied"
  | "schema_migration" => "Schema migration running"
  | "dek_generation" => "DEK generation & HSM binding"
  | "isolation_validation" => "Isolation boundary validation"
  | "initial_snapshot" => "Initial backup snapshot"
  | step => step

/-- The loop over the steps, with whether the current one has been passed. -/
def stepReads (job : TenantProvisioningJob) : Bool → List String → List ProvisioningStepRead
  | _, [] => []
  | reachedCurrent, step :: steps =>
    if step ∈ job.completedSteps then
      ⟨step, stepLabel step, "done"⟩ :: stepReads job reachedCurrent steps
    else if reachedCurrent = false ∧ job.currentStep = some step then
      ⟨step, stepLabel step, "in_progress"⟩ :: stepReads job true steps
    else ⟨step, stepLabel step, "pending"⟩ :: stepReads job reachedCurrent steps

def provisioningJobToRead (job : TenantProvisioningJob) (tenantSlug : String) :
    ProvisioningJobRead where
  id := job.id
  tenantSlug := tenantSlug
  status := job.status.value
  percentComplete := ⌊roundTo 0 ((job.completedSteps.length : ℚ) / provisioningSteps.length * 100)⌋
  steps := stepReads job false provisioningSteps
  etaSeconds := job.etaSeconds

def staleSnapshotAfterHours : ℕ := 24

/-- Hours in microseconds. -/
def hours (n : ℕ) : ℕ := n * 3600000000

/-- The microseconds between two instants. -/
def elapsed (now earlier : Instant) : ℤ := Int.ofNat now - Int.ofNat earlier

def effectiveSnapshotStatus (snapshot : TenantBackupSnapshot) (now : Instant) : String :=
  if snapshot.status = .pending then SnapshotStatus.pending.value
  else if snapshot.takenAt.any fun takenAt => hours staleSnapshotAfterHours < elapsed now takenAt then
    SnapshotStatus.stale.value
  else SnapshotStatus.current.value

def breachAlertRead (tenants : List Tenant) (alert : BreachAlert) (detail : BreachAlertDetail) :
    BreachAlertRead where
  id := alert.id
  severity := detail.severity.value
  title := detail.title
  description := detail.description
  sourceTenantSlug := (alert.sourceTenantId.bind fun id => tenants.find? fun t => t.id = id).map
    Tenant.slug
  targetTenantSlug := (alert.targetTenantId.bind fun id => tenants.find? fun t => t.id = id).map
    Tenant.slug
  resource := detail.resource
  principal := detail.principal
  actionTaken := detail.actionTaken
  detectedAt := detail.detectedAt
  dismissed := detail.dismissed

def schemaValidationRead (tenant : Tenant) (v : TenantSchemaValidation) :
    TenantSchemaValidationRead where
  tenantSlug := tenant.slug
  schemaName := v.schemaName
  schemaVersion := v.schemaVersion
  tableCount := v.tableCount
  status := v.status
  detail := v.detail
  validatedAt := v.validatedAt

def backupSnapshotRead (now : Instant) (tenant : Tenant) (s : TenantBackupSnapshot) :
    BackupSnapshotRead where
  tenantSlug := tenant.slug
  status := effectiveSnapshotStatus s now
  sizeBytes := s.sizeBytes
  takenAt := s.takenAt
  ageHours := s.takenAt.map fun takenAt => roundTo 1 (elapsed now takenAt / hours 1)
  retentionDays := s.retentionDays
  retainedCount := s.retainedCount
  staleReason := s.staleReason

/-- The rows of a query with the tenants that they belong to. A row without one would be an
attribute error. -/
def withTenants (s : TenancyStore) (children : List TenantChild) :
    Option (List (TenantChild × Tenant)) :=
  children.mapM fun c => (s.tenants.find? c.tenantId).map fun tenant => (c, tenant)

def getTenancyOverview (columns : ScreenColumns) (orders : ScreenOrders) (now : Instant) :
    Service TenancyOverview := do
  let tenants ← Request.select fun db => db.tenancy.tenants.scan orders.tenants
  let alerts ← Request.select fun db =>
    fromLargest (fun a => (columns.alert a.id).detectedAt)
      (db.tenancy.breachAlerts.filter fun a => !(columns.alert a.id).dismissed)
  let jobs ← Request.select fun db =>
    (db.tenancy.provisioningJobs.scan orders.jobs).map fun j =>
      (j, db.tenancy.tenants.find? j.tenantId)
  let validations ← Request.select fun db => withTenants db.tenancy
    ((fromLargest (fun v => (columns.validation v.id).validatedAt)
      (db.tenancy.schemaValidations.scan orders.validations)).take 20)
  let snapshots ← Request.select fun db =>
    withTenants db.tenancy (db.tenancy.backupSnapshots.scan orders.snapshots)
  let validations ← found validations .exception
  let snapshots ← found snapshots .exception
  return {
    tenants := tenants.map tenantToRead
    isolationSummary := isolationSummary tenants
    breachAlerts := alerts.map fun a => breachAlertRead tenants a (columns.alert a.id)
    activeProvisioning := jobs.filterMap fun j =>
      j.2.map fun tenant => provisioningJobToRead j.1 tenant.slug
    schemaValidations := validations.map fun v =>
      schemaValidationRead v.2 (columns.validation v.1.id)
    backupSnapshots := snapshots.map fun s => backupSnapshotRead now s.2 (columns.snapshot s.1.id)
    totalEventsPerSecond := roundTo 1 (tenants.map Tenant.eventsPerSecond).sum }

/-! ## The usage of a tenant -/

/-- The calendar begins with the year 1. -/
def subHours (t : Instant) (n : ℕ) : Option Instant :=
  if hours n ≤ t then some (t - hours n) else none

/-- The condition of the query for current snapshots. -/
def isCurrent (staleCutoff : Instant) (snapshot : TenantBackupSnapshot) : Bool :=
  snapshot.status ≠ .pending && snapshot.takenAt.all fun takenAt => staleCutoff ≤ takenAt

def getTenantUsage (columns : ScreenColumns) (now : Instant) (tenantId : Uuid) :
    Service TenantUsageSummary := do
  let tenant ← getTenant tenantId
  let ofTenant := fun (rows : List TenantChild) => rows.countP fun r => r.tenantId = tenantId
  let memberCount ← Request.select fun db => ofTenant db.tenancy.memberships.rows
  let provisioningTotal ← Request.select fun db =>
    db.tenancy.provisioningJobs.rows.countP fun j => j.tenantId = tenantId
  let provisioningActive ← Request.select fun db =>
    db.tenancy.provisioningJobs.rows.countP fun j => j.tenantId = tenantId && j.status = .running
  let schemaTotal ← Request.select fun db => ofTenant db.tenancy.schemaValidations.rows
  let snapshotTotal ← Request.select fun db => ofTenant db.tenancy.backupSnapshots.rows
  let staleCutoff ← found (subHours now staleSnapshotAfterHours) .exception
  let snapshotCurrent ← Request.select fun db => db.tenancy.backupSnapshots.rows.countP fun b =>
    b.tenantId = tenantId && isCurrent staleCutoff (columns.snapshot b.id)
  return {
    tenantId := tenant.id
    slug := tenant.slug
    displayName := tenant.displayName
    status := TenantStatus.value tenant.status
    memberCount := memberCount
    eventsPerSecond := tenant.eventsPerSecond
    provisioningJobsTotal := provisioningTotal
    activeProvisioningJobs := provisioningActive
    schemaValidationsTotal := schemaTotal
    backupSnapshotsTotal := snapshotTotal
    currentBackupSnapshots := snapshotCurrent
    isolationScore := tenant.isolationScore
    isolationLevel := tenant.isolationLevel }

/-! ## Constraints of the tables -/

/-- Slugs are unique, and a snapshot or a validation has its tenant. -/
structure Constraints (s : TenancyStore) : Prop where
  slugs : (s.tenants.rows.map Tenant.slug).Nodup
  snapshots : ∀ b ∈ s.backupSnapshots.rows, b.tenantId ∈ s.tenants.rows.map Tenant.id
  validations : ∀ v ∈ s.schemaValidations.rows, v.tenantId ∈ s.tenants.rows.map Tenant.id

theorem constraints_empty : Constraints .empty where
  slugs := List.nodup_nil
  snapshots := fun _ hb => nomatch hb
  validations := fun _ hv => nomatch hv

section

variable {s s' : TenancyStore}

theorem Constraints.insertTenant {t : Tenant} (h : Constraints s) (hs : s.insertTenant t = some s') :
    Constraints s' := by
  simp only [TenancyStore.insertTenant, Option.bind_eq_bind, Option.bind_eq_some_iff,
    Option.ite_none_left_eq_some, Option.pure_def, Option.some.injEq] at hs
  obtain ⟨slug, -, orgId, -, displayName, -, region, -, schema, -, cidr, -, vpc, -, dek, -, hnew,
    tenants, htenants, rfl⟩ := hs
  obtain ⟨-, hrows⟩ := Table.insert_eq_some.mp htenants
  have hids : ∀ id ∈ s.tenants.rows.map Tenant.id, id ∈ tenants.rows.map Tenant.id := by
    intro id hid
    rw [hrows, List.map_append]
    exact List.mem_append_left _ hid
  refine ⟨?_, fun b hb => hids _ (h.snapshots b hb), fun v hv => hids _ (h.validations v hv)⟩
  rw [hrows, List.map_append, List.map_singleton, List.nodup_append]
  refine ⟨h.slugs, List.nodup_singleton _, fun a ha b hb hab => hnew ?_⟩
  obtain ⟨r, hr, hslug⟩ := List.mem_map.mp ha
  rw [List.any_eq_true]
  refine ⟨r, hr, ?_⟩
  rw [hslug, hab, List.mem_singleton.mp hb]
  simp

theorem Constraints.updateTenant {id : Uuid} {patch : TenantPatch} (h : Constraints s)
    (hs : s.updateTenant id patch = some s') : Constraints s' := by
  simp only [TenancyStore.updateTenant, Option.bind_eq_bind, Option.bind_eq_some_iff,
    Option.pure_def, Option.some.injEq] at hs
  obtain ⟨bound, -, tenants, htenants, rfl⟩ := hs
  have hrows := (Table.update_eq_some.mp htenants).2
  have hslugs : tenants.rows.map Tenant.slug = s.tenants.rows.map Tenant.slug := by
    rw [hrows, List.map_map]
    apply List.map_congr_left
    intro t _
    simp only [Function.comp_apply]
    split <;> rfl
  have hids : tenants.rows.map Tenant.id = s.tenants.rows.map Tenant.id := by
    rw [hrows, List.map_map]
    apply List.map_congr_left
    intro t _
    simp only [Function.comp_apply]
    split <;> rfl
  exact ⟨hslugs ▸ h.slugs, fun b hb => hids ▸ h.snapshots b hb,
    fun v hv => hids ▸ h.validations v hv⟩

/-- Fewer snapshots and validations. -/
theorem Constraints.shrink (h : Constraints s) (htenants : s'.tenants = s.tenants)
    (hsnapshots : s'.backupSnapshots.rows ⊆ s.backupSnapshots.rows)
    (hvalidations : s'.schemaValidations.rows ⊆ s.schemaValidations.rows) : Constraints s' where
  slugs := htenants ▸ h.slugs
  snapshots := fun b hb => htenants ▸ h.snapshots b (hsnapshots hb)
  validations := fun v hv => htenants ▸ h.validations v (hvalidations hv)

theorem Constraints.deleteTenant (h : Constraints s) (id : Uuid) :
    Constraints (s.deleteTenant id) := by
  have hkept : ∀ k ∈ s.tenants.rows.map Tenant.id, k ≠ id →
      k ∈ (s.tenants.delete id).rows.map Tenant.id := by
    intro k hk hne
    obtain ⟨t, ht, rfl⟩ := List.mem_map.mp hk
    exact List.mem_map_of_mem (List.mem_filter.mpr ⟨ht, by simpa using hne⟩)
  constructor
  · exact h.slugs.sublist (List.filter_sublist.map _)
  · intro b hb
    obtain ⟨hb, hne⟩ := List.mem_filter.mp hb
    exact hkept _ (h.snapshots b hb) (by simpa using hne)
  · intro v hv
    obtain ⟨hv, hne⟩ := List.mem_filter.mp hv
    exact hkept _ (h.validations v hv) (by simpa using hne)

theorem Constraints.statement {statement : TenancyStatement} (h : Constraints s)
    (hs : statement.apply s = some s') : Constraints s' := by
  cases statement with
  | insertTenant t => exact h.insertTenant hs
  | updateTenant id patch => exact h.updateTenant hs
  | insertProvisioningJob j =>
    simp only [TenancyStatement.apply, TenancyStore.insertProvisioningJob, Option.bind_eq_bind,
      Option.bind_eq_some_iff, Option.ite_none_right_eq_some, Option.pure_def,
      Option.some.injEq] at hs
    obtain ⟨_, -, -, _, -, rfl⟩ := hs
    exact h.shrink rfl (fun _ hb => hb) fun _ hv => hv
  | updateProvisioningJob id patch =>
    simp only [TenancyStatement.apply, TenancyStore.updateProvisioningJob, Option.bind_eq_bind,
      Option.bind_eq_some_iff, Option.pure_def, Option.some.injEq] at hs
    obtain ⟨_, -, _, -, rfl⟩ := hs
    exact h.shrink rfl (fun _ hb => hb) fun _ hv => hv
  | deleteProvisioningJob id =>
    obtain rfl := Option.some.inj hs
    exact h.shrink rfl (fun _ hb => hb) fun _ hv => hv
  | deleteMembership id =>
    obtain rfl := Option.some.inj hs
    exact h.shrink rfl (fun _ hb => hb) fun _ hv => hv
  | deleteSchemaValidation id =>
    obtain rfl := Option.some.inj hs
    exact h.shrink rfl (fun _ hb => hb) (TenancyLifecycle.rows_delete_subset _ id)
  | deleteBackupSnapshot id =>
    obtain rfl := Option.some.inj hs
    exact h.shrink rfl (TenancyLifecycle.rows_delete_subset _ id) fun _ hv => hv

/-- Whatever a service writes, the constraints hold. -/
theorem Constraints.apply {w : Statement} {db db' : Db} (h : Constraints db.tenancy)
    (happly : postgres.apply w db = some db') : Constraints db'.tenancy := by
  cases w with
  | insertAuditLogEntry entry n =>
    obtain ⟨_, -, -, rfl⟩ := apply_insertAuditLogEntry.mp happly
    exact h
  | hsm statement =>
    obtain ⟨_, -, rfl⟩ := apply_hsm.mp happly
    exact h
  | configuration statement =>
    obtain ⟨_, -, rfl⟩ := apply_configuration.mp happly
    exact h
  | parameter statement =>
    obtain ⟨_, -, rfl⟩ := apply_parameter.mp happly
    exact h
  | account statement =>
    obtain ⟨_, -, rfl⟩ := apply_account.mp happly
    exact h
  | anomaly statement =>
    obtain ⟨_, -, rfl⟩ := apply_anomaly.mp happly
    exact h
  | tenancy statement =>
    obtain ⟨_, hstatement, rfl⟩ := apply_tenancy.mp happly
    exact h.statement hstatement
  | rbac statement =>
    obtain ⟨_, -, rfl⟩ := apply_rbac.mp happly
    exact h
  | deleteTenant id =>
    obtain ⟨-, rfl⟩ := apply_deleteTenant.mp happly
    exact h.deleteTenant id

theorem Constraints.exec {α : Type} {store : Store Db} (h : Constraints store.db.tenancy)
    (p : Service α) : Constraints (store.exec postgres p).db.tenancy := by
  have hstep : ∀ w db db', postgres.apply w db = some db' → Constraints db.tenancy →
      Constraints db'.tenancy := fun w db db' happly hkept => hkept.apply happly
  exact Store.exec_invariant hstep p store h

end

/-! ## Current snapshots -/

theorem lt_elapsed_iff {now earlier n : ℕ} (h : n ≤ now) :
    (n : ℤ) < elapsed now earlier ↔ ¬ now - n ≤ earlier := by
  rw [elapsed, Int.ofNat_eq_natCast, Int.ofNat_eq_natCast]
  omega

/-- The elapsed time and the time that was computed before say the same, on the boundary too. -/
theorem elapsed_of_subHours {now cutoff : Instant} {n : ℕ} (h : subHours now n = some cutoff)
    (earlier : Instant) : hours n < elapsed now earlier ↔ ¬ cutoff ≤ earlier := by
  unfold subHours at h
  split at h
  · next hle =>
    rw [← Option.some.inj h]
    exact lt_elapsed_iff hle
  · cases h

theorem effectiveSnapshotStatus_current {snapshot : TenantBackupSnapshot} {now cutoff : Instant}
    (hcutoff : subHours now staleSnapshotAfterHours = some cutoff) :
    effectiveSnapshotStatus snapshot now = "current" ↔ isCurrent cutoff snapshot = true := by
  rw [effectiveSnapshotStatus, isCurrent]
  cases snapshot.takenAt with
  | none => cases snapshot.status <;> simp [SnapshotStatus.value]
  | some takenAt =>
    simp only [Option.any_some, Option.all_some, elapsed_of_subHours hcutoff]
    by_cases hrecent : cutoff ≤ takenAt
    · cases snapshot.status <;> simp [hrecent, SnapshotStatus.value]
    · cases snapshot.status <;> simp [hrecent, SnapshotStatus.value]

theorem withTenants_eq_some {s : TenancyStore} {children : List TenantChild}
    {rows : List (TenantChild × Tenant)} (h : withTenants s children = some rows) :
    rows.map Prod.fst = children ∧ ∀ r ∈ rows, s.tenants.find? r.1.tenantId = some r.2 := by
  induction children generalizing rows with
  | nil =>
    obtain rfl := Option.some.inj h
    exact ⟨rfl, fun _ hr => nomatch hr⟩
  | cons c children ih =>
    rw [withTenants, List.mapM_cons] at h
    simp only [Option.bind_eq_bind, Option.bind_eq_some_iff, Option.map_eq_some_iff,
      Option.pure_def, Option.some.injEq] at h
    obtain ⟨_, ⟨tenant, htenant, rfl⟩, rest, hrest, rfl⟩ := h
    obtain ⟨hchildren, hfound⟩ := ih hrest
    refine ⟨by rw [List.map_cons, hchildren], fun r hr => ?_⟩
    rcases List.mem_cons.mp hr with rfl | hr
    · exact htenant
    · exact hfound r hr

theorem withTenants_isSome {s : TenancyStore} {children : List TenantChild}
    (h : ∀ c ∈ children, c.tenantId ∈ s.tenants.rows.map Tenant.id) :
    ∃ rows, withTenants s children = some rows := by
  induction children with
  | nil => exact ⟨[], rfl⟩
  | cons c children ih =>
    obtain ⟨rest, hrest⟩ := ih fun c' hc' => h c' (List.mem_cons_of_mem _ hc')
    obtain ⟨tenant, htenant, hid⟩ := List.mem_map.mp (h c List.mem_cons_self)
    have hfind : s.tenants.find? c.tenantId = some tenant := hid ▸ Table.find?_of_mem htenant
    refine ⟨(c, tenant) :: rest, ?_⟩
    rw [withTenants] at hrest ⊢
    rw [List.mapM_cons, hfind, hrest]
    rfl

section

variable {s : TenancyStore} {tenant : Tenant}

/-- A slug stands for one tenant. -/
theorem Constraints.slug_eq_iff (h : Constraints s) (htenant : tenant ∈ s.tenants.rows)
    {id : Uuid} {other : Tenant} (hother : s.tenants.find? id = some other) :
    other.slug = tenant.slug ↔ id = tenant.id := by
  obtain ⟨hmem, hid⟩ := Table.find?_eq_some.mp hother
  constructor
  · intro hslug
    have hsame := List.inj_on_of_nodup_map h.slugs hmem htenant hslug
    rw [← hid, hsame]
  · intro heq
    rw [s.tenants.eq_of_key_eq hmem htenant (hid.trans heq)]

/-- The overview shows as many current snapshots of a tenant as the query counts. -/
theorem count_current (h : Constraints s) (htenant : tenant ∈ s.tenants.rows)
    (columns : ScreenColumns) {now cutoff : Instant}
    (hcutoff : subHours now staleSnapshotAfterHours = some cutoff) (before : Uuid → Uuid → Bool)
    {rows : List (TenantChild × Tenant)}
    (hrows : withTenants s (s.backupSnapshots.scan before) = some rows) :
    (rows.map fun r => backupSnapshotRead now r.2 (columns.snapshot r.1.id)).countP
        (fun b => b.tenantSlug = tenant.slug && b.status = "current") =
      s.backupSnapshots.rows.countP fun b =>
        b.tenantId = tenant.id && isCurrent cutoff (columns.snapshot b.id) := by
  obtain ⟨hchildren, hfound⟩ := withTenants_eq_some hrows
  rw [← (Table.scan_perm s.backupSnapshots before).countP_eq, ← hchildren, List.countP_map,
    List.countP_map]
  apply List.countP_congr
  intro r hr
  simp only [Function.comp_apply, Bool.and_eq_true, decide_eq_true_eq, backupSnapshotRead,
    effectiveSnapshotStatus_current hcutoff, h.slug_eq_iff htenant (hfound r hr)]

end

section

variable {store : Store Db} {columns : ScreenColumns} {orders : ScreenOrders} {now : Instant}

/-- What the usage of a tenant counts as current. -/
theorem getTenantUsage_current {tenantId : Uuid} {usage : TenantUsageSummary}
    (h : ((getTenantUsage columns now tenantId).serial postgres store.db store.db
      store.sequence).result = .ok usage) :
    ∃ tenant ∈ store.db.tenancy.tenants.rows, tenant.id = tenantId ∧ usage.slug = tenant.slug ∧
      ∃ cutoff, subHours now staleSnapshotAfterHours = some cutoff ∧
        usage.currentBackupSnapshots = store.db.tenancy.backupSnapshots.rows.countP fun b =>
          b.tenantId = tenantId && isCurrent cutoff (columns.snapshot b.id) := by
  have hwp : (getTenantUsage columns now tenantId).wp postgres (fun result _ _ _ =>
      ∀ usage, result = .ok usage → ∃ tenant ∈ store.db.tenancy.tenants.rows,
        tenant.id = tenantId ∧ usage.slug = tenant.slug ∧
        ∃ cutoff, subHours now staleSnapshotAfterHours = some cutoff ∧
          usage.currentBackupSnapshots = store.db.tenancy.backupSnapshots.rows.countP fun b =>
            b.tenantId = tenantId && isCurrent cutoff (columns.snapshot b.id))
      store.db store.db store.sequence := by
    simp only [getTenantUsage, getTenant, Request.wp_bind, Request.wp_select, wp_found]
    refine ⟨fun _ usage husage => (nomatch husage), fun tenant htenant => ?_⟩
    refine ⟨fun _ usage husage => (nomatch husage), fun cutoff hcutoff => ?_⟩
    apply Request.wp_return
    intro usage husage
    obtain rfl := Except.ok.inj husage
    obtain ⟨hmem, hid⟩ := Table.find?_eq_some.mp htenant
    exact ⟨tenant, hmem, hid, rfl, cutoff, hcutoff, rfl⟩
  exact (Request.serial_sound hwp).elim fun _ hcounts => hcounts usage h

/-- The snapshots that the overview shows. -/
theorem getTenancyOverview_snapshots {overview : TenancyOverview}
    (h : ((getTenancyOverview columns orders now).serial postgres store.db store.db
      store.sequence).result = .ok overview) :
    ∃ rows, withTenants store.db.tenancy
        (store.db.tenancy.backupSnapshots.scan orders.snapshots) = some rows ∧
      overview.backupSnapshots =
        rows.map fun r => backupSnapshotRead now r.2 (columns.snapshot r.1.id) := by
  have hwp : (getTenancyOverview columns orders now).wp postgres (fun result _ _ _ =>
      ∀ overview, result = .ok overview → ∃ rows, withTenants store.db.tenancy
          (store.db.tenancy.backupSnapshots.scan orders.snapshots) = some rows ∧
        overview.backupSnapshots =
          rows.map fun r => backupSnapshotRead now r.2 (columns.snapshot r.1.id))
      store.db store.db store.sequence := by
    simp only [getTenancyOverview, Request.wp_bind, Request.wp_select, wp_found]
    refine ⟨fun _ overview hoverview => (nomatch hoverview), fun validations _ => ?_⟩
    refine ⟨fun _ overview hoverview => (nomatch hoverview), fun snapshots hsnapshots => ?_⟩
    apply Request.wp_return
    intro overview hoverview
    obtain rfl := Except.ok.inj hoverview
    exact ⟨snapshots, hsnapshots, rfl⟩
  exact (Request.serial_sound hwp).elim fun _ hshown => hshown overview h

theorem getTenantUsage_answered {tenant : Tenant}
    (htenant : tenant ∈ store.db.tenancy.tenants.rows)
    (hnow : hours staleSnapshotAfterHours ≤ now) :
    Answered (getTenantUsage columns now tenant.id) store := by
  apply answered_of_wp
  simp only [getTenantUsage, getTenant, Request.wp_bind, Request.wp_select]
  apply wp_found_of_some (Table.find?_of_mem htenant)
  apply wp_found_of_some (if_pos hnow)
  exact Request.wp_return ⟨_, rfl⟩

theorem getTenancyOverview_answered (h : Constraints store.db.tenancy) :
    Answered (getTenancyOverview columns orders now) store := by
  have hvalidations : ∃ rows, withTenants store.db.tenancy
      ((fromLargest (fun v => (columns.validation v.id).validatedAt)
        (store.db.tenancy.schemaValidations.scan orders.validations)).take 20) = some rows := by
    apply withTenants_isSome
    intro v hv
    exact h.validations v (Table.mem_scan.mp (mem_fromLargest.mp (List.mem_of_mem_take hv)))
  have hsnapshots : ∃ rows, withTenants store.db.tenancy
      (store.db.tenancy.backupSnapshots.scan orders.snapshots) = some rows := by
    apply withTenants_isSome
    intro b hb
    exact h.snapshots b (Table.mem_scan.mp hb)
  obtain ⟨validations, hvalidations⟩ := hvalidations
  obtain ⟨snapshots, hsnapshots⟩ := hsnapshots
  apply answered_of_wp
  simp only [getTenancyOverview, Request.wp_bind, Request.wp_select]
  apply wp_found_of_some hvalidations
  apply wp_found_of_some hsnapshots
  exact Request.wp_return ⟨_, rfl⟩

variable (columns orders now) in
/-- The usage of a tenant counts as current what the overview of the same instant shows as
current, and both are answered. -/
theorem current_snapshots_agree (h : Constraints store.db.tenancy) {tenant : Tenant}
    (htenant : tenant ∈ store.db.tenancy.tenants.rows) :
    (∀ usage overview,
      ((getTenantUsage columns now tenant.id).serial postgres store.db store.db
        store.sequence).result = .ok usage →
      ((getTenancyOverview columns orders now).serial postgres store.db store.db
        store.sequence).result = .ok overview →
      usage.currentBackupSnapshots = overview.backupSnapshots.countP fun b =>
        b.tenantSlug = tenant.slug && b.status = "current") ∧
    (hours staleSnapshotAfterHours ≤ now →
      Answered (getTenantUsage columns now tenant.id) store) ∧
    Answered (getTenancyOverview columns orders now) store := by
  refine ⟨fun usage overview husage hoverview => ?_, getTenantUsage_answered htenant,
    getTenancyOverview_answered h⟩
  obtain ⟨_, _, _, -, cutoff, hcutoff, hcurrent⟩ := getTenantUsage_current husage
  obtain ⟨rows, hrows, hshown⟩ := getTenancyOverview_snapshots hoverview
  rw [hcurrent, hshown, count_current h htenant columns hcutoff orders.snapshots hrows]

end

/-- Four snapshots of one tenant. -/
def sampleTenancy : TenancyStore :=
  { TenancyStore.empty with
    tenants := ⟨[newTenant ⟨7, 8⟩ sampleTenantCreate], by simp⟩
    backupSnapshots := ⟨[⟨1, 7⟩, ⟨2, 7⟩, ⟨3, 7⟩, ⟨4, 7⟩], by decide⟩ }

/-- Taken a day ago and a moment earlier, stored as stale without a time, and pending. -/
def sampleColumns : ScreenColumns where
  snapshot
    | 1 => ⟨.current, none, some 63839664000000000, 30, 0, none⟩
    | 2 => ⟨.current, none, some 63839663999999999, 30, 0, none⟩
    | 3 => ⟨.stale, none, none, 30, 0, none⟩
    | _ => ⟨.pending, none, some 63839664000000000, 30, 0, none⟩
  validation _ := ⟨"", "", none, "", none, 0⟩
  alert _ := ⟨.warning, "", "", none, none, none, 0, false⟩

def sampleOrders : ScreenOrders := ⟨fun a b => a ≤ b, fun a b => a ≤ b, fun a b => a ≤ b,
  fun a b => a ≤ b⟩

/-- A day later two of the four are current. -/
theorem current_snapshots_agree_sample :
    let store : Store Db := ⟨{ emptyDb with tenancy := sampleTenancy }, 1⟩
    ∃ usage overview,
      ((getTenantUsage sampleColumns 63839750400000000 7).serial postgres store.db store.db 1).result =
          .ok usage ∧
        ((getTenancyOverview sampleColumns sampleOrders 63839750400000000).serial postgres store.db
          store.db 1).result = .ok overview ∧
        usage.currentBackupSnapshots = 2 ∧
        (overview.backupSnapshots.countP fun b => b.tenantSlug = "acme" && b.status = "current") = 2 := by
  intro store
  have hconstraints : Constraints store.db.tenancy :=
    ⟨List.nodup_singleton _, by decide, fun _ hv => nomatch hv⟩
  have htenant : newTenant ⟨7, 8⟩ sampleTenantCreate ∈ store.db.tenancy.tenants.rows :=
    List.mem_singleton.mpr rfl
  obtain ⟨hagree, husage, hoverview⟩ := current_snapshots_agree sampleColumns sampleOrders
    63839750400000000 hconstraints htenant
  obtain ⟨usage, husage⟩ := husage (by decide +kernel)
  obtain ⟨overview, hoverview⟩ := hoverview
  have hcount : usage.currentBackupSnapshots = 2 := by
    obtain ⟨_, _, _, -, cutoff, hcutoff, hcurrent⟩ := getTenantUsage_current husage
    have hday : subHours 63839750400000000 staleSnapshotAfterHours = some 63839664000000000 := by
      decide +kernel
    rw [hday] at hcutoff
    rw [hcurrent, ← Option.some.inj hcutoff]
    decide +kernel
  exact ⟨usage, overview, husage, hoverview, hcount,
    (hagree usage overview husage hoverview).symm.trans hcount⟩

end NexusEngine.TenancyScreens
