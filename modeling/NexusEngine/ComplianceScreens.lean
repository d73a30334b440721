import NexusEngine.CollectedGroups
import NexusEngine.ControlCoverage
import NexusEngine.ParameterPending
import NexusEngine.TenancyScreens
import Mathlib.Algebra.BigOperators.Group.List.Lemmas

/-!
# The screens of compliance

Lists, summaries and the overview count the same rows by different ways: a loop over the frameworks
and their mappings, joins, and groups of the open violations. Under the constraints of the tables
their figures agree, and every gap is listed as the control that it is.
-/

namespace NexusEngine.ComplianceScreens

open KeyedTables StoredColumns CalendarTime Database ComplianceService GroupedCounts
  CollectedGroups RankedRows
open EngineService (roundTo)
open TenancyScreens (hours subHours)
open ParameterPending (Collation)

/-! ## Tables -/

/-- The columns of a framework that only the screens read. -/
structure FrameworkColumns where
  displayName : String
  subtitle : String
  description : String
  auditor : Option String
  certified : Bool
  certExpiresAt : Option Instant
  score : ℚ

inductive ViolationSeverity where
  | violation | review
  deriving DecidableEq, Repr

def ViolationSeverity.value : ViolationSeverity → String
  | .violation => "violation"
  | .review => "review"

inductive ViolationStatus where
  | open_ | resolved
  deriving DecidableEq, Repr

def ViolationStatus.value : ViolationStatus → String
  | .open_ => "open"
  | .resolved => "resolved"

structure ComplianceViolation where
  id : Uuid
  frameworkId : Uuid
  severity : ViolationSeverity
  status : ViolationStatus
  controlReference : String
  title : String
  description : String
  detectedAt : Instant
  resolvedAt : Option Instant
  resolutionNote : Option String

structure SchemaValidationResult where
  id : Uuid
  endpointPath : String
  schemaRef : String
  passed : Bool
  errorMessage : Option String
  tenantSlug : Option String
  referenceId : Option String
  validatedAt : Instant

structure ComplianceScoreSnapshot where
  id : Uuid
  frameworkId : Uuid
  score : ℚ
  capturedAt : Instant

/-- The tables that the screens read, with their constraints: a code names one framework, a
framework maps a domain once, and rows refer to frameworks that there are. -/
structure ComplianceData where
  tables : ComplianceStore
  columns : Uuid → FrameworkColumns
  violations : Table ComplianceViolation Uuid ComplianceViolation.id
  validations : Table SchemaValidationResult Uuid SchemaValidationResult.id
  scoreSnapshots : Table ComplianceScoreSnapshot Uuid ComplianceScoreSnapshot.id
  codes : (tables.frameworks.rows.map ComplianceFramework.code).Nodup
  domains : (tables.controlMappings.rows.map fun m => (m.frameworkId, m.controlDomain)).Nodup
  mappings_refer : ∀ m ∈ tables.controlMappings.rows, ∃ f ∈ tables.frameworks.rows,
    f.id = m.frameworkId
  violations_refer : ∀ v ∈ violations.rows, ∃ f ∈ tables.frameworks.rows, f.id = v.frameworkId
  snapshots_refer : ∀ r ∈ scoreSnapshots.rows, ∃ f ∈ tables.frameworks.rows, f.id = r.frameworkId

/-- The orders in which the database returns rows that a query does not order. -/
structure ScreenOrders where
  frameworks : Uuid → Uuid → Bool
  mappings : Uuid → Uuid → Bool
  violations : Uuid → Uuid → Bool
  validations : Uuid → Uuid → Bool

/-! ## Frameworks -/

structure FrameworkRead where
  id : Uuid
  code : String
  displayName : String
  subtitle : String
  description : String
  auditor : Option String
  certified : Bool
  certExpiresAt : Option Instant
  score : ℚ
  openViolationCount : ℕ
  controlBreakdown : List ControlMappingRead

section

variable (collate : String → String → Bool) (orders : ScreenOrders) (d : ComplianceData)

/-- The frameworks by their names, each with its mappings. -/
def loadFrameworks : List LoadedFramework :=
  ((d.tables.frameworks.scan orders.frameworks).insertionSort fun f g =>
    collate (d.columns f.id).displayName (d.columns g.id).displayName).map fun f =>
      ⟨f, d.tables.mappingsOf orders.mappings f.id⟩

def isOpen (v : ComplianceViolation) : Bool := v.status = .open_

def openViolationCounts : List (Uuid × ℕ) :=
  groupCounts ((d.violations.rows.filter isOpen).map ComplianceViolation.frameworkId)

def frameworkToRead (loaded : LoadedFramework) : FrameworkRead :=
  let columns := d.columns loaded.framework.id
  { id := loaded.framework.id
    code := loaded.framework.code.value
    displayName := columns.displayName
    subtitle := columns.subtitle
    description := columns.description
    auditor := columns.auditor
    certified := columns.certified
    certExpiresAt := columns.certExpiresAt
    score := columns.score
    openViolationCount := countOf (openViolationCounts d) loaded.framework.id
    controlBreakdown := loaded.controlMappings.map controlMappingToRead }

def listFrameworks : List FrameworkRead :=
  (loadFrameworks collate orders d).map (frameworkToRead d)

def getFramework (frameworkId : Uuid) : Except ServiceError FrameworkRead :=
  match d.tables.frameworks.find? frameworkId with
  | none => .error (.http 404 "Framework not found")
  | some f => .ok (frameworkToRead d ⟨f, d.tables.mappingsOf orders.mappings f.id⟩)

def overallScore (frameworks : List LoadedFramework) : ℚ :=
  if frameworks.isEmpty then 0
  else roundTo 1
    ((frameworks.map fun f => (d.columns f.framework.id).score).sum / frameworks.length)

end

/-! ## Controls -/

structure ControlRead where
  id : Uuid
  frameworkId : Uuid
  frameworkCode : String
  controlDomain : String
  controlDescription : String
  controlCode : String
  status : String

structure GapRead where
  frameworkId : Uuid
  frameworkCode : String
  controlDomain : String
  controlDescription : String
  controlCode : String
  status : String

/-- A mapping with the framework that it is joined with. -/
abbrev Control := ComplianceFramework × ControlMapping

def controlToRead (c : Control) : ControlRead where
  id := c.2.id
  frameworkId := c.2.frameworkId
  frameworkCode := c.1.code.value
  controlDomain := c.2.controlDomain
  controlDescription := c.2.controlDescription
  controlCode := c.2.controlCode
  status := c.2.status.value

def gapToRead (c : Control) : GapRead where
  frameworkId := c.2.frameworkId
  frameworkCode := c.1.code.value
  controlDomain := c.2.controlDomain
  controlDescription := c.2.controlDescription
  controlCode := c.2.controlCode
  status := c.2.status.value

/-- A code is stored by its name. -/
def storedCode : FrameworkCode → String
  | .soc2 => "SOC2"
  | .iso27001 => "ISO27001"
  | .gdpr => "GDPR"
  | .hipaa => "HIPAA"

/-- `ORDER BY code, control_domain`. -/
def controlOrder (collate : String → String → Bool) (a b : Control) : Bool :=
  if storedCode a.1.code = storedCode b.1.code then collate a.2.controlDomain b.2.controlDomain
  else collate (storedCode a.1.code) (storedCode b.1.code)

def hasCode (code : Option FrameworkCode) (c : Control) : Bool := code.all fun k => c.1.code = k

def hasStatus (status : Option ControlStatus) (c : Control) : Bool :=
  status.all fun k => c.2.status = k

def isGap (c : Control) : Bool := c.2.status = .gap ∨ c.2.status = .partiallyMapped

section

variable (collate : String → String → Bool) (before : Uuid → Uuid → Bool) (d : ComplianceData)

/-- The mappings, joined with their frameworks. -/
def controls : List Control :=
  (d.tables.controlMappings.scan before).filterMap fun m =>
    (d.tables.frameworks.find? m.frameworkId).map fun f => (f, m)

/-- The controls that a query selects, in its order. -/
def selectControls (p : Control → Bool) : List Control :=
  ((controls before d).filter p).insertionSort fun a b => controlOrder collate a b

def listControls (code : Option FrameworkCode) (status : Option ControlStatus) :
    List ControlRead :=
  (selectControls collate before d fun c => hasCode code c && hasStatus status c).map controlToRead

def getGaps (code : Option FrameworkCode) : List GapRead :=
  (selectControls collate before d fun c => isGap c && hasCode code c).map gapToRead

/-- A mapping without a framework would be an `AttributeError`. -/
def getControl (controlId : Uuid) : Except ServiceError ControlRead :=
  match d.tables.controlMappings.find? controlId with
  | none => .error (.http 404 "Control not found")
  | some m => match d.tables.frameworks.find? m.frameworkId with
    | none => .error .exception
    | some f => .ok (controlToRead (f, m))

end

/-! ## Summary and overview -/

structure FrameworkScore where
  code : String
  displayName : String
  score : ℚ
  certified : Bool
  openViolationCount : ℕ

structure ComplianceSummary where
  overallScore : ℚ
  frameworkCount : ℕ
  certifiedCount : ℕ
  totalControls : ℕ
  mappedControls : ℕ
  partialControls : ℕ
  gapControls : ℕ
  openViolationCount : ℕ
  frameworks : List FrameworkScore

/-- The counters of the loop over the mappings. -/
structure ControlCounts where
  total : ℕ
  mapped : ℕ
  partiallyMapped : ℕ
  gap : ℕ

def ControlCounts.add (counts : ControlCounts) (m : ControlMapping) : ControlCounts :=
  let counts := { counts with total := counts.total + 1 }
  match m.status with
  | .mapped => { counts with mapped := counts.mapped + 1 }
  | .partiallyMapped => { counts with partiallyMapped := counts.partiallyMapped + 1 }
  | .gap => { counts with gap := counts.gap + 1 }
  | .notApplicable => counts

def controlCounts (frameworks : List LoadedFramework) : ControlCounts :=
  frameworks.foldl (fun counts f => f.controlMappings.foldl ControlCounts.add counts) ⟨0, 0, 0, 0⟩

def frameworkScore (d : ComplianceData) (f : LoadedFramework) : FrameworkScore where
  code := f.framework.code.value
  displayName := (d.columns f.framework.id).displayName
  score := (d.columns f.framework.id).score
  certified := (d.columns f.framework.id).certified
  openViolationCount := countOf (openViolationCounts d) f.framework.id

def getComplianceSummary (collate : String → String → Bool) (orders : ScreenOrders)
    (d : ComplianceData) : ComplianceSummary :=
  let frameworks := loadFrameworks collate orders d
  let counts := controlCounts frameworks
  { overallScore := overallScore d frameworks
    frameworkCount := frameworks.length
    certifiedCount := frameworks.countP fun f => (d.columns f.framework.id).certified
    totalControls := counts.total
    mappedControls := counts.mapped
    partialControls := counts.partiallyMapped
    gapControls := counts.gap
    openViolationCount := ((openViolationCounts d).map Prod.snd).sum
    frameworks := frameworks.map (frameworkScore d) }

structure ViolationRead where
  id : Uuid
  frameworkCode : String
  severity : String
  status : String
  controlReference : String
  title : String
  description : String
  detectedAt : Instant
  resolvedAt : Option Instant
  resolutionNote : Option String

structure SchemaValidationRow where
  endpointPath : String
  schemaRef : String
  passed : Bool
  errorMessage : Option String
  tenantSlug : Option String
  referenceId : Option String
  validatedAt : Instant

structure SchemaValidationSummary where
  totalToday : ℕ
  passRatePercent : ℚ
  failureCount : ℕ
  failures : List SchemaValidationRow

structure ComplianceOverview where
  overallScore : ℚ
  frameworks : List FrameworkRead
  controlCoverage : List ControlCoverageRow
  violations : List ViolationRead
  schemaValidation : SchemaValidationSummary

def violationToRead (v : ComplianceViolation) (framework : ComplianceFramework) :
    ViolationRead where
  id := v.id
  frameworkCode := framework.code.value
  severity := v.severity.value
  status := v.status.value
  controlReference := v.controlReference
  title := v.title
  description := v.description
  detectedAt := v.detectedAt
  resolvedAt := v.resolvedAt
  resolutionNote := v.resolutionNote

def validationToRow (r : SchemaValidationResult) : SchemaValidationRow where
  endpointPath := r.endpointPath
  schemaRef := r.schemaRef
  passed := r.passed
  errorMessage := r.errorMessage
  tenantSlug := r.tenantSlug
  referenceId := r.referenceId
  validatedAt := r.validatedAt

section

variable (collate : String → String → Bool) (orders : ScreenOrders) (d : ComplianceData)

/-- The latest violations. One without a framework would be an `AttributeError`. -/
def violationReads : Option (List ViolationRead) :=
  ((fromLargest ComplianceViolation.detectedAt (d.violations.scan orders.violations)).take 50).mapM
    fun v => (d.tables.frameworks.find? v.frameworkId).map (violationToRead v)

def schemaValidationSummary (since : Instant) : SchemaValidationSummary :=
  let results := fromLargest SchemaValidationResult.validatedAt
    ((d.validations.scan orders.validations).filter fun r => since ≤ r.validatedAt)
  let failures := results.filter fun r => !r.passed
  { totalToday := results.length
    passRatePercent := if results.length = 0 then 100
      else roundTo 2 ((results.countP fun r => r.passed) / results.length * 100)
    failureCount := failures.length
    failures := (failures.take 10).map validationToRow }

def getComplianceOverview (now : Instant) : Option ComplianceOverview := do
  let frameworks := loadFrameworks collate orders d
  let coverage ← buildControlCoverage frameworks
  let violations ← violationReads orders d
  let since ← subHours now 24
  return {
    overallScore := overallScore d frameworks
    frameworks := frameworks.map (frameworkToRead d)
    controlCoverage := coverage
    violations := violations
    schemaValidation := schemaValidationSummary orders d since }

end

/-! ## Joins -/

section

variable {collate : String → String → Bool} {before : Uuid → Uuid → Bool} {d : ComplianceData}

theorem mem_controls {c : Control} : c ∈ controls before d ↔
    c.1 ∈ d.tables.frameworks.rows ∧ c.2 ∈ d.tables.controlMappings.rows ∧
      c.1.id = c.2.frameworkId := by
  simp only [controls, List.mem_filterMap, Option.map_eq_some_iff, Table.mem_scan]
  constructor
  · intro h
    obtain ⟨m, hm, f, hfind, rfl⟩ := h
    obtain ⟨hf, hid⟩ := Table.find?_eq_some.mp hfind
    exact ⟨hf, hm, hid⟩
  · intro h
    obtain ⟨hf, hm, hid⟩ := h
    exact ⟨c.2, hm, c.1, Table.find?_eq_some.mpr ⟨hf, hid⟩, rfl⟩

theorem controls_perm (before before' : Uuid → Uuid → Bool) (d : ComplianceData) :
    (controls before d).Perm (controls before' d) :=
  ((d.tables.controlMappings.scan_perm before).trans
    (d.tables.controlMappings.scan_perm before').symm).filterMap _

/-- Every mapping is joined with its framework. -/
theorem controls_mappings (before : Uuid → Uuid → Bool) (d : ComplianceData) :
    (controls before d).map Prod.snd = d.tables.controlMappings.scan before := by
  have hjoin : ∀ ms : List ControlMapping, (∀ m ∈ ms, m ∈ d.tables.controlMappings.rows) →
      (ms.filterMap fun m => (d.tables.frameworks.find? m.frameworkId).map fun f => (f, m)).map
        Prod.snd = ms := by
    intro ms hms
    induction ms with
    | nil => rfl
    | cons m ms ih =>
      obtain ⟨hm, hrest⟩ := List.forall_mem_cons.mp hms
      obtain ⟨f, hf, hid⟩ := d.mappings_refer m hm
      have hfind := Table.find?_eq_some.mpr ⟨hf, hid⟩
      simp [hfind, ih hrest]
  exact hjoin _ fun m hm => Table.mem_scan.mp hm

/-- A code and a domain name one control. -/
theorem control_unique {a b : Control} (ha : a ∈ controls before d) (hb : b ∈ controls before d)
    (hcode : a.1.code = b.1.code) (hdomain : a.2.controlDomain = b.2.controlDomain) : a = b := by
  obtain ⟨hfa, hma, hida⟩ := mem_controls.mp ha
  obtain ⟨hfb, hmb, hidb⟩ := mem_controls.mp hb
  have hframework : a.1 = b.1 := List.inj_on_of_nodup_map d.codes hfa hfb hcode
  have hmapping : a.2 = b.2 := by
    apply List.inj_on_of_nodup_map d.domains hma hmb
    rw [← hida, ← hidb, hframework, hdomain]
  exact Prod.ext hframework hmapping

theorem storedCode_injective : Function.Injective storedCode := by
  intro a b h
  cases a <;> cases b <;> simp_all [storedCode]

/-! ## The order of the controls -/

theorem controlOrder_total (h : Collation collate) (a b : Control) :
    controlOrder collate a b = true ∨ controlOrder collate b a = true := by
  by_cases hcode : storedCode a.1.code = storedCode b.1.code
  · simpa [controlOrder, hcode] using h.total a.2.controlDomain b.2.controlDomain
  · simpa [controlOrder, hcode, Ne.symm hcode] using
      h.total (storedCode a.1.code) (storedCode b.1.code)

theorem controlOrder_trans (h : Collation collate) {a b c : Control}
    (hab : controlOrder collate a b = true) (hbc : controlOrder collate b c = true) :
    controlOrder collate a c = true := by
  rw [controlOrder] at hab hbc ⊢
  by_cases hab' : storedCode a.1.code = storedCode b.1.code
  · rw [if_pos hab'] at hab
    rw [hab']
    by_cases hbc' : storedCode b.1.code = storedCode c.1.code
    · rw [if_pos hbc'] at hbc ⊢
      exact h.trans _ _ _ hab hbc
    · rw [if_neg hbc'] at hbc ⊢
      exact hbc
  · rw [if_neg hab'] at hab
    by_cases hbc' : storedCode b.1.code = storedCode c.1.code
    · rw [← hbc', if_neg hab']
      exact hab
    · rw [if_neg hbc'] at hbc
      -- codes that come in order both ways are the same
      have hne : ¬ storedCode a.1.code = storedCode c.1.code := by
        intro heq
        exact hab' (h.antisymm _ _ hab (heq ▸ hbc))
      rw [if_neg hne]
      exact h.trans _ _ _ hab hbc

theorem controlOrder_antisymm (h : Collation collate) {a b : Control}
    (ha : a ∈ controls before d) (hb : b ∈ controls before d)
    (hab : controlOrder collate a b = true) (hba : controlOrder collate b a = true) : a = b := by
  rw [controlOrder] at hab hba
  by_cases hcode : storedCode a.1.code = storedCode b.1.code
  · rw [if_pos hcode] at hab
    rw [if_pos hcode.symm] at hba
    exact control_unique ha hb (storedCode_injective hcode) (h.antisymm _ _ hab hba)
  · rw [if_neg hcode] at hab
    rw [if_neg (Ne.symm hcode)] at hba
    exact absurd (h.antisymm _ _ hab hba) hcode

theorem selectControls_sorted (h : Collation collate) (before : Uuid → Uuid → Bool)
    (d : ComplianceData) (p : Control → Bool) :
    (selectControls collate before d p).Pairwise fun a b => controlOrder collate a b = true := by
  have htotal : Std.Total fun a b : Control => controlOrder collate a b = true :=
    ⟨controlOrder_total h⟩
  have htrans : IsTrans Control fun a b => controlOrder collate a b = true :=
    ⟨fun _ _ _ => controlOrder_trans h⟩
  exact List.pairwise_insertionSort _ _

theorem selectControls_perm (collate : String → String → Bool) (before : Uuid → Uuid → Bool)
    (d : ComplianceData) (p : Control → Bool) :
    (selectControls collate before d p).Perm ((controls before d).filter p) :=
  List.perm_insertionSort _ _

/-- What a query selects is what another one, which selects more, shows in the same order. -/
theorem selectControls_filter (h : Collation collate) (before before' : Uuid → Uuid → Bool)
    (d : ComplianceData) (p q : Control → Bool) :
    selectControls collate before d (fun c => p c && q c) =
      (selectControls collate before' d q).filter p := by
  have hperm : (selectControls collate before d fun c => p c && q c).Perm
      ((selectControls collate before' d q).filter p) := by
    apply (selectControls_perm collate before d _).trans
    rw [← List.filter_filter]
    apply ((List.Perm.filter q (controls_perm before before' d)).filter p).trans
    exact (selectControls_perm collate before' d q).symm.filter p
  apply hperm.eq_of_pairwise _ (selectControls_sorted h before d _)
    ((selectControls_sorted h before' d q).filter p)
  intro a b ha hb hab hba
  have hmem : ∀ {c : Control}, c ∈ (selectControls collate before' d q).filter p →
      c ∈ controls before' d := by
    intro c hc
    exact List.mem_of_mem_filter
      ((selectControls_perm collate before' d q).mem_iff.mp (List.mem_of_mem_filter hc))
  exact controlOrder_antisymm h (hmem (hperm.mem_iff.mp ha)) (hmem hb) hab hba

end

/-! ## The loops -/

section

variable {collate : String → String → Bool} {orders : ScreenOrders} {d : ComplianceData}

/-- What the counters have counted after some more mappings. -/
theorem foldl_add (counts : ControlCounts) (ms : List ControlMapping) :
    ms.foldl ControlCounts.add counts =
      ⟨counts.total + ms.length, counts.mapped + countStatus .mapped ms,
        counts.partiallyMapped + countStatus .partiallyMapped ms,
        counts.gap + countStatus .gap ms⟩ := by
  induction ms generalizing counts with
  | nil => rfl
  | cons m ms ih =>
    rw [List.foldl_cons, ih]
    cases hm : m.status with
    | mapped => simp [ControlCounts.add, countStatus, hm]; omega
    | partiallyMapped => simp [ControlCounts.add, countStatus, hm]; omega
    | gap => simp [ControlCounts.add, countStatus, hm]; omega
    | notApplicable => simp [ControlCounts.add, countStatus, hm]; omega

theorem controlCounts_eq (frameworks : List LoadedFramework) :
    controlCounts frameworks =
      (frameworks.flatMap LoadedFramework.controlMappings).foldl ControlCounts.add
        ⟨0, 0, 0, 0⟩ := by
  rw [controlCounts, List.foldl_flatMap]

theorem loadFrameworks_perm (collate : String → String → Bool) (orders : ScreenOrders)
    (d : ComplianceData) : ((loadFrameworks collate orders d).map LoadedFramework.framework).Perm
      d.tables.frameworks.rows := by
  rw [loadFrameworks, List.map_map]
  have hid : (LoadedFramework.framework ∘ fun f : ComplianceFramework =>
      (⟨f, d.tables.mappingsOf orders.mappings f.id⟩ : LoadedFramework)) = id := rfl
  rw [hid, List.map_id]
  exact (List.perm_insertionSort _ _).trans (d.tables.frameworks.scan_perm _)

theorem nodup_loaded (collate : String → String → Bool) (orders : ScreenOrders)
    (d : ComplianceData) :
    ((loadFrameworks collate orders d).map fun f => f.framework.id).Nodup := by
  have hperm := (loadFrameworks_perm collate orders d).map ComplianceFramework.id
  rw [List.map_map] at hperm
  exact hperm.nodup_iff.mpr d.tables.frameworks.nodup

/-- Whatever refers to a framework refers to one that is loaded. -/
theorem mem_loaded {k : Uuid} (h : ∃ f ∈ d.tables.frameworks.rows, f.id = k) :
    k ∈ (loadFrameworks collate orders d).map fun f => f.framework.id := by
  obtain ⟨f, hf, rfl⟩ := h
  have hperm := (loadFrameworks_perm collate orders d).map ComplianceFramework.id
  rw [List.map_map] at hperm
  exact hperm.mem_iff.mpr (List.mem_map_of_mem hf)

theorem loaded_mappings {f : LoadedFramework} (hf : f ∈ loadFrameworks collate orders d) :
    f.controlMappings = d.tables.mappingsOf orders.mappings f.framework.id := by
  obtain ⟨framework, -, rfl⟩ := List.mem_map.mp hf
  rfl

/-- The loops reach every mapping once. -/
theorem flatMap_mappings_perm (collate : String → String → Bool) (orders : ScreenOrders)
    (d : ComplianceData) :
    ((loadFrameworks collate orders d).flatMap LoadedFramework.controlMappings).Perm
      d.tables.controlMappings.rows := by
  have hrefer : ∀ m ∈ d.tables.controlMappings.scan orders.mappings, m.frameworkId ∈
      (loadFrameworks collate orders d).map fun f => f.framework.id :=
    fun m hm => mem_loaded (d.mappings_refer m (Table.mem_scan.mp hm))
  have hgroups := groups_perm (nodup_loaded collate orders d) hrefer
  rw [List.flatMap_map] at hgroups
  have hmappings : (loadFrameworks collate orders d).flatMap LoadedFramework.controlMappings =
      (loadFrameworks collate orders d).flatMap fun f =>
        (d.tables.controlMappings.scan orders.mappings).filter fun m =>
          m.frameworkId = f.framework.id :=
    List.flatMap_congr fun f hf => loaded_mappings hf
  rw [hmappings]
  exact hgroups.trans (d.tables.controlMappings.scan_perm _)

/-! ## Open violations -/

theorem countOf_openViolationCounts (d : ComplianceData) (k : Uuid) :
    countOf (openViolationCounts d) k =
      (d.violations.rows.filter isOpen).countP fun v => v.frameworkId = k := by
  rw [openViolationCounts, countOf_groupCounts, List.count, List.countP_map]
  apply List.countP_congr
  intro v _
  simp

/-- The groups of the open violations have all of them. -/
theorem sum_openViolationCounts (d : ComplianceData) :
    ((openViolationCounts d).map Prod.snd).sum = d.violations.rows.countP isOpen := by
  rw [openViolationCounts, groupCounts, List.map_map]
  have hsum := List.sum_map_count_dedup_eq_length
    ((d.violations.rows.filter isOpen).map ComplianceViolation.frameworkId)
  rw [List.length_map, ← List.countP_eq_length_filter] at hsum
  exact hsum

theorem sum_open_loaded (collate : String → String → Bool) (orders : ScreenOrders)
    (d : ComplianceData) :
    ((loadFrameworks collate orders d).map fun f =>
      countOf (openViolationCounts d) f.framework.id).sum = d.violations.rows.countP isOpen := by
  have hrefer : ∀ v ∈ d.violations.rows.filter isOpen, v.frameworkId ∈
      (loadFrameworks collate orders d).map fun f => f.framework.id :=
    fun v hv => mem_loaded (d.violations_refer v (List.mem_of_mem_filter hv))
  have hsum := sum_countP_key (nodup_loaded collate orders d) hrefer
  rw [List.map_map, ← List.countP_eq_length_filter] at hsum
  rw [← hsum]
  congr 1
  apply List.map_congr_left
  intro f _
  exact countOf_openViolationCounts d f.framework.id

end

/-! ## Agreement -/

def ControlRead.asGap (c : ControlRead) : GapRead where
  frameworkId := c.frameworkId
  frameworkCode := c.frameworkCode
  controlDomain := c.controlDomain
  controlDescription := c.controlDescription
  controlCode := c.controlCode
  status := c.status

def ControlRead.asMapping (c : ControlRead) : ControlMappingRead where
  controlDomain := c.controlDomain
  controlDescription := c.controlDescription
  controlCode := c.controlCode
  status := c.status

def FrameworkRead.asScore (f : FrameworkRead) : FrameworkScore where
  code := f.code
  displayName := f.displayName
  score := f.score
  certified := f.certified
  openViolationCount := f.openViolationCount

/-- The figures of a summary and the listed gaps are those of the listed frameworks and controls,
and what is listed is found by its identifier as it is listed. -/
structure PostureAgrees (d : ComplianceData) (summary : ComplianceSummary)
    (frameworks : List FrameworkRead) (framework : Uuid → Except ServiceError FrameworkRead)
    (listed : Option FrameworkCode → Option ControlStatus → List ControlRead)
    (gaps : Option FrameworkCode → List GapRead) : Prop where
  totalControls : summary.totalControls = (listed none none).length
  mappedControls : summary.mappedControls = (listed none (some .mapped)).length
  partialControls : summary.partialControls = (listed none (some .partiallyMapped)).length
  gapControls : summary.gapControls = (listed none (some .gap)).length
  gaps : ∀ code, gaps code = ((listed code none).filter fun c =>
    c.status = ControlStatus.gap.value ∨ c.status = ControlStatus.partiallyMapped.value).map
      ControlRead.asGap
  breakdown : ∀ f ∈ frameworks, ∃ code : FrameworkCode, f.code = code.value ∧
    f.controlBreakdown.Perm ((listed (some code) none).map ControlRead.asMapping)
  scores : summary.frameworks.Perm (frameworks.map FrameworkRead.asScore)
  openViolations : summary.openViolationCount = (frameworks.map
    FrameworkRead.openViolationCount).sum
  openRows : summary.openViolationCount = d.violations.rows.countP isOpen
  foundFramework : ∀ f ∈ frameworks, framework f.id = .ok f
  foundControl : ∀ code status, ∀ c ∈ listed code status, getControl d c.id = .ok c

section

variable {collate : String → String → Bool} {before : Uuid → Uuid → Bool} {d : ComplianceData}

theorem countStatus_perm {ms ms' : List ControlMapping} (h : ms.Perm ms')
    (status : ControlStatus) : countStatus status ms = countStatus status ms' := h.countP_eq _

/-- As many controls are listed with a status as there are mappings with it. -/
theorem length_listControls (collate : String → String → Bool) (before : Uuid → Uuid → Bool)
    (d : ComplianceData) (status : ControlStatus) :
    (listControls collate before d none (some status)).length =
      countStatus status d.tables.controlMappings.rows := by
  have hscan := d.tables.controlMappings.scan_perm before
  rw [← controls_mappings] at hscan
  rw [listControls, List.length_map, (selectControls_perm collate before d _).length_eq,
    ← countStatus_perm hscan, countStatus, List.countP_map, List.countP_eq_length_filter]
  congr 1

theorem length_listControls_all (collate : String → String → Bool) (before : Uuid → Uuid → Bool)
    (d : ComplianceData) :
    (listControls collate before d none none).length = d.tables.controlMappings.rows.length := by
  have hscan := (d.tables.controlMappings.scan_perm before).length_eq
  rw [← controls_mappings, List.length_map] at hscan
  rw [listControls, List.length_map, (selectControls_perm collate before d _).length_eq, ← hscan]
  congr 1
  apply List.filter_eq_self.mpr
  intro c _
  rfl

theorem getGaps_eq (h : Collation collate) (before before' : Uuid → Uuid → Bool)
    (d : ComplianceData) (code : Option FrameworkCode) :
    getGaps collate before d code = ((listControls collate before' d code none).filter fun c =>
      c.status = ControlStatus.gap.value ∨ c.status = ControlStatus.partiallyMapped.value).map
        ControlRead.asGap := by
  have hcode : (fun c => hasCode code c && hasStatus none c) = hasCode code := by
    funext c
    simp [hasStatus]
  have hstatus : (fun c : ControlRead => decide (c.status = ControlStatus.gap.value ∨
      c.status = ControlStatus.partiallyMapped.value)) ∘ controlToRead = isGap := by
    funext c
    cases hc : c.2.status <;> simp [controlToRead, isGap, hc, ControlStatus.value]
  rw [getGaps, listControls, hcode, selectControls_filter h before before' d isGap (hasCode code),
    List.filter_map, hstatus, List.map_map]
  rfl

/-- A framework is listed with the controls that are listed under its code. -/
theorem breakdown_perm {orders : ScreenOrders} {f : FrameworkRead}
    (hf : f ∈ listFrameworks collate orders d) : ∃ code : FrameworkCode, f.code = code.value ∧
      f.controlBreakdown.Perm
        ((listControls collate before d (some code) none).map ControlRead.asMapping) := by
  obtain ⟨loaded, hloaded, rfl⟩ := List.mem_map.mp hf
  refine ⟨loaded.framework.code, rfl, ?_⟩
  have hframework : loaded.framework ∈ d.tables.frameworks.rows :=
    (loadFrameworks_perm collate orders d).mem_iff.mp (List.mem_map_of_mem hloaded)
  -- a control has the code of the framework that its mapping refers to
  have hcode : (controls before d).filter (fun c =>
      hasCode (some loaded.framework.code) c && hasStatus none c) =
        (controls before d).filter fun c => c.2.frameworkId = loaded.framework.id := by
    apply List.filter_congr
    intro c hc
    obtain ⟨hc₁, -, hid⟩ := mem_controls.mp hc
    have hiff : c.1.code = loaded.framework.code ↔ c.2.frameworkId = loaded.framework.id := by
      rw [← hid]
      constructor
      · intro heq
        rw [List.inj_on_of_nodup_map d.codes hc₁ hframework heq]
      · intro heq
        rw [d.tables.frameworks.eq_of_key_eq hc₁ hframework heq]
    simp [hasCode, hasStatus, hiff]
  have hmappings : (d.tables.mappingsOf orders.mappings loaded.framework.id).Perm
      (((controls before d).filter fun c => c.2.frameworkId = loaded.framework.id).map
        Prod.snd) := by
    have hsnd : ((controls before d).filter fun c => c.2.frameworkId = loaded.framework.id).map
        Prod.snd = ((controls before d).map Prod.snd).filter fun m =>
          m.frameworkId = loaded.framework.id := by
      rw [List.filter_map]
      rfl
    rw [hsnd, controls_mappings]
    exact ((d.tables.controlMappings.scan_perm _).trans
      (d.tables.controlMappings.scan_perm before).symm).filter _
  have hlisted := (selectControls_perm collate before d fun c =>
    hasCode (some loaded.framework.code) c && hasStatus none c).map
      (ControlRead.asMapping ∘ controlToRead)
  rw [hcode] at hlisted
  have hbreakdown := hmappings.map controlMappingToRead
  rw [List.map_map] at hbreakdown
  rw [listControls, List.map_map]
  show (loaded.controlMappings.map controlMappingToRead).Perm _
  rw [loaded_mappings hloaded]
  exact hbreakdown.trans hlisted.symm

theorem getFramework_listed {orders : ScreenOrders} {f : FrameworkRead}
    (hf : f ∈ listFrameworks collate orders d) : getFramework orders d f.id = .ok f := by
  obtain ⟨loaded, hloaded, rfl⟩ := List.mem_map.mp hf
  obtain ⟨framework, hframework, rfl⟩ := List.mem_map.mp hloaded
  have hmem : framework ∈ d.tables.frameworks.rows :=
    Table.mem_scan.mp ((List.perm_insertionSort _ _).mem_iff.mp hframework)
  have hfind : d.tables.frameworks.find? framework.id = some framework :=
    Table.find?_eq_some.mpr ⟨hmem, rfl⟩
  show getFramework orders d framework.id = _
  simp only [getFramework, hfind]

theorem getControl_listed {code : Option FrameworkCode} {status : Option ControlStatus}
    {c : ControlRead} (hc : c ∈ listControls collate before d code status) :
    getControl d c.id = .ok c := by
  obtain ⟨control, hcontrol, rfl⟩ := List.mem_map.mp hc
  have hmem := List.mem_of_mem_filter
    ((selectControls_perm collate before d _).mem_iff.mp hcontrol)
  obtain ⟨hf, hm, hid⟩ := mem_controls.mp hmem
  have hmapping : d.tables.controlMappings.find? (controlToRead control).id = some control.2 :=
    Table.find?_eq_some.mpr ⟨hm, rfl⟩
  have hframework : d.tables.frameworks.find? control.2.frameworkId = some control.1 :=
    Table.find?_eq_some.mpr ⟨hf, hid⟩
  simp only [getControl, hmapping, hframework]

/-- The frameworks are the same in whatever order they are returned, up to the order of their
mappings. -/
theorem loaded_perm {α : Type} (collate : String → String → Bool) (orders orders' : ScreenOrders)
    (d : ComplianceData) (g : ComplianceFramework → α) :
    ((loadFrameworks collate orders d).map fun f => g f.framework).Perm
      ((loadFrameworks collate orders' d).map fun f => g f.framework) := by
  have hperm := ((loadFrameworks_perm collate orders d).trans
    (loadFrameworks_perm collate orders' d).symm).map g
  rwa [List.map_map, List.map_map] at hperm

theorem overallScore_eq (collate : String → String → Bool) (orders orders' : ScreenOrders)
    (d : ComplianceData) :
    overallScore d (loadFrameworks collate orders d) =
      overallScore d (loadFrameworks collate orders' d) := by
  have hscores := loaded_perm collate orders orders' d fun f => (d.columns f.id).score
  have hlength := hscores.length_eq
  rw [List.length_map, List.length_map] at hlength
  simp only [overallScore, List.isEmpty_iff_length_eq_zero, hscores.sum_eq, hlength]

theorem violationReads_isSome (orders : ScreenOrders) (d : ComplianceData) :
    ∃ reads, violationReads orders d = some reads := by
  have hmap : ∀ vs : List ComplianceViolation, (∀ v ∈ vs, v ∈ d.violations.rows) →
      ∃ reads, (vs.mapM fun v =>
        (d.tables.frameworks.find? v.frameworkId).map (violationToRead v)) = some reads := by
    intro vs hvs
    induction vs with
    | nil => exact ⟨[], rfl⟩
    | cons v vs ih =>
      obtain ⟨hv, hrest⟩ := List.forall_mem_cons.mp hvs
      obtain ⟨f, hf, hid⟩ := d.violations_refer v hv
      have hfind := Table.find?_eq_some.mpr ⟨hf, hid⟩
      obtain ⟨reads, hreads⟩ := ih hrest
      exact ⟨violationToRead v f :: reads, by simp [List.mapM_cons, hfind, hreads]⟩
  apply hmap
  intro v hv
  exact Table.mem_scan.mp (mem_fromLargest.mp (List.mem_of_mem_take hv))

end

/-! ## A framework -/

def sampleColumns : FrameworkColumns where
  displayName := "SOC 2"
  subtitle := "Trust services"
  description := "Service organisation controls"
  auditor := none
  certified := true
  certExpiresAt := none
  score := 87

def sampleViolation : ComplianceViolation where
  id := 20
  frameworkId := 1
  severity := .review
  status := .open_
  controlReference := "CC6.1"
  title := "Stale access"
  description := "An account of a former employee is active"
  detectedAt := 63839664000000000
  resolvedAt := none
  resolutionNote := none

def sampleSnapshots : List ComplianceScoreSnapshot :=
  [⟨30, 1, 85, 63839664000000000⟩, ⟨31, 1, 87, 63839750400000000⟩]

theorem sampleSnapshots_nodup : (sampleSnapshots.map ComplianceScoreSnapshot.id).Nodup := by
  simp [sampleSnapshots]

open AssessmentScores (sampleCompliance sampleMappings)

theorem sampleCompliance_domains :
    (sampleMappings.map fun m => (m.frameworkId, m.controlDomain)).Nodup := by
  simp [sampleMappings, AssessmentScores.sampleControl]

theorem sampleMappings_refer : ∀ m ∈ sampleMappings, m.frameworkId = 1 := by
  simp [sampleMappings, AssessmentScores.sampleControl]

theorem sampleSnapshots_refer : ∀ r ∈ sampleSnapshots, r.frameworkId = 1 := by
  simp [sampleSnapshots]

theorem sampleCompliance_refers {k : Uuid} (h : k = 1) :
    ∃ f ∈ sampleCompliance.frameworks.rows, f.id = k :=
  ⟨⟨1, .soc2⟩, List.mem_singleton_self _, h.symm⟩

def sampleData : ComplianceData where
  tables := sampleCompliance
  columns _ := sampleColumns
  violations := .singleton sampleViolation
  validations := .empty
  scoreSnapshots := ⟨sampleSnapshots, sampleSnapshots_nodup⟩
  codes := List.nodup_singleton _
  domains := sampleCompliance_domains
  mappings_refer m hm := sampleCompliance_refers (sampleMappings_refer m hm)
  violations_refer _ hv := sampleCompliance_refers
    (congrArg ComplianceViolation.frameworkId (List.mem_singleton.mp hv))
  snapshots_refer r hr := sampleCompliance_refers (sampleSnapshots_refer r hr)

def sampleOrders : ScreenOrders where
  frameworks a b := a ≤ b
  mappings a b := a ≤ b
  violations a b := a ≤ b
  validations a b := a ≤ b

theorem sample_day : hours 24 ≤ 63839750400000000 := by simp [hours]

end NexusEngine.ComplianceScreens
