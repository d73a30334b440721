import NexusEngine.Database
import NexusEngine.EngineService
import NexusEngine.NestedDictionaries
import NexusEngine.WeightedShares
import Mathlib.Data.String.Basic

/-!
# The assessments of compliance

An assessment is started for a framework and completed once: it then keeps the weighted share of
the applicable controls that are covered, and the counts behind it. The overview regroups the
mappings of the frameworks by the domains that they control. The tables are a store of their own,
which no other service reads.
-/

namespace NexusEngine.ComplianceService

open TransactionalRequests KeyedTables StoredColumns CalendarTime Database WeightedShares
  NestedDictionaries
open ConfigurationTable (maxInteger)
open EngineService (roundTo)
open PythonText (dictSet)

/-! ## The tables -/

inductive FrameworkCode where
  | soc2 | iso27001 | gdpr | hipaa
  deriving DecidableEq, Repr

def FrameworkCode.value : FrameworkCode → String
  | .soc2 => "soc2"
  | .iso27001 => "iso27001"
  | .gdpr => "gdpr"
  | .hipaa => "hipaa"

structure ComplianceFramework where
  id : Uuid
  code : FrameworkCode
  deriving DecidableEq, Repr

inductive ControlStatus where
  | mapped | partiallyMapped | gap | notApplicable
  deriving DecidableEq, Repr

def ControlStatus.value : ControlStatus → String
  | .mapped => "mapped"
  | .partiallyMapped => "partial"
  | .gap => "gap"
  | .notApplicable => "not_applicable"

structure ControlMapping where
  id : Uuid
  frameworkId : Uuid
  controlDomain : String
  controlDescription : String
  controlCode : String
  status : ControlStatus
  deriving DecidableEq, Repr

inductive AssessmentStatus where
  | inProgress | completed
  deriving DecidableEq, Repr

def AssessmentStatus.value : AssessmentStatus → String
  | .inProgress => "in_progress"
  | .completed => "completed"

structure ComplianceAssessment where
  id : Uuid
  frameworkId : Uuid
  status : AssessmentStatus
  startedBy : String
  startedAt : Instant
  completedAt : Option Instant
  score : Option ℚ
  totalControls : Option ℕ
  mappedControls : Option ℕ
  gapControls : Option ℕ
  notes : Option String
  deriving DecidableEq, Repr

structure ComplianceStore where
  frameworks : Table ComplianceFramework Uuid ComplianceFramework.id
  controlMappings : Table ControlMapping Uuid ControlMapping.id
  assessments : Table ComplianceAssessment Uuid ComplianceAssessment.id
  deriving DecidableEq

/-- What completing an assessment writes. -/
structure AssessmentCompletion where
  completedAt : Instant
  totalControls : ℕ
  mappedControls : ℕ
  gapControls : ℕ
  score : ℚ
  deriving DecidableEq, Repr

def AssessmentCompletion.apply (completion : AssessmentCompletion) (a : ComplianceAssessment) :
    ComplianceAssessment :=
  { a with
    status := .completed
    completedAt := some completion.completedAt
    totalControls := some completion.totalControls
    mappedControls := some completion.mappedControls
    gapControls := some completion.gapControls
    score := some completion.score }

inductive ComplianceStatement where
  | insert (a : ComplianceAssessment)
  | complete (id : Uuid) (completion : AssessmentCompletion)
  deriving DecidableEq

/-- Bind the values to the columns of a row that refers to a framework. -/
def insertAssessment (s : ComplianceStore) (a : ComplianceAssessment) : Option ComplianceStore := do
  let startedBy ← varchar 255 a.startedBy
  let _ ← s.frameworks.find? a.frameworkId
  let assessments ← s.assessments.insert { a with startedBy := startedBy }
  return { s with assessments := assessments }

/-- The counts are `Integer` columns. -/
def AssessmentCompletion.bound (completion : AssessmentCompletion) : Option AssessmentCompletion :=
  if maxInteger < completion.totalControls ∨ maxInteger < completion.mappedControls ∨
      maxInteger < completion.gapControls then none
  else some completion

def updateAssessment (s : ComplianceStore) (id : Uuid) (completion : AssessmentCompletion) :
    Option ComplianceStore := do
  let completion ← completion.bound
  let assessments ← s.assessments.update id completion.apply fun _ => rfl
  return { s with assessments := assessments }

def ComplianceStatement.apply : ComplianceStatement → ComplianceStore → Option ComplianceStore
  | .insert a, s => insertAssessment s a
  | .complete id completion, s => updateAssessment s id completion

def ComplianceStatement.conflicts : ComplianceStatement → ComplianceStatement → Bool
  | .insert a, .insert a' => a.id == a'.id
  | .complete id _, .complete id' _ => id == id'
  | _, _ => false

def complianceTables : StatementSemantics ComplianceStore ComplianceStatement ServiceError where
  apply := ComplianceStatement.apply
  conflicts := ComplianceStatement.conflicts
  rejected := .rejected

abbrev ComplianceRequest (α : Type) := Request ComplianceStore ComplianceStatement ServiceError α

/-! ## Coverage -/

/-- A partial mapping counts as half covered. -/
def partialWeight : ℚ := 1 / 2

def applicableMappings (mappings : List ControlMapping) : List ControlMapping :=
  mappings.filter fun m => m.status ≠ .notApplicable

def weightedControls (applicable : List ControlMapping) : ℚ :=
  ((applicable.filter fun m => m.status = .mapped ∨ m.status = .partiallyMapped).map fun m =>
    if m.status = .mapped then 1 else partialWeight).sum

/-- The covered share of the applicable controls, in percent. -/
def coveragePercent (digits : ℕ) (mappings : List ControlMapping) : ℚ :=
  let applicable := applicableMappings mappings
  if applicable.isEmpty then 0
  else roundTo digits (weightedControls applicable / applicable.length * 100)

def assessmentScore (mappings : List ControlMapping) : ℚ := coveragePercent 1 mappings

def countStatus (status : ControlStatus) (mappings : List ControlMapping) : ℕ :=
  mappings.countP fun m => m.status = status

def assessmentCompletion (now : Instant) (mappings : List ControlMapping) :
    AssessmentCompletion where
  completedAt := now
  totalControls := mappings.length
  mappedControls := countStatus .mapped mappings
  gapControls := countStatus .gap mappings
  score := assessmentScore mappings

/-! ## Coverage of the control domains -/

/-- A framework with its mappings, as the relationship loads them. -/
structure LoadedFramework where
  framework : ComplianceFramework
  controlMappings : List ControlMapping
  deriving DecidableEq, Repr

structure ControlMappingRead where
  controlDomain : String
  controlDescription : String
  controlCode : String
  status : String
  deriving DecidableEq, Repr

structure ControlCoverageRow where
  controlDomain : String
  controlDescription : String
  perFramework : List (String × Option ControlMappingRead)
  coveragePercent : ℚ
  deriving DecidableEq, Repr

def controlMappingToRead (m : ControlMapping) : ControlMappingRead where
  controlDomain := m.controlDomain
  controlDescription := m.controlDescription
  controlCode := m.controlCode
  status := m.status.value

/-- The dictionaries that the loops over the frameworks fill. -/
structure DomainTables where
  byDomain : List (String × List (String × ControlMapping))
  descriptions : List (String × String)

def DomainTables.add (code : String) (tables : DomainTables) (mapping : ControlMapping) :
    DomainTables where
  byDomain := setIn tables.byDomain mapping.controlDomain code mapping
  descriptions := dictSet tables.descriptions mapping.controlDomain mapping.controlDescription

def domainTables (frameworks : List LoadedFramework) : DomainTables :=
  frameworks.foldl (fun tables framework => framework.controlMappings.foldl
    (DomainTables.add framework.framework.code.value) tables) ⟨[], []⟩

def controlCoverageRow (domain : String) (perFramework : List (String × ControlMapping))
    (description : String) : ControlCoverageRow where
  controlDomain := domain
  controlDescription := description
  perFramework := perFramework.map fun e => (e.1, some (controlMappingToRead e.2))
  coveragePercent := coveragePercent 0 (perFramework.map Prod.snd)

/-- One row for each domain. A domain without a description would be a `KeyError`. -/
def buildControlCoverage (frameworks : List LoadedFramework) : Option (List ControlCoverageRow) :=
  let tables := domainTables frameworks
  (sortedItems tables.byDomain).mapM fun e =>
    (tables.descriptions.lookup e.1).map (controlCoverageRow e.1 e.2)

/-! ## The requests -/

structure AssessmentRead where
  id : Uuid
  frameworkId : Uuid
  frameworkCode : String
  status : String
  startedBy : String
  startedAt : Instant
  completedAt : Option Instant
  score : Option ℚ
  totalControls : Option ℕ
  mappedControls : Option ℕ
  gapControls : Option ℕ
  notes : Option String
  deriving DecidableEq, Repr

def assessmentToRead (framework : ComplianceFramework) (assessment : ComplianceAssessment) :
    AssessmentRead where
  id := assessment.id
  frameworkId := assessment.frameworkId
  frameworkCode := framework.code.value
  status := assessment.status.value
  startedBy := assessment.startedBy
  startedAt := assessment.startedAt
  completedAt := assessment.completedAt
  score := assessment.score
  totalControls := assessment.totalControls
  mappedControls := assessment.mappedControls
  gapControls := assessment.gapControls
  notes := assessment.notes

/-- The mappings of a framework, as the relationship loads them. -/
def ComplianceStore.mappingsOf (s : ComplianceStore) (before : Uuid → Uuid → Bool)
    (frameworkId : Uuid) : List ControlMapping :=
  (s.controlMappings.scan before).filter fun m => m.frameworkId = frameworkId

def getFrameworkOrm (frameworkId : Uuid) : ComplianceRequest ComplianceFramework := do
  let row ← Request.select fun s : ComplianceStore => s.frameworks.find? frameworkId
  Request.found row (.http 404 "Framework not found")

def getAssessmentOrm (assessmentId : Uuid) : ComplianceRequest ComplianceAssessment := do
  let row ← Request.select fun s : ComplianceStore => s.assessments.find? assessmentId
  Request.found row (.http 404 "Assessment not found")

/-- The assessment with the framework that is loaded beside it. -/
def getAssessment (assessmentId : Uuid) : ComplianceRequest AssessmentRead := do
  let assessment ← getAssessmentOrm assessmentId
  let framework ← Request.select fun s : ComplianceStore => s.frameworks.find? assessment.frameworkId
  let framework ← Request.found framework .exception
  return assessmentToRead framework assessment

def startAssessment (now : Instant) (newId frameworkId : Uuid) (startedBy : String) :
    ComplianceRequest AssessmentRead := do
  let _ ← getFrameworkOrm frameworkId
  Request.send fun _ => [.insert
    { id := newId
      frameworkId := frameworkId
      status := .inProgress
      startedBy := startedBy
      startedAt := now
      completedAt := none
      score := none
      totalControls := none
      mappedControls := none
      gapControls := none
      notes := none }]
  Request.commitTransaction
  getAssessment newId

/-- `before` is the order in which the database returns the mappings of the framework. -/
def completeAssessment (before : Uuid → Uuid → Bool) (now : Instant) (assessmentId : Uuid) :
    ComplianceRequest AssessmentRead := do
  let assessment ← getAssessmentOrm assessmentId
  Request.ensure (assessment.status ≠ .completed) (.http 409 "Assessment already completed")
  let framework ← getFrameworkOrm assessment.frameworkId
  let mappings ← Request.select fun s : ComplianceStore => s.mappingsOf before framework.id
  Request.send fun _ => [.complete assessment.id (assessmentCompletion now mappings)]
  Request.commitTransaction
  getAssessment assessment.id

end NexusEngine.ComplianceService
