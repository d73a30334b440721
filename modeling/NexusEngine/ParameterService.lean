import NexusEngine.AuditService
import NexusEngine.PythonText

/-!
# The service of configuration parameters

A value is staged for a parameter, taken back or, with all other staged values, applied. Each
staging is recorded as a change, which is pending until it is reverted or applied. The overview
shows all parameters and the pending changes.
-/

namespace NexusEngine.ParameterService

open TransactionalRequests TextEncodings JsonDocuments CalendarTime StoredColumns PythonText
  KeyedTables ParameterTables Database AuditService

/-- What an operation draws from its surroundings: the clock, the identifier and the timestamp of
the row it inserts, and the orders in which queries without `ORDER BY` return their rows. -/
structure ConfigManagerEnv where
  now : ℕ → Instant
  uuid4 : Uuid
  createdAt : Instant
  audit : ℕ → AppendEnv
  parameterOrder : Uuid → Uuid → Bool
  changeOrder : Uuid → Uuid → Uuid → Bool

structure ConfigParameterStage where
  value : String
  reason : Option String
  changedBy : String

/-! ## Validating -/

def allowedTexts (parameter : ConfigParameter) : List (List Char) :=
  ((chars (parameter.allowedValues.getD "")).splitOn ',').map strip

/-- The refusal of a value, if it is refused. -/
def validateValue (tables : CharacterTables) (parameter : ConfigParameter) (value : String) :
    Option String :=
  if parameter.valueType = .enum ∧ parameter.allowedValues.any (· ≠ "") ∧
      chars value ∉ allowedTexts parameter then
    some ("'" ++ value ++ "' is not one of the allowed values for " ++ parameter.parameterKey ++
      ": " ++ String.ofList (reprList tables.isPrintable
        ((allowedTexts parameter).dedup.insertionSort fun a b => keyLe a b)))
  else if parameter.valueType = .integer ∧
      tables.isdigit ((chars value).dropWhile (· = '-')) = false then
    some (parameter.parameterKey ++ " expects an integer value")
  else if parameter.valueType = .boolean ∧
      tables.lower (chars value) ∉ [chars "true", chars "false"] then
    some (parameter.parameterKey ++ " expects a boolean value ('true'/'false')")
  else none

/-! ## Staging and reverting -/

/-- The updates of objects that were loaded as `old`. -/
def saveParameter (old new : ConfigParameter) : List Statement :=
  if old = new then [] else [.parameter (.updateParameter old.id (old.diff new))]

def saveChange (old new : ConfigChange) : List Statement :=
  if old = new then [] else [.parameter (.updateChange old.id (old.diff new))]

def getParameter (parameterId : Uuid) (error : ServiceError) : Service ConfigParameter := do
  let parameter ← Request.select fun db => db.parameters.parameters.find? parameterId
  found parameter error

def stagedChange (env : ConfigManagerEnv) (parameter : ConfigParameter)
    (payload : ConfigParameterStage) : ConfigChange where
  id := env.uuid4
  parameterId := parameter.id
  previousValue := parameter.activeValue
  newValue := payload.value
  reason := payload.reason
  changedBy := payload.changedBy
  status := .pending
  createdAt := env.createdAt
  appliedAt := none

def stageStatements (env : ConfigManagerEnv) (parameter : ConfigParameter)
    (payload : ConfigParameterStage) : List Statement :=
  if payload.value = parameter.activeValue then
    saveParameter parameter { parameter with pendingValue := none }
  else
    saveParameter parameter { parameter with pendingValue := some payload.value } ++
      [.parameter (.insertChange (stagedChange env parameter payload))]

def stageConfigChange (tables : CharacterTables) (env : ConfigManagerEnv) (parameterId : Uuid)
    (payload : ConfigParameterStage) : Service ConfigParameter := do
  let parameter ← getParameter parameterId (.http 404 "Parameter not found")
  ensure (validateValue tables parameter payload.value = none)
    (.http 422 ((validateValue tables parameter payload.value).getD ""))
  Request.send fun _ => stageStatements env parameter payload
  Request.commitTransaction
  getParameter parameter.id .exception

/-- The pending changes of a parameter, in the order in which the query returns them. -/
def pendingChanges (before : Uuid → Uuid → Bool) (s : ParameterStore) (parameterId : Uuid) :
    List ConfigChange :=
  (s.changes.scan before).filter fun c => c.parameterId = parameterId && c.status = .pending

def revertConfigChange (env : ConfigManagerEnv) (parameterId : Uuid) :
    Service ConfigParameter := do
  let parameter ← getParameter parameterId (.http 404 "Parameter not found")
  let changes ← Request.select fun db =>
    pendingChanges (env.changeOrder parameterId) db.parameters parameterId
  Request.send fun _ => saveParameter parameter { parameter with pendingValue := none } ++
    changes.flatMap fun c => saveChange c { c with status := .reverted }
  Request.commitTransaction
  getParameter parameter.id .exception

/-! ## Applying -/

def redactedConfigValue : String := "[REDACTED]"

/-- The parameter with its staged value as the live one. -/
def promoted (parameter : ConfigParameter) : ConfigParameter :=
  { parameter with
    activeValue := parameter.pendingValue.getD parameter.activeValue
    pendingValue := none }

def appliedChange (now : Instant) (c : ConfigChange) : ConfigChange :=
  { c with status := .applied, appliedAt := some now }

def promoteStatements (now : Instant) (parameter : ConfigParameter)
    (change : Option ConfigChange) : List Statement :=
  saveParameter parameter (promoted parameter) ++
    change.toList.flatMap fun c => saveChange c (appliedChange now c)

def parameterUpdatedEntry (tables : CharacterTables) (changedBy : String)
    (parameter : ConfigParameter) : AuditLogEntryCreate :=
  let previous := if parameter.isSensitive then redactedConfigValue else parameter.activeValue
  let new := if parameter.isSensitive then redactedConfigValue
    else (promoted parameter).activeValue
  let repr := fun s => String.ofList (reprText tables.isPrintable (chars s))
  { severity := "info"
    eventType := "config_change"
    eventSubtype := "PARAMETER_UPDATED"
    actor := changedBy
    description := "Config parameter '" ++ parameter.parameterKey ++ "' updated: " ++
      repr previous ++ " -> " ++ repr new
    metadataJson := [("parameter_key", .str parameter.parameterKey),
      ("previous_value", .str previous), ("new_value", .str new),
      ("requires_restart", .bool parameter.requiresRestart)] }

/-- Apply the staged values of the parameters, from the `k`-th on, and count them. -/
def applyParameters (crypto : AuditCrypto) (tables : CharacterTables) (env : ConfigManagerEnv)
    (changedBy : String) : ℕ → List ConfigParameter → Service ℕ
  | _, [] => return 0
  | k, parameter :: parameters => do
    let changes ← Request.select fun db =>
      pendingChanges (env.changeOrder parameter.id) db.parameters parameter.id
    let _ ← appendEntryInTransaction crypto (env.audit k)
      (promoteStatements (env.now k) parameter changes.head?)
      (parameterUpdatedEntry tables changedBy parameter)
    let count ← applyParameters crypto tables env changedBy (k + 1) parameters
    return count + 1

/-- The parameters with a staged value, in the order in which the query returns them. -/
def stagedParameters (before : Uuid → Uuid → Bool) (s : ParameterStore) : List ConfigParameter :=
  (s.parameters.scan before).filter fun p => p.pendingValue.isSome

def applyPendingChanges (crypto : AuditCrypto) (tables : CharacterTables)
    (env : ConfigManagerEnv) (changedBy : String) : Service ℕ := do
  let parameters ← Request.select fun db => stagedParameters env.parameterOrder db.parameters
  let count ← applyParameters crypto tables env changedBy 0 parameters
  Request.commitTransaction
  return count

/-! ## The overview -/

structure ConfigParameterRead where
  id : Uuid
  parameterKey : String
  sectionName : String
  tier : String
  valueType : String
  activeValue : String
  pendingValue : Option String
  hasPendingChange : Bool
  allowedValues : Option (List String)
  isSensitive : Bool
  requiresRestart : Bool
  description : Option String
  deriving DecidableEq, Repr

structure ConfigChangeRead where
  id : Uuid
  parameterKey : String
  previousValue : String
  newValue : String
  reason : Option String
  changedBy : String
  status : String
  createdAt : Instant
  appliedAt : Option Instant
  deriving DecidableEq, Repr

structure ConfigTierSummary where
  tier : String
  total : ℕ
  pending : ℕ
  deriving DecidableEq, Repr

structure ConfigManagerOverview where
  sections : List (String × List ConfigParameterRead)
  tierSummary : List ConfigTierSummary
  pendingChanges : List ConfigChangeRead
  deriving DecidableEq, Repr

def valueMask : String := "••••••••"

/-- An empty text counts as no text, for the allowed values and for masking. -/
def ConfigParameterRead.fromModel (param : ConfigParameter) : ConfigParameterRead where
  id := param.id
  parameterKey := param.parameterKey
  sectionName := param.sectionName
  tier := param.tier.value
  valueType := param.valueType.value
  activeValue := if param.isSensitive then valueMask else param.activeValue
  pendingValue := if param.isSensitive && param.pendingValue.any (· ≠ "") then some valueMask
    else param.pendingValue
  hasPendingChange := param.hasPendingChange
  allowedValues := (param.allowedValues.filter (· ≠ "")).map fun s =>
    ((chars s).splitOn ',').map String.ofList
  isSensitive := param.isSensitive
  requiresRestart := param.requiresRestart
  description := param.description

/-- `ORDER BY section, key` under the collation of the database. -/
def sectionOrder (collate : String → String → Bool) (p q : ConfigParameter) : Bool :=
  if collate p.sectionName q.sectionName && collate q.sectionName p.sectionName then
    collate p.parameterKey q.parameterKey
  else collate p.sectionName q.sectionName

def sectionsOf (parameters : List ConfigParameter) : List (String × List ConfigParameterRead) :=
  (groupby ConfigParameter.sectionName parameters).foldl (fun sections g =>
    dictSet sections g.1 (g.2.map ConfigParameterRead.fromModel)) []

def tierCounts (parameters : List ConfigParameter) : List (String × ℕ × ℕ) :=
  parameters.foldl (fun counts p =>
    let (total, pending) := dictGet counts p.tier.value (0, 0)
    dictSet counts p.tier.value (total + 1, if p.hasPendingChange then pending + 1 else pending)) []

def changeRead (parameter : Option ConfigParameter) (c : ConfigChange) : ConfigChangeRead where
  id := c.id
  parameterKey := (parameter.map ConfigParameter.parameterKey).getD "unknown"
  previousValue := c.previousValue
  newValue := c.newValue
  reason := c.reason
  changedBy := c.changedBy
  status := c.status.value
  createdAt := c.createdAt
  appliedAt := c.appliedAt

/-- The parameter of a change, queried only where the session has not loaded it. -/
def parameterOf (loaded : List ConfigParameter) (parameterId : Uuid) :
    Service (Option ConfigParameter) :=
  match loaded.find? fun p => p.id = parameterId with
  | some p => return some p
  | none => Request.select fun db => db.parameters.parameters.find? parameterId

def changeReads (loaded : List ConfigParameter) :
    List ConfigChange → Service (List ConfigChangeRead)
  | [] => return []
  | c :: cs => do
    let parameter ← parameterOf loaded c.parameterId
    let reads ← changeReads loaded cs
    return changeRead parameter c :: reads

/-- The parameters by section and key. -/
def sortedParameters (collate : String → String → Bool) (env : ConfigManagerEnv)
    (s : ParameterStore) : List ConfigParameter :=
  (s.parameters.scan env.parameterOrder).insertionSort fun p q => sectionOrder collate p q

/-- All pending changes, the newest first. -/
def newestPendingChanges (before : Uuid → Uuid → Bool) (s : ParameterStore) : List ConfigChange :=
  ((s.changes.scan before).filter fun c => c.status = .pending).insertionSort fun c d =>
    d.createdAt ≤ c.createdAt

def getConfigManagerOverview (collate : String → String → Bool) (env : ConfigManagerEnv)
    (changeOrder : Uuid → Uuid → Bool) : Service ConfigManagerOverview := do
  let parameters ← Request.select fun db => sortedParameters collate env db.parameters
  let changes ← Request.select fun db => newestPendingChanges changeOrder db.parameters
  let reads ← changeReads parameters changes
  return {
    sections := sectionsOf parameters
    tierSummary := (tierCounts parameters).map fun e => ⟨e.1, e.2.1, e.2.2⟩
    pendingChanges := reads }

/-! ## Requests -/

inductive ParameterRequest where
  | stage (env : ConfigManagerEnv) (parameterId : Uuid) (payload : ConfigParameterStage)
  | revert (env : ConfigManagerEnv) (parameterId : Uuid)
  | apply (env : ConfigManagerEnv) (changedBy : String)

/-- The request, without its response. -/
def ParameterRequest.request (crypto : AuditCrypto) (tables : CharacterTables) :
    ParameterRequest → Service Unit
  | stage env parameterId payload => do
    let _ ← stageConfigChange tables env parameterId payload
    return ()
  | revert env parameterId => do
    let _ ← revertConfigChange env parameterId
    return ()
  | apply env changedBy => do
    let _ ← applyPendingChanges crypto tables env changedBy
    return ()

end NexusEngine.ParameterService
