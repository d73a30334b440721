import NexusEngine.AuditService
import NexusEngine.PythonText
import Mathlib.Data.List.MinMax

/-!
# The service of versioned configurations

Creating, versioning, activating, archiving, rolling back, deleting and importing configuration
documents. Every operation is one request. A row never changes but in its status and its
timestamps, and deleting a row sets a timestamp.
-/

namespace NexusEngine.ConfigurationService

open TransactionalRequests TextEncodings JsonDocuments CalendarTime StoredColumns PythonText
  ConfigurationTable Database AuditService

/-- What an operation draws from its surroundings: the clock, and the identifiers and the
timestamps of the rows it inserts, one for each. -/
structure ConfigurationEnv where
  now : Instant
  uuid4 : ℕ → Uuid
  createdAt : ℕ → Instant
  updatedAt : ℕ → Instant
  touchedAt : Instant
  audit : AppendEnv

/-! ## Requests and responses -/

structure ConfigurationCreate where
  name : String
  name_min : 2 ≤ name.toList.length
  name_max : name.toList.length ≤ 120
  payload : List (String × Json)
  description : Option String
  description_max : ∀ d, description = some d → d.toList.length ≤ 255
  sensitiveKeys : List String

/-- Also an item of an import, which has the same fields and bounds. -/
abbrev ConfigurationImportItem := ConfigurationCreate

structure ConfigurationUpdate where
  payload : List (String × Json)
  description : Option String
  description_max : ∀ d, description = some d → d.toList.length ≤ 255
  sensitiveKeys : Option (List String)

theorem no_description_max : ∀ d : String, none = some d → d.toList.length ≤ 255 := by
  intro d h
  cases h

structure ConfigurationImportRequest where
  items : List ConfigurationImportItem
  items_min : 1 ≤ items.length
  items_max : items.length ≤ 100

structure ConfigurationRead where
  id : Uuid
  name : String
  version : ℕ
  status : String
  payload : List (String × Json)
  sensitiveKeys : List String
  checksum : String
  description : Option String
  createdBy : String
  activatedAt : Option Instant
  archivedAt : Option Instant
  deletedAt : Option Instant
  isDeleted : Bool
  createdAt : Instant
  updatedAt : Instant
  deriving DecidableEq

structure ConfigurationImportResultRow where
  name : String
  version : Option ℕ
  outcome : String
  detail : String
  deriving DecidableEq, Repr

structure ConfigurationImportResponse where
  imported : ℕ
  skipped : ℕ
  rows : List ConfigurationImportResultRow
  deriving DecidableEq, Repr

/-! ## Helpers -/

def mask : String := "••••••••"

def maxPayloadKeys : ℕ := 200

/-- The hash of the canonical text of a payload. -/
def payloadChecksum (crypto : AuditCrypto) (payload : List (String × Json)) : String :=
  hexdigest (crypto.sha256 (utf8 (dumps (.obj payload))))

def maskPayload (payload : List (String × Json)) (sensitiveKeys : List String) :
    List (String × Json) :=
  payload.map fun kv => (kv.1, if kv.1 ∈ sensitiveKeys then .str mask else kv.2)

def toRead (c : Configuration) : ConfigurationRead where
  id := c.id
  name := c.name
  version := c.version
  status := c.status.value
  payload := maskPayload c.payload c.sensitiveKeys
  sensitiveKeys := c.sensitiveKeys
  checksum := c.checksum
  description := c.description
  createdBy := c.createdBy
  activatedAt := c.activatedAt
  archivedAt := c.archivedAt
  deletedAt := c.deletedAt
  isDeleted := c.deletedAt.isSome
  createdAt := c.createdAt
  updatedAt := c.updatedAt

/-- A key that is empty or white space is reported by its `repr`, in which of all white space
only the blank is printed. -/
def keyErrors (key : String) : List String :=
  if strip (chars key) = [] then
    ["invalid payload key: " ++ String.ofList (reprText (fun _ => false) (chars key))]
  else if strip (chars key) ≠ chars key then
    ["key '" ++ key ++ "' has leading/trailing whitespace"]
  else []

def validatePayload (payload : List (String × Json)) (sensitiveKeys : List String) :
    List String :=
  if payload = [] then ["payload must be a non-empty object"]
  else
    (if maxPayloadKeys < payload.length then
      ["payload has too many keys (>" ++ natText maxPayloadKeys ++ ")"] else []) ++
    payload.flatMap (fun kv => keyErrors kv.1) ++
    sensitiveKeys.flatMap fun key =>
      if key ∈ payload.map Prod.fst then []
      else ["sensitive key '" ++ key ++ "' is not present in payload"]

/-- The refusal of a payload. -/
def ensureValid (payload : List (String × Json)) (sensitiveKeys : List String) : Service Unit :=
  ensure (validatePayload payload sensitiveKeys = [])
    (.http 422 (String.intercalate "; " (validatePayload payload sensitiveKeys)))

def getConfigurationOrm (id : Uuid) : Service Configuration := do
  let config ← Request.select fun db => db.configurations.find? id
  let config ← found config (.http 404 "Configuration not found")
  ensure (config.deletedAt = none) (.http 404 "Configuration not found")
  return config

/-- The largest version of a name, deleted rows included. -/
def maxVersion (t : Configurations) (name : String) : ℕ :=
  ((t.rows.filter fun c => c.name = name).map Configuration.version).foldr max 0

def nextVersion (name : String) : Service ℕ :=
  Request.select fun db => maxVersion db.configurations name + 1

def isActive (name : String) (c : Configuration) : Bool :=
  c.name = name && c.status = .active && c.deletedAt = none

def activeConfiguration (name : String) : Service (Option Configuration) :=
  Request.select fun db =>
    (db.configurations.rows.filter (isActive name)).argmax Configuration.version

def refreshed (id : Uuid) : Service ConfigurationRead := do
  let config ← Request.select fun db => db.configurations.find? id
  let config ← found config .exception
  return toRead config

/-- The update of an object that was loaded as `old`. -/
def saveConfiguration (old new : Configuration) : List Statement :=
  if old = new then [] else [.configuration (.update old.id (old.diff new))]

def configurationEntry (actor subtype description : String)
    (metadataJson : List (String × Json)) : AuditLogEntryCreate where
  severity := "info"
  eventType := "config_change"
  eventSubtype := subtype
  actor := actor
  description := description
  metadataJson := metadataJson

/-! ## Operations -/

/-- The `k`-th row that an operation inserts. -/
def draft (crypto : AuditCrypto) (env : ConfigurationEnv) (k : ℕ) (name : String) (version : ℕ)
    (payload : List (String × Json)) (sensitiveKeys : List String) (description : Option String)
    (createdBy : String) : Configuration where
  id := env.uuid4 k
  name := name
  version := version
  status := .draft
  payload := payload
  sensitiveKeys := sensitiveKeys
  checksum := payloadChecksum crypto payload
  description := description
  createdBy := createdBy
  activatedAt := none
  archivedAt := none
  deletedAt := none
  createdAt := env.createdAt k
  updatedAt := env.updatedAt k

def createConfiguration (crypto : AuditCrypto) (env : ConfigurationEnv)
    (payload : ConfigurationCreate) (createdBy : String) : Service ConfigurationRead := do
  let existing ← Request.select fun db =>
    db.configurations.rows.any fun c => c.name = payload.name
  ensure (existing = false) (.http 409 ("Configuration '" ++ payload.name ++
    "' already exists; PATCH it to add a version"))
  ensureValid payload.payload payload.sensitiveKeys
  let config := draft crypto env 0 payload.name 1 payload.payload payload.sensitiveKeys
    payload.description createdBy
  Request.send fun _ => [.configuration (.insert config)]
  Request.commitTransaction
  refreshed config.id

def createSuccessorVersion (crypto : AuditCrypto) (env : ConfigurationEnv) (configId : Uuid)
    (payload : ConfigurationUpdate) (createdBy : String) : Service ConfigurationRead := do
  let base ← getConfigurationOrm configId
  let sensitive := payload.sensitiveKeys.getD base.sensitiveKeys
  ensureValid payload.payload sensitive
  let version ← nextVersion base.name
  let config := draft crypto env 0 base.name version payload.payload sensitive
    (payload.description.or base.description) createdBy
  Request.send fun _ => [.configuration (.insert config)]
  Request.commitTransaction
  refreshed config.id

def deletedConfiguration (env : ConfigurationEnv) (c : Configuration) : Configuration :=
  { c with deletedAt := some env.now, updatedAt := env.touchedAt }

def deleteConfiguration (env : ConfigurationEnv) (configId : Uuid) : Service Unit := do
  let config ← getConfigurationOrm configId
  ensure (config.status ≠ .active)
    (.http 409 "Cannot delete an active configuration; archive it first")
  Request.send fun _ => saveConfiguration config (deletedConfiguration env config)
  Request.commitTransaction

def archivedConfiguration (env : ConfigurationEnv) (c : Configuration) : Configuration :=
  { c with status := .archived, archivedAt := some env.now, updatedAt := env.touchedAt }

/-- The active version that makes room for another one. -/
def archiveCurrent (env : ConfigurationEnv) (configId : Uuid) (current : Option Configuration) :
    List Statement :=
  match current with
  | none => []
  | some current =>
    if current.id = configId then []
    else saveConfiguration current (archivedConfiguration env current)

def activatedConfiguration (env : ConfigurationEnv) (c : Configuration) : Configuration :=
  { c with
    status := .active
    activatedAt := some env.now
    archivedAt := none
    updatedAt := env.touchedAt }

def activateConfiguration (crypto : AuditCrypto) (env : ConfigurationEnv) (configId : Uuid)
    (actor : String) : Service ConfigurationRead := do
  let config ← getConfigurationOrm configId
  ensure (config.status ≠ .active) (.http 409 "Configuration version is already active")
  let current ← activeConfiguration config.name
  let _ ← appendEntryInTransaction crypto env.audit
    (archiveCurrent env config.id current ++
      saveConfiguration config (activatedConfiguration env config))
    (configurationEntry actor "CONFIGURATION_ACTIVATED"
      ("Configuration '" ++ config.name ++ "' v" ++ natText config.version ++ " activated")
      [("name", .str config.name), ("version", .int config.version),
        ("checksum", .str config.checksum)])
  Request.commitTransaction
  refreshed config.id

def archiveConfiguration (env : ConfigurationEnv) (configId : Uuid) :
    Service ConfigurationRead := do
  let config ← getConfigurationOrm configId
  ensure (config.status ≠ .archived) (.http 409 "Configuration version is already archived")
  Request.send fun _ => saveConfiguration config (archivedConfiguration env config)
  Request.commitTransaction
  refreshed config.id

/-- The copy of a version that a rollback inserts. It takes over the checksum. -/
def rollbackCopy (env : ConfigurationEnv) (base : Configuration) (version : ℕ)
    (actor : String) : Configuration where
  id := env.uuid4 0
  name := base.name
  version := version
  status := .draft
  payload := base.payload
  sensitiveKeys := base.sensitiveKeys
  checksum := base.checksum
  description := some ("Rollback of '" ++ base.name ++ "' to v" ++ natText base.version)
  createdBy := actor
  activatedAt := none
  archivedAt := none
  deletedAt := none
  createdAt := env.createdAt 0
  updatedAt := env.updatedAt 0

def rollbackConfiguration (crypto : AuditCrypto) (env : ConfigurationEnv) (configId : Uuid)
    (actor : String) : Service ConfigurationRead := do
  let base ← getConfigurationOrm configId
  let version ← nextVersion base.name
  let config := rollbackCopy env base version actor
  Request.send fun _ => [.configuration (.insert config)]
  let current ← activeConfiguration base.name
  let _ ← appendEntryInTransaction crypto env.audit
    (archiveCurrent env config.id current ++
      saveConfiguration config (activatedConfiguration env config))
    (configurationEntry actor "CONFIGURATION_ROLLED_BACK"
      ("Configuration '" ++ base.name ++ "' rolled back to v" ++ natText base.version ++
        " (activated as v" ++ natText version ++ ")")
      [("name", .str base.name), ("restored_from_version", .int base.version),
        ("new_version", .int version)])
  Request.commitTransaction
  refreshed config.id

/-- Import the items in order. The flush of an item lets the next one see its version. -/
def importItems (crypto : AuditCrypto) (env : ConfigurationEnv) (createdBy : String) :
    ℕ → List ConfigurationImportItem → Service ConfigurationImportResponse
  | _, [] => return ⟨0, 0, []⟩
  | k, item :: items => do
    let errors := validatePayload item.payload item.sensitiveKeys
    if errors ≠ [] then
      let rest ← importItems crypto env createdBy (k + 1) items
      return { rest with
        skipped := rest.skipped + 1
        rows := ⟨item.name, none, "skipped", String.intercalate "; " errors⟩ :: rest.rows }
    else
      let version ← nextVersion item.name
      Request.send fun _ => [.configuration (.insert (draft crypto env k item.name version
        item.payload item.sensitiveKeys item.description createdBy))]
      let rest ← importItems crypto env createdBy (k + 1) items
      return { rest with
        imported := rest.imported + 1
        rows := ⟨item.name, some version, "created", "created v" ++ natText version⟩ ::
          rest.rows }

def importConfigurations (crypto : AuditCrypto) (env : ConfigurationEnv)
    (req : ConfigurationImportRequest) (createdBy : String) :
    Service ConfigurationImportResponse := do
  let response ← importItems crypto env createdBy 0 req.items
  Request.commitTransaction
  return response

/-! ## Requests -/

inductive ConfigurationRequest where
  | create (env : ConfigurationEnv) (payload : ConfigurationCreate) (createdBy : String)
  | createSuccessor (env : ConfigurationEnv) (configId : Uuid) (payload : ConfigurationUpdate)
      (createdBy : String)
  | activate (env : ConfigurationEnv) (configId : Uuid) (actor : String)
  | archive (env : ConfigurationEnv) (configId : Uuid)
  | rollback (env : ConfigurationEnv) (configId : Uuid) (actor : String)
  | delete (env : ConfigurationEnv) (configId : Uuid)
  | importAll (env : ConfigurationEnv) (req : ConfigurationImportRequest) (createdBy : String)

/-- The request, without its response. -/
def ConfigurationRequest.request (crypto : AuditCrypto) : ConfigurationRequest → Service Unit
  | create env payload createdBy => do
    let _ ← createConfiguration crypto env payload createdBy
    return ()
  | createSuccessor env configId payload createdBy => do
    let _ ← createSuccessorVersion crypto env configId payload createdBy
    return ()
  | activate env configId actor => do
    let _ ← activateConfiguration crypto env configId actor
    return ()
  | archive env configId => do
    let _ ← archiveConfiguration env configId
    return ()
  | rollback env configId actor => do
    let _ ← rollbackConfiguration crypto env configId actor
    return ()
  | delete env configId => deleteConfiguration env configId
  | importAll env req createdBy => do
    let _ ← importConfigurations crypto env req createdBy
    return ()

end NexusEngine.ConfigurationService
