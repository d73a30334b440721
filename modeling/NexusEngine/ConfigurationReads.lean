import NexusEngine.ConfigurationService
import NexusEngine.JsonEquality
import Mathlib.Data.List.Dedup

/-!
# Reading versioned configurations

The operations that return configuration documents. A document is masked before it is returned. A
comparison of two versions compares the raw values and returns masked ones.
-/

namespace NexusEngine.ConfigurationReads

open TransactionalRequests TextEncodings JsonDocuments JsonEquality CalendarTime StoredColumns
  KeyedTables PythonText ConfigurationTable Database ConfigurationService

/-! ## Sets of keys -/

/-- The order in which the difference and the intersection of two sets of keys are iterated. -/
structure SetOrder where
  difference : List String → List String → List String
  intersection : List String → List String → List String
  difference_perm : ∀ keys others,
    (difference keys others).Perm (keys.dedup.filter fun k => k ∉ others)
  intersection_perm : ∀ keys others,
    (intersection keys others).Perm (keys.dedup.filter fun k => k ∈ others)

theorem SetOrder.mem_difference (order : SetOrder) {keys others : List String} {k : String} :
    k ∈ order.difference keys others ↔ k ∈ keys ∧ k ∉ others := by
  simp [(order.difference_perm keys others).mem_iff]

theorem SetOrder.mem_intersection (order : SetOrder) {keys others : List String} {k : String} :
    k ∈ order.intersection keys others ↔ k ∈ keys ∧ k ∈ others := by
  simp [(order.intersection_perm keys others).mem_iff]

/-- What a response depends on beside the stored rows: the order of rows where a query leaves it
open, the collation of names, the iteration of sets and the values of floating point texts. -/
structure ReadEnv where
  rowOrder : Uuid → Uuid → Bool
  collate : String → String → Bool
  setOrder : SetOrder
  floatValue : FloatText → Rat

/-! ## Operations -/

structure ConfigurationCompareResponse where
  name : String
  baseVersion : ℕ
  otherVersion : ℕ
  added : List (String × Json)
  removed : List (String × Json)
  changed : List (String × Json × Json)
  unchangedCount : ℕ
  deriving DecidableEq

def scalarOneOrNone {α : Type} : List α → Service (Option α)
  | [] => return none
  | [row] => return some row
  | _ => .raise .exception

/-- By name, and for one name the latest version first. -/
def nameOrder (collate : String → String → Bool) (c d : Configuration) : Bool :=
  if collate c.name d.name && collate d.name c.name then decide (d.version ≤ c.version)
  else collate c.name d.name

def listConfigurations (env : ReadEnv) (name : Option String) (status : Option ConfigurationStatus)
    (includeDeleted : Bool) : Service (List ConfigurationRead) := do
  let configs ← Request.select fun db =>
    ((db.configurations.scan env.rowOrder).filter fun c =>
      (includeDeleted || c.deletedAt = none) && name.all (· = c.name) &&
        status.all (· = c.status)).insertionSort fun c d => nameOrder env.collate c d
  return configs.map toRead

def getConfiguration (configId : Uuid) : Service ConfigurationRead := do
  let config ← getConfigurationOrm configId
  return toRead config

/-- A version of a name that is not deleted. -/
def isVersionOf (name : String) (c : Configuration) : Bool := c.name = name && c.deletedAt = none

def getLatestConfiguration (name : String) : Service ConfigurationRead := do
  let config ← Request.select fun db =>
    (db.configurations.rows.filter (isVersionOf name)).argmax Configuration.version
  let config ← found config (.http 404 ("No configuration found for name '" ++ name ++ "'"))
  return toRead config

def getLatestActiveConfiguration (name : String) : Service ConfigurationRead := do
  let config ← activeConfiguration name
  let config ← found config (.http 404 ("No active configuration for name '" ++ name ++ "'"))
  return toRead config

def getConfigurationHistory (env : ReadEnv) (configId : Uuid) :
    Service (List ConfigurationRead) := do
  let config ← getConfigurationOrm configId
  let configs ← Request.select fun db =>
    ((db.configurations.scan env.rowOrder).filter (isVersionOf config.name)).insertionSort
      fun c d => d.version ≤ c.version
  return configs.map toRead

/-- The keys that both documents have: the changed ones with their masked values, and the number of
the others. -/
def compareCommon (floatValue : FloatText → Rat) (base other maskedBase maskedOther :
    List (String × Json)) : List String → List (String × Json × Json) × ℕ
  | [] => ([], 0)
  | key :: keys =>
    let (changed, unchanged) := compareCommon floatValue base other maskedBase maskedOther keys
    if valuesEqual floatValue (dictGet base key .null) (dictGet other key .null) then
      (changed, unchanged + 1)
    else
      ((key, dictGet maskedBase key .null, dictGet maskedOther key .null) :: changed, unchanged)

/-- The values of some keys of a document. -/
def pick (payload : List (String × Json)) (keys : List String) : List (String × Json) :=
  keys.map fun key => (key, dictGet payload key .null)

def compared (env : ReadEnv) (base other : Configuration) : ConfigurationCompareResponse :=
  let maskedBase := maskPayload base.payload base.sensitiveKeys
  let maskedOther := maskPayload other.payload other.sensitiveKeys
  let baseKeys := base.payload.map Prod.fst
  let otherKeys := other.payload.map Prod.fst
  let common := compareCommon env.floatValue base.payload other.payload maskedBase maskedOther
    (env.setOrder.intersection baseKeys otherKeys)
  { name := base.name
    baseVersion := base.version
    otherVersion := other.version
    added := pick maskedOther (env.setOrder.difference otherKeys baseKeys)
    removed := pick maskedBase (env.setOrder.difference baseKeys otherKeys)
    changed := common.1
    unchangedCount := common.2 }

/-- The version is any number in the path. One that the column cannot hold is not sent. -/
def compareConfigurations (env : ReadEnv) (configId : Uuid) (otherVersion : ℤ) :
    Service ConfigurationCompareResponse := do
  let base ← getConfigurationOrm configId
  ensure (-maxInteger - 1 ≤ otherVersion ∧ otherVersion ≤ maxInteger) .exception
  let others ← Request.select fun db =>
    (db.configurations.scan env.rowOrder).filter fun c =>
      isVersionOf base.name c && (c.version : ℤ) = otherVersion
  let other ← scalarOneOrNone others
  let other ← found other (.http 404 ("Version " ++ String.ofList (intText otherVersion) ++
    " not found for configuration '" ++ base.name ++ "'"))
  return compared env base other

/-! ## Queries -/

inductive ConfigurationQuery where
  | get (configId : Uuid)
  | list (name : Option String) (status : Option ConfigurationStatus) (includeDeleted : Bool)
  | latest (name : String)
  | latestActive (name : String)
  | history (configId : Uuid)
  | compare (configId : Uuid) (otherVersion : ℤ)

inductive ConfigurationAnswer where
  | read (config : ConfigurationRead)
  | reads (configs : List ConfigurationRead)
  | comparison (response : ConfigurationCompareResponse)
  deriving DecidableEq

def ConfigurationQuery.request (env : ReadEnv) : ConfigurationQuery → Service ConfigurationAnswer
  | get configId => do
    let config ← getConfiguration configId
    return .read config
  | list name status includeDeleted => do
    let configs ← listConfigurations env name status includeDeleted
    return .reads configs
  | latest name => do
    let config ← getLatestConfiguration name
    return .read config
  | latestActive name => do
    let config ← getLatestActiveConfiguration name
    return .read config
  | history configId => do
    let configs ← getConfigurationHistory env configId
    return .reads configs
  | compare configId otherVersion => do
    let response ← compareConfigurations env configId otherVersion
    return .comparison response

end NexusEngine.ConfigurationReads
