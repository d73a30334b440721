import NexusEngine.StoredColumns
import NexusEngine.KeyedTables

/-!
# The tables of configuration parameters

A parameter is one key of the engine with its live and its staged value. A change records that
a value was staged, and what became of it.
-/

namespace NexusEngine.ParameterTables

open StoredColumns KeyedTables CalendarTime

inductive ConfigTier where
  | critical | necessary | optional
  deriving DecidableEq, Repr

def ConfigTier.value : ConfigTier → String
  | .critical => "critical"
  | .necessary => "necessary"
  | .optional => "optional"

inductive ConfigValueType where
  | string | integer | boolean | duration | enum | json
  deriving DecidableEq, Repr

def ConfigValueType.value : ConfigValueType → String
  | .string => "string"
  | .integer => "integer"
  | .boolean => "boolean"
  | .duration => "duration"
  | .enum => "enum"
  | .json => "json"

structure ConfigParameter where
  id : Uuid
  parameterKey : String
  sectionName : String
  tier : ConfigTier
  valueType : ConfigValueType
  activeValue : String
  pendingValue : Option String
  allowedValues : Option String
  isSensitive : Bool
  requiresRestart : Bool
  description : Option String
  deriving DecidableEq, Repr

def ConfigParameter.hasPendingChange (p : ConfigParameter) : Bool :=
  p.pendingValue.any (· != p.activeValue)

inductive ConfigChangeStatus where
  | pending | applied | reverted
  deriving DecidableEq, Repr

def ConfigChangeStatus.value : ConfigChangeStatus → String
  | .pending => "pending"
  | .applied => "applied"
  | .reverted => "reverted"

structure ConfigChange where
  id : Uuid
  parameterId : Uuid
  previousValue : String
  newValue : String
  reason : Option String
  changedBy : String
  status : ConfigChangeStatus
  createdAt : Instant
  appliedAt : Option Instant
  deriving DecidableEq, Repr

structure ParameterStore where
  parameters : Table ConfigParameter Uuid ConfigParameter.id
  changes : Table ConfigChange Uuid ConfigChange.id

def ParameterStore.empty : ParameterStore := ⟨.empty, .empty⟩

/-! ## Updates of single rows -/

structure ConfigParameterPatch where
  activeValue : Option String
  pendingValue : Option (Option String)
  deriving DecidableEq, Repr

def ConfigParameterPatch.apply (patch : ConfigParameterPatch) (p : ConfigParameter) :
    ConfigParameter :=
  { p with
    activeValue := patch.activeValue.getD p.activeValue
    pendingValue := patch.pendingValue.getD p.pendingValue }

def ConfigParameter.diff (old new : ConfigParameter) : ConfigParameterPatch where
  activeValue := changed old.activeValue new.activeValue
  pendingValue := changed old.pendingValue new.pendingValue

structure ConfigChangePatch where
  status : Option ConfigChangeStatus
  appliedAt : Option (Option Instant)
  deriving DecidableEq, Repr

def ConfigChangePatch.apply (patch : ConfigChangePatch) (c : ConfigChange) : ConfigChange :=
  { c with
    status := patch.status.getD c.status
    appliedAt := patch.appliedAt.getD c.appliedAt }

def ConfigChange.diff (old new : ConfigChange) : ConfigChangePatch where
  status := changed old.status new.status
  appliedAt := changed old.appliedAt new.appliedAt

/-! ## Statements -/

inductive ParameterStatement where
  | updateParameter (id : Uuid) (patch : ConfigParameterPatch)
  | insertChange (c : ConfigChange)
  | updateChange (id : Uuid) (patch : ConfigChangePatch)
  deriving DecidableEq

namespace ParameterStore

/-- Every value of the patch is a text. -/
def updateParameter (s : ParameterStore) (id : Uuid) (patch : ConfigParameterPatch) :
    Option ParameterStore := do
  let _ ← nullable text patch.activeValue
  let _ ← nullable text (patch.pendingValue.getD none)
  let parameters ← s.parameters.update id patch.apply fun _ => rfl
  return { s with parameters := parameters }

def insertChange (s : ParameterStore) (c : ConfigChange) : Option ParameterStore := do
  let previousValue ← text c.previousValue
  let newValue ← text c.newValue
  let reason ← nullable (varchar 255) c.reason
  let changedBy ← varchar 120 c.changedBy
  if (s.parameters.find? c.parameterId).isSome then
    let changes ← s.changes.insert
      { c with
        previousValue := previousValue
        newValue := newValue
        reason := reason
        changedBy := changedBy }
    return { s with changes := changes }
  else none

def updateChange (s : ParameterStore) (id : Uuid) (patch : ConfigChangePatch) :
    Option ParameterStore :=
  (s.changes.update id patch.apply fun _ => rfl).map fun changes => { s with changes := changes }

end ParameterStore

def ParameterStatement.apply : ParameterStatement → ParameterStore → Option ParameterStore
  | .updateParameter id patch, s => s.updateParameter id patch
  | .insertChange c, s => s.insertChange c
  | .updateChange id patch, s => s.updateChange id patch

def ParameterStatement.conflicts : ParameterStatement → ParameterStatement → Bool
  | .updateParameter id _, .updateParameter id' _ => id == id'
  | .insertChange c, .insertChange c' => c.id == c'.id
  | .updateChange id _, .updateChange id' _ => id == id'
  | _, _ => false

end NexusEngine.ParameterTables
