import NexusEngine.StoredColumns
import NexusEngine.KeyedTables

/-!
# The table of anomaly events

A score is a floating point number, that is, its exact value and its shortest text, or a value
that is not finite.
-/

namespace NexusEngine.AnomalyTables

open StoredColumns KeyedTables JsonDocuments CalendarTime

inductive Float64 where
  | finite (value : Rat) (text : FloatText)
  | nonfinite (x : NonFinite)
  deriving DecidableEq

def Float64.json : Float64 → Json
  | .finite _ text => .float text
  | .nonfinite x => .nonfinite x

/-- `x >= bound` for a finite bound. -/
def Float64.ge : Float64 → Rat → Bool
  | .finite value _, bound => bound ≤ value
  | .nonfinite .infinity, _ => true
  | .nonfinite _, _ => false

inductive AnomalySeverity where
  | critical | high | medium | low
  deriving DecidableEq, Repr

def AnomalySeverity.value : AnomalySeverity → String
  | .critical => "critical"
  | .high => "high"
  | .medium => "medium"
  | .low => "low"

/-- The bounds are the numbers that the literals 0.90, 0.70 and 0.40 stand for. -/
def AnomalySeverity.fromScore (score : Float64) : AnomalySeverity :=
  if score.ge (8106479329266893 / 9007199254740992) then .critical
  else if score.ge (6305039478318694 / 9007199254740992) then .high
  else if score.ge (3602879701896397 / 9007199254740992) then .medium
  else .low

inductive AnomalyStatus where
  | open_ | investigating | resolved | dismissed
  deriving DecidableEq, Repr

def AnomalyStatus.value : AnomalyStatus → String
  | .open_ => "open"
  | .investigating => "investigating"
  | .resolved => "resolved"
  | .dismissed => "dismissed"

structure AnomalyEvent where
  id : Uuid
  tenantId : Option Uuid
  category : String
  score : Float64
  severity : AnomalySeverity
  status : AnomalyStatus
  title : String
  description : String
  actor : Option String
  sourceIp : Option String
  baselineSigma : Option Float64
  metadataJson : List (String × Json)
  occurredAt : Instant
  resolvedAt : Option Instant
  deriving DecidableEq

structure AnomalyEventPatch where
  status : Option AnomalyStatus
  resolvedAt : Option (Option Instant)
  deriving DecidableEq, Repr

def AnomalyEventPatch.apply (p : AnomalyEventPatch) (e : AnomalyEvent) : AnomalyEvent :=
  { e with
    status := p.status.getD e.status
    resolvedAt := p.resolvedAt.getD e.resolvedAt }

def AnomalyEvent.diff (old new : AnomalyEvent) : AnomalyEventPatch where
  status := changed old.status new.status
  resolvedAt := changed old.resolvedAt new.resolvedAt

abbrev AnomalyEvents := Table AnomalyEvent Uuid AnomalyEvent.id

/-! ## Statements -/

inductive AnomalyStatement where
  | insertEvent (e : AnomalyEvent)
  | updateEvent (id : Uuid) (patch : AnomalyEventPatch)
  deriving DecidableEq

/-- `tenantExists` is the foreign key. -/
def insertAnomalyEvent (tenantExists : Uuid → Bool) (t : AnomalyEvents) (e : AnomalyEvent) :
    Option AnomalyEvents := do
  let category ← varchar 60 e.category
  let title ← varchar 255 e.title
  let description ← text e.description
  let actor ← nullable (varchar 120) e.actor
  let sourceIp ← nullable (varchar 45) e.sourceIp
  let _ ← json (.obj e.metadataJson)
  if e.tenantId.all tenantExists then
    t.insert
      { e with
        category := category
        title := title
        description := description
        actor := actor
        sourceIp := sourceIp }
  else none

def AnomalyStatement.apply (tenantExists : Uuid → Bool) :
    AnomalyStatement → AnomalyEvents → Option AnomalyEvents
  | .insertEvent e, t => insertAnomalyEvent tenantExists t e
  | .updateEvent id patch, t => t.update id patch.apply fun _ => rfl

def AnomalyStatement.conflicts : AnomalyStatement → AnomalyStatement → Bool
  | .insertEvent e, .insertEvent e' => e.id == e'.id
  | .updateEvent id _, .updateEvent id' _ => id == id'
  | _, _ => false

/-- The tenant's identifier is cleared where its row is deleted. -/
def clearTenant (id : Uuid) (t : AnomalyEvents) : AnomalyEvents :=
  t.mapRows (fun e => if e.tenantId = some id then { e with tenantId := none } else e) fun e => by
    split <;> rfl

end NexusEngine.AnomalyTables
