import NexusEngine.AuditService

/-!
# The service of anomaly events

An anomaly is ingested with the severity of its score, and its status is changed for one event or
for many at once. Each of these writes appends an entry to the audit log in its transaction.
-/

namespace NexusEngine.AnomalyService

open TransactionalRequests JsonDocuments CalendarTime StoredColumns KeyedTables AnomalyTables
  Database AuditService

/-- What an operation draws from its surroundings: the identifier of the row it inserts, the
clock, and the order in which a query without `ORDER BY` returns the events. -/
structure AnomalyEnv where
  uuid4 : Uuid
  now : Instant
  audit : ℕ → AppendEnv
  eventOrder : Uuid → Uuid → Bool

structure AnomalyEventCreate where
  category : String
  score : Float64
  title : String
  description : String
  actor : Option String := none
  sourceIp : Option String := none
  tenantId : Option Uuid := none
  baselineSigma : Option Float64 := none
  metadataJson : List (String × Json) := []

/-! ## Auditing -/

/-- An empty name is no name. -/
def auditActor (primary fallback : Option String) : String :=
  ((primary.filter (· ≠ "")).or (fallback.filter (· ≠ ""))).getD "system"

def auditMetadata (event : AnomalyEvent) (previousStatus : Option AnomalyStatus) :
    List (String × Json) :=
  [("anomaly_id", .str (uuidText event.id)), ("category", .str event.category),
    ("severity", .str event.severity.value), ("status", .str event.status.value),
    ("score", event.score.json), ("metadata_json", .obj event.metadataJson)] ++
  previousStatus.toList.map fun previous => ("previous_status", .str previous.value)

def anomalyEntry (event : AnomalyEvent) (actor subtype description : String)
    (previousStatus : Option AnomalyStatus) : AuditLogEntryCreate where
  severity := "info"
  eventType := "anomaly_detected"
  eventSubtype := subtype
  actor := actor
  description := description
  tenantId := event.tenantId
  sourceIp := event.sourceIp
  metadataJson := auditMetadata event previousStatus

/-! ## Ingesting -/

def newAnomalyEvent (env : AnomalyEnv) (payload : AnomalyEventCreate) : AnomalyEvent where
  id := env.uuid4
  tenantId := payload.tenantId
  category := payload.category
  score := payload.score
  severity := AnomalySeverity.fromScore payload.score
  status := .open_
  title := payload.title
  description := payload.description
  actor := payload.actor
  sourceIp := payload.sourceIp
  baselineSigma := payload.baselineSigma
  metadataJson := payload.metadataJson
  occurredAt := env.now
  resolvedAt := none

/-- The entry of a new event. -/
def createdEntry (actor : Option String) (event : AnomalyEvent) : AuditLogEntryCreate :=
  anomalyEntry event (auditActor actor event.actor) "ANOMALY_CREATED"
    ("Anomaly created: " ++ event.title) none

def refreshed (eventId : Uuid) : Service AnomalyEvent := do
  let event ← Request.select fun db => db.anomalies.find? eventId
  found event .exception

def createAnomalyEvent (crypto : AuditCrypto) (env : AnomalyEnv) (payload : AnomalyEventCreate)
    (actor : Option String) : Service AnomalyEvent := do
  let event := newAnomalyEvent env payload
  Request.send fun _ => [.anomaly (.insertEvent event)]
  let _ ← appendEntryInTransaction crypto (env.audit 0) [] (createdEntry actor event)
  Request.commitTransaction
  refreshed event.id

/-! ## Changing the status -/

/-- The time of resolution is set with the status and cleared when an event is opened again. -/
def withStatus (now : Instant) (status : AnomalyStatus) (event : AnomalyEvent) : AnomalyEvent :=
  { event with
    status := status
    resolvedAt :=
      match status with
      | .resolved => some now
      | .open_ => none
      | .investigating | .dismissed => event.resolvedAt }

/-- The update of an object that was loaded as `old`. -/
def saveAnomalyEvent (old new : AnomalyEvent) : List Statement :=
  if old = new then [] else [.anomaly (.updateEvent old.id (old.diff new))]

/-- The entry of an event that had the status `previous`. -/
def statusEntry (actor : Option String) (previous : AnomalyStatus) (event : AnomalyEvent) :
    AuditLogEntryCreate :=
  anomalyEntry event (auditActor actor event.actor) "ANOMALY_STATUS_UPDATED"
    ("Anomaly status updated: " ++ previous.value ++ " -> " ++ event.status.value) (some previous)

/-- Change the status of a loaded event, up to the commit. -/
def transition (crypto : AuditCrypto) (now : Instant) (audit : AppendEnv) (status : AnomalyStatus)
    (actor : Option String) (event : AnomalyEvent) : Service Unit := do
  let updated := withStatus now status event
  Request.send fun _ => saveAnomalyEvent event updated
  let _ ← appendEntryInTransaction crypto audit [] (statusEntry actor event.status updated)
  return ()

def updateAnomalyStatus (crypto : AuditCrypto) (env : AnomalyEnv) (eventId : Uuid)
    (status : AnomalyStatus) (actor : Option String) : Service (Option AnomalyEvent) := do
  let event ← Request.select fun db => db.anomalies.find? eventId
  match event with
  | none => return none
  | some event => do
    transition crypto env.now (env.audit 0) status actor event
    Request.commitTransaction
    let event ← refreshed event.id
    return some event

structure BulkStatusResponse where
  newStatus : String
  requested : ℕ
  updated : ℕ
  updatedIds : List Uuid
  notFoundIds : List Uuid
  deriving DecidableEq, Repr

/-- The transitions of the events, from the `k`-th on. -/
def transitionAll (crypto : AuditCrypto) (env : AnomalyEnv) (status : AnomalyStatus)
    (actor : Option String) : ℕ → List AnomalyEvent → Service Unit
  | _, [] => return ()
  | k, event :: events => do
    transition crypto env.now (env.audit k) status actor event
    transitionAll crypto env status actor (k + 1) events

/-- The events with one of the identifiers, in the order in which the query returns them. -/
def eventsWithin (env : AnomalyEnv) (ids : List Uuid) (t : AnomalyEvents) : List AnomalyEvent :=
  (t.scan env.eventOrder).filter fun e => e.id ∈ ids

def bulkUpdateAnomalyStatus (crypto : AuditCrypto) (env : AnomalyEnv) (eventIds : List Uuid)
    (status : AnomalyStatus) (actor : Option String) : Service BulkStatusResponse := do
  let uniqueIds := eventIds.eraseDups
  let events ← Request.select fun db => eventsWithin env uniqueIds db.anomalies
  transitionAll crypto env status actor 0 events
  Request.commitTransaction
  let foundIds := events.map AnomalyEvent.id
  let updatedIds := uniqueIds.filter (· ∈ foundIds)
  return {
    newStatus := status.value
    requested := uniqueIds.length
    updated := updatedIds.length
    updatedIds := updatedIds
    notFoundIds := uniqueIds.filter (· ∉ foundIds) }

/-! ## Requests -/

inductive AnomalyRequest where
  | create (env : AnomalyEnv) (payload : AnomalyEventCreate) (actor : Option String)
  | updateStatus (env : AnomalyEnv) (eventId : Uuid) (status : AnomalyStatus)
      (actor : Option String)
  | bulkUpdateStatus (env : AnomalyEnv) (eventIds : List Uuid) (status : AnomalyStatus)
      (actor : Option String)

/-- The request, without its response. -/
def AnomalyRequest.request (crypto : AuditCrypto) : AnomalyRequest → Service Unit
  | create env payload actor => do
    let _ ← createAnomalyEvent crypto env payload actor
    return ()
  | updateStatus env eventId status actor => do
    let _ ← updateAnomalyStatus crypto env eventId status actor
    return ()
  | bulkUpdateStatus env eventIds status actor => do
    let _ ← bulkUpdateAnomalyStatus crypto env eventIds status actor
    return ()

end NexusEngine.AnomalyService
