import NexusEngine.AnomalyLifecycle
import NexusEngine.AuditTrails
import NexusEngine.JsonFieldText

/-!
# The history of an anomaly

The history of an anomaly is read from the audit log. The query looks into the documents of all
entries about anomalies, and takes those with the identifier.
-/

namespace NexusEngine.AnomalyHistory

open TransactionalRequests JsonDocuments CalendarTime StoredColumns KeyedTables AnomalyTables
  AuditLogTable Database AuditService AuditAppends AnomalyService AnomalyLifecycle
  MetadataSanitisation AuditTrails JsonFieldText

structure AnomalyHistoryEntry where
  sequence : ℕ
  occurredAt : Datetime
  actor : String
  subtype : String
  description : String
  previousStatus : Option String
  newStatus : Option String
  deriving DecidableEq

/-- A field of type `str | None` takes a text, or no value. -/
def optionalStr : Option Json → Option (Option String)
  | none => some none
  | some .null => some none
  | some (.str s) => some (some s)
  | some _ => none

def historyEntry (row : AuditLogEntry) : Option AnomalyHistoryEntry := do
  let previousStatus ← optionalStr (metadataValue row "previous_status")
  let newStatus ← optionalStr (metadataValue row "status")
  return {
    sequence := row.sequence
    occurredAt := row.occurredAt
    actor := row.actor
    subtype := row.eventSubtype
    description := row.description
    previousStatus := previousStatus
    newStatus := newStatus }

/-- The condition of the query. The types are compared first, so that the documents of other
entries are not looked into. -/
def isHistoryOf (eventId : Uuid) (row : AuditLogEntry) : Option Bool :=
  if row.eventType = .anomalyDetected then
    (fieldText row.metadataJson "anomaly_id").map fun field => field == some (uuidText eventId)
  else some false

/-- The rows of the query. It fails where its condition does. -/
def historyRows (eventId : Uuid) (log : List AuditLogEntry) : Option (List AuditLogEntry) :=
  if log.all fun row => (isHistoryOf eventId row).isSome then
    some (trail (fun row => isHistoryOf eventId row == some true) log)
  else none

def getAnomalyEvent (eventId : Uuid) : Service AnomalyEvent := do
  let event ← Request.select fun db => db.anomalies.find? eventId
  found event (.http 404 "Anomaly not found")

def getAnomalyHistory (eventId : Uuid) : Service (List AnomalyHistoryEntry) := do
  let _ ← getAnomalyEvent eventId
  let rows ← Request.select fun db => historyRows eventId db.auditLog
  let rows ← found rows .rejected
  found (rows.mapM historyEntry) .exception

/-! ## What is answered -/

/-- The database has an answer to the query. -/
def isSearchable (row : AuditLogEntry) : Bool :=
  row.eventType != .anomalyDetected || isDecodable row.metadataJson

/-- The entry is about the anomaly. -/
def concerns (eventId : Uuid) (row : AuditLogEntry) : Bool :=
  row.eventType == .anomalyDetected &&
    (metadataValue row "anomaly_id").bind asText == some (uuidText eventId)

theorem concerns_eventType {eventId : Uuid} {row : AuditLogEntry}
    (h : concerns eventId row = true) : row.eventType = .anomalyDetected := by
  simpa using (Bool.and_eq_true_iff.mp h).1

/-- An entry is about one anomaly at most. -/
theorem concerns_unique {a b : Uuid} {row : AuditLogEntry} (ha : concerns a row = true)
    (hb : concerns b row = true) : a = b := by
  have hid := eq_of_beq (Bool.and_eq_true_iff.mp ha).2
  rw [eq_of_beq (Bool.and_eq_true_iff.mp hb).2] at hid
  exact (uuidText_injective (Option.some.inj hid)).symm

theorem isHistoryOf_eq (eventId : Uuid) (row : AuditLogEntry) :
    isHistoryOf eventId row = if isSearchable row then some (concerns eventId row) else none := by
  unfold isHistoryOf isSearchable concerns fieldText metadataValue
  by_cases htype : row.eventType = .anomalyDetected
  · by_cases hdoc : isDecodable row.metadataJson = true
    · simp [htype, hdoc]
    · simp [htype, hdoc]
  · simp [htype]

theorem historyRows_eq (eventId : Uuid) (log : List AuditLogEntry) :
    historyRows eventId log =
      if log.all isSearchable then some (trail (concerns eventId) log) else none := by
  have hall : (log.all fun row => (isHistoryOf eventId row).isSome) = log.all isSearchable := by
    refine congrArg log.all (funext fun row => ?_)
    rw [isHistoryOf_eq]
    split
    · next h => simp [h]
    · next h => simp [h]
  unfold historyRows
  rw [hall]
  by_cases h : log.all isSearchable = true
  · rw [if_pos h, if_pos h]
    refine congrArg (fun rows => some (inSequenceOrder rows)) (List.filter_congr fun row hrow => ?_)
    rw [isHistoryOf_eq, if_pos (List.all_eq_true.mp h row hrow)]
    simp
  · rw [if_neg h, if_neg h]

/-- The answer to a request for the history. -/
def historyAnswer (eventId : Uuid) (db : Db) : Except ServiceError (List AnomalyHistoryEntry) :=
  match db.anomalies.find? eventId with
  | none => .error (.http 404 "Anomaly not found")
  | some _ =>
    if db.auditLog.all isSearchable then
      match (trail (concerns eventId) db.auditLog).mapM historyEntry with
      | none => .error .exception
      | some entries => .ok entries
    else .error .rejected

/-- The specification of `get_anomaly_history`. -/
theorem getAnomalyHistory_result (eventId : Uuid) (db : Db) (n : ℕ) :
    ((getAnomalyHistory eventId).serial postgres db db n).result = historyAnswer eventId db := by
  unfold historyAnswer
  cases hfind : db.anomalies.find? eventId with
  | none => simp [getAnomalyHistory, getAnomalyEvent, Request.select, Request.serial, found, hfind]
  | some event =>
    by_cases hall : db.auditLog.all isSearchable = true
    · simp only [getAnomalyHistory, getAnomalyEvent, Request.select, Request.query_bind,
        Request.done_bind, Request.serial, hfind, found, historyRows_eq, hall, if_true]
      cases (trail (concerns eventId) db.auditLog).mapM historyEntry with
      | none => rfl
      | some entries => rfl
    · rw [Bool.not_eq_true] at hall
      simp only [getAnomalyHistory, getAnomalyEvent, Request.select, Request.query_bind,
        Request.done_bind, Request.raise_bind, Request.serial, hfind, found, historyRows_eq, hall,
        Bool.false_eq_true, if_false]

/-! ## Entries of the service -/

/-- The metadata of an entry is public but for what is in the metadata of the anomaly. -/
theorem sanitizeMetadata_auditMetadata (event : AnomalyEvent) (previous : Option AnomalyStatus) :
    sanitizeMetadata (.obj (auditMetadata event previous)) =
      .obj ([("anomaly_id", .str (uuidText event.id)), ("category", .str event.category),
        ("severity", .str event.severity.value), ("status", .str event.status.value),
        ("score", event.score.json),
        ("metadata_json", sanitizeMetadata (.obj event.metadataJson))] ++
        previous.toList.map fun status => ("previous_status", .str status.value)) := by
  have hkeys : ∀ key ∈ ["anomaly_id", "category", "severity", "status", "score", "metadata_json",
      "previous_status"], isSensitiveKey key = false := by decide +kernel
  simp only [List.forall_mem_cons] at hkeys
  obtain ⟨hid, hcategory, hseverity, hstatus, hscore, hmetadata, hprevious, -⟩ := hkeys
  have hjson : sanitizeMetadata event.score.json = event.score.json := by
    cases event.score with
    | finite value text => rfl
    | nonfinite x => rfl
  rw [sanitizeMetadata_obj]
  cases previous with
  | none =>
    simp [auditMetadata, sanitizeMember, hid, hcategory, hseverity, hstatus, hscore, hmetadata,
      hjson, sanitizeMetadata]
  | some status =>
    simp [auditMetadata, sanitizeMember, hid, hcategory, hseverity, hstatus, hscore, hmetadata,
      hprevious, hjson, sanitizeMetadata]

section

variable {crypto : AuditCrypto} {env : AppendEnv} {event : AnomalyEvent}
  {actor subtype description : String} {previous : Option AnomalyStatus} {before : Option String}
  {n : ℕ} {row : AuditLogEntry}

theorem anomalyEntry_eventType
    (h : AppendedAs crypto env (anomalyEntry event actor subtype description previous) before n row) :
    row.eventType = .anomalyDetected := (Option.some.inj h.eventType).symm

/-- The entry is about its anomaly, and no other one. -/
theorem anomalyEntry_concerns
    (h : AppendedAs crypto env (anomalyEntry event actor subtype description previous) before n row)
    (eventId : Uuid) : concerns eventId row = decide (event.id = eventId) := by
  have hid : metadataValue row "anomaly_id" = some (.str (uuidText event.id)) := by
    rw [metadataValue, h.metadataJson]
    exact (congrArg (child · (.key "anomaly_id")) (sanitizeMetadata_auditMetadata ..)).trans rfl
  refine Bool.eq_iff_iff.mpr ?_
  rw [concerns, anomalyEntry_eventType h, hid]
  simp [asText, uuidText_injective.eq_iff]

theorem decodes_value (status : AnomalyStatus) : decodes status.value = true := by
  cases status with
  | _ => decide

theorem decodes_severity (severity : AnomalySeverity) : decodes severity.value = true := by
  cases severity with
  | _ => decide

/-- It is looked into where the metadata of the anomaly is. -/
theorem anomalyEntry_isSearchable
    (h : AppendedAs crypto env (anomalyEntry event actor subtype description previous) before n row)
    (hcategory : decodes event.category = true) :
    isSearchable row = isDecodable (sanitizeMetadata (.obj event.metadataJson)) := by
  have hdoc : row.metadataJson = _ :=
    h.metadataJson.trans (sanitizeMetadata_auditMetadata event previous)
  have hkeys : ∀ key ∈ ["anomaly_id", "category", "severity", "status", "score", "metadata_json",
      "previous_status"], decodes key = true := by decide
  simp only [List.forall_mem_cons] at hkeys
  obtain ⟨hid, hkey, hseverity, hstatus, hscore, hmetadata, hprevious, -⟩ := hkeys
  have hjson : isDecodable event.score.json = true := by
    cases event.score with
    | finite value text => rfl
    | nonfinite x => rfl
  rw [isSearchable, anomalyEntry_eventType h, hdoc]
  cases previous with
  | none =>
    simp [isDecodable, areMembersDecodable, isMemberDecodable, hid, hkey, hseverity, hstatus,
      hscore, hmetadata, hjson, hcategory, decodes_uuidText, decodes_value, decodes_severity]
  | some status =>
    simp [isDecodable, areMembersDecodable, isMemberDecodable, hid, hkey, hseverity, hstatus,
      hscore, hmetadata, hprevious, hjson, hcategory, decodes_uuidText, decodes_value,
      decodes_severity]

/-- What the history shows of it. -/
theorem anomalyEntry_historyEntry
    (h : AppendedAs crypto env (anomalyEntry event actor subtype description previous) before n row)
    (hsubtype : varchar 60 subtype = some subtype) :
    historyEntry row = some {
      sequence := row.sequence
      occurredAt := row.occurredAt
      actor := row.actor
      subtype := subtype
      description := row.description
      previousStatus := previous.map AnomalyStatus.value
      newStatus := some event.status.value } := by
  have hdoc : row.metadataJson = _ :=
    h.metadataJson.trans (sanitizeMetadata_auditMetadata event previous)
  have hrow : row.eventSubtype = subtype := Option.some.inj (h.eventSubtype.symm.trans hsubtype)
  have hstatus : metadataValue row "status" = some (.str event.status.value) := by
    rw [metadataValue, hdoc]
    rfl
  have hprevious : metadataValue row "previous_status" =
      previous.map fun status => .str status.value := by
    rw [metadataValue, hdoc]
    cases previous with
    | none => rfl
    | some status => rfl
  rw [historyEntry, hstatus, hprevious, hrow]
  cases previous with
  | none => rfl
  | some status => rfl

end

end NexusEngine.AnomalyHistory
