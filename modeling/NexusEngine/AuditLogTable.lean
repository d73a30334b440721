import NexusEngine.TenancyTables
import NexusEngine.JsonDocuments
import NexusEngine.CalendarTime

/-!
# The audit log table

A service constructs a `NewAuditLogEntry` with the texts it was given. The row that the
database keeps of it is an `AuditLogEntry`, whose severity and event type are enumeration
members and whose texts fit their columns.
-/

namespace NexusEngine.AuditLogTable

open StoredColumns JsonDocuments CalendarTime TenancyTables

inductive AuditSeverity where
  | critical | warning | info
  deriving DecidableEq, Repr

def AuditSeverity.value : AuditSeverity → String
  | .critical => "critical"
  | .warning => "warning"
  | .info => "info"

def auditSeverityColumn : EnumColumn AuditSeverity where
  members := [.critical, .warning, .info]
  value := AuditSeverity.value
  name
    | .critical => "CRITICAL"
    | .warning => "WARNING"
    | .info => "INFO"

inductive AuditEventType where
  | stateChange | authEvent | configChange | policyEval | tenantLifecycle | keyOperation
  | anomalyDetected
  deriving DecidableEq, Repr

def AuditEventType.value : AuditEventType → String
  | .stateChange => "state_change"
  | .authEvent => "auth_event"
  | .configChange => "config_change"
  | .policyEval => "policy_eval"
  | .tenantLifecycle => "tenant_lifecycle"
  | .keyOperation => "key_operation"
  | .anomalyDetected => "anomaly_detected"

def auditEventTypeColumn : EnumColumn AuditEventType where
  members := [.stateChange, .authEvent, .configChange, .policyEval, .tenantLifecycle,
    .keyOperation, .anomalyDetected]
  value := AuditEventType.value
  name
    | .stateChange => "STATE_CHANGE"
    | .authEvent => "AUTH_EVENT"
    | .configChange => "CONFIG_CHANGE"
    | .policyEval => "POLICY_EVAL"
    | .tenantLifecycle => "TENANT_LIFECYCLE"
    | .keyOperation => "KEY_OPERATION"
    | .anomalyDetected => "ANOMALY_DETECTED"

structure NewAuditLogEntry where
  id : Uuid
  occurredAt : Instant
  severity : String
  eventType : String
  eventSubtype : String
  tenantId : Option Uuid
  tenantSlug : Option String
  actor : String
  sourceIp : Option String
  description : String
  metadataJson : Json
  prevHash : Option String
  entryHash : String
  signingKeyId : String
  signature : String
  createdAt : Instant
  deriving DecidableEq

structure AuditLogEntry where
  id : Uuid
  sequence : ℕ
  occurredAt : Datetime
  severity : AuditSeverity
  eventType : AuditEventType
  eventSubtype : String
  tenantId : Option Uuid
  tenantSlug : Option String
  actor : String
  sourceIp : Option String
  description : String
  metadataJson : Json
  prevHash : Option String
  entryHash : String
  signingKeyId : String
  signature : String
  createdAt : Datetime
  deriving DecidableEq

/-- Bind every value to its column. -/
def NewAuditLogEntry.stored (entry : NewAuditLogEntry) (sequence : ℕ) :
    Option AuditLogEntry := do
  let severity ← auditSeverityColumn.bind entry.severity
  let eventType ← auditEventTypeColumn.bind entry.eventType
  let eventSubtype ← varchar 60 entry.eventSubtype
  let tenantSlug ← nullable (varchar 80) entry.tenantSlug
  let actor ← varchar 120 entry.actor
  let sourceIp ← nullable (varchar 45) entry.sourceIp
  let description ← text entry.description
  let metadataJson ← json entry.metadataJson
  let prevHash ← nullable (varchar 64) entry.prevHash
  let entryHash ← varchar 64 entry.entryHash
  let signingKeyId ← varchar 60 entry.signingKeyId
  let signature ← text entry.signature
  return {
    id := entry.id
    sequence := sequence
    occurredAt := ⟨entry.occurredAt, 0⟩
    severity := severity
    eventType := eventType
    eventSubtype := eventSubtype
    tenantId := entry.tenantId
    tenantSlug := tenantSlug
    actor := actor
    sourceIp := sourceIp
    description := description
    metadataJson := metadataJson
    prevHash := prevHash
    entryHash := entryHash
    signingKeyId := signingKeyId
    signature := signature
    createdAt := ⟨entry.createdAt, 0⟩ }

/-- The row is what the columns keep of the entry. -/
structure NewAuditLogEntry.KeptAs (entry : NewAuditLogEntry) (sequence : ℕ)
    (row : AuditLogEntry) : Prop where
  id : row.id = entry.id
  sequence : row.sequence = sequence
  occurredAt : row.occurredAt = ⟨entry.occurredAt, 0⟩
  severity : auditSeverityColumn.bind entry.severity = some row.severity
  eventType : auditEventTypeColumn.bind entry.eventType = some row.eventType
  eventSubtype : varchar 60 entry.eventSubtype = some row.eventSubtype
  tenantId : row.tenantId = entry.tenantId
  tenantSlug : nullable (varchar 80) entry.tenantSlug = some row.tenantSlug
  actor : varchar 120 entry.actor = some row.actor
  sourceIp : nullable (varchar 45) entry.sourceIp = some row.sourceIp
  description : row.description = entry.description
  metadataJson : row.metadataJson = entry.metadataJson
  prevHash : nullable (varchar 64) entry.prevHash = some row.prevHash
  entryHash : varchar 64 entry.entryHash = some row.entryHash
  signature : row.signature = entry.signature

theorem NewAuditLogEntry.keptAs {entry : NewAuditLogEntry} {n : ℕ} {row : AuditLogEntry}
    (h : entry.stored n = some row) : entry.KeptAs n row := by
  obtain ⟨severity, hseverity, h⟩ := Option.bind_eq_some_iff.mp h
  obtain ⟨eventType, htype, h⟩ := Option.bind_eq_some_iff.mp h
  obtain ⟨eventSubtype, hsubtype, h⟩ := Option.bind_eq_some_iff.mp h
  obtain ⟨tenantSlug, hslug, h⟩ := Option.bind_eq_some_iff.mp h
  obtain ⟨actor, hactor, h⟩ := Option.bind_eq_some_iff.mp h
  obtain ⟨sourceIp, hsource, h⟩ := Option.bind_eq_some_iff.mp h
  obtain ⟨description, hdescription, h⟩ := Option.bind_eq_some_iff.mp h
  obtain ⟨metadata, hmetadata, h⟩ := Option.bind_eq_some_iff.mp h
  obtain ⟨prevHash, hprev, h⟩ := Option.bind_eq_some_iff.mp h
  obtain ⟨entryHash, hhash, h⟩ := Option.bind_eq_some_iff.mp h
  obtain ⟨keyId, -, h⟩ := Option.bind_eq_some_iff.mp h
  obtain ⟨signature, hsignature, h⟩ := Option.bind_eq_some_iff.mp h
  obtain rfl := Option.some.inj h
  exact {
    id := rfl
    sequence := rfl
    occurredAt := rfl
    severity := hseverity
    eventType := htype
    eventSubtype := hsubtype
    tenantId := rfl
    tenantSlug := hslug
    actor := hactor
    sourceIp := hsource
    description := text_eq_some hdescription
    metadataJson := json_eq_some hmetadata
    prevHash := hprev
    entryHash := hhash
    signature := text_eq_some hsignature }

/-- The row may join the log: no other row has its id, its sequence number or its entry
hash, and its tenant exists. -/
def admits (tenants : List Tenant) (log : List AuditLogEntry) (row : AuditLogEntry) : Bool :=
  log.all (fun r => r.id != row.id && r.sequence != row.sequence && r.entryHash != row.entryHash)
    && row.tenantId.all fun t => tenants.any fun tenant => tenant.id == t

def insertAuditLogEntry (tenants : List Tenant) (entry : NewAuditLogEntry) (sequence : ℕ)
    (log : List AuditLogEntry) : Option (List AuditLogEntry) :=
  (entry.stored sequence).bind fun row =>
    if admits tenants log row then some (log ++ [row]) else none

theorem insertAuditLogEntry_eq_some {tenants : List Tenant} {entry : NewAuditLogEntry}
    {sequence : ℕ} {log log' : List AuditLogEntry} :
    insertAuditLogEntry tenants entry sequence log = some log' ↔
      ∃ row, entry.stored sequence = some row ∧ admits tenants log row = true ∧
        log' = log ++ [row] := by
  unfold insertAuditLogEntry
  rw [Option.bind_eq_some_iff]
  refine exists_congr fun row => and_congr_right fun _ => ?_
  split
  · next h => simp [h, eq_comm]
  · next h => simp [h]

end NexusEngine.AuditLogTable
