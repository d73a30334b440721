import NexusEngine.Database
import NexusEngine.HashChains

/-!
# The audit service

Appending to the hash chain inside a transaction of the caller, appending on its own, and
the walk that verifies the chain. The hash and the signature scheme are parameters.
-/

namespace NexusEngine.AuditService

open TransactionalRequests TextEncodings JsonDocuments CalendarTime StoredColumns
  AuditLogTable Database HashChains

structure AuditLogEntryCreate where
  severity : String
  eventType : String
  eventSubtype : String
  actor : String
  description : String
  tenantId : Option Uuid := none
  tenantSlug : Option String := none
  sourceIp : Option String := none
  metadataJson : List (String × Json) := []
  deriving DecidableEq

/-- SHA-256 and the ECDSA key pair of the log. A signature takes a nonce besides the digest. -/
structure AuditCrypto where
  sha256 : Bytes → Bytes
  signingKeyId : String
  sign : ℕ → Bytes → Bytes
  verify : Bytes → Bytes → Bool

/-- What an append draws from its surroundings: the clock, a fresh identifier, a nonce. -/
structure AppendEnv where
  now : Instant
  uuid4 : Uuid
  nonce : ℕ
  deriving DecidableEq, Repr

/-! ## Hashing and signing -/

/-- The fields of an entry that its hash commits to, besides the hash before it. -/
structure EntryFields where
  occurredAt : Datetime
  severity : String
  eventType : String
  eventSubtype : String
  actor : String
  description : String
  tenantSlug : Option String
  sourceIp : Option String
  metadataJson : Json
  deriving DecidableEq

def optionalText : Option String → Json
  | none => .null
  | some s => .str s

def canonicalDocument (prevHash : Option String) (f : EntryFields) : Json :=
  .obj [
    ("prev_hash", optionalText prevHash),
    ("occurred_at", .str (String.ofList f.occurredAt.astimezoneUtc.isoformat)),
    ("severity", .str f.severity),
    ("event_type", .str f.eventType),
    ("event_subtype", .str f.eventSubtype),
    ("actor", .str f.actor),
    ("description", .str f.description),
    ("tenant_slug", optionalText f.tenantSlug),
    ("source_ip", optionalText f.sourceIp),
    ("metadata_json", f.metadataJson)]

def canonicalPayload (prevHash : Option String) (f : EntryFields) : Bytes :=
  utf8 (dumps (canonicalDocument prevHash f))

namespace AuditCrypto

variable (crypto : AuditCrypto)

def computeEntryHash (prevHash : Option String) (f : EntryFields) : String :=
  hexdigest (crypto.sha256 (canonicalPayload prevHash f))

def signHexDigest (nonce : ℕ) (hexDigest : String) : Option String :=
  (fromHex hexDigest).map fun digest => b64encode (crypto.sign nonce digest)

def verifyHexDigest (hexDigest signatureB64 : String) : Bool :=
  match b64decode signatureB64, fromHex hexDigest with
  | some signature, some digest => crypto.verify signature digest
  | _, _ => false

end AuditCrypto

/-! ## Metadata -/

def redactedMetadataValue : Json := .str "[REDACTED]"

def sensitiveMetadataKeys : List String :=
  ["access_token", "api_key", "apikey", "authorization", "credential", "credentials",
    "password", "private_key", "refresh_token", "secret", "secret_key", "token"]

/-- Lower case as far as the result can be ASCII: the capital letters and the Kelvin sign. -/
def lowerChar (c : Char) : Char :=
  if 'A' ≤ c ∧ c ≤ 'Z' then Char.ofNat (c.toNat + 32)
  else if c.toNat = 0x212A then 'k'
  else c

def isSensitiveKey (key : String) : Bool :=
  sensitiveMetadataKeys.any fun s => chars s == (chars key).map lowerChar

mutual

def sanitizeMetadata : Json → Json
  | .obj kvs => .obj (sanitizeMembers kvs)
  | .arr vs => .arr (sanitizeItems vs)
  | v => v
termination_by structural v => v

def sanitizeItems : List Json → List Json
  | [] => []
  | v :: vs => sanitizeMetadata v :: sanitizeItems vs
termination_by structural vs => vs

def sanitizeMembers : List (String × Json) → List (String × Json)
  | [] => []
  | kv :: kvs => sanitizeMember kv :: sanitizeMembers kvs
termination_by structural kvs => kvs

def sanitizeMember : String × Json → String × Json
  | (k, v) => (k, if isSensitiveKey k then redactedMetadataValue else sanitizeMetadata v)
termination_by structural kv => kv

end

/-! ## Appending -/

def inSequenceOrder (log : List AuditLogEntry) : List AuditLogEntry :=
  log.insertionSort fun a b => a.sequence ≤ b.sequence

def getTail : Service (Option AuditLogEntry) :=
  Request.select fun db => (inSequenceOrder db.auditLog).getLast?

def payloadFields (now : Instant) (payload : AuditLogEntryCreate) : EntryFields where
  occurredAt := ⟨now, 0⟩
  severity := payload.severity
  eventType := payload.eventType
  eventSubtype := payload.eventSubtype
  actor := payload.actor
  description := payload.description
  tenantSlug := payload.tenantSlug
  sourceIp := payload.sourceIp
  metadataJson := sanitizeMetadata (.obj payload.metadataJson)

/-- The entry of a payload after a given hash, with a given signature. -/
def newEntry (crypto : AuditCrypto) (env : AppendEnv) (prevHash : Option String)
    (payload : AuditLogEntryCreate) (signature : String) : NewAuditLogEntry :=
  let fields := payloadFields env.now payload
  { id := env.uuid4
    occurredAt := env.now
    severity := payload.severity
    eventType := payload.eventType
    eventSubtype := payload.eventSubtype
    tenantId := payload.tenantId
    tenantSlug := payload.tenantSlug
    actor := payload.actor
    sourceIp := payload.sourceIp
    description := payload.description
    metadataJson := fields.metadataJson
    prevHash := prevHash
    entryHash := crypto.computeEntryHash prevHash fields
    signingKeyId := crypto.signingKeyId
    signature := signature
    createdAt := env.now }

/-- Append one entry in the transaction of the caller. The flush also sends `unflushed`, the
statements the caller's session has not sent yet. -/
def appendEntryInTransaction (crypto : AuditCrypto) (env : AppendEnv)
    (unflushed : List Statement) (payload : AuditLogEntryCreate) : Service AuditLogEntry := do
  let tail ← getTail
  let prevHash := tail.map AuditLogEntry.entryHash
  let entryHash := crypto.computeEntryHash prevHash (payloadFields env.now payload)
  match crypto.signHexDigest env.nonce entryHash with
  | none => .raise .exception
  | some signature =>
    let entry := newEntry crypto env prevHash payload signature
    Request.send fun sequence => unflushed ++ [.insertAuditLogEntry entry sequence]
    let row ← Request.select fun db => db.auditLog.find? fun r => r.id = entry.id
    match row with
    | none => .raise .exception
    | some row => return row

def appendEntry (crypto : AuditCrypto) (env : AppendEnv) (payload : AuditLogEntryCreate) :
    Service AuditLogEntry := do
  let entry ← appendEntryInTransaction crypto env [] payload
  Request.commitTransaction
  let row ← Request.select fun db => db.auditLog.find? fun r => r.id = entry.id
  match row with
  | none => .raise .exception
  | some row => return row

/-! ## Verifying -/

/-- The hashed fields of a row as they are read back. -/
def storedFields (r : AuditLogEntry) : EntryFields where
  occurredAt := r.occurredAt
  severity := r.severity.value
  eventType := r.eventType.value
  eventSubtype := r.eventSubtype
  actor := r.actor
  description := r.description
  tenantSlug := r.tenantSlug
  sourceIp := r.sourceIp
  metadataJson := r.metadataJson

structure ChainVerificationResult where
  verifiedCount : ℕ
  failedCount : ℕ
  isValid : Bool
  firstBreakSequence : Option ℕ
  rootHash : Option String
  deriving DecidableEq, Repr

/-- The counters of the walk over the entries. -/
structure Walk where
  verified : ℕ
  failed : ℕ
  firstBreak : Option ℕ
  expectedPrevHash : Option String

section Verification

variable (crypto : AuditCrypto)

def entryVerifies (expectedPrevHash : Option String) (entry : AuditLogEntry) : Bool :=
  let expectedHash := crypto.computeEntryHash expectedPrevHash (storedFields entry)
  let hashOk := expectedHash == entry.entryHash && entry.prevHash == expectedPrevHash
  let signatureOk := crypto.verifyHexDigest entry.entryHash entry.signature
  hashOk && signatureOk

/-- The walk goes on with the stored hash, so that one bad entry fails alone. -/
def Walk.visit (w : Walk) (entry : AuditLogEntry) : Walk :=
  if entryVerifies crypto w.expectedPrevHash entry then
    { w with verified := w.verified + 1, expectedPrevHash := some entry.entryHash }
  else
    { w with
      failed := w.failed + 1
      firstBreak := w.firstBreak.or (some entry.sequence)
      expectedPrevHash := some entry.entryHash }

def verifyEntries (entries : List AuditLogEntry) : ChainVerificationResult :=
  let walk := entries.foldl (Walk.visit crypto) ⟨0, 0, none, none⟩
  { verifiedCount := walk.verified
    failedCount := walk.failed
    isValid := walk.failed == 0
    firstBreakSequence := walk.firstBreak
    rootHash := entries.getLast?.map AuditLogEntry.entryHash }

def verifyChain : Service ChainVerificationResult := do
  let entries ← Request.select fun db => inSequenceOrder db.auditLog
  return verifyEntries crypto entries

end Verification

end NexusEngine.AuditService
