import NexusEngine.AuditService

/-!
# The HSM service

Registering, rotating and disabling master keys, the custodian ceremonies that activate them, and
the self-test. Every operation is one request. The objects of a session are flushed together with
the audit entry of the operation, and an object is only sent where it changed.
-/

namespace NexusEngine.HsmService

open TransactionalRequests TextEncodings JsonDocuments CalendarTime StoredColumns HsmTables
  Database AuditService

/-- What an operation draws from its surroundings: the clock, the identifiers of the rows it
inserts and of the ceremony reference, and what its audit entry draws. -/
structure HsmEnv where
  now : Instant
  uuid4 : Uuid
  refUuid4 : Uuid
  operationUuid4 : Uuid
  audit : AppendEnv
  readAt : Instant
  deriving DecidableEq, Repr

/-! ## Requests and responses -/

structure KeyCeremonyCreate where
  masterKeyId : Uuid
  predecessorKeyId : Option Uuid
  requiredApprovals : ℕ := 5
  ge_one : 1 ≤ requiredApprovals := by decide
  le_ten : requiredApprovals ≤ 10 := by decide
  scheduledAt : Option Instant

structure MasterKeyCreate where
  keyLabel : String
  keyLabel_min : 3 ≤ keyLabel.toList.length
  keyLabel_max : keyLabel.toList.length ≤ 80
  algorithm : String
  algorithm_min : 2 ≤ algorithm.toList.length
  algorithm_max : algorithm.toList.length ≤ 40
  slotId : Option Uuid
  rotationPolicyDays : ℕ := 180
  ge_one : 1 ≤ rotationPolicyDays := by decide
  le_max : rotationPolicyDays ≤ 3650 := by decide

structure MasterKeyRotateRequest where
  newLabel : Option String
  newLabel_min : ∀ l, newLabel = some l → 3 ≤ l.toList.length
  newLabel_max : ∀ l, newLabel = some l → l.toList.length ≤ 80

theorem no_newLabel_min : ∀ l : String, none = some l → 3 ≤ l.toList.length := by
  intro l h
  cases h

theorem no_newLabel_max : ∀ l : String, none = some l → l.toList.length ≤ 80 := by
  intro l h
  cases h

structure MasterKeyRead where
  id : Uuid
  keyLabel : String
  slotLabel : Option String
  algorithm : String
  status : String
  effectiveStatus : String
  rotationPolicyDays : ℕ
  activatedAt : Option Instant
  expiresAt : Option Instant
  daysUntilRotation : Option ℤ
  wrapsDekCount : ℕ
  throughputOps : Rat
  deriving DecidableEq, Repr

/-- A ceremony with its relationships loaded. -/
structure LoadedCeremony where
  ceremony : KeyCeremony
  approvals : List KeyCustodianApproval
  masterKey : MasterKey
  deriving DecidableEq, Repr

def approvalCount (approvals : List KeyCustodianApproval) : ℕ :=
  (approvals.filter fun a => a.approvedAt.isSome).length

def LoadedCeremony.quorumMet (c : LoadedCeremony) : Bool :=
  c.ceremony.requiredApprovals ≤ approvalCount c.approvals

/-! ## Helpers -/

/-- Whole days from one instant to another, rounded down. -/
def daysBetween (later earlier : Instant) : ℤ := ((later : ℤ) - earlier) / 86400000000

/-- The calendar ends with the year 9999. -/
def addDays (t : Instant) (days : ℕ) : Option Instant :=
  let later := t + days * 86400000000
  if later < 3652059 * 86400000000 then some later else none

def expiringWithinDays : ℤ := 30

def effectiveKeyStatus (k : MasterKey) (now : Instant) : String :=
  if k.status = .retired ∨ k.status = .pending ∨ k.status = .disabled then k.status.value
  else if k.expiresAt.any fun expiresAt => daysBetween expiresAt now ≤ expiringWithinDays then
    MasterKeyStatus.expiring.value
  else MasterKeyStatus.active.value

def masterKeyToRead (k : MasterKey) (slot : Option HsmSlot) (now : Instant) : MasterKeyRead where
  id := k.id
  keyLabel := k.keyLabel
  slotLabel := slot.map HsmSlot.label
  algorithm := k.algorithm
  status := k.status.value
  effectiveStatus := effectiveKeyStatus k now
  rotationPolicyDays := k.rotationPolicyDays
  activatedAt := k.activatedAt
  expiresAt := k.expiresAt
  daysUntilRotation := k.expiresAt.map fun expiresAt => daysBetween expiresAt now
  wrapsDekCount := k.wrapsDekCount
  throughputOps := k.throughputOps

/-- The characters for zero of the decimal digits. -/
def decimalZeros : List ℕ := [
  0x30, 0x660, 0x6f0, 0x7c0, 0x966, 0x9e6, 0xa66, 0xae6, 0xb66, 0xbe6, 0xc66, 0xce6, 0xd66, 0xde6,
  0xe50, 0xed0, 0xf20, 0x1040, 0x1090, 0x17e0, 0x1810, 0x1946, 0x19d0, 0x1a80, 0x1a90, 0x1b50,
  0x1bb0, 0x1c40, 0x1c50, 0xa620, 0xa8d0, 0xa900, 0xa9d0, 0xa9f0, 0xaa50, 0xabf0, 0xff10, 0x104a0,
  0x10d30, 0x11066, 0x110f0, 0x11136, 0x111d0, 0x112f0, 0x11450, 0x114d0, 0x11650, 0x116c0,
  0x11730, 0x118e0, 0x11950, 0x11c50, 0x11d50, 0x11da0, 0x16a60, 0x16ac0, 0x16b50, 0x1d7ce,
  0x1d7d8, 0x1d7e2, 0x1d7ec, 0x1d7f6, 0x1e140, 0x1e2f0, 0x1e950, 0x1fbf0]

def decimalDigit (c : Char) : Option ℕ :=
  (decimalZeros.find? fun first => first ≤ c.toNat && c.toNat < first + 10).map (c.toNat - ·)

/-- The version of `-v` and digits at the start of a text, when nothing follows them but the
newline that may end a text. -/
def versionSuffix : List Char → Option ℕ
  | '-' :: 'v' :: rest =>
    let digits := rest.takeWhile fun c => (decimalDigit c).isSome
    let after := rest.drop digits.length
    if digits ≠ [] ∧ (after = [] ∨ after = ['\n']) then
      some (digits.foldl (fun n c => n * 10 + (decimalDigit c).getD 0) 0)
    else none
  | _ => none

/-- The text before the first version suffix, and the version. -/
def splitVersion : List Char → Option (List Char × ℕ)
  | [] => none
  | c :: cs =>
    match versionSuffix (c :: cs) with
    | some version => some ([], version)
    | none => (splitVersion cs).map fun split => (c :: split.1, split.2)

def nextVersionLabel (label : String) : String :=
  match splitVersion (chars label) with
  | some (stem, version) => String.ofList stem ++ "-v" ++ natText (version + 1)
  | none => label ++ "-v2"

example : nextVersionLabel "nexus-master-v5" = "nexus-master-v6" := by decide +kernel

def ceremonyRef (now : Instant) (id : Uuid) : String :=
  let date := ord2ymd (now / 86400000000 + 1)
  "CER-" ++ String.ofList (padded 4 date.1 ++ padded 2 date.2.1 ++ padded 2 date.2.2) ++ "-" ++
    String.ofList (((uuidHex id).take 8).map Char.toUpper)

def optionalId : Option Uuid → Json
  | none => .null
  | some id => .str (uuidText id)

def keyOperationEntry (severity eventSubtype actor description : String)
    (metadataJson : List (String × Json)) : AuditLogEntryCreate where
  severity := severity
  eventType := "key_operation"
  eventSubtype := eventSubtype
  actor := actor
  description := description
  metadataJson := metadataJson

def recordOperation (env : HsmEnv) (operationType : SecurityOperationType)
    (key : Option MasterKey) (actor detail : String) : Statement :=
  .hsm (.insertOperation {
    id := env.operationUuid4
    operationType := operationType
    masterKeyId := key.map MasterKey.id
    keyLabel := key.map MasterKey.keyLabel
    actor := actor
    status := .success
    detail := detail
    occurredAt := env.now })

/-- The update of a key object that was loaded as `old`. -/
def saveKey (old new : MasterKey) : List Statement :=
  if old = new then [] else [.hsm (.updateKey old.id (old.diff new))]

def saveCeremony (old new : KeyCeremony) : List Statement :=
  if old = new then [] else [.hsm (.updateCeremony old.id (old.diff new))]

def getKeyOrm (keyId : Uuid) : Service MasterKey := do
  let key ← Request.select fun db => db.hsm.keys.find? keyId
  found key (.http 404 "Key not found")

def assertLabelAvailable (label : String) : Service Unit := do
  let existing ← Request.select fun db => db.hsm.keys.rows.any fun k => k.keyLabel == label
  ensure (existing = false) (.http 409 ("Key label '" ++ label ++ "' already exists"))

def getSlot : Option Uuid → Service (Option HsmSlot)
  | none => return none
  | some id => Request.select fun db => db.hsm.slots.find? id

def getKey (env : HsmEnv) (keyId : Uuid) : Service MasterKeyRead := do
  let key ← getKeyOrm keyId
  let slot ← getSlot key.slotId
  return masterKeyToRead key slot env.readAt

def selectApprovals (ceremonyId : Uuid) : Service (List KeyCustodianApproval) :=
  Request.select fun db => db.hsm.approvals.rows.filter fun a => a.ceremonyId = ceremonyId

/-- The relationships of a ceremony, each read by a query of its own. -/
def loadRelationships (ceremony : KeyCeremony) : Service LoadedCeremony := do
  let approvals ← selectApprovals ceremony.id
  let masterKey ← Request.select fun db => db.hsm.keys.find? ceremony.masterKeyId
  let masterKey ← found masterKey .exception
  return ⟨ceremony, approvals, masterKey⟩

/-- A ceremony that is still open. -/
def loadPendingCeremony (ceremonyId : Uuid) : Service LoadedCeremony := do
  let ceremony ← Request.select fun db => db.hsm.ceremonies.find? ceremonyId
  let ceremony ← found ceremony (.http 404 "Ceremony not found")
  let loaded ← loadRelationships ceremony
  ensure (ceremony.status = .pending)
    (.http 409 ("Ceremony is already " ++ ceremony.status.value))
  return loaded

/-! ## Ceremonies -/

def predecessorOf (masterKeyId : Uuid) : Option Uuid → Service (Option MasterKey)
  | none => return none
  | some predecessorKeyId => do
    ensure (predecessorKeyId ≠ masterKeyId)
      (.http 409 "Predecessor key must be different from the pending key")
    let predecessor ← getKeyOrm predecessorKeyId
    ensure (predecessor.status = .active ∨ predecessor.status = .expiring)
      (.http 409 ("Predecessor key must be active or expiring (key is " ++
        predecessor.status.value ++ ")"))
    return some predecessor

def initiatedCeremony (env : HsmEnv) (payload : KeyCeremonyCreate) (targetKey : MasterKey)
    (predecessor : Option MasterKey) : KeyCeremony where
  id := env.uuid4
  ceremonyRef := ceremonyRef env.now env.refUuid4
  masterKeyId := targetKey.id
  predecessorLabel := predecessor.map MasterKey.keyLabel
  requiredApprovals := payload.requiredApprovals
  status := .pending
  scheduledAt := payload.scheduledAt
  completedAt := none

def createCeremony (crypto : AuditCrypto) (env : HsmEnv) (payload : KeyCeremonyCreate)
    (actor : String) : Service LoadedCeremony := do
  let targetKey ← getKeyOrm payload.masterKeyId
  ensure (targetKey.status = .pending)
    (.http 409 ("Ceremonies can only be initiated for pending keys (key is " ++
      targetKey.status.value ++ ")"))
  let predecessor ← predecessorOf payload.masterKeyId payload.predecessorKeyId
  let duplicates ← Request.select fun db => db.hsm.ceremonies.rows.filter fun c =>
    c.masterKeyId = targetKey.id ∧ c.status = .pending
  -- a second row would be an exception of `scalar_one_or_none`
  ensure (duplicates.length ≤ 1) .exception
  ensure (duplicates.isEmpty = true) (.http 409 "A pending ceremony already exists for this key")
  let ceremony := initiatedCeremony env payload targetKey predecessor
  Request.send fun _ => [.hsm (.insertCeremony ceremony)]
  let _ ← appendEntryInTransaction crypto env.audit [] (keyOperationEntry "info"
    "KEY_CEREMONY_INITIATED" actor
    ("Initiated key ceremony " ++ ceremony.ceremonyRef ++ " for " ++ targetKey.keyLabel)
    [("ceremony_ref", .str ceremony.ceremonyRef),
      ("master_key_id", .str (uuidText targetKey.id)),
      ("master_key_label", .str targetKey.keyLabel),
      ("predecessor_label", optionalText ceremony.predecessorLabel),
      ("required_approvals", .int ceremony.requiredApprovals)])
  Request.commitTransaction
  loadRelationships ceremony

/-- The approval of a custodian, as a new row or as an update of one that was not given yet,
and the approvals of the ceremony with it. -/
def giveApproval (env : HsmEnv) (ceremony : LoadedCeremony) (custodianEmail : String) :
    List Statement × List KeyCustodianApproval :=
  match ceremony.approvals.find? fun a => a.custodianEmail = custodianEmail with
  | none =>
    let approval : KeyCustodianApproval :=
      ⟨env.uuid4, ceremony.ceremony.id, custodianEmail, some env.now⟩
    ([.hsm (.insertApproval approval)], ceremony.approvals ++ [approval])
  | some approval =>
    ([.hsm (.updateApproval approval.id env.now)],
      ceremony.approvals.map fun a => if a.id = approval.id then
        { a with approvedAt := some env.now } else a)

def alreadyApproved (ceremony : LoadedCeremony) (custodianEmail : String) : Bool :=
  (ceremony.approvals.find? fun a => a.custodianEmail = custodianEmail).any fun a =>
    a.approvedAt.isSome

def recordApproval (crypto : AuditCrypto) (env : HsmEnv) (ceremony : LoadedCeremony)
    (custodianEmail : String) : Service Unit :=
  if alreadyApproved ceremony custodianEmail then return ()
  else do
    let approval := giveApproval env ceremony custodianEmail
    let _ ← appendEntryInTransaction crypto env.audit approval.1 (keyOperationEntry "info"
      "KEY_CEREMONY_APPROVED" custodianEmail
      ("Approved key ceremony " ++ ceremony.ceremony.ceremonyRef)
      [("ceremony_ref", .str ceremony.ceremony.ceremonyRef),
        ("master_key_id", .str (uuidText ceremony.ceremony.masterKeyId)),
        ("master_key_label", .str ceremony.masterKey.keyLabel),
        ("approval_count", .int (approvalCount approval.2)),
        ("required_approvals", .int ceremony.ceremony.requiredApprovals)])
    return ()

def approveCeremony (crypto : AuditCrypto) (env : HsmEnv) (ceremonyId : Uuid)
    (custodianEmail : String) : Service LoadedCeremony := do
  let ceremony ← loadPendingCeremony ceremonyId
  recordApproval crypto env ceremony custodianEmail
  Request.commitTransaction
  loadRelationships ceremony.ceremony

/-- The predecessor that a ceremony names, by its label. -/
def predecessorByLabel (t : HsmStore) : Option String → Option MasterKey
  | none => none
  | some label => if label = "" then none else t.keys.rows.find? fun k => k.keyLabel = label

def findPredecessor (label : Option String) : Service (Option MasterKey) :=
  if label = none ∨ label = some "" then return none
  else Request.select fun db => predecessorByLabel db.hsm label

/-- The key objects that completion changes, each as it was loaded and as it is flushed. A
predecessor with the new key's identifier would be the same object. -/
def rotatedKeys (now expiresAt : Instant) (key : MasterKey) :
    Option MasterKey → List (MasterKey × MasterKey)
  | none =>
    [(key, { key with status := .active, activatedAt := some now, expiresAt := some expiresAt })]
  | some predecessor =>
    if predecessor.id = key.id then
      [(key, { key with
        status := .retired
        activatedAt := some now
        expiresAt := some expiresAt
        retiredAt := some now
        supersededById := some key.id })]
    else
      [(key, { key with
          status := .active
          activatedAt := some now
          expiresAt := some expiresAt
          supersededById := none }),
        (predecessor, { predecessor with
          status := .retired
          retiredAt := some now
          supersededById := some key.id })]

def completedCeremony (now : Instant) (c : KeyCeremony) : KeyCeremony :=
  { c with status := .complete, completedAt := some now }

def completeCeremony (crypto : AuditCrypto) (env : HsmEnv) (ceremonyId : Uuid)
    (actor : String) : Service LoadedCeremony := do
  let loaded ← loadPendingCeremony ceremonyId
  let ceremony := loaded.ceremony
  let newKey := loaded.masterKey
  ensure (loaded.quorumMet = true)
    (.http 409 ("Quorum not met: " ++ natText (approvalCount loaded.approvals) ++ "/" ++
      natText ceremony.requiredApprovals ++ " approved"))
  let expiresAt ← found (addDays env.now newKey.rotationPolicyDays) .exception
  let predecessor ← findPredecessor ceremony.predecessorLabel
  let _ ← appendEntryInTransaction crypto env.audit
    ((rotatedKeys env.now expiresAt newKey predecessor).flatMap (fun k => saveKey k.1 k.2) ++
      saveCeremony ceremony (completedCeremony env.now ceremony) ++
      [recordOperation env .ceremonyComplete (some newKey) actor
        ("Completed ceremony " ++ ceremony.ceremonyRef)])
    (keyOperationEntry "info" "KEY_ROTATION_COMPLETE" actor
      ((match ceremony.predecessorLabel with
        | some label => if label = "" then "new key" else label
        | none => "new key") ++ " -> " ++ newKey.keyLabel ++
        " rotation completed via ceremony " ++ ceremony.ceremonyRef)
      [("ceremony_ref", .str ceremony.ceremonyRef),
        ("new_key", .str newKey.keyLabel),
        ("approvals", .int (approvalCount loaded.approvals))])
  Request.commitTransaction
  loadRelationships (completedCeremony env.now ceremony)

/-! ## Attestation -/

/-- The checks of the self-test, which all pass. -/
def attestationChecks : List AttestationCheckResult :=
  [⟨"fips_mode", "FIPS Mode", true, "FIPS 140-3 Level 3"⟩,
    ⟨"tamper_seal", "Tamper Seal", true, "seal intact"⟩,
    ⟨"firmware_hash", "Firmware Hash", true, "sha256 verified"⟩,
    ⟨"rng_quality", "RNG Quality", true, "entropy 7.99 bits"⟩,
    ⟨"key_zeroize", "Key Zeroize", true, "zeroization test passed"⟩,
    ⟨"self_test", "Self-Test", true, "12/12 KATs passed"⟩,
    ⟨"attest_chain", "Attest Chain", true, "3-cert chain valid"⟩]

def attestationRun (env : HsmEnv) : AttestationRun where
  id := env.uuid4
  ranAt := env.now
  checks := attestationChecks
  allPassed := attestationChecks.all AttestationCheckResult.passed

def attestationEntry (env : HsmEnv) (actor : String) : AuditLogEntryCreate :=
  keyOperationEntry "info" "HSM_ATTESTATION_RUN" actor "Executed HSM attestation checks"
    [("attestation_run_id", .str (uuidText (attestationRun env).id)),
      ("all_passed", .bool (attestationRun env).allPassed),
      ("check_count", .int attestationChecks.length)]

def runAttestation (crypto : AuditCrypto) (env : HsmEnv) (actor : String) :
    Service AttestationRun := do
  let run := attestationRun env
  let _ ← appendEntryInTransaction crypto env.audit
    [.hsm (.insertAttestationRun run),
      recordOperation env .attestationRun none actor "Executed hardware attestation checks"]
    (attestationEntry env actor)
  Request.commitTransaction
  let row ← Request.select fun db => db.hsm.attestationRuns.find? run.id
  found row .exception

/-! ## Keys -/

def assertSlotExists : Option Uuid → Service Unit
  | none => return ()
  | some id => do
    let slot ← Request.select fun db => db.hsm.slots.find? id
    let _ ← found slot (.http 404 "Slot not found")
    return ()

def registeredKey (env : HsmEnv) (payload : MasterKeyCreate) : MasterKey where
  id := env.uuid4
  keyLabel := payload.keyLabel
  slotId := payload.slotId
  algorithm := payload.algorithm
  status := .pending
  rotationPolicyDays := payload.rotationPolicyDays
  activatedAt := none
  expiresAt := none
  retiredAt := none
  supersededById := none
  wrapsDekCount := 0
  throughputOps := 0

def createKey (crypto : AuditCrypto) (env : HsmEnv) (payload : MasterKeyCreate)
    (actor : String) : Service MasterKeyRead := do
  assertLabelAvailable payload.keyLabel
  assertSlotExists payload.slotId
  let key := registeredKey env payload
  let _ ← appendEntryInTransaction crypto env.audit
    [.hsm (.insertKey key),
      recordOperation env .keyCreate (some key) actor ("Registered key reference " ++
        key.keyLabel ++ " (" ++ key.algorithm ++ ") — pending ceremony")]
    (keyOperationEntry "info" "KEY_REFERENCE_REGISTERED" actor
      ("Registered key reference " ++ key.keyLabel)
      [("master_key_id", .str (uuidText key.id)),
        ("key_label", .str key.keyLabel),
        ("algorithm", .str key.algorithm),
        ("slot_id", optionalId key.slotId),
        ("rotation_policy_days", .int key.rotationPolicyDays)])
  Request.commitTransaction
  getKey env key.id

def successorLabel (key : MasterKey) (newLabel : Option String) : String :=
  match newLabel with
  | some label => if label = "" then nextVersionLabel key.keyLabel else label
  | none => nextVersionLabel key.keyLabel

def successorKey (env : HsmEnv) (key : MasterKey) (label : String) (expiresAt : Instant) :
    MasterKey where
  id := env.uuid4
  keyLabel := label
  slotId := key.slotId
  algorithm := key.algorithm
  status := .active
  rotationPolicyDays := key.rotationPolicyDays
  activatedAt := some env.now
  expiresAt := some expiresAt
  retiredAt := none
  supersededById := none
  wrapsDekCount := key.wrapsDekCount
  throughputOps := key.throughputOps

def rotatedKey (env : HsmEnv) (key successor : MasterKey) : MasterKey :=
  { key with
    status := .retired
    retiredAt := some env.now
    supersededById := some successor.id
    throughputOps := 0 }

def rotateKey (crypto : AuditCrypto) (env : HsmEnv) (keyId : Uuid) (actor : String)
    (payload : MasterKeyRotateRequest) : Service MasterKeyRead := do
  let key ← getKeyOrm keyId
  ensure (key.status = .active ∨ key.status = .expiring)
    (.http 409 ("Only active or expiring keys can be rotated (key is " ++ key.status.value ++ ")"))
  let label := successorLabel key payload.newLabel
  assertLabelAvailable label
  let expiresAt ← found (addDays env.now key.rotationPolicyDays) .exception
  let successor := successorKey env key label expiresAt
  Request.send fun _ => [.hsm (.insertKey successor)]
  let rotated := rotatedKey env key successor
  let _ ← appendEntryInTransaction crypto env.audit
    (saveKey key rotated ++
      [recordOperation env .keyRotate (some successor) actor ("Rotated " ++ key.keyLabel ++
        " -> " ++ successor.keyLabel ++ " via provider abstraction (" ++
        natText successor.wrapsDekCount ++ " DEKs re-wrapped)")])
    (keyOperationEntry "info" "KEY_ROTATED" actor
      ("Rotated " ++ key.keyLabel ++ " to " ++ successor.keyLabel)
      [("predecessor_key_id", .str (uuidText key.id)),
        ("predecessor_label", .str key.keyLabel),
        ("successor_key_id", .str (uuidText successor.id)),
        ("successor_label", .str successor.keyLabel),
        ("wraps_dek_count", .int successor.wrapsDekCount)])
  Request.commitTransaction
  getKey env successor.id

def disabledKey (env : HsmEnv) (key : MasterKey) : MasterKey :=
  { key with status := .disabled, retiredAt := some env.now, throughputOps := 0 }

def disableKey (crypto : AuditCrypto) (env : HsmEnv) (keyId : Uuid) (actor : String) :
    Service MasterKeyRead := do
  let key ← getKeyOrm keyId
  ensure (¬ (key.status = .retired ∨ key.status = .disabled))
    (.http 409 ("Key is already " ++ key.status.value))
  let _ ← appendEntryInTransaction crypto env.audit
    (saveKey key (disabledKey env key) ++
      [recordOperation env .keyDisable (some key) actor ("Disabled key " ++ key.keyLabel)])
    (keyOperationEntry "warning" "KEY_DISABLED" actor ("Disabled key " ++ key.keyLabel)
      [("master_key_id", .str (uuidText key.id)),
        ("key_label", .str key.keyLabel),
        ("previous_status", .str key.status.value)])
  Request.commitTransaction
  getKey env key.id

/-! ## Requests -/

inductive HsmRequest where
  | createKey (env : HsmEnv) (payload : MasterKeyCreate) (actor : String)
  | createCeremony (env : HsmEnv) (payload : KeyCeremonyCreate) (actor : String)
  | approveCeremony (env : HsmEnv) (ceremonyId : Uuid) (custodianEmail : String)
  | completeCeremony (env : HsmEnv) (ceremonyId : Uuid) (actor : String)
  | rotateKey (env : HsmEnv) (keyId : Uuid) (actor : String) (payload : MasterKeyRotateRequest)
  | disableKey (env : HsmEnv) (keyId : Uuid) (actor : String)

/-- The request, without its response. -/
def HsmRequest.request (crypto : AuditCrypto) : HsmRequest → Service Unit
  | createKey env payload actor => do
    let _ ← HsmService.createKey crypto env payload actor
    return ()
  | createCeremony env payload actor => do
    let _ ← HsmService.createCeremony crypto env payload actor
    return ()
  | approveCeremony env ceremonyId custodianEmail => do
    let _ ← HsmService.approveCeremony crypto env ceremonyId custodianEmail
    return ()
  | completeCeremony env ceremonyId actor => do
    let _ ← HsmService.completeCeremony crypto env ceremonyId actor
    return ()
  | rotateKey env keyId actor payload => do
    let _ ← HsmService.rotateKey crypto env keyId actor payload
    return ()
  | disableKey env keyId actor => do
    let _ ← HsmService.disableKey crypto env keyId actor
    return ()

end NexusEngine.HsmService
