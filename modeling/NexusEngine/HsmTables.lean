import NexusEngine.StoredColumns
import NexusEngine.KeyedTables

/-!
# The tables of the HSM service

Slots, master keys, key ceremonies, custodian approvals, the history of security operations and
attestation runs, with the constraints the models declare. There is none that would keep one
custodian from having two approvals of a ceremony.
-/

namespace NexusEngine.HsmTables

open StoredColumns KeyedTables CalendarTime JsonDocuments

structure HsmSlot where
  id : Uuid
  label : String
  deriving DecidableEq, Repr

inductive MasterKeyStatus where
  | active | expiring | retired | pending | disabled
  deriving DecidableEq, Repr

def MasterKeyStatus.value : MasterKeyStatus → String
  | .active => "active"
  | .expiring => "expiring"
  | .retired => "retired"
  | .pending => "pending"
  | .disabled => "disabled"

structure MasterKey where
  id : Uuid
  keyLabel : String
  slotId : Option Uuid
  algorithm : String
  status : MasterKeyStatus
  rotationPolicyDays : ℕ
  activatedAt : Option Instant
  expiresAt : Option Instant
  retiredAt : Option Instant
  supersededById : Option Uuid
  wrapsDekCount : ℕ
  throughputOps : Rat
  deriving DecidableEq, Repr

inductive CeremonyStatus where
  | pending | complete | aborted
  deriving DecidableEq, Repr

def CeremonyStatus.value : CeremonyStatus → String
  | .pending => "pending"
  | .complete => "complete"
  | .aborted => "aborted"

structure KeyCeremony where
  id : Uuid
  ceremonyRef : String
  masterKeyId : Uuid
  predecessorLabel : Option String
  requiredApprovals : ℕ
  status : CeremonyStatus
  scheduledAt : Option Instant
  completedAt : Option Instant
  deriving DecidableEq, Repr

structure KeyCustodianApproval where
  id : Uuid
  ceremonyId : Uuid
  custodianEmail : String
  approvedAt : Option Instant
  deriving DecidableEq, Repr

inductive SecurityOperationType where
  | keyCreate | keyRotate | keyDisable | attestationRun | ceremonyComplete
  deriving DecidableEq, Repr

inductive SecurityOperationStatus where
  | success | failed
  deriving DecidableEq, Repr

structure SecurityOperation where
  id : Uuid
  operationType : SecurityOperationType
  masterKeyId : Option Uuid
  keyLabel : Option String
  actor : String
  status : SecurityOperationStatus
  detail : String
  occurredAt : Instant
  deriving DecidableEq, Repr

structure AttestationCheckResult where
  key : String
  label : String
  passed : Bool
  detail : String
  deriving DecidableEq, Repr

def AttestationCheckResult.document (c : AttestationCheckResult) : Json :=
  .obj [("key", .str c.key), ("label", .str c.label), ("passed", .bool c.passed),
    ("detail", .str c.detail)]

structure AttestationRun where
  id : Uuid
  ranAt : Instant
  checks : List AttestationCheckResult
  allPassed : Bool
  deriving DecidableEq, Repr

structure HsmStore where
  slots : Table HsmSlot Uuid HsmSlot.id
  keys : Table MasterKey Uuid MasterKey.id
  ceremonies : Table KeyCeremony Uuid KeyCeremony.id
  approvals : Table KeyCustodianApproval Uuid KeyCustodianApproval.id
  operations : Table SecurityOperation Uuid SecurityOperation.id
  attestationRuns : Table AttestationRun Uuid AttestationRun.id

/-! ## Updates of single rows -/

structure MasterKeyPatch where
  status : Option MasterKeyStatus
  activatedAt : Option (Option Instant)
  expiresAt : Option (Option Instant)
  retiredAt : Option (Option Instant)
  supersededById : Option (Option Uuid)
  throughputOps : Option Rat
  deriving DecidableEq, Repr

def MasterKeyPatch.apply (p : MasterKeyPatch) (k : MasterKey) : MasterKey :=
  { k with
    status := p.status.getD k.status
    activatedAt := p.activatedAt.getD k.activatedAt
    expiresAt := p.expiresAt.getD k.expiresAt
    retiredAt := p.retiredAt.getD k.retiredAt
    supersededById := p.supersededById.getD k.supersededById
    throughputOps := p.throughputOps.getD k.throughputOps }

def MasterKey.diff (old new : MasterKey) : MasterKeyPatch where
  status := changed old.status new.status
  activatedAt := changed old.activatedAt new.activatedAt
  expiresAt := changed old.expiresAt new.expiresAt
  retiredAt := changed old.retiredAt new.retiredAt
  supersededById := changed old.supersededById new.supersededById
  throughputOps := changed old.throughputOps new.throughputOps

structure KeyCeremonyPatch where
  status : Option CeremonyStatus
  completedAt : Option (Option Instant)
  deriving DecidableEq, Repr

def KeyCeremonyPatch.apply (p : KeyCeremonyPatch) (c : KeyCeremony) : KeyCeremony :=
  { c with
    status := p.status.getD c.status
    completedAt := p.completedAt.getD c.completedAt }

def KeyCeremony.diff (old new : KeyCeremony) : KeyCeremonyPatch where
  status := changed old.status new.status
  completedAt := changed old.completedAt new.completedAt

/-! ## Statements -/

inductive HsmStatement where
  | insertKey (k : MasterKey)
  | updateKey (id : Uuid) (patch : MasterKeyPatch)
  | insertCeremony (c : KeyCeremony)
  | updateCeremony (id : Uuid) (patch : KeyCeremonyPatch)
  | insertApproval (a : KeyCustodianApproval)
  | updateApproval (id : Uuid) (approvedAt : Instant)
  | insertOperation (o : SecurityOperation)
  | insertAttestationRun (run : AttestationRun)
  deriving DecidableEq, Repr

namespace HsmStore

def hasKey (t : HsmStore) (id : Option Uuid) : Bool := id.all fun id => (t.keys.find? id).isSome

def insertKey (t : HsmStore) (k : MasterKey) : Option HsmStore := do
  let keyLabel ← varchar 80 k.keyLabel
  let algorithm ← varchar 40 k.algorithm
  if t.keys.rows.any (fun r => r.keyLabel == keyLabel) then none
  else if (k.slotId.all fun id => (t.slots.find? id).isSome) && t.hasKey k.supersededById then
    let keys ← t.keys.insert { k with keyLabel := keyLabel, algorithm := algorithm }
    return { t with keys := keys }
  else none

def updateKey (t : HsmStore) (id : Uuid) (patch : MasterKeyPatch) : Option HsmStore :=
  if patch.supersededById.all t.hasKey then
    (t.keys.update id patch.apply fun _ => rfl).map fun keys => { t with keys := keys }
  else none

def insertCeremony (t : HsmStore) (c : KeyCeremony) : Option HsmStore := do
  let ceremonyRef ← varchar 40 c.ceremonyRef
  let predecessorLabel ← nullable (varchar 80) c.predecessorLabel
  if t.ceremonies.rows.any (fun r => r.ceremonyRef == ceremonyRef) then none
  else if t.hasKey (some c.masterKeyId) then
    let ceremonies ← t.ceremonies.insert
      { c with ceremonyRef := ceremonyRef, predecessorLabel := predecessorLabel }
    return { t with ceremonies := ceremonies }
  else none

def updateCeremony (t : HsmStore) (id : Uuid) (patch : KeyCeremonyPatch) :
    Option HsmStore :=
  (t.ceremonies.update id patch.apply fun _ => rfl).map fun ceremonies =>
    { t with ceremonies := ceremonies }

def insertApproval (t : HsmStore) (a : KeyCustodianApproval) : Option HsmStore := do
  let custodianEmail ← varchar 120 a.custodianEmail
  if (t.ceremonies.find? a.ceremonyId).isSome then
    let approvals ← t.approvals.insert { a with custodianEmail := custodianEmail }
    return { t with approvals := approvals }
  else none

def updateApproval (t : HsmStore) (id : Uuid) (approvedAt : Instant) : Option HsmStore :=
  (t.approvals.update id (fun a => { a with approvedAt := some approvedAt }) fun _ => rfl).map
    fun approvals => { t with approvals := approvals }

def insertOperation (t : HsmStore) (o : SecurityOperation) : Option HsmStore := do
  let keyLabel ← nullable (varchar 80) o.keyLabel
  let actor ← varchar 120 o.actor
  let detail ← varchar 300 o.detail
  if t.hasKey o.masterKeyId then
    let operations ← t.operations.insert
      { o with keyLabel := keyLabel, actor := actor, detail := detail }
    return { t with operations := operations }
  else none

def insertAttestationRun (t : HsmStore) (run : AttestationRun) : Option HsmStore := do
  let _ ← json (.arr (run.checks.map AttestationCheckResult.document))
  let attestationRuns ← t.attestationRuns.insert run
  return { t with attestationRuns := attestationRuns }

end HsmStore

def HsmStatement.apply : HsmStatement → HsmStore → Option HsmStore
  | .insertKey k, t => t.insertKey k
  | .updateKey id patch, t => t.updateKey id patch
  | .insertCeremony c, t => t.insertCeremony c
  | .updateCeremony id patch, t => t.updateCeremony id patch
  | .insertApproval a, t => t.insertApproval a
  | .updateApproval id approvedAt, t => t.updateApproval id approvedAt
  | .insertOperation o, t => t.insertOperation o
  | .insertAttestationRun run, t => t.insertAttestationRun run

/-- Updates of one row wait for each other, and so do inserts of one unique value. -/
def HsmStatement.conflicts : HsmStatement → HsmStatement → Bool
  | .insertKey k, .insertKey k' => k.id == k'.id || k.keyLabel == k'.keyLabel
  | .updateKey id _, .updateKey id' _ => id == id'
  | .insertCeremony c, .insertCeremony c' => c.id == c'.id || c.ceremonyRef == c'.ceremonyRef
  | .updateCeremony id _, .updateCeremony id' _ => id == id'
  | .insertApproval a, .insertApproval a' => a.id == a'.id
  | .updateApproval id _, .updateApproval id' _ => id == id'
  | .insertOperation o, .insertOperation o' => o.id == o'.id
  | .insertAttestationRun run, .insertAttestationRun run' => run.id == run'.id
  | _, _ => false

/-! ## What an accepted statement does -/

/-- The columns that no update writes agree. -/
def MasterKey.SameRecord (k k' : MasterKey) : Prop :=
  k'.id = k.id ∧ k'.keyLabel = k.keyLabel ∧ k'.slotId = k.slotId ∧ k'.algorithm = k.algorithm ∧
    k'.rotationPolicyDays = k.rotationPolicyDays ∧ k'.wrapsDekCount = k.wrapsDekCount

theorem MasterKey.diff_apply {old new : MasterKey} (h : old.SameRecord new) :
    (old.diff new).apply old = new := by
  obtain ⟨hid, hlabel, hslot, halgorithm, hdays, hdeks⟩ := h
  obtain ⟨⟩ := new
  simp_all [MasterKeyPatch.apply, MasterKey.diff]

theorem KeyCeremony.diff_apply {old new : KeyCeremony}
    (h : new = { old with status := new.status, completedAt := new.completedAt }) :
    (old.diff new).apply old = new := by
  rw [h]
  simp [KeyCeremonyPatch.apply, KeyCeremony.diff]

namespace HsmStore

variable {t t' : HsmStore}

theorem insertKey_eq_some {k : MasterKey} (h : t.insertKey k = some t') :
    ∃ keyLabel algorithm keys, varchar 80 k.keyLabel = some keyLabel ∧
      t.keys.insert { k with keyLabel := keyLabel, algorithm := algorithm } = some keys ∧
      t' = { t with keys := keys } := by
  simp only [insertKey, Option.bind_eq_bind, Option.bind_eq_some_iff,
    Option.ite_none_left_eq_some, Option.ite_none_right_eq_some, Option.pure_def,
    Option.some.injEq] at h
  obtain ⟨keyLabel, hlabel, algorithm, -, -, -, keys, hkeys, rfl⟩ := h
  exact ⟨keyLabel, algorithm, keys, hlabel, hkeys, rfl⟩

/-- No other key has the label of an inserted one. -/
theorem insertKey_label {k : MasterKey} (h : t.insertKey k = some t') :
    ∃ keyLabel, varchar 80 k.keyLabel = some keyLabel ∧
      ∀ r ∈ t.keys.rows, r.keyLabel ≠ keyLabel := by
  simp only [insertKey, Option.bind_eq_bind, Option.bind_eq_some_iff,
    Option.ite_none_left_eq_some] at h
  obtain ⟨keyLabel, hlabel, _, -, hfresh, -⟩ := h
  exact ⟨keyLabel, hlabel, by simpa using hfresh⟩

theorem updateKey_eq_some {id : Uuid} {patch : MasterKeyPatch}
    (h : t.updateKey id patch = some t') :
    ∃ keys, t.keys.update id patch.apply (fun _ => rfl) = some keys ∧
      t' = { t with keys := keys } := by
  simp only [updateKey, Option.ite_none_right_eq_some, Option.map_eq_some_iff] at h
  obtain ⟨-, keys, hkeys, rfl⟩ := h
  exact ⟨keys, hkeys, rfl⟩

theorem insertCeremony_eq_some {c : KeyCeremony} (h : t.insertCeremony c = some t') :
    ∃ ceremonyRef predecessorLabel ceremonies,
      nullable (varchar 80) c.predecessorLabel = some predecessorLabel ∧
      t.ceremonies.insert { c with
        ceremonyRef := ceremonyRef, predecessorLabel := predecessorLabel } = some ceremonies ∧
      t' = { t with ceremonies := ceremonies } := by
  simp only [insertCeremony, Option.bind_eq_bind, Option.bind_eq_some_iff,
    Option.ite_none_left_eq_some, Option.ite_none_right_eq_some, Option.pure_def,
    Option.some.injEq] at h
  obtain ⟨ceremonyRef, -, predecessorLabel, hlabel, -, -, ceremonies, hceremonies, rfl⟩ := h
  exact ⟨ceremonyRef, predecessorLabel, ceremonies, hlabel, hceremonies, rfl⟩

theorem updateCeremony_eq_some {id : Uuid} {patch : KeyCeremonyPatch}
    (h : t.updateCeremony id patch = some t') :
    ∃ ceremonies, t.ceremonies.update id patch.apply (fun _ => rfl) = some ceremonies ∧
      t' = { t with ceremonies := ceremonies } := by
  obtain ⟨ceremonies, hceremonies, rfl⟩ := Option.map_eq_some_iff.mp h
  exact ⟨ceremonies, hceremonies, rfl⟩

theorem insertApproval_eq_some {a : KeyCustodianApproval} (h : t.insertApproval a = some t') :
    ∃ custodianEmail approvals, varchar 120 a.custodianEmail = some custodianEmail ∧
      t.approvals.insert { a with custodianEmail := custodianEmail } = some approvals ∧
      t' = { t with approvals := approvals } := by
  simp only [insertApproval, Option.bind_eq_bind, Option.bind_eq_some_iff,
    Option.ite_none_right_eq_some, Option.pure_def, Option.some.injEq] at h
  obtain ⟨custodianEmail, hemail, -, approvals, happrovals, rfl⟩ := h
  exact ⟨custodianEmail, approvals, hemail, happrovals, rfl⟩

theorem updateApproval_eq_some {id : Uuid} {approvedAt : Instant}
    (h : t.updateApproval id approvedAt = some t') :
    ∃ approvals, t.approvals.update id (fun a => { a with approvedAt := some approvedAt })
        (fun _ => rfl) = some approvals ∧ t' = { t with approvals := approvals } := by
  obtain ⟨approvals, happrovals, rfl⟩ := Option.map_eq_some_iff.mp h
  exact ⟨approvals, happrovals, rfl⟩

theorem insertOperation_eq_some {o : SecurityOperation} (h : t.insertOperation o = some t') :
    ∃ operations, t' = { t with operations := operations } := by
  simp only [insertOperation, Option.bind_eq_bind, Option.bind_eq_some_iff,
    Option.ite_none_right_eq_some, Option.pure_def, Option.some.injEq] at h
  obtain ⟨-, -, -, -, -, -, -, operations, -, rfl⟩ := h
  exact ⟨operations, rfl⟩

theorem insertAttestationRun_eq_some {run : AttestationRun}
    (h : t.insertAttestationRun run = some t') :
    ∃ attestationRuns, t' = { t with attestationRuns := attestationRuns } := by
  simp only [insertAttestationRun, Option.bind_eq_bind, Option.bind_eq_some_iff, Option.pure_def,
    Option.some.injEq] at h
  obtain ⟨-, -, attestationRuns, -, rfl⟩ := h
  exact ⟨attestationRuns, rfl⟩

end HsmStore

/-- A table changes only by its own statements. -/
structure HsmFrame (w : HsmStatement) (t t' : HsmStore) : Prop where
  keys : (∃ k keyLabel algorithm, w = .insertKey k ∧ varchar 80 k.keyLabel = some keyLabel ∧
      t.keys.insert { k with keyLabel := keyLabel, algorithm := algorithm } = some t'.keys) ∨
    (∃ id patch, w = .updateKey id patch ∧
      t.keys.update id patch.apply (fun _ => rfl) = some t'.keys) ∨ t'.keys = t.keys
  ceremonies : (∃ c ceremonyRef predecessorLabel, w = .insertCeremony c ∧ t.ceremonies.insert
      { c with ceremonyRef := ceremonyRef, predecessorLabel := predecessorLabel } =
        some t'.ceremonies) ∨
    (∃ id patch, w = .updateCeremony id patch ∧
      t.ceremonies.update id patch.apply (fun _ => rfl) = some t'.ceremonies) ∨
    t'.ceremonies = t.ceremonies
  approvals : (∃ a custodianEmail, w = .insertApproval a ∧
      t.approvals.insert { a with custodianEmail := custodianEmail } = some t'.approvals) ∨
    (∃ id approvedAt, w = .updateApproval id approvedAt ∧
      t.approvals.update id (fun a => { a with approvedAt := some approvedAt }) (fun _ => rfl) =
        some t'.approvals) ∨ t'.approvals = t.approvals
  operations : (∃ o, w = .insertOperation o) ∨ t'.operations = t.operations

theorem HsmStatement.frame {w : HsmStatement} {t t' : HsmStore} (h : w.apply t = some t') :
    HsmFrame w t t' := by
  cases w with
  | insertKey k =>
    obtain ⟨keyLabel, algorithm, keys, hlabel, hinsert, rfl⟩ := HsmStore.insertKey_eq_some h
    exact ⟨.inl ⟨k, keyLabel, algorithm, rfl, hlabel, hinsert⟩, .inr (.inr rfl), .inr (.inr rfl),
      .inr rfl⟩
  | updateKey id patch =>
    obtain ⟨keys, hupdate, rfl⟩ := HsmStore.updateKey_eq_some h
    exact ⟨.inr (.inl ⟨id, patch, rfl, hupdate⟩), .inr (.inr rfl), .inr (.inr rfl), .inr rfl⟩
  | insertCeremony c =>
    obtain ⟨ceremonyRef, predecessorLabel, ceremonies, -, hinsert, rfl⟩ :=
      HsmStore.insertCeremony_eq_some h
    exact ⟨.inr (.inr rfl), .inl ⟨c, ceremonyRef, predecessorLabel, rfl, hinsert⟩, .inr (.inr rfl),
      .inr rfl⟩
  | updateCeremony id patch =>
    obtain ⟨ceremonies, hupdate, rfl⟩ := HsmStore.updateCeremony_eq_some h
    exact ⟨.inr (.inr rfl), .inr (.inl ⟨id, patch, rfl, hupdate⟩), .inr (.inr rfl), .inr rfl⟩
  | insertApproval a =>
    obtain ⟨custodianEmail, approvals, -, hinsert, rfl⟩ := HsmStore.insertApproval_eq_some h
    exact ⟨.inr (.inr rfl), .inr (.inr rfl), .inl ⟨a, custodianEmail, rfl, hinsert⟩, .inr rfl⟩
  | updateApproval id approvedAt =>
    obtain ⟨approvals, hupdate, rfl⟩ := HsmStore.updateApproval_eq_some h
    exact ⟨.inr (.inr rfl), .inr (.inr rfl), .inr (.inl ⟨id, approvedAt, rfl, hupdate⟩), .inr rfl⟩
  | insertOperation o =>
    obtain ⟨operations, rfl⟩ := HsmStore.insertOperation_eq_some h
    exact ⟨.inr (.inr rfl), .inr (.inr rfl), .inr (.inr rfl), .inl ⟨o, rfl⟩⟩
  | insertAttestationRun run =>
    obtain ⟨attestationRuns, rfl⟩ := HsmStore.insertAttestationRun_eq_some h
    exact ⟨.inr (.inr rfl), .inr (.inr rfl), .inr (.inr rfl), .inr rfl⟩

end NexusEngine.HsmTables
