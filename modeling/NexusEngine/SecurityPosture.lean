import NexusEngine.HsmService
import NexusEngine.EngineService

/-!
# The security posture

The list of keys derives the status of a key from its expiry when it is read. The posture counts
the stored status, which no operation changes as time passes: the two agree exactly where as many
keys are stored as active and shown as expiring as the other way round.
-/

namespace NexusEngine.SecurityPosture

open TransactionalRequests CalendarTime StoredColumns KeyedTables HsmTables Database HsmService
  RankedRows
open EngineService (roundTo)

/-! ## The list of keys -/

/-- `before` is the order of the creation times, the latest first. -/
def listKeys (before : Uuid → Uuid → Bool) (now : Instant) (keyStatus : Option MasterKeyStatus) :
    Service (List MasterKeyRead) := do
  let keys ← Request.select fun db =>
    (((db.hsm.keys.scan before).filter fun k => keyStatus.all (k.status = ·)).map fun k =>
      (k, k.slotId.bind db.hsm.slots.find?))
  return keys.map fun k => masterKeyToRead k.1 k.2 now

/-! ## The summary -/

/-- The columns of a slot that the posture reads. -/
structure SlotLoad where
  isActive : Bool
  objectCount : ℤ
  capacityMaxObjects : ℤ
  opsPerSecond : ℚ
  deriving DecidableEq, Repr

def SlotLoad.capacityPercent (s : SlotLoad) : ℚ :=
  if s.capacityMaxObjects ≤ 0 then 0
  else roundTo 1 (min 100 ((s.objectCount : ℚ) / s.capacityMaxObjects * 100))

structure Certificate where
  expiresAt : Instant
  deriving DecidableEq, Repr

structure CryptoAlgorithm where
  isDeprecated : Bool
  deriving DecidableEq, Repr

structure SecurityProvider where
  isActive : Bool
  deriving DecidableEq, Repr

/-- The rows that only the posture is about. -/
structure PostureRows where
  slots : List SlotLoad
  certificates : List Certificate
  algorithms : List CryptoAlgorithm
  providers : List SecurityProvider

def nearCapacityPercent : ℚ := 85

def capacityCriticalPercent : ℚ := 95

def certificateStatus (cert : Certificate) (now : Instant) : String :=
  if cert.expiresAt ≤ now then "expired"
  else if daysBetween cert.expiresAt now ≤ expiringWithinDays then "expiring"
  else "valid"

structure SecuritySummary where
  moduleSerial : String
  overallStatus : String
  providerCount : ℕ
  activeProviderCount : ℕ
  totalKeys : ℕ
  activeKeys : ℕ
  expiringKeys : ℕ
  pendingKeys : ℕ
  retiredKeys : ℕ
  disabledKeys : ℕ
  keyOpsPerSecond : ℚ
  slotCount : ℕ
  activeSlots : ℕ
  nearCapacitySlots : ℕ
  certificateCount : ℕ
  expiringCertificates : ℕ
  algorithmCount : ℕ
  deprecatedAlgorithmCount : ℕ
  pendingCeremonies : ℕ
  nextRotationDays : Option ℤ
  latestAttestationPassed : Option Bool
  attestationPassRate : ℚ
  deriving DecidableEq, Repr

def countStatus (keys : List MasterKey) (target : MasterKeyStatus) : ℕ :=
  keys.countP fun k => k.status = target

/-- The days that are left to the keys in service that expire. -/
def rotationCandidates (keys : List MasterKey) (now : Instant) : List ℤ :=
  (keys.filter fun k => k.status = .active ∨ k.status = .expiring).filterMap fun k =>
    k.expiresAt.map fun expiresAt => daysBetween expiresAt now

def passRate (runs : List AttestationRun) : ℚ :=
  if runs = [] then 100
  else roundTo 1 ((runs.countP AttestationRun.allPassed : ℚ) / runs.length * 100)

/-- `before` is the order in which the database returns attestation runs of one time. -/
def getSecuritySummary (before : Uuid → Uuid → Bool) (now : Instant) (posture : PostureRows)
    (moduleSerial : String) : Service SecuritySummary := do
  let keys ← Request.select fun db => db.hsm.keys.rows
  let pendingCeremonies ← Request.select fun db =>
    (db.hsm.ceremonies.rows.countP fun c => c.status = .pending)
  let runs ← Request.select fun db =>
    (fromLargest AttestationRun.ranAt (db.hsm.attestationRuns.scan before)).take 7
  let latestAttestationPassed := runs.head?.map AttestationRun.allPassed
  let disabledKeys := countStatus keys .disabled
  let attention := latestAttestationPassed = some false ∨
    (posture.providers.any fun p => !p.isActive) ∨
    (posture.slots.any fun s => capacityCriticalPercent ≤ s.capacityPercent) ∨ 0 < disabledKeys
  return {
    moduleSerial := moduleSerial
    overallStatus := if attention then "attention" else "healthy"
    providerCount := posture.providers.length
    activeProviderCount := posture.providers.countP SecurityProvider.isActive
    totalKeys := keys.length
    activeKeys := countStatus keys .active
    expiringKeys := countStatus keys .expiring
    pendingKeys := countStatus keys .pending
    retiredKeys := countStatus keys .retired
    disabledKeys := disabledKeys
    keyOpsPerSecond := roundTo 1 (posture.slots.map SlotLoad.opsPerSecond).sum
    slotCount := posture.slots.length
    activeSlots := posture.slots.countP SlotLoad.isActive
    nearCapacitySlots := posture.slots.countP fun s => nearCapacityPercent ≤ s.capacityPercent
    certificateCount := posture.certificates.length
    expiringCertificates := posture.certificates.countP fun c =>
      certificateStatus c now ∈ ["expiring", "expired"]
    algorithmCount := posture.algorithms.length
    deprecatedAlgorithmCount := posture.algorithms.countP CryptoAlgorithm.isDeprecated
    pendingCeremonies := pendingCeremonies
    nextRotationDays := (rotationCandidates keys now).min?.map (max 0)
    latestAttestationPassed := latestAttestationPassed
    attestationPassRate := passRate runs }

/-! ## Stored and effective status -/

/-- The counts of the posture are those of the effective statuses that the list shows. -/
structure CountsEffective (summary : SecuritySummary) (keys : List MasterKeyRead) : Prop where
  active : summary.activeKeys = keys.countP fun k => k.effectiveStatus = "active"
  expiring : summary.expiringKeys = keys.countP fun k => k.effectiveStatus = "expiring"
  pending : summary.pendingKeys = keys.countP fun k => k.effectiveStatus = "pending"
  retired : summary.retiredKeys = keys.countP fun k => k.effectiveStatus = "retired"
  disabled : summary.disabledKeys = keys.countP fun k => k.effectiveStatus = "disabled"

/-- The key expires within the days of the warning, or has expired. -/
def nearExpiry (now : Instant) (k : MasterKey) : Bool :=
  k.expiresAt.any fun expiresAt => daysBetween expiresAt now ≤ expiringWithinDays

section

variable {keys : List MasterKey} {now : Instant} {k : MasterKey}

/-- The effective status is the stored one, but that of a key in service follows its expiry. -/
theorem effectiveKeyStatus_eq (k : MasterKey) (now : Instant) :
    effectiveKeyStatus k now = match k.status with
      | .active => if nearExpiry now k then "expiring" else "active"
      | .expiring => if nearExpiry now k then "expiring" else "active"
      | .retired => "retired"
      | .pending => "pending"
      | .disabled => "disabled" := by
  rw [effectiveKeyStatus, nearExpiry]
  cases k.status <;> simp [MasterKeyStatus.value]

/-- Two pairs of tests that count alike on every key count alike on a list. -/
theorem countP_balanced {p q p' q' : MasterKey → Bool}
    (h : ∀ k, (p k).toNat + (q k).toNat = (p' k).toNat + (q' k).toNat) (keys : List MasterKey) :
    keys.countP p + keys.countP q = keys.countP p' + keys.countP q' := by
  induction keys with
  | nil => rfl
  | cons k keys ih =>
    have hk := h k
    simp only [List.countP_cons, Bool.toNat, cond_eq_ite] at hk ⊢
    omega

theorem countP_active (keys : List MasterKey) (now : Instant) :
    (keys.countP fun k => effectiveKeyStatus k now = "active") +
        (keys.countP fun k => k.status = .active ∧ nearExpiry now k = true) =
      countStatus keys .active +
        (keys.countP fun k => k.status = .expiring ∧ nearExpiry now k = false) := by
  apply countP_balanced
  intro k
  rw [effectiveKeyStatus_eq]
  cases hstatus : k.status <;> cases hnear : nearExpiry now k <;> simp

theorem countP_expiring (keys : List MasterKey) (now : Instant) :
    (keys.countP fun k => effectiveKeyStatus k now = "expiring") +
        (keys.countP fun k => k.status = .expiring ∧ nearExpiry now k = false) =
      countStatus keys .expiring +
        (keys.countP fun k => k.status = .active ∧ nearExpiry now k = true) := by
  apply countP_balanced
  intro k
  rw [effectiveKeyStatus_eq]
  cases hstatus : k.status <;> cases hnear : nearExpiry now k <;> simp

/-- The explicit statuses are shown as they are stored. -/
theorem countP_explicit (keys : List MasterKey) (now : Instant) {status : MasterKeyStatus}
    (h : status = .pending ∨ status = .retired ∨ status = .disabled) :
    (keys.countP fun k => effectiveKeyStatus k now = status.value) = countStatus keys status := by
  apply List.countP_congr
  intro k _
  rw [effectiveKeyStatus_eq, decide_eq_true_eq, decide_eq_true_eq]
  rcases h with rfl | rfl | rfl <;> cases hstatus : k.status <;> cases hnear : nearExpiry now k <;>
    simp [MasterKeyStatus.value]

/-- The list shows every key with its effective status, in an order of its own. -/
theorem listKeys_counts (before : Uuid → Uuid → Bool) (now : Instant) (db : Db) (n : ℕ) :
    ∃ keys, ((listKeys before now none).serial postgres db db n).result = .ok keys ∧
      ∀ status : String, (keys.countP fun k => k.effectiveStatus = status) =
        db.hsm.keys.rows.countP fun k => effectiveKeyStatus k now = status := by
  refine ⟨_, rfl, fun status => ?_⟩
  have hall : (db.hsm.keys.scan before).filter (fun k =>
      (none : Option MasterKeyStatus).all (k.status = ·)) = db.hsm.keys.scan before :=
    List.filter_eq_self.mpr fun _ _ => rfl
  dsimp only
  rw [hall, List.countP_map, List.countP_map, (db.hsm.keys.scan_perm before).countP_eq]
  rfl

/-- The posture counts the stored statuses. -/
theorem getSecuritySummary_counts (before : Uuid → Uuid → Bool) (now : Instant)
    (posture : PostureRows) (moduleSerial : String) (db : Db) (n : ℕ) :
    ∃ summary, ((getSecuritySummary before now posture moduleSerial).serial postgres db db n).result =
        .ok summary ∧
      summary.activeKeys = countStatus db.hsm.keys.rows .active ∧
      summary.expiringKeys = countStatus db.hsm.keys.rows .expiring ∧
      summary.pendingKeys = countStatus db.hsm.keys.rows .pending ∧
      summary.retiredKeys = countStatus db.hsm.keys.rows .retired ∧
      summary.disabledKeys = countStatus db.hsm.keys.rows .disabled :=
  ⟨_, rfl, rfl, rfl, rfl, rfl, rfl⟩

end

/-- The posture counts the effective statuses of the list exactly where as many keys are stored as
active and near their expiry as are stored as expiring and not near it. -/
theorem posture_counts_effective_iff (before before' : Uuid → Uuid → Bool) (now : Instant)
    (posture : PostureRows) (moduleSerial : String) (db : Db) (n : ℕ) :
    ∃ summary keys,
      ((getSecuritySummary before now posture moduleSerial).serial postgres db db n).result =
        .ok summary ∧
      ((listKeys before' now none).serial postgres db db n).result = .ok keys ∧
      (CountsEffective summary keys ↔
        (db.hsm.keys.rows.countP fun k => k.status = .active ∧ nearExpiry now k = true) =
          db.hsm.keys.rows.countP fun k => k.status = .expiring ∧ nearExpiry now k = false) := by
  obtain ⟨summary, hsummary, hactive, hexpiring, hpending, hretired, hdisabled⟩ :=
    getSecuritySummary_counts before now posture moduleSerial db n
  obtain ⟨keys, hkeys, hshown⟩ := listKeys_counts before' now db n
  refine ⟨summary, keys, hsummary, hkeys, ?_⟩
  have hin := countP_active db.hsm.keys.rows now
  have hnear := countP_expiring db.hsm.keys.rows now
  constructor
  · intro hcounts
    have heq := hcounts.active
    rw [hshown, hactive] at heq
    omega
  · intro heq
    constructor
    · rw [hshown, hactive]
      omega
    · rw [hshown, hexpiring]
      omega
    · rw [hshown, hpending]
      exact (countP_explicit _ _ (.inl rfl)).symm
    · rw [hshown, hretired]
      exact (countP_explicit _ _ (.inr (.inl rfl))).symm
    · rw [hshown, hdisabled]
      exact (countP_explicit _ _ (.inr (.inr rfl))).symm

/-! ## A key near its expiry -/

def expiringKey : MasterKey where
  id := 1
  keyLabel := "tenant-kek-v1"
  slotId := none
  algorithm := "AES-256-GCM"
  status := .active
  rotationPolicyDays := 180
  activatedAt := some 0
  expiresAt := some (40 * 86400000000)
  retiredAt := none
  supersededById := none
  wrapsDekCount := 12
  throughputOps := 0

def expiringDb : Db := { emptyDb with hsm := { emptyDb.hsm with keys := ⟨[expiringKey], by decide⟩ } }

/-- Ten days later the list shows the key as expiring, and the posture counts it as active. -/
theorem expiring_key_counted_active :
    ¬ ∀ (before before' : Uuid → Uuid → Bool) (now : Instant) (posture : PostureRows)
      (moduleSerial : String) (db : Db) (n : ℕ), ∃ summary keys,
        ((getSecuritySummary before now posture moduleSerial).serial postgres db db n).result =
          .ok summary ∧
        ((listKeys before' now none).serial postgres db db n).result = .ok keys ∧
          CountsEffective summary keys := by
  intro h
  obtain ⟨summary, keys, hsummary, hkeys, hcounts⟩ := h (fun _ _ => true) (fun _ _ => true)
    (10 * 86400000000) ⟨[], [], [], []⟩ "HSM-1" expiringDb 1
  obtain ⟨summary', hsummary', hactive, -⟩ := getSecuritySummary_counts (fun _ _ => true)
    (10 * 86400000000) ⟨[], [], [], []⟩ "HSM-1" expiringDb 1
  obtain ⟨keys', hkeys', hshown⟩ := listKeys_counts (fun _ _ => true) (10 * 86400000000)
    expiringDb 1
  rw [hsummary, Except.ok.injEq] at hsummary'
  rw [hkeys, Except.ok.injEq] at hkeys'
  subst hsummary' hkeys'
  have heq := hcounts.active
  rw [hactive, hshown] at heq
  exact absurd heq (by decide)

end NexusEngine.SecurityPosture
