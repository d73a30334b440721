import NexusEngine.HsmService
import NexusEngine.AuditedTransactions

/-!
# The transactions of the HSM service

Each operation fails and leaves the database, or it passes its guards and performs one plan: the
statements on its tables, and the entry it appends. A custodian who has approved before is
answered without either.
-/

namespace NexusEngine.HsmTransactions

open TransactionalRequests StoredColumns JsonDocuments KeyedTables CalendarTime HsmTables Database
  AuditService AuditAppends AuditedTransactions HsmService

/-- An entry of the service. -/
def KeyEntry (subtype actor : String) (entry : AuditLogEntryCreate) : Prop :=
  ∃ severity description metadataJson,
    entry = keyOperationEntry severity subtype actor description metadataJson

/-- What a request sends and appends where it passes its guards. -/
inductive HsmPlan (t : HsmStore) : HsmRequest → List Statement → List Append → Prop where
  | registered {env : HsmEnv} {payload : MasterKeyCreate} {actor : String}
      {entry : AuditLogEntryCreate}
      (available : ∀ k ∈ t.keys.rows, k.keyLabel ≠ payload.keyLabel)
      (slot : ∀ id, payload.slotId = some id → (t.slots.find? id).isSome = true)
      (isEntry : KeyEntry "KEY_REFERENCE_REGISTERED" actor entry) :
      HsmPlan t (.createKey env payload actor)
        [.hsm (.insertKey (registeredKey env payload)),
          recordOperation env .keyCreate (some (registeredKey env payload)) actor
            ("Registered key reference " ++ payload.keyLabel ++ " (" ++ payload.algorithm ++
              ") — pending ceremony")]
        [(env.audit, entry)]
  | initiated {env : HsmEnv} {payload : KeyCeremonyCreate} {actor : String} {target : MasterKey}
      {predecessor : Option MasterKey} {entry : AuditLogEntryCreate}
      (isTarget : target ∈ t.keys.rows) (id : target.id = payload.masterKeyId)
      (pendingKey : target.status = .pending)
      (named : predecessor.map MasterKey.id = payload.predecessorKeyId)
      (isPredecessor : ∀ p, predecessor = some p → p ∈ t.keys.rows ∧ p.id ≠ target.id ∧
        (p.status = .active ∨ p.status = .expiring))
      (single : ∀ d ∈ t.ceremonies.rows, d.masterKeyId = target.id → d.status ≠ .pending)
      (isEntry : KeyEntry "KEY_CEREMONY_INITIATED" actor entry) :
      HsmPlan t (.createCeremony env payload actor)
        [.hsm (.insertCeremony (initiatedCeremony env payload target predecessor))]
        [(env.audit, entry)]
  | approvedBefore {env : HsmEnv} {c : KeyCeremony} {key : MasterKey} {custodianEmail : String}
      (isCeremony : c ∈ t.ceremonies.rows) (pending : c.status = .pending)
      (approved : alreadyApproved ⟨c, t.approvals.rows.filter fun a => a.ceremonyId = c.id, key⟩
        custodianEmail = true) :
      HsmPlan t (.approveCeremony env c.id custodianEmail) [] []
  | approved {env : HsmEnv} {c : KeyCeremony} {key : MasterKey} {custodianEmail : String}
      {entry : AuditLogEntryCreate} (isCeremony : c ∈ t.ceremonies.rows)
      (pending : c.status = .pending)
      (notYet : alreadyApproved ⟨c, t.approvals.rows.filter fun a => a.ceremonyId = c.id, key⟩
        custodianEmail = false)
      (isEntry : KeyEntry "KEY_CEREMONY_APPROVED" custodianEmail entry) :
      HsmPlan t (.approveCeremony env c.id custodianEmail)
        (giveApproval env ⟨c, t.approvals.rows.filter fun a => a.ceremonyId = c.id, key⟩
          custodianEmail).1
        [(env.audit, entry)]
  | completed {env : HsmEnv} {c : KeyCeremony} {key : MasterKey} {actor : String}
      {expiresAt : Instant} {entry : AuditLogEntryCreate} (isCeremony : c ∈ t.ceremonies.rows)
      (pending : c.status = .pending)
      (quorum : c.requiredApprovals ≤
        approvalCount (t.approvals.rows.filter fun a => a.ceremonyId = c.id))
      (isKey : key ∈ t.keys.rows) (masterKeyId : c.masterKeyId = key.id)
      (expires : addDays env.now key.rotationPolicyDays = some expiresAt)
      (isEntry : KeyEntry "KEY_ROTATION_COMPLETE" actor entry) :
      HsmPlan t (.completeCeremony env c.id actor)
        ((rotatedKeys env.now expiresAt key (predecessorByLabel t c.predecessorLabel)).flatMap
            (fun k => saveKey k.1 k.2) ++ saveCeremony c (completedCeremony env.now c) ++
          [recordOperation env .ceremonyComplete (some key) actor
            ("Completed ceremony " ++ c.ceremonyRef)])
        [(env.audit, entry)]
  | rotated {env : HsmEnv} {key successor : MasterKey} {actor : String}
      {payload : MasterKeyRotateRequest} {expiresAt : Instant} {entry : AuditLogEntryCreate}
      (isKey : key ∈ t.keys.rows)
      (inService : key.status = .active ∨ key.status = .expiring)
      (available : ∀ k ∈ t.keys.rows, k.keyLabel ≠ successorLabel key payload.newLabel)
      (expires : addDays env.now key.rotationPolicyDays = some expiresAt)
      (isSuccessor : successor =
        successorKey env key (successorLabel key payload.newLabel) expiresAt)
      (isEntry : KeyEntry "KEY_ROTATED" actor entry) :
      HsmPlan t (.rotateKey env key.id actor payload)
        (.hsm (.insertKey successor) :: (saveKey key (rotatedKey env key successor) ++
          [recordOperation env .keyRotate (some successor) actor ("Rotated " ++ key.keyLabel ++
            " -> " ++ successor.keyLabel ++ " via provider abstraction (" ++
            natText successor.wrapsDekCount ++ " DEKs re-wrapped)")]))
        [(env.audit, entry)]
  | disabled {env : HsmEnv} {key : MasterKey} {actor : String} {entry : AuditLogEntryCreate}
      (isKey : key ∈ t.keys.rows) (inService : ¬ (key.status = .retired ∨ key.status = .disabled))
      (isEntry : KeyEntry "KEY_DISABLED" actor entry) :
      HsmPlan t (.disableKey env key.id actor)
        (saveKey key (disabledKey env key) ++
          [recordOperation env .keyDisable (some key) actor ("Disabled key " ++ key.keyLabel)])
        [(env.audit, entry)]

/-! ## Statements -/

theorem domain_recordOperation {env : HsmEnv} {operationType : SecurityOperationType}
    {key : Option MasterKey} {actor detail : String} :
    Domain [recordOperation env operationType key actor detail] := domain_singleton rfl

theorem domain_saveKey {old new : MasterKey} : Domain (saveKey old new) := by
  unfold saveKey
  split
  · exact domain_nil
  · exact domain_singleton rfl

theorem domain_saveCeremony {old new : KeyCeremony} : Domain (saveCeremony old new) := by
  unfold saveCeremony
  split
  · exact domain_nil
  · exact domain_singleton rfl

theorem domain_giveApproval {env : HsmEnv} {ceremony : LoadedCeremony} {custodianEmail : String} :
    Domain (giveApproval env ceremony custodianEmail).1 := by
  unfold giveApproval
  split
  · exact domain_singleton rfl
  · exact domain_singleton rfl

theorem domain_saveKeys {ks : List (MasterKey × MasterKey)} :
    Domain (ks.flatMap fun k => saveKey k.1 k.2) := by
  intro w hw
  obtain ⟨k, -, hk⟩ := List.mem_flatMap.mp hw
  exact domain_saveKey w hk

theorem HsmPlan.domain {t : HsmStore} {r : HsmRequest} {ws : List Statement} {as : List Append}
    (h : HsmPlan t r ws as) : Domain ws := by
  cases h with
  | registered => exact domain_cons.mpr ⟨rfl, domain_recordOperation⟩
  | initiated => exact domain_singleton rfl
  | approvedBefore => exact domain_nil
  | approved => exact domain_giveApproval
  | completed =>
    exact domain_append.mpr ⟨domain_append.mpr ⟨domain_saveKeys, domain_saveCeremony⟩,
      domain_recordOperation⟩
  | rotated =>
    exact domain_cons.mpr ⟨rfl, domain_append.mpr ⟨domain_saveKey, domain_recordOperation⟩⟩
  | disabled => exact domain_append.mpr ⟨domain_saveKey, domain_recordOperation⟩

/-! ## Reads -/

section

variable {durable work : Db} {n : ℕ}

theorem getKeyOrm_wp {keyId : Uuid} {post : Except ServiceError MasterKey → Db → Db → ℕ → Prop}
    (missing : ∀ error, post (.error error) durable work n)
    (isKey : ∀ key ∈ work.hsm.keys.rows, key.id = keyId → post (.ok key) durable work n) :
    (getKeyOrm keyId).wp postgres post durable work n := by
  simp only [getKeyOrm, Request.wp_bind, Request.wp_select, wp_found]
  refine ⟨fun _ => missing _, fun key hkey => ?_⟩
  obtain ⟨hmem, hid⟩ := Table.find?_eq_some.mp hkey
  exact isKey key hmem hid

theorem getSlot_wp {slotId : Option Uuid}
    {post : Except ServiceError (Option HsmSlot) → Db → Db → ℕ → Prop}
    (h : ∀ slot, post (.ok slot) durable work n) :
    (getSlot slotId).wp postgres post durable work n := by
  cases slotId with
  | none => exact Request.wp_return (h _)
  | some id => exact (Request.wp_select ..).mpr (h _)

theorem getKey_wp {env : HsmEnv} {keyId : Uuid}
    {post : Except ServiceError MasterKeyRead → Db → Db → ℕ → Prop}
    (h : ∀ result, post result durable work n) :
    (getKey env keyId).wp postgres post durable work n := by
  refine (Request.wp_bind ..).mpr (getKeyOrm_wp (fun _ => h _) fun key _ _ => ?_)
  exact (Request.wp_bind ..).mpr (getSlot_wp fun _ => Request.wp_return (h _))

theorem loadRelationships_wp {c : KeyCeremony}
    {post : Except ServiceError LoadedCeremony → Db → Db → ℕ → Prop}
    (missing : ∀ error, post (.error error) durable work n)
    (loaded : ∀ key ∈ work.hsm.keys.rows, key.id = c.masterKeyId →
      post (.ok ⟨c, work.hsm.approvals.rows.filter fun a => a.ceremonyId = c.id, key⟩)
        durable work n) :
    (loadRelationships c).wp postgres post durable work n := by
  simp only [loadRelationships, selectApprovals, Request.wp_bind, Request.wp_select, wp_found]
  refine ⟨fun _ => missing _, fun key hkey => ?_⟩
  obtain ⟨hmem, hid⟩ := Table.find?_eq_some.mp hkey
  exact Request.wp_return (loaded key hmem hid)

theorem loadPendingCeremony_wp {ceremonyId : Uuid}
    {post : Except ServiceError LoadedCeremony → Db → Db → ℕ → Prop}
    (failed : ∀ error, post (.error error) durable work n)
    (loaded : ∀ c ∈ work.hsm.ceremonies.rows, c.id = ceremonyId → c.status = .pending →
      ∀ key ∈ work.hsm.keys.rows, key.id = c.masterKeyId →
        post (.ok ⟨c, work.hsm.approvals.rows.filter fun a => a.ceremonyId = c.id, key⟩)
          durable work n) :
    (loadPendingCeremony ceremonyId).wp postgres post durable work n := by
  simp only [loadPendingCeremony, Request.wp_bind, Request.wp_select, wp_found]
  refine ⟨fun _ => failed _, fun c hc => ?_⟩
  obtain ⟨hmem, hid⟩ := Table.find?_eq_some.mp hc
  refine loadRelationships_wp (fun _ => failed _) fun key hkey hkeyId => ?_
  exact wp_ensure.mpr ⟨fun _ => failed _, fun hpending =>
    Request.wp_return (loaded c hmem hid hpending key hkey hkeyId)⟩

theorem assertLabelAvailable_wp {label : String}
    {post : Except ServiceError Unit → Db → Db → ℕ → Prop}
    (taken : ∀ error, post (.error error) durable work n)
    (available : (∀ k ∈ work.hsm.keys.rows, k.keyLabel ≠ label) → post (.ok ()) durable work n) :
    (assertLabelAvailable label).wp postgres post durable work n := by
  simp only [assertLabelAvailable, Request.wp_bind, Request.wp_select, wp_ensure]
  exact ⟨fun _ => taken _, fun hfree => available (by simpa using hfree)⟩

theorem assertSlotExists_wp {slotId : Option Uuid}
    {post : Except ServiceError Unit → Db → Db → ℕ → Prop}
    (missing : ∀ error, post (.error error) durable work n)
    (exists_ : (∀ id, slotId = some id → (work.hsm.slots.find? id).isSome = true) →
      post (.ok ()) durable work n) :
    (assertSlotExists slotId).wp postgres post durable work n := by
  cases slotId with
  | none => exact Request.wp_return (exists_ fun id hid => nomatch hid)
  | some id =>
    simp only [assertSlotExists, Request.wp_bind, Request.wp_select, wp_found]
    refine ⟨fun _ => missing _, fun slot hslot => Request.wp_return (exists_ fun id' hid => ?_)⟩
    obtain rfl := Option.some.inj hid
    rw [hslot]
    rfl

theorem findPredecessor_wp {label : Option String}
    {post : Except ServiceError (Option MasterKey) → Db → Db → ℕ → Prop}
    (h : post (.ok (predecessorByLabel work.hsm label)) durable work n) :
    (findPredecessor label).wp postgres post durable work n := by
  rw [findPredecessor, Request.wp_ite]
  refine ⟨fun hnone => Request.wp_return ?_, fun _ => (Request.wp_select ..).mpr h⟩
  have hlabel : predecessorByLabel work.hsm label = none := by
    rcases hnone with rfl | rfl <;> rfl
  exact hlabel ▸ h

/-- The predecessor that a ceremony is opened with is another key, in service. -/
theorem predecessorOf_wp {masterKeyId : Uuid} {predecessorKeyId : Option Uuid}
    {post : Except ServiceError (Option MasterKey) → Db → Db → ℕ → Prop}
    (failed : ∀ error, post (.error error) durable work n)
    (read : ∀ predecessor : Option MasterKey, predecessor.map MasterKey.id = predecessorKeyId →
      (∀ p, predecessor = some p → p ∈ work.hsm.keys.rows ∧ p.id ≠ masterKeyId ∧
        (p.status = .active ∨ p.status = .expiring)) → post (.ok predecessor) durable work n) :
    (predecessorOf masterKeyId predecessorKeyId).wp postgres post durable work n := by
  cases predecessorKeyId with
  | none => exact Request.wp_return (read none rfl fun p hp => nomatch hp)
  | some id =>
    refine (Request.wp_bind ..).mpr (wp_ensure.mpr ⟨fun _ => failed _, fun hother => ?_⟩)
    refine (Request.wp_bind ..).mpr (getKeyOrm_wp (fun _ => failed _) fun key hkey hid => ?_)
    refine (Request.wp_bind ..).mpr (wp_ensure.mpr ⟨fun _ => failed _, fun hinService =>
      Request.wp_return (read _ (congrArg some hid) fun p hp => ?_)⟩)
    obtain rfl := Option.some.inj hp
    exact ⟨hkey, hid ▸ hother, hinService⟩

end

/-! ## Operations -/

section

variable {crypto : AuditCrypto} {db : Db} {n : ℕ}

theorem createKey_ends (env : HsmEnv) (payload : MasterKeyCreate) (actor : String) :
    (createKey crypto env payload actor).wp postgres
      (Ends crypto (HsmPlan db.hsm (.createKey env payload actor)) db n) db db n := by
  refine (Request.wp_bind ..).mpr (assertLabelAvailable_wp (fun _ => .failed (Nat.le_refl n))
    fun havailable => ?_)
  refine (Request.wp_bind ..).mpr (assertSlotExists_wp (fun _ => .failed (Nat.le_refl n))
    fun hslot => ?_)
  have hdomain : Domain [.hsm (.insertKey (registeredKey env payload)),
      recordOperation env .keyCreate (some (registeredKey env payload)) actor
        ("Registered key reference " ++ payload.keyLabel ++ " (" ++ payload.algorithm ++
          ") — pending ceremony")] := domain_cons.mpr ⟨rfl, domain_recordOperation⟩
  refine (Request.wp_bind ..).mpr (append_performs (.start crypto db n) hdomain
    (fun _ _ hk => .failed hk) fun row work' hperformed => ?_)
  refine Request.wp_commitTransaction_bind (getKey_wp fun _ => ?_)
  exact .performed (.registered havailable hslot ⟨_, _, _, rfl⟩) hperformed

theorem createCeremony_ends (env : HsmEnv) (payload : KeyCeremonyCreate) (actor : String) :
    (createCeremony crypto env payload actor).wp postgres
      (Ends crypto (HsmPlan db.hsm (.createCeremony env payload actor)) db n) db db n := by
  refine (Request.wp_bind ..).mpr (getKeyOrm_wp (fun _ => .failed (Nat.le_refl n))
    fun target htarget hid => ?_)
  refine (Request.wp_bind ..).mpr (wp_ensure.mpr
    ⟨fun _ => .failed (Nat.le_refl n), fun hpending => ?_⟩)
  refine (Request.wp_bind ..).mpr (predecessorOf_wp (fun _ => .failed (Nat.le_refl n))
    fun predecessor hnamed hpredecessor => ?_)
  refine (Request.wp_bind ..).mpr ?_
  rw [Request.wp_select]
  refine (Request.wp_bind ..).mpr (wp_ensure.mpr ⟨fun _ => .failed (Nat.le_refl n), fun _ => ?_⟩)
  refine (Request.wp_bind ..).mpr (wp_ensure.mpr
    ⟨fun _ => .failed (Nat.le_refl n), fun hsingle => ?_⟩)
  have hnone : ∀ d ∈ db.hsm.ceremonies.rows, d.masterKeyId = target.id → d.status ≠ .pending := by
    simpa [List.filter_eq_nil_iff] using hsingle
  rw [← hid] at hpredecessor
  refine (Request.wp_bind ..).mpr (send_performs (.start crypto db n) (domain_singleton rfl)
    (fun _ => .failed (Nat.le_succ n)) fun mid _ hsent => ?_)
  refine (Request.wp_bind ..).mpr (append_performs hsent domain_nil
    (fun _ k hk => .failed (by omega)) fun row work' hperformed => ?_)
  have hends : ∀ result : Except ServiceError LoadedCeremony,
      Ends crypto (HsmPlan db.hsm (.createCeremony env payload actor)) db n result work' work'
        (n + 1 + 1) := fun _ => .performed
    (.initiated htarget hid hpending hnamed hpredecessor hnone ⟨_, _, _, rfl⟩) hperformed
  exact Request.wp_commitTransaction_bind
    (loadRelationships_wp (fun _ => hends _) fun _ _ _ => hends _)

theorem approveCeremony_ends (env : HsmEnv) (ceremonyId : Uuid) (custodianEmail : String) :
    (approveCeremony crypto env ceremonyId custodianEmail).wp postgres
      (Ends crypto (HsmPlan db.hsm (.approveCeremony env ceremonyId custodianEmail)) db n)
      db db n := by
  refine (Request.wp_bind ..).mpr (loadPendingCeremony_wp (fun _ => .failed (Nat.le_refl n))
    fun c hc hid hpending key _ _ => ?_)
  subst hid
  have commit : ∀ {ws : List Statement} {as : List Append} {work : Db} {k : ℕ},
      HsmPlan db.hsm (.approveCeremony env c.id custodianEmail) ws as →
      Performed crypto db n ws as work k →
      (do
        Request.commitTransaction
        loadRelationships c : Service LoadedCeremony).wp postgres
          (Ends crypto (HsmPlan db.hsm (.approveCeremony env c.id custodianEmail)) db n) db work k :=
    fun hplan hperformed => Request.wp_commitTransaction_bind
      (loadRelationships_wp (fun _ => .performed hplan hperformed)
        fun _ _ _ => .performed hplan hperformed)
  refine (Request.wp_bind ..).mpr ?_
  rw [recordApproval, Request.wp_ite]
  refine ⟨fun happroved => Request.wp_return (commit (.approvedBefore hc hpending happroved)
    (.refl (Nat.le_refl n))), fun hnot => ?_⟩
  refine (Request.wp_bind ..).mpr (append_performs (.refl (Nat.le_refl n))
    domain_giveApproval (fun _ _ hk => .failed hk) fun row work' hperformed => ?_)
  exact Request.wp_return (commit (.approved hc hpending (Bool.not_eq_true _ ▸ hnot)
    ⟨_, _, _, rfl⟩) hperformed)

theorem completeCeremony_ends (env : HsmEnv) (ceremonyId : Uuid) (actor : String) :
    (completeCeremony crypto env ceremonyId actor).wp postgres
      (Ends crypto (HsmPlan db.hsm (.completeCeremony env ceremonyId actor)) db n) db db n := by
  refine (Request.wp_bind ..).mpr (loadPendingCeremony_wp (fun _ => .failed (Nat.le_refl n))
    fun c hc hid hpending key hkey hkeyId => ?_)
  subst hid
  refine (Request.wp_bind ..).mpr (wp_ensure.mpr
    ⟨fun _ => .failed (Nat.le_refl n), fun hquorum => ?_⟩)
  refine (Request.wp_bind ..).mpr (wp_found.mpr
    ⟨fun _ => .failed (Nat.le_refl n), fun expiresAt hexpires => ?_⟩)
  refine (Request.wp_bind ..).mpr (findPredecessor_wp ?_)
  refine (Request.wp_bind ..).mpr (append_performs (.start crypto db n)
    (domain_append.mpr ⟨domain_append.mpr ⟨domain_saveKeys, domain_saveCeremony⟩,
      domain_recordOperation⟩) (fun _ _ hk => .failed hk) fun row work' hperformed => ?_)
  have hends : ∀ result : Except ServiceError LoadedCeremony,
      Ends crypto (HsmPlan db.hsm (.completeCeremony env c.id actor)) db n result work' work'
        (n + 1) := fun _ => .performed (.completed hc hpending
    (by simpa [LoadedCeremony.quorumMet] using hquorum) hkey hkeyId.symm hexpires
    ⟨_, _, _, rfl⟩) hperformed
  exact Request.wp_commitTransaction_bind
    (loadRelationships_wp (fun _ => hends _) fun _ _ _ => hends _)

theorem rotateKey_ends (env : HsmEnv) (keyId : Uuid) (actor : String)
    (payload : MasterKeyRotateRequest) :
    (rotateKey crypto env keyId actor payload).wp postgres
      (Ends crypto (HsmPlan db.hsm (.rotateKey env keyId actor payload)) db n) db db n := by
  refine (Request.wp_bind ..).mpr (getKeyOrm_wp (fun _ => .failed (Nat.le_refl n))
    fun key hkey hid => ?_)
  subst hid
  refine (Request.wp_bind ..).mpr (wp_ensure.mpr
    ⟨fun _ => .failed (Nat.le_refl n), fun hinService => ?_⟩)
  refine (Request.wp_bind ..).mpr (assertLabelAvailable_wp (fun _ => .failed (Nat.le_refl n))
    fun havailable => ?_)
  refine (Request.wp_bind ..).mpr (wp_found.mpr
    ⟨fun _ => .failed (Nat.le_refl n), fun expiresAt hexpires => ?_⟩)
  refine (Request.wp_bind ..).mpr (send_performs (.start crypto db n) (domain_singleton rfl)
    (fun _ => .failed (Nat.le_succ n)) fun mid _ hsent => ?_)
  refine (Request.wp_bind ..).mpr (append_performs hsent
    (domain_append.mpr ⟨domain_saveKey, domain_recordOperation⟩)
    (fun _ k hk => .failed (by omega)) fun row work' hperformed => ?_)
  refine Request.wp_commitTransaction_bind (getKey_wp fun _ => ?_)
  exact .performed (.rotated hkey hinService havailable hexpires rfl ⟨_, _, _, rfl⟩) hperformed

theorem disableKey_ends (env : HsmEnv) (keyId : Uuid) (actor : String) :
    (disableKey crypto env keyId actor).wp postgres
      (Ends crypto (HsmPlan db.hsm (.disableKey env keyId actor)) db n) db db n := by
  refine (Request.wp_bind ..).mpr (getKeyOrm_wp (fun _ => .failed (Nat.le_refl n))
    fun key hkey hid => ?_)
  subst hid
  refine (Request.wp_bind ..).mpr (wp_ensure.mpr
    ⟨fun _ => .failed (Nat.le_refl n), fun hinService => ?_⟩)
  refine (Request.wp_bind ..).mpr (append_performs (.start crypto db n)
    (domain_append.mpr ⟨domain_saveKey, domain_recordOperation⟩) (fun _ _ hk => .failed hk)
    fun row work' hperformed => ?_)
  refine Request.wp_commitTransaction_bind (getKey_wp fun _ => ?_)
  exact .performed (.disabled hkey hinService ⟨_, _, _, rfl⟩) hperformed

/-- The specification of the service: a request fails and leaves the database, or performs one of
its plans. -/
theorem request_ends (r : HsmRequest) :
    (r.request crypto).wp postgres (Ends crypto (HsmPlan db.hsm r) db n) db db n := by
  cases r with
  | createKey env payload actor =>
    exact Request.wp_answer (Request.wp_mono (createKey_ends env payload actor)
      fun _ _ _ _ h => h.map)
  | createCeremony env payload actor =>
    exact Request.wp_answer (Request.wp_mono (createCeremony_ends env payload actor)
      fun _ _ _ _ h => h.map)
  | approveCeremony env id email =>
    exact Request.wp_answer (Request.wp_mono (approveCeremony_ends env id email)
      fun _ _ _ _ h => h.map)
  | completeCeremony env id actor =>
    exact Request.wp_answer (Request.wp_mono (completeCeremony_ends env id actor)
      fun _ _ _ _ h => h.map)
  | rotateKey env id actor payload =>
    exact Request.wp_answer (Request.wp_mono (rotateKey_ends env id actor payload)
      fun _ _ _ _ h => h.map)
  | disableKey env id actor =>
    exact Request.wp_answer (Request.wp_mono (disableKey_ends env id actor)
      fun _ _ _ _ h => h.map)

end

end NexusEngine.HsmTransactions
