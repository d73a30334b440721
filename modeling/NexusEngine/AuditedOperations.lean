import NexusEngine.TransactionFaults
import NexusEngine.HsmTransactions
import NexusEngine.ConfigurationTransactions
import NexusEngine.ParameterTransactions
import NexusEngine.AnomalyTransactions

/-!
# Audited operations

The operations whose audit entries belong to their transactions. Each of them commits once, and
only reads after that. Whatever step fails, the database has the rows of the operation and of its
entries, or neither.
-/

namespace NexusEngine.AuditedOperations

open TransactionalRequests StoredColumns PythonText KeyedTables HsmTables ParameterTables
  AnomalyTables AuditLogTable Database AuditService AuditAppends AuditedTransactions HsmService
  ConfigurationService ParameterService AnomalyService HsmTransactions ConfigurationTransactions
  ParameterTransactions AnomalyTransactions

inductive AuditedOperation where
  | applyPendingChanges (env : ConfigManagerEnv) (changedBy : String)
  | anomaly (r : AnomalyRequest)
  | activateConfiguration (env : ConfigurationEnv) (configId : Uuid) (actor : String)
  | rollbackConfiguration (env : ConfigurationEnv) (configId : Uuid) (actor : String)
  | key (r : HsmRequest)
  | runAttestation (env : HsmEnv) (actor : String)

/-- The request of an operation, without its response. -/
def AuditedOperation.request (crypto : AuditCrypto) (tables : CharacterTables) :
    AuditedOperation → Service Unit
  | applyPendingChanges env changedBy => (ParameterRequest.apply env changedBy).request crypto tables
  | anomaly r => r.request crypto
  | activateConfiguration env configId actor =>
    (ConfigurationRequest.activate env configId actor).request crypto
  | rollbackConfiguration env configId actor =>
    (ConfigurationRequest.rollback env configId actor).request crypto
  | key r => r.request crypto
  | runAttestation env actor => do
    let _ ← HsmService.runAttestation crypto env actor
    return ()

/-! ## Rows and entries -/

/-- What an operation sends and appends where it passes its guards. -/
inductive AuditedPlan (tables : CharacterTables) (db : Db) :
    AuditedOperation → List Statement → List Append → Prop where
  | applied {env : ConfigManagerEnv} {changedBy : String} {ws : List Statement} {as : List Append}
      (h : ApplyPlan tables db.parameters env changedBy ws as) :
      AuditedPlan tables db (.applyPendingChanges env changedBy) ws as
  | anomaly {r : AnomalyRequest} {ws : List Statement} {as : List Append}
      (h : AnomalyPlan db.anomalies r ws as) : AuditedPlan tables db (.anomaly r) ws as
  | activated {env : ConfigurationEnv} {configId : Uuid} {actor : String} {ws : List Statement}
      {as : List Append}
      (h : ConfigurationPlan db.configurations (.activate env configId actor) ws as) :
      AuditedPlan tables db (.activateConfiguration env configId actor) ws as
  | rolledBack {env : ConfigurationEnv} {configId : Uuid} {actor : String} {ws : List Statement}
      {as : List Append}
      (h : ConfigurationPlan db.configurations (.rollback env configId actor) ws as) :
      AuditedPlan tables db (.rollbackConfiguration env configId actor) ws as
  | key {r : HsmRequest} {ws : List Statement} {as : List Append} (h : HsmPlan db.hsm r ws as) :
      AuditedPlan tables db (.key r) ws as
  | attested {env : HsmEnv} {actor : String} :
      AuditedPlan tables db (.runAttestation env actor)
        [.hsm (.insertAttestationRun (attestationRun env)),
          recordOperation env .attestationRun none actor "Executed hardware attestation checks"]
        [(env.audit, attestationEntry env actor)]

/-- The custodian has approved the ceremony already. -/
def approvedBefore (t : HsmStore) (ceremonyId : Uuid) (custodianEmail : String) : Bool :=
  ((t.approvals.rows.filter fun a => a.ceremonyId = ceremonyId).find? fun a =>
    a.custodianEmail = custodianEmail).any fun a => a.approvedAt.isSome

/-- How many entries an operation owes: one for each parameter that it applies, one for each event
that it moves, none for an approval that was given before, and one otherwise. -/
def auditRows (db : Db) : AuditedOperation → ℕ
  | .applyPendingChanges _ _ =>
    db.parameters.parameters.rows.countP fun p => p.pendingValue.isSome
  | .anomaly (.updateStatus _ eventId _ _) => db.anomalies.rows.countP fun e => e.id = eventId
  | .anomaly (.bulkUpdateStatus _ eventIds _ _) =>
    db.anomalies.rows.countP fun e => e.id ∈ eventIds
  | .key (.approveCeremony _ ceremonyId custodianEmail) =>
    if approvedBefore db.hsm ceremonyId custodianEmail then 0 else 1
  | _ => 1

section

variable {tables : CharacterTables} {db : Db} {ws : List Statement} {as : List Append}

theorem applied_length {s : ParameterStore} {env : ConfigManagerEnv} {changedBy : String}
    (h : ApplyPlan tables s env changedBy ws as) :
    as.length = s.parameters.rows.countP fun p => p.pendingValue.isSome := by
  obtain ⟨rfl⟩ := h
  rw [applyAppends_length, stagedParameters, ← List.countP_eq_length_filter]
  exact (s.parameters.scan_perm env.parameterOrder).countP_eq _

theorem moved_length {r : AnomalyRequest} (h : AnomalyPlan db.anomalies r ws as) :
    as.length = auditRows db (.anomaly r) := by
  cases h with
  | created => rfl
  | unknown missing =>
    refine (List.countP_eq_zero.mpr fun e he => ?_).symm
    simpa using Table.find?_eq_none.mp missing e he
  | updated isEvent =>
    obtain ⟨hmem, -⟩ := Table.find?_eq_some.mp isEvent
    exact (db.anomalies.countP_key hmem).symm
  | @bulkUpdated env eventIds _ _ _ isEvents =>
    subst isEvents
    have hscan := (db.anomalies.scan_perm env.eventOrder).countP_eq
      fun e => decide (e.id ∈ eventIds)
    rw [statusAppends_length, eventsWithin, ← List.countP_eq_length_filter]
    simpa [auditRows] using hscan

/-- A plan appends the entries that the operation owes. -/
theorem AuditedPlan.length {op : AuditedOperation} (h : AuditedPlan tables db op ws as) :
    as.length = auditRows db op := by
  cases h with
  | applied h => exact applied_length h
  | anomaly h => exact moved_length h
  | activated h =>
    cases h with
    | inserted isInsert => cases isInsert
    | activated => rfl
  | rolledBack h =>
    cases h with
    | inserted isInsert => cases isInsert
    | rolledBack => rfl
  | key h =>
    cases h with
    | approvedBefore _ _ approved => exact (if_pos approved).symm
    | approved _ _ notYet => exact (if_neg (Bool.not_eq_true _ ▸ notYet)).symm
    | _ => rfl
  | attested => rfl

end

/-! ## Where the operations commit -/

section

variable {crypto : AuditCrypto}

theorem found_readsOnly {α : Type} (row : Option α) (error : ServiceError) :
    (found row error).ReadsOnly := by
  cases row with
  | none => trivial
  | some r => trivial

theorem ensure_readsOnly (c : Prop) [Decidable c] (error : ServiceError) :
    (ensure c error).ReadsOnly := by
  unfold ensure
  split
  · trivial
  · trivial

theorem appendEntryInTransaction_neverCommits (env : AppendEnv) (unflushed : List Statement)
    (payload : AuditLogEntryCreate) :
    (appendEntryInTransaction crypto env unflushed payload).NeverCommits := by
  rw [appendEntryInTransaction_eq]
  refine (Request.readsOnly_select _).neverCommits.bind fun before => ?_
  refine (found_readsOnly _ _).neverCommits.bind fun signature => ?_
  refine (Request.neverCommits_send _).bind fun _ => ?_
  exact ((Request.readsOnly_select _).bind fun row => found_readsOnly row _).neverCommits

/-! ### The HSM service -/

theorem getKeyOrm_readsOnly (keyId : Uuid) : (getKeyOrm keyId).ReadsOnly :=
  (Request.readsOnly_select _).bind fun key => found_readsOnly key _

theorem getSlot_readsOnly (slotId : Option Uuid) : (getSlot slotId).ReadsOnly := by
  cases slotId with
  | none => trivial
  | some id => exact Request.readsOnly_select _

theorem getKey_readsOnly (env : HsmEnv) (keyId : Uuid) : (getKey env keyId).ReadsOnly :=
  (getKeyOrm_readsOnly keyId).bind fun key => (getSlot_readsOnly key.slotId).bind fun _ => trivial

theorem loadRelationships_readsOnly (c : KeyCeremony) : (loadRelationships c).ReadsOnly :=
  (Request.readsOnly_select _).bind fun _ => (Request.readsOnly_select _).bind fun key =>
    (found_readsOnly key _).bind fun _ => trivial

theorem loadPendingCeremony_readsOnly (ceremonyId : Uuid) :
    (loadPendingCeremony ceremonyId).ReadsOnly :=
  (Request.readsOnly_select _).bind fun ceremony => (found_readsOnly ceremony _).bind fun c =>
    (loadRelationships_readsOnly c).bind fun _ => (ensure_readsOnly _ _).bind fun _ => trivial

theorem assertLabelAvailable_readsOnly (label : String) : (assertLabelAvailable label).ReadsOnly :=
  (Request.readsOnly_select _).bind fun _ => ensure_readsOnly _ _

theorem assertSlotExists_readsOnly (slotId : Option Uuid) : (assertSlotExists slotId).ReadsOnly := by
  cases slotId with
  | none => trivial
  | some id =>
    exact (Request.readsOnly_select _).bind fun slot => (found_readsOnly slot _).bind fun _ =>
      trivial

theorem predecessorOf_readsOnly (masterKeyId : Uuid) (predecessorKeyId : Option Uuid) :
    (predecessorOf masterKeyId predecessorKeyId).ReadsOnly := by
  cases predecessorKeyId with
  | none => trivial
  | some id =>
    refine (ensure_readsOnly _ _).bind fun _ => (getKeyOrm_readsOnly id).bind fun key => ?_
    exact (ensure_readsOnly _ _).bind fun _ => trivial

theorem findPredecessor_readsOnly (label : Option String) : (findPredecessor label).ReadsOnly := by
  unfold findPredecessor
  split
  · trivial
  · exact Request.readsOnly_select _

theorem recordApproval_neverCommits (env : HsmEnv) (ceremony : LoadedCeremony)
    (custodianEmail : String) :
    (recordApproval crypto env ceremony custodianEmail).NeverCommits := by
  unfold recordApproval
  split
  · trivial
  · exact (appendEntryInTransaction_neverCommits _ _ _).bind fun _ => trivial

theorem createKey_commitsLast (env : HsmEnv) (payload : MasterKeyCreate) (actor : String) :
    (createKey crypto env payload actor).CommitsLast := by
  refine (assertLabelAvailable_readsOnly _).neverCommits.then fun _ => ?_
  refine (assertSlotExists_readsOnly _).neverCommits.then fun _ => ?_
  refine (appendEntryInTransaction_neverCommits _ _ _).then fun _ => ?_
  exact Request.commitsLast_commit (getKey_readsOnly _ _)

theorem createCeremony_commitsLast (env : HsmEnv) (payload : KeyCeremonyCreate) (actor : String) :
    (createCeremony crypto env payload actor).CommitsLast := by
  refine (getKeyOrm_readsOnly _).neverCommits.then fun _ => ?_
  refine (ensure_readsOnly _ _).neverCommits.then fun _ => ?_
  refine (predecessorOf_readsOnly _ _).neverCommits.then fun _ => ?_
  refine (Request.readsOnly_select _).neverCommits.then fun _ => ?_
  refine (ensure_readsOnly _ _).neverCommits.then fun _ => ?_
  refine (ensure_readsOnly _ _).neverCommits.then fun _ => ?_
  refine (Request.neverCommits_send _).then fun _ => ?_
  refine (appendEntryInTransaction_neverCommits _ _ _).then fun _ => ?_
  exact Request.commitsLast_commit (loadRelationships_readsOnly _)

theorem approveCeremony_commitsLast (env : HsmEnv) (ceremonyId : Uuid) (custodianEmail : String) :
    (approveCeremony crypto env ceremonyId custodianEmail).CommitsLast := by
  refine (loadPendingCeremony_readsOnly _).neverCommits.then fun _ => ?_
  refine (recordApproval_neverCommits _ _ _).then fun _ => ?_
  exact Request.commitsLast_commit (loadRelationships_readsOnly _)

theorem completeCeremony_commitsLast (env : HsmEnv) (ceremonyId : Uuid) (actor : String) :
    (completeCeremony crypto env ceremonyId actor).CommitsLast := by
  refine (loadPendingCeremony_readsOnly _).neverCommits.then fun _ => ?_
  refine (ensure_readsOnly _ _).neverCommits.then fun _ => ?_
  refine (found_readsOnly _ _).neverCommits.then fun _ => ?_
  refine (findPredecessor_readsOnly _).neverCommits.then fun _ => ?_
  refine (appendEntryInTransaction_neverCommits _ _ _).then fun _ => ?_
  exact Request.commitsLast_commit (loadRelationships_readsOnly _)

theorem rotateKey_commitsLast (env : HsmEnv) (keyId : Uuid) (actor : String)
    (payload : MasterKeyRotateRequest) :
    (rotateKey crypto env keyId actor payload).CommitsLast := by
  refine (getKeyOrm_readsOnly _).neverCommits.then fun _ => ?_
  refine (ensure_readsOnly _ _).neverCommits.then fun _ => ?_
  refine (assertLabelAvailable_readsOnly _).neverCommits.then fun _ => ?_
  refine (found_readsOnly _ _).neverCommits.then fun _ => ?_
  refine (Request.neverCommits_send _).then fun _ => ?_
  refine (appendEntryInTransaction_neverCommits _ _ _).then fun _ => ?_
  exact Request.commitsLast_commit (getKey_readsOnly _ _)

theorem disableKey_commitsLast (env : HsmEnv) (keyId : Uuid) (actor : String) :
    (disableKey crypto env keyId actor).CommitsLast := by
  refine (getKeyOrm_readsOnly _).neverCommits.then fun _ => ?_
  refine (ensure_readsOnly _ _).neverCommits.then fun _ => ?_
  refine (appendEntryInTransaction_neverCommits _ _ _).then fun _ => ?_
  exact Request.commitsLast_commit (getKey_readsOnly _ _)

theorem runAttestation_commitsLast (env : HsmEnv) (actor : String) :
    (runAttestation crypto env actor).CommitsLast := by
  refine (appendEntryInTransaction_neverCommits _ _ _).then fun _ => ?_
  exact Request.commitsLast_commit
    ((Request.readsOnly_select _).bind fun row => found_readsOnly row _)

theorem hsmRequest_commitsLast (r : HsmRequest) : (r.request crypto).CommitsLast := by
  cases r with
  | createKey env payload actor => exact (createKey_commitsLast env payload actor).answer
  | createCeremony env payload actor => exact (createCeremony_commitsLast env payload actor).answer
  | approveCeremony env id email => exact (approveCeremony_commitsLast env id email).answer
  | completeCeremony env id actor => exact (completeCeremony_commitsLast env id actor).answer
  | rotateKey env id actor payload => exact (rotateKey_commitsLast env id actor payload).answer
  | disableKey env id actor => exact (disableKey_commitsLast env id actor).answer

/-! ### The other services -/

theorem getConfigurationOrm_readsOnly (id : Uuid) : (getConfigurationOrm id).ReadsOnly :=
  (Request.readsOnly_select _).bind fun config => (found_readsOnly config _).bind fun _ =>
    (ensure_readsOnly _ _).bind fun _ => trivial

theorem refreshedConfiguration_readsOnly (id : Uuid) :
    (ConfigurationService.refreshed id).ReadsOnly :=
  (Request.readsOnly_select _).bind fun config => (found_readsOnly config _).bind fun _ => trivial

theorem activateConfiguration_commitsLast (env : ConfigurationEnv) (configId : Uuid)
    (actor : String) : (activateConfiguration crypto env configId actor).CommitsLast := by
  refine (getConfigurationOrm_readsOnly _).neverCommits.then fun _ => ?_
  refine (ensure_readsOnly _ _).neverCommits.then fun _ => ?_
  refine (Request.readsOnly_select _).neverCommits.then fun _ => ?_
  refine (appendEntryInTransaction_neverCommits _ _ _).then fun _ => ?_
  exact Request.commitsLast_commit (refreshedConfiguration_readsOnly _)

theorem rollbackConfiguration_commitsLast (env : ConfigurationEnv) (configId : Uuid)
    (actor : String) : (rollbackConfiguration crypto env configId actor).CommitsLast := by
  refine (getConfigurationOrm_readsOnly _).neverCommits.then fun _ => ?_
  refine (Request.readsOnly_select _).neverCommits.then fun _ => ?_
  refine (Request.neverCommits_send _).then fun _ => ?_
  refine (Request.readsOnly_select _).neverCommits.then fun _ => ?_
  refine (appendEntryInTransaction_neverCommits _ _ _).then fun _ => ?_
  exact Request.commitsLast_commit (refreshedConfiguration_readsOnly _)

theorem applyParameters_neverCommits (tables : CharacterTables) (env : ConfigManagerEnv)
    (changedBy : String) (k : ℕ) (parameters : List ConfigParameter) :
    (applyParameters crypto tables env changedBy k parameters).NeverCommits := by
  induction parameters generalizing k with
  | nil => trivial
  | cons p parameters ih =>
    refine (Request.readsOnly_select _).neverCommits.bind fun changes => ?_
    refine (appendEntryInTransaction_neverCommits _ _ _).bind fun _ => ?_
    exact (ih (k + 1)).bind fun _ => trivial

theorem applyPendingChanges_commitsLast (tables : CharacterTables) (env : ConfigManagerEnv)
    (changedBy : String) : (applyPendingChanges crypto tables env changedBy).CommitsLast := by
  refine (Request.readsOnly_select _).neverCommits.then fun _ => ?_
  refine (applyParameters_neverCommits _ _ _ _ _).then fun count => ?_
  exact Request.commitsLast_commit trivial

theorem refreshedEvent_readsOnly (id : Uuid) : (AnomalyService.refreshed id).ReadsOnly :=
  (Request.readsOnly_select _).bind fun event => found_readsOnly event _

theorem transition_neverCommits (now : CalendarTime.Instant) (audit : AppendEnv)
    (status : AnomalyStatus) (actor : Option String) (event : AnomalyEvent) :
    (transition crypto now audit status actor event).NeverCommits :=
  (Request.neverCommits_send _).bind fun _ =>
    (appendEntryInTransaction_neverCommits _ _ _).bind fun _ => trivial

theorem transitionAll_neverCommits (env : AnomalyEnv) (status : AnomalyStatus)
    (actor : Option String) (k : ℕ) (events : List AnomalyEvent) :
    (transitionAll crypto env status actor k events).NeverCommits := by
  induction events generalizing k with
  | nil => trivial
  | cons event events ih =>
    refine (transition_neverCommits env.now (env.audit k) status actor event).bind fun _ => ?_
    exact ih (k + 1)

theorem createAnomalyEvent_commitsLast (env : AnomalyEnv) (payload : AnomalyEventCreate)
    (actor : Option String) : (createAnomalyEvent crypto env payload actor).CommitsLast := by
  refine (Request.neverCommits_send _).then fun _ => ?_
  refine (appendEntryInTransaction_neverCommits _ _ _).then fun _ => ?_
  exact Request.commitsLast_commit (refreshedEvent_readsOnly _)

theorem updateAnomalyStatus_commitsLast (env : AnomalyEnv) (eventId : Uuid)
    (status : AnomalyStatus) (actor : Option String) :
    (updateAnomalyStatus crypto env eventId status actor).CommitsLast := by
  refine (Request.readsOnly_select _).neverCommits.then fun event => ?_
  cases event with
  | none => trivial
  | some event =>
    refine (transition_neverCommits env.now (env.audit 0) status actor event).then fun _ => ?_
    exact Request.commitsLast_commit ((refreshedEvent_readsOnly _).bind fun _ => trivial)

theorem bulkUpdateAnomalyStatus_commitsLast (env : AnomalyEnv) (eventIds : List Uuid)
    (status : AnomalyStatus) (actor : Option String) :
    (bulkUpdateAnomalyStatus crypto env eventIds status actor).CommitsLast := by
  refine (Request.readsOnly_select _).neverCommits.then fun events => ?_
  refine (transitionAll_neverCommits env status actor 0 events).then fun _ => ?_
  exact Request.commitsLast_commit trivial

theorem anomalyRequest_commitsLast (r : AnomalyRequest) : (r.request crypto).CommitsLast := by
  cases r with
  | create env payload actor => exact (createAnomalyEvent_commitsLast env payload actor).answer
  | updateStatus env id status actor =>
    exact (updateAnomalyStatus_commitsLast env id status actor).answer
  | bulkUpdateStatus env ids status actor =>
    exact (bulkUpdateAnomalyStatus_commitsLast env ids status actor).answer

theorem AuditedOperation.commitsLast (tables : CharacterTables) (op : AuditedOperation) :
    (op.request crypto tables).CommitsLast := by
  cases op with
  | applyPendingChanges env changedBy =>
    exact (applyPendingChanges_commitsLast tables env changedBy).answer
  | anomaly r => exact anomalyRequest_commitsLast r
  | activateConfiguration env id actor =>
    exact (activateConfiguration_commitsLast env id actor).answer
  | rollbackConfiguration env id actor =>
    exact (rollbackConfiguration_commitsLast env id actor).answer
  | key r => exact hsmRequest_commitsLast r
  | runAttestation env actor => exact (runAttestation_commitsLast env actor).answer

end

/-! ## Commits -/

section

variable {crypto : AuditCrypto} {tables : CharacterTables} {db : Db} {n : ℕ}

theorem runAttestation_ends (env : HsmEnv) (actor : String) :
    (runAttestation crypto env actor).wp postgres
      (Ends crypto (AuditedPlan tables db (.runAttestation env actor)) db n) db db n := by
  have hdomain : Domain [.hsm (.insertAttestationRun (attestationRun env)),
      recordOperation env .attestationRun none actor "Executed hardware attestation checks"] :=
    domain_cons.mpr ⟨rfl, domain_recordOperation⟩
  refine (Request.wp_bind ..).mpr (append_performs (.start crypto db n) hdomain
    (fun _ _ hk => .failed hk) fun row work' hperformed => ?_)
  refine Request.wp_commitTransaction_bind ((Request.wp_bind ..).mpr ?_)
  rw [Request.wp_select]
  exact wp_found.mpr ⟨fun _ => .performed .attested hperformed,
    fun _ _ => .performed .attested hperformed⟩

/-- An operation fails and leaves the database, or performs its plan. -/
theorem AuditedOperation.ends (op : AuditedOperation) :
    (op.request crypto tables).wp postgres (Ends crypto (AuditedPlan tables db op) db n) db db n := by
  cases op with
  | applyPendingChanges env changedBy =>
    exact Request.wp_answer (Request.wp_mono (applyPendingChanges_ends env changedBy)
      fun _ _ _ _ h => (h.mono fun _ _ => .applied).map)
  | anomaly r =>
    exact Request.wp_mono (AnomalyTransactions.request_ends r)
      fun _ _ _ _ h => h.mono fun _ _ => .anomaly
  | activateConfiguration env id actor =>
    exact Request.wp_mono (ConfigurationTransactions.request_ends (.activate env id actor))
      fun _ _ _ _ h => h.mono fun _ _ => .activated
  | rollbackConfiguration env id actor =>
    exact Request.wp_mono (ConfigurationTransactions.request_ends (.rollback env id actor))
      fun _ _ _ _ h => h.mono fun _ _ => .rolledBack
  | key r =>
    exact Request.wp_mono (HsmTransactions.request_ends r) fun _ _ _ _ h => h.mono fun _ _ => .key
  | runAttestation env actor =>
    exact Request.wp_answer (Request.wp_mono (runAttestation_ends env actor)
      fun _ _ _ _ h => h.map)

/-- The database has the rows of a plan of the operation and the entries it owes. -/
structure Committed (crypto : AuditCrypto) (tables : CharacterTables) (op : AuditedOperation)
    (s : Store Db) (db' : Db) : Prop where
  performed : ∃ ws as k, AuditedPlan tables s.db op ws as ∧
    Performed crypto s.db s.sequence ws as db' k
  entries : db'.auditLog.length = s.db.auditLog.length + auditRows s.db op

theorem Committed.of_performed {op : AuditedOperation} {s : Store Db} {db' : Db}
    {ws : List Statement} {as : List Append} {k : ℕ} (planned : AuditedPlan tables s.db op ws as)
    (h : Performed crypto s.db s.sequence ws as db' k) : Committed crypto tables op s db' where
  performed := ⟨ws, as, k, planned, h⟩
  entries := by
    obtain ⟨_, _, -, hrows, rfl⟩ := h.outcome
    rw [List.length_append, hrows.length, planned.length]

/-- Whatever reads, flushes and commits fail: what fails before the commit leaves the database,
what is answered has committed the rows of the operation together with the entries it owes, and
nothing in between is ever durable. -/
theorem committed_together (crypto : AuditCrypto) (tables : CharacterTables)
    (op : AuditedOperation) (s : Store Db) (fault : ℕ → Option ServiceError) :
    let outcome := (op.request crypto tables).faulty postgres fault false 0 s.db s.db s.sequence
    (outcome.committed = false → outcome.db = s.db) ∧
      (outcome.result = .ok () → Committed crypto tables op s outcome.db) ∧
        (outcome.db = s.db ∨ Committed crypto tables op s outcome.db) := by
  intro outcome
  have hlast : (op.request crypto tables).CommitsLast := op.commitsLast tables
  have hatomic := hlast.atomic postgres fault 0 s.db s.db s.sequence
  have hends : (op.request crypto tables).wp postgres
      (Ends crypto (AuditedPlan tables s.db op) s.db s.sequence) s.db s.db s.sequence := op.ends
  refine ⟨hatomic.uncommitted, fun hok => ?_, ?_⟩
  · obtain ⟨hserial, hdb⟩ := hatomic.answered () hok
    obtain ⟨ws, as, planned, hperformed⟩ := performed_of_ok hends hserial
    rw [hdb]
    exact .of_performed planned hperformed
  · cases hcommitted : outcome.committed with
    | false => exact .inl (hatomic.uncommitted hcommitted)
    | true =>
      rw [hatomic.committed hcommitted]
      rcases exec_of_ends s hends with ⟨hdb, -⟩ | ⟨ws, as, planned, hperformed⟩
      · exact .inl hdb
      · exact .inr (.of_performed planned hperformed)

end

end NexusEngine.AuditedOperations
