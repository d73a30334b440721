import NexusEngine.RequestStatements
import NexusEngine.AuditedOperations
import NexusEngine.AuthService
import NexusEngine.TenancyService

/-!
# Requests that anomalies do not notice

Requests of the other services send no statement on the anomalies, and what they append are no
entries about anomalies.
-/

namespace NexusEngine.QuietRequests

open TransactionalRequests StoredColumns PythonText AuditLogTable HsmTables ConfigurationTable
  ParameterTables AccountTables Database AuditService AuditAppends HsmService ConfigurationService
  ParameterService AuthService TenancyService AuditedOperations

/-! ## Statements -/

/-- The statement is not on the anomalies, and it inserts no entry about one. -/
def Quiet : Statement → Prop
  | .insertAuditLogEntry entry sequence =>
    ∀ row, entry.stored sequence = some row → row.eventType ≠ .anomalyDetected
  | .anomaly _ => False
  | .deleteTenant _ => False
  | _ => True

/-- The anomalies and the entries about them are the same. -/
structure SameAnomalies (db db' : Db) : Prop where
  anomalies : db'.anomalies = db.anomalies
  log : ∀ p : AuditLogEntry → Bool, (∀ row, p row = true → row.eventType = .anomalyDetected) →
    db'.auditLog.filter p = db.auditLog.filter p

theorem SameAnomalies.refl (db : Db) : SameAnomalies db db := ⟨rfl, fun _ _ => rfl⟩

theorem SameAnomalies.trans {db₁ db₂ db₃ : Db} (h : SameAnomalies db₁ db₂)
    (h' : SameAnomalies db₂ db₃) : SameAnomalies db₁ db₃ where
  anomalies := h'.anomalies.trans h.anomalies
  log p hp := (h'.log p hp).trans (h.log p hp)

theorem Quiet.apply {w : Statement} (h : Quiet w) {db db' : Db}
    (happly : postgres.apply w db = some db') : SameAnomalies db db' := by
  cases w with
  | insertAuditLogEntry entry n =>
    obtain ⟨row, hstored, -, rfl⟩ := apply_insertAuditLogEntry.mp happly
    refine ⟨rfl, fun p hp => ?_⟩
    have hnot : p row ≠ true := fun hrow => h row hstored (hp row hrow)
    rw [List.filter_append, List.filter_cons_of_neg hnot, List.filter_nil, List.append_nil]
  | hsm statement =>
    obtain ⟨_, -, rfl⟩ := apply_hsm.mp happly
    exact ⟨rfl, fun _ _ => rfl⟩
  | configuration statement =>
    obtain ⟨_, -, rfl⟩ := apply_configuration.mp happly
    exact ⟨rfl, fun _ _ => rfl⟩
  | parameter statement =>
    obtain ⟨_, -, rfl⟩ := apply_parameter.mp happly
    exact ⟨rfl, fun _ _ => rfl⟩
  | account statement =>
    obtain ⟨_, -, rfl⟩ := apply_account.mp happly
    exact ⟨rfl, fun _ _ => rfl⟩
  | anomaly statement => exact h.elim
  | tenancy statement =>
    obtain ⟨_, -, rfl⟩ := apply_tenancy.mp happly
    exact ⟨rfl, fun _ _ => rfl⟩
  | rbac statement =>
    obtain ⟨_, -, rfl⟩ := apply_rbac.mp happly
    exact ⟨rfl, fun _ _ => rfl⟩
  | deleteTenant id => exact h.elim

/-- A quiet request leaves the anomalies and the entries about them. -/
theorem exec_sameAnomalies {α : Type} {p : Service α} (h : p.Sends Quiet) (s : Store Db) :
    SameAnomalies s.db (s.exec postgres p).db :=
  Store.exec_rel .refl .trans (fun _ _ _ hw happly => hw.apply happly) h s

/-! ## Appends -/

/-- The rule of an append. -/
theorem append_sends {P : Statement → Prop} {crypto : AuditCrypto} {env : AppendEnv}
    {unflushed : List Statement} {payload : AuditLogEntryCreate} (hunflushed : ∀ w ∈ unflushed, P w)
    (hentry : ∀ before signature n,
      P (.insertAuditLogEntry (newEntry crypto env before payload signature) n)) :
    (appendEntryInTransaction crypto env unflushed payload).Sends P := by
  rw [appendEntryInTransaction_eq]
  refine (Request.sends_select _).bind fun before => ?_
  refine (found_readsOnly _ _).sends.bind fun signature => ?_
  refine (Request.sends_send fun n w hw => ?_).bind fun _ => ?_
  · rcases List.mem_append.mp hw with hw | hw
    · exact hunflushed w hw
    · exact List.mem_singleton.mp hw ▸ hentry before signature n
  · exact (Request.sends_select _).bind fun row => (found_readsOnly row _).sends

theorem quiet_append {crypto : AuditCrypto} {env : AppendEnv} {unflushed : List Statement}
    {payload : AuditLogEntryCreate} (hunflushed : ∀ w ∈ unflushed, Quiet w)
    (htype : auditEventTypeColumn.bind payload.eventType ≠ some .anomalyDetected) :
    (appendEntryInTransaction crypto env unflushed payload).Sends Quiet :=
  append_sends hunflushed fun _ _ _ _ hstored heq =>
    htype (heq ▸ (NewAuditLogEntry.keptAs hstored).eventType)

/-! ## The HSM service -/

section

variable {crypto : AuditCrypto} {env : HsmEnv} {w : Statement}

theorem quiet_recordOperation {operationType : SecurityOperationType} {key : Option MasterKey}
    {actor detail : String} : Quiet (recordOperation env operationType key actor detail) := trivial

/-- Statements with the record of their operation. -/
theorem quiet_recorded {ws : List Statement} (hws : ∀ w ∈ ws, Quiet w)
    {operationType : SecurityOperationType} {key : Option MasterKey} {actor detail : String}
    (hw : w ∈ ws ++ [recordOperation env operationType key actor detail]) : Quiet w := by
  rcases List.mem_append.mp hw with hw | hw
  · exact hws w hw
  · rw [List.mem_singleton.mp hw]
    exact quiet_recordOperation

theorem quiet_saveKey {old new : MasterKey} (hw : w ∈ saveKey old new) : Quiet w := by
  unfold saveKey at hw
  split at hw
  · nomatch hw
  · rw [List.mem_singleton.mp hw]
    trivial

theorem quiet_saveCeremony {old new : KeyCeremony} (hw : w ∈ saveCeremony old new) : Quiet w := by
  unfold saveCeremony at hw
  split at hw
  · nomatch hw
  · rw [List.mem_singleton.mp hw]
    trivial

theorem quiet_giveApproval {ceremony : LoadedCeremony} {custodianEmail : String}
    (hw : w ∈ (giveApproval env ceremony custodianEmail).1) : Quiet w := by
  unfold giveApproval at hw
  split at hw
  · rw [List.mem_singleton.mp hw]
    trivial
  · rw [List.mem_singleton.mp hw]
    trivial

/-- An entry of the service, with statements on its tables. -/
theorem quiet_keyOperation {audit : AppendEnv} {unflushed : List Statement}
    {severity subtype actor description : String}
    {metadataJson : List (String × JsonDocuments.Json)} (hunflushed : ∀ w ∈ unflushed, Quiet w) :
    (appendEntryInTransaction crypto audit unflushed
      (keyOperationEntry severity subtype actor description metadataJson)).Sends Quiet :=
  quiet_append hunflushed fun h => nomatch (Option.some.inj h)

theorem quiet_createKey (payload : MasterKeyCreate) (actor : String) :
    (createKey crypto env payload actor).Sends Quiet := by
  refine (assertLabelAvailable_readsOnly _).sends.bind fun _ => ?_
  refine (assertSlotExists_readsOnly _).sends.bind fun _ => ?_
  refine (quiet_keyOperation fun w hw => ?_).bind fun _ =>
    Request.sends_commit.bind fun _ => (getKey_readsOnly _ _).sends
  rcases List.mem_pair.mp hw with rfl | rfl
  · trivial
  · exact quiet_recordOperation

theorem quiet_createCeremony (payload : KeyCeremonyCreate) (actor : String) :
    (createCeremony crypto env payload actor).Sends Quiet := by
  refine (getKeyOrm_readsOnly _).sends.bind fun target => ?_
  refine (ensure_readsOnly _ _).sends.bind fun _ => ?_
  refine (predecessorOf_readsOnly _ _).sends.bind fun predecessor => ?_
  refine (Request.sends_select _).bind fun _ => ?_
  refine (ensure_readsOnly _ _).sends.bind fun _ => ?_
  refine (ensure_readsOnly _ _).sends.bind fun _ => ?_
  refine (Request.sends_send fun _ => List.forall_mem_singleton.mpr trivial).bind fun _ => ?_
  refine (quiet_keyOperation fun _ hw => absurd hw List.not_mem_nil).bind fun _ => ?_
  exact Request.sends_commit.bind fun _ => (loadRelationships_readsOnly _).sends

theorem quiet_approveCeremony (ceremonyId : Uuid) (custodianEmail : String) :
    (approveCeremony crypto env ceremonyId custodianEmail).Sends Quiet := by
  refine (loadPendingCeremony_readsOnly _).sends.bind fun ceremony => ?_
  refine Request.Sends.bind ?_ fun _ =>
    Request.sends_commit.bind fun _ => (loadRelationships_readsOnly _).sends
  unfold recordApproval
  split
  · trivial
  · exact (quiet_keyOperation fun _ => quiet_giveApproval).bind fun _ => trivial

theorem quiet_completeCeremony (ceremonyId : Uuid) (actor : String) :
    (completeCeremony crypto env ceremonyId actor).Sends Quiet := by
  refine (loadPendingCeremony_readsOnly _).sends.bind fun loaded => ?_
  refine (ensure_readsOnly _ _).sends.bind fun _ => ?_
  refine (found_readsOnly _ _).sends.bind fun expiresAt => ?_
  refine (findPredecessor_readsOnly _).sends.bind fun predecessor => ?_
  refine (quiet_keyOperation fun _ => quiet_recorded fun w hw => ?_).bind fun _ =>
    Request.sends_commit.bind fun _ => (loadRelationships_readsOnly _).sends
  rcases List.mem_append.mp hw with hw | hw
  · obtain ⟨k, -, hk⟩ := List.mem_flatMap.mp hw
    exact quiet_saveKey hk
  · exact quiet_saveCeremony hw

theorem quiet_rotateKey (keyId : Uuid) (actor : String) (payload : MasterKeyRotateRequest) :
    (rotateKey crypto env keyId actor payload).Sends Quiet := by
  refine (getKeyOrm_readsOnly _).sends.bind fun key => ?_
  refine (ensure_readsOnly _ _).sends.bind fun _ => ?_
  refine (assertLabelAvailable_readsOnly _).sends.bind fun _ => ?_
  refine (found_readsOnly _ _).sends.bind fun expiresAt => ?_
  refine (Request.sends_send fun _ => List.forall_mem_singleton.mpr trivial).bind fun _ => ?_
  exact (quiet_keyOperation fun _ => quiet_recorded fun _ => quiet_saveKey).bind fun _ =>
    Request.sends_commit.bind fun _ => (getKey_readsOnly _ _).sends

theorem quiet_disableKey (keyId : Uuid) (actor : String) :
    (disableKey crypto env keyId actor).Sends Quiet := by
  refine (getKeyOrm_readsOnly _).sends.bind fun key => ?_
  refine (ensure_readsOnly _ _).sends.bind fun _ => ?_
  exact (quiet_keyOperation fun _ => quiet_recorded fun _ => quiet_saveKey).bind fun _ =>
    Request.sends_commit.bind fun _ => (getKey_readsOnly _ _).sends

theorem quiet_runAttestation (actor : String) :
    (runAttestation crypto env actor).Sends Quiet := by
  refine (quiet_keyOperation fun w hw => ?_).bind fun _ => Request.sends_commit.bind fun _ =>
    (Request.sends_select _).bind fun row => (found_readsOnly row _).sends
  rcases List.mem_pair.mp hw with rfl | rfl
  · trivial
  · exact quiet_recordOperation

theorem quiet_hsmRequest (r : HsmRequest) : (r.request crypto).Sends Quiet := by
  cases r with
  | createKey env payload actor => exact (quiet_createKey payload actor).answer
  | createCeremony env payload actor => exact (quiet_createCeremony payload actor).answer
  | approveCeremony env id email => exact (quiet_approveCeremony id email).answer
  | completeCeremony env id actor => exact (quiet_completeCeremony id actor).answer
  | rotateKey env id actor payload => exact (quiet_rotateKey id actor payload).answer
  | disableKey env id actor => exact (quiet_disableKey id actor).answer

end

/-! ## The configuration service -/

section

variable {crypto : AuditCrypto} {env : ConfigurationEnv} {w : Statement}

theorem quiet_saveConfiguration {old new : Configuration} (hw : w ∈ saveConfiguration old new) :
    Quiet w := by
  unfold saveConfiguration at hw
  split at hw
  · nomatch hw
  · rw [List.mem_singleton.mp hw]
    trivial

theorem quiet_archiveCurrent {id : Uuid} {current : Option Configuration}
    (hw : w ∈ archiveCurrent env id current) : Quiet w := by
  unfold archiveCurrent at hw
  split at hw
  · nomatch hw
  · split at hw
    · nomatch hw
    · exact quiet_saveConfiguration hw

/-- An activation, with its entry. -/
theorem quiet_activation {id : Uuid} {current : Option Configuration} {old new : Configuration}
    {actor subtype description : String} {metadataJson : List (String × JsonDocuments.Json)} :
    (appendEntryInTransaction crypto env.audit
      (archiveCurrent env id current ++ saveConfiguration old new)
      (configurationEntry actor subtype description metadataJson)).Sends Quiet := by
  refine quiet_append (fun w hw => ?_) fun h => nomatch (Option.some.inj h)
  rcases List.mem_append.mp hw with hw | hw
  · exact quiet_archiveCurrent hw
  · exact quiet_saveConfiguration hw

theorem ensureValid_readsOnly (payload : List (String × JsonDocuments.Json))
    (sensitiveKeys : List String) : (ensureValid payload sensitiveKeys).ReadsOnly :=
  ensure_readsOnly _ _

theorem quiet_createConfiguration (payload : ConfigurationCreate) (createdBy : String) :
    (createConfiguration crypto env payload createdBy).Sends Quiet := by
  refine (Request.sends_select _).bind fun existing => ?_
  refine (ensure_readsOnly _ _).sends.bind fun _ => ?_
  refine (ensureValid_readsOnly _ _).sends.bind fun _ => ?_
  refine (Request.sends_send fun _ => List.forall_mem_singleton.mpr trivial).bind fun _ => ?_
  exact Request.sends_commit.bind fun _ => (refreshedConfiguration_readsOnly _).sends

theorem quiet_createSuccessorVersion (configId : Uuid) (payload : ConfigurationUpdate)
    (createdBy : String) :
    (createSuccessorVersion crypto env configId payload createdBy).Sends Quiet := by
  refine (getConfigurationOrm_readsOnly _).sends.bind fun base => ?_
  refine (ensureValid_readsOnly _ _).sends.bind fun _ => ?_
  refine (Request.sends_select _).bind fun version => ?_
  refine (Request.sends_send fun _ => List.forall_mem_singleton.mpr trivial).bind fun _ => ?_
  exact Request.sends_commit.bind fun _ => (refreshedConfiguration_readsOnly _).sends

theorem quiet_activateConfiguration (configId : Uuid) (actor : String) :
    (activateConfiguration crypto env configId actor).Sends Quiet := by
  refine (getConfigurationOrm_readsOnly _).sends.bind fun config => ?_
  refine (ensure_readsOnly _ _).sends.bind fun _ => ?_
  refine (Request.sends_select _).bind fun current => ?_
  refine quiet_activation.bind fun _ => ?_
  exact Request.sends_commit.bind fun _ => (refreshedConfiguration_readsOnly _).sends

theorem quiet_archiveConfiguration (configId : Uuid) :
    (archiveConfiguration env configId).Sends Quiet := by
  refine (getConfigurationOrm_readsOnly _).sends.bind fun config => ?_
  refine (ensure_readsOnly _ _).sends.bind fun _ => ?_
  refine (Request.sends_send fun _ _ => quiet_saveConfiguration).bind fun _ => ?_
  exact Request.sends_commit.bind fun _ => (refreshedConfiguration_readsOnly _).sends

theorem quiet_rollbackConfiguration (configId : Uuid) (actor : String) :
    (rollbackConfiguration crypto env configId actor).Sends Quiet := by
  refine (getConfigurationOrm_readsOnly _).sends.bind fun base => ?_
  refine (Request.sends_select _).bind fun version => ?_
  refine (Request.sends_send fun _ => List.forall_mem_singleton.mpr trivial).bind fun _ => ?_
  refine (Request.sends_select _).bind fun current => ?_
  refine quiet_activation.bind fun _ => ?_
  exact Request.sends_commit.bind fun _ => (refreshedConfiguration_readsOnly _).sends

theorem quiet_deleteConfiguration (configId : Uuid) :
    (deleteConfiguration env configId).Sends Quiet := by
  refine (getConfigurationOrm_readsOnly _).sends.bind fun config => ?_
  refine (ensure_readsOnly _ _).sends.bind fun _ => ?_
  exact (Request.sends_send fun _ _ => quiet_saveConfiguration).bind fun _ => Request.sends_commit

theorem quiet_importItems (createdBy : String) (k : ℕ) (items : List ConfigurationImportItem) :
    (importItems crypto env createdBy k items).Sends Quiet := by
  induction items generalizing k with
  | nil => trivial
  | cons item items ih =>
    rw [importItems]
    split
    · exact (ih (k + 1)).bind fun _ => trivial
    · refine (Request.sends_select _).bind fun version => ?_
      refine (Request.sends_send fun _ => List.forall_mem_singleton.mpr trivial).bind fun _ => ?_
      exact (ih (k + 1)).bind fun _ => trivial

theorem quiet_importConfigurations (req : ConfigurationImportRequest) (createdBy : String) :
    (importConfigurations crypto env req createdBy).Sends Quiet :=
  (quiet_importItems _ _ _).bind fun _ => Request.sends_commit.bind fun _ => trivial

theorem quiet_configurationRequest (r : ConfigurationRequest) :
    (r.request crypto).Sends Quiet := by
  cases r with
  | create env payload createdBy => exact (quiet_createConfiguration payload createdBy).answer
  | createSuccessor env id payload createdBy =>
    exact (quiet_createSuccessorVersion id payload createdBy).answer
  | activate env id actor => exact (quiet_activateConfiguration id actor).answer
  | archive env id => exact (quiet_archiveConfiguration id).answer
  | rollback env id actor => exact (quiet_rollbackConfiguration id actor).answer
  | delete env id => exact quiet_deleteConfiguration id
  | importAll env req createdBy => exact (quiet_importConfigurations req createdBy).answer

end

/-! ## The parameters -/

section

variable {crypto : AuditCrypto} {tables : CharacterTables} {env : ConfigManagerEnv} {w : Statement}

theorem quiet_saveParameter {old new : ConfigParameter} (hw : w ∈ saveParameter old new) :
    Quiet w := by
  unfold saveParameter at hw
  split at hw
  · nomatch hw
  · rw [List.mem_singleton.mp hw]
    trivial

theorem quiet_saveChange {old new : ConfigChange} (hw : w ∈ saveChange old new) : Quiet w := by
  unfold saveChange at hw
  split at hw
  · nomatch hw
  · rw [List.mem_singleton.mp hw]
    trivial

theorem getParameter_readsOnly (id : Uuid) (error : ServiceError) :
    (getParameter id error).ReadsOnly :=
  (Request.readsOnly_select _).bind fun parameter => found_readsOnly parameter _

theorem quiet_stageConfigChange (parameterId : Uuid) (payload : ConfigParameterStage) :
    (stageConfigChange tables env parameterId payload).Sends Quiet := by
  refine (getParameter_readsOnly _ _).sends.bind fun parameter => ?_
  refine (ensure_readsOnly _ _).sends.bind fun _ => ?_
  refine (Request.sends_send fun _ w hw => ?_).bind fun _ =>
    Request.sends_commit.bind fun _ => (getParameter_readsOnly _ _).sends
  unfold stageStatements at hw
  split at hw
  · exact quiet_saveParameter hw
  · rcases List.mem_append.mp hw with hw | hw
    · exact quiet_saveParameter hw
    · rw [List.mem_singleton.mp hw]
      trivial

theorem quiet_revertConfigChange (parameterId : Uuid) :
    (revertConfigChange env parameterId).Sends Quiet := by
  refine (getParameter_readsOnly _ _).sends.bind fun parameter => ?_
  refine (Request.sends_select _).bind fun changes => ?_
  refine (Request.sends_send fun _ w hw => ?_).bind fun _ =>
    Request.sends_commit.bind fun _ => (getParameter_readsOnly _ _).sends
  rcases List.mem_append.mp hw with hw | hw
  · exact quiet_saveParameter hw
  · obtain ⟨c, -, hc⟩ := List.mem_flatMap.mp hw
    exact quiet_saveChange hc

theorem quiet_applyParameters (changedBy : String) (k : ℕ) (parameters : List ConfigParameter) :
    (applyParameters crypto tables env changedBy k parameters).Sends Quiet := by
  induction parameters generalizing k with
  | nil => trivial
  | cons parameter parameters ih =>
    refine (Request.sends_select _).bind fun changes => ?_
    have htype : auditEventTypeColumn.bind
        (parameterUpdatedEntry tables changedBy parameter).eventType ≠ some .anomalyDetected :=
      fun h => nomatch (Option.some.inj h)
    refine (quiet_append (fun w hw => ?_) htype).bind fun _ => (ih (k + 1)).bind fun _ => trivial
    rcases List.mem_append.mp hw with hw | hw
    · exact quiet_saveParameter hw
    · obtain ⟨c, -, hc⟩ := List.mem_flatMap.mp hw
      exact quiet_saveChange hc

theorem quiet_parameterRequest (r : ParameterRequest) : (r.request crypto tables).Sends Quiet := by
  cases r with
  | stage env id payload => exact (quiet_stageConfigChange id payload).answer
  | revert env id => exact (quiet_revertConfigChange id).answer
  | apply env changedBy =>
    refine Request.Sends.answer ((Request.sends_select _).bind fun parameters => ?_)
    exact (quiet_applyParameters changedBy 0 parameters).bind fun _ =>
      Request.sends_commit.bind fun _ => trivial

end

/-! ## Accounts and tenants -/

section

variable {crypto : AuthCrypto} {settings : AuthSettings} {env : AuthEnv}

theorem scalarOneOrNone_readsOnly {α : Type} (rows : List α) : (scalarOneOrNone rows).ReadsOnly := by
  rcases rows with _ | ⟨row, _ | ⟨row', rows⟩⟩
  · trivial
  · trivial
  · trivial

theorem userByEmail_readsOnly (email : String) : (userByEmail settings email).ReadsOnly :=
  (ensure_readsOnly _ _).bind fun _ => (Request.readsOnly_select _).bind fun rows =>
    scalarOneOrNone_readsOnly rows

theorem tokenByHash_readsOnly (rawToken : String) : (tokenByHash crypto rawToken).ReadsOnly :=
  (Request.readsOnly_select _).bind fun rows => scalarOneOrNone_readsOnly rows

theorem quiet_revokeStatements {now : CalendarTime.Instant} {tokens : List RefreshToken}
    {w : Statement} (hw : w ∈ revokeStatements now tokens) : Quiet w := by
  obtain ⟨t, -, rfl⟩ := List.mem_map.mp hw
  trivial

theorem authenticateUser_readsOnly (email password : String) :
    (authenticateUser crypto settings email password).ReadsOnly := by
  refine (userByEmail_readsOnly _).bind fun user => ?_
  cases user.filter User.isActive with
  | none => trivial
  | some user =>
    refine (found_readsOnly _ _).bind fun verified => ?_
    trivial

theorem quiet_issueRefreshToken (user : User) :
    (issueRefreshToken crypto settings env user).Sends Quiet :=
  (Request.sends_send fun _ => List.forall_mem_singleton.mpr trivial).bind fun _ =>
    Request.sends_commit.bind fun _ => trivial

theorem quiet_login (email password : String) :
    (login crypto settings env email password).Sends Quiet := by
  refine (authenticateUser_readsOnly _ _).sends.bind fun user => ?_
  refine (found_readsOnly _ _).sends.bind fun user => ?_
  exact (quiet_issueRefreshToken user).bind fun _ => trivial

theorem quiet_redeemRefreshToken (rawToken : String) :
    (redeemRefreshToken crypto env rawToken).Sends Quiet := by
  refine (tokenByHash_readsOnly _).sends.bind fun token => ?_
  cases redeemable (env.now 0) token with
  | none => trivial
  | some token =>
    refine (Request.sends_select _).bind fun user => ?_
    refine (Request.sends_send fun _ => List.forall_mem_singleton.mpr trivial).bind fun _ => ?_
    exact Request.sends_commit.bind fun _ => trivial

theorem quiet_revokeRefreshToken (rawToken : String) :
    (revokeRefreshToken crypto env rawToken).Sends Quiet := by
  refine (tokenByHash_readsOnly _).sends.bind fun token => ?_
  cases token.filter fun t => t.revokedAt.isNone with
  | none => trivial
  | some token =>
    exact (Request.sends_send fun _ => List.forall_mem_singleton.mpr trivial).bind fun _ =>
      Request.sends_commit

theorem quiet_changeOwnPassword (userId : Uuid) (currentPassword newPassword : String) :
    (changeOwnPassword crypto env userId currentPassword newPassword).Sends Quiet := by
  refine Request.Sends.bind ((Request.sends_select _).bind fun user =>
    (found_readsOnly _ _).sends) fun user => ?_
  refine (found_readsOnly _ _).sends.bind fun verified => ?_
  refine (ensure_readsOnly _ _).sends.bind fun _ => ?_
  refine (found_readsOnly _ _).sends.bind fun hashedPassword => ?_
  refine (Request.sends_select _).bind fun tokens => ?_
  refine (Request.sends_send fun _ w hw => ?_).bind fun _ => Request.sends_commit
  rcases List.mem_cons.mp hw with rfl | hw
  · trivial
  · exact quiet_revokeStatements hw

theorem quiet_createPasswordResetToken (email : String) :
    (createPasswordResetToken crypto settings env email).Sends Quiet := by
  refine (userByEmail_readsOnly _).sends.bind fun user => ?_
  cases user.filter User.isActive with
  | none => trivial
  | some user =>
    exact (Request.sends_send fun _ => List.forall_mem_singleton.mpr trivial).bind fun _ =>
      Request.sends_commit.bind fun _ => trivial

theorem quiet_resetPassword (rawToken newPassword : String) :
    (resetPassword crypto env rawToken newPassword).Sends Quiet := by
  refine Request.Sends.bind ((Request.sends_select _).bind fun rows =>
    (scalarOneOrNone_readsOnly rows).sends) fun token => ?_
  cases usable (env.now 0) token with
  | none => trivial
  | some token =>
    refine (Request.sends_select _).bind fun user => ?_
    cases user.filter User.isActive with
    | none => trivial
    | some user =>
      refine (found_readsOnly _ _).sends.bind fun hashedPassword => ?_
      refine (Request.sends_select _).bind fun tokens => ?_
      refine (Request.sends_send fun _ w hw => ?_).bind fun _ =>
        Request.sends_commit.bind fun _ => trivial
      rcases List.mem_cons.mp hw with rfl | hw
      · trivial
      · rcases List.mem_cons.mp hw with rfl | hw
        · trivial
        · exact quiet_revokeStatements hw

theorem quiet_setUserActive (userId : Uuid) (isActive : Bool) :
    (setUserActive userId isActive).Sends Quiet := by
  refine (Request.sends_select _).bind fun user => ?_
  refine (found_readsOnly _ _).sends.bind fun user => ?_
  refine (Request.sends_send fun _ w hw => ?_).bind fun _ =>
    Request.sends_commit.bind fun _ => trivial
  split at hw
  · nomatch hw
  · rw [List.mem_singleton.mp hw]
    trivial

theorem quiet_authRequest (r : AuthRequest) : (r.request crypto settings).Sends Quiet := by
  cases r with
  | login env email password => exact (quiet_login email password).answer
  | issue env user => exact (quiet_issueRefreshToken user).answer
  | redeem env rawToken => exact (quiet_redeemRefreshToken rawToken).answer
  | revoke env rawToken => exact (quiet_revokeRefreshToken rawToken).answer
  | changePassword env userId currentPassword newPassword =>
    exact (quiet_changeOwnPassword userId currentPassword newPassword).answer
  | createPasswordResetToken env email => exact (quiet_createPasswordResetToken email).answer
  | resetPassword env rawToken newPassword => exact (quiet_resetPassword rawToken newPassword).answer
  | setUserActive userId isActive => exact (quiet_setUserActive userId isActive).answer

end

theorem quiet_createTenant (env : TenancyEnv) (payload : TenantCreate) :
    (createTenant env payload).Sends Quiet := by
  refine (Request.sends_select _).bind fun duplicate => ?_
  refine (ensure_readsOnly _ _).sends.bind fun _ => ?_
  refine (Request.sends_send fun _ => List.forall_mem_singleton.mpr trivial).bind fun _ => ?_
  refine (Request.sends_send fun _ => List.forall_mem_singleton.mpr trivial).bind fun _ => ?_
  refine Request.sends_commit.bind fun _ => ?_
  exact (Request.sends_select _).bind fun row => (found_readsOnly row _).sends

end NexusEngine.QuietRequests
