import NexusEngine.HashForests
import NexusEngine.SafeServices
import NexusEngine.ApiRequests

/-!
# The log under interference

Every service appends to the log, and sessions that read the same tail fork it. The committed rows
are still a forest: a row names a row that was committed before it, its hash and its signature are
those of an append, and it has one history that starts from a first row. Where no two rows name the
same row, the log is one chain.
-/

namespace NexusEngine.AuditForest

open TransactionalRequests ReadCommittedSessions PythonText StoredColumns HashChains AuditLogTable
  Database AuditService AuditVerification AuditAppends AuditedTransactions HsmService
  HsmTransactions ConfigurationService ConfigurationTransactions ParameterService
  ParameterTransactions AnomalyService AnomalyTransactions AuditedOperations QuietRequests
  ApiRequests SafeServices

/-- The rows form a forest, and each is an append after the row that it names. -/
structure Founded (crypto : AuditCrypto) (log : List AuditLogEntry) : Prop where
  grounded : (storedChain crypto).Grounded log
  unique : (log.map AuditLogEntry.entryHash).Nodup
  appended : ∀ row ∈ log, ∃ env payload,
    AppendedAs crypto env payload row.prevHash row.sequence row

/-- The rows of one log are rows of the other. -/
def Includes (db db' : Db) : Prop := db.auditLog ⊆ db'.auditLog

/-- The statement inserts no entry. -/
def NoEntry (w : Statement) : Prop := ∀ entry n, w ≠ .insertAuditLogEntry entry n

/-- A request that appends to the log, or one of those that do not. -/
inductive LoggingRequest where
  | createAuditEntry (env : AppendEnv) (payload : AuditLogEntryCreate) (email : String)
  | audited (op : AuditedOperation)
  | other (p : Service Unit) (noEntry : p.Sends NoEntry)

def LoggingRequest.request (crypto : AuditCrypto) (tables : CharacterTables) :
    LoggingRequest → Service Unit
  | createAuditEntry env payload email => do
    let _ ← ApiRequests.createAuditEntry crypto env payload email
    return ()
  | audited op => op.request crypto tables
  | other p _ => p

/-! ## Statements -/

theorem noEntry_log {w : Statement} {db db' : Db} (hw : NoEntry w)
    (h : postgres.apply w db = some db') : db'.auditLog = db.auditLog := by
  cases w with
  | insertAuditLogEntry entry n => exact absurd rfl (hw entry n)
  | hsm statement =>
    obtain ⟨_, -, rfl⟩ := apply_hsm.mp h
    rfl
  | configuration statement =>
    obtain ⟨_, -, rfl⟩ := apply_configuration.mp h
    rfl
  | parameter statement =>
    obtain ⟨_, -, rfl⟩ := apply_parameter.mp h
    rfl
  | account statement =>
    obtain ⟨_, -, rfl⟩ := apply_account.mp h
    rfl
  | anomaly statement =>
    obtain ⟨_, -, rfl⟩ := apply_anomaly.mp h
    rfl
  | tenancy statement =>
    obtain ⟨_, -, rfl⟩ := apply_tenancy.mp h
    rfl
  | rbac statement =>
    obtain ⟨_, -, rfl⟩ := apply_rbac.mp h
    rfl
  | deleteTenant id =>
    obtain ⟨-, rfl⟩ := apply_deleteTenant.mp h
    rfl

/-- A statement leaves the log or appends the row that it stores. -/
theorem apply_log {w : Statement} {db db' : Db} (h : postgres.apply w db = some db') :
    (NoEntry w ∧ db'.auditLog = db.auditLog) ∨ ∃ entry n row,
      w = .insertAuditLogEntry entry n ∧ entry.stored n = some row ∧
        db'.auditLog = db.auditLog ++ [row] := by
  by_cases hw : NoEntry w
  · exact .inl ⟨hw, noEntry_log hw h⟩
  · simp only [NoEntry, ne_eq, not_forall, not_not] at hw
    obtain ⟨entry, n, rfl⟩ := hw
    obtain ⟨row, hstored, -, rfl⟩ := apply_insertAuditLogEntry.mp h
    exact .inr ⟨entry, n, row, rfl, hstored, rfl⟩

theorem apply_extends {w : Statement} {db db' : Db} (h : postgres.apply w db = some db') :
    db.auditLog <+: db'.auditLog := by
  rcases apply_log h with ⟨-, hlog⟩ | ⟨_, _, row, -, -, hlog⟩
  · rw [hlog]
  · rw [hlog]
    exact List.prefix_append _ _

theorem growth : Growth postgres Includes where
  refl _ := List.Subset.refl _
  trans _ _ _ h h' := List.Subset.trans h h'
  grows _ _ _ h := (apply_extends h).subset
  mono w a b a' b' hab ha hb := by
    intro r hr
    rcases apply_log ha with ⟨-, hlog⟩ | ⟨entry, n, row, rfl, hstored, hlog⟩
    · exact (apply_extends hb).subset (hab (hlog ▸ hr))
    · rcases apply_log hb with ⟨hno, -⟩ | ⟨entry', n', row', heq, hstored', hlog'⟩
      · exact absurd rfl (hno entry n)
      · cases heq
        obtain rfl := Option.some.inj (hstored.symm.trans hstored')
        rw [hlog, List.mem_append] at hr
        rw [hlog', List.mem_append]
        exact hr.imp_left fun hr => hab hr

section

variable {crypto : AuditCrypto}

theorem founded_nil : Founded crypto [] :=
  ⟨.nil, List.nodup_nil, fun _ hr => absurd hr List.not_mem_nil⟩

/-- An append after the tail of some rows of the log. -/
theorem Founded.append {log seen : List AuditLogEntry} (h : Founded crypto log)
    (hseen : seen ⊆ log) {env : AppendEnv} {payload : AuditLogEntryCreate} {n : ℕ}
    {row : AuditLogEntry} (ha : AppendedAs crypto env payload (tailHash seen) n row)
    {tenants : List TenancyTables.Tenant} (hadmits : admits tenants log row = true) :
    Founded crypto (log ++ [row]) := by
  have hwidth : ∀ r ∈ seen, r.entryHash.toList.length ≤ 64 := by
    intro r hr
    obtain ⟨_, _, hr⟩ := h.appended r (hseen hr)
    exact hr.entryHash_length
  have hprev : row.prevHash = tailHash seen := ha.prevHash_eq hwidth
  simp only [admits, Bool.and_eq_true, List.all_eq_true, bne_iff_ne, ne_eq] at hadmits
  constructor
  · apply ChainFormat.Grounded.concat h.grounded
    intro d hd
    change row.prevHash = some d at hd
    rw [hprev] at hd
    obtain ⟨p, hp, rfl⟩ := Option.map_eq_some_iff.mp hd
    exact ⟨p, hseen (mem_inSequenceOrder.mp (List.mem_of_getLast? hp)), rfl⟩
  · rw [List.map_append, List.map_singleton, List.nodup_append]
    refine ⟨h.unique, List.nodup_singleton _, ?_⟩
    intro d hd d' hd'
    obtain ⟨r, hr, rfl⟩ := List.mem_map.mp hd
    rw [List.mem_singleton.mp hd']
    exact (hadmits.1 r hr).2
  · intro r hr
    rcases List.mem_append.mp hr with hr | hr
    · exact h.appended r hr
    · obtain rfl := List.mem_singleton.mp hr
      refine ⟨env, payload, ?_⟩
      rw [hprev, ha.sequence]
      exact ha

/-! ## Requests -/

/-- The request keeps the forest, whatever other sessions commit. -/
abbrev LogsSafely {α : Type} (crypto : AuditCrypto) (p : Service α) : Prop :=
  Safe postgres Includes (fun db => Founded crypto db.auditLog) (fun _ => True) p fun _ _ => True

theorem logs_bind {α β : Type} {p : Service α} {f : α → Service β} (h : LogsSafely crypto p)
    (hf : ∀ value, LogsSafely crypto (f value)) : LogsSafely crypto (p >>= f) :=
  h.bind growth hf

theorem logs_sends {α : Type} {p : Service α} (h : p.Sends NoEntry) : LogsSafely crypto p :=
  Safe.of_sends growth stable_true h fun _ _ _ hw happly hp => (noEntry_log hw happly).symm ▸ hp

theorem logs_reads {α : Type} {p : Service α} (h : p.ReadsOnly) : LogsSafely crypto p :=
  logs_sends h.sends

theorem logs_send {statements : ℕ → List Statement} (h : ∀ n, Domain (statements n)) :
    LogsSafely crypto (Request.send statements) := by
  apply logs_sends
  apply Request.sends_send
  intro n w hw entry k heq
  have hdomain := h n w hw
  rw [heq] at hdomain
  cases hdomain

/-- The commit of a request, and what it reads for its response. -/
theorem logs_finish {α : Type} {p : Service α} (h : p.ReadsOnly) :
    LogsSafely crypto (Request.commitTransaction >>= fun _ => p) :=
  logs_sends (Request.sends_commit.bind fun _ => h.sends)

/-- The one kind of flush that writes to the log. -/
theorem logs_append {env : AppendEnv} {unflushed : List Statement} {payload : AuditLogEntryCreate}
    (hdomain : Domain unflushed) :
    LogsSafely crypto (appendEntryInTransaction crypto env unflushed payload) := by
  apply safe_append growth stable_true
  intro view mid after signature n _ hview hfounded hsign happly
  obtain ⟨sent, row, hsent, hstored, hadmits, rfl⟩ := applyAll_insertAuditLogEntry happly
  have hlog := (applyAll_sameLog hdomain hsent).auditLog
  rw [hlog] at hadmits ⊢
  exact hfounded.append hview (newEntry_stored hsign hstored) hadmits

/-! ### The HSM service -/

theorem createKey_logs (env : HsmEnv) (payload : MasterKeyCreate) (actor : String) :
    LogsSafely crypto (createKey crypto env payload actor) := by
  apply logs_bind (logs_reads (assertLabelAvailable_readsOnly _))
  intro _
  apply logs_bind (logs_reads (assertSlotExists_readsOnly _))
  intro _
  apply logs_bind (logs_append (domain_cons.mpr ⟨rfl, domain_recordOperation⟩))
  intro _
  exact logs_finish (getKey_readsOnly _ _)

theorem createCeremony_logs (env : HsmEnv) (payload : KeyCeremonyCreate) (actor : String) :
    LogsSafely crypto (createCeremony crypto env payload actor) := by
  apply logs_bind (logs_reads (getKeyOrm_readsOnly _))
  intro _
  apply logs_bind (logs_reads (ensure_readsOnly _ _))
  intro _
  apply logs_bind (logs_reads (predecessorOf_readsOnly _ _))
  intro _
  apply logs_bind (logs_reads (Request.readsOnly_select _))
  intro _
  apply logs_bind (logs_reads (ensure_readsOnly _ _))
  intro _
  apply logs_bind (logs_reads (ensure_readsOnly _ _))
  intro _
  apply logs_bind (logs_send fun _ => domain_singleton rfl)
  intro _
  apply logs_bind (logs_append domain_nil)
  intro _
  exact logs_finish (loadRelationships_readsOnly _)

theorem recordApproval_logs (env : HsmEnv) (ceremony : LoadedCeremony) (custodianEmail : String) :
    LogsSafely crypto (recordApproval crypto env ceremony custodianEmail) := by
  unfold recordApproval
  split
  · exact logs_reads trivial
  · apply logs_bind (logs_append domain_giveApproval)
    intro _
    exact logs_reads trivial

theorem approveCeremony_logs (env : HsmEnv) (ceremonyId : Uuid) (custodianEmail : String) :
    LogsSafely crypto (approveCeremony crypto env ceremonyId custodianEmail) := by
  apply logs_bind (logs_reads (loadPendingCeremony_readsOnly _))
  intro _
  apply logs_bind (recordApproval_logs _ _ _)
  intro _
  exact logs_finish (loadRelationships_readsOnly _)

theorem completeCeremony_logs (env : HsmEnv) (ceremonyId : Uuid) (actor : String) :
    LogsSafely crypto (completeCeremony crypto env ceremonyId actor) := by
  apply logs_bind (logs_reads (loadPendingCeremony_readsOnly _))
  intro _
  apply logs_bind (logs_reads (ensure_readsOnly _ _))
  intro _
  apply logs_bind (logs_reads (found_readsOnly _ _))
  intro _
  apply logs_bind (logs_reads (findPredecessor_readsOnly _))
  intro _
  apply logs_bind (logs_append (domain_append.mpr
    ⟨domain_append.mpr ⟨domain_saveKeys, domain_saveCeremony⟩, domain_recordOperation⟩))
  intro _
  exact logs_finish (loadRelationships_readsOnly _)

theorem rotateKey_logs (env : HsmEnv) (keyId : Uuid) (actor : String)
    (payload : MasterKeyRotateRequest) :
    LogsSafely crypto (rotateKey crypto env keyId actor payload) := by
  apply logs_bind (logs_reads (getKeyOrm_readsOnly _))
  intro _
  apply logs_bind (logs_reads (ensure_readsOnly _ _))
  intro _
  apply logs_bind (logs_reads (assertLabelAvailable_readsOnly _))
  intro _
  apply logs_bind (logs_reads (found_readsOnly _ _))
  intro _
  apply logs_bind (logs_send fun _ => domain_singleton rfl)
  intro _
  apply logs_bind (logs_append (domain_append.mpr ⟨domain_saveKey, domain_recordOperation⟩))
  intro _
  exact logs_finish (getKey_readsOnly _ _)

theorem disableKey_logs (env : HsmEnv) (keyId : Uuid) (actor : String) :
    LogsSafely crypto (disableKey crypto env keyId actor) := by
  apply logs_bind (logs_reads (getKeyOrm_readsOnly _))
  intro _
  apply logs_bind (logs_reads (ensure_readsOnly _ _))
  intro _
  apply logs_bind (logs_append (domain_append.mpr ⟨domain_saveKey, domain_recordOperation⟩))
  intro _
  exact logs_finish (getKey_readsOnly _ _)

theorem hsmRequest_logs (r : HsmRequest) : LogsSafely crypto (r.request crypto) := by
  cases r with
  | createKey env payload actor => exact safe_answer growth (createKey_logs env payload actor)
  | createCeremony env payload actor =>
    exact safe_answer growth (createCeremony_logs env payload actor)
  | approveCeremony env id email => exact safe_answer growth (approveCeremony_logs env id email)
  | completeCeremony env id actor => exact safe_answer growth (completeCeremony_logs env id actor)
  | rotateKey env id actor payload => exact safe_answer growth (rotateKey_logs env id actor payload)
  | disableKey env id actor => exact safe_answer growth (disableKey_logs env id actor)

theorem runAttestation_logs (env : HsmEnv) (actor : String) :
    LogsSafely crypto (runAttestation crypto env actor) := by
  apply logs_bind (logs_append (domain_cons.mpr ⟨rfl, domain_recordOperation⟩))
  intro _
  exact logs_finish ((Request.readsOnly_select _).bind fun row => found_readsOnly row _)

/-! ### The other services -/

theorem activateConfiguration_logs (env : ConfigurationEnv) (configId : Uuid) (actor : String) :
    LogsSafely crypto (activateConfiguration crypto env configId actor) := by
  apply logs_bind (logs_reads (getConfigurationOrm_readsOnly _))
  intro _
  apply logs_bind (logs_reads (ensure_readsOnly _ _))
  intro _
  apply logs_bind (logs_reads (Request.readsOnly_select _))
  intro _
  apply logs_bind
    (logs_append (domain_append.mpr ⟨domain_archiveCurrent, domain_saveConfiguration⟩))
  intro _
  exact logs_finish (refreshedConfiguration_readsOnly _)

theorem rollbackConfiguration_logs (env : ConfigurationEnv) (configId : Uuid) (actor : String) :
    LogsSafely crypto (rollbackConfiguration crypto env configId actor) := by
  apply logs_bind (logs_reads (getConfigurationOrm_readsOnly _))
  intro _
  apply logs_bind (logs_reads (Request.readsOnly_select _))
  intro _
  apply logs_bind (logs_send fun _ => domain_singleton rfl)
  intro _
  apply logs_bind (logs_reads (Request.readsOnly_select _))
  intro _
  apply logs_bind
    (logs_append (domain_append.mpr ⟨domain_archiveCurrent, domain_saveConfiguration⟩))
  intro _
  exact logs_finish (refreshedConfiguration_readsOnly _)

theorem applyParameters_logs (tables : CharacterTables) (env : ConfigManagerEnv)
    (changedBy : String) (k : ℕ) (parameters : List ParameterTables.ConfigParameter) :
    LogsSafely crypto (applyParameters crypto tables env changedBy k parameters) := by
  induction parameters generalizing k with
  | nil => exact logs_reads trivial
  | cons parameter parameters ih =>
    apply logs_bind (logs_reads (Request.readsOnly_select _))
    intro changes
    apply logs_bind (logs_append domain_promoteStatements)
    intro _
    apply logs_bind (ih (k + 1))
    intro _
    exact logs_reads trivial

theorem transition_logs (now : CalendarTime.Instant) (audit : AppendEnv)
    (status : AnomalyTables.AnomalyStatus) (actor : Option String)
    (event : AnomalyTables.AnomalyEvent) :
    LogsSafely crypto (transition crypto now audit status actor event) := by
  apply logs_bind (logs_send fun _ => domain_saveAnomalyEvent)
  intro _
  exact safe_answer growth (logs_append domain_nil)

theorem transitionAll_logs (env : AnomalyEnv) (status : AnomalyTables.AnomalyStatus)
    (actor : Option String) (k : ℕ) (events : List AnomalyTables.AnomalyEvent) :
    LogsSafely crypto (transitionAll crypto env status actor k events) := by
  induction events generalizing k with
  | nil => exact logs_reads trivial
  | cons event events ih =>
    apply logs_bind (transition_logs _ _ _ _ _)
    intro _
    exact ih (k + 1)

theorem createAnomalyEvent_logs (env : AnomalyEnv) (payload : AnomalyEventCreate)
    (actor : Option String) : LogsSafely crypto (createAnomalyEvent crypto env payload actor) := by
  apply logs_bind (logs_send fun _ => domain_singleton rfl)
  intro _
  apply logs_bind (logs_append domain_nil)
  intro _
  exact logs_finish (refreshedEvent_readsOnly _)

theorem updateAnomalyStatus_logs (env : AnomalyEnv) (eventId : Uuid)
    (status : AnomalyTables.AnomalyStatus) (actor : Option String) :
    LogsSafely crypto (updateAnomalyStatus crypto env eventId status actor) := by
  apply logs_bind (logs_reads (Request.readsOnly_select _))
  intro event
  cases event with
  | none => exact logs_reads trivial
  | some event =>
    apply logs_bind (transition_logs _ _ _ _ _)
    intro _
    exact logs_finish ((refreshedEvent_readsOnly _).bind fun _ => trivial)

theorem bulkUpdateAnomalyStatus_logs (env : AnomalyEnv) (eventIds : List Uuid)
    (status : AnomalyTables.AnomalyStatus) (actor : Option String) :
    LogsSafely crypto (bulkUpdateAnomalyStatus crypto env eventIds status actor) := by
  apply logs_bind (logs_reads (Request.readsOnly_select _))
  intro _
  apply logs_bind (transitionAll_logs _ _ _ _ _)
  intro _
  exact logs_finish trivial

theorem anomalyRequest_logs (r : AnomalyRequest) : LogsSafely crypto (r.request crypto) := by
  cases r with
  | create env payload actor => exact safe_answer growth (createAnomalyEvent_logs env payload actor)
  | updateStatus env id status actor =>
    exact safe_answer growth (updateAnomalyStatus_logs env id status actor)
  | bulkUpdateStatus env ids status actor =>
    exact safe_answer growth (bulkUpdateAnomalyStatus_logs env ids status actor)

theorem audited_logs (tables : CharacterTables) (op : AuditedOperation) :
    LogsSafely crypto (op.request crypto tables) := by
  cases op with
  | applyPendingChanges env changedBy =>
    apply safe_answer growth
    apply logs_bind (logs_reads (Request.readsOnly_select _))
    intro _
    apply logs_bind (applyParameters_logs tables env changedBy 0 _)
    intro _
    exact logs_finish trivial
  | anomaly r => exact anomalyRequest_logs r
  | activateConfiguration env id actor =>
    exact safe_answer growth (activateConfiguration_logs env id actor)
  | rollbackConfiguration env id actor =>
    exact safe_answer growth (rollbackConfiguration_logs env id actor)
  | key r => exact hsmRequest_logs r
  | runAttestation env actor => exact safe_answer growth (runAttestation_logs env actor)

theorem createAuditEntry_logs (env : AppendEnv) (payload : AuditLogEntryCreate) (email : String) :
    LogsSafely crypto (createAuditEntry crypto env payload email) := by
  apply logs_bind (logs_append domain_nil)
  intro entry
  apply logs_finish
  refine (Request.readsOnly_select _).bind fun row => ?_
  cases row with
  | none => trivial
  | some row => trivial

theorem request_logs (tables : CharacterTables) (r : LoggingRequest) :
    LogsSafely crypto (r.request crypto tables) := by
  cases r with
  | createAuditEntry env payload email =>
    exact safe_answer growth (createAuditEntry_logs env payload email)
  | audited op => exact audited_logs tables op
  | other p noEntry => exact logs_sends noEntry

/-! ## Interleavings -/

/-- The committed log only grows at its end. -/
theorem committed_prefix {α : Type} {cond : Db → List Statement → Prop}
    {σ σ' : Server Db Statement ServiceError α} (h : Server.Reaches postgres cond σ σ') :
    σ.committed.auditLog <+: σ'.committed.auditLog := by
  induction h with
  | refl => exact List.prefix_rfl
  | step _ move _ ih =>
    obtain ⟨i, s, -, effect⟩ := Server.step_effect move
    cases effect with
    | moved => exact ih
    | dropped => exact ih
    | flushed => exact ih
    | committed next view _ _ accepted =>
      exact postgres.applyAll_preserves (P := fun db => σ.committed.auditLog <+: db.auditLog)
        (fun _ _ _ _ happly hbefore => hbefore.trans (apply_extends happly)) accepted ih

end

/-- Two entries whose sessions read the empty log before either inserts. -/
def sampleEntries : List LoggingRequest :=
  [.createAuditEntry (sampleEnv 0) (samplePayload "info" "first event") "tester",
    .createAuditEntry (sampleEnv 1) (samplePayload "info" "second event") "tester"]

end NexusEngine.AuditForest
