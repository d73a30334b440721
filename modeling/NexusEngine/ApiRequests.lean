import NexusEngine.AnomalyHistory
import NexusEngine.QuietRequests

/-!
# Requests to the application

Every user can append an entry to the audit log, of any type and with any metadata. The anomaly
service appends entries about anomalies, and the requests of the other services none.
-/

namespace NexusEngine.ApiRequests

open TransactionalRequests PythonText JsonDocuments StoredColumns KeyedTables AnomalyTables
  AuditLogTable Database AuditService AuditAppends AnomalyService AnomalyLifecycle HsmService
  ConfigurationService ParameterService AuthService TenancyService AuditedOperations QuietRequests
  AnomalyHistory

/-- What a deployment fixes. -/
structure Application where
  crypto : AuditCrypto
  tables : CharacterTables
  authCrypto : AuthCrypto
  settings : AuthSettings

/-- An entry without an actor has the user who sends it. -/
def withActor (email : String) (payload : AuditLogEntryCreate) : AuditLogEntryCreate :=
  if payload.actor = "" then { payload with actor := email } else payload

def createAuditEntry (crypto : AuditCrypto) (env : AppendEnv) (payload : AuditLogEntryCreate)
    (email : String) : Service AuditLogEntry :=
  appendEntry crypto env (withActor email payload)

/-- `other` is a request to one of the endpoints that write neither anomalies nor entries about
them. -/
inductive ApiRequest where
  | createAuditEntry (env : AppendEnv) (payload : AuditLogEntryCreate) (email : String)
  | anomaly (r : AnomalyRequest)
  | configuration (r : ConfigurationRequest)
  | parameter (r : ParameterRequest)
  | key (r : HsmRequest)
  | runAttestation (env : HsmEnv) (actor : String)
  | auth (r : AuthRequest)
  | createTenant (env : TenancyEnv) (payload : TenantCreate)
  | deleteTenant (tenantId : Uuid)
  | other (p : Service Unit) (quiet : p.Sends Quiet)

/-- The request, without its response. -/
def ApiRequest.request (app : Application) : ApiRequest → Service Unit
  | createAuditEntry env payload email => do
    let _ ← ApiRequests.createAuditEntry app.crypto env payload email
    return ()
  | anomaly r => r.request app.crypto
  | configuration r => r.request app.crypto
  | parameter r => r.request app.crypto app.tables
  | key r => r.request app.crypto
  | runAttestation env actor => do
    let _ ← HsmService.runAttestation app.crypto env actor
    return ()
  | auth r => do
    let _ ← r.request app.authCrypto app.settings
    return ()
  | createTenant env payload => do
    let _ ← TenancyService.createTenant env payload
    return ()
  | deleteTenant tenantId => TenancyService.deleteTenant tenantId
  | other p _ => p

/-! ## Rows that are appended -/

/-- The row that an append adds: the hash is signed, every value fits its column, and the log takes
the row. -/
def appendedRow (crypto : AuditCrypto) (env : AppendEnv) (payload : AuditLogEntryCreate) (db : Db)
    (n : ℕ) : Option AuditLogEntry := do
  let before := tailHash db.auditLog
  let signature ← crypto.signHexDigest env.nonce
    (crypto.computeEntryHash before (payloadFields env.now payload))
  let row ← (newEntry crypto env before payload signature).stored n
  if admits db.tenancy.tenants.rows db.auditLog row then some row else none

/-- The row that the ingestion of an anomaly adds, where the table takes the event. -/
def createdRow (crypto : AuditCrypto) (env : AnomalyEnv) (payload : AnomalyEventCreate)
    (actor : Option String) (db : Db) (n : ℕ) : Option AuditLogEntry :=
  (postgres.apply (.anomaly (.insertEvent (newAnomalyEvent env payload))) db).bind fun db' =>
    appendedRow crypto (env.audit 0) (createdEntry actor (newAnomalyEvent env payload)) db' (n + 1)

/-- The row that a request adds with metadata of the caller's choice. -/
def addedRow (app : Application) (s : Store Db) : ApiRequest → Option AuditLogEntry
  | .createAuditEntry env payload email =>
    appendedRow app.crypto env (withActor email payload) s.db s.sequence
  | .anomaly (.create env payload actor) =>
    createdRow app.crypto env payload actor s.db s.sequence
  | _ => none

section

variable {crypto : AuditCrypto} {env : AppendEnv} {payload : AuditLogEntryCreate}
  {durable work : Db} {n : ℕ}

theorem appendedRow_eq_some {row : AuditLogEntry} :
    appendedRow crypto env payload work n = some row ↔ ∃ signature,
      crypto.signHexDigest env.nonce (crypto.computeEntryHash (tailHash work.auditLog)
        (payloadFields env.now payload)) = some signature ∧
      (newEntry crypto env (tailHash work.auditLog) payload signature).stored n = some row ∧
      admits work.tenancy.tenants.rows work.auditLog row = true := by
  simp only [appendedRow, Option.bind_eq_bind, Option.bind_eq_some_iff,
    Option.ite_none_right_eq_some, Option.some.injEq]
  refine exists_congr fun signature => and_congr_right fun _ => ?_
  constructor
  · rintro ⟨_, hstored, hadmits, rfl⟩
    exact ⟨hstored, hadmits⟩
  · rintro ⟨hstored, hadmits⟩
    exact ⟨row, hstored, hadmits, rfl⟩

theorem appendedRow_appendedAs {row : AuditLogEntry}
    (h : appendedRow crypto env payload work n = some row) :
    AppendedAs crypto env payload (tailHash work.auditLog) n row := by
  obtain ⟨signature, hsign, hstored, -⟩ := appendedRow_eq_some.mp h
  exact newEntry_stored hsign hstored

/-- The exact rule of an append without other statements. -/
theorem appendEntryInTransaction_exact
    {post : Except ServiceError AuditLogEntry → Db → Db → ℕ → Prop}
    (failed : ∀ error k, appendedRow crypto env payload work n = none →
      post (.error error) durable work k)
    (appended : ∀ row, appendedRow crypto env payload work n = some row →
      post (.ok row) durable { work with auditLog := work.auditLog ++ [row] } (n + 1)) :
    (appendEntryInTransaction crypto env [] payload).wp postgres post durable work n := by
  rw [appendEntryInTransaction_eq]
  refine (Request.wp_bind ..).mpr ?_
  rw [Request.wp_select]
  refine (Request.wp_bind ..).mpr (wp_found.mpr
    ⟨fun hnone => failed _ _ ?_, fun signature hsign => ?_⟩)
  · refine Option.eq_none_iff_forall_ne_some.mpr fun row hrow => ?_
    obtain ⟨_, hsign, -⟩ := appendedRow_eq_some.mp hrow
    cases hnone.symm.trans hsign
  refine (Request.wp_bind ..).mpr (Request.wp_send.mpr
    ⟨fun hnone => failed _ _ ?_, fun work' hwork => ?_⟩)
  · refine Option.eq_none_iff_forall_ne_some.mpr fun row hrow => ?_
    obtain ⟨signature', hsign', hstored, hadmits⟩ := appendedRow_eq_some.mp hrow
    obtain rfl := Option.some.inj (hsign.symm.trans hsign')
    rw [List.nil_append, StatementSemantics.applyAll_singleton,
      apply_insertAuditLogEntry.mpr ⟨row, hstored, hadmits, rfl⟩] at hnone
    cases hnone
  · obtain ⟨sent, row, hsent, hstored, hadmits, rfl⟩ := applyAll_insertAuditLogEntry hwork
    cases hsent
    have hrow := appendedRow_eq_some.mpr ⟨signature, hsign, hstored, hadmits⟩
    have hid : (newEntry crypto env (tailHash work.auditLog) payload signature).id = row.id :=
      (newEntry_stored hsign hstored).id.symm
    refine (Request.wp_bind ..).mpr ?_
    rw [Request.wp_select, hid]
    exact wp_found_of_some (find?_append_row hadmits) (appended row hrow)

/-- What an append leaves. -/
def Appends (db : Db) (row : Option AuditLogEntry) (db' : Db) : Prop :=
  db'.anomalies = db.anomalies ∧ db'.auditLog = db.auditLog ++ row.toList

theorem appends_none (db : Db) : Appends db none db := ⟨rfl, (List.append_nil _).symm⟩

/-- The rule of the endpoint. -/
theorem createAuditEntry_exact {email : String} :
    (createAuditEntry crypto env payload email).wp postgres (fun _ durable' _ _ =>
      Appends work (appendedRow crypto env (withActor email payload) work n) durable')
      work work n := by
  refine (Request.wp_bind ..).mpr (appendEntryInTransaction_exact (fun _ _ hnone => ?_)
    fun row hrow => ?_)
  · rw [hnone]
    exact appends_none work
  · have hdurable : Appends work (appendedRow crypto env (withActor email payload) work n)
        { work with auditLog := work.auditLog ++ [row] } := by
      rw [hrow]
      exact ⟨rfl, rfl⟩
    refine Request.wp_commitTransaction_bind ((Request.wp_bind ..).mpr ?_)
    rw [Request.wp_select]
    dsimp only
    split
    · exact Request.wp_raise .. ▸ hdurable
    · exact Request.wp_return hdurable

/-- What an ingestion leaves. -/
inductive Ingests (crypto : AuditCrypto) (env : AnomalyEnv) (payload : AnomalyEventCreate)
    (actor : Option String) (db : Db) : Option AuditLogEntry → Db → Prop where
  | failed : Ingests crypto env payload actor db none db
  | created {stored : AnomalyEvent} {before : Option String} {n : ℕ} {row : AuditLogEntry} {db' : Db}
      (isStored : StoredEvent (newAnomalyEvent env payload) stored)
      (inserted : db'.anomalies.rows = db.anomalies.rows ++ [stored])
      (appended : AppendedAs crypto (env.audit 0)
        (createdEntry actor (newAnomalyEvent env payload)) before n row)
      (logged : db'.auditLog = db.auditLog ++ [row]) :
      Ingests crypto env payload actor db (some row) db'

/-- The rule of an ingestion. -/
theorem createAnomalyEvent_exact {env : AnomalyEnv} {payload : AnomalyEventCreate}
    {actor : Option String} :
    (createAnomalyEvent crypto env payload actor).wp postgres (fun _ durable' _ _ =>
      Ingests crypto env payload actor work (createdRow crypto env payload actor work n) durable')
      work work n := by
  refine (Request.wp_bind ..).mpr (Request.wp_send.mpr ⟨fun hnone => ?_, fun work' hwork => ?_⟩)
  · rw [StatementSemantics.applyAll_singleton] at hnone
    rw [createdRow, hnone]
    exact .failed
  rw [StatementSemantics.applyAll_singleton] at hwork
  refine (Request.wp_bind ..).mpr (appendEntryInTransaction_exact (fun _ _ hnone => ?_)
    fun row hrow => ?_)
  · rw [createdRow, hwork, Option.bind_some, hnone]
    exact .failed
  obtain ⟨anomalies, hanomalies, rfl⟩ := apply_anomaly.mp hwork
  obtain ⟨stored, hstored, -, hrows⟩ := insertAnomalyEvent_eq_some hanomalies
  have hdurable : Ingests crypto env payload actor work
      (createdRow crypto env payload actor work n)
      { work with anomalies := anomalies, auditLog := work.auditLog ++ [row] } := by
    rw [createdRow, hwork, Option.bind_some, hrow]
    exact .created hstored hrows (appendedRow_appendedAs hrow) rfl
  refine Request.wp_commitTransaction_bind ((Request.wp_bind ..).mpr ?_)
  rw [Request.wp_select]
  exact wp_found.mpr ⟨fun _ => hdurable, fun _ _ => hdurable⟩

end

/-! ## Requests of the other services -/

/-- What the entries about an anomaly take from it, and no update changes. -/
def subject (e : AnomalyEvent) : Uuid × String × List (String × Json) :=
  (e.id, e.category, e.metadataJson)

/-- The subjects of entries and the entries about them are the same. -/
structure SameSubjects (db db' : Db) : Prop where
  subjects : db'.anomalies.rows.map subject = db.anomalies.rows.map subject
  log : ∀ p : AuditLogEntry → Bool, (∀ row, p row = true → row.eventType = .anomalyDetected) →
    db'.auditLog.filter p = db.auditLog.filter p

theorem SameSubjects.refl (db : Db) : SameSubjects db db := ⟨rfl, fun _ _ => rfl⟩

theorem SameSubjects.trans {db₁ db₂ db₃ : Db} (h : SameSubjects db₁ db₂)
    (h' : SameSubjects db₂ db₃) : SameSubjects db₁ db₃ where
  subjects := h'.subjects.trans h.subjects
  log p hp := (h'.log p hp).trans (h.log p hp)

theorem subjects_clearTenant (id : Uuid) (t : AnomalyEvents) :
    (clearTenant id t).rows.map subject = t.rows.map subject := by
  refine (List.map_map ..).trans (List.map_congr_left fun e _ => ?_)
  dsimp only [Function.comp]
  split
  · rfl
  · rfl

/-- The statement is quiet, or it deletes a tenant. -/
def Mild (w : Statement) : Prop := Quiet w ∨ ∃ id, w = .deleteTenant id

theorem Mild.apply {w : Statement} (h : Mild w) {db db' : Db}
    (happly : postgres.apply w db = some db') : SameSubjects db db' := by
  rcases h with hquiet | ⟨id, rfl⟩
  · have hsame := hquiet.apply happly
    exact ⟨congrArg (fun t : AnomalyEvents => t.rows.map subject) hsame.anomalies, hsame.log⟩
  · obtain ⟨-, rfl⟩ := apply_deleteTenant.mp happly
    exact ⟨subjects_clearTenant id _, fun _ _ => rfl⟩

theorem exec_sameSubjects {α : Type} {p : Service α} (h : p.Sends Mild) (s : Store Db) :
    SameSubjects s.db (s.exec postgres p).db :=
  Store.exec_rel .refl .trans (fun _ _ _ hw happly => hw.apply happly) h s

theorem mild_of_quiet {α : Type} {p : Service α} (h : p.Sends Quiet) : p.Sends Mild :=
  h.mono fun _ => .inl

theorem getTenant_readsOnly (tenantId : Uuid) : (getTenant tenantId).ReadsOnly :=
  (Request.readsOnly_select _).bind fun tenant => found_readsOnly tenant _

theorem mild_deleteStatements {s : TenancyTables.TenancyStore} {tenantId : Uuid} {w : Statement}
    (hw : w ∈ deleteStatements s tenantId) : Mild w := by
  simp only [deleteStatements, List.mem_append, List.mem_map, List.mem_singleton] at hw
  rcases hw with (((⟨_, -, rfl⟩ | ⟨_, -, rfl⟩) | ⟨_, -, rfl⟩) | ⟨_, -, rfl⟩) | rfl
  · exact .inl trivial
  · exact .inl trivial
  · exact .inl trivial
  · exact .inl trivial
  · exact .inr ⟨tenantId, rfl⟩

theorem mild_deleteTenant (tenantId : Uuid) : (TenancyService.deleteTenant tenantId).Sends Mild := by
  refine (getTenant_readsOnly _).sends.bind fun tenant => ?_
  -- the statements are those of the database that the query sees
  intro db
  exact (Request.sends_send fun _ _ hw => mild_deleteStatements hw).bind fun _ =>
    Request.sends_commit

end NexusEngine.ApiRequests
