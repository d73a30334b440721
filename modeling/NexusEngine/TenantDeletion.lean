import NexusEngine.AnomalyLifecycle
import NexusEngine.TenancyLifecycle

/-!
# Deleting a tenant under an append-only log

The trigger of the audit log stops the delete of a tenant that a row of the log refers to. Such a
row is left by every append and every anomaly that names the tenant, and by nothing else.
-/

namespace NexusEngine.TenantDeletion

open TransactionalRequests StoredColumns KeyedTables AnomalyTables Database AuditService
  AuditAppends AuditVerification AnomalyService AnomalyLifecycle TenancyService TenancyLifecycle

/-! ## Requests -/

/-- The requests that make tenants and write the log on their behalf. -/
inductive TenantActivity where
  | createTenant (env : TenancyEnv) (payload : TenantCreate)
  | anomaly (r : AnomalyRequest)
  | appendEntry (env : AppendEnv) (payload : AuditLogEntryCreate)

namespace TenantActivity

/-- The request, without its response. -/
def request (crypto : AuditCrypto) : TenantActivity → Service Unit
  | createTenant env payload => do
    let _ ← TenancyService.createTenant env payload
    return ()
  | anomaly r => r.request crypto
  | appendEntry env payload => do
    let _ ← AuditService.appendEntry crypto env payload
    return ()

/-- The tenant that the payload of an append or of a new anomaly names. -/
def tenantId : TenantActivity → Option Uuid
  | anomaly (.create _ payload _) => payload.tenantId
  | appendEntry _ payload => payload.tenantId
  | createTenant _ _ | anomaly (.updateStatus _ _ _ _) | anomaly (.bulkUpdateStatus _ _ _ _) => none

end TenantActivity

/-- The request is answered, and not refused. -/
def Answered (crypto : AuditCrypto) (s : Store Db) (a : TenantActivity) : Prop :=
  ((a.request crypto).serial postgres s.db s.db s.sequence).result = .ok ()

/-- The delete of a tenant succeeds and leaves the audit log as it is. -/
def DeletesCleanly (s : Store Db) (tenantId : Uuid) : Prop :=
  let outcome := (TenancyService.deleteTenant tenantId).serial postgres s.db s.db s.sequence
  outcome.result = .ok () ∧ outcome.db.tenancy.tenants.find? tenantId = none ∧
    outcome.db.auditLog = s.db.auditLog

/-! ## Who the log refers to -/

def LoggedFor (db : Db) (tenantId : Uuid) : Prop :=
  ∃ r ∈ db.auditLog, r.tenantId = some tenantId

def EventFor (db : Db) (tenantId : Uuid) : Prop :=
  ∃ e ∈ db.anomalies.rows, e.tenantId = some tenantId

/-- An answered request adds rows to the log that refer to the tenant it names, or to the tenant of
an event. -/
structure Effect (db : Db) (named : Option Uuid) (db' : Db) : Prop where
  log : ∃ rows, db'.auditLog = db.auditLog ++ rows ∧
    ∀ r ∈ rows, ∀ t, r.tenantId = some t → named = some t ∨ EventFor db t
  events : ∀ t, EventFor db' t → named = some t ∨ EventFor db t
  named : ∀ t, named = some t → LoggedFor db' t

/-- No tenant has an event that the log does not know. -/
def EventsLogged (db : Db) : Prop := ∀ t, EventFor db t → LoggedFor db t

theorem Effect.loggedFor_iff {db db' : Db} {named : Option Uuid} (h : Effect db named db')
    (hlogged : EventsLogged db) (t : Uuid) : LoggedFor db' t ↔ LoggedFor db t ∨ named = some t := by
  obtain ⟨rows, hlog, hrows⟩ := h.log
  constructor
  · rintro ⟨r, hr, ht⟩
    rw [hlog] at hr
    rcases List.mem_append.mp hr with hr | hr
    · exact .inl ⟨r, hr, ht⟩
    · exact (hrows r hr t ht).symm.imp (hlogged t) id
  · rintro (⟨r, hr, ht⟩ | hnamed)
    · exact ⟨r, hlog ▸ List.mem_append_left _ hr, ht⟩
    · exact h.named t hnamed

theorem Effect.eventsLogged {db db' : Db} {named : Option Uuid} (h : Effect db named db')
    (hlogged : EventsLogged db) : EventsLogged db' := by
  intro t ht
  refine (h.loggedFor_iff hlogged t).mpr ?_
  exact (h.events t ht).symm.imp (hlogged t) id

/-- What a request promises: its effect where it is answered, and no change where it is not. -/
def Shows (db : Db) (named : Option Uuid) (result : Except ServiceError Unit) (db' : Db) : Prop :=
  match result with
  | .ok _ => Effect db named db'
  | .error _ => db' = db

/-- Requests that write neither the log nor the events. -/
theorem Effect.of_unchanged {db db' : Db} (hlog : db'.auditLog = db.auditLog)
    (hevents : db'.anomalies = db.anomalies) : Effect db none db' where
  log := ⟨[], by rw [hlog, List.append_nil], fun _ hr => absurd hr List.not_mem_nil⟩
  events t ht := .inr (by rwa [EventFor, hevents] at ht)
  named _ ht := nomatch ht

/-- Requests that move events. -/
theorem Effect.of_moved {db db' : Db} {now : CalendarTime.Instant} {status : AnomalyStatus}
    {ids : List Uuid} {rows : List AuditLogTable.AuditLogEntry}
    (hevents : db'.anomalies.rows = db.anomalies.rows.map (transitioned now status ids))
    (hlog : db'.auditLog = db.auditLog ++ rows)
    (hrows : ∀ r ∈ rows, ∃ e ∈ db.anomalies.rows, r.tenantId = e.tenantId) :
    Effect db none db' where
  log := by
    refine ⟨rows, hlog, fun r hr t ht => ?_⟩
    obtain ⟨e, he, htenant⟩ := hrows r hr
    exact .inr ⟨e, he, htenant ▸ ht⟩
  events t ht := by
    obtain ⟨e', he', ht'⟩ := ht
    rw [hevents] at he'
    obtain ⟨e, he, rfl⟩ := List.mem_map.mp he'
    exact .inr ⟨e, he, by rwa [transitioned_tenantId] at ht'⟩
  named _ ht := nomatch ht

section

variable {crypto : AuditCrypto} {db : Db} {n : ℕ}

theorem createTenant_shows (env : TenancyEnv) (payload : TenantCreate) :
    (createTenant env payload).wp postgres
      (fun result durable _ _ => Shows db none (result.map fun _ => ()) durable) db db n :=
  createTenant_wp (fun _ _ _ => rfl) fun _ _ _ _ _ _ => Effect.of_unchanged rfl rfl

theorem createAnomalyEvent_shows (env : AnomalyEnv) (payload : AnomalyEventCreate)
    (actor : Option String) :
    (createAnomalyEvent crypto env payload actor).wp postgres (fun result durable _ _ =>
      Shows db payload.tenantId (result.map fun _ => ()) durable) db db n := by
  refine createAnomalyEvent_wp (fun _ _ _ => rfl) fun anomalies stored row hstored hrows happended =>
    ⟨⟨[row], rfl, fun r hr t ht => ?_⟩, fun t ht => ?_, fun t ht => ?_⟩
  · rw [List.mem_singleton.mp hr] at ht
    exact .inl (happended.tenantId.symm.trans ht)
  · obtain ⟨e, he, ht⟩ := ht
    rw [hrows] at he
    rcases List.mem_append.mp he with he | he
    · exact .inr ⟨e, he, ht⟩
    · rw [List.mem_singleton.mp he] at ht
      exact .inl (hstored.tenantId_eq.symm.trans ht)
  · exact ⟨row, List.mem_concat_self, happended.tenantId.trans ht⟩

theorem updateAnomalyStatus_shows (env : AnomalyEnv) (eventId : Uuid) (status : AnomalyStatus)
    (actor : Option String) :
    (updateAnomalyStatus crypto env eventId status actor).wp postgres (fun result durable _ _ =>
      Shows db none (result.map fun _ => ()) durable) db db n := by
  refine updateAnomalyStatus_wp (fun _ _ _ => rfl) (fun _ => Effect.of_unchanged rfl rfl)
    fun event anomalies row hfind hrows hmoved => Effect.of_moved hrows rfl fun r hr => ?_
  rw [List.mem_singleton.mp hr]
  exact ⟨event, (Table.find?_eq_some.mp hfind).1, hmoved.tenantId_eq⟩

theorem bulkUpdateAnomalyStatus_shows (env : AnomalyEnv) (eventIds : List Uuid)
    (status : AnomalyStatus) (actor : Option String) :
    (bulkUpdateAnomalyStatus crypto env eventIds status actor).wp postgres
      (fun result durable _ _ => Shows db none (result.map fun _ => ()) durable) db db n := by
  refine bulkUpdateAnomalyStatus_wp (fun _ _ _ => rfl) fun response anomalies rows k hrows hmoved =>
    Effect.of_moved hrows rfl fun r hr => ?_
  have htenants : (eventsWithin env eventIds.eraseDups db.anomalies).map AnomalyEvent.tenantId =
      rows.map AuditLogTable.AuditLogEntry.tenantId := by
    rw [← List.forall₂_eq_eq_eq, List.forall₂_map_left_iff, List.forall₂_map_right_iff]
    exact hmoved.imp fun _ _ hrow => hrow.tenantId_eq.symm
  obtain ⟨e, he, htenant⟩ := List.mem_map.mp (htenants ▸ List.mem_map_of_mem hr)
  exact ⟨e, (Table.find?_eq_some.mp (eventsWithin_find? he)).1, htenant.symm⟩

theorem appendEntry_shows (env : AppendEnv) (payload : AuditLogEntryCreate) :
    (appendEntry crypto env payload).wp postgres (fun result durable _ _ =>
      Shows db payload.tenantId (result.map fun _ => ()) durable) db db n := by
  refine (Request.wp_bind ..).mpr (appendEntryInTransaction_wp (fun _ _ _ => rfl)
    fun sent row hsent happended hadmits => ?_)
  cases hsent
  refine Request.wp_commitTransaction_bind ((Request.wp_bind ..).mpr ?_)
  rw [Request.wp_select, find?_append_row hadmits]
  refine Request.wp_return ⟨⟨[row], rfl, fun r hr t ht => ?_⟩, fun t ht => .inr ht, fun t ht => ?_⟩
  · rw [List.mem_singleton.mp hr] at ht
    exact .inl (happended.tenantId.symm.trans ht)
  · exact ⟨row, List.mem_concat_self, happended.tenantId.trans ht⟩

/-- The step lemma: a request that is answered has its effect, and another one has none. -/
theorem exec_shows (crypto : AuditCrypto) (s : Store Db) (a : TenantActivity) :
    (Answered crypto s a ∧ Effect s.db a.tenantId (s.exec postgres (a.request crypto)).db) ∨
      (¬ Answered crypto s a ∧ (s.exec postgres (a.request crypto)).db = s.db) := by
  have hshows : (a.request crypto).wp postgres
      (fun result durable _ _ => Shows s.db a.tenantId result durable) s.db s.db s.sequence := by
    cases a with
    | createTenant env payload => exact Request.wp_answer (createTenant_shows env payload)
    | anomaly r =>
      cases r with
      | create env payload actor =>
        exact Request.wp_answer (createAnomalyEvent_shows env payload actor)
      | updateStatus env eventId status actor =>
        exact Request.wp_answer (updateAnomalyStatus_shows env eventId status actor)
      | bulkUpdateStatus env eventIds status actor =>
        exact Request.wp_answer (bulkUpdateAnomalyStatus_shows env eventIds status actor)
    | appendEntry env payload => exact Request.wp_answer (appendEntry_shows env payload)
  obtain ⟨-, hresult⟩ := Request.serial_sound hshows
  unfold Shows at hresult
  unfold Answered
  split at hresult
  · next heq => exact .inl ⟨heq, hresult⟩
  · next error heq => exact .inr ⟨fun hok => (nomatch heq.symm.trans hok), hresult⟩

end

/-! ## Runs -/

def execAll (crypto : AuditCrypto) (s : Store Db) (activities : List TenantActivity) : Store Db :=
  s.execAll postgres (activities.map (·.request crypto))

section

variable {crypto : AuditCrypto}

/-- The step lemma for the log. -/
theorem exec_loggedFor (crypto : AuditCrypto) {s : Store Db} (hlogged : EventsLogged s.db)
    (a : TenantActivity) :
    EventsLogged (s.exec postgres (a.request crypto)).db ∧
      ∀ t, LoggedFor (s.exec postgres (a.request crypto)).db t ↔
        LoggedFor s.db t ∨ Answered crypto s a ∧ a.tenantId = some t := by
  rcases exec_shows crypto s a with ⟨hanswered, heffect⟩ | ⟨hrefused, hsame⟩
  · refine ⟨heffect.eventsLogged hlogged, fun t => ?_⟩
    rw [heffect.loggedFor_iff hlogged]
    simp [hanswered]
  · rw [hsame]
    exact ⟨hlogged, fun t => by simp [hrefused]⟩

/-- The run lemma: the log refers to the tenants that it did, and to those that an answered
request of the run names. -/
theorem execAll_loggedFor {s : Store Db} (hlogged : EventsLogged s.db)
    (activities : List TenantActivity) (t : Uuid) :
    LoggedFor (execAll crypto s activities).db t ↔ LoggedFor s.db t ∨
      ∃ before a after, activities = before ++ a :: after ∧
        Answered crypto (execAll crypto s before) a ∧ a.tenantId = some t := by
  induction activities generalizing s with
  | nil => simp [execAll]
  | cons a activities ih =>
    obtain ⟨hlogged', hstep⟩ := exec_loggedFor crypto hlogged a
    have hrun : execAll crypto s (a :: activities) =
      execAll crypto (s.exec postgres (a.request crypto)) activities := rfl
    rw [hrun, ih hlogged', hstep, or_assoc]
    refine or_congr_right ⟨?_, ?_⟩
    · rintro (⟨hanswered, hnamed⟩ | ⟨before, b, after, rfl, hanswered, hnamed⟩)
      · exact ⟨[], a, activities, rfl, hanswered, hnamed⟩
      · exact ⟨a :: before, b, after, rfl, hanswered, hnamed⟩
    · rintro ⟨before, b, after, heq, hanswered, hnamed⟩
      cases before with
      | nil =>
        obtain ⟨rfl, rfl⟩ := List.cons.inj heq
        exact .inl ⟨hanswered, hnamed⟩
      | cons a' before =>
        obtain ⟨rfl, rfl⟩ := List.cons.inj heq
        exact .inr ⟨before, b, after, rfl, hanswered, hnamed⟩

/-- An existing tenant can be deleted exactly when the log does not refer to it. -/
theorem deletesCleanly_iff {s : Store Db} {tenantId : Uuid}
    (hexists : (s.db.tenancy.tenants.find? tenantId).isSome) :
    DeletesCleanly s tenantId ↔ ¬ LoggedFor s.db tenantId := by
  have hdelete : (TenancyService.deleteTenant tenantId).wp postgres (fun result durable _ _ =>
      (result = .ok () ∧ durable.tenancy.tenants.find? tenantId = none ∧
        durable.auditLog = s.db.auditLog) ↔ ¬ LoggedFor s.db tenantId) s.db s.db s.sequence := by
    refine deleteTenant_wp (fun hnone => by simp [hnone] at hexists) (fun hlogged => ?_)
      fun hfree => ?_
    · refine iff_of_false ?_ fun hnot => hnot hlogged
      rintro ⟨hok, -⟩
      cases hok
    · refine iff_of_true ⟨rfl, ?_, rfl⟩ ?_
      · exact Table.find?_eq_none.mpr fun t ht => by
          simpa using (List.mem_filter.mp ht).2
      · rintro ⟨r, hr, ht⟩
        exact hfree r hr ht
  exact (Request.serial_sound hdelete).elim fun _ h => h

/-- After every run an existing tenant can be deleted, and the audit log left alone, exactly when
no request that was answered named the tenant. -/
theorem tenant_deletable_iff {activities : List TenantActivity} {tenantId : Uuid}
    (hexists :
      ((execAll crypto ⟨emptyDb, 1⟩ activities).db.tenancy.tenants.find? tenantId).isSome) :
    DeletesCleanly (execAll crypto ⟨emptyDb, 1⟩ activities) tenantId ↔
      ∀ before a after, activities = before ++ a :: after →
        Answered crypto (execAll crypto ⟨emptyDb, 1⟩ before) a → a.tenantId ≠ some tenantId := by
  have hlogged : EventsLogged emptyDb := fun t ⟨e, he, _⟩ => absurd he List.not_mem_nil
  have hempty : ¬ LoggedFor emptyDb tenantId := fun ⟨r, hr, _⟩ => absurd hr List.not_mem_nil
  rw [deletesCleanly_iff hexists, execAll_loggedFor hlogged, or_iff_right hempty]
  constructor
  · intro hnone before a after heq hanswered hnamed
    exact hnone ⟨before, a, after, heq, hanswered, hnamed⟩
  · rintro hnone ⟨before, a, after, heq, hanswered, hnamed⟩
    exact hnone before a after heq hanswered hnamed

end

/-! ## A sample tenant -/

def sampleTenant : TenantActivity :=
  .createTenant ⟨7, 8⟩
    { slug := "acme"
      orgId := "ORG-1"
      displayName := "Acme"
      tier := .standard
      region := "eu-west-1"
      dbSchemaName := "tenant_acme" }

def sampleAnomaly : TenantActivity :=
  .anomaly (.create ⟨9, 63839664000000042, sampleEnv, fun a b => a ≤ b⟩
    { category := "login"
      score := .finite (1 / 2) ⟨"0.5".toList, by decide⟩
      title := "Unusual login"
      description := "A login at night"
      tenantId := some 7 } none)

theorem tenant_deletable_iff_sample :
    DeletesCleanly (execAll sha256Crypto ⟨emptyDb, 1⟩
      [sampleTenant, .appendEntry (sampleEnv 0) (samplePayload "info" "first event")]) 7 := by
  refine (tenant_deletable_iff (by decide +kernel)).mpr fun before a after heq _ => ?_
  have hmem : a ∈ [sampleTenant, .appendEntry (sampleEnv 0) (samplePayload "info" "first event")] :=
    heq ▸ List.mem_append_right _ List.mem_cons_self
  rcases List.mem_pair.mp hmem with rfl | rfl
  · exact (Option.some_ne_none 7).symm
  · exact (Option.some_ne_none 7).symm

/-- A tenant that has had an anomaly cannot be deleted: the trigger stops the update that the
foreign key asks for. -/
theorem logged_tenant_stays :
    let s := execAll sha256Crypto ⟨emptyDb, 1⟩ [sampleTenant, sampleAnomaly]
    (s.db.tenancy.tenants.find? 7).isSome ∧
      s.db.auditLog.map AuditLogTable.AuditLogEntry.tenantId = [some 7] ∧
      ((TenancyService.deleteTenant 7).serial postgres s.db s.db s.sequence).result =
        .error .rejected ∧
      ¬ DeletesCleanly s 7 := by
  intro s
  have hfacts : (s.db.tenancy.tenants.find? 7).isSome ∧
      s.db.auditLog.map AuditLogTable.AuditLogEntry.tenantId = [some 7] ∧
      ((TenancyService.deleteTenant 7).serial postgres s.db s.db s.sequence).result =
        .error .rejected := by decide +kernel
  obtain ⟨hthere, hlogged, hrejected⟩ := hfacts
  refine ⟨hthere, hlogged, hrejected, fun h => ?_⟩
  exact nomatch hrejected.symm.trans h.1

end NexusEngine.TenantDeletion
