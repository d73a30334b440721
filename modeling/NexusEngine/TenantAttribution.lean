import NexusEngine.AnomalyResolution
import NexusEngine.AnomalyTransactions
import NexusEngine.AuditLogReads
import NexusEngine.GroupedCounts
import NexusEngine.RelatedLists
import NexusEngine.TenancyLifecycle

/-!
# The tenant of an audit entry

The health of the tenants counts entries by the identifier of the tenant, the list and the export
of the log by its slug. The entries of anomalies carry the identifier alone.
-/

namespace NexusEngine.TenantAttribution

open TransactionalRequests CalendarTime StoredColumns KeyedTables TenancyTables AnomalyTables
  AuditLogTable Database AuditService AuditAppends AuditedTransactions AnomalyService
  AnomalyTransactions TenancyService TenancyLifecycle AuditLogReads GroupedCounts RelatedLists

/-! ## The health of the tenants -/

def TenantStatus.value : TenantStatus → String
  | .active => "active"
  | .provisioning => "provisioning"
  | .suspended => "suspended"
  | .decommissioned => "decommissioned"

def openAnomalyStatuses : List AnomalyStatus := [.open_, .investigating]

structure TenantHealth where
  tenantId : Uuid
  tenantSlug : String
  tenantDisplayName : String
  tenantStatus : String
  isolationScore : Rat
  isolationLevel : String
  recentAuditEventCount : ℕ
  criticalAuditEventCount : ℕ
  openAnomalyCount : ℕ

structure TenantHealthList where
  items : List TenantHealth
  total : ℕ

/-- The numbers of entries since a time, by tenant. -/
def auditCounts (since : Instant) (log : List AuditLogEntry) : List (Uuid × ℕ) :=
  groupCounts ((log.filter fun e => since ≤ e.occurredAt.utc).filterMap AuditLogEntry.tenantId)

def criticalAuditCounts (since : Instant) (log : List AuditLogEntry) : List (Uuid × ℕ) :=
  auditCounts since (log.filter fun e => e.severity = .critical)

def openAnomalyCounts (t : AnomalyEvents) : List (Uuid × ℕ) :=
  groupCounts ((t.rows.filter fun e => e.status ∈ openAnomalyStatuses).filterMap
    AnomalyEvent.tenantId)

/-- `displayOrder` orders the tenants by their names as the database does. -/
def getTenantHealth (displayOrder : Uuid → Uuid → Bool) (since : Instant) :
    Service TenantHealthList := do
  let tenants ← Request.select fun db => db.tenancy.tenants.scan displayOrder
  let audit ← Request.select fun db => auditCounts since db.auditLog
  let critical ← Request.select fun db => criticalAuditCounts since db.auditLog
  let anomalies ← Request.select fun db => openAnomalyCounts db.anomalies
  return {
    items := tenants.map fun tenant =>
      { tenantId := tenant.id
        tenantSlug := tenant.slug
        tenantDisplayName := tenant.displayName
        tenantStatus := TenantStatus.value tenant.status
        isolationScore := tenant.isolationScore
        isolationLevel := tenant.isolationLevel
        recentAuditEventCount := countOf audit tenant.id
        criticalAuditEventCount := countOf critical tenant.id
        openAnomalyCount := countOf anomalies tenant.id }
    total := tenants.length }

theorem countOf_auditCounts (since : Instant) (log : List AuditLogEntry) (t : Uuid) :
    countOf (auditCounts since log) t =
      log.countP fun e => e.tenantId = some t ∧ since ≤ e.occurredAt.utc := by
  rw [auditCounts, countOf_groupCounts_filterMap, List.countP_filter]
  exact List.countP_congr fun e _ => by simp

/-- Every tenant is shown, with the entries that name it. -/
theorem getTenantHealth_counts (displayOrder : Uuid → Uuid → Bool) (since : Instant) (db : Db)
    (n : ℕ) :
    ∃ health, ((getTenantHealth displayOrder since).serial postgres db db n).result = .ok health ∧
      ∀ t count, (∃ item ∈ health.items, item.tenantId = t ∧ item.recentAuditEventCount = count) ↔
        (∃ tenant ∈ db.tenancy.tenants.rows, tenant.id = t) ∧
          count = db.auditLog.countP fun e => e.tenantId = some t ∧ since ≤ e.occurredAt.utc := by
  refine ⟨_, rfl, fun t count => ?_⟩
  simp only [List.mem_map, Table.mem_scan]
  constructor
  · rintro ⟨item, ⟨tenant, htenant, rfl⟩, rfl, rfl⟩
    exact ⟨⟨tenant, htenant, rfl⟩, countOf_auditCounts since db.auditLog tenant.id⟩
  · rintro ⟨⟨tenant, htenant, rfl⟩, rfl⟩
    exact ⟨_, ⟨tenant, htenant, rfl⟩, rfl, countOf_auditCounts since db.auditLog tenant.id⟩

/-! ## Requests -/

/-- The requests that make tenants and append entries on their behalf. -/
inductive AttributedRequest where
  | createTenant (env : TenancyEnv) (payload : TenantCreate)
  | anomaly (r : AnomalyRequest)

/-- The request, without its response. -/
def AttributedRequest.request (crypto : AuditCrypto) : AttributedRequest → Service Unit
  | createTenant env payload => do
    let _ ← TenancyService.createTenant env payload
    return ()
  | anomaly r => r.request crypto

def execAll (crypto : AuditCrypto) (s : Store Db) (rs : List AttributedRequest) : Store Db :=
  s.execAll postgres (rs.map (·.request crypto))

/-- The request is answered, and not refused. -/
def IsAnswered (crypto : AuditCrypto) (s : Store Db) (r : AttributedRequest) : Prop :=
  ((r.request crypto).serial postgres s.db s.db s.sequence).result = .ok ()

/-- The entries that the request appends. -/
def appendsOf (t : AnomalyEvents) : AttributedRequest → List Append
  | .createTenant _ _ => []
  | .anomaly (.create env payload actor) =>
    [(env.audit 0, createdEntry actor (newAnomalyEvent env payload))]
  | .anomaly (.updateStatus env eventId status actor) =>
    statusAppends env status actor 0 (t.find? eventId).toList
  | .anomaly (.bulkUpdateStatus env eventIds status actor) =>
    statusAppends env status actor 0 (eventsWithin env eventIds.eraseDups t)

/-- The request is answered and appends an entry for the tenant at the time. -/
def Records (crypto : AuditCrypto) (s : Store Db) (r : AttributedRequest)
    (tenantId : Option Uuid) (time : Instant) : Prop :=
  IsAnswered crypto s r ∧
    ∃ a ∈ appendsOf s.db.anomalies r, a.2.tenantId = tenantId ∧ a.1.now = time

theorem appends_of_plan {t : AnomalyEvents} {r : AnomalyRequest} {ws : List Statement}
    {as : List Append} (h : AnomalyPlan t r ws as) :
    as = appendsOf t (.anomaly r) ∧ Domain ws := by
  have domain : ∀ (now : Instant) (status : AnomalyStatus) (events : List AnomalyEvent),
      Domain (statusStatements now status events) := by
    intro now status events w hw
    obtain ⟨e, -, hw⟩ := List.mem_flatMap.mp hw
    exact domain_saveAnomalyEvent w hw
  cases h with
  | created => exact ⟨rfl, domain_singleton rfl⟩
  | unknown missing => exact ⟨by simp [appendsOf, missing, statusAppends], domain_nil⟩
  | updated isEvent => exact ⟨by simp [appendsOf, isEvent], domain _ _ _⟩
  | bulkUpdated isEvents => exact ⟨by rw [isEvents]; rfl, domain _ _ _⟩

/-- No entry of an anomaly carries a slug. -/
theorem tenantSlug_of_mem {t : AnomalyEvents} {r : AttributedRequest} {a : Append}
    (h : a ∈ appendsOf t r) : a.2.tenantSlug = none := by
  have hstatus : ∀ env status actor k (events : List AnomalyEvent),
      a ∈ statusAppends env status actor k events → a.2.tenantSlug = none := by
    intro env status actor k events hmem
    induction events generalizing k with
    | nil => cases hmem
    | cons event events ih =>
      rcases List.mem_cons.mp hmem with rfl | hmem
      · rfl
      · exact ih (k + 1) hmem
  cases r with
  | createTenant env payload => cases h
  | anomaly r =>
    cases r with
    | create env payload actor =>
      rw [List.mem_singleton.mp h]
      rfl
    | updateStatus env eventId status actor => exact hstatus _ _ _ _ _ h
    | bulkUpdateStatus env eventIds status actor => exact hstatus _ _ _ _ _ h

/-- Each row is what the log keeps of its append. -/
def Kept (crypto : AuditCrypto) (a : Append) (row : AuditLogEntry) : Prop :=
  ∃ before m, AppendedAs crypto a.1 a.2 before m row

theorem kept_stamps {crypto : AuditCrypto} {as : List Append} {rows : List AuditLogEntry}
    (h : List.Forall₂ (Kept crypto) as rows) (tenantId : Option Uuid) (time : Instant) :
    (∃ row ∈ rows, row.tenantId = tenantId ∧ row.occurredAt.utc = time) ↔
      ∃ a ∈ as, a.2.tenantId = tenantId ∧ a.1.now = time := by
  induction h with
  | nil => simp
  | cons hkept _ ih =>
    obtain ⟨before, m, happended⟩ := hkept
    simp only [List.exists_mem_cons_iff, ih, happended.tenantId, happended.occurredAt]

/-- What one request does to the log and the tenants. -/
inductive LogStep (crypto : AuditCrypto) (s : Store Db) (db' : Db) : AttributedRequest → Prop where
  | refused {r : AttributedRequest} (notAnswered : ¬ IsAnswered crypto s r) (same : db' = s.db) :
      LogStep crypto s db' r
  | created {env : TenancyEnv} {payload : TenantCreate} {tenant : Tenant}
      (slug : text tenant.slug = some tenant.slug)
      (tenants : ∀ k, db'.tenancy.tenants.find? k =
        if env.tenantId = k then some tenant else s.db.tenancy.tenants.find? k)
      (log : db'.auditLog = s.db.auditLog) : LogStep crypto s db' (.createTenant env payload)
  | appended {r : AnomalyRequest} {rows : List AuditLogEntry}
      (answered : IsAnswered crypto s (.anomaly r))
      (tenancy : db'.tenancy = s.db.tenancy)
      (log : db'.auditLog = s.db.auditLog ++ rows)
      (kept : List.Forall₂ (Kept crypto) (appendsOf s.db.anomalies (.anomaly r)) rows) :
      LogStep crypto s db' (.anomaly r)

/-- The step lemma. -/
theorem exec_logStep (crypto : AuditCrypto) (s : Store Db) (r : AttributedRequest) :
    LogStep crypto s (s.exec postgres (r.request crypto)).db r := by
  cases r with
  | createTenant env payload =>
    have hcreate : ((AttributedRequest.createTenant env payload).request crypto).wp postgres
        (fun result durable _ _ => (result ≠ .ok () ∧ durable = s.db) ∨
          LogStep crypto s durable (.createTenant env payload)) s.db s.db s.sequence := by
      apply Request.wp_answer
      refine createTenant_wp (fun error _ _ => .inl ⟨fun hok => (nomatch hok), rfl⟩) ?_
      intro inserted tenancy tenant hinserted htenancy _
      obtain ⟨stored, -, hstored, -, htenants⟩ := insertTenant_inserts hinserted
      obtain ⟨job, -, hsame, -⟩ := insertProvisioningJob_inserts htenancy
      refine .inr (.created (text_varchar hstored.slug) (fun k => ?_) rfl)
      rw [hsame]
      exact htenants k
    obtain ⟨work, hend⟩ := Request.serial_sound hcreate
    rcases hend with ⟨hrefused, hsame⟩ | hstep
    · exact .refused hrefused hsame
    · exact hstep
  | anomaly r =>
    rcases AnomalyResolution.exec_step crypto s r with ⟨hanswered, -⟩ | ⟨hrefused, hsame⟩
    · obtain ⟨ws, as, hplan, hperformed⟩ := performed_of_ok (request_ends r) hanswered
      obtain ⟨rfl, hdomain⟩ := appends_of_plan hplan
      obtain ⟨mid, rows, hmid, hrows, hdb⟩ := hperformed.outcome
      have hdb' : (s.exec postgres ((AttributedRequest.anomaly r).request crypto)).db =
          { mid with auditLog := s.db.auditLog ++ rows } := hdb
      rw [hdb']
      exact .appended hanswered (applyAll_sameLog hdomain hmid).tenancy rfl hrows.forall₂
    · exact .refused hrefused hsame

/-! ## Runs -/

/-- An answered request of the run has appended an entry for the tenant at the time. -/
def RecordedIn (crypto : AuditCrypto) (s : Store Db) (rs : List AttributedRequest)
    (tenantId : Option Uuid) (time : Instant) : Prop :=
  ∃ before r after, rs = before ++ r :: after ∧
    Records crypto (execAll crypto s before) r tenantId time

/-- What the log and the tenants of a run are. -/
structure RunLog (crypto : AuditCrypto) (s : Store Db) (rs : List AttributedRequest) : Prop where
  slugs : ∀ t ∈ (execAll crypto s rs).db.tenancy.tenants.rows, (text t.slug).isSome
  unattributed : ∀ row ∈ (execAll crypto s rs).db.auditLog, row.tenantSlug = none
  recorded : ∀ tenantId time, (∃ row ∈ (execAll crypto s rs).db.auditLog,
    row.tenantId = tenantId ∧ row.occurredAt.utc = time) ↔ RecordedIn crypto s rs tenantId time

theorem recordedIn_concat {crypto : AuditCrypto} {s : Store Db} {rs : List AttributedRequest}
    {r : AttributedRequest} {tenantId : Option Uuid} {time : Instant} :
    RecordedIn crypto s (rs ++ [r]) tenantId time ↔
      RecordedIn crypto s rs tenantId time ∨ Records crypto (execAll crypto s rs) r tenantId time := by
  constructor
  · rintro ⟨before, r', after, heq, hrecords⟩
    rcases concat_eq_append_cons.mp heq with ⟨rfl, rfl, -⟩ | ⟨after, -, hrs⟩
    · exact .inr hrecords
    · exact .inl ⟨before, r', after, hrs, hrecords⟩
  · rintro (⟨before, r', after, rfl, hrecords⟩ | hrecords)
    · exact ⟨before, r', after ++ [r], by simp, hrecords⟩
    · exact ⟨rs, r, [], rfl, hrecords⟩

/-- The run lemma. -/
theorem run_log (crypto : AuditCrypto) (n : ℕ) (rs : List AttributedRequest) :
    RunLog crypto ⟨emptyDb, n⟩ rs := by
  induction rs using List.reverseRecOn with
  | nil =>
    refine ⟨fun t ht => absurd ht List.not_mem_nil, fun row hrow => absurd hrow List.not_mem_nil,
      fun tenantId time => iff_of_false ?_ ?_⟩
    · rintro ⟨row, hrow, -⟩
      exact absurd hrow List.not_mem_nil
    · rintro ⟨before, r, after, heq, -⟩
      simp at heq
  | append_singleton rs r ih =>
    have hrun : execAll crypto ⟨emptyDb, n⟩ (rs ++ [r]) =
        (execAll crypto ⟨emptyDb, n⟩ rs).exec postgres (r.request crypto) :=
      Store.execAll_concat ..
    have hstep := exec_logStep crypto (execAll crypto ⟨emptyDb, n⟩ rs) r
    rw [← hrun] at hstep
    cases hstep with
    | refused notAnswered same =>
      refine ⟨by rw [same]; exact ih.slugs, by rw [same]; exact ih.unattributed,
        fun tenantId time => ?_⟩
      rw [same, ih.recorded, recordedIn_concat, Records]
      simp [notAnswered]
    | @created env payload tenant slug tenants log =>
      refine ⟨fun t ht => ?_, by rw [log]; exact ih.unattributed, fun tenantId time => ?_⟩
      · have hfind := Table.find?_of_mem ht
        rw [tenants] at hfind
        split at hfind
        · cases hfind
          rw [slug]
          rfl
        · exact ih.slugs t (Table.find?_eq_some.mp hfind).1
      · rw [log, ih.recorded, recordedIn_concat, Records]
        simp [appendsOf]
    | appended answered tenancy log kept =>
      refine ⟨by rw [tenancy]; exact ih.slugs, fun row hrow => ?_, fun tenantId time => ?_⟩
      · rw [log] at hrow
        rcases List.mem_append.mp hrow with hrow | hrow
        · exact ih.unattributed row hrow
        · obtain ⟨a, ha, before, m, happended⟩ := forall₂_mem_right kept hrow
          have hslug := happended.tenantSlug
          rw [tenantSlug_of_mem ha] at hslug
          exact (Option.some.inj hslug).symm
      · rw [recordedIn_concat, Records, and_iff_right answered, ← kept_stamps kept, ← ih.recorded,
          log]
        simp only [List.mem_append, or_and_right, exists_or]

/-! ## The two attributions -/

/-- What the screens need to know besides the database: how tenants are ordered by name, the
operator `ILIKE`, and the clock. -/
structure ScreenEnv where
  displayOrder : Uuid → Uuid → Bool
  ilike : String → String → Bool
  now : Instant

/-- The health of the tenants, the list and the export of the log report one number of entries for
the tenant since the time. -/
def AttributionsAgree (env : ScreenEnv) (s : Store Db) (t : Tenant) (since : Instant) : Prop :=
  ∃ health listed exported,
    ((getTenantHealth env.displayOrder since).serial postgres s.db s.db s.sequence).result =
      .ok health ∧
    ((listEntries env.ilike { tenantSlug := some t.slug, fromTime := some since } 1 50).serial
      postgres s.db s.db s.sequence).result = .ok listed ∧
    ((exportEntries env.now { tenantSlug := some t.slug, fromTime := some since }).serial
      postgres s.db s.db s.sequence).result = .ok exported ∧
    (∃ item ∈ health.items, item.tenantId = t.id ∧ item.recentAuditEventCount = listed.2) ∧
      exported.total = listed.2

/-- The numbers of a database whose tenant is there. -/
theorem attributionsAgree_count {env : ScreenEnv} {s : Store Db} {t : Tenant} {since : Instant}
    (ht : t ∈ s.db.tenancy.tenants.rows) (hslug : (text t.slug).isSome) :
    AttributionsAgree env s t since ↔
      countSince t.slug since s.db.auditLog =
        s.db.auditLog.countP fun e => e.tenantId = some t.id ∧ since ≤ e.occurredAt.utc := by
  obtain ⟨health, hhealth, hitems⟩ :=
    getTenantHealth_counts env.displayOrder since s.db s.sequence
  obtain ⟨entries, hlisted⟩ : ∃ entries, ((listEntries env.ilike
      { tenantSlug := some t.slug, fromTime := some since } 1 50).serial postgres s.db s.db
        s.sequence).result = .ok (entries, countSince t.slug since s.db.auditLog) :=
    listEntries_total env.ilike hslug (by decide)
  obtain ⟨exported, hexported, htotal⟩ : ∃ response, ((exportEntries env.now
      { tenantSlug := some t.slug, fromTime := some since }).serial postgres s.db s.db
        s.sequence).result = .ok response ∧
          response.total = countSince t.slug since s.db.auditLog :=
    exportEntries_total env.now hslug
  constructor
  · rintro ⟨health', listed, exported', hhealth', hlisted', -, hitem, -⟩
    rw [hhealth] at hhealth'
    rw [hlisted] at hlisted'
    cases hhealth'
    cases hlisted'
    exact ((hitems t.id _).mp hitem).2
  · intro hcount
    exact ⟨health, _, exported, hhealth, hlisted, hexported,
      (hitems t.id _).mpr ⟨⟨t, ht, rfl⟩, hcount⟩, htotal⟩

/-- A second condition costs nothing where it follows from the first. -/
theorem countP_and_iff {α : Type} (p q : α → Prop) [DecidablePred p] [DecidablePred q]
    (l : List α) :
    l.countP (fun a => decide (p a)) = l.countP (fun a => decide (q a ∧ p a)) ↔
      ∀ a ∈ l, p a → q a := by
  have hsplit : l.countP (fun a => decide (p a)) = l.countP (fun a => decide (q a ∧ p a)) +
      l.countP (fun a => decide (¬ q a ∧ p a)) := by
    induction l with
    | nil => rfl
    | cons a l ih =>
      simp only [List.countP_cons, ih]
      by_cases hp : p a
      · by_cases hq : q a
        · simp [hp, hq]
          omega
        · simp [hp, hq]
          omega
      · simp [hp]
  rw [hsplit, Nat.add_eq_left, List.countP_eq_zero]
  refine forall₂_congr fun a _ => ?_
  simp only [decide_eq_true_eq, not_and]
  exact ⟨fun h hp => by_contra fun hq => h hq hp, fun h hq hp => hq (h hp)⟩

/-- After every run, the attributions of a tenant agree since a time exactly when no entry since
then is about the tenant; for a tenant whose slug is empty, when all of them are. -/
theorem attributionsAgree_iff (crypto : AuditCrypto) (env : ScreenEnv) (n : ℕ)
    (rs : List AttributedRequest) (t : Tenant)
    (ht : t ∈ (execAll crypto ⟨emptyDb, n⟩ rs).db.tenancy.tenants.rows) (since : Instant) :
    AttributionsAgree env (execAll crypto ⟨emptyDb, n⟩ rs) t since ↔
      ∀ tenantId time, since ≤ time → RecordedIn crypto ⟨emptyDb, n⟩ rs tenantId time →
        if t.slug = "" then tenantId = some t.id else tenantId ≠ some t.id := by
  have hrun := run_log crypto n rs
  have hlog : ∀ p : Option Uuid → Prop,
      (∀ row ∈ (execAll crypto ⟨emptyDb, n⟩ rs).db.auditLog,
        since ≤ row.occurredAt.utc → p row.tenantId) ↔
      ∀ tenantId time, since ≤ time → RecordedIn crypto ⟨emptyDb, n⟩ rs tenantId time →
        p tenantId := by
    intro p
    constructor
    · intro h tenantId time htime hrecorded
      obtain ⟨row, hrow, rfl, rfl⟩ := (hrun.recorded tenantId time).mpr hrecorded
      exact h row hrow htime
    · intro h row hrow htime
      exact h _ _ htime ((hrun.recorded _ _).mp ⟨row, hrow, rfl, rfl⟩)
  rw [attributionsAgree_count ht (hrun.slugs t ht), countSince]
  by_cases hempty : t.slug = ""
  · simp only [hempty, if_true, true_or, true_and]
    rw [← hlog fun tenantId => tenantId = some t.id]
    exact countP_and_iff _ _ _
  · simp only [hempty, if_false, false_or]
    rw [← hlog fun tenantId => tenantId ≠ some t.id]
    have hnone : (execAll crypto ⟨emptyDb, n⟩ rs).db.auditLog.countP (fun e =>
        decide (e.tenantSlug = some t.slug ∧ since ≤ e.occurredAt.utc)) = 0 := by
      refine List.countP_eq_zero.mpr fun row hrow => ?_
      simp [hrun.unattributed row hrow]
    rw [hnone, eq_comm, List.countP_eq_zero]
    refine forall₂_congr fun row _ => ?_
    simp only [decide_eq_true_eq, not_and]
    exact ⟨fun h hsince htenant => h htenant hsince, fun h htenant hsince => h hsince htenant⟩

/-! ## A sample run -/

def sampleTenant : AttributedRequest := .createTenant ⟨7, 8⟩ sampleTenantCreate

def sampleAnomaly (k : ℕ) (tenantId : Option Uuid) : AttributedRequest :=
  .anomaly (.create (AnomalyHistories.sampleAnomalyEnv k)
    { AnomalyHistories.sampleAnomaly [] with tenantId := tenantId } none)

def sampleScreen : ScreenEnv := ⟨fun a b => a ≤ b, fun _ _ => false, 0⟩

theorem attributionsAgree_iff_sample :
    ∃ t, AttributionsAgree sampleScreen
      (execAll AuditVerification.sha256Crypto ⟨emptyDb, 1⟩ [sampleTenant, sampleAnomaly 0 none]) t
        0 := by
  obtain ⟨t, ht, hid, hslug⟩ : ∃ t ∈ (execAll AuditVerification.sha256Crypto ⟨emptyDb, 1⟩
      [sampleTenant, sampleAnomaly 0 none]).db.tenancy.tenants.rows, t.id = 7 ∧ t.slug = "acme" := by
    decide +kernel
  refine ⟨t, (attributionsAgree_iff AuditVerification.sha256Crypto sampleScreen 1 _ t ht 0).mpr ?_⟩
  rintro tenantId time - ⟨before, r, after, heq, -, a, ha, htenant, -⟩
  rw [if_neg (by rw [hslug]; decide), ← htenant, hid]
  have hmem : r ∈ [sampleTenant, sampleAnomaly 0 none] :=
    heq ▸ List.mem_append_right _ List.mem_cons_self
  rcases List.mem_pair.mp hmem with rfl | rfl
  · cases ha
  · rw [List.mem_singleton.mp ha]
    exact (Option.some_ne_none 7).symm

/-- The entry of an anomaly is counted for its tenant and not found under its slug. -/
theorem anomaly_entry_unattributed :
    let s := execAll AuditVerification.sha256Crypto ⟨emptyDb, 1⟩
      [sampleTenant, sampleAnomaly 0 (some 7)]
    (s.db.tenancy.tenants.rows.map fun t => (t.id, t.slug)) = [(7, "acme")] ∧
    (s.db.auditLog.map fun e => (e.tenantId, e.tenantSlug)) = [(some 7, none)] ∧
    ∀ t ∈ s.db.tenancy.tenants.rows, ¬ AttributionsAgree sampleScreen s t 0 := by
  intro s
  have hfacts : (s.db.tenancy.tenants.rows.map fun t => (t.id, t.slug)) = [(7, "acme")] ∧
      (s.db.auditLog.map fun e => (e.tenantId, e.tenantSlug)) = [(some 7, none)] ∧
      ∀ t ∈ s.db.tenancy.tenants.rows, (text t.slug).isSome ∧
        countSince t.slug 0 s.db.auditLog ≠
          s.db.auditLog.countP fun e => e.tenantId = some t.id ∧ 0 ≤ e.occurredAt.utc := by
    decide +kernel
  refine ⟨hfacts.1, hfacts.2.1, fun t ht hagree => ?_⟩
  obtain ⟨hslug, hcounts⟩ := hfacts.2.2 t ht
  exact hcounts ((attributionsAgree_count ht hslug).mp hagree)

end NexusEngine.TenantAttribution
