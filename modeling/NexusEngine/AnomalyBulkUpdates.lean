import NexusEngine.AnomalyTransactions
import NexusEngine.AnomalyResolution
import NexusEngine.AuditAdmissions
import NexusEngine.JsonEquality
import NexusEngine.GroupedCounts

/-!
# Many anomalies at once

A bulk change reads its events in any order and moves them in one transaction. It leaves what the
changes of the single events leave, one request for each identifier in the order of the first
occurrences: the same events, but for the clocks of the requests, and the same entries, in the
order in which the query returned the events.
-/

namespace NexusEngine.AnomalyBulkUpdates

open TransactionalRequests JsonDocuments JsonEquality CalendarTime StoredColumns KeyedTables
  AnomalyTables AuditLogTable TenancyTables Database AuditService AuditAppends AuditedTransactions
  AuditAdmissions MetadataSanitisation AnomalyService AnomalyLifecycle AnomalyTransactions
open AuditVerification (sha256Crypto)
open AnomalyResolution (execAll)
open AnomalyHistories (sampleAnomalyEnv sampleAnomaly)

/-! ## What the log takes of an event -/

/-- The stored columns of an event that an entry repeats, as an ingestion leaves them: its entry
holds the score and the metadata too. -/
structure Auditable (tenants : List Tenant) (e : AnomalyEvent) : Prop where
  actor : nullable (varchar 120) e.actor = some e.actor
  sourceIp : nullable (varchar 45) e.sourceIp = some e.sourceIp
  score : isStandard e.score.json = true
  metadataJson : isStandard (.obj e.metadataJson) = true
  tenant : e.tenantId.all fun id => tenants.any fun tenant => tenant.id == id

/-- The name of the caller fits where there is one. -/
def ActorFits (actor : Option String) : Prop :=
  ∀ name, actor = some name → name ≠ "" → (varchar 120 name).isSome

section

variable {crypto : AuditCrypto} {tenants : List Tenant} {status : AnomalyStatus} {now : Instant}
  {e : AnomalyEvent} {actor : Option String}

theorem auditActor_fits (he : nullable (varchar 120) e.actor = some e.actor)
    (hactor : ActorFits actor) : (varchar 120 (auditActor actor e.actor)).isSome := by
  unfold auditActor
  cases hgiven : actor.filter (· ≠ "") with
  | some name =>
    obtain ⟨hname, hnonempty⟩ := Option.filter_eq_some_iff.mp hgiven
    exact hactor name hname (by simpa using hnonempty)
  | none =>
    rw [Option.none_or]
    cases hown : e.actor.filter (· ≠ "") with
    | some name =>
      obtain ⟨hname, -⟩ := Option.filter_eq_some_iff.mp hown
      rw [hname, nullable] at he
      obtain ⟨stored, hstored, -⟩ := Option.map_eq_some_iff.mp he
      exact Option.isSome_iff_exists.mpr ⟨stored, hstored⟩
    | none =>
      rw [Option.getD_none]
      decide

/-- Where the name of the caller does not fit, no entry about an event is taken. -/
theorem auditActor_unfit (h : ¬ ActorFits actor) (fallback : Option String) :
    varchar 120 (auditActor actor fallback) = none := by
  simp only [ActorFits, not_forall] at h
  obtain ⟨name, rfl, hnonempty, hfits⟩ := h
  have hgiven : (some name).filter (· ≠ "") = some name :=
    Option.filter_eq_some_iff.mpr ⟨rfl, by simpa using hnonempty⟩
  rw [auditActor, hgiven, Option.some_or, Option.getD_some]
  exact Option.not_isSome_iff_eq_none.mp hfits

theorem auditMetadata_standard (he : Auditable tenants e) (previous : Option AnomalyStatus) :
    isStandard (.obj (auditMetadata e previous)) = true := by
  rw [isStandard_obj]
  intro kv hkv
  simp only [auditMetadata, List.mem_append, List.mem_cons, List.not_mem_nil, or_false,
    List.mem_map, Option.mem_toList] at hkv
  rcases hkv with (rfl | rfl | rfl | rfl | rfl | rfl) | ⟨_, -, rfl⟩
  · rfl
  · rfl
  · rfl
  · rfl
  · exact he.score
  · exact he.metadataJson
  · rfl

/-- The entry of a transition is acceptable where the name of the caller fits. -/
theorem statusEntry_acceptable (he : Auditable tenants e) (hactor : ActorFits actor)
    (hkey : (varchar 60 crypto.signingKeyId).isSome) :
    Acceptable crypto tenants (statusEntry actor e.status (withStatus now status e)) where
  columns := {
    severity := rfl
    eventType := rfl
    eventSubtype := by
      change (varchar 60 "ANOMALY_STATUS_UPDATED").isSome = true
      decide
    tenantSlug := rfl
    actor := auditActor_fits he.actor hactor
    sourceIp := Option.isSome_iff_exists.mpr ⟨_, he.sourceIp⟩
    description := by
      have htext : ∀ s : AnomalyStatus, text s.value = some s.value := by
        intro s
        cases s <;> rfl
      exact Option.isSome_iff_exists.mpr
        ⟨_, text_append (text_append (text_append rfl (htext e.status)) rfl) (htext status)⟩
    metadataJson := by
      have hmoved : Auditable tenants (withStatus now status e) := { he with }
      have hstandard : isStandard (.obj (auditMetadata (withStatus now status e)
          (some e.status))) = true := auditMetadata_standard hmoved _
      exact Option.isSome_iff_exists.mpr ⟨_, if_pos (isStandard_sanitizeMetadata hstandard)⟩
    prevHash := rfl
    signingKeyId := hkey }
  tenant := he.tenant

end

/-! ## What an ingestion leaves -/

/-- Every document of the log is standard JSON, as its column asks. -/
def StandardLog (db : Db) : Prop := ∀ r ∈ db.auditLog, isStandard r.metadataJson = true

theorem stored_standard {entry : NewAuditLogEntry} {n : ℕ} {row : AuditLogEntry}
    (h : entry.stored n = some row) : isStandard row.metadataJson = true := by
  have hkept := (NewAuditLogEntry.keptAs h).metadataJson
  -- seven columns come before the metadata
  obtain ⟨_, -, h⟩ := Option.bind_eq_some_iff.mp h
  obtain ⟨_, -, h⟩ := Option.bind_eq_some_iff.mp h
  obtain ⟨_, -, h⟩ := Option.bind_eq_some_iff.mp h
  obtain ⟨_, -, h⟩ := Option.bind_eq_some_iff.mp h
  obtain ⟨_, -, h⟩ := Option.bind_eq_some_iff.mp h
  obtain ⟨_, -, h⟩ := Option.bind_eq_some_iff.mp h
  obtain ⟨_, -, h⟩ := Option.bind_eq_some_iff.mp h
  obtain ⟨_, hmetadata, -⟩ := Option.bind_eq_some_iff.mp h
  rw [hkept]
  exact json_isStandard hmetadata

theorem StandardLog.apply {w : Statement} {db db' : Db} (happly : postgres.apply w db = some db')
    (h : StandardLog db) : StandardLog db' := by
  cases w with
  | insertAuditLogEntry entry n =>
    obtain ⟨row, hrow, -, rfl⟩ := apply_insertAuditLogEntry.mp happly
    intro r hr
    rcases List.mem_append.mp hr with hr | hr
    · exact h r hr
    · rw [List.mem_singleton.mp hr]
      exact stored_standard hrow
  | hsm statement =>
    obtain ⟨_, -, rfl⟩ := apply_hsm.mp happly
    exact h
  | configuration statement =>
    obtain ⟨_, -, rfl⟩ := apply_configuration.mp happly
    exact h
  | parameter statement =>
    obtain ⟨_, -, rfl⟩ := apply_parameter.mp happly
    exact h
  | account statement =>
    obtain ⟨_, -, rfl⟩ := apply_account.mp happly
    exact h
  | anomaly statement =>
    obtain ⟨_, -, rfl⟩ := apply_anomaly.mp happly
    exact h
  | tenancy statement =>
    obtain ⟨_, -, rfl⟩ := apply_tenancy.mp happly
    exact h
  | rbac statement =>
    obtain ⟨_, -, rfl⟩ := apply_rbac.mp happly
    exact h
  | deleteTenant id =>
    obtain ⟨-, rfl⟩ := apply_deleteTenant.mp happly
    exact h

def AuditableEvents (db : Db) : Prop :=
  ∀ e ∈ db.anomalies.rows, Auditable db.tenancy.tenants.rows e

/-- The score of an event that was ingested is finite, since its entry was stored. -/
theorem score_standard {actor : Option String} {e : AnomalyEvent} {row : AuditLogEntry}
    (hmetadata : row.metadataJson =
      sanitizeMetadata (.obj (createdEntry actor e).metadataJson))
    (hstandard : isStandard row.metadataJson = true) : isStandard e.score.json = true := by
  rw [hmetadata, sanitizeMetadata_obj, isStandard_obj] at hstandard
  have hmem : ("score", e.score.json) ∈ (createdEntry actor e).metadataJson := by
    simp [createdEntry, anomalyEntry, auditMetadata]
  have hpublic : isSensitiveKey "score" = false := by decide
  have hscore := hstandard _ (List.mem_map_of_mem hmem)
  rw [sanitizeMember_public hpublic] at hscore
  cases hvalue : e.score with
  | finite value text => rfl
  | nonfinite x =>
    rw [hvalue] at hscore
    exact hscore

/-- The columns of an event that was inserted. -/
theorem auditable_inserted {tenants : List Tenant} {tenantExists : Uuid → Bool}
    {t t' : AnomalyEvents} {e : AnomalyEvent}
    (htenants : ∀ id, tenantExists id = true → (tenants.any fun tenant => tenant.id == id) = true)
    (hscore : isStandard e.score.json = true)
    (h : insertAnomalyEvent tenantExists t e = some t') :
    ∃ stored, Auditable tenants stored ∧ t'.rows = t.rows ++ [stored] := by
  simp only [insertAnomalyEvent, Option.bind_eq_bind, Option.bind_eq_some_iff] at h
  obtain ⟨category, -, title, -, description, -, actor, hactor, sourceIp, hsource, metadata,
    hmetadata, h⟩ := h
  split at h
  · next htenant =>
    refine ⟨_, ?_, (Table.insert_eq_some.mp h).2⟩
    exact {
      actor := nullable_stored hactor
      sourceIp := nullable_stored hsource
      score := hscore
      metadataJson := json_isStandard hmetadata
      tenant := by
        change e.tenantId.all (fun id => tenants.any fun tenant => tenant.id == id) = true
        cases hid : e.tenantId with
        | none => rfl
        | some id =>
          rw [hid] at htenant
          exact htenants id htenant }
  · cases h

/-- A status change leaves the columns that an entry repeats. -/
theorem AuditableEvents.saved {old new : AnomalyEvent} {db db' : Db}
    (happly : postgres.applyAll (saveAnomalyEvent old new) db = some db')
    (h : AuditableEvents db) : AuditableEvents db' := by
  unfold saveAnomalyEvent at happly
  split at happly
  · cases happly
    exact h
  · rw [StatementSemantics.applyAll_singleton] at happly
    obtain ⟨anomalies, hanomalies, rfl⟩ := apply_anomaly.mp happly
    intro e' he'
    change e' ∈ anomalies.rows at he'
    rw [updateEvent_rows hanomalies] at he'
    obtain ⟨e, he, rfl⟩ := List.mem_map.mp he'
    split
    · exact { h e he with }
    · exact h e he

theorem AuditableEvents.moved {now : Instant} {status : AnomalyStatus} {events : List AnomalyEvent}
    {db db' : Db} (happly : postgres.applyAll (statusStatements now status events) db = some db')
    (h : AuditableEvents db) : AuditableEvents db' := by
  induction events generalizing db with
  | nil =>
    cases happly
    exact h
  | cons e events ih =>
    rw [statusStatements, List.flatMap_cons, StatementSemantics.applyAll_append] at happly
    obtain ⟨mid, hsaved, hrest⟩ := Option.bind_eq_some_iff.mp happly
    exact ih hrest (h.saved hsaved)

/-- The step lemma: what an ingestion leaves is auditable, and a status change keeps it so. -/
theorem AuditableEvents.exec {crypto : AuditCrypto} {s : Store Db} (h : AuditableEvents s.db)
    (hlog : StandardLog s.db) (r : AnomalyRequest) :
    AuditableEvents (s.exec postgres (r.request crypto)).db := by
  have hlog' : StandardLog (s.exec postgres (r.request crypto)).db :=
    Store.exec_invariant (fun _ _ _ happly => StandardLog.apply happly) (r.request crypto) s hlog
  have hends : (r.request crypto).wp postgres (Ends crypto (AnomalyPlan s.db.anomalies r) s.db
      s.sequence) s.db s.db s.sequence := request_ends r
  rcases exec_of_ends s hends with ⟨hdb, -⟩ | ⟨ws, as, hplan, hperformed⟩
  · rw [hdb]
    exact h
  · obtain ⟨mid, rows, happly, hrecorded, hdb⟩ := hperformed.outcome
    have hmid : AuditableEvents mid → AuditableEvents
        (s.exec postgres (r.request crypto)).db := by
      intro hmid
      rw [hdb]
      exact hmid
    apply hmid
    cases hplan with
    | @created env payload actor =>
      obtain ⟨row, _, rfl, happended⟩ := hrecorded.singleton
      rw [StatementSemantics.applyAll_singleton] at happly
      obtain ⟨anomalies, hinsert, rfl⟩ := apply_anomaly.mp happly
      have hrow : isStandard row.metadataJson = true := hlog' row (by simp [hdb])
      have htenants : ∀ id, (s.db.tenancy.tenants.find? id).isSome = true →
          (s.db.tenancy.tenants.rows.any fun tenant => tenant.id == id) = true := by
        intro id hid
        obtain ⟨tenant, htenant⟩ := Option.isSome_iff_exists.mp hid
        obtain ⟨hmem, hkey⟩ := Table.find?_eq_some.mp htenant
        exact List.any_eq_true.mpr ⟨tenant, hmem, beq_iff_eq.mpr hkey⟩
      obtain ⟨stored, hstored, hrows⟩ := auditable_inserted htenants
        (score_standard happended.metadataJson hrow) hinsert
      intro e he
      change e ∈ anomalies.rows at he
      rw [hrows] at he
      rcases List.mem_append.mp he with he | he
      · exact h e he
      · rw [List.mem_singleton.mp he]
        exact hstored
    | unknown =>
      cases happly
      exact h
    | updated => exact h.moved happly
    | bulkUpdated => exact h.moved happly

/-- The run lemma: every anomaly that a run of the service leaves is auditable. -/
theorem auditable_execAll {crypto : AuditCrypto} {s : Store Db} (h : AuditableEvents s.db)
    (hlog : StandardLog s.db) (rs : List AnomalyRequest) :
    AuditableEvents (execAll crypto s rs).db := by
  refine (Store.execAll_preserves (Q := fun _ _ => True)
    (P := fun s => AuditableEvents s.db ∧ StandardLog s.db) ⟨h, hlog⟩ (fun _ _ _ _ => trivial)
    fun s r _ h => ?_).1
  exact ⟨h.1.exec h.2 r, Store.exec_invariant (fun _ _ _ happly => StandardLog.apply happly)
    (r.request crypto) s h.2⟩

/-! ## One transition -/

/-- The append of a transition. -/
def statusAppend (now : Instant) (audit : AppendEnv) (status : AnomalyStatus)
    (actor : Option String) (e : AnomalyEvent) : Append :=
  (audit, statusEntry actor e.status (withStatus now status e))

section

variable {crypto : AuditCrypto} {env : AnomalyEnv} {status : AnomalyStatus} {actor : Option String}
  {durable work : Db} {n k : ℕ} {event : AnomalyEvent} {as : List Append}

/-- An event that was loaded is saved. -/
theorem saveAnomalyEvent_applies (hfind : work.anomalies.find? event.id = some event)
    (new : AnomalyEvent) :
    ∃ work', postgres.applyAll (saveAnomalyEvent event new) work = some work' := by
  unfold saveAnomalyEvent
  split
  · exact ⟨work, rfl⟩
  · obtain ⟨anomalies, hupdate⟩ : ∃ anomalies, work.anomalies.update event.id
        (event.diff new).apply (fun _ => rfl) = some anomalies := Table.update_isSome hfind
    refine ⟨{ work with anomalies := anomalies }, ?_⟩
    rw [StatementSemantics.applyAll_singleton]
    exact apply_anomaly.mpr ⟨anomalies, hupdate, rfl⟩

/-- The rule of a transition whose entry the log takes. -/
theorem transition_admitted (hdigest : ∀ bs, (crypto.sha256 bs).length = 32)
    {post : Except ServiceError Unit → Db → Db → ℕ → Prop}
    (hfind : work.anomalies.find? event.id = some event)
    (h : Admissible crypto work.tenancy.tenants.rows work.auditLog n
      (statusAppend env.now (env.audit k) status actor event :: as))
    (moved : ∀ (anomalies : AnomalyEvents) row,
      anomalies.rows = work.anomalies.rows.map (transitioned env.now status [event.id]) →
      MovedAs crypto env status actor event row →
      Admissible crypto work.tenancy.tenants.rows (work.auditLog ++ [row]) (n + 2) as →
      post (.ok ()) durable
        { work with anomalies := anomalies, auditLog := work.auditLog ++ [row] } (n + 2)) :
    (transition crypto env.now (env.audit k) status actor event).wp postgres post durable work n := by
  obtain ⟨saved, hsaved⟩ := saveAnomalyEvent_applies hfind (withStatus env.now status event)
  obtain ⟨anomalies, hrows, rfl⟩ := applyAll_saveAnomalyEvent hfind hsaved
  let mid : Db := { work with anomalies := anomalies }
  have hmid : Admissible crypto mid.tenancy.tenants.rows mid.auditLog (n + 1)
      (statusAppend env.now (env.audit k) status actor event :: as) := h.later (Nat.le_succ n)
  apply (Request.wp_bind ..).mpr
  apply Request.wp_send_of_some hsaved
  apply (Request.wp_bind ..).mpr
  apply append_admitted hdigest hmid rfl ⟨rfl, rfl⟩
  intro row happended hrest
  exact Request.wp_return (moved anomalies row hrows ⟨k, _, _, happended⟩ hrest)

/-- The rule of a transition by a caller whose name does not fit. -/
theorem transition_refused {now : Instant} {audit : AppendEnv}
    {post : Except ServiceError Unit → Db → Db → ℕ → Prop} (hactor : ¬ ActorFits actor)
    (failed : ∀ error w k, post (.error error) durable w k) :
    (transition crypto now audit status actor event).wp postgres post durable work n := by
  apply (Request.wp_bind ..).mpr
  rw [Request.wp_send]
  constructor
  · exact fun _ => failed _ _ _
  · intro mid _
    apply (Request.wp_bind ..).mpr
    apply append_refused (auditActor_unfit hactor _)
    exact fun _ _ _ => failed _ _ _

/-- The rule of the loop. -/
theorem transitionAll_admitted (hdigest : ∀ bs, (crypto.sha256 bs).length = 32)
    {events : List AnomalyEvent} {post : Except ServiceError Unit → Db → Db → ℕ → Prop}
    (hfind : ∀ e ∈ events, work.anomalies.find? e.id = some e)
    (hnodup : (events.map AnomalyEvent.id).Nodup)
    (h : Admissible crypto work.tenancy.tenants.rows work.auditLog n
      (statusAppends env status actor k events))
    (moved : ∀ (anomalies : AnomalyEvents) rows m,
      anomalies.rows =
        work.anomalies.rows.map (transitioned env.now status (events.map AnomalyEvent.id)) →
      List.Forall₂ (MovedAs crypto env status actor) events rows →
      post (.ok ()) durable
        { work with anomalies := anomalies, auditLog := work.auditLog ++ rows } m) :
    (transitionAll crypto env status actor k events).wp postgres post durable work n := by
  induction events generalizing work k n with
  | nil =>
    have hmoved := moved work.anomalies [] n (by simp) .nil
    rw [List.append_nil] at hmoved
    exact Request.wp_return hmoved
  | cons event events ih =>
    obtain ⟨hnew, hnodup⟩ := List.nodup_cons.mp hnodup
    apply (Request.wp_bind ..).mpr
    apply transition_admitted hdigest (hfind event List.mem_cons_self) h
    intro anomalies row hrows hrow hrest
    apply ih _ hnodup hrest
    · intro anomalies' rows m hrows' hmoved
      have hall := moved anomalies' (row :: rows) m (by
        rw [hrows', hrows, List.map_map, List.map_cons]
        exact List.map_congr_left fun e _ => transitioned_cons hnew e) (.cons hrow hmoved)
      simpa using hall
    · intro e he
      have hne : e.id ≠ event.id := fun heq => hnew (heq ▸ List.mem_map_of_mem he)
      have hmem := (Table.find?_eq_some.mp (hfind e (List.mem_cons_of_mem _ he))).1
      apply Table.find?_eq_some.mpr
      refine ⟨?_, rfl⟩
      rw [hrows]
      exact List.mem_map.mpr ⟨e, hmem, by simp [transitioned, hne]⟩

end

/-! ## What is compared -/

/-- An event but for the time of its resolution, of which only counts whether there is one. -/
def timeless (e : AnomalyEvent) : AnomalyEvent × Bool :=
  ({ e with resolvedAt := none }, e.resolvedAt.isSome)

/-- What an entry says, wherever it stands in the log. The metadata has the identifier of the
anomaly and its statuses. -/
structure Contents where
  severity : AuditSeverity
  eventType : AuditEventType
  eventSubtype : String
  tenantId : Option Uuid
  tenantSlug : Option String
  actor : String
  sourceIp : Option String
  description : String
  metadataJson : Json

def contents (row : AuditLogEntry) : Contents where
  severity := row.severity
  eventType := row.eventType
  eventSubtype := row.eventSubtype
  tenantId := row.tenantId
  tenantSlug := row.tenantSlug
  actor := row.actor
  sourceIp := row.sourceIp
  description := row.description
  metadataJson := row.metadataJson

/-- The calls that change the events one by one, from the `k`-th on. -/
def updateEach (envs : ℕ → AnomalyEnv) (status : AnomalyStatus) (actor : Option String) :
    ℕ → List Uuid → List AnomalyRequest
  | _, [] => []
  | k, id :: ids => .updateStatus (envs k) id status actor :: updateEach envs status actor (k + 1) ids

/-- The events of the identifiers, in their order. -/
def eventsOf (t : AnomalyEvents) (ids : List Uuid) : List AnomalyEvent := ids.filterMap t.find?

/-- The appends of the calls. An unknown identifier has none. -/
def eachAppends (envs : ℕ → AnomalyEnv) (t : AnomalyEvents) (status : AnomalyStatus)
    (actor : Option String) : ℕ → List Uuid → List Append
  | _, [] => []
  | k, id :: ids =>
    ((t.find? id).map (statusAppend (envs k).now ((envs k).audit 0) status actor)).toList ++
      eachAppends envs t status actor (k + 1) ids

/-- Two states that came from `before` are the same but for clocks and for the order of the new
entries. -/
structure SameEffect (before bulk each : Db) : Prop where
  anomalies : bulk.anomalies.rows.map timeless = each.anomalies.rows.map timeless
  log : ∃ rows rows', bulk.auditLog = before.auditLog ++ rows ∧
    each.auditLog = before.auditLog ++ rows' ∧ (rows.map contents).Perm (rows'.map contents)

/-- The response reports each distinct identifier once, as updated or as not found, in the order
of the first occurrences. -/
structure Partitions (t : AnomalyEvents) (eventIds : List Uuid) (response : BulkStatusResponse) :
    Prop where
  updatedIds : response.updatedIds = eventIds.eraseDups.filter fun id => (t.find? id).isSome
  notFoundIds : response.notFoundIds = eventIds.eraseDups.filter fun id => !(t.find? id).isSome
  all : (response.updatedIds ++ response.notFoundIds).Perm eventIds.eraseDups
  requested : response.requested = eventIds.eraseDups.length
  updated : response.updated = response.updatedIds.length
  sum : response.requested = response.updated + response.notFoundIds.length

/-! ## The bulk change -/

section

variable {crypto : AuditCrypto} {env : AnomalyEnv} {status : AnomalyStatus} {actor : Option String}
  {s : Store Db} {eventIds : List Uuid}

theorem mem_eventsWithin {ids : List Uuid} {t : AnomalyEvents} {e : AnomalyEvent} :
    e ∈ eventsWithin env ids t ↔ e ∈ t.rows ∧ e.id ∈ ids := by
  rw [eventsWithin, List.mem_filter, Table.mem_scan, decide_eq_true_eq]

theorem mem_map_eventsWithin {ids : List Uuid} {t : AnomalyEvents} {id : Uuid} (hid : id ∈ ids) :
    id ∈ (eventsWithin env ids t).map AnomalyEvent.id ↔ (t.find? id).isSome := by
  constructor
  · intro hmem
    obtain ⟨e, he, rfl⟩ := List.mem_map.mp hmem
    exact Option.isSome_iff_exists.mpr ⟨e, eventsWithin_find? he⟩
  · intro hsome
    obtain ⟨e, hfind⟩ := Option.isSome_iff_exists.mp hsome
    obtain ⟨hmem, rfl⟩ := Table.find?_eq_some.mp hfind
    exact List.mem_map_of_mem (mem_eventsWithin.mpr ⟨hmem, hid⟩)

/-- The response of a bulk change. -/
def bulkResponse (env : AnomalyEnv) (t : AnomalyEvents) (eventIds : List Uuid)
    (status : AnomalyStatus) : BulkStatusResponse :=
  let foundIds := (eventsWithin env eventIds.eraseDups t).map AnomalyEvent.id
  { newStatus := status.value
    requested := eventIds.eraseDups.length
    updated := (eventIds.eraseDups.filter (· ∈ foundIds)).length
    updatedIds := eventIds.eraseDups.filter (· ∈ foundIds)
    notFoundIds := eventIds.eraseDups.filter (· ∉ foundIds) }

theorem bulkResponse_partitions (t : AnomalyEvents) :
    Partitions t eventIds (bulkResponse env t eventIds status) := by
  have hfound : ∀ id ∈ eventIds.eraseDups,
      decide (id ∈ (eventsWithin env eventIds.eraseDups t).map AnomalyEvent.id) =
        (t.find? id).isSome := by
    intro id hid
    rw [Bool.eq_iff_iff, decide_eq_true_eq]
    exact mem_map_eventsWithin hid
  have hupdated : (bulkResponse env t eventIds status).updatedIds =
      eventIds.eraseDups.filter fun id => (t.find? id).isSome := List.filter_congr hfound
  have hnotFound : (bulkResponse env t eventIds status).notFoundIds =
      eventIds.eraseDups.filter fun id => !(t.find? id).isSome := by
    apply List.filter_congr
    intro id hid
    rw [decide_not, hfound id hid]
  have hall : ((bulkResponse env t eventIds status).updatedIds ++
      (bulkResponse env t eventIds status).notFoundIds).Perm eventIds.eraseDups := by
    rw [hupdated, hnotFound]
    exact List.filter_append_perm _ _
  refine ⟨hupdated, hnotFound, hall, rfl, rfl, ?_⟩
  have hlength := hall.length_eq
  rw [List.length_append] at hlength
  exact hlength.symm

/-- A bulk change whose entries the log takes moves its events. -/
theorem bulk_admitted (hdigest : ∀ bs, (crypto.sha256 bs).length = 32)
    (h : Admissible crypto s.db.tenancy.tenants.rows s.db.auditLog s.sequence
      (statusAppends env status actor 0 (eventsWithin env eventIds.eraseDups s.db.anomalies))) :
    (bulkUpdateAnomalyStatus crypto env eventIds status actor).wp postgres
      (fun result durable _ _ =>
        result = .ok (bulkResponse env s.db.anomalies eventIds status) ∧
        ∃ (anomalies : AnomalyEvents) (rows : List AuditLogEntry),
          durable = { s.db with anomalies := anomalies, auditLog := s.db.auditLog ++ rows } ∧
          anomalies.rows =
            s.db.anomalies.rows.map (transitioned env.now status eventIds.eraseDups) ∧
          List.Forall₂ (MovedAs crypto env status actor)
            (eventsWithin env eventIds.eraseDups s.db.anomalies) rows)
      s.db s.db s.sequence := by
  apply (Request.wp_bind ..).mpr
  rw [Request.wp_select]
  apply (Request.wp_bind ..).mpr
  apply transitionAll_admitted hdigest (fun e he => eventsWithin_find? he)
    (eventsWithin_nodup _ _ _) h
  intro anomalies rows m hrows hmoved
  apply Request.wp_commitTransaction_bind
  refine Request.wp_return ⟨rfl, anomalies, rows, rfl, ?_, hmoved⟩
  rw [hrows]
  apply List.map_congr_left
  intro e he
  have hmem : e.id ∈ (eventsWithin env eventIds.eraseDups s.db.anomalies).map AnomalyEvent.id ↔
      e.id ∈ eventIds.eraseDups := by
    constructor
    · intro hid
      obtain ⟨e', he', heq⟩ := List.mem_map.mp hid
      exact heq ▸ (mem_eventsWithin.mp he').2
    · intro hid
      exact List.mem_map_of_mem (mem_eventsWithin.mpr ⟨he, hid⟩)
  unfold transitioned
  simp only [hmem]

/-- A bulk change by a caller whose name does not fit is answered only where it finds no event, and
leaves the database. -/
theorem bulk_refused (hactor : ¬ ActorFits actor) :
    (bulkUpdateAnomalyStatus crypto env eventIds status actor).wp postgres
      (fun result durable _ _ => durable = s.db ∧ ∀ response, result = .ok response →
        response = bulkResponse env s.db.anomalies eventIds status) s.db s.db s.sequence := by
  apply (Request.wp_bind ..).mpr
  rw [Request.wp_select]
  apply (Request.wp_bind ..).mpr
  cases hevents : eventsWithin env eventIds.eraseDups s.db.anomalies with
  | nil =>
    apply Request.wp_return
    apply Request.wp_commitTransaction_bind
    refine Request.wp_return ⟨rfl, fun response hresponse => ?_⟩
    rw [← Except.ok.inj hresponse, bulkResponse, hevents]
  | cons event events =>
    apply (Request.wp_bind ..).mpr
    apply transition_refused hactor
    exact fun error _ _ => ⟨rfl, fun _ hok => nomatch hok⟩

end

/-! ## The calls one by one -/

section

variable {crypto : AuditCrypto} {env : AnomalyEnv} {envs : ℕ → AnomalyEnv} {status : AnomalyStatus}
  {actor : Option String} {s : Store Db}

theorem update_unknown {id : Uuid} (hfind : s.db.anomalies.find? id = none) :
    s.exec postgres ((AnomalyRequest.updateStatus env id status actor).request crypto) = s := by
  simp [AnomalyRequest.request, updateAnomalyStatus, Request.select, Store.exec, Request.serial,
    hfind]

/-- The rule of one call whose entry the log takes. -/
theorem updateAnomalyStatus_admitted (hdigest : ∀ bs, (crypto.sha256 bs).length = 32)
    {event : AnomalyEvent} {as : List Append}
    {post : Except ServiceError (Option AnomalyEvent) → Db → Db → ℕ → Prop}
    (hfind : s.db.anomalies.find? event.id = some event)
    (h : Admissible crypto s.db.tenancy.tenants.rows s.db.auditLog s.sequence
      (statusAppend env.now (env.audit 0) status actor event :: as))
    (moved : ∀ (anomalies : AnomalyEvents) row,
      anomalies.rows = s.db.anomalies.rows.map (transitioned env.now status [event.id]) →
      MovedAs crypto env status actor event row →
      Admissible crypto s.db.tenancy.tenants.rows (s.db.auditLog ++ [row]) (s.sequence + 2) as →
      ∀ db, db = { s.db with anomalies := anomalies, auditLog := s.db.auditLog ++ [row] } →
        post (.ok (some (withStatus env.now status event))) db db (s.sequence + 2)) :
    (updateAnomalyStatus crypto env event.id status actor).wp postgres post s.db s.db s.sequence := by
  have hmem := (Table.find?_eq_some.mp hfind).1
  apply (Request.wp_bind ..).mpr
  rw [Request.wp_select, hfind]
  apply (Request.wp_bind ..).mpr
  apply transition_admitted hdigest hfind h
  intro anomalies row hrows hmoved hrest
  have hfind' : anomalies.find? event.id = some (withStatus env.now status event) := by
    apply Table.find?_eq_some.mpr
    refine ⟨?_, rfl⟩
    rw [hrows]
    exact List.mem_map.mpr ⟨event, hmem, by simp [transitioned]⟩
  apply Request.wp_commitTransaction_bind
  apply (Request.wp_bind ..).mpr
  apply (Request.wp_bind ..).mpr
  rw [Request.wp_select]
  apply wp_found_of_some hfind'
  exact Request.wp_return (moved anomalies row hrows hmoved hrest _ rfl)

theorem update_admitted (hdigest : ∀ bs, (crypto.sha256 bs).length = 32) {event : AnomalyEvent}
    {as : List Append} (hfind : s.db.anomalies.find? event.id = some event)
    (h : Admissible crypto s.db.tenancy.tenants.rows s.db.auditLog s.sequence
      (statusAppend env.now (env.audit 0) status actor event :: as)) :
    ∃ (anomalies : AnomalyEvents) (row : AuditLogEntry),
      s.exec postgres ((AnomalyRequest.updateStatus env event.id status actor).request crypto) =
        ⟨{ s.db with anomalies := anomalies, auditLog := s.db.auditLog ++ [row] },
          s.sequence + 2⟩ ∧
      anomalies.rows = s.db.anomalies.rows.map (transitioned env.now status [event.id]) ∧
      MovedAs crypto env status actor event row ∧
      Admissible crypto s.db.tenancy.tenants.rows (s.db.auditLog ++ [row]) (s.sequence + 2) as := by
  refine Store.exec_sound (P := fun db m => ∃ (anomalies : AnomalyEvents) (row : AuditLogEntry),
    (⟨db, m⟩ : Store Db) = ⟨{ s.db with
      anomalies := anomalies, auditLog := s.db.auditLog ++ [row] }, s.sequence + 2⟩ ∧
    anomalies.rows = s.db.anomalies.rows.map (transitioned env.now status [event.id]) ∧
    MovedAs crypto env status actor event row ∧
    Admissible crypto s.db.tenancy.tenants.rows (s.db.auditLog ++ [row]) (s.sequence + 2) as) s ?_
  apply Request.wp_answer
  apply updateAnomalyStatus_admitted hdigest hfind h
  intro anomalies row hrows hmoved hrest db hdb
  subst hdb
  exact ⟨anomalies, row, rfl, hrows, hmoved, hrest⟩

/-- A call whose entry the log takes is answered. -/
theorem update_answered (hdigest : ∀ bs, (crypto.sha256 bs).length = 32) {event : AnomalyEvent}
    (hfind : s.db.anomalies.find? event.id = some event)
    (h : Admissible crypto s.db.tenancy.tenants.rows s.db.auditLog s.sequence
      [statusAppend env.now (env.audit 0) status actor event]) :
    Answered (updateAnomalyStatus crypto env event.id status actor) s := by
  apply answered_of_wp
  apply updateAnomalyStatus_admitted hdigest hfind h
  intro _ _ _ _ _ _ _
  exact ⟨_, rfl⟩

theorem update_refused (hactor : ¬ ActorFits actor) (id : Uuid) :
    (s.exec postgres ((AnomalyRequest.updateStatus env id status actor).request crypto)).db =
      s.db := by
  refine Store.exec_sound (P := fun db _ => db = s.db) s ?_
  apply Request.wp_answer
  apply (Request.wp_bind ..).mpr
  rw [Request.wp_select]
  cases hfind : s.db.anomalies.find? id with
  | none => exact Request.wp_return rfl
  | some event =>
    apply (Request.wp_bind ..).mpr
    apply transition_refused hactor
    exact fun _ _ _ => rfl

/-- The calls of a caller whose name does not fit leave the database. -/
theorem each_refused (hactor : ¬ ActorFits actor) (k : ℕ) (ids : List Uuid) :
    (execAll crypto s (updateEach envs status actor k ids)).db = s.db := by
  induction ids generalizing s k with
  | nil => rfl
  | cons id ids ih =>
    have hfirst : (s.exec postgres ((AnomalyRequest.updateStatus (envs k) id status actor).request
        crypto)).db = s.db := update_refused hactor id
    exact (ih (k + 1)).trans hfirst

/-- The clock of a transition leaves no other trace. -/
theorem timeless_transitioned (now now' : Instant) (ids : List Uuid) (e : AnomalyEvent) :
    timeless (transitioned now status ids e) = timeless (transitioned now' status ids e) := by
  unfold transitioned
  split
  · cases status <;> rfl
  · rfl

/-- An event that is not named stays. -/
theorem find?_transitioned {t t' : AnomalyEvents} {now : Instant} {ids : List Uuid} {id : Uuid}
    (hrows : t'.rows = t.rows.map (transitioned now status ids)) (hid : id ∉ ids) :
    t'.find? id = t.find? id := by
  rw [Table.find?, Table.find?, hrows, List.find?_map]
  simp only [Function.comp_def, transitioned_id]
  cases hfind : t.rows.find? fun e => e.id = id with
  | none => rfl
  | some e =>
    have hkey : e.id = id := by simpa using List.find?_some hfind
    rw [Option.map_some, transitioned, if_neg (hkey ▸ hid)]

/-- What calls for some identifiers leave: the events of these have moved, but for the clocks, and
each has its entry. -/
def LeavesMoved (crypto : AuditCrypto) (status : AnomalyStatus) (actor : Option String)
    (now : Instant) (ids : List Uuid) (events : List AnomalyEvent) (before after : Db) : Prop :=
  ∃ (anomalies : AnomalyEvents) (rows : List AuditLogEntry),
    after = { before with anomalies := anomalies, auditLog := before.auditLog ++ rows } ∧
    anomalies.rows.map timeless =
      before.anomalies.rows.map (fun e => timeless (transitioned now status ids e)) ∧
    List.Forall₂ (fun e row => ∃ env, MovedAs crypto env status actor e row) events rows

section

variable {now : Instant} {ids : List Uuid} {events : List AnomalyEvent} {before after : Db}

theorem LeavesMoved.nil : LeavesMoved crypto status actor now [] [] before before := by
  refine ⟨before.anomalies, [], ?_, ?_, .nil⟩
  · simp
  · simp

/-- A call for an unknown identifier leaves nothing. -/
theorem LeavesMoved.unknown (h : LeavesMoved crypto status actor now ids events before after)
    {id : Uuid} (hfind : before.anomalies.find? id = none) :
    LeavesMoved crypto status actor now (id :: ids) events before after := by
  obtain ⟨anomalies, rows, hdb, hrows, hmoved⟩ := h
  refine ⟨anomalies, rows, hdb, ?_, hmoved⟩
  rw [hrows]
  apply List.map_congr_left
  intro e he
  have hne : e.id ≠ id := Table.find?_eq_none.mp hfind e he
  simp [transitioned, hne]

/-- A call for an event comes before the other ones. -/
theorem LeavesMoved.cons {env : AnomalyEnv} {event : AnomalyEvent} {anomalies : AnomalyEvents}
    {row : AuditLogEntry} (hnew : event.id ∉ ids)
    (hrows : anomalies.rows = before.anomalies.rows.map (transitioned env.now status [event.id]))
    (hmoved : MovedAs crypto env status actor event row)
    (h : LeavesMoved crypto status actor now ids events
      { before with anomalies := anomalies, auditLog := before.auditLog ++ [row] } after) :
    LeavesMoved crypto status actor now (event.id :: ids) (event :: events) before after := by
  obtain ⟨anomalies', rows, hdb, hrows', hmoved'⟩ := h
  refine ⟨anomalies', row :: rows, ?_, ?_, .cons ⟨env, hmoved⟩ hmoved'⟩
  · rw [hdb]
    simp
  · rw [hrows', hrows, List.map_map]
    apply List.map_congr_left
    intro e _
    rw [Function.comp_apply, timeless_transitioned now env.now, transitioned_cons hnew,
      timeless_transitioned]

end

theorem execAll_updateEach_cons (k : ℕ) (id : Uuid) (ids : List Uuid) :
    execAll crypto s (updateEach envs status actor k (id :: ids)) =
      execAll crypto (s.exec postgres ((AnomalyRequest.updateStatus (envs k) id status
        actor).request crypto)) (updateEach envs status actor (k + 1) ids) := rfl

/-- The calls whose entries the log takes move the events of the identifiers. -/
theorem each_admitted (hdigest : ∀ bs, (crypto.sha256 bs).length = 32) (now : Instant)
    {t : AnomalyEvents} {ids : List Uuid} (hnodup : ids.Nodup) {k : ℕ}
    (hsame : ∀ id ∈ ids, s.db.anomalies.find? id = t.find? id)
    (h : Admissible crypto s.db.tenancy.tenants.rows s.db.auditLog s.sequence
      (eachAppends envs t status actor k ids)) :
    LeavesMoved crypto status actor now ids (eventsOf t ids) s.db
      (execAll crypto s (updateEach envs status actor k ids)).db := by
  induction ids generalizing s k with
  | nil => exact .nil
  | cons id ids ih =>
    obtain ⟨hnew, hrest⟩ := List.nodup_cons.mp hnodup
    have hhead := hsame id List.mem_cons_self
    rw [execAll_updateEach_cons]
    cases hfind : t.find? id with
    | none =>
      rw [hfind] at hhead
      rw [eachAppends, hfind, Option.map_none, Option.toList_none, List.nil_append] at h
      rw [eventsOf, List.filterMap_cons_none hfind, update_unknown hhead]
      exact (ih hrest (fun id' hid' => hsame id' (List.mem_cons_of_mem _ hid')) h).unknown hhead
    | some event =>
      obtain ⟨-, rfl⟩ := Table.find?_eq_some.mp hfind
      rw [hfind] at hhead
      rw [eachAppends, hfind, Option.map_some, Option.toList_some, List.singleton_append] at h
      obtain ⟨anomalies, row, hexec, hrows, hmoved, hadmissible⟩ :=
        update_admitted hdigest hhead h
      have hkept : ∀ id ∈ ids, anomalies.find? id = t.find? id := by
        intro id hid
        have hother : id ∉ [event.id] := by
          intro hmem
          exact hnew (List.mem_singleton.mp hmem ▸ hid)
        rw [find?_transitioned hrows hother]
        exact hsame id (List.mem_cons_of_mem _ hid)
      rw [eventsOf, List.filterMap_cons_some hfind, hexec]
      exact .cons hnew hrows hmoved (ih hrest hkept hadmissible)

end

/-! ## The comparison -/

section

variable {crypto : AuditCrypto} {env env' : AnomalyEnv} {envs : ℕ → AnomalyEnv}
  {status : AnomalyStatus} {actor : Option String} {event : AnomalyEvent}
  {row row' : AuditLogEntry} {t : AnomalyEvents}

/-- The entries of an event say the same, whichever request appends them. -/
theorem contents_eq (h : MovedAs crypto env status actor event row)
    (h' : MovedAs crypto env' status actor event row') : contents row = contents row' := by
  obtain ⟨_, _, _, h⟩ := h
  obtain ⟨_, _, _, h'⟩ := h'
  have hseverity := Option.some.inj (h.severity.symm.trans h'.severity)
  have htype := Option.some.inj (h.eventType.symm.trans h'.eventType)
  have hsubtype := Option.some.inj (h.eventSubtype.symm.trans h'.eventSubtype)
  have htenant := h.tenantId.trans h'.tenantId.symm
  have hslug := Option.some.inj (h.tenantSlug.symm.trans h'.tenantSlug)
  have hactor := Option.some.inj (h.actor.symm.trans h'.actor)
  have hsource := Option.some.inj (h.sourceIp.symm.trans h'.sourceIp)
  have hdescription := h.description.trans h'.description.symm
  have hmetadata := h.metadataJson.trans h'.metadataJson.symm
  simp only [contents, hseverity, htype, hsubtype, htenant, hslug, hactor, hsource, hdescription,
    hmetadata]

theorem contents_forall₂ {events : List AnomalyEvent} {rows rows' : List AuditLogEntry}
    (h : List.Forall₂ (MovedAs crypto env status actor) events rows)
    (h' : List.Forall₂ (fun e row => ∃ env, MovedAs crypto env status actor e row) events rows') :
    rows.map contents = rows'.map contents := by
  induction h generalizing rows' with
  | nil =>
    cases h'
    rfl
  | cons hrow _ ih =>
    cases h' with
    | cons hrow' hrest =>
      obtain ⟨_, hrow'⟩ := hrow'
      rw [List.map_cons, List.map_cons, contents_eq hrow hrow', ih hrest]

/-- The query returns the events of the distinct identifiers in some order. -/
theorem eventsWithin_perm {ids : List Uuid} (hnodup : ids.Nodup) :
    (eventsOf t ids).Perm (eventsWithin env ids t) := by
  have hof : (eventsOf t ids).Nodup := by
    apply hnodup.filterMap
    intro id id' e he he'
    exact (Table.find?_eq_some.mp he).2.symm.trans (Table.find?_eq_some.mp he').2
  have hwithin : (eventsWithin env ids t).Nodup := .of_map _ (eventsWithin_nodup env ids t)
  rw [List.perm_ext_iff_of_nodup hof hwithin]
  intro e
  rw [mem_eventsWithin, eventsOf, List.mem_filterMap]
  constructor
  · rintro ⟨id, hid, hfind⟩
    obtain ⟨hmem, rfl⟩ := Table.find?_eq_some.mp hfind
    exact ⟨hmem, hid⟩
  · rintro ⟨hmem, hid⟩
    exact ⟨e.id, hid, Table.find?_of_mem hmem⟩

theorem payload_statusAppends {P : AuditLogEntryCreate → Prop} {events : List AnomalyEvent} {k : ℕ}
    (h : ∀ e ∈ events, P (statusEntry actor e.status (withStatus env.now status e))) :
    ∀ a ∈ statusAppends env status actor k events, P a.2 := by
  induction events generalizing k with
  | nil => exact fun a ha => nomatch ha
  | cons event events ih =>
    intro a ha
    rcases List.mem_cons.mp ha with rfl | ha
    · exact h event List.mem_cons_self
    · exact ih (fun e he => h e (List.mem_cons_of_mem _ he)) a ha

theorem payload_eachAppends {P : AuditLogEntryCreate → Prop} {ids : List Uuid} {k : ℕ}
    (h : ∀ e ∈ t.rows, ∀ now, P (statusEntry actor e.status (withStatus now status e))) :
    ∀ a ∈ eachAppends envs t status actor k ids, P a.2 := by
  induction ids generalizing k with
  | nil => exact fun a ha => nomatch ha
  | cons id ids ih =>
    intro a ha
    rcases List.mem_append.mp ha with ha | ha
    · obtain ⟨e, hfind, rfl⟩ := Option.map_eq_some_iff.mp (Option.mem_toList.mp ha)
      exact h e (Table.find?_eq_some.mp hfind).1 _
    · exact ih a ha

end

/-- What the requests rely on: a hash has 32 bytes, the name of the key fits its column, and what
either way draws and computes for its entries is new. -/
structure Surroundings (crypto : AuditCrypto) (s : Store Db) (env : AnomalyEnv)
    (envs : ℕ → AnomalyEnv) (eventIds : List Uuid) (status : AnomalyStatus)
    (actor : Option String) : Prop where
  sha256_length : ∀ bs, (crypto.sha256 bs).length = 32
  signingKeyId : (varchar 60 crypto.signingKeyId).isSome
  bulk : Fresh crypto s.db.auditLog s.sequence
    (statusAppends env status actor 0 (eventsWithin env eventIds.eraseDups s.db.anomalies))
  each : Fresh crypto s.db.auditLog s.sequence
    (eachAppends envs s.db.anomalies status actor 0 eventIds.eraseDups)

/-- A bulk change leaves what the changes of the distinct identifiers one by one leave, and its
response reports each of them once. -/
theorem bulk_equals_one_by_one {crypto : AuditCrypto} {s : Store Db} {env : AnomalyEnv}
    {envs : ℕ → AnomalyEnv} {eventIds : List Uuid} {status : AnomalyStatus} {actor : Option String}
    (hevents : AuditableEvents s.db)
    (hsurroundings : Surroundings crypto s env envs eventIds status actor) :
    SameEffect s.db (s.exec postgres (bulkUpdateAnomalyStatus crypto env eventIds status actor)).db
        (execAll crypto s (updateEach envs status actor 0 eventIds.eraseDups)).db ∧
      (ActorFits actor → ∃ response,
        ((bulkUpdateAnomalyStatus crypto env eventIds status actor).serial postgres s.db s.db
          s.sequence).result = .ok response) ∧
      ∀ response, ((bulkUpdateAnomalyStatus crypto env eventIds status actor).serial postgres s.db
        s.db s.sequence).result = .ok response → Partitions s.db.anomalies eventIds response := by
  by_cases hactor : ActorFits actor
  · have hbulk : Admissible crypto s.db.tenancy.tenants.rows s.db.auditLog s.sequence
        (statusAppends env status actor 0
          (eventsWithin env eventIds.eraseDups s.db.anomalies)) :=
      { hsurroundings.bulk with
        payloads := payload_statusAppends fun e he => statusEntry_acceptable
          (hevents e (mem_eventsWithin.mp he).1) hactor hsurroundings.signingKeyId }
    have heach : Admissible crypto s.db.tenancy.tenants.rows s.db.auditLog s.sequence
        (eachAppends envs s.db.anomalies status actor 0 eventIds.eraseDups) :=
      { hsurroundings.each with
        payloads := payload_eachAppends fun e he _ => statusEntry_acceptable (hevents e he) hactor
          hsurroundings.signingKeyId }
    have hnodup : eventIds.eraseDups.Nodup := GroupedCounts.nodup_eraseDups _
    obtain ⟨_, hresult, anomalies, rows, hdb, hrows, hmoved⟩ :=
      Request.serial_sound (bulk_admitted hsurroundings.sha256_length hbulk)
    obtain ⟨anomalies', rows', hdb', hrows', hmoved'⟩ :=
      each_admitted hsurroundings.sha256_length env.now hnodup (fun _ _ => rfl) heach
    refine ⟨⟨?_, rows, rows', ?_, ?_, ?_⟩, fun _ => ⟨_, hresult⟩, fun response hresponse => ?_⟩
    · rw [hdb', Store.exec, hdb]
      rw [hrows, hrows', List.map_map]
      rfl
    · rw [Store.exec, hdb]
    · rw [hdb']
    · -- the events are the same, in two orders
      obtain ⟨reordered, hforall, hperm⟩ := List.perm_comp_forall₂ (eventsWithin_perm hnodup) hmoved
      rw [← contents_forall₂ hforall hmoved']
      exact (hperm.map contents).symm
    · rw [hresult] at hresponse
      exact Except.ok.inj hresponse ▸ bulkResponse_partitions s.db.anomalies
  · have hrefused : (bulkUpdateAnomalyStatus crypto env eventIds status actor).wp postgres
        (fun result durable _ _ => durable = s.db ∧ ∀ response, result = .ok response →
          response = bulkResponse env s.db.anomalies eventIds status) s.db s.db s.sequence :=
      bulk_refused hactor
    obtain ⟨_, hdb, hanswer⟩ := Request.serial_sound hrefused
    have hdb' : (execAll crypto s (updateEach envs status actor 0 eventIds.eraseDups)).db = s.db :=
      each_refused hactor 0 eventIds.eraseDups
    refine ⟨⟨?_, [], [], ?_, ?_, .nil⟩, fun hfits => absurd hfits hactor,
      fun response hresponse => ?_⟩
    · rw [hdb', Store.exec, hdb]
    · rw [Store.exec, hdb, List.append_nil]
    · rw [hdb', List.append_nil]
    · exact hanswer response hresponse ▸ bulkResponse_partitions s.db.anomalies

/-! ## A bulk change with a repeated and an unknown identifier -/

def sampleAnomalies : Store Db :=
  execAll sha256Crypto ⟨emptyDb, 1⟩
    [.create (sampleAnomalyEnv 0) (sampleAnomaly []) none,
      .create (sampleAnomalyEnv 1) (sampleAnomaly []) (some "soc@example.com")]

def sampleIds : List Uuid := [501, 999, 500, 501]

theorem bulk_equals_one_by_one_sample :
    let bulk := bulkUpdateAnomalyStatus sha256Crypto (sampleAnomalyEnv 2) sampleIds .resolved
      (some "ops@example.com")
    SameEffect sampleAnomalies.db (sampleAnomalies.exec postgres bulk).db
        (execAll sha256Crypto sampleAnomalies (updateEach (fun k => sampleAnomalyEnv (3 + k))
          .resolved (some "ops@example.com") 0 sampleIds.eraseDups)).db ∧
      ∃ response, (bulk.serial postgres sampleAnomalies.db sampleAnomalies.db
          sampleAnomalies.sequence).result = .ok response ∧
        Partitions sampleAnomalies.db.anomalies sampleIds response := by
  have hfresh : Fresh sha256Crypto sampleAnomalies.db.auditLog sampleAnomalies.sequence
      (statusAppends (sampleAnomalyEnv 2) .resolved (some "ops@example.com") 0
        (eventsWithin (sampleAnomalyEnv 2) sampleIds.eraseDups sampleAnomalies.db.anomalies)) ∧
      Fresh sha256Crypto sampleAnomalies.db.auditLog sampleAnomalies.sequence
        (eachAppends (fun k => sampleAnomalyEnv (3 + k)) sampleAnomalies.db.anomalies .resolved
          (some "ops@example.com") 0 sampleIds.eraseDups) := by
    decide +kernel
  have hsurroundings : Surroundings sha256Crypto sampleAnomalies (sampleAnomalyEnv 2)
      (fun k => sampleAnomalyEnv (3 + k)) sampleIds .resolved (some "ops@example.com") :=
    ⟨Sha256.length_sha256, by decide, hfresh.1, hfresh.2⟩
  have hevents : AuditableEvents sampleAnomalies.db :=
    auditable_execAll (s := ⟨emptyDb, 1⟩) (fun _ he => nomatch he) (fun _ hr => nomatch hr) _
  have hactor : ActorFits (some "ops@example.com") := by
    intro name hname _
    rw [← Option.some.inj hname]
    decide
  obtain ⟨hsame, hanswered, hpartitions⟩ := bulk_equals_one_by_one hevents hsurroundings
  obtain ⟨response, hresponse⟩ := hanswered hactor
  exact ⟨hsame, response, hresponse, hpartitions response hresponse⟩

end NexusEngine.AnomalyBulkUpdates
