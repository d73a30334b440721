import NexusEngine.AnomalyHistories
import NexusEngine.ApiRequests
import NexusEngine.AuthLifecycle

/-!
# What changes a history

The history of an anomaly is answered from the entries of its type in the log. Apart from its own
lifecycle, a request changes it with one row: an entry of a user that names the anomaly, or a row
of any anomaly with a document that the query cannot decode.
-/

namespace NexusEngine.AnomalyHistoryFrame

open TransactionalRequests PythonText StoredColumns KeyedTables AnomalyTables AuditLogTable Database
  AuditService AuditAppends AnomalyService AnomalyLifecycle AuditTrails QuietRequests JsonFieldText
  AnomalyHistory AnomalyHistories ApiRequests

/-! ## Rows that an answer depends on -/

/-- The row is about the anomaly, or fails the query. -/
def touches (eventId : Uuid) (row : AuditLogEntry) : Bool :=
  !isSearchable row || concerns eventId row

theorem touches_eventType {eventId : Uuid} {row : AuditLogEntry} (h : touches eventId row = true) :
    row.eventType = .anomalyDetected := by
  rcases Bool.or_eq_true_iff.mp h with h | h
  · by_contra hne
    simp [isSearchable, hne] at h
  · exact concerns_eventType h

theorem all_searchable_iff (eventId : Uuid) (log : List AuditLogEntry) :
    (log.filter (touches eventId)).all isSearchable = log.all isSearchable := by
  refine Bool.eq_iff_iff.mpr ?_
  simp only [List.all_eq_true, List.mem_filter]
  constructor
  · intro h row hrow
    by_contra hnot
    exact hnot (h row ⟨hrow, by simp [touches, hnot]⟩)
  · exact fun h row hrow => h row hrow.1

theorem filter_concerns (eventId : Uuid) (log : List AuditLogEntry) :
    (log.filter (touches eventId)).filter (concerns eventId) = log.filter (concerns eventId) := by
  rw [List.filter_filter]
  refine List.filter_congr fun row _ => ?_
  simp only [touches]
  cases concerns eventId row with
  | true => simp
  | false => simp

/-- An answer depends on whether the anomaly exists, and on the rows that touch its history. -/
theorem historyAnswer_congr {eventId : Uuid} {db db' : Db}
    (hexists : (db'.anomalies.find? eventId).isSome = (db.anomalies.find? eventId).isSome)
    (hrows : db'.auditLog.filter (touches eventId) = db.auditLog.filter (touches eventId)) :
    historyAnswer eventId db' = historyAnswer eventId db := by
  have hall : db'.auditLog.all isSearchable = db.auditLog.all isSearchable := by
    rw [← all_searchable_iff eventId, hrows, all_searchable_iff]
  have htrail : trail (concerns eventId) db'.auditLog = trail (concerns eventId) db.auditLog := by
    unfold trail
    rw [← filter_concerns, hrows, filter_concerns]
  unfold historyAnswer
  rw [hall, htrail]
  cases hfind : db.anomalies.find? eventId with
  | none =>
    rw [hfind] at hexists
    rw [Option.isNone_iff_eq_none.mp (Option.isSome_eq_false_iff.mp hexists)]
  | some e =>
    rw [hfind] at hexists
    obtain ⟨e', he'⟩ := Option.isSome_iff_exists.mp hexists
    rw [he']

theorem find?_isSome_iff {t : AnomalyEvents} {eventId : Uuid} :
    (t.find? eventId).isSome = true ↔ eventId ∈ t.rows.map AnomalyEvent.id := by
  rw [Option.isSome_iff_exists, List.mem_map]
  exact exists_congr fun e => Table.find?_eq_some

theorem find?_isSome_congr {t t' : AnomalyEvents}
    (h : t'.rows.map subject = t.rows.map subject) (eventId : Uuid) :
    (t'.find? eventId).isSome = (t.find? eventId).isSome := by
  have hids : t'.rows.map AnomalyEvent.id = t.rows.map AnomalyEvent.id := by
    have hfst := congrArg (List.map Prod.fst) h
    rwa [List.map_map, List.map_map] at hfst
  rw [Bool.eq_iff_iff, find?_isSome_iff, find?_isSome_iff, hids]

/-! ## One row more -/

theorem mapM_isSome {rows : List AuditLogEntry} :
    (rows.mapM historyEntry).isSome ↔ ∀ row ∈ rows, (historyEntry row).isSome := by
  induction rows with
  | nil => simp
  | cons row rows ih =>
    rw [List.mapM_cons, List.forall_mem_cons, ← ih]
    cases historyEntry row with
    | none => simp
    | some entry =>
      cases rows.mapM historyEntry with
      | none => simp
      | some entries => simp

theorem mapM_length {rows : List AuditLogEntry} {entries : List AnomalyHistoryEntry}
    (h : rows.mapM historyEntry = some entries) : entries.length = rows.length := by
  induction rows generalizing entries with
  | nil =>
    cases h
    rfl
  | cons row rows ih =>
    rw [List.mapM_cons] at h
    obtain ⟨entry, -, h⟩ := Option.bind_eq_some_iff.mp h
    obtain ⟨rest, hrest, h⟩ := Option.bind_eq_some_iff.mp h
    cases h
    rw [List.length_cons, List.length_cons, ih hrest]

theorem mem_trail {selects : AuditLogEntry → Bool} {log : List AuditLogEntry}
    {row : AuditLogEntry} : row ∈ trail selects log ↔ row ∈ log ∧ selects row = true :=
  mem_inSequenceOrder.trans List.mem_filter

theorem trail_length (selects : AuditLogEntry → Bool) (log : List AuditLogEntry) :
    (trail selects log).length = (log.filter selects).length :=
  (List.perm_insertionSort _ _).length_eq

/-- The row changes the answer: the query has not failed before, and fails at the row, or finds the
row after others that can all be shown. -/
def Changes (db : Db) (eventId : Uuid) (row : AuditLogEntry) : Prop :=
  (db.anomalies.find? eventId).isSome ∧ db.auditLog.all isSearchable = true ∧
    (isSearchable row = false ∨ concerns eventId row = true ∧
      ∀ r ∈ db.auditLog, concerns eventId r = true → (historyEntry r).isSome)

theorem historyAnswer_unknown {eventId : Uuid} {db : Db}
    (h : (db.anomalies.find? eventId).isSome = false) :
    historyAnswer eventId db = .error (.http 404 "Anomaly not found") := by
  unfold historyAnswer
  rw [Option.isNone_iff_eq_none.mp (Option.isSome_eq_false_iff.mp h)]

theorem historyAnswer_rejected {eventId : Uuid} {db : Db}
    (hexists : (db.anomalies.find? eventId).isSome = true)
    (hall : db.auditLog.all isSearchable = false) :
    historyAnswer eventId db = .error .rejected := by
  obtain ⟨event, hevent⟩ := Option.isSome_iff_exists.mp hexists
  unfold historyAnswer
  rw [hevent, hall]
  rfl

theorem historyAnswer_searchable {eventId : Uuid} {db : Db}
    (hexists : (db.anomalies.find? eventId).isSome = true)
    (hall : db.auditLog.all isSearchable = true) :
    historyAnswer eventId db =
      match (trail (concerns eventId) db.auditLog).mapM historyEntry with
      | none => .error .exception
      | some entries => .ok entries := by
  obtain ⟨event, hevent⟩ := Option.isSome_iff_exists.mp hexists
  unfold historyAnswer
  rw [hevent, hall]
  rfl

/-- A row about the anomaly, where the query succeeds. -/
theorem historyAnswer_concerned {eventId : Uuid} {db db' : Db} {row : AuditLogEntry}
    (hexists : (db.anomalies.find? eventId).isSome = true)
    (hexists' : (db'.anomalies.find? eventId).isSome = true)
    (hlog : db'.auditLog = db.auditLog ++ [row]) (hall : db.auditLog.all isSearchable = true)
    (hrow : isSearchable row = true) (hconcerns : concerns eventId row = true) :
    historyAnswer eventId db' = historyAnswer eventId db ↔
      ¬ ∀ r ∈ db.auditLog, concerns eventId r = true → (historyEntry r).isSome := by
  have hall' : db'.auditLog.all isSearchable = true := by
    rw [hlog, List.all_append, hall]
    simp [hrow]
  rw [historyAnswer_searchable hexists' hall', historyAnswer_searchable hexists hall]
  cases hentries : (trail (concerns eventId) db.auditLog).mapM historyEntry with
  | none =>
    have hnot : ¬ ∀ r ∈ trail (concerns eventId) db.auditLog, (historyEntry r).isSome := fun h => by
      simpa [hentries] using mapM_isSome.mpr h
    have hnone : (trail (concerns eventId) db'.auditLog).mapM historyEntry = none := by
      refine Option.not_isSome_iff_eq_none.mp fun hsome => hnot fun r hr => ?_
      obtain ⟨hmem, hr⟩ := mem_trail.mp hr
      exact mapM_isSome.mp hsome r (mem_trail.mpr ⟨hlog ▸ List.mem_append_left _ hmem, hr⟩)
    rw [hnone]
    exact iff_of_true rfl fun h => hnot fun r hr => h r (mem_trail.mp hr).1 (mem_trail.mp hr).2
  | some entries =>
    have hshown : ∀ r ∈ db.auditLog, concerns eventId r = true → (historyEntry r).isSome :=
      fun r hr hc => mapM_isSome.mp (by rw [hentries]; rfl) r (mem_trail.mpr ⟨hr, hc⟩)
    refine iff_of_false (fun hsame => ?_) fun h => h hshown
    cases hentries' : (trail (concerns eventId) db'.auditLog).mapM historyEntry with
    | none =>
      rw [hentries'] at hsame
      nomatch hsame
    | some entries' =>
      rw [hentries'] at hsame
      have hlength := mapM_length hentries
      have hlength' := mapM_length hentries'
      rw [trail_length] at hlength hlength'
      rw [hlog, List.filter_append, List.length_append, List.filter_cons_of_pos hconcerns,
        List.filter_nil, List.length_singleton, Except.ok.inj hsame] at hlength'
      omega

theorem historyAnswer_append_iff {eventId : Uuid} {db db' : Db} {row : AuditLogEntry}
    (hexists : (db'.anomalies.find? eventId).isSome = (db.anomalies.find? eventId).isSome)
    (hlog : db'.auditLog = db.auditLog ++ [row]) :
    historyAnswer eventId db' = historyAnswer eventId db ↔ ¬ Changes db eventId row := by
  by_cases htouches : touches eventId row = true
  · cases hexists₀ : (db.anomalies.find? eventId).isSome with
    | false =>
      rw [historyAnswer_unknown hexists₀, historyAnswer_unknown (hexists.trans hexists₀)]
      exact iff_of_true rfl fun hchanges => nomatch hexists₀.symm.trans hchanges.1
    | true =>
      cases hall : db.auditLog.all isSearchable with
      | false =>
        have hall' : db'.auditLog.all isSearchable = false := by
          rw [hlog, List.all_append, hall, Bool.false_and]
        rw [historyAnswer_rejected hexists₀ hall,
          historyAnswer_rejected (hexists.trans hexists₀) hall']
        exact iff_of_true rfl fun hchanges => nomatch hall.symm.trans hchanges.2.1
      | true =>
        cases hrow : isSearchable row with
        | false =>
          have hall' : db'.auditLog.all isSearchable = false := by
            rw [hlog, List.all_append, hall]
            simp [hrow]
          rw [historyAnswer_rejected (hexists.trans hexists₀) hall',
            historyAnswer_searchable hexists₀ hall]
          refine iff_of_false (fun hsame => ?_) fun h => h ⟨hexists₀, hall, .inl hrow⟩
          split at hsame
          · nomatch hsame
          · nomatch hsame
        | true =>
          have hconcerns : concerns eventId row = true := by
            simpa [touches, hrow] using htouches
          rw [historyAnswer_concerned hexists₀ (hexists.trans hexists₀) hlog hall hrow hconcerns]
          refine not_congr ⟨fun h => ⟨hexists₀, hall, .inr ⟨hconcerns, h⟩⟩, ?_⟩
          rintro ⟨-, -, hfails | ⟨-, hshown⟩⟩
          · exact nomatch hrow.symm.trans hfails
          · exact hshown
  · have hsame : historyAnswer eventId db' = historyAnswer eventId db := by
      refine historyAnswer_congr hexists ?_
      rw [hlog, List.filter_append, List.filter_cons_of_neg htouches, List.filter_nil,
        List.append_nil]
    refine iff_of_true hsame fun hchanges => htouches ?_
    obtain ⟨-, -, hfails | ⟨hconcerns, -⟩⟩ := hchanges
    · simp [touches, hfails]
    · simp [touches, hconcerns]

/-! ## What a request leaves -/

/-- The request creates the anomaly, or asks it to take a status. -/
def OwnLifecycle (eventId : Uuid) : ApiRequest → Prop
  | .anomaly (.create env _ _) => env.uuid4 = eventId
  | .anomaly r => requestedStatus eventId (.anomaly r) ≠ none
  | _ => False

/-- The row is about an anomaly, and is decoded where its metadata is. -/
structure About (e : AnomalyEvent) (row : AuditLogEntry) : Prop where
  concerns : ∀ id, concerns id row = decide (e.id = id)
  searchable : decodes e.category = true →
    isSearchable row = isDecodable (sanitizeMetadata (.obj e.metadataJson))

inductive Effect (app : Application) (s : Store Db) (db' : Db) : ApiRequest → Prop where
  | same {r : ApiRequest} (noRow : addedRow app s r = none) (h : SameSubjects s.db db') :
      Effect app s db' r
  | appended {env : AppendEnv} {payload : AuditLogEntryCreate} {email : String}
      (h : Appends s.db (addedRow app s (.createAuditEntry env payload email)) db') :
      Effect app s db' (.createAuditEntry env payload email)
  | ingested {env : AnomalyEnv} {payload : AnomalyEventCreate} {actor : Option String}
      (h : Ingests app.crypto env payload actor s.db
        (addedRow app s (.anomaly (.create env payload actor))) db') :
      Effect app s db' (.anomaly (.create env payload actor))
  | moved {r : AnomalyRequest} {rows : List AuditLogEntry}
      (noRow : addedRow app s (.anomaly r) = none)
      (subjects : db'.anomalies.rows.map subject = s.db.anomalies.rows.map subject)
      (logged : db'.auditLog = s.db.auditLog ++ rows)
      (about : ∀ row ∈ rows, ∃ e ∈ s.db.anomalies.rows,
        requestedStatus e.id (.anomaly r) ≠ none ∧ About e row) :
      Effect app s db' (.anomaly r)

theorem subject_transitioned (now : CalendarTime.Instant) (status : AnomalyStatus) (ids : List Uuid)
    (e : AnomalyEvent) : subject (transitioned now status ids e) = subject e := by
  rw [transitioned]
  split
  · rfl
  · rfl

section

variable {app : Application} {s : Store Db}

/-- The status changes. -/
theorem moved_effect {r : AnomalyRequest}
    (hr : ∀ env payload actor, r ≠ .create env payload actor) :
    Effect app s (s.exec postgres ((ApiRequest.anomaly r).request app)).db (.anomaly r) := by
  have hnone : addedRow app s (.anomaly r) = none := by
    cases r with
    | create env payload actor => exact absurd rfl (hr env payload actor)
    | updateStatus env eventId status actor => rfl
    | bulkUpdateStatus env eventIds status actor => rfl
  have hsound : ∃ work n, Answered app.crypto s.db r
      (((ApiRequest.anomaly r).request app).serial postgres s.db s.db s.sequence).result
      (s.exec postgres ((ApiRequest.anomaly r).request app)).db work n :=
    (Request.serial_sound (request_answered r)).elim fun work h => ⟨work, _, h⟩
  obtain ⟨_, _, hanswered⟩ := hsound
  cases hresult : (((ApiRequest.anomaly r).request app).serial postgres s.db s.db
    s.sequence).result with
  | error error =>
    rw [hresult] at hanswered
    have hdb : (s.exec postgres ((ApiRequest.anomaly r).request app)).db = s.db := hanswered
    exact .same hnone (hdb.symm ▸ SameSubjects.refl s.db)
  | ok value =>
    rw [hresult] at hanswered
    obtain ⟨rows, hlog, hstep⟩ := hanswered
    cases hstep with
    | created => exact absurd rfl (hr _ _ _)
    | moved hevents hdistinct hnamed hupdated happended =>
      refine .moved hnone ?_ hlog fun row hrow => ?_
      · rw [hupdated, List.map_map]
        exact List.map_congr_left fun e _ => subject_transitioned _ _ _ e
      · obtain ⟨e, he, hmoved⟩ := RelatedLists.forall₂_mem_right happended hrow
        refine ⟨e, hevents e he, ?_, ⟨moved_concerns hmoved, moved_isSearchable hmoved⟩⟩
        rw [hnamed e (hevents e he), if_pos (List.mem_map_of_mem he)]
        exact Option.some_ne_none _

/-- The step lemma. -/
theorem exec_effect (app : Application) (s : Store Db) (r : ApiRequest) :
    Effect app s (s.exec postgres (r.request app)).db r := by
  cases r with
  | createAuditEntry env payload email =>
    refine .appended (Store.exec_sound (P := fun db _ => Appends s.db _ db) s ?_)
    exact Request.wp_answer (Request.wp_mono createAuditEntry_exact fun _ _ _ _ h => h)
  | anomaly r =>
    cases r with
    | create env payload actor =>
      refine .ingested (Store.exec_sound
        (P := fun db _ => Ingests app.crypto env payload actor s.db _ db) s ?_)
      exact Request.wp_answer (Request.wp_mono createAnomalyEvent_exact fun _ _ _ _ h => h)
    | updateStatus env eventId status actor => exact moved_effect fun _ _ _ => nofun
    | bulkUpdateStatus env eventIds status actor => exact moved_effect fun _ _ _ => nofun
  | configuration r =>
    exact .same rfl (exec_sameSubjects (mild_of_quiet (quiet_configurationRequest r)) s)
  | parameter r => exact .same rfl (exec_sameSubjects (mild_of_quiet (quiet_parameterRequest r)) s)
  | key r => exact .same rfl (exec_sameSubjects (mild_of_quiet (quiet_hsmRequest r)) s)
  | runAttestation env actor =>
    exact .same rfl (exec_sameSubjects (mild_of_quiet (quiet_runAttestation actor).answer) s)
  | auth r => exact .same rfl (exec_sameSubjects (mild_of_quiet (quiet_authRequest r).answer) s)
  | createTenant env payload =>
    exact .same rfl (exec_sameSubjects (mild_of_quiet (quiet_createTenant env payload).answer) s)
  | deleteTenant tenantId => exact .same rfl (exec_sameSubjects (mild_deleteTenant tenantId) s)
  | other p quiet => exact .same rfl (exec_sameSubjects (mild_of_quiet quiet) s)

/-! ## Documents that are not decoded -/

/-- An anomaly whose metadata is not decoded has a row in the log that fails the query. -/
structure Exposed (db : Db) : Prop where
  category : ∀ e ∈ db.anomalies.rows, decodes e.category = true
  exposed : ∀ e ∈ db.anomalies.rows,
    isDecodable (sanitizeMetadata (.obj e.metadataJson)) = true ∨
      db.auditLog.all isSearchable = false

theorem Exposed.later {db db' : Db} (h : Exposed db)
    (hsubjects : db'.anomalies.rows.map subject = db.anomalies.rows.map subject)
    (hlog : db.auditLog.all isSearchable = false → db'.auditLog.all isSearchable = false) :
    Exposed db' := by
  have hold : ∀ e' ∈ db'.anomalies.rows, ∃ e ∈ db.anomalies.rows, subject e = subject e' := by
    intro e' he'
    have hmem : subject e' ∈ db'.anomalies.rows.map subject := List.mem_map_of_mem he'
    rw [hsubjects] at hmem
    exact List.mem_map.mp hmem
  refine ⟨fun e' he' => ?_, fun e' he' => ?_⟩
  · obtain ⟨e, he, heq⟩ := hold e' he'
    have hcategory : e.category = e'.category := congrArg (fun t => t.2.1) heq
    exact hcategory ▸ h.category e he
  · obtain ⟨e, he, heq⟩ := hold e' he'
    have hmetadata : e.metadataJson = e'.metadataJson := congrArg (fun t => t.2.2) heq
    rw [← hmetadata]
    exact (h.exposed e he).imp_right hlog

theorem all_append_false {log rows : List AuditLogEntry} (h : log.all isSearchable = false) :
    (log ++ rows).all isSearchable = false := by
  rw [List.all_append, h, Bool.false_and]

theorem Exposed.effect {db' : Db} {r : ApiRequest} (h : Exposed s.db)
    (heffect : Effect app s db' r) : Exposed db' := by
  cases heffect with
  | same _ hsame =>
    refine h.later hsame.subjects fun hall => ?_
    rw [← all_searchable_iff 0, hsame.log _ fun row => touches_eventType, all_searchable_iff, hall]
  | appended happends =>
    obtain ⟨hanomalies, hlog⟩ := happends
    refine h.later (congrArg (fun t : AnomalyEvents => t.rows.map subject) hanomalies) fun hall => ?_
    rw [hlog]
    exact all_append_false hall
  | ingested hingests =>
    cases hrow : addedRow app s _ with
    | none =>
      rw [hrow] at hingests
      cases hingests
      exact h
    | some row =>
      rw [hrow] at hingests
      cases hingests with
      | @created stored _ _ _ _ hstored hinserted happended hlogged =>
        have hsearchable : isSearchable row =
            isDecodable (sanitizeMetadata (.obj stored.metadataJson)) := by
          have hnew := anomalyEntry_isSearchable happended (decodes_of_varchar hstored.category)
          rw [hstored.rest]
          exact hnew
        refine ⟨fun e he => ?_, fun e he => ?_⟩
        · rw [hinserted] at he
          rcases List.mem_append.mp he with he | he
          · exact h.category e he
          · rw [List.mem_singleton.mp he]
            exact decodes_varchar hstored.category
        · rw [hinserted] at he
          rw [hlogged]
          rcases List.mem_append.mp he with he | he
          · exact (h.exposed e he).imp_right all_append_false
          · rw [List.mem_singleton.mp he, ← hsearchable, List.all_append]
            cases hfails : isSearchable row with
            | true => exact .inl rfl
            | false => exact .inr (by simp [hfails])
  | moved _ hsubjects hlogged _ =>
    refine h.later hsubjects fun hall => ?_
    rw [hlogged]
    exact all_append_false hall

/-- The run lemma. -/
theorem Exposed.run (h : Exposed s.db) (rs : List ApiRequest) :
    Exposed (s.execAll postgres (rs.map (·.request app))).db := by
  induction rs generalizing s with
  | nil => exact h
  | cons r rs ih => exact ih (h.effect (exec_effect app s r))

/-! ## The frame -/

/-- The request adds a row that changes the history. -/
def Injects (app : Application) (s : Store Db) (eventId : Uuid) (r : ApiRequest) : Prop :=
  ∃ row, addedRow app s r = some row ∧ Changes s.db eventId row

theorem injects_iff {eventId : Uuid} {r : ApiRequest} {row : AuditLogEntry}
    (h : addedRow app s r = some row) : Injects app s eventId r ↔ Changes s.db eventId row := by
  constructor
  · rintro ⟨row', hrow', hchanges⟩
    rwa [Option.some.inj (h.symm.trans hrow')]
  · exact fun hchanges => ⟨row, h, hchanges⟩

theorem not_injects {eventId : Uuid} {r : ApiRequest} (h : addedRow app s r = none) :
    ¬ Injects app s eventId r := by
  rintro ⟨row, hrow, -⟩
  exact nomatch h.symm.trans hrow

theorem requestedStatus_of_not_own {eventId : Uuid} {r : AnomalyRequest}
    (h : ¬ OwnLifecycle eventId (.anomaly r)) : requestedStatus eventId (.anomaly r) = none := by
  cases r with
  | create env payload actor => rfl
  | updateStatus env id status actor => exact not_not.mp h
  | bulkUpdateStatus env ids status actor => exact not_not.mp h

/-- Status changes of other anomalies: an anomaly whose entries fail the query has an entry that
failed it before. -/
theorem moved_answer {eventId : Uuid} {r : AnomalyRequest} {db' : Db} {rows : List AuditLogEntry}
    (hexposed : Exposed s.db) (hown : ¬ OwnLifecycle eventId (.anomaly r))
    (hexists : (db'.anomalies.find? eventId).isSome = (s.db.anomalies.find? eventId).isSome)
    (hlogged : db'.auditLog = s.db.auditLog ++ rows)
    (habout : ∀ row ∈ rows, ∃ e ∈ s.db.anomalies.rows,
      requestedStatus e.id (.anomaly r) ≠ none ∧ About e row) :
    historyAnswer eventId db' = historyAnswer eventId s.db := by
  by_cases hall : ∀ row ∈ rows, isSearchable row = true
  · refine historyAnswer_congr hexists ?_
    have hnone : rows.filter (touches eventId) = [] := by
      refine List.filter_eq_nil_iff.mpr fun row hrow => ?_
      obtain ⟨e, -, hnamed, hrowAbout⟩ := habout row hrow
      have hne : e.id ≠ eventId := fun heq =>
        hnamed (heq ▸ requestedStatus_of_not_own hown)
      simp [touches, hall row hrow, hrowAbout.concerns, hne]
    rw [hlogged, List.filter_append, hnone, List.append_nil]
  · obtain ⟨row, hnot⟩ := not_forall.mp hall
    obtain ⟨hrow, hfails⟩ := Classical.not_imp.mp hnot
    obtain ⟨e, he, -, hrowAbout⟩ := habout row hrow
    have hlog : s.db.auditLog.all isSearchable = false := by
      refine (hexposed.exposed e he).resolve_left fun hdecodable => hfails ?_
      rw [hrowAbout.searchable (hexposed.category e he), hdecodable]
    cases hexists₀ : (s.db.anomalies.find? eventId).isSome with
    | false => rw [historyAnswer_unknown hexists₀, historyAnswer_unknown (hexists.trans hexists₀)]
    | true =>
      rw [historyAnswer_rejected hexists₀ hlog, historyAnswer_rejected (hexists.trans hexists₀)]
      rw [hlogged]
      exact all_append_false hlog

theorem effect_answer {eventId : Uuid} {r : ApiRequest} {db' : Db} (hexposed : Exposed s.db)
    (hown : ¬ OwnLifecycle eventId r) (heffect : Effect app s db' r) :
    historyAnswer eventId db' = historyAnswer eventId s.db ↔ ¬ Injects app s eventId r := by
  cases heffect with
  | same hnone hsame =>
    refine iff_of_true (historyAnswer_congr (find?_isSome_congr hsame.subjects _) ?_)
      (not_injects hnone)
    exact hsame.log _ fun row => touches_eventType
  | appended happends =>
    obtain ⟨hanomalies, hlog⟩ := happends
    have hexists : (db'.anomalies.find? eventId).isSome =
        (s.db.anomalies.find? eventId).isSome := by rw [hanomalies]
    cases hrow : addedRow app s _ with
    | none =>
      rw [hrow, Option.toList_none, List.append_nil] at hlog
      exact iff_of_true (historyAnswer_congr hexists (by rw [hlog])) (not_injects hrow)
    | some row =>
      rw [hrow, Option.toList_some] at hlog
      rw [injects_iff hrow]
      exact historyAnswer_append_iff hexists hlog
  | @ingested env payload actor hingests =>
    cases hrow : addedRow app s (.anomaly (.create env payload actor)) with
    | none =>
      rw [hrow] at hingests
      cases hingests
      exact iff_of_true rfl (not_injects hrow)
    | some row =>
      rw [hrow] at hingests
      cases hingests with
      | @created stored _ _ _ _ hstored hinserted happended hlogged =>
        have hne : stored.id ≠ eventId := fun heq => hown (hstored.id_eq.symm.trans heq)
        have hexists : (db'.anomalies.find? eventId).isSome =
            (s.db.anomalies.find? eventId).isSome := by
          rw [Bool.eq_iff_iff, find?_isSome_iff, find?_isSome_iff, hinserted, List.map_append,
            List.mem_append, List.map_singleton, List.mem_singleton]
          exact or_iff_left fun heq => hne heq.symm
        rw [injects_iff hrow]
        exact historyAnswer_append_iff hexists hlogged
  | moved hnone hsubjects hlogged habout =>
    exact iff_of_true (moved_answer hexposed hown (find?_isSome_congr hsubjects _) hlogged habout)
      (not_injects hnone)

end

def sampleApplication : Application where
  crypto := AuditVerification.sha256Crypto
  tables := asciiTables
  authCrypto := AuthLifecycle.sampleAuthCrypto
  settings := AuthLifecycle.sampleSettings

/-- One anomaly, which is open. -/
def sampleStore : Store Db :=
  Store.execAll postgres ⟨emptyDb, 1⟩
    ([ApiRequest.anomaly (.create (sampleAnomalyEnv 0) (sampleAnomaly []) none)].map
      (·.request sampleApplication))

def userEntry (eventType : String) : ApiRequest :=
  .createAuditEntry (AuditVerification.sampleEnv 7)
    { severity := "info"
      eventType := eventType
      eventSubtype := "ANOMALY_STATUS_UPDATED"
      actor := ""
      description := "Anomaly status updated: open -> resolved"
      metadataJson := [("anomaly_id", .str (uuidText 500)), ("previous_status", .str "open"),
        ("status", .str "resolved")] } "analyst@example.com"

end NexusEngine.AnomalyHistoryFrame
