import NexusEngine.AnomalyService
import NexusEngine.AuditAppends

/-!
# What the requests of the anomaly service do

A request that fails leaves the durable state as it was. One that is answered has inserted one
event, or has moved the events it names to a status, and has appended one entry for each of them.
-/

namespace NexusEngine.AnomalyLifecycle

open TransactionalRequests StoredColumns CalendarTime KeyedTables AnomalyTables AuditLogTable
  Database AuditService AuditAppends AnomalyService

/-! ## Tables -/

/-- What the table keeps of an event: all of it, but for blanks cut off its texts. -/
structure StoredEvent (event stored : AnomalyEvent) : Prop where
  category : varchar 60 event.category = some stored.category
  title : varchar 255 event.title = some stored.title
  actor : nullable (varchar 120) event.actor = some stored.actor
  sourceIp : nullable (varchar 45) event.sourceIp = some stored.sourceIp
  rest : stored = { event with
    category := stored.category
    title := stored.title
    actor := stored.actor
    sourceIp := stored.sourceIp }

theorem StoredEvent.id_eq {event stored : AnomalyEvent} (h : StoredEvent event stored) :
    stored.id = event.id := by rw [h.rest]

theorem StoredEvent.tenantId_eq {event stored : AnomalyEvent} (h : StoredEvent event stored) :
    stored.tenantId = event.tenantId := by rw [h.rest]

theorem insertAnomalyEvent_eq_some {tenantExists : Uuid → Bool} {t t' : AnomalyEvents}
    {event : AnomalyEvent} (h : insertAnomalyEvent tenantExists t event = some t') :
    ∃ stored, StoredEvent event stored ∧ t.find? event.id = none ∧
      t'.rows = t.rows ++ [stored] := by
  simp only [insertAnomalyEvent, Option.bind_eq_bind, Option.bind_eq_some_iff] at h
  obtain ⟨category, hcategory, title, htitle, description, hdescription, actor, hactor, sourceIp,
    hsource, _, -, h⟩ := h
  obtain rfl := text_eq_some hdescription
  split at h
  · obtain ⟨hnone, hrows⟩ := Table.insert_eq_some.mp h
    exact ⟨_, ⟨hcategory, htitle, hactor, hsource, rfl⟩, hnone, hrows⟩
  · cases h

theorem updateEvent_rows {tenantExists : Uuid → Bool} {t t' : AnomalyEvents} {id : Uuid}
    {patch : AnomalyEventPatch}
    (h : (AnomalyStatement.updateEvent id patch).apply tenantExists t = some t') :
    t'.rows = t.rows.map fun e => if e.id = id then patch.apply e else e := by
  have hupdate : t.update id patch.apply (fun _ => rfl) = some t' := h
  exact (Table.update_eq_some.mp hupdate).2

@[simp] theorem withStatus_id (now : Instant) (status : AnomalyStatus) (event : AnomalyEvent) :
    (withStatus now status event).id = event.id := rfl

/-- The event after the events with the identifiers have been moved to a status. -/
def transitioned (now : Instant) (status : AnomalyStatus) (ids : List Uuid)
    (event : AnomalyEvent) : AnomalyEvent :=
  if event.id ∈ ids then withStatus now status event else event

@[simp] theorem transitioned_nil (now : Instant) (status : AnomalyStatus) :
    transitioned now status [] = id := by
  funext event
  simp [transitioned]

@[simp] theorem transitioned_id (now : Instant) (status : AnomalyStatus) (ids : List Uuid)
    (event : AnomalyEvent) : (transitioned now status ids event).id = event.id := by
  unfold transitioned
  split <;> rfl

@[simp] theorem transitioned_metadataJson (now : Instant) (status : AnomalyStatus)
    (ids : List Uuid) (event : AnomalyEvent) :
    (transitioned now status ids event).metadataJson = event.metadataJson := by
  unfold transitioned
  split <;> rfl

@[simp] theorem transitioned_tenantId (now : Instant) (status : AnomalyStatus) (ids : List Uuid)
    (event : AnomalyEvent) : (transitioned now status ids event).tenantId = event.tenantId := by
  unfold transitioned
  split <;> rfl

theorem transitioned_cons {now : Instant} {status : AnomalyStatus} {id : Uuid} {ids : List Uuid}
    (hnew : id ∉ ids) (event : AnomalyEvent) :
    transitioned now status ids (transitioned now status [id] event) =
      transitioned now status (id :: ids) event := by
  by_cases hid : event.id = id
  · subst hid
    simp [transitioned, hnew]
  · simp [transitioned, hid]

/-- Saving an event that was loaded moves its row, and no other one. -/
theorem applyAll_saveAnomalyEvent {now : Instant} {status : AnomalyStatus} {event : AnomalyEvent}
    {db db' : Db} (hfind : db.anomalies.find? event.id = some event)
    (h : postgres.applyAll (saveAnomalyEvent event (withStatus now status event)) db = some db') :
    ∃ anomalies : AnomalyEvents,
      anomalies.rows = db.anomalies.rows.map (transitioned now status [event.id]) ∧
        db' = { db with anomalies := anomalies } := by
  have hloaded : ∀ e ∈ db.anomalies.rows, e.id = event.id → e = event := fun e he hid =>
    db.anomalies.eq_of_key_eq he (Table.find?_eq_some.mp hfind).1 hid
  unfold saveAnomalyEvent at h
  split at h
  · next hsame =>
    cases h
    refine ⟨db.anomalies, ?_, rfl⟩
    refine ((List.map_congr_left fun e he => ?_).trans (List.map_id' _)).symm
    unfold transitioned
    split
    · next hid =>
      rw [hloaded e he (List.mem_singleton.mp hid)]
      exact hsame.symm
    · rfl
  · next hchanged =>
    rw [StatementSemantics.applyAll_singleton] at h
    obtain ⟨anomalies, hanomalies, rfl⟩ := apply_anomaly.mp h
    refine ⟨anomalies, (updateEvent_rows hanomalies).trans (List.map_congr_left fun e he => ?_), rfl⟩
    unfold transitioned
    by_cases hid : e.id = event.id
    · rw [if_pos hid, if_pos (List.mem_singleton.mpr hid), hloaded e he hid]
      simp [AnomalyEventPatch.apply, AnomalyEvent.diff, withStatus]
    · rw [if_neg hid, if_neg (fun hmem => hid (List.mem_singleton.mp hmem))]

/-! ## Rules -/

section

variable {crypto : AuditCrypto} {env : AnomalyEnv} {actor : Option String} {durable work : Db}
  {n : ℕ}

/-- The rule of an ingestion. -/
theorem createAnomalyEvent_wp {payload : AnomalyEventCreate}
    {post : Except ServiceError AnomalyEvent → Db → Db → ℕ → Prop}
    (failed : ∀ error w k, post (.error error) durable w k)
    (created : ∀ (anomalies : AnomalyEvents) stored row,
      StoredEvent (newAnomalyEvent env payload) stored →
      anomalies.rows = work.anomalies.rows ++ [stored] →
      AppendedAs crypto (env.audit 0) (createdEntry actor (newAnomalyEvent env payload))
        (tailHash work.auditLog) (n + 1) row →
      let after := { work with anomalies := anomalies, auditLog := work.auditLog ++ [row] }
      post (.ok stored) after after (n + 2)) :
    (createAnomalyEvent crypto env payload actor).wp postgres post durable work n := by
  refine (Request.wp_bind ..).mpr (Request.wp_send.mpr
    ⟨fun _ => failed _ _ _, fun work' hwork => ?_⟩)
  rw [StatementSemantics.applyAll_singleton] at hwork
  obtain ⟨anomalies, hanomalies, rfl⟩ := apply_anomaly.mp hwork
  obtain ⟨stored, hstored, hnone, hrows⟩ := insertAnomalyEvent_eq_some hanomalies
  refine (Request.wp_bind ..).mpr (appendEntryInTransaction_wp (fun _ _ _ => failed _ _ _)
    fun sent row hsent happended _ => ?_)
  cases hsent
  have hfind : anomalies.find? (newAnomalyEvent env payload).id = some stored :=
    Table.find?_eq_some.mpr ⟨by simp [hrows], hstored.id_eq⟩
  refine Request.wp_commitTransaction_bind ((Request.wp_bind ..).mpr ?_)
  rw [Request.wp_select]
  exact wp_found_of_some hfind (created anomalies stored row hstored hrows happended)

/-- The entry of an event that was moved to a status. -/
def MovedAs (crypto : AuditCrypto) (env : AnomalyEnv) (status : AnomalyStatus)
    (actor : Option String) (event : AnomalyEvent) (row : AuditLogEntry) : Prop :=
  ∃ k before n, AppendedAs crypto (env.audit k)
    (statusEntry actor event.status (withStatus env.now status event)) before n row

theorem MovedAs.tenantId_eq {status : AnomalyStatus} {event : AnomalyEvent} {row : AuditLogEntry}
    (h : MovedAs crypto env status actor event row) : row.tenantId = event.tenantId := by
  obtain ⟨_, _, _, happended⟩ := h
  exact happended.tenantId

/-- The rule of one transition. -/
theorem transition_wp {status : AnomalyStatus} {event : AnomalyEvent} {k : ℕ}
    {post : Except ServiceError Unit → Db → Db → ℕ → Prop}
    (hfind : work.anomalies.find? event.id = some event)
    (failed : ∀ error w k, post (.error error) durable w k)
    (moved : ∀ (anomalies : AnomalyEvents) row,
      anomalies.rows = work.anomalies.rows.map (transitioned env.now status [event.id]) →
      MovedAs crypto env status actor event row →
      post (.ok ()) durable
        { work with anomalies := anomalies, auditLog := work.auditLog ++ [row] } (n + 2)) :
    (transition crypto env.now (env.audit k) status actor event).wp postgres post durable work n := by
  refine (Request.wp_bind ..).mpr (Request.wp_send.mpr
    ⟨fun _ => failed _ _ _, fun work' hwork => ?_⟩)
  obtain ⟨anomalies, hrows, rfl⟩ := applyAll_saveAnomalyEvent hfind hwork
  refine (Request.wp_bind ..).mpr (appendEntryInTransaction_wp (fun _ _ _ => failed _ _ _)
    fun sent row hsent happended _ => ?_)
  cases hsent
  exact Request.wp_return (moved anomalies row hrows ⟨k, _, _, happended⟩)

/-- The rule of the loop: distinct events that are in the table are all moved. -/
theorem transitionAll_wp {status : AnomalyStatus} {events : List AnomalyEvent} {k : ℕ}
    {post : Except ServiceError Unit → Db → Db → ℕ → Prop}
    (hfind : ∀ e ∈ events, work.anomalies.find? e.id = some e)
    (hnodup : (events.map AnomalyEvent.id).Nodup)
    (failed : ∀ error w k, post (.error error) durable w k)
    (moved : ∀ (anomalies : AnomalyEvents) rows k,
      anomalies.rows =
        work.anomalies.rows.map (transitioned env.now status (events.map AnomalyEvent.id)) →
      List.Forall₂ (MovedAs crypto env status actor) events rows →
      post (.ok ()) durable
        { work with anomalies := anomalies, auditLog := work.auditLog ++ rows } k) :
    (transitionAll crypto env status actor k events).wp postgres post durable work n := by
  induction events generalizing work k n with
  | nil =>
    refine Request.wp_return ?_
    have hmoved := moved work.anomalies [] n (by simp) .nil
    simpa using hmoved
  | cons event events ih =>
    obtain ⟨hnew, hnodup⟩ := List.nodup_cons.mp hnodup
    refine (Request.wp_bind ..).mpr (transition_wp (hfind event List.mem_cons_self) failed
      fun anomalies row hrows hrow => ?_)
    refine ih (fun e he => ?_) hnodup fun anomalies' rows k' hrows' hmoved => ?_
    · have hne : e.id ≠ event.id := fun heq => hnew (heq ▸ List.mem_map_of_mem he)
      have hmem := (Table.find?_eq_some.mp (hfind e (List.mem_cons_of_mem _ he))).1
      refine Table.find?_eq_some.mpr ⟨?_, rfl⟩
      rw [hrows]
      exact List.mem_map.mpr ⟨e, hmem, by simp [transitioned, hne]⟩
    · have hall := moved anomalies' (row :: rows) k' (by
        rw [hrows', hrows, List.map_map, List.map_cons]
        exact List.map_congr_left fun e _ => transitioned_cons hnew e) (.cons hrow hmoved)
      simpa using hall

/-- The rule of a status change: an unknown event is answered with nothing. -/
theorem updateAnomalyStatus_wp {eventId : Uuid} {status : AnomalyStatus}
    {post : Except ServiceError (Option AnomalyEvent) → Db → Db → ℕ → Prop}
    (failed : ∀ error w k, post (.error error) durable w k)
    (unknown : work.anomalies.find? eventId = none → post (.ok none) durable work n)
    (moved : ∀ event (anomalies : AnomalyEvents) row,
      work.anomalies.find? eventId = some event →
      anomalies.rows = work.anomalies.rows.map (transitioned env.now status [eventId]) →
      MovedAs crypto env status actor event row →
      let after := { work with anomalies := anomalies, auditLog := work.auditLog ++ [row] }
      post (.ok (some (withStatus env.now status event))) after after (n + 2)) :
    (updateAnomalyStatus crypto env eventId status actor).wp postgres post durable work n := by
  refine (Request.wp_bind ..).mpr ?_
  rw [Request.wp_select]
  dsimp only
  cases hfind : work.anomalies.find? eventId with
  | none => exact Request.wp_return (unknown hfind)
  | some event =>
    obtain ⟨hmem, rfl⟩ := Table.find?_eq_some.mp hfind
    refine (Request.wp_bind ..).mpr (transition_wp hfind failed fun anomalies row hrows hrow => ?_)
    have hfind' : anomalies.find? event.id = some (withStatus env.now status event) := by
      refine Table.find?_eq_some.mpr ⟨?_, rfl⟩
      rw [hrows]
      exact List.mem_map.mpr ⟨event, hmem, by simp [transitioned]⟩
    refine Request.wp_commitTransaction_bind ((Request.wp_bind ..).mpr ((Request.wp_bind ..).mpr ?_))
    rw [Request.wp_select]
    exact wp_found_of_some hfind' (Request.wp_return (moved event anomalies row hfind hrows hrow))

theorem eventsWithin_find? {ids : List Uuid} {t : AnomalyEvents} {e : AnomalyEvent}
    (h : e ∈ eventsWithin env ids t) : t.find? e.id = some e :=
  Table.find?_of_mem (Table.mem_scan.mp (List.mem_filter.mp h).1)

theorem eventsWithin_nodup (env : AnomalyEnv) (ids : List Uuid) (t : AnomalyEvents) :
    ((eventsWithin env ids t).map AnomalyEvent.id).Nodup := by
  have hscan := ((t.scan_perm env.eventOrder).map AnomalyEvent.id).nodup_iff.mpr t.nodup
  exact hscan.sublist (List.filter_sublist.map _)

/-- The rule of a bulk change: the events of the table that it names are moved. -/
theorem bulkUpdateAnomalyStatus_wp {eventIds : List Uuid} {status : AnomalyStatus}
    {post : Except ServiceError BulkStatusResponse → Db → Db → ℕ → Prop}
    (failed : ∀ error w k, post (.error error) durable w k)
    (moved : ∀ response (anomalies : AnomalyEvents) rows k,
      anomalies.rows = work.anomalies.rows.map (transitioned env.now status
        ((eventsWithin env eventIds.eraseDups work.anomalies).map AnomalyEvent.id)) →
      List.Forall₂ (MovedAs crypto env status actor)
        (eventsWithin env eventIds.eraseDups work.anomalies) rows →
      let after := { work with anomalies := anomalies, auditLog := work.auditLog ++ rows }
      post (.ok response) after after k) :
    (bulkUpdateAnomalyStatus crypto env eventIds status actor).wp postgres post durable work n := by
  refine (Request.wp_bind ..).mpr ?_
  rw [Request.wp_select]
  refine (Request.wp_bind ..).mpr (transitionAll_wp (fun e he => eventsWithin_find? he)
    (eventsWithin_nodup _ _ _) failed fun anomalies rows k hrows hmoved => ?_)
  exact Request.wp_commitTransaction_bind
    (Request.wp_return (moved _ anomalies rows k hrows hmoved))

end

end NexusEngine.AnomalyLifecycle
