import NexusEngine.RelatedLists
import NexusEngine.AnomalyHistory
import NexusEngine.QuietRequests
import NexusEngine.HsmLifecycle

/-!
# Histories of runs

The history of an anomaly tells its lifecycle: that it was created as open, and then the status of
each request that moved it, in order. The document of one anomaly that the query cannot decode
takes the history from all of them.
-/

namespace NexusEngine.AnomalyHistories

open TransactionalRequests PythonText JsonDocuments StoredColumns CalendarTime KeyedTables
  AnomalyTables AuditLogTable Database AuditService AuditAppends AuditSerialLogs
  AuditedTransactions AnomalyService AnomalyLifecycle AuditedOperations AuditTrails QuietRequests
  JsonFieldText AnomalyHistory

/-! ## Lifecycles -/

/-- The transitions that follow a status, each with the status before it. -/
def transitions : AnomalyStatus → List AnomalyStatus → List (Option AnomalyStatus × AnomalyStatus)
  | _, [] => []
  | previous, status :: changes => (some previous, status) :: transitions status changes

/-- The creation of an anomaly, and its transitions. -/
def lifecycle (changes : List AnomalyStatus) : List (Option AnomalyStatus × AnomalyStatus) :=
  (none, .open_) :: transitions .open_ changes

def currentStatus (changes : List AnomalyStatus) : AnomalyStatus := changes.getLastD .open_

theorem transitions_append (previous status : AnomalyStatus) (changes : List AnomalyStatus) :
    transitions previous (changes ++ [status]) =
      transitions previous changes ++ [(some (changes.getLastD previous), status)] := by
  induction changes generalizing previous with
  | nil => rfl
  | cons change changes ih =>
    rw [List.cons_append, transitions, transitions, ih, List.getLastD_cons, List.cons_append]

theorem lifecycle_append (changes : List AnomalyStatus) (status : AnomalyStatus) :
    lifecycle (changes ++ [status]) =
      lifecycle changes ++ [(some (currentStatus changes), status)] := by
  rw [lifecycle, transitions_append]
  rfl

theorem currentStatus_append (changes : List AnomalyStatus) (status : AnomalyStatus) :
    currentStatus (changes ++ [status]) = status := by
  rw [currentStatus, List.getLastD_eq_getLast?, List.getLast?_append]
  rfl

/-! ## What a history shows -/

def subtypeOf : Option AnomalyStatus × AnomalyStatus → String
  | (none, _) => "ANOMALY_CREATED"
  | (some _, _) => "ANOMALY_STATUS_UPDATED"

/-- What the history shows of a row that tells a step. -/
def shown (step : Option AnomalyStatus × AnomalyStatus) (row : AuditLogEntry) :
    AnomalyHistoryEntry where
  sequence := row.sequence
  occurredAt := row.occurredAt
  actor := row.actor
  subtype := subtypeOf step
  description := row.description
  previousStatus := step.1.map AnomalyStatus.value
  newStatus := some step.2.value

def Tells (step : Option AnomalyStatus × AnomalyStatus) (row : AuditLogEntry) : Prop :=
  historyEntry row = some (shown step row)

/-- The entries of the history of an anomaly that has taken these statuses and has the last one. -/
structure Faithful (changes : List AnomalyStatus) (status : AnomalyStatus)
    (entries : List AnomalyHistoryEntry) : Prop where
  ascending : entries.Pairwise fun entry later => entry.sequence < later.sequence
  told : entries.map (fun entry => (entry.subtype, entry.newStatus)) =
    ("ANOMALY_CREATED", some AnomalyStatus.open_.value) ::
      changes.map fun change => ("ANOMALY_STATUS_UPDATED", some change.value)
  first : entries.head?.map AnomalyHistoryEntry.previousStatus = some none
  chained : entries.IsChain fun entry next => next.previousStatus = entry.newStatus
  last : entries.getLast?.bind AnomalyHistoryEntry.newStatus = some status.value

section

variable {steps : List (Option AnomalyStatus × AnomalyStatus)} {rows : List AuditLogEntry}
  {changes : List AnomalyStatus}

theorem mapM_historyEntry (h : List.Forall₂ Tells steps rows) :
    rows.mapM historyEntry = some (List.zipWith shown steps rows) := by
  induction h with
  | nil => rfl
  | cons htells _ ih =>
    rw [List.mapM_cons, htells, ih]
    rfl

theorem shown_sequence (h : List.Forall₂ Tells steps rows) :
    (List.zipWith shown steps rows).map AnomalyHistoryEntry.sequence =
      rows.map AuditLogEntry.sequence := by
  induction h with
  | nil => rfl
  | cons _ _ ih =>
    rw [List.zipWith_cons_cons, List.map_cons, ih]
    rfl

theorem shown_told (h : List.Forall₂ Tells steps rows) :
    (List.zipWith shown steps rows).map (fun entry => (entry.subtype, entry.newStatus)) =
      steps.map fun step => (subtypeOf step, some step.2.value) := by
  induction h with
  | nil => rfl
  | cons _ _ ih =>
    rw [List.zipWith_cons_cons, List.map_cons, List.map_cons, ih]
    rfl

theorem told_transitions (previous : AnomalyStatus) (changes : List AnomalyStatus) :
    ((transitions previous changes).map fun step => (subtypeOf step, some step.2.value)) =
      changes.map fun change => ("ANOMALY_STATUS_UPDATED", some change.value) := by
  induction changes generalizing previous with
  | nil => rfl
  | cons change changes ih =>
    rw [transitions, List.map_cons, List.map_cons, ih]
    rfl

/-- Each transition starts from the status before it. -/
theorem shown_chained {previous : AnomalyStatus} {entry : AnomalyHistoryEntry}
    (hentry : entry.newStatus = some previous.value)
    (h : List.Forall₂ Tells (transitions previous changes) rows) :
    (entry :: List.zipWith shown (transitions previous changes) rows).IsChain
      fun entry next => next.previousStatus = entry.newStatus := by
  induction changes generalizing previous entry rows with
  | nil => exact .singleton _
  | cons change changes ih =>
    cases h with
    | @cons _ row _ rows _ h => exact .cons_cons hentry.symm (ih rfl h)

theorem getLast?_told (changes : List AnomalyStatus) :
    ((("ANOMALY_CREATED", some AnomalyStatus.open_.value) ::
      changes.map fun change => ("ANOMALY_STATUS_UPDATED", some change.value)).getLast?).bind
        (fun told : String × Option String => told.2) = some (currentStatus changes).value := by
  induction changes using List.reverseRecOn with
  | nil => rfl
  | append_singleton changes change _ =>
    rw [List.map_append, ← List.cons_append, List.getLast?_append, currentStatus_append]
    rfl

/-- Rows that tell a lifecycle are shown as its history. -/
theorem faithful_of_tells (hascending : rows.Pairwise fun r r' => r.sequence < r'.sequence)
    (h : List.Forall₂ Tells (lifecycle changes) rows) :
    Faithful changes (currentStatus changes) (List.zipWith shown (lifecycle changes) rows) := by
  have htold : (List.zipWith shown (lifecycle changes) rows).map
      (fun entry => (entry.subtype, entry.newStatus)) =
        ("ANOMALY_CREATED", some AnomalyStatus.open_.value) ::
          changes.map fun change => ("ANOMALY_STATUS_UPDATED", some change.value) := by
    rw [shown_told h, lifecycle, List.map_cons, told_transitions]
    rfl
  refine ⟨?_, htold, ?_, ?_, ?_⟩
  · rw [← List.pairwise_map (f := AnomalyHistoryEntry.sequence) (R := (· < ·)), shown_sequence h]
    exact List.pairwise_map.mpr hascending
  · cases h with
    | cons _ _ => rfl
  · cases h with
    | cons _ h => exact shown_chained rfl h
  · rw [← getLast?_told changes, ← htold, List.getLast?_map]
    cases (List.zipWith shown (lifecycle changes) rows).getLast? with
    | none => rfl
    | some entry => rfl

end

/-! ## What the requests do -/

/-- The status that an operation asks an anomaly to take. -/
def requestedStatus (eventId : Uuid) : AuditedOperation → Option AnomalyStatus
  | .anomaly (.updateStatus _ id status _) => if id = eventId then some status else none
  | .anomaly (.bulkUpdateStatus _ ids status _) => if eventId ∈ ids then some status else none
  | _ => none

/-- A request that is answered has inserted an event, or has moved those it names, and has
appended one entry for each. -/
inductive AnomalyStep (crypto : AuditCrypto) (t t' : AnomalyEvents) :
    AnomalyRequest → List AuditLogEntry → Prop where
  | created {env : AnomalyEnv} {payload : AnomalyEventCreate} {actor before : Option String}
      {stored : AnomalyEvent} {n : ℕ} {row : AuditLogEntry}
      (isStored : StoredEvent (newAnomalyEvent env payload) stored)
      (inserted : t'.rows = t.rows ++ [stored])
      (appended : AppendedAs crypto (env.audit 0)
        (createdEntry actor (newAnomalyEvent env payload)) before n row) :
      AnomalyStep crypto t t' (.create env payload actor) [row]
  | moved {r : AnomalyRequest} {env : AnomalyEnv} {status : AnomalyStatus} {actor : Option String}
      {events : List AnomalyEvent} {rows : List AuditLogEntry}
      (isEvents : ∀ e ∈ events, e ∈ t.rows)
      (distinct : (events.map AnomalyEvent.id).Nodup)
      (named : ∀ e ∈ t.rows, requestedStatus e.id (.anomaly r) =
        if e.id ∈ events.map AnomalyEvent.id then some status else none)
      (updated : t'.rows =
        t.rows.map (transitioned env.now status (events.map AnomalyEvent.id)))
      (appended : List.Forall₂ (MovedAs crypto env status actor) events rows) :
      AnomalyStep crypto t t' r rows

/-- How a request ends: an error leaves the database. -/
def Answered (crypto : AuditCrypto) (db : Db) (r : AnomalyRequest) :
    Except ServiceError Unit → Db → Db → ℕ → Prop
  | .error _, durable, _, _ => durable = db
  | .ok _, durable, _, _ => ∃ rows, durable.auditLog = db.auditLog ++ rows ∧
      AnomalyStep crypto db.anomalies durable.anomalies r rows

section

variable {crypto : AuditCrypto} {db : Db} {n : ℕ}

/-- The specification of the service. -/
theorem request_answered (r : AnomalyRequest) :
    (r.request crypto).wp postgres (Answered crypto db r) db db n := by
  cases r with
  | create env payload actor =>
    refine Request.wp_answer (createAnomalyEvent_wp (fun _ _ _ => rfl)
      fun anomalies stored row hstored hrows happended => ?_)
    exact ⟨[row], rfl, .created hstored hrows happended⟩
  | updateStatus env eventId status actor =>
    refine Request.wp_answer (updateAnomalyStatus_wp (fun _ _ _ => rfl) (fun hnone => ?_)
      fun event anomalies row hfind hrows hmoved => ?_)
    · have hmoved : List.Forall₂ (MovedAs crypto env status actor) [] [] := .nil
      refine ⟨[], (List.append_nil _).symm, .moved (fun e he => absurd he List.not_mem_nil) .nil
        (fun e he => ?_) (by simp) hmoved⟩
      have hne : eventId ≠ e.id := fun heq => Table.find?_eq_none.mp hnone e he heq.symm
      simp [requestedStatus, hne]
    · obtain ⟨hmem, rfl⟩ := Table.find?_eq_some.mp hfind
      have hmoved : List.Forall₂ (MovedAs crypto env status actor) [event] [row] :=
        .cons hmoved .nil
      refine ⟨[row], rfl, .moved (by simpa using hmem) (by simp) (fun e he => ?_) hrows hmoved⟩
      simp [requestedStatus, eq_comm]
  | bulkUpdateStatus env eventIds status actor =>
    refine Request.wp_answer (bulkUpdateAnomalyStatus_wp (fun _ _ _ => rfl)
      fun response anomalies rows k hrows hmoved => ?_)
    have hevents : ∀ e ∈ eventsWithin env eventIds.eraseDups db.anomalies, e ∈ db.anomalies.rows :=
      fun e he => (Table.find?_eq_some.mp (eventsWithin_find? he)).1
    refine ⟨rows, rfl, .moved hevents (eventsWithin_nodup _ _ _) (fun e he => ?_) hrows hmoved⟩
    have hmem : e.id ∈ (eventsWithin env eventIds.eraseDups db.anomalies).map AnomalyEvent.id ↔
        e.id ∈ eventIds := by
      constructor
      · intro hid
        obtain ⟨e', he', heq⟩ := List.mem_map.mp hid
        have hwithin := (List.mem_filter.mp he').2
        simpa [heq] using hwithin
      · intro hid
        refine List.mem_map_of_mem (List.mem_filter.mpr ⟨Table.mem_scan.mpr he, ?_⟩)
        simpa using hid
    simp only [requestedStatus, hmem]

end

/-! ## Entries of moved anomalies -/

section

variable {crypto : AuditCrypto} {env : AnomalyEnv} {status : AnomalyStatus} {actor : Option String}
  {event : AnomalyEvent} {row : AuditLogEntry} {events : List AnomalyEvent}
  {rows : List AuditLogEntry}

theorem moved_concerns (h : MovedAs crypto env status actor event row) (eventId : Uuid) :
    concerns eventId row = decide (event.id = eventId) := by
  obtain ⟨_, _, _, happended⟩ := h
  exact anomalyEntry_concerns happended eventId

theorem moved_isSearchable (h : MovedAs crypto env status actor event row)
    (hcategory : decodes event.category = true) :
    isSearchable row = isDecodable (sanitizeMetadata (.obj event.metadataJson)) := by
  obtain ⟨_, _, _, happended⟩ := h
  have hsearchable := anomalyEntry_isSearchable happended hcategory
  exact hsearchable

theorem moved_tells (h : MovedAs crypto env status actor event row) :
    Tells (some event.status, status) row := by
  obtain ⟨_, _, _, happended⟩ := h
  exact anomalyEntry_historyEntry happended (by decide)

/-- The rows about one of the anomalies. -/
theorem moved_filter (h : List.Forall₂ (MovedAs crypto env status actor) events rows)
    (eventId : Uuid) :
    List.Forall₂ (MovedAs crypto env status actor)
      (events.filter fun e => decide (e.id = eventId)) (rows.filter (concerns eventId)) :=
  List.rel_filter (fun _ _ hmoved => by simp only [moved_concerns hmoved]) h

theorem moved_filter_eq_nil (h : List.Forall₂ (MovedAs crypto env status actor) events rows)
    {eventId : Uuid} (hid : eventId ∉ events.map AnomalyEvent.id) :
    rows.filter (concerns eventId) = [] := by
  have hfilter := moved_filter h eventId
  rw [List.filter_eq_nil_iff.mpr fun e he heq =>
    hid (List.mem_map.mpr ⟨e, he, of_decide_eq_true heq⟩)] at hfilter
  exact List.forall₂_nil_left_iff.mp hfilter

end

/-! ## The invariant -/

/-- The log tells the lifecycle of every anomaly, given the statuses that each has taken. -/
structure Histories (s : Store Db) (changes : Uuid → List AnomalyStatus) : Prop where
  ordered : Ordered s.db.auditLog s.sequence
  status : ∀ e ∈ s.db.anomalies.rows, currentStatus (changes e.id) = e.status
  told : ∀ e ∈ s.db.anomalies.rows,
    List.Forall₂ Tells (lifecycle (changes e.id)) (trail (concerns e.id) s.db.auditLog)
  unknown : ∀ id, s.db.anomalies.find? id = none →
    changes id = [] ∧ trail (concerns id) s.db.auditLog = []
  category : ∀ e ∈ s.db.anomalies.rows, decodes e.category = true
  subject : ∀ row ∈ s.db.auditLog, row.eventType = .anomalyDetected →
    ∃ e ∈ s.db.anomalies.rows, concerns e.id row = true ∧
      isSearchable row = isDecodable (sanitizeMetadata (.obj e.metadataJson))

theorem histories_empty {s : Store Db} (hanomalies : s.db.anomalies.rows = [])
    (hlog : s.db.auditLog = []) : Histories s fun _ => [] := by
  have noEvent : ∀ {e}, e ∉ s.db.anomalies.rows := fun he => by simp [hanomalies] at he
  refine ⟨?_, fun e he => absurd he noEvent, fun e he => absurd he noEvent, fun id _ => ⟨rfl, ?_⟩,
    fun e he => absurd he noEvent, fun row hrow => ?_⟩
  · rw [hlog]
    exact ordered_nil _
  · rw [hlog]
    rfl
  · rw [hlog] at hrow
    nomatch hrow

section

variable {s s' : Store Db} {changes : Uuid → List AnomalyStatus}

/-- What leaves the anomalies and the entries about them keeps the histories. -/
theorem Histories.same (h : Histories s changes) (hsame : SameAnomalies s.db s'.db)
    (hordered : Ordered s'.db.auditLog s'.sequence) : Histories s' changes := by
  have htrail : ∀ id, trail (concerns id) s'.db.auditLog = trail (concerns id) s.db.auditLog := by
    intro id
    refine congrArg inSequenceOrder (hsame.log _ fun row hrow => ?_)
    exact concerns_eventType hrow
  refine ⟨hordered, ?_, ?_, ?_, ?_, fun row hrow htype => ?_⟩
  · rw [hsame.anomalies]
    exact h.status
  · rw [hsame.anomalies]
    exact fun e he => (htrail e.id).symm ▸ h.told e he
  · rw [hsame.anomalies]
    exact fun id hid => (htrail id).symm ▸ h.unknown id hid
  · rw [hsame.anomalies]
    exact h.category
  · rw [hsame.anomalies]
    have hmem : row ∈ s'.db.auditLog.filter fun r => r.eventType == .anomalyDetected :=
      List.mem_filter.mpr ⟨hrow, by simpa using htype⟩
    rw [hsame.log _ fun r hr => by simpa using hr] at hmem
    exact h.subject row (List.mem_filter.mp hmem).1 htype

variable {crypto : AuditCrypto} {rows : List AuditLogEntry}

/-- A new anomaly has its first entry. -/
theorem Histories.created (h : Histories s changes) {env : AnomalyEnv}
    {payload : AnomalyEventCreate} {actor before : Option String} {stored : AnomalyEvent} {n : ℕ}
    {row : AuditLogEntry}
    (hstored : StoredEvent (newAnomalyEvent env payload) stored)
    (hrows : s'.db.anomalies.rows = s.db.anomalies.rows ++ [stored])
    (happended : AppendedAs crypto (env.audit 0)
      (createdEntry actor (newAnomalyEvent env payload)) before n row)
    (hlog : s'.db.auditLog = s.db.auditLog ++ [row])
    (hordered : Ordered s'.db.auditLog s'.sequence) : Histories s' changes := by
  have hid : stored.id = (newAnomalyEvent env payload).id := hstored.id_eq
  have hconcerns : ∀ id, concerns id row = decide (stored.id = id) := fun id =>
    hid ▸ anomalyEntry_concerns happended id
  have hnew : ∀ e ∈ s.db.anomalies.rows, e.id ≠ stored.id := by
    have hnodup := s'.db.anomalies.nodup
    rw [hrows, List.map_append, List.map_singleton, List.nodup_append] at hnodup
    exact fun e he => hnodup.2.2 _ (List.mem_map_of_mem he) _ List.mem_cons_self
  have hfind : s.db.anomalies.find? stored.id = none :=
    Table.find?_eq_none.mpr hnew
  have htrail : ∀ id, trail (concerns id) s'.db.auditLog =
      trail (concerns id) s.db.auditLog ++ [row].filter (concerns id) := by
    intro id
    rw [hlog]
    exact h.ordered.trail_concat (hlog ▸ hordered) _
  have hother : ∀ id, stored.id ≠ id →
      trail (concerns id) s'.db.auditLog = trail (concerns id) s.db.auditLog := by
    intro id hne
    rw [htrail, List.filter_cons_of_neg (by simp [hconcerns, hne]), List.filter_nil,
      List.append_nil]
  obtain ⟨hchanges, hnone⟩ := h.unknown stored.id hfind
  have hsearchable : isSearchable row =
      isDecodable (sanitizeMetadata (.obj stored.metadataJson)) := by
    have hrow := anomalyEntry_isSearchable happended (decodes_of_varchar hstored.category)
    rw [hstored.rest]
    exact hrow
  refine ⟨hordered, fun e he => ?_, fun e he => ?_, fun id hid => ?_, fun e he => ?_,
    fun r hr htype => ?_⟩
  · rw [hrows] at he
    rcases List.mem_append.mp he with he | he
    · exact h.status e he
    · rw [List.mem_singleton.mp he, hchanges, hstored.rest]
      rfl
  · rw [hrows] at he
    rcases List.mem_append.mp he with he | he
    · rw [hother e.id (hnew e he).symm]
      exact h.told e he
    · rw [List.mem_singleton.mp he, hchanges, htrail, hnone,
        List.filter_cons_of_pos (by simp [hconcerns])]
      exact .cons (anomalyEntry_historyEntry happended (by decide)) .nil
  · have hnot := Table.find?_eq_none.mp hid
    rw [hrows] at hnot
    rw [hother id (hnot stored (by simp))]
    exact h.unknown id (Table.find?_eq_none.mpr fun e he => hnot e (List.mem_append_left _ he))
  · rw [hrows] at he
    rcases List.mem_append.mp he with he | he
    · exact h.category e he
    · rw [List.mem_singleton.mp he]
      exact decodes_varchar hstored.category
  · rw [hlog] at hr
    rcases List.mem_append.mp hr with hr | hr
    · obtain ⟨e, he, hsubject⟩ := h.subject r hr htype
      exact ⟨e, hrows ▸ List.mem_append_left _ he, hsubject⟩
    · rw [List.mem_singleton.mp hr]
      exact ⟨stored, by simp [hrows], by simp [hconcerns], hsearchable⟩

/-- The anomalies that a request moves have one entry more each. -/
theorem Histories.moved (h : Histories s changes) {changes' : Uuid → List AnomalyStatus}
    {env : AnomalyEnv} {status : AnomalyStatus} {actor : Option String} {events : List AnomalyEvent}
    (hevents : ∀ e ∈ events, e ∈ s.db.anomalies.rows)
    (hdistinct : (events.map AnomalyEvent.id).Nodup)
    (hrows : s'.db.anomalies.rows =
      s.db.anomalies.rows.map (transitioned env.now status (events.map AnomalyEvent.id)))
    (hmoved : List.Forall₂ (MovedAs crypto env status actor) events rows)
    (hlog : s'.db.auditLog = s.db.auditLog ++ rows)
    (hordered : Ordered s'.db.auditLog s'.sequence)
    (hchanges : ∀ e ∈ s.db.anomalies.rows, changes' e.id =
      changes e.id ++ if e.id ∈ events.map AnomalyEvent.id then [status] else [])
    (hunknown : ∀ id, s.db.anomalies.find? id = none → changes' id = changes id) :
    Histories s' changes' := by
  have htrail : ∀ id, trail (concerns id) s'.db.auditLog =
      trail (concerns id) s.db.auditLog ++ rows.filter (concerns id) := by
    intro id
    rw [hlog]
    exact h.ordered.trail_concat (hlog ▸ hordered) _
  have hevent : ∀ e ∈ s.db.anomalies.rows, e.id ∈ events.map AnomalyEvent.id → e ∈ events := by
    intro e he hid
    obtain ⟨e', he', heq⟩ := List.mem_map.mp hid
    rwa [← s.db.anomalies.eq_of_key_eq (hevents e' he') he heq]
  refine ⟨hordered, fun e he => ?_, fun e he => ?_, fun id hid => ?_, fun e he => ?_,
    fun row hrow htype => ?_⟩
  · rw [hrows] at he
    obtain ⟨e, hmem, rfl⟩ := List.mem_map.mp he
    rw [transitioned_id, hchanges e hmem, transitioned]
    split
    · exact currentStatus_append _ _
    · rw [List.append_nil]
      exact h.status e hmem
  · rw [hrows] at he
    obtain ⟨e, hmem, rfl⟩ := List.mem_map.mp he
    rw [transitioned_id, hchanges e hmem, htrail]
    split
    · next hid =>
      have hfilter := moved_filter hmoved e.id
      rw [Table.filter_key hdistinct (hevent e hmem hid)] at hfilter
      obtain ⟨row, rest, hrow, hnil, heq⟩ := List.forall₂_cons_left_iff.mp hfilter
      rw [heq, List.forall₂_nil_left_iff.mp hnil, lifecycle_append, h.status e hmem]
      exact List.rel_append (h.told e hmem) (.cons (moved_tells hrow) .nil)
    · next hid =>
      rw [moved_filter_eq_nil hmoved hid, List.append_nil, List.append_nil]
      exact h.told e hmem
  · have hnone : s.db.anomalies.find? id = none := by
      refine Table.find?_eq_none.mpr fun e he heq => ?_
      refine Table.find?_eq_none.mp hid (transitioned env.now status (events.map AnomalyEvent.id) e)
        (hrows ▸ List.mem_map_of_mem he) ?_
      rw [transitioned_id, heq]
    have hid' : id ∉ events.map AnomalyEvent.id := by
      intro hmap
      obtain ⟨e, he, rfl⟩ := List.mem_map.mp hmap
      exact Table.find?_eq_none.mp hnone e (hevents e he) rfl
    rw [hunknown id hnone, htrail, moved_filter_eq_nil hmoved hid', List.append_nil]
    exact h.unknown id hnone
  · rw [hrows] at he
    obtain ⟨e, hmem, rfl⟩ := List.mem_map.mp he
    rw [transitioned]
    split
    · exact h.category e hmem
    · exact h.category e hmem
  · have hsubject : ∃ e ∈ s.db.anomalies.rows, concerns e.id row = true ∧
        isSearchable row = isDecodable (sanitizeMetadata (.obj e.metadataJson)) := by
      rw [hlog] at hrow
      rcases List.mem_append.mp hrow with hrow | hrow
      · exact h.subject row hrow htype
      · obtain ⟨e, he, hrow⟩ := RelatedLists.forall₂_mem_right hmoved hrow
        exact ⟨e, hevents e he, by simp [moved_concerns hrow],
          moved_isSearchable hrow (h.category e (hevents e he))⟩
    obtain ⟨e, he, hconcerns, hsearchable⟩ := hsubject
    refine ⟨transitioned env.now status (events.map AnomalyEvent.id) e,
      hrows ▸ List.mem_map_of_mem he, ?_, ?_⟩
    · rw [transitioned_id]
      exact hconcerns
    · rw [transitioned_metadataJson]
      exact hsearchable

end

/-! ## Runs -/

section

variable (crypto : AuditCrypto) (tables : CharacterTables)

/-- The status that an operation gives an anomaly that exists, where it is answered. -/
def statusChange (s : Store Db) (op : AuditedOperation) (eventId : Uuid) : List AnomalyStatus :=
  match s.db.anomalies.find? eventId,
    ((op.request crypto tables).serial postgres s.db s.db s.sequence).result with
  | some _, .ok _ => (requestedStatus eventId op).toList
  | _, _ => []

/-- The statuses that the operations of a run give an anomaly. -/
def statusChanges : Store Db → List AuditedOperation → Uuid → List AnomalyStatus
  | _, [], _ => []
  | s, op :: ops, eventId => statusChange crypto tables s op eventId ++
    statusChanges (s.exec postgres (op.request crypto tables)) ops eventId

end

section

variable {crypto : AuditCrypto} {tables : CharacterTables} {s : Store Db}
  {changes : Uuid → List AnomalyStatus}

theorem statusChange_of_none {op : AuditedOperation} (h : ∀ id, requestedStatus id op = none)
    (eventId : Uuid) : statusChange crypto tables s op eventId = [] := by
  unfold statusChange
  split
  · rw [h]
    rfl
  · rfl

/-- The other services leave the anomalies and their entries. -/
theorem quiet_operation {op : AuditedOperation} (h : ∀ r, op ≠ .anomaly r) :
    (op.request crypto tables).Sends Quiet := by
  cases op with
  | applyPendingChanges env changedBy => exact quiet_parameterRequest (.apply env changedBy)
  | anomaly r => exact absurd rfl (h r)
  | activateConfiguration env configId actor =>
    exact quiet_configurationRequest (.activate env configId actor)
  | rollbackConfiguration env configId actor =>
    exact quiet_configurationRequest (.rollback env configId actor)
  | key r => exact quiet_hsmRequest r
  | runAttestation env actor => exact (quiet_runAttestation actor).answer

/-- The step lemma. -/
theorem Histories.step (h : Histories s changes) (op : AuditedOperation) :
    Histories (s.exec postgres (op.request crypto tables))
      fun id => changes id ++ statusChange crypto tables s op id := by
  have hordered : Ordered (s.exec postgres (op.request crypto tables)).db.auditLog
      (s.exec postgres (op.request crypto tables)).sequence :=
    h.ordered.exec (AuditedOperation.ends op)
  by_cases hanomaly : ∃ r, op = .anomaly r
  · obtain ⟨r, rfl⟩ := hanomaly
    have hsound : ∃ work, Answered crypto s.db r
        (((AuditedOperation.anomaly r).request crypto tables).serial postgres s.db s.db
          s.sequence).result
        (s.exec postgres ((AuditedOperation.anomaly r).request crypto tables)).db work
        (s.exec postgres ((AuditedOperation.anomaly r).request crypto tables)).sequence :=
      Request.serial_sound (request_answered r)
    obtain ⟨_, hanswered⟩ := hsound
    cases hresult : (((AuditedOperation.anomaly r).request crypto tables).serial postgres s.db s.db
      s.sequence).result with
    | error error =>
      have hnone : ∀ id, statusChange crypto tables s (.anomaly r) id = [] := by
        intro id
        unfold statusChange
        rw [hresult]
        split
        · next heq => nomatch heq
        · rfl
      rw [hresult] at hanswered
      have hdb : (s.exec postgres ((AuditedOperation.anomaly r).request crypto tables)).db = s.db :=
        hanswered
      simp only [hnone, List.append_nil]
      exact h.same (hdb.symm ▸ SameAnomalies.refl s.db) hordered
    | ok value =>
      have hchange : ∀ e ∈ s.db.anomalies.rows, statusChange crypto tables s (.anomaly r) e.id =
          (requestedStatus e.id (.anomaly r)).toList := by
        intro e he
        unfold statusChange
        rw [hresult, Table.find?_of_mem he]
      have hunknown : ∀ id, s.db.anomalies.find? id = none →
          statusChange crypto tables s (.anomaly r) id = [] := by
        intro id hid
        unfold statusChange
        rw [hid]
      rw [hresult] at hanswered
      obtain ⟨rows, hlog, hstep⟩ := hanswered
      cases hstep with
      | @created env payload actor _ _ _ _ hstored hinserted happended =>
        have hnone : ∀ id, statusChange crypto tables s (.anomaly (.create env payload actor)) id =
            [] := statusChange_of_none fun _ => rfl
        simp only [hnone, List.append_nil]
        exact h.created hstored hinserted happended hlog hordered
      | @moved _ _ status _ _ _ hevents hdistinct hnamed hupdated happended =>
        refine h.moved hevents hdistinct hupdated happended hlog hordered (fun e he => ?_)
          fun id hid => ?_
        · rw [hchange e he, hnamed e he]
          split
          · rfl
          · rfl
        · rw [hunknown id hid, List.append_nil]
  · have hquiet : ∀ r, op ≠ .anomaly r := fun r heq => hanomaly ⟨r, heq⟩
    have hnone : ∀ id, requestedStatus id op = none := by
      intro id
      cases op with
      | anomaly r => exact absurd rfl (hquiet r)
      | _ => rfl
    simp only [statusChange_of_none hnone, List.append_nil]
    exact h.same (exec_sameAnomalies (quiet_operation hquiet) s) hordered

/-- The run lemma. -/
theorem Histories.run (h : Histories s changes) (ops : List AuditedOperation) :
    Histories (s.execAll postgres (ops.map (·.request crypto tables)))
      fun id => changes id ++ statusChanges crypto tables s ops id := by
  induction ops generalizing s changes with
  | nil => simpa [statusChanges] using h
  | cons op ops ih => simpa [statusChanges, List.append_assoc] using ih (h.step op)

/-! ## The history -/

/-- The query has an answer where it can decode the documents of all anomalies. -/
theorem Histories.searchable_iff (h : Histories s changes) :
    s.db.auditLog.all isSearchable = true ↔ ∀ e ∈ s.db.anomalies.rows,
      isDecodable (sanitizeMetadata (.obj e.metadataJson)) = true := by
  rw [List.all_eq_true]
  constructor
  · intro hall e he
    have htold := h.told e he
    rw [h.ordered.trail_eq] at htold
    obtain ⟨row, rest, -, -, heq⟩ := List.forall₂_cons_left_iff.mp htold
    have hmem : row ∈ s.db.auditLog.filter (concerns e.id) := heq ▸ List.mem_cons_self
    obtain ⟨hrow, hconcerns⟩ := List.mem_filter.mp hmem
    obtain ⟨e', he', hconcerns', hsearchable⟩ :=
      h.subject row hrow (concerns_eventType hconcerns)
    obtain rfl := s.db.anomalies.eq_of_key_eq he he' (concerns_unique hconcerns hconcerns')
    rw [← hsearchable]
    exact hall row hrow
  · intro hall row hrow
    by_cases htype : row.eventType = .anomalyDetected
    · obtain ⟨e, he, -, hsearchable⟩ := h.subject row hrow htype
      rw [hsearchable]
      exact hall e he
    · simp [isSearchable, htype]

/-- It is answered with the lifecycle, or it fails. -/
theorem Histories.answer (h : Histories s changes) {event : AnomalyEvent}
    (hevent : event ∈ s.db.anomalies.rows) :
    (∃ entries, historyAnswer event.id s.db = .ok entries ∧
      Faithful (changes event.id) event.status entries) ↔
      ∀ e ∈ s.db.anomalies.rows, isDecodable (sanitizeMetadata (.obj e.metadataJson)) = true := by
  rw [← h.searchable_iff]
  have htold := h.told event hevent
  have hascending : (trail (concerns event.id) s.db.auditLog).Pairwise
      fun r r' => r.sequence < r'.sequence := by
    rw [h.ordered.trail_eq]
    exact h.ordered.ascending.filter _
  have hfaithful := faithful_of_tells hascending htold
  rw [h.status event hevent] at hfaithful
  unfold historyAnswer
  rw [Table.find?_of_mem hevent, mapM_historyEntry htold]
  constructor
  · rintro ⟨entries, hanswer, -⟩
    by_contra hall
    simp only [hall] at hanswer
    nomatch hanswer
  · intro hall
    exact ⟨_, if_pos hall, hfaithful⟩

end

def sampleAnomalyEnv (k : ℕ) : AnomalyEnv where
  uuid4 := 500 + k
  now := (AuditVerification.sampleEnv k).now
  audit j := AuditVerification.sampleEnv (10 * k + j)
  eventOrder a b := a ≤ b

theorem half_isFloat : ("0.5".toList.all (fun c => c.isDigit || ['.', 'e', '+', '-'].contains c) &&
    "0.5".toList.any fun c => c == '.' || c == 'e') = true := by decide

def sampleAnomaly (metadataJson : List (String × Json)) : AnomalyEventCreate where
  category := "login"
  score := .finite (1 / 2) ⟨"0.5".toList, half_isFloat⟩
  title := "Unusual login"
  description := "A login at night"
  metadataJson := metadataJson

/-- Two status changes of an anomaly, with a key created between them. -/
def sampleOperations : List AuditedOperation :=
  [.anomaly (.create (sampleAnomalyEnv 0) (sampleAnomaly [("region", .str "eu-west-1")]) none),
    .anomaly (.updateStatus (sampleAnomalyEnv 1) 500 .investigating (some "ops@example.com")),
    .key (.createKey (HsmLifecycle.sampleHsmEnv 21) HsmLifecycle.sampleMasterKey "ops@example.com"),
    .anomaly (.bulkUpdateStatus (sampleAnomalyEnv 3) [500, 999, 500] .resolved none)]

def sampleHistory : Store Db :=
  Store.execAll postgres ⟨emptyDb, 1⟩
    (sampleOperations.map (·.request AuditVerification.sha256Crypto asciiTables))

end NexusEngine.AnomalyHistories
