import NexusEngine.AnomalyLifecycle
import NexusEngine.AuditedTransactions

/-!
# The transactions of the anomaly service

A request fails and leaves the database, or performs its plan: one saved event and one entry for
each event that it ingests or moves. A status change of an unknown event has neither.
-/

namespace NexusEngine.AnomalyTransactions

open TransactionalRequests StoredColumns CalendarTime KeyedTables AnomalyTables AuditLogTable
  Database AuditService AuditAppends AuditedTransactions AnomalyService AnomalyLifecycle

/-- The statements that move events to a status. -/
def statusStatements (now : Instant) (status : AnomalyStatus) (events : List AnomalyEvent) :
    List Statement :=
  events.flatMap fun e => saveAnomalyEvent e (withStatus now status e)

/-- The entries of the events that are moved, from the `k`-th on. -/
def statusAppends (env : AnomalyEnv) (status : AnomalyStatus) (actor : Option String) :
    ℕ → List AnomalyEvent → List Append
  | _, [] => []
  | k, event :: events =>
    (env.audit k, statusEntry actor event.status (withStatus env.now status event)) ::
      statusAppends env status actor (k + 1) events

theorem statusAppends_length (env : AnomalyEnv) (status : AnomalyStatus) (actor : Option String)
    (k : ℕ) (events : List AnomalyEvent) :
    (statusAppends env status actor k events).length = events.length := by
  induction events generalizing k with
  | nil => rfl
  | cons event events ih => rw [statusAppends, List.length_cons, List.length_cons, ih]

/-- What a request sends and appends. -/
inductive AnomalyPlan (t : AnomalyEvents) :
    AnomalyRequest → List Statement → List Append → Prop where
  | created {env : AnomalyEnv} {payload : AnomalyEventCreate} {actor : Option String} :
      AnomalyPlan t (.create env payload actor)
        [.anomaly (.insertEvent (newAnomalyEvent env payload))]
        [(env.audit 0, createdEntry actor (newAnomalyEvent env payload))]
  | unknown {env : AnomalyEnv} {eventId : Uuid} {status : AnomalyStatus} {actor : Option String}
      (missing : t.find? eventId = none) :
      AnomalyPlan t (.updateStatus env eventId status actor) [] []
  | updated {env : AnomalyEnv} {event : AnomalyEvent} {status : AnomalyStatus}
      {actor : Option String} (isEvent : t.find? event.id = some event) :
      AnomalyPlan t (.updateStatus env event.id status actor)
        (statusStatements env.now status [event]) (statusAppends env status actor 0 [event])
  | bulkUpdated {env : AnomalyEnv} {eventIds : List Uuid} {status : AnomalyStatus}
      {actor : Option String} {events : List AnomalyEvent}
      (isEvents : events = eventsWithin env eventIds.eraseDups t) :
      AnomalyPlan t (.bulkUpdateStatus env eventIds status actor)
        (statusStatements env.now status events) (statusAppends env status actor 0 events)

theorem domain_saveAnomalyEvent {old new : AnomalyEvent} : Domain (saveAnomalyEvent old new) := by
  unfold saveAnomalyEvent
  split
  · exact domain_nil
  · exact domain_singleton rfl

section

variable {crypto : AuditCrypto} {db durable work : Db} {n m : ℕ}

theorem refreshed_wp {id : Uuid} {post : Except ServiceError AnomalyEvent → Db → Db → ℕ → Prop}
    (h : ∀ result, post result durable work n) :
    (refreshed id).wp postgres post durable work n := by
  simp only [refreshed, Request.wp_bind, Request.wp_select, wp_found]
  exact ⟨fun _ => h _, fun _ _ => h _⟩

/-- The rule of one transition. -/
theorem transition_performs {env : AnomalyEnv} {status : AnomalyStatus} {actor : Option String}
    {event : AnomalyEvent} {k : ℕ} {ws : List Statement} {as : List Append}
    {post : Except ServiceError Unit → Db → Db → ℕ → Prop}
    (hwork : Performed crypto db n ws as work m)
    (failed : ∀ error work' m', n ≤ m' → post (.error error) durable work' m')
    (performed : ∀ work' m', Performed crypto db n (ws ++ statusStatements env.now status [event])
      (as ++ statusAppends env status actor k [event]) work' m' → post (.ok ()) durable work' m') :
    (transition crypto env.now (env.audit k) status actor event).wp postgres post durable work m := by
  have hle := hwork.le
  refine (Request.wp_bind ..).mpr (send_performs hwork domain_saveAnomalyEvent
    (fun _ => failed _ _ _ (by omega)) fun mid _ hsaved => ?_)
  refine (Request.wp_bind ..).mpr (append_performs hsaved domain_nil
    (fun _ k hk => failed _ _ _ (by omega)) fun row work' hperformed => ?_)
  refine Request.wp_return (performed work' _ ?_)
  simpa [statusStatements, statusAppends] using hperformed

/-- The rule of the loop. -/
theorem transitionAll_performs {env : AnomalyEnv} {status : AnomalyStatus} {actor : Option String}
    {events : List AnomalyEvent} {k : ℕ} {ws : List Statement} {as : List Append}
    {post : Except ServiceError Unit → Db → Db → ℕ → Prop}
    (hwork : Performed crypto db n ws as work m)
    (failed : ∀ error work' m', n ≤ m' → post (.error error) durable work' m')
    (performed : ∀ work' m', Performed crypto db n (ws ++ statusStatements env.now status events)
      (as ++ statusAppends env status actor k events) work' m' → post (.ok ()) durable work' m') :
    (transitionAll crypto env status actor k events).wp postgres post durable work m := by
  induction events generalizing work k m ws as with
  | nil =>
    refine Request.wp_return (performed work m ?_)
    simpa [statusStatements, statusAppends] using hwork
  | cons event events ih =>
    refine (Request.wp_bind ..).mpr (transition_performs hwork failed fun mid m' hmoved => ?_)
    refine ih hmoved fun work' k' hperformed => performed work' k' ?_
    simpa [statusStatements, statusAppends] using hperformed

theorem createAnomalyEvent_ends (env : AnomalyEnv) (payload : AnomalyEventCreate)
    (actor : Option String) :
    (createAnomalyEvent crypto env payload actor).wp postgres
      (Ends crypto (AnomalyPlan db.anomalies (.create env payload actor)) db n) db db n := by
  refine (Request.wp_bind ..).mpr (send_performs (.start crypto db n) (domain_singleton rfl)
    (fun _ => .failed (Nat.le_succ n)) fun mid _ hsent => ?_)
  refine (Request.wp_bind ..).mpr (append_performs hsent domain_nil
    (fun _ k hk => .failed (by omega)) fun row work' hperformed => ?_)
  exact Request.wp_commitTransaction_bind (refreshed_wp fun _ => .performed .created hperformed)

theorem updateAnomalyStatus_ends (env : AnomalyEnv) (eventId : Uuid) (status : AnomalyStatus)
    (actor : Option String) :
    (updateAnomalyStatus crypto env eventId status actor).wp postgres
      (Ends crypto (AnomalyPlan db.anomalies (.updateStatus env eventId status actor)) db n)
      db db n := by
  refine (Request.wp_bind ..).mpr ?_
  rw [Request.wp_select]
  dsimp only
  cases hfind : db.anomalies.find? eventId with
  | none => exact Request.wp_return (.performed (.unknown hfind) (.start crypto db n))
  | some event =>
    obtain ⟨-, rfl⟩ := Table.find?_eq_some.mp hfind
    refine (Request.wp_bind ..).mpr (transition_performs (.start crypto db n)
      (fun _ _ _ hk => .failed hk) fun work' m' hperformed => ?_)
    refine Request.wp_commitTransaction_bind ((Request.wp_bind ..).mpr (refreshed_wp fun result => ?_))
    cases result with
    | ok event => exact Request.wp_return (.performed (.updated hfind) hperformed)
    | error error => exact .performed (.updated hfind) hperformed

theorem bulkUpdateAnomalyStatus_ends (env : AnomalyEnv) (eventIds : List Uuid)
    (status : AnomalyStatus) (actor : Option String) :
    (bulkUpdateAnomalyStatus crypto env eventIds status actor).wp postgres
      (Ends crypto (AnomalyPlan db.anomalies (.bulkUpdateStatus env eventIds status actor)) db n)
      db db n := by
  refine (Request.wp_bind ..).mpr ?_
  rw [Request.wp_select]
  refine (Request.wp_bind ..).mpr (transitionAll_performs (.start crypto db n)
    (fun _ _ _ hk => .failed hk) fun work' m' hperformed => ?_)
  exact Request.wp_commitTransaction_bind (Request.wp_return
    (.performed (.bulkUpdated rfl) hperformed))

/-- The specification of the service: a request fails and leaves the database, or performs one of
its plans. -/
theorem request_ends (r : AnomalyRequest) :
    (r.request crypto).wp postgres (Ends crypto (AnomalyPlan db.anomalies r) db n) db db n := by
  cases r with
  | create env payload actor =>
    exact Request.wp_answer (Request.wp_mono (createAnomalyEvent_ends env payload actor)
      fun _ _ _ _ h => h.map)
  | updateStatus env eventId status actor =>
    exact Request.wp_answer (Request.wp_mono (updateAnomalyStatus_ends env eventId status actor)
      fun _ _ _ _ h => h.map)
  | bulkUpdateStatus env eventIds status actor =>
    exact Request.wp_answer (Request.wp_mono (bulkUpdateAnomalyStatus_ends env eventIds status actor)
      fun _ _ _ _ h => h.map)

end

end NexusEngine.AnomalyTransactions
