import NexusEngine.AnomalyHistories

/-!
# The time at which an anomaly was resolved

Resolving an anomaly sets the time and opening it again clears it. The other two statuses leave it
as it is, so that it stays where they follow a resolution.
-/

namespace NexusEngine.AnomalyResolution

open TransactionalRequests StoredColumns CalendarTime KeyedTables AnomalyTables AuditLogTable
  Database AuditService AnomalyService AnomalyLifecycle AnomalyHistories

/-! ## Runs of the service -/

def execAll (crypto : AuditCrypto) (s : Store Db) (rs : List AnomalyRequest) : Store Db :=
  s.execAll postgres (rs.map (·.request crypto))

/-- The request is answered, and not refused. -/
def IsAnswered (crypto : AuditCrypto) (s : Store Db) (r : AnomalyRequest) : Prop :=
  ((r.request crypto).serial postgres s.db s.db s.sequence).result = .ok ()

theorem execAll_concat (crypto : AuditCrypto) (s : Store Db) (rs : List AnomalyRequest)
    (r : AnomalyRequest) :
    execAll crypto s (rs ++ [r]) = (execAll crypto s rs).exec postgres (r.request crypto) :=
  Store.execAll_concat ..

/-- The step lemma of the service: an answered request makes its step, and another one none. -/
theorem exec_step (crypto : AuditCrypto) (s : Store Db) (r : AnomalyRequest) :
    (IsAnswered crypto s r ∧ ∃ rows, AnomalyStep crypto s.db.anomalies
        (s.exec postgres (r.request crypto)).db.anomalies r rows) ∨
      (¬ IsAnswered crypto s r ∧ (s.exec postgres (r.request crypto)).db = s.db) := by
  have hrequest : (r.request crypto).wp postgres (Answered crypto s.db r) s.db s.db s.sequence :=
    request_answered r
  obtain ⟨work, hend⟩ := Request.serial_sound hrequest
  unfold IsAnswered
  cases hresult : ((r.request crypto).serial postgres s.db s.db s.sequence).result with
  | ok value =>
    rw [hresult] at hend
    obtain ⟨rows, -, hstep⟩ := hend
    exact .inl ⟨rfl, rows, hstep⟩
  | error error =>
    rw [hresult] at hend
    exact .inr ⟨fun hok => (nomatch hok), hend⟩

/-! ## The timestamp -/

/-- Exactly the resolved anomalies have a time of resolution. -/
def ResolutionsTimed (t : AnomalyEvents) : Prop :=
  ∀ e ∈ t.rows, e.resolvedAt.isSome ↔ e.status = .resolved

/-- The request acknowledges or dismisses an anomaly that is resolved. -/
def LeavesResolution (t : AnomalyEvents) (r : AnomalyRequest) : Prop :=
  ∃ e ∈ t.rows, e.status = .resolved ∧
    (requestedStatus e.id (.anomaly r) = some .investigating ∨
      requestedStatus e.id (.anomaly r) = some .dismissed)

/-- The rule of a transition: it keeps the law unless it leaves a resolution behind. -/
theorem withStatus_timed {now : Instant} {status : AnomalyStatus} {e : AnomalyEvent}
    (h : e.resolvedAt.isSome ↔ e.status = .resolved) :
    ((withStatus now status e).resolvedAt.isSome ↔ (withStatus now status e).status = .resolved) ↔
      ¬ (e.status = .resolved ∧ (status = .investigating ∨ status = .dismissed)) := by
  cases status with
  | resolved => simp [withStatus]
  | open_ => simp [withStatus]
  | investigating => simp [withStatus, h]
  | dismissed => simp [withStatus, h]

/-- The step lemma of the timestamp. -/
theorem resolutionsTimed_step {crypto : AuditCrypto} {t t' : AnomalyEvents} {r : AnomalyRequest}
    {rows : List AuditLogEntry} (h : ResolutionsTimed t)
    (hstep : AnomalyStep crypto t t' r rows) :
    ResolutionsTimed t' ↔ ¬ LeavesResolution t r := by
  cases hstep with
  | @created env payload actor before stored n row isStored inserted appended =>
    refine iff_of_true (fun e he => ?_) fun ⟨e, _, _, hrequested⟩ => ?_
    · rw [inserted] at he
      rcases List.mem_append.mp he with he | he
      · exact h e he
      · rw [List.mem_singleton.mp he, isStored.rest]
        simp [newAnomalyEvent]
    · rcases hrequested with hnone | hnone
      · cases hnone
      · cases hnone
  | @moved _ env status actor events _ isEvents distinct named updated appended =>
    have htimed : ∀ e ∈ t.rows,
        ((transitioned env.now status (events.map AnomalyEvent.id) e).resolvedAt.isSome ↔
          (transitioned env.now status (events.map AnomalyEvent.id) e).status = .resolved) ↔
        ¬ (e.status = .resolved ∧ (requestedStatus e.id (.anomaly r) = some .investigating ∨
          requestedStatus e.id (.anomaly r) = some .dismissed)) := by
      intro e he
      rw [named e he]
      unfold transitioned
      by_cases hid : e.id ∈ events.map AnomalyEvent.id
      · simp only [if_pos hid, Option.some.injEq]
        exact withStatus_timed (h e he)
      · rw [if_neg hid, if_neg hid]
        simp [h e he]
    constructor
    · rintro hafter ⟨e, he, hleaves⟩
      refine (htimed e he).mp (hafter _ ?_) hleaves
      rw [updated]
      exact List.mem_map_of_mem he
    · intro hleaves e' he'
      rw [updated] at he'
      obtain ⟨e, he, rfl⟩ := List.mem_map.mp he'
      exact (htimed e he).mpr fun hnot => hleaves ⟨e, he, hnot⟩

/-- The timestamp tells the resolved anomalies, at every point of a run from an empty table, exactly
when no request of the run that is answered acknowledges or dismisses a resolved anomaly. -/
theorem resolutionsTimed_iff (crypto : AuditCrypto) (db : Db) (n : ℕ) (rs : List AnomalyRequest) :
    let start : Store Db := ⟨{ db with anomalies := .empty }, n⟩
    (∀ before after, rs = before ++ after →
      ResolutionsTimed (execAll crypto start before).db.anomalies) ↔
    ∀ before r after, rs = before ++ r :: after →
      IsAnswered crypto (execAll crypto start before) r →
        ¬ LeavesResolution (execAll crypto start before).db.anomalies r := by
  intro start
  have hstep : ∀ before r,
      ResolutionsTimed (execAll crypto start before).db.anomalies →
        (ResolutionsTimed (execAll crypto start (before ++ [r])).db.anomalies ↔
          (IsAnswered crypto (execAll crypto start before) r →
            ¬ LeavesResolution (execAll crypto start before).db.anomalies r)) := by
    intro before r hbefore
    rw [execAll_concat]
    rcases exec_step crypto (execAll crypto start before) r with ⟨hanswered, rows, hstep⟩ |
      ⟨hrefused, hsame⟩
    · rw [resolutionsTimed_step hbefore hstep]
      exact ⟨fun h _ => h, fun h => h hanswered⟩
    · rw [hsame]
      exact iff_of_true hbefore fun hanswered => absurd hanswered hrefused
  constructor
  · intro h before r after hrs
    have hbefore := h before (r :: after) hrs
    refine (hstep before r hbefore).mp (h (before ++ [r]) after ?_)
    rw [hrs]
    simp
  · intro h before
    induction before using List.reverseRecOn with
    | nil => exact fun _ _ e he => absurd he List.not_mem_nil
    | append_singleton before r ih =>
      intro after hrs
      have hsplit : rs = before ++ r :: after := by
        rw [hrs]
        simp
      exact (hstep before r (ih (r :: after) hsplit)).mpr (h before r after hsplit)

/-- An anomaly that is dismissed after its resolution, or taken up again, keeps the time. -/
theorem dismissed_anomaly_resolved :
    let rs := fun status => [AnomalyRequest.create (sampleAnomalyEnv 0) (sampleAnomaly []) none,
      .updateStatus (sampleAnomalyEnv 1) 500 .resolved none,
      .updateStatus (sampleAnomalyEnv 2) 500 status none]
    (∀ status ∈ [AnomalyStatus.dismissed, .investigating],
      ((execAll AuditVerification.sha256Crypto ⟨emptyDb, 1⟩ (rs status)).db.anomalies.rows.map
        fun e => (e.id, e.status, e.resolvedAt.isSome)) = [(500, status, true)]) ∧
    ¬ ResolutionsTimed
      (execAll AuditVerification.sha256Crypto ⟨emptyDb, 1⟩ (rs .dismissed)).db.anomalies := by
  intro rs
  have hkept : ∀ status ∈ [AnomalyStatus.dismissed, .investigating],
      ((execAll AuditVerification.sha256Crypto ⟨emptyDb, 1⟩ (rs status)).db.anomalies.rows.map
        fun e => (e.id, e.status, e.resolvedAt.isSome)) = [(500, status, true)] := by
    decide +kernel
  refine ⟨hkept, fun htimed => ?_⟩
  have hdismissed := hkept .dismissed List.mem_cons_self
  obtain ⟨e, he, heq⟩ := List.mem_map.mp
    (hdismissed ▸ List.mem_singleton_self (500, AnomalyStatus.dismissed, true))
  simp only [Prod.mk.injEq] at heq
  have hresolved := (htimed e he).mp heq.2.2
  rw [heq.2.1] at hresolved
  cases hresolved

end NexusEngine.AnomalyResolution
