import NexusEngine.NotificationService

/-!
# Users do not see each other's notifications

The view of a user is the rows of that user. The calls of the user depend on these rows only,
and the calls of the others leave them alone, so that whatever the others do the user gets the
same answers. A row that is read has a time, which never changes again.
-/

namespace NexusEngine.NotificationIsolation

open TransactionalRequests KeyedTables StoredColumns CalendarTime Database RankedRows
  NotificationTables NotificationService Unwinding
open ListingPages (sendable)
open DashboardActivity (isRowCount)
open NotificationStore (unreadOf)

variable {userId : Uuid} {s t : NotificationStore} {n m : ℕ}

def rowsOf (userId : Uuid) (s : NotificationStore) : List Notification :=
  s.notifications.rows.filter fun r => r.userId = userId

/-! ## What a call does to a row -/

/-- Every call acts on each row by itself. -/
def effect : NotificationCall → Notification → Notification
  | .markNotificationRead userId notificationId now, r =>
    if r.id = notificationId ∧ unreadOf userId r = true then r.read now else r
  | .markAllRead userId now, r => NotificationStore.readAll userId now r
  | _, r => r

theorem effect_eq (call : NotificationCall) (r : Notification) :
    effect call r = r ∨ unreadOf call.userId r = true ∧ ∃ now, effect call r = r.read now := by
  cases call with
  | listNotifications => exact .inl rfl
  | getUnreadCount => exact .inl rfl
  | markNotificationRead userId notificationId now =>
    by_cases h : r.id = notificationId ∧ unreadOf userId r = true
    · exact .inr ⟨h.2, now, by rw [effect, if_pos h]⟩
    · exact .inl (by rw [effect, if_neg h])
  | markAllRead userId now =>
    by_cases h : unreadOf userId r = true
    · exact .inr ⟨h, now, by rw [effect, NotificationStore.readAll, if_pos h]⟩
    · exact .inl (by rw [effect, NotificationStore.readAll, if_neg h])

@[simp] theorem effect_userId (call : NotificationCall) (r : Notification) :
    (effect call r).userId = r.userId := by
  rcases effect_eq call r with h | ⟨-, now, h⟩ <;> rw [h]
  rfl

/-- A row of another user is left alone. -/
theorem effect_of_ne {call : NotificationCall} {r : Notification} (h : r.userId ≠ call.userId) :
    effect call r = r := by
  rcases effect_eq call r with hsame | ⟨hunread, -⟩
  · exact hsame
  · have howner : r.userId = call.userId := by
      simp only [unreadOf, Bool.and_eq_true, decide_eq_true_eq] at hunread
      exact hunread.1
    exact absurd howner h

/-! ## What a call answers -/

def answered (s : NotificationStore) : NotificationCall → Except ServiceError NotificationResponse
  | .listNotifications userId unreadOnly category limit before =>
    if sendable category = true ∧ isRowCount limit = true then
      .ok (.listed (((fromLargest Notification.createdAt ((s.notifications.filter
        (listed userId unreadOnly category)).scan before)).take limit.toNat).map
          notificationToRead))
    else .error .rejected
  | .getUnreadCount userId =>
    .ok (.counted ⟨s.notifications.rows.countP (unreadOf userId),
      s.notifications.rows.countP fun r => r.userId = userId⟩)
  | .markNotificationRead userId notificationId now =>
    match (rowsOf userId s).find? fun r => r.id = notificationId with
    | none => .error (.http 404 "Notification not found")
    | some r =>
      .ok (.marked (notificationToRead (effect (.markNotificationRead userId notificationId now) r)))
  | .markAllRead userId _ =>
    .ok (.markedAll ⟨"All notifications marked read",
      s.notifications.rows.countP (unreadOf userId)⟩)

/-- How a call ends. -/
structure Ends (call : NotificationCall) (s : NotificationStore)
    (answer : Except ServiceError NotificationResponse) (s' : NotificationStore) : Prop where
  rows : s'.notifications.rows = s.notifications.rows.map (effect call)
  answer : answer = answered s call

theorem map_effect_id {call : NotificationCall} {rows : List Notification}
    (h : ∀ r ∈ rows, effect call r = r) : rows.map (effect call) = rows :=
  (List.map_congr_left h).trans rows.map_id'

/-- A notification of the user is found by its id among all rows. -/
theorem find?_rowsOf (notificationId : Uuid) :
    ((rowsOf userId s).find? fun r => r.id = notificationId) =
      (s.notifications.find? notificationId).filter fun r => r.userId = userId := by
  have hnodup : ((s.notifications.filter fun r => r.userId = userId).rows.map
      Notification.id).Nodup := (s.notifications.filter _).nodup
  cases hfind : s.notifications.find? notificationId with
  | none =>
    apply List.find?_eq_none.mpr
    intro r hr
    simpa using Table.find?_eq_none.mp hfind r (List.mem_of_mem_filter hr)
  | some r =>
    obtain ⟨hr, rfl⟩ := Table.find?_eq_some.mp hfind
    by_cases huser : r.userId = userId
    · rw [Option.filter_some_pos (by simpa using huser)]
      exact Table.find?_of_mem (t := s.notifications.filter fun r => r.userId = userId)
        (List.mem_filter.mpr ⟨hr, by simpa using huser⟩)
    · rw [Option.filter_some_neg (by simpa using huser)]
      apply List.find?_eq_none.mpr
      intro r' hr' hid
      obtain ⟨hr', huser'⟩ := List.mem_filter.mp hr'
      have hsame : r' = r := s.notifications.eq_of_key_eq hr' hr (by simpa using hid)
      rw [hsame] at huser'
      exact huser (by simpa using huser')

theorem answered_marked {notificationId : Uuid} {now : Instant} {r : Notification}
    (h : ((rowsOf userId s).find? fun r => r.id = notificationId) = some r) :
    answered s (.markNotificationRead userId notificationId now) =
      .ok (.marked (notificationToRead
        (effect (.markNotificationRead userId notificationId now) r))) := by
  simp only [answered, h]

theorem markRead_isSome {r : Notification} {notificationId : Uuid}
    (hfind : s.notifications.find? notificationId = some r) (now : Instant) :
    ∃ s', s.markRead notificationId now = some s' := by
  have haccepts : ∃ notifications, s.notifications.update notificationId (Notification.read now)
      (fun _ => rfl) = some notifications := Table.update_isSome hfind
  obtain ⟨notifications, hupdate⟩ := haccepts
  exact ⟨{ s with notifications := notifications }, by
    rw [NotificationStore.markRead, hupdate]
    rfl⟩

theorem markNotificationRead_wp (notificationId : Uuid) (now : Instant) :
    (NotificationService.markNotificationRead userId notificationId now).wp notificationTables
      (fun result durable _ _ => Ends (.markNotificationRead userId notificationId now) s
        (result.map .marked) durable) s s n := by
  have hfound : ((rowsOf userId s).find? fun r => r.id = notificationId) =
      (s.notifications.find? notificationId).filter fun r => r.userId = userId :=
    find?_rowsOf notificationId
  simp only [NotificationService.markNotificationRead, Request.wp_bind, Request.wp_select,
    Request.wp_found]
  constructor
  · intro hnone
    rw [hnone] at hfound
    have hkept : ∀ r ∈ s.notifications.rows,
        effect (.markNotificationRead userId notificationId now) r = r := by
      intro r hr
      rw [effect, if_neg]
      rintro ⟨hid, hunread⟩
      simp only [unreadOf, Bool.and_eq_true, decide_eq_true_eq] at hunread
      have hmem : r ∈ rowsOf userId s := List.mem_filter.mpr ⟨hr, by simpa using hunread.1⟩
      simpa [hid] using List.find?_eq_none.mp hfound r hmem
    exact ⟨(map_effect_id hkept).symm, by rw [answered, hfound]; rfl⟩
  · intro r hr
    rw [hr] at hfound
    obtain ⟨hfind, huser⟩ := Option.filter_eq_some_iff.mp hr
    rw [decide_eq_true_eq] at huser
    obtain ⟨hmem, rfl⟩ := Table.find?_eq_some.mp hfind
    rw [Request.wp_ite]
    constructor
    · intro hread
      have hkept : ∀ r' ∈ s.notifications.rows,
          effect (.markNotificationRead userId r.id now) r' = r' := by
        intro r' hr'
        rw [effect, if_neg]
        rintro ⟨hid, hunread⟩
        rw [s.notifications.eq_of_key_eq hr' hmem hid] at hunread
        simp [unreadOf, hread] at hunread
      apply Request.wp_return
      exact ⟨(map_effect_id hkept).symm, by rw [answered_marked hfound, hkept r hmem]; rfl⟩
    · intro hunread
      have hmarked : effect (.markNotificationRead userId r.id now) r = r.read now := by
        simp [effect, unreadOf, huser, hunread]
      rw [Request.wp_bind, Request.wp_send, StatementSemantics.applyAll_singleton]
      constructor
      · intro hrejected
        obtain ⟨notifications, hupdate⟩ := markRead_isSome hfind now
        cases hupdate.symm.trans hrejected
      · intro s' hs'
        obtain ⟨notifications, hupdate, hs''⟩ := Option.bind_eq_some_iff.mp hs'
        cases hs''
        have hrefreshed := Table.find?_update hupdate r.id
        rw [hfind, Option.map_some, if_pos rfl] at hrefreshed
        have hrows : notifications.rows =
            s.notifications.rows.map (effect (.markNotificationRead userId r.id now)) := by
          rw [(Table.update_eq_some.mp hupdate).2]
          apply List.map_congr_left
          intro r' hr'
          by_cases hid : r'.id = r.id
          · rw [if_pos hid, s.notifications.eq_of_key_eq hr' hmem hid, hmarked]
          · simp [effect, hid]
        rw [Request.wp_bind]
        apply Request.wp_commitTransaction
        simp only [Request.wp_bind, Request.wp_select, Request.wp_found, hrefreshed]
        constructor
        · intro hnone
          nomatch hnone
        · intro refreshed heq
          cases heq
          apply Request.wp_return
          exact ⟨hrows, by rw [answered_marked hfound, hmarked]; rfl⟩

theorem request_wp (call : NotificationCall) :
    call.request.wp notificationTables (fun result durable _ _ => Ends call s result durable)
      s s n := by
  cases call with
  | listNotifications userId unreadOnly category limit before =>
    have hsame := (map_effect_id fun (r : Notification) (_ : r ∈ s.notifications.rows) =>
      (rfl : effect (.listNotifications userId unreadOnly category limit before) r = r)).symm
    apply Request.wp_answer
    simp only [listNotifications, Request.wp_bind, Request.wp_ensure, Request.wp_select]
    constructor
    · intro hrefused
      exact ⟨hsame, by rw [answered, if_neg hrefused]; rfl⟩
    · intro haccepted
      apply Request.wp_return
      exact ⟨hsame, by rw [answered, if_pos haccepted]; rfl⟩
  | getUnreadCount userId =>
    have hsame := (map_effect_id fun (r : Notification) (_ : r ∈ s.notifications.rows) =>
      (rfl : effect (.getUnreadCount userId) r = r)).symm
    apply Request.wp_answer
    simp only [getUnreadCount, Request.wp_bind, Request.wp_select]
    exact Request.wp_return ⟨hsame, rfl⟩
  | markNotificationRead userId notificationId now =>
    apply Request.wp_answer
    exact markNotificationRead_wp notificationId now
  | markAllRead userId now =>
    have happly : notificationTables.applyAll [.markAllRead userId now] s =
        some (s.markAllRead userId now) := rfl
    apply Request.wp_answer
    simp only [markAllRead, Request.wp_bind, Request.wp_select]
    apply Request.wp_send_of_some happly
    apply Request.wp_commitTransaction
    exact Request.wp_return ⟨rfl, rfl⟩

theorem service_ends (s : Store NotificationStore) (call : NotificationCall) :
    Ends call s.db (service.answer s call) (service.next s call).db :=
  (Request.serial_sound (request_wp call)).elim fun _ h => h

/-! ## The view of a user -/

/-- The second table holds the rows of the user in the first, and no others. -/
def View (userId : Uuid) (s t : Store NotificationStore) : Prop :=
  rowsOf userId s.db = t.db.notifications.rows

theorem rowsOf_map (userId : Uuid) (call : NotificationCall) (rows : List Notification) :
    ((rows.map (effect call)).filter fun r => r.userId = userId) =
      (rows.filter fun r => r.userId = userId).map (effect call) := by
  simp [List.filter_map, Function.comp_def]

theorem View.rowsOf_eq {s t : Store NotificationStore} (h : View userId s t) :
    rowsOf userId t.db = rowsOf userId s.db := by
  rw [rowsOf, ← h, rowsOf, List.filter_filter]
  simp

/-- The rows that a user asks for are among the rows of the user. -/
theorem filter_rowsOf {p : Notification → Bool} (hp : ∀ r, p r = true → r.userId = userId) :
    (rowsOf userId s).filter p = s.notifications.rows.filter p := by
  rw [rowsOf, List.filter_filter]
  apply List.filter_congr
  intro r hr
  cases hpr : p r with
  | false => rfl
  | true => simp [hp r hpr]

theorem countP_rowsOf {p : Notification → Bool} (hp : ∀ r, p r = true → r.userId = userId) :
    (rowsOf userId s).countP p = s.notifications.rows.countP p := by
  rw [List.countP_eq_length_filter, List.countP_eq_length_filter, filter_rowsOf hp]

theorem listed_userId {unreadOnly : Bool} {category : Option String} {r : Notification}
    (h : listed userId unreadOnly category r = true) : r.userId = userId := by
  simp only [listed, Bool.and_eq_true, decide_eq_true_eq] at h
  exact h.1.1

theorem unreadOf_userId {r : Notification} (h : unreadOf userId r = true) : r.userId = userId := by
  simp only [unreadOf, Bool.and_eq_true, decide_eq_true_eq] at h
  exact h.1

/-- What a call answers depends on the rows of its user. -/
theorem answered_congr {call : NotificationCall}
    (h : rowsOf call.userId s = rowsOf call.userId t) : answered s call = answered t call := by
  have counts : ∀ p : Notification → Bool, (∀ r, p r = true → r.userId = call.userId) →
      s.notifications.rows.countP p = t.notifications.rows.countP p := by
    intro p hp
    rw [← countP_rowsOf hp, ← countP_rowsOf hp, h]
  cases call with
  | listNotifications userId unreadOnly category limit before =>
    have htable : s.notifications.filter (listed userId unreadOnly category) =
        t.notifications.filter (listed userId unreadOnly category) := by
      apply Table.ext
      rw [Table.rows_filter, Table.rows_filter, ← filter_rowsOf fun r => listed_userId,
        ← filter_rowsOf fun r => listed_userId]
      exact congrArg _ h
    simp only [answered, htable]
  | getUnreadCount userId =>
    have hunread := counts (unreadOf userId) fun r => unreadOf_userId
    have htotal := counts (fun r => r.userId = userId) fun r hr => of_decide_eq_true hr
    simp only [answered, hunread, htotal]
  | markNotificationRead userId notificationId now =>
    have hrows : rowsOf userId s = rowsOf userId t := h
    simp only [answered, hrows]
  | markAllRead userId now =>
    have hunread := counts (unreadOf userId) fun r => unreadOf_userId
    simp only [answered, hunread]

theorem unwinds (userId : Uuid) :
    Unwinds service (fun call => call.userId = userId) (View userId) where
  answer s t call hmine hview := by
    have howner : call.userId = userId := of_decide_eq_true hmine
    rw [(service_ends s call).answer, (service_ends t call).answer]
    apply answered_congr
    rw [howner]
    exact hview.rowsOf_eq.symm
  own s t call _ hview := by
    rw [View, rowsOf, (service_ends s call).rows, (service_ends t call).rows, rowsOf_map]
    exact congrArg _ hview
  foreign s t call hmine hview := by
    have howner : call.userId ≠ userId := of_decide_eq_false hmine
    rw [View, rowsOf, (service_ends s call).rows, rowsOf_map, ← hview]
    apply map_effect_id
    intro r hr
    have huser : r.userId = userId := by simpa using (List.mem_filter.mp hr).2
    apply effect_of_ne
    rw [huser]
    exact howner.symm

/-! ## What becomes of a row -/

/-- A row is read where it has a time. -/
def Consistent (r : Notification) : Prop := r.isRead = true ↔ r.readAt.isSome = true

/-- What a row has become: it is still consistent where it was, and then keeps its time. -/
structure Later (r r' : Notification) : Prop where
  same : { r' with isRead := r.isRead, readAt := r.readAt } = r
  consistent : Consistent r → Consistent r' ∧ ∀ time, r.readAt = some time → r'.readAt = some time

theorem Later.refl (r : Notification) : Later r r := ⟨rfl, fun h => ⟨h, fun _ htime => htime⟩⟩

theorem Later.trans {a b c : Notification} (hab : Later a b) (hbc : Later b c) : Later a c where
  same := by
    have hab' := hab.same
    rw [← hbc.same] at hab'
    exact hab'
  consistent h := by
    obtain ⟨hb, htime⟩ := hab.consistent h
    obtain ⟨hc, htime'⟩ := hbc.consistent hb
    exact ⟨hc, fun time ht => htime' time (htime time ht)⟩

theorem later_effect (call : NotificationCall) (r : Notification) : Later r (effect call r) := by
  rcases effect_eq call r with h | ⟨hunread, now, h⟩
  · rw [h]
    exact Later.refl r
  · rw [h]
    have hflag : r.isRead = false := by
      simp only [unreadOf, Bool.and_eq_true, Bool.not_eq_true'] at hunread
      exact hunread.2
    refine ⟨rfl, fun hconsistent => ⟨by simp [Consistent, Notification.read], fun time htime => ?_⟩⟩
    simp [Consistent, hflag, htime] at hconsistent

/-- Rows are neither added nor removed, and each has become a later one. -/
def Aged (s s' : Store NotificationStore) : Prop :=
  List.Forall₂ Later s.db.notifications.rows s'.db.notifications.rows

theorem forall₂_trans {rows rows' rows'' : List Notification} (h : List.Forall₂ Later rows rows')
    (h' : List.Forall₂ Later rows' rows'') : List.Forall₂ Later rows rows'' := by
  induction h generalizing rows'' with
  | nil => exact h'
  | cons hhead _ ih =>
    cases h' with
    | cons hhead' htail' => exact .cons (hhead.trans hhead') (ih htail')

theorem aged_final (s : Store NotificationStore) (calls : List NotificationCall) :
    Aged s (service.final s calls) := by
  apply Machine.final_relates service (R := Aged)
  · intro s
    exact List.forall₂_same.mpr fun r _ => Later.refl r
  · exact forall₂_trans
  · intro s call
    rw [Aged, (service_ends s call).rows]
    exact List.forall₂_map_right_iff.mpr (List.forall₂_same.mpr fun r _ => later_effect call r)

theorem consistent_forall₂ {rows rows' : List Notification} (h : List.Forall₂ Later rows rows')
    (hrows : ∀ r ∈ rows, Consistent r) : ∀ r ∈ rows', Consistent r := by
  induction h with
  | nil => exact hrows
  | cons hhead _ ih =>
    intro r hr
    rcases List.mem_cons.mp hr with rfl | hr
    · exact (hhead.consistent (hrows _ List.mem_cons_self)).1
    · exact ih (fun r hr => hrows r (List.mem_cons_of_mem _ hr)) r hr

/-! ## The counts -/

theorem unread_add_read (userId : Uuid) (s : NotificationStore) :
    s.notifications.rows.countP (unreadOf userId) +
        (rowsOf userId s).countP (fun r => r.isRead) =
      s.notifications.rows.countP fun r => r.userId = userId := by
  rw [rowsOf]
  induction s.notifications.rows with
  | nil => rfl
  | cons r rows ih =>
    by_cases huser : r.userId = userId
    · cases hread : r.isRead <;> simp [unreadOf, huser, hread] at ih ⊢ <;> omega
    · simpa [unreadOf, huser] using ih

/-- A row that was unread is marked, so that none is left. -/
theorem unread_after_markAll (userId : Uuid) (now : Instant) (rows : List Notification) :
    (rows.map (effect (.markAllRead userId now))).countP (unreadOf userId) = 0 := by
  apply List.countP_eq_zero.mpr
  intro r hr
  obtain ⟨r', -, rfl⟩ := List.mem_map.mp hr
  rcases effect_eq (.markAllRead userId now) r' with hsame | ⟨-, now', hmarked⟩
  · intro hunread
    rw [hsame] at hunread
    have hmarked : effect (.markAllRead userId now) r' = r'.read now := by
      rw [effect, NotificationStore.readAll, if_pos hunread]
    rw [hmarked] at hsame
    rw [← hsame] at hunread
    simp [unreadOf, Notification.read] at hunread
  · rw [hmarked]
    simp [unreadOf, Notification.read]

/-- The counts of a user, before and after all are marked. -/
structure Counts (userId : Uuid) (s : Store NotificationStore) (unread total : ℕ) : Prop where
  counted : service.answer s (.getUnreadCount userId) = .ok (.counted ⟨unread, total⟩)
  sum : unread + (rowsOf userId s.db).countP (fun r => r.isRead) = total
  length : total = (rowsOf userId s.db).length
  marked : ∀ now, service.answer s (.markAllRead userId now) =
    .ok (.markedAll ⟨"All notifications marked read", unread⟩)
  left : ∀ now, service.answer (service.next s (.markAllRead userId now)) (.getUnreadCount userId) =
    .ok (.counted ⟨0, total⟩)

theorem counts_of (userId : Uuid) (s : Store NotificationStore) :
    ∃ unread total, Counts userId s unread total := by
  refine ⟨s.db.notifications.rows.countP (unreadOf userId),
    s.db.notifications.rows.countP fun r => r.userId = userId, ?_⟩
  have htotal : ∀ now, (s.db.notifications.rows.map (effect (.markAllRead userId now))).countP
      (fun r => decide (r.userId = userId)) =
        s.db.notifications.rows.countP fun r => decide (r.userId = userId) := by
    intro now
    rw [List.countP_map]
    simp [Function.comp_def]
  constructor
  · exact (service_ends s _).answer
  · exact unread_add_read userId s.db
  · rw [rowsOf, List.countP_eq_length_filter]
  · intro now
    exact (service_ends s _).answer
  · intro now
    rw [(service_ends _ _).answer, answered, (service_ends s _).rows, unread_after_markAll, htotal]

/-- The store with the rows of one user only. -/
def alone (userId : Uuid) (s : Store NotificationStore) : Store NotificationStore :=
  { s with db := { s.db with
      notifications := s.db.notifications.filter fun r => r.userId = userId } }

/-- What a user is answered, and the rows of the user at the end, are as if nobody else had
called and nobody else had rows. Along the run no consistent row becomes inconsistent or changes
its time, and the counts add up. -/
theorem notifications_isolated (userId : Uuid) (s : Store NotificationStore)
    (calls : List NotificationCall) :
    (((service.trace s calls).filter fun e => e.1.userId = userId) =
        service.trace (alone userId s) (calls.filter fun call => call.userId = userId) ∧
      rowsOf userId (service.final s calls).db =
        (service.final (alone userId s)
          (calls.filter fun call => call.userId = userId)).db.notifications.rows) ∧
    Aged s (service.final s calls) ∧
    ((∀ r ∈ s.db.notifications.rows, Consistent r) →
      ∀ r ∈ (service.final s calls).db.notifications.rows, Consistent r) ∧
    ∀ user, ∃ unread total, Counts user (service.final s calls) unread total := by
  have hview : View userId s (alone userId s) := rfl
  exact ⟨(unwinds userId).noninterference calls hview, aged_final s calls,
    consistent_forall₂ (aged_final s calls), fun user => counts_of user _⟩

def sampleNotification (id userId : Uuid) (createdAt : Instant) : Notification :=
  ⟨id, userId, .info, "keys", "", "", "hsm", none, false, none, createdAt⟩

/-- Two notifications of user 1 and one of user 2. -/
def sampleNotifications : Store NotificationStore where
  db :=
    { notifications := ⟨[sampleNotification 10 1 5, sampleNotification 20 2 6,
        sampleNotification 11 1 7], by decide⟩
      alertRules := .empty }
  sequence := 1

/-- The second user tries to mark a notification of the first one, and then marks all. -/
def sampleCalls : List NotificationCall :=
  [.markNotificationRead 2 10 100, .markNotificationRead 1 11 200, .markAllRead 2 300,
    .getUnreadCount 1]

theorem notifications_isolated_sample :
    ((service.trace sampleNotifications sampleCalls).filter fun e => e.1.userId = 1) =
        service.trace (alone 1 sampleNotifications) [.markNotificationRead 1 11 200,
          .getUnreadCount 1] ∧
      (∀ r ∈ (service.final sampleNotifications sampleCalls).db.notifications.rows,
        Consistent r) ∧
      ∃ unread total, Counts 1 (service.final sampleNotifications sampleCalls) unread total := by
  obtain ⟨⟨htrace, -⟩, -, hconsistent, hcounts⟩ :=
    notifications_isolated 1 sampleNotifications sampleCalls
  refine ⟨htrace, hconsistent ?_, hcounts 1⟩
  intro r hr
  have hunread : r.isRead = false ∧ r.readAt = none := by
    simp only [sampleNotifications, List.mem_cons, List.not_mem_nil, or_false] at hr
    rcases hr with rfl | rfl | rfl <;> exact ⟨rfl, rfl⟩
  simp [Consistent, hunread]

end NexusEngine.NotificationIsolation
