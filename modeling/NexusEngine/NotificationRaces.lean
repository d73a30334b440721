import NexusEngine.SessionAnswers
import NexusEngine.NotificationIsolation
import NexusEngine.RelatedLists

/-!
# Notifications under interference

The sessions of a user and of others mark notifications at once. A notification that was marked
stays read whatever they do, all that were there are read once all have been marked, and nobody
marks a notification of somebody else.
-/

namespace NexusEngine.NotificationRaces

open TransactionalRequests ReadCommittedSessions KeyedTables StoredColumns CalendarTime Database
  RankedRows NotificationTables NotificationService
open NotificationStore (unreadOf readAll)
open NotificationIsolation (rowsOf)
open RelatedLists (forall₂_mem_right)
open AuditLogReads (nonempty)
open ListingPages (sendable)

/-! ## Rows -/

/-- The same notification, which may have been marked since. -/
structure Later (r r' : Notification) : Prop where
  same : r' = { r with isRead := r'.isRead, readAt := r'.readAt }
  read : r.isRead = true → r'.isRead = true

/-- No notification is added or removed, and each has become a later one. -/
def Ages (s s' : NotificationStore) : Prop :=
  List.Forall₂ Later s.notifications.rows s'.notifications.rows

/-- What a statement does to a notification. -/
def change : NotificationStatement → Notification → Notification
  | .markRead id readAt, r => if r.id = id then r.read readAt else r
  | .markAllRead userId readAt, r => readAll userId readAt r
  | _, r => r

section

variable {r r' r'' : Notification} {s s' : NotificationStore} {w : NotificationStatement}

theorem Later.refl (r : Notification) : Later r r := ⟨rfl, fun h => h⟩

theorem Later.trans (h : Later r r') (h' : Later r' r'') : Later r r'' where
  same := by
    rw [h'.same, h.same]
  read hread := h'.read (h.read hread)

theorem Later.id (h : Later r r') : r'.id = r.id := by rw [h.same]

theorem Later.userId (h : Later r r') : r'.userId = r.userId := by rw [h.same]

theorem Later.category (h : Later r r') : r'.category = r.category := by rw [h.same]

theorem later_read (r : Notification) (readAt : Instant) : Later r (r.read readAt) :=
  ⟨rfl, fun _ => rfl⟩

theorem later_change (w : NotificationStatement) (r : Notification) : Later r (change w r) := by
  cases w with
  | markRead id readAt =>
    rw [change]
    split
    · exact later_read r readAt
    · exact Later.refl r
  | markAllRead userId readAt =>
    rw [change, readAll]
    split
    · exact later_read r readAt
    · exact Later.refl r
  | insertAlertRule rule => exact Later.refl r
  | updateAlertRule id patch => exact Later.refl r
  | deleteAlertRule id => exact Later.refl r

/-- A statement keeps the order of two rows of one notification. -/
theorem Later.change (w : NotificationStatement) (h : Later r r') :
    Later (change w r) (NotificationRaces.change w r') := by
  cases w with
  | markRead id readAt =>
    simp only [NotificationRaces.change, h.id]
    split
    · rw [h.same]
      exact ⟨rfl, fun _ => rfl⟩
    · exact h
  | markAllRead userId readAt =>
    simp only [NotificationRaces.change, readAll]
    split
    · next hunread =>
      split
      · rw [h.same]
        exact ⟨rfl, fun _ => rfl⟩
      · next hmarked =>
        -- the row was marked in between
        have hread : r'.isRead = true := by
          simp only [unreadOf, Bool.and_eq_true, decide_eq_true_eq] at hunread hmarked
          simpa [h.userId, hunread.1] using hmarked
        exact ⟨h.same, fun _ => hread⟩
    · split
      · exact h.trans (later_read r' readAt)
      · exact h
  | insertAlertRule rule => exact h
  | updateAlertRule id patch => exact h
  | deleteAlertRule id => exact h

/-- A statement acts on each notification by itself. -/
theorem apply_rows (h : notificationTables.apply w s = some s') :
    s'.notifications.rows = s.notifications.rows.map (change w) := by
  have hkept : ∀ {w : NotificationStatement}, (∀ r, change w r = r) →
      s.notifications.rows.map (change w) = s.notifications.rows := by
    intro w hw
    rw [funext hw]
    exact List.map_id' _
  cases w with
  | markRead id readAt =>
    obtain ⟨notifications, hupdate, h⟩ := Option.bind_eq_some_iff.mp h
    cases h
    exact (Table.update_eq_some.mp hupdate).2
  | markAllRead userId readAt =>
    cases h
    rfl
  | insertAlertRule rule =>
    obtain ⟨name, -, h⟩ := Option.bind_eq_some_iff.mp h
    obtain ⟨description, -, h⟩ := Option.bind_eq_some_iff.mp h
    obtain ⟨source, -, h⟩ := Option.bind_eq_some_iff.mp h
    obtain ⟨condition, -, h⟩ := Option.bind_eq_some_iff.mp h
    obtain ⟨target, -, h⟩ := Option.bind_eq_some_iff.mp h
    obtain ⟨createdBy, -, h⟩ := Option.bind_eq_some_iff.mp h
    split at h
    · cases h
    · split at h
      · cases h
      · obtain ⟨alertRules, -, h⟩ := Option.bind_eq_some_iff.mp h
        cases h
        exact (hkept fun _ => rfl).symm
  | updateAlertRule id patch =>
    obtain ⟨bound, -, h⟩ := Option.bind_eq_some_iff.mp h
    split at h
    · cases h
    · obtain ⟨alertRules, -, h⟩ := Option.bind_eq_some_iff.mp h
      cases h
      exact (hkept fun _ => rfl).symm
  | deleteAlertRule id =>
    cases h
    exact (hkept fun _ => rfl).symm

theorem forall₂_trans {rows rows' rows'' : List Notification} (h : List.Forall₂ Later rows rows')
    (h' : List.Forall₂ Later rows' rows'') : List.Forall₂ Later rows rows'' := by
  induction h generalizing rows'' with
  | nil => exact h'
  | cons hhead _ ih =>
    cases h' with
    | cons hhead' htail' => exact .cons (hhead.trans hhead') (ih htail')

theorem growth : Growth notificationTables Ages where
  refl s := List.forall₂_same.mpr fun r _ => Later.refl r
  trans _ _ _ h h' := forall₂_trans h h'
  grows w s s' h := by
    rw [Ages, apply_rows h]
    exact List.forall₂_map_right_iff.mpr (List.forall₂_same.mpr fun r _ => later_change w r)
  mono w a b a' b' hab ha hb := by
    rw [Ages, apply_rows ha, apply_rows hb, List.forall₂_map_left_iff, List.forall₂_map_right_iff]
    exact hab.imp fun _ _ h => h.change w

end

/-! ## What a session knows -/

/-- The notification is one of the user. -/
def Owned (userId id : Uuid) (s : NotificationStore) : Prop :=
  ∃ r ∈ s.notifications.rows, r.id = id ∧ r.userId = userId

/-- The notification of the user is read. -/
def Marked (userId id : Uuid) (s : NotificationStore) : Prop :=
  ∃ r ∈ s.notifications.rows, r.id = id ∧ r.userId = userId ∧ r.isRead = true

/-- All notifications of the user are read. -/
def AllMarked (userId : Uuid) (s : NotificationStore) : Prop :=
  ∀ r ∈ s.notifications.rows, r.userId = userId → r.isRead = true

section

variable {s s' : NotificationStore} {userId id : Uuid} {P : NotificationStore → Prop}

theorem Ages.left (h : Ages s s') {r : Notification} (hr : r ∈ s.notifications.rows) :
    ∃ r' ∈ s'.notifications.rows, Later r r' := by
  obtain ⟨r', hr', hlater⟩ := forall₂_mem_right h.flip hr
  exact ⟨r', hr', hlater⟩

theorem Ages.right (h : Ages s s') {r' : Notification} (hr' : r' ∈ s'.notifications.rows) :
    ∃ r ∈ s.notifications.rows, Later r r' := forall₂_mem_right h hr'

theorem stable_owned : Stable Ages (Owned userId id) := by
  intro a b hab howned
  obtain ⟨r, hr, hid, huser⟩ := howned
  obtain ⟨r', hr', hlater⟩ := hab.left hr
  exact ⟨r', hr', hlater.id.trans hid, hlater.userId.trans huser⟩

theorem stable_marked : Stable Ages (Marked userId id) := by
  intro a b hab hmarked
  obtain ⟨r, hr, hid, huser, hread⟩ := hmarked
  obtain ⟨r', hr', hlater⟩ := hab.left hr
  exact ⟨r', hr', hlater.id.trans hid, hlater.userId.trans huser, hlater.read hread⟩

theorem stable_allMarked : Stable Ages (AllMarked userId) := by
  intro a b hab hmarked r' hr' huser
  obtain ⟨r, hr, hlater⟩ := hab.right hr'
  exact hlater.read (hmarked r hr (hlater.userId.symm.trans huser))

theorem Owned.marked {w : NotificationStatement} {now : Instant} (hw : w = .markRead id now)
    (h : Owned userId id s) (happly : notificationTables.apply w s = some s') :
    Marked userId id s' := by
  subst hw
  obtain ⟨r, hr, hid, huser⟩ := h
  have hmem : change (.markRead id now) r ∈ s'.notifications.rows := by
    rw [apply_rows happly]
    exact List.mem_map_of_mem hr
  rw [change, if_pos hid] at hmem
  exact ⟨_, hmem, hid, huser, rfl⟩

theorem allMarked_of_apply {now : Instant}
    (happly : notificationTables.apply (.markAllRead userId now) s = some s') :
    AllMarked userId s' := by
  intro r' hr' huser
  rw [apply_rows happly] at hr'
  obtain ⟨r, -, rfl⟩ := List.mem_map.mp hr'
  rw [change, readAll] at huser ⊢
  split at huser
  · next hunread =>
    rw [if_pos hunread]
    rfl
  · next hunread =>
    rw [if_neg hunread]
    simpa [unreadOf, huser] using hunread

/-! ## Requests -/

/-- A notification that is marked is read from then on. -/
theorem markNotificationRead_safe (now : Instant)
    (hkeeps : ∀ s s', Owned userId id s → P s →
      notificationTables.apply (.markRead id now) s = some s' → P s') :
    Safe notificationTables Ages P (fun _ => True) (markNotificationRead userId id now)
      fun answer s => (answer.id = id ∧ answer.isRead = true) ∧ Marked userId id s := by
  apply (Safe.select growth _).bind growth
  intro row
  apply (Safe.found growth).bind growth
  intro notification
  apply Safe.mono (K := fun s => (Owned userId id s ∧
    (notification.isRead = true → Marked userId id s)) ∧ notification.id = id) _ _ fun _ _ h => h
  · apply Safe.fact growth
    intro hid
    subst hid
    split
    · next hread => exact Safe.done growth fun _ hk => ⟨⟨rfl, hread⟩, hk.2 hread⟩
    · apply (Safe.send_knows growth (Marked userId notification.id) _ _).bind growth
      · intro _
        apply (Safe.commit growth stable_marked).bind growth
        intro _
        apply (Safe.select growth _).bind growth
        intro row
        apply (Safe.found growth).bind growth
        intro refreshed
        apply Safe.done growth
        intro mid hk
        obtain ⟨⟨view, -, hmarked, hlater, rfl⟩, hfind⟩ := hk
        have hstill := stable_marked view mid hlater hmarked
        obtain ⟨r, hr, hid, -, hread⟩ := hmarked
        rw [← hid, Table.find?_of_mem hr] at hfind
        cases hfind
        exact ⟨⟨hid, hread⟩, hstill⟩
      · intro mid after n hk hp happly
        rw [StatementSemantics.applyAll_singleton] at happly
        exact hkeeps mid after hk.1 hp happly
      · intro mid after n hk happly
        rw [StatementSemantics.applyAll_singleton] at happly
        exact hk.1.marked rfl happly
  · intro mid hk
    obtain ⟨⟨view, -, -, hlater, rfl⟩, hfind⟩ := hk
    obtain ⟨hfind, huser⟩ := Option.filter_eq_some_iff.mp hfind
    obtain ⟨hmem, hid⟩ := Table.find?_eq_some.mp hfind
    rw [decide_eq_true_eq] at huser
    have howned : Owned userId id view := ⟨notification, hmem, hid, huser⟩
    have hmarked : notification.isRead = true → Marked userId id view := fun hread =>
      ⟨notification, hmem, hid, huser, hread⟩
    exact ⟨⟨stable_owned view mid hlater howned, fun hread =>
      stable_marked view mid hlater (hmarked hread)⟩, hid⟩

end

/-! ### Counts -/

def unread (userId : Uuid) (s : NotificationStore) : ℕ :=
  s.notifications.rows.countP (unreadOf userId)

def total (userId : Uuid) (s : NotificationStore) : ℕ :=
  s.notifications.rows.countP fun r => r.userId = userId

section

variable {s s' : NotificationStore} {userId : Uuid}

theorem countP_le_of_forall₂ {p : Notification → Bool}
    (hp : ∀ r r', Later r r' → p r' = true → p r = true) {rows rows' : List Notification}
    (h : List.Forall₂ Later rows rows') : rows'.countP p ≤ rows.countP p := by
  induction h with
  | nil => exact le_rfl
  | @cons r r' rows rows' hlater _ ih =>
    have hrow := hp r r' hlater
    cases hr' : p r' with
    | true => simpa [hr', hrow hr'] using ih
    | false =>
      simp only [List.countP_cons, hr', Bool.false_eq_true, if_false]
      omega

theorem unread_anti (h : Ages s s') : unread userId s' ≤ unread userId s := by
  apply countP_le_of_forall₂ _ h
  intro r r' hlater hunread
  simp only [unreadOf, Bool.and_eq_true, decide_eq_true_eq, Bool.not_eq_true'] at hunread ⊢
  refine ⟨hlater.userId ▸ hunread.1, ?_⟩
  cases hread : r.isRead with
  | false => rfl
  | true => simp [hlater.read hread] at hunread

theorem total_eq (h : Ages s s') : total userId s' = total userId s := by
  have howners := RelatedLists.map_eq_of_forall₂ (fun _ _ hlater => Later.userId hlater) h
  have hcount : ∀ rows : List Notification,
      (rows.countP fun r => r.userId = userId) = (rows.map Notification.userId).count userId := by
    intro rows
    rw [List.count, List.countP_map]
    apply List.countP_congr
    intro r _
    simp
  rw [total, total, hcount, hcount, howners]

theorem unread_le_total (userId : Uuid) (s : NotificationStore) :
    unread userId s ≤ total userId s := by
  apply List.countP_mono_left
  intro r _ hunread
  simp only [unreadOf, Bool.and_eq_true] at hunread
  exact hunread.1

theorem markAllRead_safe (now : Instant) :
    Safe notificationTables Ages (fun _ => True) (Ages s) (markAllRead userId now)
      fun answer s' => AllMarked userId s' ∧ answer.markedRead ≤ unread userId s := by
  apply (Safe.select growth _).bind growth
  intro rowcount
  apply Safe.mono (K := fun _ => True ∧ rowcount ≤ unread userId s) _ _ fun _ _ h => h
  · apply Safe.fact growth
    intro hcount
    apply (Safe.send_knows growth (AllMarked userId) _ _).bind growth
    · intro _
      apply (Safe.commit growth stable_allMarked).bind growth
      intro _
      exact Safe.done growth fun _ hk => ⟨hk, hcount⟩
    · exact fun _ _ _ _ _ _ => trivial
    · intro mid after n _ happly
      rw [StatementSemantics.applyAll_singleton] at happly
      exact allMarked_of_apply happly
  · intro mid hk
    obtain ⟨view, -, hview, -, rfl⟩ := hk
    exact ⟨trivial, unread_anti hview⟩

/-! ### Listings -/

/-- A listing shows notifications of the user as they were on the way, the latest ones first, and
where it is not full it shows all that pass its conditions in the end. -/
structure ListedFrom (s s' : NotificationStore) (userId : Uuid) (unreadOnly : Bool)
    (category : Option String) (limit : ℤ) (ns : List NotificationRead) : Prop where
  shown : ∀ n ∈ ns, ∃ r ∈ s.notifications.rows, ∃ r', Later r r' ∧
    listed userId unreadOnly category r' = true ∧ notificationToRead r' = n
  complete : ns.length < limit.toNat → ∀ r ∈ s'.notifications.rows,
    listed userId unreadOnly category r = true → ∃ n ∈ ns, n.id = r.id
  sorted : ns.Pairwise fun a b => b.createdAt ≤ a.createdAt

/-- What passes the conditions in the end has passed them before. -/
theorem listed_before {unreadOnly : Bool} {category : Option String} {r r' : Notification}
    (h : Later r r') (hlisted : listed userId unreadOnly category r' = true) :
    listed userId unreadOnly category r = true := by
  have hread := h.read
  simp only [listed, h.userId, h.category, Bool.and_eq_true] at hlisted ⊢
  refine ⟨⟨hlisted.1.1, ?_⟩, hlisted.2⟩
  cases hr : r.isRead with
  | false => simp
  | true => simpa [hread hr, hr] using hlisted.1.2

theorem listedFrom {view : NotificationStore} (h : Ages s view) (h' : Ages view s')
    (unreadOnly : Bool) (category : Option String) (limit : ℤ) (before : Uuid → Uuid → Bool) :
    ListedFrom s s' userId unreadOnly category limit (((fromLargest Notification.createdAt
      ((view.notifications.filter (listed userId unreadOnly category)).scan before)).take
        limit.toNat).map notificationToRead) where
  shown := by
    intro n hn
    obtain ⟨r', hr', rfl⟩ := List.mem_map.mp hn
    have hmem := Table.mem_scan.mp (mem_fromLargest.mp (List.mem_of_mem_take hr'))
    rw [Table.rows_filter, List.mem_filter] at hmem
    obtain ⟨r, hr, hlater⟩ := h.right hmem.1
    exact ⟨r, hr, r', hlater, hmem.2, rfl⟩
  complete := by
    intro hshort r' hr' hlisted
    obtain ⟨r, hr, hlater⟩ := h'.right hr'
    have hmem : r ∈ fromLargest Notification.createdAt
        ((view.notifications.filter (listed userId unreadOnly category)).scan before) := by
      rw [mem_fromLargest, Table.mem_scan, Table.rows_filter, List.mem_filter]
      exact ⟨hr, listed_before hlater hlisted⟩
    rw [List.length_map, List.length_take] at hshort
    rw [List.take_of_length_le (by omega)]
    exact ⟨_, List.mem_map_of_mem hmem, hlater.id.symm⟩
  sorted := by
    rw [List.pairwise_map]
    exact fromLargest_sorted.sublist (List.take_sublist _ _)

end

/-! ## Calls -/

/-- What an answer says about the notifications of before and of now. -/
def Acknowledged (s s' : NotificationStore) : NotificationCall → NotificationResponse → Prop
  | .listNotifications userId unreadOnly category limit _, .listed ns =>
    ListedFrom s s' userId unreadOnly category limit ns
  | .getUnreadCount userId, .counted c => c.total = total userId s ∧ c.unread ≤ c.total ∧
    unread userId s' ≤ c.unread ∧ c.unread ≤ unread userId s
  | .markNotificationRead userId notificationId _, .marked n =>
    (n.id = notificationId ∧ n.isRead = true) ∧ Marked userId notificationId s'
  | .markAllRead userId _, .markedAll response =>
    AllMarked userId s' ∧ response.markedRead ≤ unread userId s
  | _, _ => False

section

variable {s : NotificationStore}

theorem listNotifications_safe (userId : Uuid) (unreadOnly : Bool) (category : Option String)
    (limit : ℤ) (before : Uuid → Uuid → Bool) :
    Safe notificationTables Ages (fun _ => True) (Ages s)
      (listNotifications userId unreadOnly category limit before)
      fun ns s' => ListedFrom s s' userId unreadOnly category limit ns := by
  apply (Safe.ensure growth).bind growth
  intro _
  apply (Safe.select growth _).bind growth
  intro rows
  apply Safe.done growth
  intro mid hk
  obtain ⟨view, -, ⟨hview, -⟩, hlater, rfl⟩ := hk
  exact listedFrom hview hlater unreadOnly category limit before

theorem getUnreadCount_safe (userId : Uuid) :
    Safe notificationTables Ages (fun _ => True) (Ages s) (getUnreadCount userId)
      fun c s' => c.total = total userId s ∧ c.unread ≤ c.total ∧ unread userId s' ≤ c.unread ∧
        c.unread ≤ unread userId s := by
  apply (Safe.select growth _).bind growth
  intro count
  apply (Safe.select growth _).bind growth
  intro unreadCount
  apply Safe.done growth
  intro mid hk
  obtain ⟨view', -, ⟨view, -, hview, hviews, rfl⟩, hlater, rfl⟩ := hk
  have htotal : total userId view = total userId s := total_eq hview
  have htotal' : total userId view' = total userId view := total_eq hviews
  refine ⟨htotal, ?_, unread_anti hlater, unread_anti (growth.trans _ _ _ hview hviews)⟩
  exact (unread_le_total userId view').trans_eq htotal'

theorem request_acknowledged (call : NotificationCall) :
    Safe notificationTables Ages (fun _ => True) (Ages s) call.request
      fun response s' => Acknowledged s s' call response := by
  cases call with
  | listNotifications userId unreadOnly category limit before =>
    exact (listNotifications_safe userId unreadOnly category limit before).answer growth
  | getUnreadCount userId => exact (getUnreadCount_safe userId).answer growth
  | markNotificationRead userId notificationId now =>
    have hsafe : Safe notificationTables Ages (fun _ => True) (fun _ => True)
        (markNotificationRead userId notificationId now) fun answer s =>
          (answer.id = notificationId ∧ answer.isRead = true) ∧ Marked userId notificationId s :=
      markNotificationRead_safe now fun _ _ _ _ _ => trivial
    exact (hsafe.mono (fun _ _ => trivial) fun _ _ h => h).answer growth
  | markAllRead userId now => exact (markAllRead_safe now).answer growth

theorem listNotifications_readsOnly (userId : Uuid) (unreadOnly : Bool) (category : Option String)
    (limit : ℤ) (before : Uuid → Uuid → Bool) :
    (listNotifications userId unreadOnly category limit before).ReadsOnly := by
  apply readsOnly_ensure.bind
  intro _
  exact readsOnly_answer (Request.readsOnly_select _)

theorem getUnreadCount_readsOnly (userId : Uuid) : (getUnreadCount userId).ReadsOnly := by
  apply (Request.readsOnly_select _).bind
  intro _
  exact readsOnly_answer (Request.readsOnly_select _)

theorem request_settles (call : NotificationCall) : Settles true call.request := by
  cases call with
  | listNotifications userId unreadOnly category limit before =>
    exact (settles_of_readsOnly (listNotifications_readsOnly ..)).answer
  | getUnreadCount userId => exact (settles_of_readsOnly (getUnreadCount_readsOnly userId)).answer
  | markNotificationRead userId notificationId now =>
    apply Settles.answer
    apply settles_reads_bind (Request.readsOnly_select _)
    intro row
    apply settles_reads_bind readsOnly_found
    intro notification
    split
    · rfl
    · apply settles_send_bind
      apply settles_commit_bind
      apply settles_of_readsOnly
      apply (Request.readsOnly_select _).bind
      intro _
      exact readsOnly_answer readsOnly_found
  | markAllRead userId now =>
    apply Settles.answer
    apply settles_reads_bind (Request.readsOnly_select _)
    intro _
    apply settles_send_bind
    exact settles_commit_bind rfl

end

/-! ## Alert rules -/

structure AlertRuleCreate where
  name : String
  description : Option String
  source : String
  condition : String
  thresholdSeverity : NotificationSeverity
  channel : AlertChannel
  target : String
  isEnabled : Bool
  deriving DecidableEq, Repr

/-- `collate` is the order of texts in the database. -/
def listAlertRules (collate : String → String → Bool) (source : Option String)
    (isEnabled : Option Bool) : NotificationRequest (List AlertRuleRead) := do
  Request.ensure (sendable source = true) .rejected
  let rules ← Request.select fun s : NotificationStore =>
    (s.alertRules.rows.filter fun r => (nonempty source).all (r.source == ·) &&
      isEnabled.all (r.isEnabled == ·)).insertionSort fun a b => collate a.name b.name
  return rules.map alertRuleToRead

def createAlertRule (now : Instant) (newId : Uuid) (payload : AlertRuleCreate)
    (createdBy : String) : NotificationRequest AlertRuleRead := do
  Request.ensure ((text payload.name).isSome = true) .rejected
  let existing ← Request.select fun s : NotificationStore =>
    s.alertRules.rows.find? fun r => r.name = payload.name
  Request.ensure (existing = none) nameTaken
  Request.send fun _ => [.insertAlertRule
    { id := newId
      name := payload.name
      description := payload.description
      source := payload.source
      condition := payload.condition
      thresholdSeverity := payload.thresholdSeverity
      channel := payload.channel
      target := payload.target
      isEnabled := payload.isEnabled
      createdBy := createdBy
      lastTriggeredAt := none
      triggerCount := 0
      createdAt := now }]
  Request.commitTransaction
  let row ← Request.select fun s : NotificationStore => s.alertRules.find? newId
  let rule ← Request.found row .exception
  return alertRuleToRead rule

def deleteAlertRule (ruleId : Uuid) : NotificationRequest Unit := do
  let rule ← getRuleOrm ruleId
  Request.send fun _ => [.deleteAlertRule rule.id]
  Request.commitTransaction

/-- A request of an admin, with the time and the order that it meets. -/
inductive AlertRuleCall where
  | listAlertRules (collate : String → String → Bool) (source : Option String)
    (isEnabled : Option Bool)
  | createAlertRule (now : Instant) (newId : Uuid) (payload : AlertRuleCreate) (createdBy : String)
  | updateAlertRule (ruleId : Uuid) (payload : AlertRuleUpdate)
  | deleteAlertRule (ruleId : Uuid)

def AlertRuleCall.request : AlertRuleCall → NotificationRequest Unit
  | listAlertRules collate source isEnabled => do
    let _ ← NotificationRaces.listAlertRules collate source isEnabled
    return ()
  | createAlertRule now newId payload createdBy => do
    let _ ← NotificationRaces.createAlertRule now newId payload createdBy
    return ()
  | updateAlertRule ruleId payload => do
    let _ ← NotificationService.updateAlertRule ruleId payload
    return ()
  | deleteAlertRule ruleId => NotificationRaces.deleteAlertRule ruleId

/-- The statement leaves the notifications alone. -/
def LeavesNotifications (w : NotificationStatement) : Prop := ∀ r, change w r = r

theorem alertRule_sends (call : AlertRuleCall) : call.request.Sends LeavesNotifications := by
  have hselect : ∀ {α : Type} (read : NotificationStore → α),
      (Request.select read : NotificationRequest α).Sends LeavesNotifications := fun read =>
    Request.sends_select read
  have hrefreshed : ∀ id : Uuid, (do
      let row ← Request.select fun s : NotificationStore => s.alertRules.find? id
      let rule ← Request.found row .exception
      return alertRuleToRead rule : NotificationRequest AlertRuleRead).Sends
        LeavesNotifications := by
    intro id
    apply (hselect _).bind
    intro row
    exact readsOnly_found.sends.answer
  cases call with
  | listAlertRules collate source isEnabled =>
    apply Request.Sends.answer
    apply readsOnly_ensure.sends.bind
    intro _
    exact (hselect _).answer
  | createAlertRule now newId payload createdBy =>
    apply Request.Sends.answer
    apply readsOnly_ensure.sends.bind
    intro _
    apply (hselect _).bind
    intro existing
    apply readsOnly_ensure.sends.bind
    intro _
    apply (Request.sends_send _).bind
    · intro _
      apply Request.sends_commit.bind
      intro _
      exact hrefreshed newId
    · intro n w hw
      cases List.mem_singleton.mp hw
      exact fun _ => rfl
  | updateAlertRule ruleId payload =>
    apply Request.Sends.answer
    apply Request.Sends.bind ((hselect _).bind fun _ => readsOnly_found.sends)
    intro rule
    have hname : (assertNameFree rule (payload.name.getD none)).Sends LeavesNotifications := by
      unfold assertNameFree
      split
      · trivial
      · split
        · trivial
        · apply readsOnly_ensure.sends.bind
          intro _
          apply (hselect _).bind
          intro clash
          exact readsOnly_ensure.sends
    apply hname.bind
    intro _
    apply (Request.sends_send _).bind
    · intro _
      apply Request.sends_commit.bind
      intro _
      exact hrefreshed ruleId
    · intro n w hw
      rw [alertRuleStatements] at hw
      split at hw
      · cases hw
      · cases List.mem_singleton.mp hw
        exact fun _ => rfl
  | deleteAlertRule ruleId =>
    apply Request.Sends.bind ((hselect _).bind fun _ => readsOnly_found.sends)
    intro rule
    apply (Request.sends_send _).bind
    · intro _
      exact Request.sends_commit
    · intro n w hw
      cases List.mem_singleton.mp hw
      exact fun _ => rfl

/-! ## Interleavings -/

/-- Whatever other sessions do while a call of a user goes on, its answer is right: a notification
that was marked is read, all that the user has are read once all have been marked, the counts lie
between those of before and after, and a listing shows what there was. No session takes a mark
back, then or later. -/
theorem calls_acknowledged
    {σ σ' : Server NotificationStore NotificationStatement ServiceError NotificationResponse}
    {call : NotificationCall} {i : ℕ} (begins : σ.sessions[i]? = some ⟨[], call.request⟩)
    (run : Server.Reaches notificationTables (fun _ _ => True) σ σ')
    {pending : List NotificationStatement} {response : NotificationResponse}
    (ends : σ'.sessions[i]? = some ⟨pending, .done response⟩) :
    Acknowledged σ.committed σ'.committed call response ∧
      ∀ σ'', Server.Reaches notificationTables (fun _ _ => True) σ' σ'' →
        Ages σ'.committed σ''.committed := by
  exact ⟨(run.answered growth (fun _ _ _ _ _ => trivial) (request_acknowledged call)
    (request_settles call) trivial begins
    ends).2.2.2, fun σ'' later => growth.reaches later⟩

/-- A user marks a notification while another session of the user marks all. -/
def sampleSessions :
    Server NotificationStore NotificationStatement ServiceError NotificationResponse :=
  start NotificationIsolation.sampleNotifications.db 1
    ([NotificationCall.markNotificationRead 1 10 100, .markAllRead 1 200].map
      NotificationCall.request)

theorem calls_acknowledged_sample : ∃ σ n,
    sampleSessions.run notificationTables (fun _ _ => true)
      [.run 0, .run 1, .run 1, .run 1, .run 0, .run 0, .run 0] = some σ ∧
    Acknowledged sampleSessions.committed σ.committed (.markNotificationRead 1 10 100)
      (.marked n) := by
  have hrun : ∃ σ n, sampleSessions.run notificationTables (fun _ _ => true)
        [.run 0, .run 1, .run 1, .run 1, .run 0, .run 0, .run 0] = some σ ∧
      σ.sessions[0]? = some ⟨[], .done (.marked n)⟩ := ⟨_, _, rfl, rfl⟩
  obtain ⟨σ, n, hrun, hends⟩ := hrun
  exact ⟨σ, n, hrun, (calls_acknowledged rfl
    (Server.Reaches.of_run (fun _ _ _ => trivial) .refl hrun) hends).1⟩

/-! ## Owners -/

/-- A call of a user, or a request of an admin. -/
inductive Traffic where
  | ofUser (call : NotificationCall)
  | ofAdmin (call : AlertRuleCall)

def Traffic.request : Traffic → NotificationRequest Unit
  | ofUser call => do
    let _ ← call.request
    return ()
  | ofAdmin call => call.request

/-- The call marks notifications of its user. -/
def marks : NotificationCall → Bool
  | .markNotificationRead .. => true
  | .markAllRead .. => true
  | _ => false

section

variable {userId : Uuid} {s s' : NotificationStore} {w : NotificationStatement}

/-- A statement that leaves the notifications of a user alone. -/
theorem rowsOf_apply (happly : notificationTables.apply w s = some s')
    (h : ∀ r ∈ s.notifications.rows, r.userId = userId → change w r = r) :
    rowsOf userId s' = rowsOf userId s := by
  rw [rowsOf, rowsOf, apply_rows happly]
  have howner : ∀ r, (change w r).userId = r.userId := fun r => (later_change w r).userId
  rw [List.filter_map]
  simp only [Function.comp_def, howner]
  apply (List.map_congr_left _).trans (List.map_id' _)
  intro r hr
  simp only [List.mem_filter, decide_eq_true_eq] at hr
  exact h r hr.1 hr.2

/-- The statement of a call that marks the notification of another user. -/
theorem rowsOf_markRead {user id : Uuid} {now : Instant} (hne : user ≠ userId)
    (howned : Owned user id s) (happly : notificationTables.apply (.markRead id now) s = some s') :
    rowsOf userId s' = rowsOf userId s := by
  apply rowsOf_apply happly
  intro r hr huser
  obtain ⟨r', hr', hid, huser'⟩ := howned
  rw [change, if_neg]
  intro hrid
  obtain rfl := s.notifications.eq_of_key_eq hr hr' (hrid.trans hid.symm)
  exact hne (huser'.symm.trans huser)

theorem rowsOf_markAllRead {user : Uuid} {now : Instant} (hne : user ≠ userId)
    (happly : notificationTables.apply (.markAllRead user now) s = some s') :
    rowsOf userId s' = rowsOf userId s := by
  apply rowsOf_apply happly
  intro r _ huser
  have hforeign : ¬ unreadOf user r = true := by
    simp only [unreadOf, Bool.and_eq_true, decide_eq_true_eq]
    intro hown
    exact hne (hown.1.symm.trans huser)
  rw [change, readAll, if_neg hforeign]

theorem traffic_safe (t : Traffic) {rows : List Notification}
    (h : ∀ call, t = .ofUser call → marks call = true → call.userId ≠ userId) :
    Safe notificationTables Ages (fun s => rowsOf userId s = rows) (fun _ => True) t.request
      fun _ _ => True := by
  cases t with
  | ofUser call =>
    apply Safe.answer growth
    have hother := h call rfl
    cases call with
    | listNotifications user unreadOnly category limit before =>
      apply Safe.answer growth
      exact Safe.of_readsOnly growth stable_true (listNotifications_readsOnly ..)
    | getUnreadCount user =>
      apply Safe.answer growth
      exact Safe.of_readsOnly growth stable_true (getUnreadCount_readsOnly user)
    | markNotificationRead user notificationId now =>
      apply Safe.answer growth
      apply (markNotificationRead_safe now _).mono (fun _ h => h) fun _ _ _ => trivial
      intro a b howned hrows happly
      rw [rowsOf_markRead (hother rfl) howned happly]
      exact hrows
    | markAllRead user now =>
      apply Safe.answer growth
      apply (Safe.of_readsOnly growth stable_true (Request.readsOnly_select _)).bind growth
      intro _
      apply (Safe.send growth stable_true _).bind growth
      · intro _
        apply (Safe.commit growth stable_true).bind growth
        intro _
        exact Safe.done growth fun _ hk => hk
      · intro mid after n _ hrows happly
        rw [StatementSemantics.applyAll_singleton] at happly
        rw [rowsOf_markAllRead (hother rfl) happly]
        exact hrows
  | ofAdmin call =>
    apply Safe.of_sends growth stable_true (alertRule_sends call)
    intro w a b hw happly hrows
    rw [rowsOf_apply happly fun r _ _ => hw r]
    exact hrows

end

/-- In every interleaving of calls of users and requests of admins, the notifications of a user
change in no way as long as no call of that user marks any. -/
theorem marked_by_owner_only {s : NotificationStore} {n : ℕ} (userId : Uuid) (ts : List Traffic)
    (hothers : ∀ call, .ofUser call ∈ ts → marks call = true → call.userId ≠ userId)
    {σ : Server NotificationStore NotificationStatement ServiceError Unit}
    (run : Server.Reaches notificationTables (fun _ _ => True)
      (start s n (ts.map Traffic.request)) σ) :
    rowsOf userId σ.committed = rowsOf userId s := by
  have hsafe : ∀ p ∈ ts.map Traffic.request,
      Safe notificationTables Ages (fun s' => rowsOf userId s' = rowsOf userId s) (fun _ => True) p
        fun _ _ => True := by
    intro p hp
    obtain ⟨t, ht, rfl⟩ := List.mem_map.mp hp
    apply traffic_safe t
    rintro call rfl
    exact hothers call ht
  exact Server.Reaches.safe (P := fun s' => rowsOf userId s' = rowsOf userId s) growth rfl hsafe run

/-- The second user tries to mark a notification of the first one, and then marks all. -/
def sampleTraffic : List Traffic :=
  [.ofUser (.markNotificationRead 2 10 100), .ofUser (.markAllRead 2 200),
    .ofUser (.getUnreadCount 1), .ofAdmin (.deleteAlertRule 3)]

theorem marked_by_owner_only_sample : ∃ σ,
    Server.run notificationTables (fun _ _ => true)
      (start NotificationIsolation.sampleNotifications.db 1 (sampleTraffic.map Traffic.request))
      [.run 0, .run 1, .run 2, .run 1, .run 3, .run 1, .run 2] = some σ ∧
    rowsOf 1 σ.committed = rowsOf 1 NotificationIsolation.sampleNotifications.db := by
  have hrun : ∃ σ, Server.run notificationTables (fun _ _ => true)
      (start NotificationIsolation.sampleNotifications.db 1 (sampleTraffic.map Traffic.request))
      [.run 0, .run 1, .run 2, .run 1, .run 3, .run 1, .run 2] = some σ := ⟨_, rfl⟩
  obtain ⟨σ, hrun⟩ := hrun
  have hothers : ∀ call, Traffic.ofUser call ∈ sampleTraffic → marks call = true →
      call.userId ≠ 1 := by
    intro call hmem hmarks
    simp only [sampleTraffic, List.mem_cons, List.not_mem_nil, or_false, Traffic.ofUser.injEq,
      reduceCtorEq] at hmem
    rcases hmem with rfl | rfl | rfl <;> simp [NotificationCall.userId, marks] at hmarks ⊢
  exact ⟨σ, hrun, marked_by_owner_only 1 sampleTraffic hothers
    (Server.Reaches.of_run (fun _ _ _ => trivial) .refl hrun)⟩

end NexusEngine.NotificationRaces
