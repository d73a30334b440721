import NexusEngine.NotificationTables
import NexusEngine.ListingPages
import NexusEngine.Unwinding

/-!
# The notification service

Every user lists, counts and marks the notifications of their own. Admins maintain the alert
rules.
-/

namespace NexusEngine.NotificationService

open TransactionalRequests KeyedTables StoredColumns CalendarTime Database RankedRows
  NotificationTables Unwinding
open AuditLogReads (nonempty)
open ListingPages (sendable)
open DashboardActivity (isRowCount)
open TenancyService (assigned)

/-! ## Notifications -/

structure NotificationRead where
  id : Uuid
  severity : String
  category : String
  title : String
  body : String
  source : String
  link : Option String
  isRead : Bool
  readAt : Option Instant
  createdAt : Instant
  deriving DecidableEq, Repr

structure UnreadCountResponse where
  unread : ℕ
  total : ℕ
  deriving DecidableEq, Repr

structure MarkAllReadResponse where
  detail : String
  markedRead : ℕ
  deriving DecidableEq, Repr

def notificationToRead (row : Notification) : NotificationRead where
  id := row.id
  severity := row.severity.value
  category := row.category
  title := row.title
  body := row.body
  source := row.source
  link := row.link
  isRead := row.isRead
  readAt := row.readAt
  createdAt := row.createdAt

/-- The rows that a listing asks for. -/
def listed (userId : Uuid) (unreadOnly : Bool) (category : Option String) (r : Notification) :
    Bool :=
  r.userId = userId && (!unreadOnly || !r.isRead) && (nonempty category).all (r.category == ·)

/-- `before` is the order in which the database returns rows that were created at once. -/
def listNotifications (userId : Uuid) (unreadOnly : Bool) (category : Option String) (limit : ℤ)
    (before : Uuid → Uuid → Bool) : NotificationRequest (List NotificationRead) := do
  Request.ensure (sendable category = true ∧ isRowCount limit = true) .rejected
  let rows ← Request.select fun s : NotificationStore =>
    (fromLargest Notification.createdAt
      ((s.notifications.filter (listed userId unreadOnly category)).scan before)).take limit.toNat
  return rows.map notificationToRead

def getUnreadCount (userId : Uuid) : NotificationRequest UnreadCountResponse := do
  let total ← Request.select fun s : NotificationStore =>
    s.notifications.rows.countP fun r => r.userId = userId
  let unread ← Request.select fun s : NotificationStore =>
    s.notifications.rows.countP (NotificationStore.unreadOf userId)
  return ⟨unread, total⟩

/-- A notification of another user is not found. -/
def markNotificationRead (userId notificationId : Uuid) (now : Instant) :
    NotificationRequest NotificationRead := do
  let row ← Request.select fun s : NotificationStore => s.notifications.find? notificationId
  let notification ← Request.found (row.filter fun r => r.userId = userId)
    (.http 404 "Notification not found")
  if notification.isRead then return notificationToRead notification
  else
    Request.send fun _ => [.markRead notification.id now]
    Request.commitTransaction
    let row ← Request.select fun s : NotificationStore => s.notifications.find? notification.id
    let refreshed ← Request.found row .exception
    return notificationToRead refreshed

/-- The number of rows that the `UPDATE` matches is that of the rows it finds. -/
def markAllRead (userId : Uuid) (now : Instant) : NotificationRequest MarkAllReadResponse := do
  let rowcount ← Request.select fun s : NotificationStore =>
    s.notifications.rows.countP (NotificationStore.unreadOf userId)
  Request.send fun _ => [.markAllRead userId now]
  Request.commitTransaction
  return ⟨"All notifications marked read", rowcount⟩

/-! ## Alert rules -/

structure AlertRuleRead where
  id : Uuid
  name : String
  description : Option String
  source : String
  condition : String
  thresholdSeverity : String
  channel : String
  target : String
  isEnabled : Bool
  createdBy : String
  lastTriggeredAt : Option Instant
  triggerCount : ℕ
  createdAt : Instant
  deriving DecidableEq, Repr

def alertRuleToRead (rule : AlertRule) : AlertRuleRead where
  id := rule.id
  name := rule.name
  description := rule.description
  source := rule.source
  condition := rule.condition
  thresholdSeverity := rule.thresholdSeverity.value
  channel := rule.channel.value
  target := rule.target
  isEnabled := rule.isEnabled
  createdBy := rule.createdBy
  lastTriggeredAt := rule.lastTriggeredAt
  triggerCount := rule.triggerCount
  createdAt := rule.createdAt

/-- A field of the body that is absent is `none`, and one that is `null` is `some none`. -/
structure AlertRuleUpdate where
  name : Option (Option String) := none
  description : Option (Option String) := none
  source : Option (Option String) := none
  condition : Option (Option String) := none
  thresholdSeverity : Option (Option NotificationSeverity) := none
  channel : Option (Option AlertChannel) := none
  target : Option (Option String) := none
  isEnabled : Option (Option Bool) := none
  deriving DecidableEq

/-- A text of at least `low` and at most `high` characters, where there is one. -/
def Bounded (low high : ℕ) (value : Option (Option String)) : Prop :=
  ∀ t, value = some (some t) → low ≤ t.toList.length ∧ t.toList.length ≤ high

/-- What the schema accepts. -/
structure AlertRuleUpdate.Accepted (payload : AlertRuleUpdate) : Prop where
  name : Bounded 2 120 payload.name
  description : Bounded 0 500 payload.description
  source : Bounded 1 40 payload.source
  condition : Bounded 1 255 payload.condition
  target : Bounded 1 200 payload.target

def AlertRuleUpdate.patch (payload : AlertRuleUpdate) (rule : AlertRule) : AlertRulePatch where
  name := assigned (some rule.name) payload.name
  description := assigned rule.description payload.description
  source := assigned (some rule.source) payload.source
  condition := assigned (some rule.condition) payload.condition
  thresholdSeverity := assigned (some rule.thresholdSeverity) payload.thresholdSeverity
  channel := assigned (some rule.channel) payload.channel
  target := assigned (some rule.target) payload.target
  isEnabled := assigned (some rule.isEnabled) payload.isEnabled

def getRuleOrm (ruleId : Uuid) : NotificationRequest AlertRule := do
  let row ← Request.select fun s : NotificationStore => s.alertRules.find? ruleId
  Request.found row (.http 404 "Alert rule not found")

def nameTaken : ServiceError := .http 409 "An alert rule with this name already exists"

/-- A new name that is not `null` must be free among the other rules. -/
def assertNameFree (rule : AlertRule) (newName : Option String) : NotificationRequest Unit :=
  match newName with
  | none => return ()
  | some name =>
    if name = rule.name then return ()
    else do
      Request.ensure ((text name).isSome = true) .rejected
      let clash ← Request.select fun s : NotificationStore =>
        s.alertRules.rows.any fun r => r.name == name && r.id != rule.id
      Request.ensure (clash = false) nameTaken

/-- An object without a changed attribute is not written. -/
def alertRuleStatements (ruleId : Uuid) (patch : AlertRulePatch) : List NotificationStatement :=
  if patch = {} then [] else [.updateAlertRule ruleId patch]

def updateAlertRule (ruleId : Uuid) (payload : AlertRuleUpdate) :
    NotificationRequest AlertRuleRead := do
  let rule ← getRuleOrm ruleId
  assertNameFree rule (payload.name.getD none)
  Request.send fun _ => alertRuleStatements ruleId (payload.patch rule)
  Request.commitTransaction
  let row ← Request.select fun s : NotificationStore => s.alertRules.find? ruleId
  let refreshed ← Request.found row .exception
  return alertRuleToRead refreshed

/-! ## Calls of users -/

/-- A call of a user, with the time and the order that it meets. -/
inductive NotificationCall where
  | listNotifications (userId : Uuid) (unreadOnly : Bool) (category : Option String) (limit : ℤ)
    (before : Uuid → Uuid → Bool)
  | getUnreadCount (userId : Uuid)
  | markNotificationRead (userId notificationId : Uuid) (now : Instant)
  | markAllRead (userId : Uuid) (now : Instant)

def NotificationCall.userId : NotificationCall → Uuid
  | .listNotifications userId .. => userId
  | .getUnreadCount userId => userId
  | .markNotificationRead userId .. => userId
  | .markAllRead userId _ => userId

inductive NotificationResponse where
  | listed (notifications : List NotificationRead)
  | counted (response : UnreadCountResponse)
  | marked (notification : NotificationRead)
  | markedAll (response : MarkAllReadResponse)
  deriving DecidableEq, Repr

def NotificationCall.request : NotificationCall → NotificationRequest NotificationResponse
  | .listNotifications userId unreadOnly category limit before => do
    let notifications ← NotificationService.listNotifications userId unreadOnly category limit before
    return .listed notifications
  | .getUnreadCount userId => do
    let response ← NotificationService.getUnreadCount userId
    return .counted response
  | .markNotificationRead userId notificationId now => do
    let notification ← NotificationService.markNotificationRead userId notificationId now
    return .marked notification
  | .markAllRead userId now => do
    let response ← NotificationService.markAllRead userId now
    return .markedAll response

/-- The service as a machine that answers one call after the other. -/
def service : Machine (Store NotificationStore) NotificationCall
    (Except ServiceError NotificationResponse) where
  next s call := s.exec notificationTables call.request
  answer s call := (call.request.serial notificationTables s.db s.db s.sequence).result

end NexusEngine.NotificationService
