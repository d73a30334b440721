import NexusEngine.Database

/-!
# The tables of notifications

Notifications belong to one user each. Alert rules have a unique name. No other service reads
these tables, so that they are a store of their own.
-/

namespace NexusEngine.NotificationTables

open TransactionalRequests KeyedTables StoredColumns CalendarTime Database
open TenancyTables (notNull)
open ConfigurationTable (maxInteger)

inductive NotificationSeverity where
  | critical | warning | info
  deriving DecidableEq, Repr

def NotificationSeverity.value : NotificationSeverity → String
  | .critical => "critical"
  | .warning => "warning"
  | .info => "info"

inductive AlertChannel where
  | inApp | email | slack | webhook
  deriving DecidableEq, Repr

def AlertChannel.value : AlertChannel → String
  | .inApp => "in_app"
  | .email => "email"
  | .slack => "slack"
  | .webhook => "webhook"

structure Notification where
  id : Uuid
  userId : Uuid
  severity : NotificationSeverity
  category : String
  title : String
  body : String
  source : String
  link : Option String
  isRead : Bool
  readAt : Option Instant
  createdAt : Instant
  deriving DecidableEq, Repr

structure AlertRule where
  id : Uuid
  name : String
  description : Option String
  source : String
  condition : String
  thresholdSeverity : NotificationSeverity
  channel : AlertChannel
  target : String
  isEnabled : Bool
  createdBy : String
  lastTriggeredAt : Option Instant
  triggerCount : ℕ
  createdAt : Instant
  deriving DecidableEq, Repr

/-- The columns of an `UPDATE` of a rule, with `none` for the value `NULL`. -/
structure AlertRulePatch where
  name : Option (Option String) := none
  description : Option (Option String) := none
  source : Option (Option String) := none
  condition : Option (Option String) := none
  thresholdSeverity : Option (Option NotificationSeverity) := none
  channel : Option (Option AlertChannel) := none
  target : Option (Option String) := none
  isEnabled : Option (Option Bool) := none
  deriving DecidableEq

/-- The patch with its values bound to the columns. -/
def AlertRulePatch.bound (p : AlertRulePatch) : Option AlertRulePatch := do
  let name ← notNull (varchar 120) p.name
  let description ← nullable (nullable text) p.description
  let source ← notNull (varchar 40) p.source
  let condition ← notNull (varchar 255) p.condition
  let thresholdSeverity ← notNull some p.thresholdSeverity
  let channel ← notNull some p.channel
  let target ← notNull (varchar 200) p.target
  let isEnabled ← notNull some p.isEnabled
  return ⟨name, description, source, condition, thresholdSeverity, channel, target, isEnabled⟩

def AlertRulePatch.apply (p : AlertRulePatch) (r : AlertRule) : AlertRule :=
  { r with
    name := (p.name.getD none).getD r.name
    description := p.description.getD r.description
    source := (p.source.getD none).getD r.source
    condition := (p.condition.getD none).getD r.condition
    thresholdSeverity := (p.thresholdSeverity.getD none).getD r.thresholdSeverity
    channel := (p.channel.getD none).getD r.channel
    target := (p.target.getD none).getD r.target
    isEnabled := (p.isEnabled.getD none).getD r.isEnabled }

structure NotificationStore where
  notifications : Table Notification Uuid Notification.id
  alertRules : Table AlertRule Uuid AlertRule.id

/-! ## Statements -/

inductive NotificationStatement where
  | markRead (id : Uuid) (readAt : Instant)
  | markAllRead (userId : Uuid) (readAt : Instant)
  | insertAlertRule (r : AlertRule)
  | updateAlertRule (id : Uuid) (patch : AlertRulePatch)
  | deleteAlertRule (id : Uuid)
  deriving DecidableEq

def Notification.read (readAt : Instant) (r : Notification) : Notification :=
  { r with isRead := true, readAt := some readAt }

namespace NotificationStore

def markRead (s : NotificationStore) (id : Uuid) (readAt : Instant) : Option NotificationStore := do
  let notifications ← s.notifications.update id (Notification.read readAt) fun _ => rfl
  return { s with notifications := notifications }

/-- The unread rows of one user. -/
def unreadOf (userId : Uuid) (r : Notification) : Bool := r.userId = userId && !r.isRead

def readAll (userId : Uuid) (readAt : Instant) (r : Notification) : Notification :=
  if unreadOf userId r then r.read readAt else r

theorem readAll_id (userId : Uuid) (readAt : Instant) (r : Notification) :
    (readAll userId readAt r).id = r.id := by
  unfold readAll
  split <;> rfl

def markAllRead (s : NotificationStore) (userId : Uuid) (readAt : Instant) : NotificationStore :=
  { s with
    notifications := s.notifications.mapRows (readAll userId readAt) (readAll_id userId readAt) }

def insertAlertRule (s : NotificationStore) (r : AlertRule) : Option NotificationStore := do
  let name ← varchar 120 r.name
  let description ← nullable text r.description
  let source ← varchar 40 r.source
  let condition ← varchar 255 r.condition
  let target ← varchar 200 r.target
  let createdBy ← varchar 120 r.createdBy
  if s.alertRules.rows.any fun r' => r'.name == name then none
  else if maxInteger < r.triggerCount then none
  else
    let alertRules ← s.alertRules.insert
      { r with
        name := name
        description := description
        source := source
        condition := condition
        target := target
        createdBy := createdBy }
    return { s with alertRules := alertRules }

/-- The name is unique among the other rules. -/
def updateAlertRule (s : NotificationStore) (id : Uuid) (patch : AlertRulePatch) :
    Option NotificationStore := do
  let patch ← patch.bound
  if s.alertRules.rows.any fun r => r.id != id && some (some r.name) == patch.name then none
  else
    let alertRules ← s.alertRules.update id patch.apply fun _ => rfl
    return { s with alertRules := alertRules }

end NotificationStore

def NotificationStatement.apply :
    NotificationStatement → NotificationStore → Option NotificationStore
  | .markRead id readAt, s => s.markRead id readAt
  | .markAllRead userId readAt, s => some (s.markAllRead userId readAt)
  | .insertAlertRule r, s => s.insertAlertRule r
  | .updateAlertRule id patch, s => s.updateAlertRule id patch
  | .deleteAlertRule id, s => some { s with alertRules := s.alertRules.delete id }

def NotificationStatement.conflicts : NotificationStatement → NotificationStatement → Bool
  | .markRead id _, .markRead id' _ => id == id'
  | .markAllRead userId _, .markAllRead userId' _ => userId == userId'
  -- Whose notification it is the statement does not say.
  | .markRead _ _, .markAllRead _ _ => true
  | .markAllRead _ _, .markRead _ _ => true
  | .insertAlertRule r, .insertAlertRule r' => r.id == r'.id || r.name == r'.name
  | .updateAlertRule id patch, .updateAlertRule id' patch' =>
    id == id' || (patch.name.isSome && patch.name == patch'.name)
  | .insertAlertRule r, .updateAlertRule _ patch => patch.name == some (some r.name)
  | .updateAlertRule _ patch, .insertAlertRule r => patch.name == some (some r.name)
  | .updateAlertRule id _, .deleteAlertRule id' => id == id'
  | .deleteAlertRule id, .updateAlertRule id' _ => id == id'
  | .deleteAlertRule id, .deleteAlertRule id' => id == id'
  | _, _ => false

def notificationTables :
    StatementSemantics NotificationStore NotificationStatement ServiceError where
  apply := NotificationStatement.apply
  conflicts := NotificationStatement.conflicts
  rejected := .rejected

abbrev NotificationRequest (α : Type) :=
  Request NotificationStore NotificationStatement ServiceError α

end NexusEngine.NotificationTables
