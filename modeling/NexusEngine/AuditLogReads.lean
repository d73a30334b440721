import NexusEngine.DashboardActivity

/-!
# Reading the audit log

The log is listed in pages, the latest entry first, and exported from its start. Both count the
entries that pass the conditions of the query, and an empty condition is none.
-/

namespace NexusEngine.AuditLogReads

open TransactionalRequests CalendarTime StoredColumns AuditLogTable Database AuditService
  DashboardActivity

/-- `_entry_to_read`. -/
def entryToRead (e : AuditLogEntry) : AuditLogEntryRead :=
  { activityRead e with integrity := "unverified" }

/-! ## Conditions -/

structure EntryQuery where
  severity : Option String := none
  eventType : Option String := none
  tenantSlug : Option String := none
  actorSearch : Option String := none
  search : Option String := none
  fromTime : Option Instant := none
  toTime : Option Instant := none

structure EntryFilter where
  severity : Option AuditSeverity
  eventType : Option AuditEventType
  tenantSlug : Option String
  actorSearch : Option String
  search : Option String
  fromTime : Option Instant
  toTime : Option Instant

def nonempty (condition : Option String) : Option String := condition.filter (· ≠ "")

def EntryQuery.bind (q : EntryQuery) : Option EntryFilter := do
  let severity ← bindCondition auditSeverityColumn q.severity
  let eventType ← bindCondition auditEventTypeColumn q.eventType
  return ⟨severity, eventType, nonempty q.tenantSlug, nonempty q.actorSearch, nonempty q.search,
    q.fromTime, q.toTime⟩

/-- The database takes no text with a NUL character. -/
def EntryFilter.sendable (f : EntryFilter) : Bool :=
  (f.tenantSlug.toList ++ f.actorSearch.toList ++ f.search.toList).all fun t => (text t).isSome

/-- `ilike` is the operator of the database. A column without a value matches no pattern. -/
def EntryFilter.passes (ilike : String → String → Bool) (f : EntryFilter) (e : AuditLogEntry) :
    Bool :=
  (f.severity.all fun s => e.severity == s) && (f.eventType.all fun t => e.eventType == t) &&
    (f.tenantSlug.all fun slug => e.tenantSlug == some slug) &&
    (f.actorSearch.all fun t => ilike e.actor ("%" ++ t ++ "%")) &&
    (f.search.all fun t =>
      [some e.actor, some e.description, some e.eventSubtype, e.tenantSlug, e.sourceIp].any
        fun column => column.any fun s => ilike s ("%" ++ t ++ "%")) &&
    (f.fromTime.all fun t => decide (t ≤ e.occurredAt.utc)) &&
    f.toTime.all fun t => decide (e.occurredAt.utc ≤ t)

/-! ## Listing and exporting -/

def listEntries (ilike : String → String → Bool) (q : EntryQuery) (page pageSize : ℤ) :
    Service (List AuditLogEntryRead × ℕ) := do
  let filter ← found q.bind .exception
  ensure (filter.sendable = true) .rejected
  let total ← Request.select fun db => (db.auditLog.filter (filter.passes ilike)).length
  ensure (isRowCount ((page - 1) * pageSize) = true ∧ isRowCount pageSize = true) .rejected
  let entries ← Request.select fun db =>
    ((((db.auditLog.filter (filter.passes ilike)).insertionSort fun a b =>
      b.sequence ≤ a.sequence).drop ((page - 1) * pageSize).toNat).take pageSize.toNat)
  return (entries.map entryToRead, total)

structure ExportQuery where
  severity : Option String := none
  eventType : Option String := none
  tenantSlug : Option String := none
  fromTime : Option Instant := none
  toTime : Option Instant := none

structure AuditExportResponse where
  generatedAt : Instant
  total : ℕ
  returned : ℕ
  truncated : Bool
  entries : List AuditLogEntryRead

def exportMaxRows : ℕ := 10000

/-- The conditions are those of a listing without searches. -/
def ExportQuery.entries (q : ExportQuery) : EntryQuery where
  severity := q.severity
  eventType := q.eventType
  tenantSlug := q.tenantSlug
  fromTime := q.fromTime
  toTime := q.toTime

def exportEntries (now : Instant) (q : ExportQuery) : Service AuditExportResponse := do
  let filter ← found q.entries.bind .exception
  ensure (filter.sendable = true) .rejected
  let passes := filter.passes fun _ _ => true
  let total ← Request.select fun db => (db.auditLog.filter passes).length
  let entries ← Request.select fun db =>
    (inSequenceOrder (db.auditLog.filter passes)).take exportMaxRows
  return {
    generatedAt := now
    total := total
    returned := entries.length
    truncated := entries.length < total
    entries := entries.map entryToRead }

/-! ## Entries of one tenant -/

/-- What a query by a tenant and a time counts. -/
def countSince (slug : String) (since : Instant) (log : List AuditLogEntry) : ℕ :=
  log.countP fun e => (slug = "" ∨ e.tenantSlug = some slug) ∧ since ≤ e.occurredAt.utc

section

variable {db : Db} {n : ℕ} {slug : String} {since : Instant}

theorem bind_tenantSlug (slug : String) (since : Instant) :
    ({ tenantSlug := some slug, fromTime := some since } : EntryQuery).bind =
      some ⟨none, none, nonempty (some slug), none, none, some since, none⟩ := rfl

theorem sendable_tenantSlug (hslug : (text slug).isSome) :
    (⟨none, none, nonempty (some slug), none, none, some since, none⟩ : EntryFilter).sendable =
      true := by
  by_cases hempty : slug = ""
  · simp [EntryFilter.sendable, nonempty, hempty]
  · simp [EntryFilter.sendable, nonempty, hempty, hslug]

theorem length_filter_tenantSlug (ilike : String → String → Bool) (log : List AuditLogEntry) :
    (log.filter ((⟨none, none, nonempty (some slug), none, none, some since, none⟩ :
      EntryFilter).passes ilike)).length = countSince slug since log := by
  rw [← List.countP_eq_length_filter, countSince]
  refine List.countP_congr fun e _ => ?_
  by_cases hempty : slug = ""
  · simp [EntryFilter.passes, nonempty, hempty]
  · simp [EntryFilter.passes, nonempty, hempty]

/-- A listing by a tenant and a time is answered on every page there is, with one total. -/
theorem listEntries_total (ilike : String → String → Bool) {page pageSize : ℤ}
    (hslug : (text slug).isSome)
    (hpage : isRowCount ((page - 1) * pageSize) = true ∧ isRowCount pageSize = true) :
    ∃ entries, ((listEntries ilike { tenantSlug := some slug, fromTime := some since } page
      pageSize).serial postgres db db n).result =
        .ok (entries, countSince slug since db.auditLog) := by
  have hanswer : (listEntries ilike { tenantSlug := some slug, fromTime := some since } page
      pageSize).wp postgres (fun result _ _ _ =>
        ∃ entries, result = .ok (entries, countSince slug since db.auditLog)) db db n := by
    apply (Request.wp_bind ..).mpr
    refine wp_found.mpr ⟨fun hnone => (nomatch hnone), fun filter hfilter => ?_⟩
    rw [bind_tenantSlug] at hfilter
    cases hfilter
    apply (Request.wp_bind ..).mpr
    refine wp_ensure.mpr ⟨fun hnot => absurd (sendable_tenantSlug hslug) hnot, fun _ => ?_⟩
    apply (Request.wp_bind ..).mpr
    rw [Request.wp_select, length_filter_tenantSlug]
    apply (Request.wp_bind ..).mpr
    refine wp_ensure.mpr ⟨fun hnot => absurd hpage hnot, fun _ => ?_⟩
    apply (Request.wp_bind ..).mpr
    rw [Request.wp_select]
    exact Request.wp_return ⟨_, rfl⟩
  exact (Request.serial_sound hanswer).elim fun _ h => h

/-- An export counts the same entries. -/
theorem exportEntries_total (now : Instant) (hslug : (text slug).isSome) :
    ∃ response, ((exportEntries now { tenantSlug := some slug, fromTime := some since }).serial
      postgres db db n).result = .ok response ∧
        response.total = countSince slug since db.auditLog := by
  have hanswer : (exportEntries now { tenantSlug := some slug, fromTime := some since }).wp postgres
      (fun result _ _ _ => ∃ response, result = .ok response ∧
        response.total = countSince slug since db.auditLog) db db n := by
    apply (Request.wp_bind ..).mpr
    refine wp_found.mpr ⟨fun hnone => (nomatch hnone), fun filter hfilter => ?_⟩
    cases hfilter
    apply (Request.wp_bind ..).mpr
    refine wp_ensure.mpr ⟨fun hnot => absurd (sendable_tenantSlug hslug) hnot, fun _ => ?_⟩
    apply (Request.wp_bind ..).mpr
    rw [Request.wp_select]
    apply (Request.wp_bind ..).mpr
    rw [Request.wp_select]
    exact Request.wp_return ⟨_, rfl, length_filter_tenantSlug _ _⟩
  exact (Request.serial_sound hanswer).elim fun _ h => h

end

end NexusEngine.AuditLogReads
