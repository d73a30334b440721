import NexusEngine.AuditVerification

/-!
# The activity of the dashboard

The dashboard shows a page of the audit log, and every row of it as valid. A verification of the
chain counts a row as verified where it recomputes after the stored hash of the row before it, so
that the label is right on the pages whose rows all do.
-/

namespace NexusEngine.DashboardActivity

open TransactionalRequests JsonDocuments CalendarTime StoredColumns AuditLogTable Database
  HashChains AuditService AuditVerification

/-! ## The page -/

structure AuditLogEntryRead where
  id : Uuid
  sequence : ℕ
  occurredAt : Datetime
  severity : String
  eventType : String
  eventSubtype : String
  tenantSlug : Option String
  actor : String
  sourceIp : Option String
  description : String
  metadataJson : Json
  prevHash : Option String
  entryHash : String
  signingKeyId : String
  signature : String
  integrity : String
  deriving DecidableEq

structure ActivityQuery where
  page : ℤ
  pageSize : ℤ
  tenantId : Option Uuid := none
  eventType : Option String := none
  severity : Option String := none
  createdFrom : Option Instant := none
  createdTo : Option Instant := none

/-- The conditions of a query, bound to their columns. -/
structure ActivityFilter where
  tenantId : Option Uuid
  eventType : Option AuditEventType
  severity : Option AuditSeverity
  createdFrom : Option Instant
  createdTo : Option Instant

/-- A text that is no member of an enumeration cannot be compared with its column. The empty text
is no condition. -/
def bindCondition {α : Type} (column : EnumColumn α) (condition : Option String) :
    Option (Option α) :=
  nullableMember (condition.filter (· ≠ ""))
where
  nullableMember : Option String → Option (Option α)
    | none => some none
    | some s => (column.bind s).map some

def ActivityQuery.bind (q : ActivityQuery) : Option ActivityFilter := do
  let eventType ← bindCondition auditEventTypeColumn q.eventType
  let severity ← bindCondition auditSeverityColumn q.severity
  return ⟨q.tenantId, eventType, severity, q.createdFrom, q.createdTo⟩

def ActivityFilter.passes (f : ActivityFilter) (e : AuditLogEntry) : Bool :=
  (f.tenantId.all fun t => e.tenantId == some t) && (f.eventType.all fun t => e.eventType == t) &&
    (f.severity.all fun s => e.severity == s) &&
    (f.createdFrom.all fun t => decide (t ≤ e.occurredAt.utc)) &&
    f.createdTo.all fun t => decide (e.occurredAt.utc ≤ t)

def ActivityQuery.offset (q : ActivityQuery) : ℤ := (q.page - 1) * q.pageSize

/-- What `OFFSET` and `LIMIT` take. -/
def isRowCount (n : ℤ) : Bool := decide (0 ≤ n ∧ n < 9223372036854775808)

theorem isRowCount_natCast {n : ℕ} : isRowCount n = true ↔ n < 2 ^ 63 := by
  rw [isRowCount, decide_eq_true_eq]
  omega

/-- The rows of a page, the latest first. -/
def pageRows (f : ActivityFilter) (offset limit : ℤ) (log : List AuditLogEntry) :
    List AuditLogEntry :=
  (((log.filter f.passes).insertionSort fun a b => b.sequence ≤ a.sequence).drop
    offset.toNat).take limit.toNat

def activityRead (e : AuditLogEntry) : AuditLogEntryRead where
  id := e.id
  sequence := e.sequence
  occurredAt := e.occurredAt
  severity := e.severity.value
  eventType := e.eventType.value
  eventSubtype := e.eventSubtype
  tenantSlug := e.tenantSlug
  actor := e.actor
  sourceIp := e.sourceIp
  description := e.description
  metadataJson := e.metadataJson
  prevHash := e.prevHash
  entryHash := e.entryHash
  signingKeyId := e.signingKeyId
  signature := e.signature
  integrity := "valid"

def getActivity (q : ActivityQuery) : Service (List AuditLogEntryRead × ℕ) := do
  let filter ← found q.bind .exception
  let total ← Request.select fun db => (db.auditLog.filter filter.passes).length
  ensure (isRowCount q.offset = true ∧ isRowCount q.pageSize = true) .rejected
  let entries ← Request.select fun db => pageRows filter q.offset q.pageSize db.auditLog
  return (entries.map activityRead, total)

/-! ## The rows that a verification counts -/

/-- The rows that the walk counts as verified. -/
def verifiedFrom (crypto : AuditCrypto) : Option String → List AuditLogEntry → List AuditLogEntry
  | _, [] => []
  | before, e :: es =>
    if entryVerifies crypto before e then e :: verifiedFrom crypto (some e.entryHash) es
    else verifiedFrom crypto (some e.entryHash) es

def verifiedRows (crypto : AuditCrypto) (log : List AuditLogEntry) : List AuditLogEntry :=
  verifiedFrom crypto none (inSequenceOrder log)

/-- Every row that is shown as valid is one that a verification of the same state counts. -/
def LabelsHold (crypto : AuditCrypto) (q : ActivityQuery) (db : Db) : Prop :=
  ∀ n items total, ((getActivity q).serial postgres db db n).result = .ok (items, total) →
    ∀ item ∈ items, item.integrity = "valid" →
      ∃ r ∈ verifiedRows crypto db.auditLog, r.id = item.id

/-- The row with the id names the stored hash of the row before it, has the hash of its fields
after that one, and a signature that verifies. -/
def Recomputes (crypto : AuditCrypto) (log : List AuditLogEntry) (id : Uuid) : Prop :=
  ∃ before r after, inSequenceOrder log = before ++ r :: after ∧ r.id = id ∧
    (storedChain crypto).Fits (before.getLast?.map AuditLogEntry.entryHash) r ∧
      SignatureVerifies crypto r

/-- The rows that a query returns: none where it is refused. -/
def ActivityQuery.rows (q : ActivityQuery) (log : List AuditLogEntry) : List AuditLogEntry :=
  match q.bind with
  | none => []
  | some filter =>
    if isRowCount q.offset = true ∧ isRowCount q.pageSize = true then
      pageRows filter q.offset q.pageSize log
    else []

section

variable {crypto : AuditCrypto}

theorem length_verifiedFrom (before : Option String) (entries : List AuditLogEntry) :
    (verifiedFrom crypto before entries).length = (verdicts crypto before entries).count true := by
  induction entries generalizing before with
  | nil => rfl
  | cons e es ih =>
    rw [verifiedFrom, verdicts]
    cases hv : entryVerifies crypto before e with
    | true => simp [ih]
    | false => simp [ih]

/-- They are as many as the verification reports. -/
theorem length_verifiedRows (log : List AuditLogEntry) :
    (verifiedRows crypto log).length = (report crypto log).verifiedCount := by
  rw [report, verifyEntries_eq]
  exact length_verifiedFrom none _

/-- The walk counts a row where it verifies after the stored hash of its neighbour. -/
theorem mem_verifiedFrom {before : Option String} {entries : List AuditLogEntry}
    {r : AuditLogEntry} :
    r ∈ verifiedFrom crypto before entries ↔ ∃ front back, entries = front ++ r :: back ∧
      entryVerifies crypto ((front.getLast?.map AuditLogEntry.entryHash).or before) r = true := by
  induction entries generalizing before with
  | nil => simp [verifiedFrom]
  | cons e es ih =>
    have hstep : r ∈ verifiedFrom crypto before (e :: es) ↔
        (r = e ∧ entryVerifies crypto before e = true) ∨
          r ∈ verifiedFrom crypto (some e.entryHash) es := by
      rw [verifiedFrom]
      cases hv : entryVerifies crypto before e with
      | true => simp
      | false => simp
    have hlast : ∀ front : List AuditLogEntry,
        ((e :: front).getLast?.map AuditLogEntry.entryHash).or before =
          (front.getLast?.map AuditLogEntry.entryHash).or (some e.entryHash) := by
      intro front
      rw [List.getLast?_cons]
      cases front.getLast? <;> rfl
    rw [hstep, ih]
    constructor
    · rintro (⟨rfl, hv⟩ | ⟨front, back, rfl, hv⟩)
      · exact ⟨[], es, rfl, hv⟩
      · exact ⟨e :: front, back, rfl, by rw [hlast]; exact hv⟩
    · rintro ⟨front, back, heq, hv⟩
      cases front with
      | nil =>
        obtain ⟨rfl, rfl⟩ := List.cons.inj heq
        exact .inl ⟨rfl, hv⟩
      | cons e' front =>
        obtain ⟨rfl, rfl⟩ := List.cons.inj heq
        rw [hlast] at hv
        exact .inr ⟨front, back, rfl, hv⟩

theorem mem_of_mem_rows {q : ActivityQuery} {log : List AuditLogEntry} {r : AuditLogEntry}
    (h : r ∈ q.rows log) : r ∈ log := by
  unfold ActivityQuery.rows at h
  split at h
  · exact absurd h List.not_mem_nil
  · split at h
    · have hsorted := List.mem_of_mem_drop (List.mem_of_mem_take h)
      exact (List.mem_filter.mp ((List.mem_insertionSort _).mp hsorted)).1
    · exact absurd h List.not_mem_nil

theorem recomputes_iff {log : List AuditLogEntry} {id : Uuid} :
    Recomputes crypto log id ↔ ∃ r ∈ verifiedRows crypto log, r.id = id := by
  constructor
  · rintro ⟨before, r, after, heq, hid, hfits, hsig⟩
    have hv := (entryVerifies_iff crypto _ r).mpr ⟨hfits, hsig⟩
    exact ⟨r, mem_verifiedFrom.mpr ⟨before, after, heq, by rw [Option.or_none]; exact hv⟩, hid⟩
  · rintro ⟨r, hr, hid⟩
    obtain ⟨before, after, heq, hv⟩ := mem_verifiedFrom.mp hr
    rw [Option.or_none] at hv
    exact ⟨before, r, after, heq, hid, (entryVerifies_iff crypto _ r).mp hv⟩

/-- A query that is answered returns its rows, each of them as valid, and one that has rows is
answered. -/
theorem getActivity_rows (q : ActivityQuery) (db : Db) (n : ℕ) :
    (∀ items total, ((getActivity q).serial postgres db db n).result = .ok (items, total) →
      items = (q.rows db.auditLog).map activityRead) ∧
    (q.rows db.auditLog ≠ [] →
      ∃ items total, ((getActivity q).serial postgres db db n).result = .ok (items, total)) := by
  have hrows : (getActivity q).wp postgres (fun result _ _ _ =>
      (∀ items total, result = .ok (items, total) → items = (q.rows db.auditLog).map activityRead) ∧
        (q.rows db.auditLog ≠ [] → ∃ items total, result = .ok (items, total))) db db n := by
    refine (Request.wp_bind ..).mpr (wp_found.mpr ⟨fun hnone => ?_, fun f hf => ?_⟩)
    · refine ⟨fun _ _ heq => (nomatch heq), fun hne => absurd ?_ hne⟩
      rw [ActivityQuery.rows, hnone]
    refine (Request.wp_bind ..).mpr ?_
    rw [Request.wp_select]
    refine (Request.wp_bind ..).mpr (wp_ensure.mpr ⟨fun hpage => ?_, fun hpage => ?_⟩)
    · refine ⟨fun _ _ heq => (nomatch heq), fun hne => absurd ?_ hne⟩
      rw [ActivityQuery.rows, hf]
      exact if_neg hpage
    refine (Request.wp_bind ..).mpr ?_
    rw [Request.wp_select]
    refine Request.wp_return ⟨fun items total heq => ?_, fun _ => ⟨_, _, rfl⟩⟩
    cases heq
    rw [ActivityQuery.rows, hf]
    simp only [if_pos hpage]
  exact (Request.serial_sound hrows).elim fun _ hpost => hpost

/-- Every row of a page is one that a verification counts exactly where every row of the page
recomputes: the label says so in any case. -/
theorem labels_hold_iff (q : ActivityQuery) (db : Db) :
    LabelsHold crypto q db ↔ ∀ r ∈ q.rows db.auditLog, Recomputes crypto db.auditLog r.id := by
  constructor
  · intro hlabels r hr
    obtain ⟨hitems, hanswered⟩ := getActivity_rows q db 0
    obtain ⟨items, total, hok⟩ := hanswered (List.ne_nil_of_mem hr)
    have hitem : activityRead r ∈ items := by
      rw [hitems items total hok]
      exact List.mem_map_of_mem hr
    exact recomputes_iff.mpr (hlabels 0 items total hok (activityRead r) hitem rfl)
  · intro hrows n items total hok item hitem _
    rw [(getActivity_rows q db n).1 items total hok] at hitem
    obtain ⟨r, hr, rfl⟩ := List.mem_map.mp hitem
    exact recomputes_iff.mp (hrows r hr)

/-- A log that verifies as a whole is shown as it is. -/
theorem labelsHold_of_isValid {db : Db} (valid : (report crypto db.auditLog).isValid = true)
    (q : ActivityQuery) : LabelsHold crypto q db := by
  refine (labels_hold_iff q db).mpr fun r hr => ?_
  obtain ⟨hintact, hsignatures⟩ := verifyEntries_isValid_iff.mp valid
  have hmem : r ∈ inSequenceOrder db.auditLog :=
    (List.mem_insertionSort _).mpr (mem_of_mem_rows hr)
  obtain ⟨before, after, hsplit⟩ := List.append_of_mem hmem
  refine ⟨before, r, after, hsplit, rfl, ?_, hsignatures r hmem⟩
  rw [hsplit, ChainFormat.intact_append, ChainFormat.endDigest_eq_getLast?] at hintact
  exact hintact.2.1

end

/-! ## A description changed behind the application -/

def alteredLog : List AuditLogEntry :=
  [sampleRow 0 0 none firstHash "first event",
    sampleRow 1 0 (some firstHash) secondHash "nothing happened"]

/-- The row whose description no longer has the stored hash is shown as valid, and a verification
of the same state counts only the other one. -/
theorem altered_row_shown_valid :
    let db : Db := { emptyDb with auditLog := alteredLog }
    let q : ActivityQuery := { page := 1, pageSize := 20 }
    ((getActivity q).serial postgres db db 0).result.toOption.map
        (fun answer => answer.1.map fun item => (item.id, item.integrity)) =
      some [(1, "valid"), (0, "valid")] ∧
    (verifiedRows sha256Crypto alteredLog).map AuditLogEntry.id = [0] ∧
    (report sha256Crypto alteredLog).firstBreakSequence = some 2 ∧
    ¬ LabelsHold sha256Crypto q db := by
  intro db q
  have hcounted : (verifiedRows sha256Crypto alteredLog).map AuditLogEntry.id = [0] := by
    decide +kernel
  refine ⟨by decide +kernel, hcounted, by decide +kernel, fun hlabels => ?_⟩
  have hpage : ((getActivity q).serial postgres db db 0).result =
      .ok (alteredLog.reverse.map activityRead, 2) := by
    decide +kernel
  have hitem : activityRead (sampleRow 1 0 (some firstHash) secondHash "nothing happened") ∈
      alteredLog.reverse.map activityRead := List.mem_cons_self
  obtain ⟨r, hr, hid⟩ := hlabels 0 _ _ hpage _ hitem rfl
  have hmem := List.mem_map_of_mem (f := AuditLogEntry.id) hr
  rw [hcounted, hid] at hmem
  exact absurd hmem (by decide)

end NexusEngine.DashboardActivity
