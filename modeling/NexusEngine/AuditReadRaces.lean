import NexusEngine.SessionAnswers
import NexusEngine.GrowingPages
import NexusEngine.AuditForest
import NexusEngine.AuditLogPages

/-!
# Reading a log that grows

Every read of the log takes more than one query, and entries are committed in between. What a read
answers still fits together: it counts at least what was there when it began and shows only entries
that are there for good. Pages that are fetched one after the other leave out nothing.
-/

namespace NexusEngine.AuditReadRaces

open TransactionalRequests ReadCommittedSessions CalendarTime StoredColumns AuditLogTable Database
  AuditService AuditVerification AuditAppends AuditForest AuditedOperations SafeServices
  DashboardActivity AuditLogReads AuditLogPages RankedRows Paging GrowingPages

/-! ## Requests -/

structure HashChainSummary where
  totalEntries : ℕ
  rootHash : Option String
  signingKeyId : Option String
  lastVerifiedAt : Option Instant
  lastVerification : Option ChainVerificationResult

def getChainSummary : Service HashChainSummary := do
  let total ← Request.select fun db => db.auditLog.length
  let tail ← getTail
  return {
    totalEntries := total
    rootHash := tail.map AuditLogEntry.entryHash
    signingKeyId := tail.map AuditLogEntry.signingKeyId
    lastVerifiedAt := none
    lastVerification := none }

def getEntry (auditLogId : Uuid) : Service AuditLogEntryRead := do
  let entry ← Request.select fun db => db.auditLog.find? fun e => e.id = auditLogId
  let entry ← found entry (.http 404 "Audit entry not found")
  return entryToRead entry

structure IntegrityStatus where
  totalEntries : ℕ
  isValid : Bool
  verifiedCount : ℕ
  failedCount : ℕ
  firstBreakSequence : Option ℕ
  rootHash : Option String
  signingKeyId : Option String
  checkedAt : Instant

def getIntegrityStatus (crypto : AuditCrypto) (now : Instant) : Service IntegrityStatus := do
  let verification ← verifyChain crypto
  let tail ← getTail
  return {
    totalEntries := verification.verifiedCount + verification.failedCount
    isValid := verification.isValid
    verifiedCount := verification.verifiedCount
    failedCount := verification.failedCount
    firstBreakSequence := verification.firstBreakSequence
    rootHash := verification.rootHash
    signingKeyId := tail.map AuditLogEntry.signingKeyId
    checkedAt := now }

inductive AuditRead where
  | listEntries (ilike : String → String → Bool) (q : EntryQuery) (page pageSize : ℤ)
  | exportEntries (now : Instant) (q : ExportQuery)
  | getEntry (auditLogId : Uuid)
  | getChainSummary
  | getIntegrityStatus (now : Instant)

/-- What a read of the log answers, and what other requests do. -/
inductive AuditAnswer where
  | listed (entries : List AuditLogEntryRead) (total : ℕ)
  | exported (response : AuditExportResponse)
  | entry (read : AuditLogEntryRead)
  | summary (summary : HashChainSummary)
  | integrity (status : IntegrityStatus)
  | other

def AuditRead.request (crypto : AuditCrypto) : AuditRead → Service AuditAnswer
  | listEntries ilike q page pageSize => do
    let (entries, total) ← AuditLogReads.listEntries ilike q page pageSize
    return .listed entries total
  | exportEntries now q => do
    let response ← AuditLogReads.exportEntries now q
    return .exported response
  | getEntry auditLogId => do
    let read ← AuditReadRaces.getEntry auditLogId
    return .entry read
  | getChainSummary => do
    let summary ← AuditReadRaces.getChainSummary
    return .summary summary
  | getIntegrityStatus now => do
    let status ← AuditReadRaces.getIntegrityStatus crypto now
    return .integrity status

/-! ## What is read in between -/

/-- Sequence numbers are unique. -/
def Keyed (db : Db) : Prop := (db.auditLog.map AuditLogEntry.sequence).Nodup

theorem keyed_apply {w : Statement} {db db' : Db} (h : postgres.apply w db = some db')
    (hkeyed : Keyed db) : Keyed db' := by
  by_cases hw : NoEntry w
  · rw [Keyed, noEntry_log hw h]
    exact hkeyed
  · simp only [NoEntry, ne_eq, not_forall, not_not] at hw
    obtain ⟨entry, n, rfl⟩ := hw
    obtain ⟨row, -, hadmits, rfl⟩ := apply_insertAuditLogEntry.mp h
    simp only [admits, Bool.and_eq_true, List.all_eq_true, bne_iff_ne, ne_eq] at hadmits
    rw [Keyed, List.map_append, List.map_singleton, List.nodup_append]
    refine ⟨hkeyed, List.nodup_singleton _, ?_⟩
    intro n hn m hm
    obtain ⟨r, hr, rfl⟩ := List.mem_map.mp hn
    rw [List.mem_singleton.mp hm]
    exact (hadmits.1 r hr).1.2

/-- A state between two others in which something was read. -/
structure ReadIn (db view db' : Db) : Prop where
  keyed : Keyed view
  after : Includes db view
  before : Includes view db'

section

variable {db view db' : Db}

theorem ReadIn.later {db'' : Db} (h : ReadIn db view db') (hlater : Includes db' db'') :
    ReadIn db view db'' := ⟨h.keyed, h.after, List.Subset.trans h.before hlater⟩

/-- A request of one query answers from a state in between. -/
theorem safe_read {α : Type} (read : Db → α) :
    Safe postgres Includes Keyed (Includes db) (Request.select read) fun value mid =>
      ∃ view, ReadIn db view mid ∧ read view = value := by
  apply (Safe.select growth read).mono fun _ hk => hk
  intro value mid hread
  obtain ⟨view, hkeyed, hafter, hbefore, hvalue⟩ := hread
  exact ⟨view, ⟨hkeyed, hafter, hbefore⟩, hvalue⟩

/-- A second query answers from a state after the first one. -/
theorem safe_read_again {α β : Type} {first : Db → β} {b : β} (read : Db → α) :
    Safe postgres Includes Keyed (fun mid => ∃ view, ReadIn db view mid ∧ first view = b)
      (Request.select read) fun value mid => ∃ view view', ReadIn db view view' ∧
        ReadIn view view' mid ∧ first view = b ∧ read view' = value := by
  apply (Safe.select growth read).mono fun _ hk => hk
  intro value mid hread
  obtain ⟨view', hkeyed, ⟨view, hview, hfirst⟩, hbefore, hvalue⟩ := hread
  exact ⟨view, view', hview, ⟨hkeyed, hview.before, hbefore⟩, hfirst, hvalue⟩

end

/-! ## What is answered -/

/-- A page of a listing. -/
structure ListFaithful (ilike : String → String → Bool) (q : EntryQuery) (pageSize : ℤ)
    (db db' : Db) (entries : List AuditLogEntryRead) (total : ℕ) : Prop where
  atLeast : (matching ilike q db.auditLog).length ≤ total
  atMost : total ≤ (matching ilike q db'.auditLog).length
  shown : ∀ e ∈ entries, ∃ row ∈ matching ilike q db'.auditLog, entryToRead row = e
  sorted : entries.Pairwise fun e e' => e'.sequence < e.sequence
  size : entries.length ≤ pageSize.toNat

/-- An export. Where it is not cut off, it has every entry that was there when it began. -/
structure ExportFaithful (q : EntryQuery) (db db' : Db) (r : AuditExportResponse) : Prop where
  atLeast : (matching (fun _ _ => true) q db.auditLog).length ≤ r.total
  atMost : r.total ≤ (matching (fun _ _ => true) q db'.auditLog).length
  shown : ∀ e ∈ r.entries, ∃ row ∈ matching (fun _ _ => true) q db'.auditLog, entryToRead row = e
  sorted : r.entries.Pairwise fun e e' => e.sequence < e'.sequence
  returned : r.returned = r.entries.length
  truncated : r.truncated = true ↔ exportMaxRows < r.total
  complete : r.returned < exportMaxRows →
    ∀ row ∈ matching (fun _ _ => true) q db.auditLog, entryToRead row ∈ r.entries

/-- The hash and the key of the last entry at some time. -/
def TailBetween (db db' : Db) (rootHash signingKeyId : Option String) : Prop :=
  (db.auditLog = [] ∧ rootHash = none ∧ signingKeyId = none) ∨
    ∃ row ∈ db'.auditLog, rootHash = some row.entryHash ∧ signingKeyId = some row.signingKeyId ∧
      ∀ r ∈ db.auditLog, r.sequence ≤ row.sequence

structure SummaryFaithful (db db' : Db) (s : HashChainSummary) : Prop where
  atLeast : db.auditLog.length ≤ s.totalEntries
  atMost : s.totalEntries ≤ db'.auditLog.length
  tail : TailBetween db db' s.rootHash s.signingKeyId

/-- The status of the chain. A chain that is reported as valid was valid as far as it had come. -/
structure IntegrityFaithful (crypto : AuditCrypto) (db db' : Db) (s : IntegrityStatus) : Prop where
  atLeast : db.auditLog.length ≤ s.totalEntries
  atMost : s.totalEntries ≤ db'.auditLog.length
  counts : s.totalEntries = s.verifiedCount + s.failedCount
  valid : s.isValid = true ↔ s.failedCount = 0
  sound : s.isValid = true → ∀ row ∈ db.auditLog, SignatureVerifies crypto row ∧
    crypto.computeEntryHash row.prevHash (storedFields row) = row.entryHash
  firstBreak : ∀ n, s.firstBreakSequence = some n → s.isValid = false ∧
    ∃ row ∈ db'.auditLog, row.sequence = n

/-- The answer fits what was committed when the read began and when it was answered. -/
def Faithful (crypto : AuditCrypto) (db db' : Db) : AuditRead → AuditAnswer → Prop
  | .listEntries ilike q _ pageSize, .listed entries total =>
    ListFaithful ilike q pageSize db db' entries total
  | .exportEntries _ q, .exported response => ExportFaithful q.entries db db' response
  | .getEntry auditLogId, .entry read =>
    ∃ row ∈ db'.auditLog, row.id = auditLogId ∧ entryToRead row = read
  | .getChainSummary, .summary summary => SummaryFaithful db db' summary
  | .getIntegrityStatus _, .integrity status => IntegrityFaithful crypto db db' status
  | _, _ => False

section

variable {db view view' db' : Db} {ilike : String → String → Bool} {q : EntryQuery}

theorem matching_eq_filter (ilike : String → String → Bool) (q : EntryQuery) :
    ∃ p : AuditLogEntry → Bool, ∀ log, matching ilike q log = log.filter p := by
  cases hq : q.bind with
  | none => exact ⟨fun _ => false, fun log => by simp [matching, hq]⟩
  | some filter => exact ⟨filter.passes ilike, fun log => by simp [matching, hq]⟩

theorem Keyed.nodup (h : Keyed db) : db.auditLog.Nodup := h.of_map

theorem Keyed.matching (h : Keyed db) :
    ((matching ilike q db.auditLog).map AuditLogEntry.sequence).Nodup := by
  obtain ⟨p, hp⟩ := matching_eq_filter ilike q
  rw [hp]
  exact h.sublist (List.filter_sublist.map _)

theorem mem_matching (h : Includes db db') {row : AuditLogEntry}
    (hrow : row ∈ matching ilike q db.auditLog) : row ∈ matching ilike q db'.auditLog := by
  obtain ⟨p, hp⟩ := matching_eq_filter ilike q
  rw [hp, List.mem_filter] at hrow ⊢
  exact ⟨h hrow.1, hrow.2⟩

theorem length_matching (hkeyed : Keyed db) (h : Includes db db') :
    (matching ilike q db.auditLog).length ≤ (matching ilike q db'.auditLog).length := by
  obtain ⟨p, hp⟩ := matching_eq_filter ilike q
  rw [hp, hp]
  exact length_filter_le_of_subset hkeyed.nodup h p

theorem length_log (hkeyed : Keyed db) (h : Includes db db') :
    db.auditLog.length ≤ db'.auditLog.length :=
  (List.subperm_of_subset hkeyed.nodup h).length_le

theorem inSequenceOrder_sorted (log : List AuditLogEntry) :
    (inSequenceOrder log).Pairwise fun a b => a.sequence ≤ b.sequence :=
  List.pairwise_insertionSort _ log

theorem le_of_getLast? {log : List AuditLogEntry} {last row : AuditLogEntry}
    (hlast : (inSequenceOrder log).getLast? = some last) (hrow : row ∈ log) :
    row.sequence ≤ last.sequence := by
  obtain ⟨front, hfront⟩ := List.getLast?_eq_some_iff.mp hlast
  have hsorted := inSequenceOrder_sorted log
  rw [hfront, List.pairwise_append] at hsorted
  have hmem : row ∈ front ++ [last] := hfront ▸ mem_inSequenceOrder.mpr hrow
  rcases List.mem_append.mp hmem with hmem | hmem
  · exact hsorted.2.2 row hmem last List.mem_cons_self
  · rw [List.mem_singleton.mp hmem]

/-- The tail that is read is the last entry of its state. -/
theorem ReadIn.tail (h : ReadIn db view db') :
    TailBetween db db' ((inSequenceOrder view.auditLog).getLast?.map AuditLogEntry.entryHash)
      ((inSequenceOrder view.auditLog).getLast?.map AuditLogEntry.signingKeyId) := by
  cases hlast : (inSequenceOrder view.auditLog).getLast? with
  | none =>
    left
    rw [List.getLast?_eq_none_iff] at hlast
    have hempty : db.auditLog = [] := by
      apply List.eq_nil_iff_forall_not_mem.mpr
      intro r hr
      have hmem := mem_inSequenceOrder.mpr (h.after hr)
      rw [hlast] at hmem
      cases hmem
    exact ⟨hempty, rfl, rfl⟩
  | some row =>
    right
    have hrow : row ∈ inSequenceOrder view.auditLog := List.mem_of_getLast? hlast
    refine ⟨row, h.before (mem_inSequenceOrder.mp hrow), rfl, rfl, ?_⟩
    intro r hr
    exact le_of_getLast? hlast (h.after hr)

/-! ### From what was read -/

/-- What was counted in between. -/
theorem matching_between (hkeyed : Keyed db) (h : ReadIn db view db') :
    (matching ilike q db.auditLog).length ≤ (matching ilike q view.auditLog).length ∧
      (matching ilike q view.auditLog).length ≤ (matching ilike q db'.auditLog).length :=
  ⟨length_matching hkeyed h.after, length_matching h.keyed h.before⟩

/-- What was shown is there for good. -/
theorem shown_of_subset (h : ReadIn db view db') {rows : List AuditLogEntry}
    (hrows : rows ⊆ matching ilike q view.auditLog) :
    ∀ e ∈ rows.map entryToRead, ∃ row ∈ matching ilike q db'.auditLog, entryToRead row = e := by
  intro e he
  obtain ⟨row, hrow, rfl⟩ := List.mem_map.mp he
  exact ⟨row, mem_matching h.before (hrows hrow), rfl⟩

variable (ilike q) in
theorem listFaithful (hkeyed : Keyed db) (h : ReadIn db view view') (h' : ReadIn view view' db')
    (offset size : ℤ) :
    ListFaithful ilike q size db db'
      ((((fromLargest AuditLogEntry.sequence (matching ilike q view'.auditLog)).drop
        offset.toNat).take size.toNat).map entryToRead)
      (matching ilike q view.auditLog).length where
  atLeast := (matching_between hkeyed (h.later h'.before)).1
  atMost := (matching_between hkeyed (h.later h'.before)).2
  shown := by
    apply shown_of_subset h'
    intro row hrow
    exact mem_fromLargest.mp (List.mem_of_mem_drop (List.mem_of_mem_take hrow))
  sorted := by
    rw [List.pairwise_map]
    exact (fromLargest_strict h'.keyed.matching).sublist
      ((List.take_sublist _ _).trans (List.drop_sublist _ _))
  size := by simp

theorem exportFaithful (hkeyed : Keyed db) (h : ReadIn db view view') (h' : ReadIn view view' db')
    {r : AuditExportResponse}
    (hentries : r.entries = ((inSequenceOrder (matching (fun _ _ => true) q
      view'.auditLog)).take exportMaxRows).map entryToRead)
    (htotal : r.total = (matching (fun _ _ => true) q view.auditLog).length)
    (hreturned : r.returned = r.entries.length)
    (htruncated : r.truncated = decide (r.returned < r.total)) : ExportFaithful q db db' r where
  atLeast := htotal ▸ (matching_between hkeyed (h.later h'.before)).1
  atMost := htotal ▸ (matching_between hkeyed (h.later h'.before)).2
  shown := by
    rw [hentries]
    apply shown_of_subset h'
    intro row hrow
    exact mem_inSequenceOrder.mp (List.mem_of_mem_take hrow)
  sorted := by
    have hnodup : ((inSequenceOrder (matching (fun _ _ => true) q view'.auditLog)).map
        AuditLogEntry.sequence).Nodup :=
      ((List.perm_insertionSort _ _).map _).nodup_iff.mpr h'.keyed.matching
    rw [List.Nodup, List.pairwise_map] at hnodup
    rw [hentries, List.pairwise_map]
    apply List.Pairwise.sublist (List.take_sublist _ _)
    exact (inSequenceOrder_sorted _).imp₂ (fun _ _ hle hne => lt_of_le_of_ne hle hne) hnodup
  returned := hreturned
  truncated := by
    have hlength : (inSequenceOrder (matching (fun _ _ => true) q view'.auditLog)).length =
        (matching (fun _ _ => true) q view'.auditLog).length :=
      (List.perm_insertionSort _ _).length_eq
    have hmore : (matching (fun _ _ => true) q view.auditLog).length ≤
        (matching (fun _ _ => true) q view'.auditLog).length := length_matching h.keyed h'.after
    rw [htruncated, decide_eq_true_eq, hreturned, hentries, List.length_map, List.length_take,
      hlength, htotal]
    omega
  complete := by
    intro hshort row hrow
    rw [hreturned, hentries, List.length_map, List.length_take] at hshort
    rw [hentries, List.take_of_length_le (by omega)]
    apply List.mem_map_of_mem
    exact mem_inSequenceOrder.mpr (mem_matching h'.after (mem_matching h.after hrow))

theorem summaryFaithful (hkeyed : Keyed db) (h : ReadIn db view view') (h' : ReadIn view view' db')
    (lastVerifiedAt : Option Instant) (lastVerification : Option ChainVerificationResult) :
    SummaryFaithful db db'
      { totalEntries := view.auditLog.length
        rootHash := (inSequenceOrder view'.auditLog).getLast?.map AuditLogEntry.entryHash
        signingKeyId := (inSequenceOrder view'.auditLog).getLast?.map AuditLogEntry.signingKeyId
        lastVerifiedAt := lastVerifiedAt
        lastVerification := lastVerification } where
  atLeast := length_log hkeyed h.after
  atMost := length_log h.keyed (h.later h'.before).before
  tail := by
    have hlater : ReadIn db view' db' := ⟨h'.keyed, List.Subset.trans h.after h'.after, h'.before⟩
    exact hlater.tail

theorem length_verdicts {crypto : AuditCrypto} (before : Option String)
    (entries : List AuditLogEntry) : (verdicts crypto before entries).length = entries.length := by
  induction entries generalizing before with
  | nil => rfl
  | cons e es ih => rw [verdicts, List.length_cons, List.length_cons, ih]

/-- In an intact chain every row has the hash of its fields. -/
theorem computed_of_intact {crypto : AuditCrypto} {before : Option String}
    {entries : List AuditLogEntry} (h : (storedChain crypto).Intact before entries) :
    ∀ row ∈ entries, crypto.computeEntryHash row.prevHash (storedFields row) = row.entryHash := by
  induction entries generalizing before with
  | nil => simp
  | cons e es ih =>
    obtain ⟨⟨hhash, hprev⟩, hrest⟩ := h
    intro row hrow
    rcases List.mem_cons.mp hrow with rfl | hrow
    · change row.prevHash = before at hprev
      rw [hprev]
      exact hhash
    · exact ih hrest row hrow

theorem integrityFaithful {crypto : AuditCrypto} (hkeyed : Keyed db) (h : ReadIn db view db')
    (signingKeyId : Option String) (now : Instant) :
    IntegrityFaithful crypto db db'
      { totalEntries := (report crypto view.auditLog).verifiedCount +
          (report crypto view.auditLog).failedCount
        isValid := (report crypto view.auditLog).isValid
        verifiedCount := (report crypto view.auditLog).verifiedCount
        failedCount := (report crypto view.auditLog).failedCount
        firstBreakSequence := (report crypto view.auditLog).firstBreakSequence
        rootHash := (report crypto view.auditLog).rootHash
        signingKeyId := signingKeyId
        checkedAt := now } := by
  have hsorted : (inSequenceOrder view.auditLog).length = view.auditLog.length :=
    (List.perm_insertionSort _ _).length_eq
  have hcount : (report crypto view.auditLog).verifiedCount +
      (report crypto view.auditLog).failedCount = view.auditLog.length := by
    rw [report, verifyEntries_eq, List.count_true_add_count_false, length_verdicts, hsorted]
  constructor
  case atLeast => exact hcount ▸ length_log hkeyed h.after
  case atMost => exact hcount ▸ length_log h.keyed h.before
  case counts => rfl
  case valid => simp [report, verifyEntries]
  case sound =>
    intro hvalid row hrow
    obtain ⟨hintact, hsigned⟩ := verifyEntries_isValid_iff.mp hvalid
    have hmem := mem_inSequenceOrder.mpr (h.after hrow)
    exact ⟨hsigned row hmem, computed_of_intact hintact row hmem⟩
  case firstBreak =>
    intro n hbreak
    simp only [report, verifyEntries_eq, Option.map_eq_some_iff] at hbreak
    obtain ⟨e, hfind, rfl⟩ := hbreak
    have hmem := List.of_mem_zip (List.mem_of_find?_eq_some hfind)
    have hfailed : e.2 = false := by simpa using List.find?_some hfind
    have hpositive := List.count_pos_iff.mpr (hfailed ▸ hmem.2)
    refine ⟨?_, e.1, h.before (mem_inSequenceOrder.mp hmem.1), rfl⟩
    simp only [report, verifyEntries_eq, beq_eq_false_iff_ne]
    omega

end

/-! ### The requests -/

section

variable {crypto : AuditCrypto} {db : Db}

/-- A condition of a query does not change what is known. -/
theorem safe_condition {K : Db → Prop} {c : Prop} [Decidable c] {error : ServiceError} :
    Safe postgres Includes Keyed K (ensure c error) fun _ => K :=
  (safe_ensure growth).mono (fun _ hk => hk) fun _ _ hk => hk.1

/-- A listing counts in one state and shows a page of a later one. -/
theorem listEntries_reads (ilike : String → String → Bool) (q : EntryQuery) (page pageSize : ℤ) :
    Safe postgres Includes Keyed (Includes db) (listEntries ilike q page pageSize)
      fun answer mid => ∃ view view', ReadIn db view view' ∧ ReadIn view view' mid ∧
        answer.1 = (((fromLargest AuditLogEntry.sequence (matching ilike q view'.auditLog)).drop
          ((page - 1) * pageSize).toNat).take pageSize.toNat).map entryToRead ∧
        answer.2 = (matching ilike q view.auditLog).length := by
  apply (safe_found growth).bind growth
  intro filter
  apply Safe.fact growth
  intro hfilter
  apply safe_condition.bind growth
  intro _
  apply (safe_read _).bind growth
  intro total
  apply safe_condition.bind growth
  intro _
  apply (safe_read_again _).bind growth
  intro entries
  apply Safe.done growth
  intro mid hread
  obtain ⟨view, view', h, h', rfl, rfl⟩ := hread
  refine ⟨view, view', h, h', ?_⟩
  simp only [matching, hfilter]
  exact ⟨rfl, trivial⟩

theorem listEntries_faithful (hkeyed : Keyed db) (ilike : String → String → Bool)
    (q : EntryQuery) (page pageSize : ℤ) :
    Safe postgres Includes Keyed (Includes db) (listEntries ilike q page pageSize)
      fun answer mid => ListFaithful ilike q pageSize db mid answer.1 answer.2 := by
  apply (listEntries_reads ilike q page pageSize).mono fun _ hk => hk
  intro answer mid hread
  obtain ⟨view, view', h, h', hentries, htotal⟩ := hread
  rw [hentries, htotal]
  exact listFaithful ilike q hkeyed h h' _ _

theorem exportEntries_faithful (hkeyed : Keyed db) (now : Instant) (q : ExportQuery) :
    Safe postgres Includes Keyed (Includes db) (exportEntries now q)
      fun answer mid => ExportFaithful q.entries db mid answer := by
  apply (safe_found growth).bind growth
  intro filter
  apply Safe.fact growth
  intro hfilter
  apply safe_condition.bind growth
  intro _
  apply (safe_read _).bind growth
  intro total
  apply (safe_read_again _).bind growth
  intro entries
  apply Safe.done growth
  intro mid hread
  obtain ⟨view, view', h, h', rfl, rfl⟩ := hread
  apply exportFaithful hkeyed h h'
  · simp only [matching, hfilter]
  · simp only [matching, hfilter]
  · simp only [List.length_map]
  · rfl

theorem getEntry_faithful (auditLogId : Uuid) :
    Safe postgres Includes Keyed (Includes db) (getEntry auditLogId) fun answer mid =>
      ∃ row ∈ mid.auditLog, row.id = auditLogId ∧ entryToRead row = answer := by
  apply (safe_read _).bind growth
  intro found
  apply (safe_found growth).bind growth
  intro row
  apply Safe.done growth
  intro mid hread
  obtain ⟨⟨view, h, rfl⟩, hrow⟩ := hread
  exact ⟨row, h.before (List.mem_of_find?_eq_some hrow), by simpa using List.find?_some hrow, rfl⟩

theorem getChainSummary_faithful (hkeyed : Keyed db) :
    Safe postgres Includes Keyed (Includes db) getChainSummary
      fun answer mid => SummaryFaithful db mid answer := by
  apply (safe_read _).bind growth
  intro total
  apply (safe_read_again _).bind growth
  intro tail
  apply Safe.done growth
  intro mid hread
  obtain ⟨view, view', h, h', rfl, rfl⟩ := hread
  exact summaryFaithful hkeyed h h' none none

theorem getIntegrityStatus_faithful (hkeyed : Keyed db) (now : Instant) :
    Safe postgres Includes Keyed (Includes db) (getIntegrityStatus crypto now)
      fun answer mid => IntegrityFaithful crypto db mid answer := by
  have hverify : Safe postgres Includes Keyed (Includes db) (verifyChain crypto)
      fun verification mid => ∃ view, ReadIn db view mid ∧
        verification = report crypto view.auditLog := by
    apply (safe_read _).bind growth
    intro entries
    apply Safe.done growth
    intro mid hread
    obtain ⟨view, h, rfl⟩ := hread
    exact ⟨view, h, rfl⟩
  apply hverify.bind growth
  intro verification
  apply (Safe.of_readsOnly growth _ (Request.readsOnly_select _)).bind growth
  · intro tail
    apply Safe.done growth
    intro mid hread
    obtain ⟨view, h, rfl⟩ := hread
    exact integrityFaithful hkeyed h _ now
  · intro a b hab hread
    obtain ⟨view, h, hverification⟩ := hread
    exact ⟨view, h.later hab, hverification⟩

theorem request_faithful (hkeyed : Keyed db) (r : AuditRead) :
    Safe postgres Includes Keyed (Includes db) (r.request crypto)
      fun answer mid => Faithful crypto db mid r answer := by
  cases r with
  | listEntries ilike q page pageSize =>
    exact (listEntries_faithful hkeyed ilike q page pageSize).answer growth
  | exportEntries now q => exact (exportEntries_faithful hkeyed now q).answer growth
  | getEntry auditLogId => exact (getEntry_faithful auditLogId).answer growth
  | getChainSummary => exact (getChainSummary_faithful hkeyed).answer growth
  | getIntegrityStatus now => exact (getIntegrityStatus_faithful hkeyed now).answer growth

theorem request_readsOnly (r : AuditRead) : (r.request crypto).ReadsOnly := by
  have hread : ∀ {α : Type} (read : Db → α), (Request.select read : Service α).ReadsOnly :=
    fun read => Request.readsOnly_select read
  cases r with
  | listEntries ilike q page pageSize =>
    apply readsOnly_answer
    apply (found_readsOnly _ _).bind
    intro filter
    apply (ensure_readsOnly _ _).bind
    intro _
    apply (hread _).bind
    intro _
    apply (ensure_readsOnly _ _).bind
    intro _
    exact readsOnly_answer (hread _)
  | exportEntries now q =>
    apply readsOnly_answer
    apply (found_readsOnly _ _).bind
    intro filter
    apply (ensure_readsOnly _ _).bind
    intro _
    apply (hread _).bind
    intro _
    exact readsOnly_answer (hread _)
  | getEntry auditLogId =>
    apply readsOnly_answer
    apply (hread _).bind
    intro _
    exact readsOnly_answer (found_readsOnly _ _)
  | getChainSummary =>
    apply readsOnly_answer
    apply (hread _).bind
    intro _
    exact readsOnly_answer (hread _)
  | getIntegrityStatus now =>
    apply readsOnly_answer
    apply (readsOnly_answer (hread _)).bind
    intro _
    exact readsOnly_answer (hread _)

end

/-! ## Interleavings -/

section

variable {crypto : AuditCrypto} {σ σ' : Server Db Statement ServiceError AuditAnswer} {i : ℕ}

/-- Whatever other sessions do while a read of the log goes on, its answer fits what was committed
when it began and when it was answered: it counts no less than the one and no more than the other,
shows only rows of the log, in order, and all of those of the one where an export is not cut off,
and reports a chain as valid only if the rows of the one are. -/
theorem reads_faithful {r : AuditRead} (hkeyed : Keyed σ.committed)
    (begins : σ.sessions[i]? = some ⟨[], r.request crypto⟩)
    (run : Server.Reaches postgres (fun _ _ => True) σ σ') {pending : List Statement}
    {answer : AuditAnswer} (ends : σ'.sessions[i]? = some ⟨pending, .done answer⟩) :
    Faithful crypto σ.committed σ'.committed r answer :=
  (run.answered growth (fun _ _ _ => keyed_apply) (request_faithful hkeyed r)
    (settles_of_readsOnly (request_readsOnly r)) hkeyed begins ends).2.2.2

end

/-- Two requests for the pages of a log of two entries. -/
def sampleReading : Server Db Statement ServiceError AuditAnswer :=
  start { emptyDb with auditLog := alteredLog } 1
    ([AuditRead.listEntries (fun _ _ => true) {} (0 + 1 : ℕ) 2,
      .listEntries (fun _ _ => true) {} (0 + 1 + 1 : ℕ) 2].map
      (AuditRead.request sampleCrypto))

theorem sampleReading_keyed : Keyed sampleReading.committed := by
  unfold Keyed
  decide

/-- The second page is empty. -/
theorem sampleReading_runs : ∃ σ σ' entries,
    sampleReading.run postgres (fun _ _ => true) [.run 0, .run 0] = some σ ∧
    σ.run postgres (fun _ _ => true) [.run 1, .run 1] = some σ' ∧
    σ.sessions[0]? = some ⟨[], .done (.listed entries 2)⟩ ∧
    σ.sessions[1]? = some ⟨[], (AuditRead.listEntries (fun _ _ => true) {} (0 + 1 + 1 : ℕ)
      2).request sampleCrypto⟩ ∧
    σ'.sessions[1]? = some ⟨[], .done (.listed [] 2)⟩ := ⟨_, _, _, rfl, rfl, rfl, rfl, rfl⟩

theorem reads_faithful_sample :
    ∃ (σ : Server Db Statement ServiceError AuditAnswer) (entries : List AuditLogEntryRead),
      Faithful sampleCrypto sampleReading.committed σ.committed
        (.listEntries (fun _ _ => true) {} (0 + 1 : ℕ) 2) (.listed entries 2) := by
  obtain ⟨σ₁, _, entries, hfirst, -, hread, -, -⟩ := sampleReading_runs
  exact ⟨σ₁, entries, reads_faithful sampleReading_keyed rfl
    (Server.Reaches.of_run (fun _ _ _ => trivial) .refl hfirst) hread⟩

/-! ### Page after page -/

section

variable {crypto : AuditCrypto} {σ σ' : Server Db Statement ServiceError AuditAnswer} {i : ℕ}

/-- The pages of a listing from the page `k + 1` on, fetched one after the other by requests that
may run in any sessions, among others. -/
inductive Fetches (crypto : AuditCrypto) (ilike : String → String → Bool) (q : EntryQuery)
    (size : ℕ) : ℕ → Server Db Statement ServiceError AuditAnswer →
      List (List AuditLogEntryRead) → Server Db Statement ServiceError AuditAnswer → Prop where
  | done {k : ℕ} {σ : Server Db Statement ServiceError AuditAnswer} :
    Fetches crypto ilike q size k σ [] σ
  | page {k i : ℕ} {σ σ₁ σ₂ σ₃ : Server Db Statement ServiceError AuditAnswer}
      {pending : List Statement} {entries : List AuditLogEntryRead} {total : ℕ}
      {pages : List (List AuditLogEntryRead)}
      (before : Server.Reaches postgres (fun _ _ => True) σ σ₁)
      (begins : σ₁.sessions[i]? =
        some ⟨[], (AuditRead.listEntries ilike q (k + 1 : ℕ) size).request crypto⟩)
      (run : Server.Reaches postgres (fun _ _ => True) σ₁ σ₂)
      (ends : σ₂.sessions[i]? = some ⟨pending, .done (.listed entries total)⟩)
      (rest : Fetches crypto ilike q size (k + 1) σ₂ pages σ₃) :
    Fetches crypto ilike q size k σ (entries :: pages) σ₃

/-- Sequence numbers stay unique. -/
theorem keyed_reaches (run : Server.Reaches postgres (fun _ _ => True) σ σ')
    (hkeyed : Keyed σ.committed) : Keyed σ'.committed :=
  run.keeps (fun _ _ _ => keyed_apply) hkeyed

variable {ilike : String → String → Bool} {q : EntryQuery} {size k : ℕ}

/-- What a request for a page answers. -/
theorem page_answered (hkeyed : Keyed σ.committed)
    (begins : σ.sessions[i]? =
      some ⟨[], (AuditRead.listEntries ilike q (k + 1 : ℕ) size).request crypto⟩)
    (run : Server.Reaches postgres (fun _ _ => True) σ σ') {pending : List Statement}
    {entries : List AuditLogEntryRead} {total : ℕ}
    (ends : σ'.sessions[i]? = some ⟨pending, .done (.listed entries total)⟩) :
    ∃ view, ReadIn σ.committed view σ'.committed ∧ entries = (page (fromLargest
      AuditLogEntry.sequence (matching ilike q view.auditLog)) size k).map entryToRead := by
  have hsafe : Safe postgres Includes Keyed (Includes σ.committed)
      ((AuditRead.listEntries ilike q (k + 1 : ℕ) size).request crypto) fun answer mid =>
        ∀ entries total, answer = .listed entries total →
          ∃ view, ReadIn σ.committed view mid ∧ entries = (page (fromLargest
            AuditLogEntry.sequence (matching ilike q view.auditLog)) size k).map entryToRead := by
    apply (listEntries_reads ilike q (k + 1 : ℕ) size).bind growth
    intro answer
    apply Safe.done growth
    intro mid hread entries total hanswer
    obtain ⟨view, view', h, h', hentries, -⟩ := hread
    cases hanswer
    rw [offset_succ, Int.toNat_natCast, Int.toNat_natCast] at hentries
    exact ⟨view', ⟨h'.keyed, List.Subset.trans h.after h'.after, h'.before⟩, hentries⟩
  exact (run.answered growth (fun _ _ _ => keyed_apply) hsafe
    (settles_of_readsOnly (request_readsOnly _)) hkeyed begins ends).2.2.2 entries total rfl

/-- What is fetched from a page on, up to an empty one, has every row that lies there. -/
theorem Fetches.complete {pages : List (List AuditLogEntryRead)}
    (h : Fetches crypto ilike q size k σ pages σ') (hsize : 0 < size)
    (hkeyed : Keyed σ.committed) (hlast : pages.getLast? = some []) {row : AuditLogEntry}
    (hrow : row ∈ matching ilike q σ.committed.auditLog)
    (hfrom : k * size ≤ above AuditLogEntry.sequence (matching ilike q σ.committed.auditLog) row) :
    entryToRead row ∈ pages.flatten := by
  induction h with
  | done => cases hlast
  | @page k i σ σ₁ σ₂ σ₃ pending entries total pages before begins run ends rest ih =>
    have hkeyed₁ := keyed_reaches before hkeyed
    obtain ⟨view, hview, hentries⟩ := page_answered hkeyed₁ begins run ends
    -- the row is still there when the page is read, and no fewer rows are above it
    have hafter : Includes σ.committed view :=
      List.Subset.trans (growth.reaches before) hview.after
    have hrow' := mem_matching hafter hrow
    have hmore : ∀ {a b : Db}, Keyed a → Includes a b →
        above AuditLogEntry.sequence (matching ilike q a.auditLog) row ≤
          above AuditLogEntry.sequence (matching ilike q b.auditLog) row :=
      fun ha hab => above_mono ha.matching.of_map fun _ hr => mem_matching hab hr
    have hfrom' := hfrom.trans (hmore hkeyed hafter)
    rw [List.flatten_cons, List.mem_append]
    rcases mem_page_or_beyond hview.keyed.matching hrow' hfrom' with hpage | hbeyond
    · left
      rw [hentries]
      exact List.mem_map_of_mem hpage
    · right
      cases pages with
      | nil =>
        -- the last page would be empty, and the row lies there or behind it
        have hempty : entries = [] := by simpa using hlast
        rw [hentries, List.map_eq_nil_iff] at hempty
        exact absurd hempty (page_ne_nil hsize hrow' hfrom')
      | cons p pages =>
        apply ih (keyed_reaches run hkeyed₁) (by simpa using hlast)
          (mem_matching hview.before hrow')
        exact hbeyond.trans (hmore hview.keyed hview.before)

/-- Pages that are fetched one after the other while the log grows, up to an empty one, leave out no
entry that was there when the first one was asked for. -/
theorem pages_skip_nothing {pages : List (List AuditLogEntryRead)} (hsize : 1 ≤ size)
    (hkeyed : Keyed σ.committed) (h : Fetches crypto ilike q size 0 σ pages σ')
    (hlast : pages.getLast? = some []) :
    ∀ row ∈ matching ilike q σ.committed.auditLog, entryToRead row ∈ pages.flatten := by
  intro row hrow
  apply h.complete hsize hkeyed hlast hrow
  simp

end

theorem pages_skip_nothing_sample : ∃ pages σ,
    Fetches sampleCrypto (fun _ _ => true) {} 2 0 sampleReading pages σ ∧
      ∀ row ∈ alteredLog, entryToRead row ∈ pages.flatten := by
  obtain ⟨σ₁, σ₂, entries, hfirst, hsecond, hread, hidle, hempty⟩ := sampleReading_runs
  have hpages : Fetches sampleCrypto (fun _ _ => true) {} 2 0 sampleReading [entries, []] σ₂ :=
    .page .refl rfl (Server.Reaches.of_run (fun _ _ _ => trivial) .refl hfirst) hread
      (.page .refl hidle (Server.Reaches.of_run (fun _ _ _ => trivial) .refl hsecond) hempty .done)
  have hskip := pages_skip_nothing (by decide) sampleReading_keyed hpages rfl
  have hall : matching (fun _ _ => true) {} sampleReading.committed.auditLog = alteredLog := rfl
  rw [hall] at hskip
  exact ⟨_, σ₂, hpages, hskip⟩

end NexusEngine.AuditReadRaces
