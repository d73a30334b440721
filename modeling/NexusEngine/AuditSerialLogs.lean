import NexusEngine.AuditAppends
import Mathlib.Data.Bool.Count

/-!
# Logs of serial runs

Transactions that append run one after the other; some commit and some give up, so that the
sequence numbers have gaps. The rows that stay form a hash chain over the payloads they were
appended with. Against that chain the verifier finds every changed row and nothing else, and
every deletion that leaves a later row, provided the rows are stored as they were hashed.
-/

namespace NexusEngine.AuditSerialLogs

open TransactionalRequests TextEncodings JsonDocuments CalendarTime StoredColumns
  AuditLogTable Database HashChains AuditService AuditVerification AuditAppends

abbrev Append := AppendEnv × AuditLogEntryCreate

/-- The chain over what was hashed, for rows paired with their appends. -/
def payloadChain (crypto : AuditCrypto) :
    ChainFormat (Append × AuditLogEntry) EntryFields String where
  prev e := e.2.prevHash
  digest e := e.2.entryHash
  content e := normalFields (payloadFields e.1.1.now e.1.2)
  hash before e := crypto.computeEntryHash before (payloadFields e.1.1.now e.1.2)

theorem payloadChain_binding {crypto : AuditCrypto} (sha : Function.Injective crypto.sha256) :
    (payloadChain crypto).Binding := fun _ _ _ _ h => (computeEntryHash_inj sha).mp h

/-- `log` is what the appends in `entries` have left, with all numbers below `next`. -/
structure SerialLog (crypto : AuditCrypto) (entries : List (Append × AuditLogEntry))
    (log : List AuditLogEntry) (next : ℕ) : Prop where
  rows : log = entries.map Prod.snd
  intact : (payloadChain crypto).Intact none entries
  appended : ∀ e ∈ entries, ∃ before n, AppendedAs crypto e.1.1 e.1.2 before n e.2
  ordered : log.Pairwise fun r r' => r.sequence < r'.sequence
  below : ∀ r ∈ log, r.sequence < next

theorem inSequenceOrder_of_ordered {log : List AuditLogEntry}
    (h : log.Pairwise fun r r' => r.sequence < r'.sequence) : inSequenceOrder log = log :=
  (h.imp fun hlt => Nat.le_of_lt hlt).insertionSort_eq

section

variable {crypto : AuditCrypto}

theorem serialLog_nil (next : ℕ) : SerialLog crypto [] [] next :=
  ⟨rfl, trivial, (fun _ h => nomatch h), List.Pairwise.nil, (fun _ h => nomatch h)⟩

theorem SerialLog.tailHash {entries : List (Append × AuditLogEntry)} {log : List AuditLogEntry}
    {next : ℕ} (h : SerialLog crypto entries log next) :
    tailHash log = (payloadChain crypto).endDigest none entries := by
  rw [AuditAppends.tailHash, inSequenceOrder_of_ordered h.ordered,
    ChainFormat.endDigest_eq_getLast?, h.rows, List.getLast?_map, Option.map_map]
  rfl

theorem SerialLog.later {entries : List (Append × AuditLogEntry)} {log : List AuditLogEntry}
    {next next' : ℕ} (h : SerialLog crypto entries log next) (hle : next ≤ next') :
    SerialLog crypto entries log next' :=
  { h with below := fun r hr => Nat.lt_of_lt_of_le (h.below r hr) hle }

/-- The step lemma: one more append. -/
theorem SerialLog.append {entries : List (Append × AuditLogEntry)} {log : List AuditLogEntry}
    {n : ℕ} {env : AppendEnv} {payload : AuditLogEntryCreate} {row : AuditLogEntry}
    (h : SerialLog crypto entries log n)
    (ha : AppendedAs crypto env payload (AuditAppends.tailHash log) n row) :
    SerialLog crypto (entries ++ [((env, payload), row)]) (log ++ [row]) (n + 1) := by
  have hprev : row.prevHash = AuditAppends.tailHash log := by
    refine ha.prevHash_eq fun r hr => ?_
    rw [h.rows] at hr
    obtain ⟨e, he, rfl⟩ := List.mem_map.mp hr
    obtain ⟨before, m, hold⟩ := h.appended e he
    exact hold.entryHash_length
  refine ⟨?_, ?_, ?_, ?_, ?_⟩
  · rw [List.map_append, h.rows]
    rfl
  · rw [ChainFormat.intact_concat, ← h.tailHash]
    exact ⟨h.intact, ha.entryHash.symm, hprev⟩
  · intro e he
    rcases List.mem_append.mp he with he | he
    · exact h.appended e he
    · rw [List.mem_singleton.mp he]
      exact ⟨_, _, ha⟩
  · rw [List.pairwise_append]
    refine ⟨h.ordered, List.pairwise_singleton _ _, fun r hr r' hr' => ?_⟩
    rw [List.mem_singleton.mp hr', ha.sequence]
    exact h.below r hr
  · intro r hr
    rcases List.mem_append.mp hr with hr | hr
    · exact Nat.lt_succ_of_lt (h.below r hr)
    · rw [List.mem_singleton.mp hr, ha.sequence]
      exact Nat.lt_succ_self n

/-! ## Runs -/

/-- The run lemma of the appends of one transaction. -/
theorem appendAll_run (appends : List Append) {entries : List (Append × AuditLogEntry)}
    {durable work : Db} {n : ℕ} (h : SerialLog crypto entries work.auditLog n) :
    (appendAll crypto appends).wp postgres (fun result durable' work' k =>
      durable' = durable ∧ n ≤ k ∧ (result = .ok () → ∃ entries', entries'.map Prod.fst = appends ∧
        SerialLog crypto (entries ++ entries') work'.auditLog k)) durable work n := by
  induction appends generalizing entries work n with
  | nil =>
    rw [appendAll, Request.pure_eq, Request.wp_done]
    exact ⟨rfl, Nat.le_refl n, fun _ => ⟨[], rfl, by simpa using h⟩⟩
  | cons a as ih =>
    rw [appendAll, Request.wp_bind]
    refine appendEntryInTransaction_wp ?_ ?_
    · exact fun error k hk => ⟨rfl, hk, fun hok => nomatch hok⟩
    · intro sent row hsent ha _
      cases hsent
      refine Request.wp_mono (ih (h.append ha)) ?_
      rintro result durable' work' k ⟨hdurable, hk, hok⟩
      refine ⟨hdurable, by omega, fun hresult => ?_⟩
      obtain ⟨entries', hfst, hlog⟩ := hok hresult
      exact ⟨(a, row) :: entries', by simp [hfst], by simpa using hlog⟩

/-- A transaction leaves its appends in the log or leaves the log alone. -/
theorem transaction_run (t : AppendTransaction) {entries : List (Append × AuditLogEntry)}
    {db : Db} {n : ℕ} (h : SerialLog crypto entries db.auditLog n) :
    (t.request crypto).wp postgres (fun result durable' _ k =>
      match result with
      | .ok _ => ∃ entries', entries'.map Prod.fst = t.appends ∧
          SerialLog crypto (entries ++ entries') durable'.auditLog k
      | .error _ => durable' = db ∧ n ≤ k) db db n := by
  cases t with
  | standalone env payload =>
    simp only [AppendTransaction.request, appendEntry]
    rw [Request.wp_bind, Request.wp_bind]
    refine appendEntryInTransaction_wp ?_ ?_
    · exact fun error k hk => ⟨rfl, hk⟩
    · intro sent row hsent ha hadmits
      cases hsent
      have hfind := find?_append_row hadmits
      simp only [Request.commitTransaction, Request.select, Request.commit_bind, Request.done_bind,
        Request.query_bind, Request.wp_commit, Request.wp_query]
      rw [hfind]
      simp only [Request.pure_eq, Request.wp_done]
      exact ⟨[((env, payload), row)], rfl, h.append ha⟩
  | within appends commits =>
    simp only [AppendTransaction.request]
    rw [Request.wp_bind]
    refine Request.wp_mono (appendAll_run appends h) ?_
    rintro (error | ⟨⟩) durable' work' k ⟨rfl, hk, hok⟩
    · exact ⟨rfl, hk⟩
    · cases commits with
      | false =>
        simp only [Bool.false_eq_true, ↓reduceIte, Request.wp_raise]
        exact ⟨trivial, hk⟩
      | true =>
        rw [if_pos rfl]
        exact Request.wp_commitTransaction (hok rfl)

/-- The appends of a run whose transactions committed, in order. -/
def committedAppends (crypto : AuditCrypto) : Store Db → List AppendTransaction → List Append
  | _, [] => []
  | s, t :: ts =>
    (match ((t.request crypto).serial postgres s.db s.db s.sequence).result with
      | .ok _ => t.appends
      | .error _ => []) ++ committedAppends crypto (s.exec postgres (t.request crypto)) ts

def serialRun (crypto : AuditCrypto) (s : Store Db) (ts : List AppendTransaction) : Store Db :=
  s.execAll postgres (ts.map fun t => t.request crypto)

/-- The run lemma: after a run from an empty log the rows are those of the committed appends,
in order. -/
theorem serialRun_run (ts : List AppendTransaction) {entries : List (Append × AuditLogEntry)}
    {s : Store Db} (h : SerialLog crypto entries s.db.auditLog s.sequence) :
    ∃ entries', entries'.map Prod.fst = committedAppends crypto s ts ∧
      SerialLog crypto (entries ++ entries') (serialRun crypto s ts).db.auditLog
        (serialRun crypto s ts).sequence := by
  induction ts generalizing entries s with
  | nil => exact ⟨[], rfl, by simpa [serialRun] using h⟩
  | cons t ts ih =>
    obtain ⟨_, hstep⟩ := Request.serial_sound (transaction_run t h)
    simp only [serialRun, List.map_cons, Store.execAll_cons, committedAppends]
    cases hresult : ((t.request crypto).serial postgres s.db s.db s.sequence).result with
    | error error =>
      rw [hresult] at hstep
      have hnext : SerialLog crypto entries (s.exec postgres (t.request crypto)).db.auditLog
          (s.exec postgres (t.request crypto)).sequence := by
        simp only [Store.exec, hstep.1]
        exact h.later hstep.2
      exact ih hnext
    | ok _ =>
      rw [hresult] at hstep
      obtain ⟨added, hadded, hlog⟩ := hstep
      obtain ⟨entries', hfst, hrest⟩ := ih (s := s.exec postgres (t.request crypto)) hlog
      exact ⟨added ++ entries', by rw [List.map_append, hadded, hfst],
        by rw [← List.append_assoc]; exact hrest⟩

theorem serialRun_log (crypto : AuditCrypto) {s : Store Db} (hempty : s.db.auditLog = [])
    (ts : List AppendTransaction) :
    ∃ entries, entries.map Prod.fst = committedAppends crypto s ts ∧
      SerialLog crypto entries (serialRun crypto s ts).db.auditLog
        (serialRun crypto s ts).sequence := by
  have hstart : SerialLog crypto [] s.db.auditLog s.sequence := by
    rw [hempty]
    exact serialLog_nil s.sequence
  simpa using serialRun_run ts hstart

/-! ## Changed rows -/

/-- `r'` is read in the place of `r`: the same place in the chain and the same signature. -/
structure ReadBack (r r' : AuditLogEntry) : Prop where
  sequence : r'.sequence = r.sequence
  prevHash : r'.prevHash = r.prevHash
  entryHash : r'.entryHash = r.entryHash
  signature : r'.signature = r.signature

/-- Some hashed field has another value. -/
def Changed (r r' : AuditLogEntry) : Prop :=
  normalFields (storedFields r') ≠ normalFields (storedFields r)

instance (r r' : AuditLogEntry) : Decidable (Changed r r') := inferInstanceAs (Decidable (_ ≠ _))

def changedRows (log log' : List AuditLogEntry) : List (AuditLogEntry × AuditLogEntry) :=
  (log.zip log').filter fun p => Changed p.1 p.2

/-- The report that names the changed rows and no others. -/
def exactReport (log log' : List AuditLogEntry) : ChainVerificationResult where
  verifiedCount := log.length - (changedRows log log').length
  failedCount := (changedRows log log').length
  isValid := changedRows log log' = []
  firstBreakSequence := ((changedRows log log').map fun p => p.1.sequence).min?
  rootHash := log.getLast?.map AuditLogEntry.entryHash

/-- A row read in the place of an append verifies when it reads as the payload was hashed. -/
theorem entryVerifies_readBack (sha : Function.Injective crypto.sha256)
    (sign : ∀ nonce digest, crypto.verify (crypto.sign nonce digest) digest = true)
    {e : Append × AuditLogEntry} {before : Option String} {r' : AuditLogEntry}
    (hfits : (payloadChain crypto).Fits before e)
    (happended : ∃ b n, AppendedAs crypto e.1.1 e.1.2 b n e.2) (hread : ReadBack e.2 r') :
    entryVerifies crypto before r' = true ↔
      normalFields (storedFields r') = normalFields (payloadFields e.1.1.now e.1.2) := by
  obtain ⟨b, n, ha⟩ := happended
  obtain ⟨hdigest, hprev⟩ := hfits
  have hhash : crypto.computeEntryHash before (payloadFields e.1.1.now e.1.2) =
      r'.entryHash := hdigest.trans hread.entryHash.symm
  have hsignature : SignatureVerifies crypto r' := by
    have hold := ha.signatureVerifies sign
    rwa [SignatureVerifies, ← hread.entryHash, ← hread.signature] at hold
  rw [entryVerifies_iff]
  constructor
  · rintro ⟨⟨hstored, -⟩, -⟩
    exact ((computeEntryHash_inj sha).mp (hstored.trans hhash.symm)).2
  · intro hsame
    exact ⟨⟨((computeEntryHash_inj sha).mpr ⟨rfl, hsame⟩).trans hhash,
      hread.prevHash.trans hprev⟩, hsignature⟩

theorem verdicts_readBack (sha : Function.Injective crypto.sha256)
    (sign : ∀ nonce digest, crypto.verify (crypto.sign nonce digest) digest = true)
    {entries : List (Append × AuditLogEntry)} {before : Option String}
    {log' : List AuditLogEntry} (hintact : (payloadChain crypto).Intact before entries)
    (happended : ∀ e ∈ entries, ∃ b n, AppendedAs crypto e.1.1 e.1.2 b n e.2)
    (hread : List.Forall₂ (fun e r' => ReadBack e.2 r') entries log') :
    verdicts crypto before log' = (entries.zip log').map fun p =>
      decide (normalFields (storedFields p.2) =
        normalFields (payloadFields p.1.1.1.now p.1.1.2)) := by
  induction hread generalizing before with
  | nil => rfl
  | @cons e r' es rs hr hrs ih =>
    obtain ⟨hfits, hrest⟩ := hintact
    have hverdict := entryVerifies_readBack sha sign hfits (happended e List.mem_cons_self) hr
    have hnext : (payloadChain crypto).Intact (some r'.entryHash) es := by
      rw [hr.entryHash]
      exact hrest
    have htail := ih hnext fun e' he' => happended e' (List.mem_cons_of_mem _ he')
    rw [verdicts, htail, List.zip_cons_cons, List.map_cons, List.cons.injEq]
    exact ⟨by rw [Bool.eq_iff_iff, hverdict, decide_eq_true_iff], rfl⟩

theorem min?_eq_head? {ns : List ℕ} (h : ns.Pairwise fun a b => a < b) : ns.min? = ns.head? := by
  cases ns with
  | nil => rfl
  | cons n ns =>
    rw [List.head?_cons, List.min?_eq_some_iff]
    refine ⟨List.mem_cons_self, fun m hm => ?_⟩
    rcases List.mem_cons.mp hm with rfl | hm
    · exact Nat.le_refl _
    · exact Nat.le_of_lt ((List.pairwise_cons.mp h).1 m hm)

theorem ordered_readBack {log log' : List AuditLogEntry}
    (hordered : log.Pairwise fun r r' => r.sequence < r'.sequence)
    (hread : List.Forall₂ ReadBack log log') :
    log'.Pairwise fun r r' => r.sequence < r'.sequence := by
  have hsequences : log'.map AuditLogEntry.sequence = log.map AuditLogEntry.sequence := by
    induction hread with
    | nil => rfl
    | cons hr _ ih => rw [List.map_cons, List.map_cons, hr.sequence, ih hordered.of_cons]
  rw [← List.pairwise_map (f := AuditLogEntry.sequence) (R := fun a b => a < b)] at hordered ⊢
  rw [hsequences]
  exact hordered

/-- Where the verdict on each row is whether it is unchanged, the report is exact. -/
theorem report_eq_exactReport {log log' : List AuditLogEntry}
    (hordered : log.Pairwise fun r r' => r.sequence < r'.sequence)
    (hread : List.Forall₂ ReadBack log log')
    (hverdicts : verdicts crypto none log' =
      (log.zip log').map fun p => !decide (Changed p.1 p.2)) :
    report crypto log' = exactReport log log' := by
  have hlength := hread.length_eq
  have hrows : (log.zip log').map Prod.snd = log' := List.map_snd_zip (by omega)
  have hfailed : (verdicts crypto none log').count false = (changedRows log log').length := by
    rw [hverdicts, List.count_eq_countP, List.countP_map, changedRows, List.countP_eq_length_filter]
    congr 2
    funext p
    simp
  have hverified : (verdicts crypto none log').count true =
      log.length - (changedRows log log').length := by
    have htotal : (verdicts crypto none log').length = log.length := by
      rw [hverdicts, List.length_map, List.length_zip, ← hlength, Nat.min_self]
    have hcount := List.count_true_add_count_false (l := verdicts crypto none log')
    omega
  have hbreak : ((log'.zip (verdicts crypto none log')).find? fun e => !e.2).map
      (fun e => e.1.sequence) = ((changedRows log log').map fun p => p.1.sequence).min? := by
    have hzip : log'.zip (verdicts crypto none log') =
        (log.zip log').map fun p => (p.2, !decide (Changed p.1 p.2)) := by
      calc log'.zip (verdicts crypto none log')
          = ((log.zip log').map Prod.snd).zip
              ((log.zip log').map fun p => !decide (Changed p.1 p.2)) := by rw [hrows, hverdicts]
        _ = (log.zip log').map fun p => (p.2, !decide (Changed p.1 p.2)) := List.zip_map'
    have hsorted : ((changedRows log log').map fun p => p.1.sequence).Pairwise
        fun a b => a < b := by
      have hall : ((log.zip log').map fun p => p.1.sequence).Pairwise fun a b => a < b := by
        have hfst : (log.zip log').map (fun p => p.1.sequence) = log.map AuditLogEntry.sequence :=
          calc (log.zip log').map (fun p => p.1.sequence)
              = ((log.zip log').map Prod.fst).map AuditLogEntry.sequence := by
                rw [List.map_map]
                rfl
            _ = log.map AuditLogEntry.sequence := by rw [List.map_fst_zip (by omega)]
        rw [hfst, List.pairwise_map]
        exact hordered
      exact hall.sublist (List.filter_sublist.map _)
    rw [hzip, List.find?_map, min?_eq_head? hsorted, List.head?_map, changedRows, List.head?_filter,
      Option.map_map]
    have hpred : (fun e : AuditLogEntry × Bool => !e.2) ∘
        (fun p : AuditLogEntry × AuditLogEntry => (p.2, !decide (Changed p.1 p.2))) =
          fun p => decide (Changed p.1 p.2) := by
      funext p
      simp
    rw [hpred]
    cases hfind : (log.zip log').find? fun p => decide (Changed p.1 p.2) with
    | none => rfl
    | some p =>
      have hmem : (p.1, p.2) ∈ log.zip log' := List.mem_of_find?_eq_some hfind
      simp [(List.forall₂_zip hread hmem).sequence]
  have hroot : log'.getLast?.map AuditLogEntry.entryHash =
      log.getLast?.map AuditLogEntry.entryHash := by
    have hhashes : log'.map AuditLogEntry.entryHash = log.map AuditLogEntry.entryHash := by
      clear hverdicts hfailed hverified hbreak hrows hlength hordered
      induction hread with
      | nil => rfl
      | cons hr _ ih => rw [List.map_cons, List.map_cons, hr.entryHash, ih]
    rw [← List.getLast?_map, hhashes, List.getLast?_map]
  rw [report, inSequenceOrder_of_ordered (ordered_readBack hordered hread), verifyEntries_eq,
    hfailed, hverified, hbreak, hroot]
  simp only [exactReport]
  congr 1
  rw [Bool.eq_iff_iff]
  simp

theorem readBack_refl (log : List AuditLogEntry) : List.Forall₂ ReadBack log log :=
  List.forall₂_same.mpr fun _ _ => ⟨rfl, rfl, rfl, rfl⟩

theorem changedRows_self (log : List AuditLogEntry) : changedRows log log = [] := by
  rw [changedRows, List.filter_eq_nil_iff]
  rintro ⟨r, r'⟩ hmem
  have hsame : r = r' := by
    have hself : List.Forall₂ Eq log log := List.forall₂_same.mpr fun _ _ => rfl
    exact List.forall₂_zip hself hmem
  simp [Changed, hsame]

/-- The verdicts on a log that is read back as it was stored. -/
theorem SerialLog.verdicts (sha : Function.Injective crypto.sha256)
    (sign : ∀ nonce digest, crypto.verify (crypto.sign nonce digest) digest = true)
    {entries : List (Append × AuditLogEntry)} {log log' : List AuditLogEntry} {next : ℕ}
    (h : SerialLog crypto entries log next) (hread : List.Forall₂ ReadBack log log') :
    AuditVerification.verdicts crypto none log' = (entries.zip log').map fun p =>
      decide (normalFields (storedFields p.2) =
        normalFields (payloadFields p.1.1.1.now p.1.1.2)) := by
  have hpairs : List.Forall₂ (fun e r' => ReadBack e.2 r') entries log' := by
    have hmap := hread
    rw [h.rows, List.forall₂_map_left_iff] at hmap
    exact hmap
  exact verdicts_readBack sha sign h.intact h.appended hpairs

/-- An untouched log is valid exactly when every append is stored as it was hashed. -/
theorem SerialLog.isValid_iff (sha : Function.Injective crypto.sha256)
    (sign : ∀ nonce digest, crypto.verify (crypto.sign nonce digest) digest = true)
    {entries : List (Append × AuditLogEntry)} {log : List AuditLogEntry} {next : ℕ}
    (h : SerialLog crypto entries log next) :
    (report crypto log).isValid = true ↔ ∀ e ∈ entries, StoredAsHashed e.1.2 := by
  rw [report, inSequenceOrder_of_ordered h.ordered, verifyEntries_eq,
    h.verdicts sha sign (readBack_refl log)]
  have hself : entries.zip log = entries.map fun e => (e, e.2) := by
    rw [h.rows]
    simpa using List.zip_map' (f := id) (g := Prod.snd) (l := entries)
  rw [hself, List.map_map, beq_iff_eq, List.count_eq_zero, List.mem_map, not_exists]
  refine forall_congr' fun e => ?_
  constructor
  · intro hno he
    obtain ⟨before, n, ha⟩ := h.appended e he
    rw [← ha.fields_eq_iff]
    by_contra hne
    exact hno ⟨he, by simpa using hne⟩
  · rintro hstored ⟨he, hfalse⟩
    obtain ⟨before, n, ha⟩ := h.appended e he
    have hsame := ha.fields_eq_iff.mpr (hstored he)
    simp [hsame] at hfalse

theorem SerialLog.report_readBack (sha : Function.Injective crypto.sha256)
    (sign : ∀ nonce digest, crypto.verify (crypto.sign nonce digest) digest = true)
    {entries : List (Append × AuditLogEntry)} {log log' : List AuditLogEntry} {next : ℕ}
    (h : SerialLog crypto entries log next) (hstored : ∀ e ∈ entries, StoredAsHashed e.1.2)
    (hread : List.Forall₂ ReadBack log log') : report crypto log' = exactReport log log' := by
  refine report_eq_exactReport h.ordered hread ?_
  rw [h.verdicts sha sign hread, h.rows, List.zip_map_left, List.map_map]
  refine List.map_congr_left fun p hp => ?_
  obtain ⟨before, n, ha⟩ := h.appended p.1 (List.of_mem_zip hp).1
  have hsame := ha.fields_eq_iff.mpr (hstored p.1 (List.of_mem_zip hp).1)
  simp [Changed, hsame]

/-- In the log of a serial run the verifier finds exactly the changed rows, whichever they
are, if and only if every committed payload is stored as it was hashed. -/
theorem changed_rows_reported_iff (sha : Function.Injective crypto.sha256)
    (sign : ∀ nonce digest, crypto.verify (crypto.sign nonce digest) digest = true)
    {s : Store Db} (hempty : s.db.auditLog = []) (ts : List AppendTransaction) :
    (∀ log', List.Forall₂ ReadBack (serialRun crypto s ts).db.auditLog log' →
      report crypto log' = exactReport (serialRun crypto s ts).db.auditLog log') ↔
    ∀ a ∈ committedAppends crypto s ts, StoredAsHashed a.2 := by
  obtain ⟨entries, hfst, hlog⟩ := serialRun_log crypto hempty ts
  have hall : (∀ a ∈ committedAppends crypto s ts, StoredAsHashed a.2) ↔
      ∀ e ∈ entries, StoredAsHashed e.1.2 := by
    rw [← hfst]
    exact List.forall_mem_map
  rw [hall]
  constructor
  · intro hexact
    rw [← hlog.isValid_iff sha sign, hexact _ (readBack_refl _), exactReport, changedRows_self]
    rfl
  · intro hstored log' hread
    exact hlog.report_readBack sha sign hstored hread

/-- A first append that its caller gives up, then the two events. -/
def sampleRun : List AppendTransaction :=
  [.within [(sampleEnv 0, samplePayload "info" "first event")] false,
    .standalone (sampleEnv 0) (samplePayload "info" "first event"),
    .within [(sampleEnv 1, samplePayload "info" "second event")] true]

theorem changed_rows_reported_iff_sample :
    (∀ log', List.Forall₂ ReadBack (serialRun sampleCrypto ⟨emptyDb, 1⟩ sampleRun).db.auditLog log' →
      report sampleCrypto log' =
        exactReport (serialRun sampleCrypto ⟨emptyDb, 1⟩ sampleRun).db.auditLog log') ↔
    ∀ a ∈ committedAppends sampleCrypto ⟨emptyDb, 1⟩ sampleRun, StoredAsHashed a.2 :=
  changed_rows_reported_iff sampleSha256_injective sampleCrypto_sign rfl sampleRun

/-- An untouched log whose only row was appended with the name of its severity. -/
theorem severity_name_reported_broken :
    let log := (serialRun sampleCrypto ⟨emptyDb, 1⟩
      [.standalone (sampleEnv 0) (samplePayload "INFO" "first event")]).db.auditLog
    Function.Injective sampleCrypto.sha256 ∧
      (∀ nonce digest, sampleCrypto.verify (sampleCrypto.sign nonce digest) digest = true) ∧
      List.Forall₂ ReadBack log log ∧ (exactReport log log).isValid = true ∧
      (report sampleCrypto log).isValid = false := by
  intro log
  refine ⟨sampleSha256_injective, sampleCrypto_sign, readBack_refl log, ?_, ?_⟩
  · rw [exactReport, changedRows_self]
    rfl
  · decide +kernel

/-! ## Removed rows -/

theorem SerialLog.of_prefix {entries kept : List (Append × AuditLogEntry)}
    {log : List AuditLogEntry} {next : ℕ} (h : SerialLog crypto entries log next)
    (hkept : kept <+: entries) : SerialLog crypto kept (kept.map Prod.snd) next where
  rows := rfl
  intact := h.intact.of_prefix hkept
  appended e he := h.appended e (hkept.subset he)
  ordered := h.ordered.sublist (h.rows ▸ hkept.sublist.map Prod.snd)
  below r hr := h.below r (h.rows ▸ (hkept.sublist.map Prod.snd).subset hr)

/-- Rows that verify are stored as they were hashed. -/
theorem stored_of_intact (sha : Function.Injective crypto.sha256)
    {kept : List (Append × AuditLogEntry)} {before : Option String}
    (happended : ∀ e ∈ kept, ∃ b n, AppendedAs crypto e.1.1 e.1.2 b n e.2)
    (hintact : (storedChain crypto).Intact before (kept.map Prod.snd)) :
    (payloadChain crypto).Intact before kept ∧ ∀ e ∈ kept, StoredAsHashed e.1.2 := by
  induction kept generalizing before with
  | nil => exact ⟨trivial, fun _ h => nomatch h⟩
  | cons e es ih =>
    obtain ⟨⟨hdigest, hprev⟩, hrest⟩ := hintact
    obtain ⟨b, n, ha⟩ := happended e List.mem_cons_self
    have hsame : normalFields (storedFields e.2) = normalFields (payloadFields e.1.1.now e.1.2) :=
      ((computeEntryHash_inj sha).mp (hdigest.trans ha.entryHash)).2
    have hpayload : crypto.computeEntryHash before (payloadFields e.1.1.now e.1.2) =
        e.2.entryHash := ((computeEntryHash_inj sha).mpr ⟨rfl, hsame.symm⟩).trans hdigest
    obtain ⟨hintact, hstored⟩ :=
      ih (fun e' he' => happended e' (List.mem_cons_of_mem _ he')) hrest
    exact ⟨⟨⟨hpayload, hprev⟩, hintact⟩,
      List.forall_mem_cons.mpr ⟨ha.fields_eq_iff.mp hsame, hstored⟩⟩

theorem SerialLog.kept_isValid_iff (sha : Function.Injective crypto.sha256)
    (sign : ∀ nonce digest, crypto.verify (crypto.sign nonce digest) digest = true)
    {entries kept : List (Append × AuditLogEntry)} {log : List AuditLogEntry} {next : ℕ}
    (h : SerialLog crypto entries log next) (hsub : kept.Sublist entries) :
    (report crypto (kept.map Prod.snd)).isValid = true ↔
      kept <+: entries ∧ ∀ e ∈ kept, StoredAsHashed e.1.2 := by
  constructor
  · intro valid
    have hordered : (kept.map Prod.snd).Pairwise fun r r' => r.sequence < r'.sequence :=
      h.ordered.sublist (h.rows ▸ hsub.map Prod.snd)
    have hintact := (verifyEntries_isValid_iff.mp valid).1
    rw [inSequenceOrder_of_ordered hordered] at hintact
    obtain ⟨hpayload, hstored⟩ :=
      stored_of_intact sha (fun e he => h.appended e (hsub.subset he)) hintact
    exact ⟨(payloadChain_binding sha).prefix_of_sublist h.intact hpayload hsub, hstored⟩
  · rintro ⟨hkept, hstored⟩
    exact ((h.of_prefix hkept).isValid_iff sha sign).mpr hstored

/-- Removing rows from the log of a serial run is detected exactly when a removed row is
followed by a row that stays, or a row that stays is not stored as it was hashed. -/
theorem removed_rows_detected_iff (sha : Function.Injective crypto.sha256)
    (sign : ∀ nonce digest, crypto.verify (crypto.sign nonce digest) digest = true)
    {s : Store Db} (hempty : s.db.auditLog = []) (ts : List AppendTransaction)
    {kept : List (Append × AuditLogEntry)}
    (hsub : kept.Sublist
      ((committedAppends crypto s ts).zip (serialRun crypto s ts).db.auditLog)) :
    (report crypto (kept.map Prod.snd)).isValid = false ↔
      ¬ kept <+: (committedAppends crypto s ts).zip (serialRun crypto s ts).db.auditLog ∨
        ∃ e ∈ kept, ¬ StoredAsHashed e.1.2 := by
  obtain ⟨entries, hfst, hlog⟩ := serialRun_log crypto hempty ts
  have hentries : (committedAppends crypto s ts).zip (serialRun crypto s ts).db.auditLog =
      entries := by
    rw [← hfst, hlog.rows, List.zip_map', List.map_id']
  rw [hentries] at hsub ⊢
  rw [← Bool.not_eq_true, hlog.kept_isValid_iff sha sign hsub]
  constructor
  · intro hno
    by_cases hkept : kept <+: entries
    · right
      by_contra hall
      exact hno ⟨hkept, fun e he => by_contra fun hne => hall ⟨e, he, hne⟩⟩
    · exact .inl hkept
  · rintro (hkept | ⟨e, he, hne⟩) ⟨hkept', hstored⟩
    · exact hkept hkept'
    · exact hne (hstored e he)

theorem removed_rows_detected_iff_sample :
    let pairs := (committedAppends sampleCrypto ⟨emptyDb, 1⟩ sampleRun).zip
      (serialRun sampleCrypto ⟨emptyDb, 1⟩ sampleRun).db.auditLog
    (report sampleCrypto ((pairs.drop 1).map Prod.snd)).isValid = false ↔
      ¬ pairs.drop 1 <+: pairs ∨ ∃ e ∈ pairs.drop 1, ¬ StoredAsHashed e.1.2 :=
  removed_rows_detected_iff sampleSha256_injective sampleCrypto_sign rfl sampleRun
    (List.drop_sublist 1 _)

/-- The last row of a log is removed, and what remains is valid. -/
theorem last_row_removed_undetected :
    let log := (serialRun sampleCrypto ⟨emptyDb, 1⟩ sampleRun).db.auditLog
    Function.Injective sampleCrypto.sha256 ∧
      (∀ nonce digest, sampleCrypto.verify (sampleCrypto.sign nonce digest) digest = true) ∧
      log.length = 2 ∧ (report sampleCrypto (log.take 1)).isValid = true := by
  intro log
  have hrun : log.length = 2 ∧ (report sampleCrypto (log.take 1)).isValid = true := by
    decide +kernel
  exact ⟨sampleSha256_injective, sampleCrypto_sign, hrun⟩

end

end NexusEngine.AuditSerialLogs
