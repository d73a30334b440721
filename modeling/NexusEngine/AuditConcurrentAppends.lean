import NexusEngine.AuditAppends

/-!
# Concurrent appends

Any number of sessions append under read committed. A session takes the hash of the tail it
reads, and nothing keeps another session from taking the same one before either commits. As
long as every commit finds the tail that its first row names, the committed log stays a valid
chain; two sessions that read the same tail fork it.
-/

namespace NexusEngine.AuditConcurrentAppends

open TransactionalRequests ReadCommittedSessions TextEncodings JsonDocuments CalendarTime
  StoredColumns AuditLogTable Database HashChains AuditService AuditVerification AuditAppends

/-- A row with a number above all others is sorted to the end. -/
theorem inSequenceOrder_concat {log : List AuditLogEntry} {row : AuditLogEntry}
    (h : ∀ r ∈ log, r.sequence < row.sequence) :
    inSequenceOrder (log ++ [row]) = inSequenceOrder log ++ [row] := by
  have insert : ∀ (r : AuditLogEntry) (rs : List AuditLogEntry), r.sequence < row.sequence →
      (rs ++ [row]).orderedInsert (fun a b => a.sequence ≤ b.sequence) r =
        rs.orderedInsert (fun a b => a.sequence ≤ b.sequence) r ++ [row] := by
    intro r rs hr
    induction rs with
    | nil => simp [Nat.le_of_lt hr]
    | cons b rs ih =>
      by_cases hle : r.sequence ≤ b.sequence
      · simp [hle]
      · simp [hle, ih]
  induction log with
  | nil => rfl
  | cons r rs ih =>
    have hrs := ih fun r' hr' => h r' (List.mem_cons_of_mem _ hr')
    simp only [inSequenceOrder, List.cons_append, List.insertionSort_cons] at hrs ⊢
    rw [hrs, insert r _ (h r List.mem_cons_self)]

/-- A row above all others is the tail. -/
theorem tailHash_concat {log : List AuditLogEntry} {row : AuditLogEntry}
    (h : ∀ r ∈ log, r.sequence < row.sequence) : tailHash (log ++ [row]) = some row.entryHash := by
  simp only [tailHash, inSequenceOrder_concat h, List.getLast?_concat, Option.map_some]

/-- No row is above the one whose hash is the tail hash, where hashes are unique. -/
theorem le_of_tailHash {log : List AuditLogEntry} {row : AuditLogEntry}
    (unique : (log.map AuditLogEntry.entryHash).Nodup) (hrow : row ∈ log)
    (h : tailHash log = some row.entryHash) : ∀ r ∈ log, r.sequence ≤ row.sequence := by
  intro r hr
  obtain ⟨last, hlast, hhash⟩ := Option.map_eq_some_iff.mp h
  have hmem : last ∈ log := mem_inSequenceOrder.mp (List.mem_of_getLast? hlast)
  obtain rfl : last = row := List.inj_on_of_nodup_map unique hmem hrow hhash
  obtain ⟨front, hfront⟩ := List.getLast?_eq_some_iff.mp hlast
  have hsorted : (inSequenceOrder log).Pairwise (fun a b => a.sequence ≤ b.sequence) :=
    List.pairwise_insertionSort _ log
  rw [hfront, List.pairwise_append] at hsorted
  have hin : r ∈ front ++ [last] := hfront ▸ mem_inSequenceOrder.mpr hr
  rcases List.mem_append.mp hin with hin | hin
  · exact hsorted.2.2 r hin last List.mem_cons_self
  · rw [List.mem_singleton.mp hin]

/-- A log that verifies, as the columns can hold it, with all numbers below `next`. -/
structure ValidLog (crypto : AuditCrypto) (log : List AuditLogEntry) (next : ℕ) : Prop where
  valid : (report crypto log).isValid = true
  unique : (log.map AuditLogEntry.entryHash).Nodup
  width : ∀ r ∈ log, r.entryHash.toList.length ≤ 64
  below : ∀ r ∈ log, r.sequence < next

section

variable {crypto : AuditCrypto}

theorem validLog_nil (next : ℕ) : ValidLog crypto [] next :=
  ⟨rfl, List.nodup_nil, (fun _ h => nomatch h), (fun _ h => nomatch h)⟩

theorem ValidLog.later {log : List AuditLogEntry} {next next' : ℕ} (h : ValidLog crypto log next)
    (hle : next ≤ next') : ValidLog crypto log next' :=
  { h with below := fun r hr => Nat.lt_of_lt_of_le (h.below r hr) hle }

/-- An append after the tail of a valid log, stored as it was hashed, keeps it valid. -/
theorem ValidLog.append
    (sign : ∀ nonce digest, crypto.verify (crypto.sign nonce digest) digest = true)
    {log : List AuditLogEntry} {tenants : List TenancyTables.Tenant} {n next : ℕ} {env : AppendEnv}
    {payload : AuditLogEntryCreate} {row : AuditLogEntry} (h : ValidLog crypto log next)
    (ha : AppendedAs crypto env payload (tailHash log) n row) (hs : StoredAsHashed payload)
    (hadmits : admits tenants log row = true) (hlast : ∀ r ∈ log, r.sequence < n)
    (hn : n < next) : ValidLog crypto (log ++ [row]) next := by
  obtain ⟨hintact, hsignatures⟩ := verifyEntries_isValid_iff.mp h.valid
  have hend : (storedChain crypto).endDigest none (inSequenceOrder log) = tailHash log :=
    ChainFormat.endDigest_eq_getLast? _ _
  have hhash : crypto.computeEntryHash (tailHash log) (storedFields row) = row.entryHash := by
    have hsame : canonicalPayload (tailHash log) (storedFields row) =
        canonicalPayload (tailHash log) (payloadFields env.now payload) :=
      canonicalPayload_inj.mpr ⟨rfl, ha.fields_eq_iff.mpr hs⟩
    rw [ha.entryHash]
    unfold AuditCrypto.computeEntryHash
    rw [hsame]
  refine ⟨verifyEntries_isValid_iff.mpr ?_, ?_, ?_, ?_⟩
  · rw [inSequenceOrder_concat (ha.sequence ▸ hlast), ChainFormat.intact_concat, hend]
    refine ⟨⟨hintact, hhash, ha.prevHash_eq h.width⟩, fun r hr => ?_⟩
    rcases List.mem_append.mp hr with hr | hr
    · exact hsignatures r hr
    · rw [List.mem_singleton.mp hr]
      exact ha.signatureVerifies sign
  · rw [List.map_append, List.map_singleton, List.nodup_append]
    refine ⟨h.unique, List.nodup_singleton _, fun d hd d' hd' => ?_⟩
    obtain ⟨r, hr, rfl⟩ := List.mem_map.mp hd
    simp only [admits, Bool.and_eq_true, List.all_eq_true, bne_iff_ne, ne_eq] at hadmits
    rw [List.mem_singleton.mp hd']
    exact (hadmits.1 r hr).2
  · intro r hr
    rcases List.mem_append.mp hr with hr | hr
    · exact h.width r hr
    · rw [List.mem_singleton.mp hr]
      exact ha.entryHash_length
  · intro r hr
    rcases List.mem_append.mp hr with hr | hr
    · exact h.below r hr
    · rw [List.mem_singleton.mp hr, ha.sequence]
      exact hn

/-! ## What a session holds -/

/-- The statements of an open transaction and the rows they store, where `log` is what is
committed by now: each entry names the tail of what was committed at some time before,
followed by the rows of its own transaction. -/
inductive Appended (crypto : AuditCrypto) (log : List AuditLogEntry) (next : ℕ) :
    List Statement → List AuditLogEntry → Prop where
  | nil : Appended crypto log next [] []
  | snoc {ws : List Statement} {rows seen : List AuditLogEntry} {env : AppendEnv}
      {payload : AuditLogEntryCreate} {signature : String} {n : ℕ} {row : AuditLogEntry}
      (earlier : Appended crypto log next ws rows) (hseen : seen <+: log)
      (signed : crypto.signHexDigest env.nonce (crypto.computeEntryHash (tailHash (seen ++ rows))
        (payloadFields env.now payload)) = some signature)
      (stored : (newEntry crypto env (tailHash (seen ++ rows)) payload signature).stored n =
        some row)
      (below : ∀ r ∈ seen ++ rows, r.sequence < n) (hn : n < next) :
      Appended crypto log next
        (ws ++ [.insertAuditLogEntry (newEntry crypto env (tailHash (seen ++ rows)) payload
          signature) n]) (rows ++ [row])

theorem Appended.later {log log' : List AuditLogEntry} {next next' : ℕ} {ws : List Statement}
    {rows : List AuditLogEntry} (h : Appended crypto log next ws rows) (hlog : log <+: log')
    (hle : next ≤ next') : Appended crypto log' next' ws rows := by
  induction h with
  | nil => exact .nil
  | snoc _ hseen signed stored below hn ih =>
    exact .snoc ih (hseen.trans hlog) signed stored below (Nat.lt_of_lt_of_le hn hle)

theorem Appended.ws_eq_nil {log : List AuditLogEntry} {next : ℕ} {ws : List Statement}
    (h : Appended crypto log next ws []) : ws = [] := by
  generalize hrows : ([] : List AuditLogEntry) = rows at h
  cases h with
  | nil => rfl
  | snoc => simp at hrows

theorem Appended.sequence_lt {log : List AuditLogEntry} {next : ℕ} {ws : List Statement}
    {rows : List AuditLogEntry} (h : Appended crypto log next ws rows) :
    ∀ r ∈ rows, r.sequence < next := by
  induction h with
  | nil => exact fun _ h => nomatch h
  | snoc _ _ signed stored _ hn ih =>
    intro r hr
    rcases List.mem_append.mp hr with hr | hr
    · exact ih r hr
    · rw [List.mem_singleton.mp hr, (newEntry_stored signed stored).sequence]
      exact hn

/-- The last row of a transaction is above its other rows. -/
theorem Appended.last {log : List AuditLogEntry} {next : ℕ} {ws : List Statement}
    {rows : List AuditLogEntry} {row : AuditLogEntry}
    (h : Appended crypto log next ws (rows ++ [row])) : ∀ r ∈ rows, r.sequence < row.sequence := by
  generalize hall : rows ++ [row] = all at h
  cases h with
  | nil => simp at hall
  | snoc _ _ signed stored below _ =>
    obtain ⟨rfl, hrow⟩ := List.append_inj' hall rfl
    obtain rfl := List.singleton_inj.mp hrow
    intro r hr
    rw [(newEntry_stored signed stored).sequence]
    exact below r (List.mem_append_right _ hr)

/-- The statements append the rows. -/
theorem Appended.applyAll {log : List AuditLogEntry} {next : ℕ} {ws : List Statement}
    {rows : List AuditLogEntry} (h : Appended crypto log next ws rows) {db view : Db}
    (happly : postgres.applyAll ws db = some view) :
    view = { db with auditLog := db.auditLog ++ rows } := by
  induction h generalizing view with
  | nil =>
    cases happly
    simp
  | snoc _ _ _ stored _ _ ih =>
    obtain ⟨mid, row, hmid, hrow, -, rfl⟩ := applyAll_insertAuditLogEntry happly
    obtain rfl := Option.some.inj (stored.symm.trans hrow)
    simp [ih hmid]

/-- The commit finds the tail that the transaction's first row names, and the payloads are
stored as they were hashed. -/
structure FindsTail (crypto : AuditCrypto) (committed : Db) (ws : List Statement) : Prop where
  tail : ∀ entry n, ws.head? = some (.insertAuditLogEntry entry n) →
    entry.prevHash = tailHash committed.auditLog
  hashed : ∀ env payload before signature n,
    .insertAuditLogEntry (newEntry crypto env before payload signature) n ∈ ws →
      StoredAsHashed payload

theorem FindsTail.front {committed : Db} {ws ws' : List Statement}
    (h : FindsTail crypto committed (ws ++ ws')) : FindsTail crypto committed ws where
  tail entry n hw := by
    refine h.tail entry n ?_
    rw [List.head?_append, hw]
    rfl
  hashed env payload before signature n hw :=
    h.hashed env payload before signature n (List.mem_append_left _ hw)

/-- Where the first row of a transaction names the tail that the commit finds, its next row names
the tail of the committed log with the rows before it, and is above both. -/
theorem Appended.tail {log seen rows : List AuditLogEntry} {next n : ℕ} {ws : List Statement}
    (h : Appended crypto log next ws rows) (hunique : (log.map AuditLogEntry.entryHash).Nodup)
    (hseen : seen <+: log) (hfirst : rows = [] → tailHash seen = tailHash log)
    (below : ∀ r ∈ seen ++ rows, r.sequence < n)
    (above : ∀ r ∈ log, ∀ own ∈ rows, r.sequence < own.sequence) :
    tailHash (seen ++ rows) = tailHash (log ++ rows) ∧ ∀ r ∈ log, r.sequence < n := by
  have hseenMem : ∀ r ∈ seen, r ∈ log := fun r hr => hseen.subset hr
  rcases List.eq_nil_or_concat rows with rfl | ⟨front, last, rfl⟩
  · simp only [List.append_nil] at below ⊢
    rw [hfirst rfl]
    refine ⟨rfl, fun r hr => ?_⟩
    cases hseenTail : tailHash seen with
    | none =>
      rw [hfirst rfl] at hseenTail
      have hempty := Option.map_eq_none_iff.mp hseenTail
      have hr' := mem_inSequenceOrder.mpr hr
      rw [List.getLast?_eq_none_iff.mp hempty] at hr'
      cases hr'
    | some d =>
      obtain ⟨named, hnamed, rfl⟩ := Option.map_eq_some_iff.mp hseenTail
      have hmem : named ∈ seen := mem_inSequenceOrder.mp (List.mem_of_getLast? hnamed)
      exact Nat.lt_of_le_of_lt
        (le_of_tailHash hunique (hseenMem _ hmem) ((hfirst rfl).symm.trans hseenTail) r hr)
        (below named hmem)
  · -- a later row: the tail is the row before it
    rw [List.concat_eq_append] at *
    have hlast : ∀ r ∈ front, r.sequence < last.sequence := h.last
    have hown : last ∈ front ++ [last] := List.mem_append_right _ List.mem_cons_self
    have hrest : ∀ before : List AuditLogEntry, (∀ r ∈ before, r ∈ log) →
        tailHash (before ++ (front ++ [last])) = some last.entryHash := by
      intro before hsub
      rw [← List.append_assoc]
      refine tailHash_concat fun r hr => ?_
      rcases List.mem_append.mp hr with hr | hr
      · exact above r (hsub r hr) last hown
      · exact hlast r hr
    rw [hrest _ hseenMem, hrest _ fun _ h => h]
    exact ⟨rfl, fun r hr => Nat.lt_trans (above r hr last hown)
      (below last (List.mem_append_right _ hown))⟩

/-- Such a commit keeps the committed log valid. The induction carries that the rows come
after everything that is committed. -/
theorem Appended.commit
    (sign : ∀ nonce digest, crypto.verify (crypto.sign nonce digest) digest = true)
    {db view : Db} {next : ℕ} {ws : List Statement} {rows : List AuditLogEntry}
    (h : Appended crypto db.auditLog next ws rows) (hvalid : ValidLog crypto db.auditLog next)
    (hfinds : FindsTail crypto db ws) (happly : postgres.applyAll ws db = some view) :
    ValidLog crypto view.auditLog next ∧
      ∀ r ∈ db.auditLog, ∀ own ∈ rows, r.sequence < own.sequence := by
  induction h generalizing view with
  | nil =>
    cases happly
    exact ⟨hvalid, fun _ _ _ h => nomatch h⟩
  | @snoc ws rows seen env payload signature n row earlier hseen signed stored below hn ih =>
    obtain ⟨mid, row', hmid, hrow', hadmits, rfl⟩ := applyAll_insertAuditLogEntry happly
    obtain rfl := Option.some.inj (stored.symm.trans hrow')
    obtain ⟨ihvalid, ihabove⟩ := ih hfinds.front hmid
    have happended := newEntry_stored signed stored
    have hlog : mid.auditLog = db.auditLog ++ rows := by rw [earlier.applyAll hmid]
    have hhashed : StoredAsHashed payload :=
      hfinds.hashed env payload _ signature n (List.mem_append_right _ List.mem_cons_self)
    have hfirst : rows = [] → tailHash seen = tailHash db.auditLog := by
      rintro rfl
      obtain rfl := earlier.ws_eq_nil
      simpa [newEntry] using hfinds.tail _ _ rfl
    obtain ⟨htail, habove⟩ := earlier.tail hvalid.unique hseen hfirst below ihabove
    rw [htail, ← hlog] at happended
    have hbelow : ∀ r ∈ mid.auditLog, r.sequence < n := by
      intro r hr
      rcases List.mem_append.mp (hlog ▸ hr) with hr | hr
      · exact habove r hr
      · exact below r (List.mem_append_right _ hr)
    refine ⟨ihvalid.append sign happended hhashed hadmits hbelow hn, fun r hr own hown => ?_⟩
    rcases List.mem_append.mp hown with hown | hown
    · exact ihabove r hr own hown
    · rw [List.mem_singleton.mp hown, happended.sequence]
      exact habove r hr

/-! ## What the sessions send -/

/-- The log only grows. -/
def Extends (db db' : Db) : Prop := db.auditLog <+: db'.auditLog

theorem Extends.refl (db : Db) : Extends db db := List.prefix_rfl

theorem Extends.trans (db₁ db₂ db₃ : Db) (h : Extends db₁ db₂) (h' : Extends db₂ db₃) :
    Extends db₁ db₃ := List.IsPrefix.trans h h'

/-- A flush of the log sends one signed entry after the tail of an earlier view. -/
def SendsEntry (crypto : AuditCrypto) (db : Db) (pending : List Statement) (n : ℕ)
    (ws : List Statement) : Prop :=
  ∃ env payload signature seen view, Extends seen db ∧
    postgres.applyAll pending seen = some view ∧
    crypto.signHexDigest env.nonce (crypto.computeEntryHash (tailHash view.auditLog)
      (payloadFields env.now payload)) = some signature ∧
    ws = [.insertAuditLogEntry (newEntry crypto env (tailHash view.auditLog) payload signature) n]

theorem appendEntryInTransaction_sends {env : AppendEnv} {payload : AuditLogEntryCreate}
    {post : AuditLogEntry → List Statement → Db → Prop}
    (hpost : ∀ row pending db, post row pending db) (pending : List Statement) (db : Db) :
    Guarantees postgres Extends (SendsEntry crypto)
      (appendEntryInTransaction crypto env [] payload) post pending db :=
  appendEntryInTransaction_guarantees
    (fun seen view signature _ _ _ hview hsign hseen =>
      ⟨env, payload, signature, seen, view, hseen, hview, hsign, rfl⟩) hpost

theorem appendAll_sends (appends : List (AppendEnv × AuditLogEntryCreate))
    {post : Unit → List Statement → Db → Prop} (hpost : ∀ u pending db, post u pending db)
    (pending : List Statement) (db : Db) :
    Guarantees postgres Extends (SendsEntry crypto) (appendAll crypto appends) post
      pending db := by
  induction appends generalizing pending db with
  | nil => exact Guarantees.return fun _ _ => hpost _ _ _
  | cons a as ih =>
    exact Guarantees.bind Extends.refl
      (appendEntryInTransaction_sends (fun _ pending' db' => ih pending' db') pending db)

theorem request_sends (t : AppendTransaction) (db : Db) :
    Guarantees postgres Extends (SendsEntry crypto) (t.request crypto)
      (fun _ _ _ => True) [] db := by
  cases t with
  | standalone env payload =>
    refine Guarantees.bind Extends.refl (Guarantees.bind Extends.refl
      (appendEntryInTransaction_sends (fun row pending' db' => ?_) [] db))
    refine Guarantees.commitTransaction_bind fun db₁ view₁ _ _ => ?_
    refine Guarantees.select_bind fun db₂ view₂ _ _ => ?_
    cases view₂.auditLog.find? fun r => r.id = row.id with
    | none => exact Guarantees.raise
    | some row => exact Guarantees.return fun _ _ => Guarantees.return fun _ _ => trivial
  | within appends commits =>
    refine Guarantees.bind Extends.refl
      (appendAll_sends appends (fun _ pending' db' => ?_) [] db)
    cases commits with
    | false => exact Guarantees.raise
    | true =>
      exact Guarantees.commitTransaction_bind fun _ _ _ _ => Guarantees.return fun _ _ => trivial

/-! ## Runs -/

/-- What holds between the steps: the committed log is valid, and every open transaction
holds entries that were each appended after a tail it saw. -/
structure LogInv (crypto : AuditCrypto) (σ : Server Db Statement ServiceError Unit) : Prop where
  committed : ValidLog crypto σ.committed.auditLog σ.sequence
  sessions : ∀ s ∈ σ.sessions, ∃ rows,
    Appended crypto σ.committed.auditLog σ.sequence s.pending rows
  behaves : σ.Behaves postgres Extends (SendsEntry crypto)

theorem logInv_start {db : Db} {n : ℕ} (h : ValidLog crypto db.auditLog n)
    (ts : List AppendTransaction) : LogInv crypto (start db n (ts.map (·.request crypto))) where
  committed := h
  sessions s hs := by
    obtain ⟨p, -, rfl⟩ := List.mem_map.mp hs
    exact ⟨[], .nil⟩
  behaves := behaves_start fun p hp => by
    obtain ⟨t, -, rfl⟩ := List.mem_map.mp hp
    exact request_sends t db

theorem logInv_step
    (sign : ∀ nonce digest, crypto.verify (crypto.sign nonce digest) digest = true)
    {σ σ' : Server Db Statement ServiceError Unit} {a : Action} (h : LogInv crypto σ)
    (move : σ.step postgres a = some σ')
    (meets : ∀ ws, σ.committing a = some ws → FindsTail crypto σ.committed ws) :
    LogInv crypto σ' := by
  obtain ⟨i, s, hs, effect⟩ := Server.step_effect move
  have hmem := List.mem_of_getElem? hs
  obtain ⟨rows, hrows⟩ := h.sessions s hmem
  have hbehaves : Extends σ.committed σ'.committed → σ'.Behaves postgres Extends
      (SendsEntry crypto) := h.behaves.step Extends.refl Extends.trans move
  cases effect with
  | moved next view program accepted =>
    exact ⟨h.committed, Server.forall_setSession h.sessions ⟨rows, hrows⟩,
      hbehaves (Extends.refl _)⟩
  | dropped error sequence hle =>
    have others : ∀ t ∈ σ.sessions, ∃ rows,
        Appended crypto σ.committed.auditLog sequence t.pending rows :=
      fun t ht => (h.sessions t ht).imp fun _ hr => hr.later List.prefix_rfl hle
    exact ⟨h.committed.later hle, Server.forall_setSession others ⟨[], .nil⟩,
      hbehaves (Extends.refl _)⟩
  | flushed statements next view program free accepted =>
    have hle := Nat.le_succ σ.sequence
    have others : ∀ t ∈ σ.sessions, ∃ rows,
        Appended crypto σ.committed.auditLog (σ.sequence + 1) t.pending rows :=
      fun t ht => (h.sessions t ht).imp fun _ hr => hr.later List.prefix_rfl hle
    obtain ⟨env, payload, signature, seen, read, hseen, hread, hsign, hws⟩ :=
      h.behaves.flushing Extends.refl hs program σ.sequence
    have hlog : read.auditLog = seen.auditLog ++ rows := by rw [hrows.applyAll hread]
    rw [hlog] at hsign hws
    rw [hws] at accepted
    obtain ⟨mid, row, -, hrow, -, -⟩ := applyAll_insertAuditLogEntry accepted
    have hbelow : ∀ r ∈ seen.auditLog ++ rows, r.sequence < σ.sequence := by
      intro r hr
      rcases List.mem_append.mp hr with hr | hr
      · exact h.committed.below r (hseen.subset hr)
      · exact hrows.sequence_lt r hr
    have hown := Appended.snoc (hrows.later List.prefix_rfl hle) hseen hsign hrow hbelow
      (Nat.lt_succ_self _)
    exact ⟨h.committed.later hle, Server.forall_setSession others ⟨_, hws ▸ hown⟩,
      hbehaves (Extends.refl _)⟩
  | committed next view program commits accepted =>
    have hview : σ.committed.auditLog <+: view.auditLog := by
      rw [hrows.applyAll accepted]
      exact List.prefix_append _ _
    have others : ∀ t ∈ σ.sessions, ∃ rows,
        Appended crypto view.auditLog σ.sequence t.pending rows :=
      fun t ht => (h.sessions t ht).imp fun _ hr => hr.later hview (Nat.le_refl _)
    exact ⟨(hrows.commit sign h.committed (meets _ commits) accepted).1,
      Server.forall_setSession others ⟨[], .nil⟩, hbehaves hview⟩

/-- In every interleaving whose commits find the tails their first rows name, the committed
log verifies in every state. -/
theorem committed_log_valid
    (sign : ∀ nonce digest, crypto.verify (crypto.sign nonce digest) digest = true)
    {db : Db} {n : ℕ} (hvalid : ValidLog crypto db.auditLog n) (ts : List AppendTransaction)
    {σ : Server Db Statement ServiceError Unit}
    (run : Server.Reaches postgres (FindsTail crypto) (start db n (ts.map (·.request crypto))) σ) :
    (report crypto σ.committed.auditLog).isValid = true := by
  have hinv : LogInv crypto σ := by
    induction run with
    | refl => exact logInv_start hvalid ts
    | step _ move meets ih => exact logInv_step sign ih move meets
  exact hinv.committed.valid

end

/-! ## Two sessions -/

/-- Two standalone appends. -/
def samplePair : List AppendTransaction :=
  [.standalone (sampleEnv 0) (samplePayload "info" "first event"),
    .standalone (sampleEnv 1) (samplePayload "info" "second event")]

/-- The entries are sample entries after the committed tail. -/
def sampleFinds (committed : Db) (ws : List Statement) : Bool :=
  ws.zipIdx.all fun
    | (.insertAuditLogEntry e _, k) =>
      e.severity == "info" && e.eventType == "state_change" && e.eventSubtype == "test.event" &&
        e.tenantSlug == none && e.actor == "tester" && e.sourceIp == none &&
        (k != 0 || e.prevHash == tailHash committed.auditLog)
    | _ => false

theorem sampleFinds_sound (committed : Db) (ws : List Statement)
    (h : sampleFinds committed ws = true) : FindsTail sampleCrypto committed ws := by
  rw [sampleFinds, List.all_eq_true] at h
  constructor
  · intro entry n hhead
    have hfirst := h (.insertAuditLogEntry entry n, 0)
      (List.mem_zipIdx_iff_getElem?.mpr (by rw [← List.head?_eq_getElem?, hhead]))
    simp only [bne_self_eq_false, Bool.false_or, Bool.and_eq_true, beq_iff_eq] at hfirst
    exact hfirst.2
  · intro env payload before signature n hmem
    obtain ⟨k, hk⟩ := List.mem_iff_getElem?.mp hmem
    have hentry := h (.insertAuditLogEntry (newEntry sampleCrypto env before payload signature) n, k)
      (List.mem_zipIdx_iff_getElem?.mpr hk)
    simp only [newEntry, Bool.and_eq_true, beq_iff_eq] at hentry
    obtain ⟨⟨⟨⟨⟨⟨hseverity, htype⟩, hsubtype⟩, hslug⟩, hactor⟩, hsource⟩, -⟩ := hentry
    constructor
    · rw [hseverity]; decide +kernel
    · rw [htype]; decide +kernel
    · rw [hsubtype]; decide +kernel
    · rw [hslug]; decide +kernel
    · rw [hactor]; decide +kernel
    · rw [hsource]; decide +kernel

/-- The first session commits before the second one reads. -/
theorem committed_log_valid_sample :
    ∃ σ, Server.run postgres sampleFinds (start emptyDb 1 (samplePair.map (·.request sampleCrypto)))
        [.run 0, .run 0, .run 0, .run 0, .run 1, .run 1, .run 1, .run 1] = some σ ∧
      (report sampleCrypto σ.committed.auditLog).isValid = true := by
  have hrun : (Server.run postgres sampleFinds
      (start emptyDb 1 (samplePair.map (·.request sampleCrypto)))
      [.run 0, .run 0, .run 0, .run 0, .run 1, .run 1, .run 1, .run 1]).isSome = true := by
    decide +kernel
  obtain ⟨σ, hσ⟩ := Option.isSome_iff_exists.mp hrun
  exact ⟨σ, hσ, committed_log_valid sampleCrypto_sign (validLog_nil 1) samplePair
    (Server.Reaches.of_run sampleFinds_sound .refl hσ)⟩

/-- Two sessions read the empty log before either inserts: both first rows are committed,
and the log does not verify. -/
theorem same_tail_forks :
    Function.Injective sampleCrypto.sha256 ∧
      (∀ nonce digest, sampleCrypto.verify (sampleCrypto.sign nonce digest) digest = true) ∧
      ∃ σ, Server.Reaches postgres (fun _ _ => True)
          (start emptyDb 1 (samplePair.map (·.request sampleCrypto))) σ ∧
        (report sampleCrypto σ.committed.auditLog).isValid = false := by
  have hrun : ((Server.run postgres (fun _ _ => true)
      (start emptyDb 1 (samplePair.map (·.request sampleCrypto)))
      [.run 0, .run 1, .run 0, .run 0, .run 0, .run 1, .run 1, .run 1]).map fun σ =>
        (report sampleCrypto σ.committed.auditLog).isValid) = some false := by
    decide +kernel
  obtain ⟨σ, hσ, hreport⟩ := Option.map_eq_some_iff.mp hrun
  exact ⟨sampleSha256_injective, sampleCrypto_sign, σ,
    Server.Reaches.of_run (fun _ _ _ => trivial) .refl hσ, hreport⟩

end NexusEngine.AuditConcurrentAppends
