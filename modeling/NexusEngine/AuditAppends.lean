import NexusEngine.AuditVerification

/-!
# What an append leaves in the log

The row of an append carries the hash of the payload's own texts. What is read back is what
the columns kept of them, so that the row verifies exactly when every text of the payload is
stored as it is.
-/

namespace NexusEngine.AuditAppends

open TransactionalRequests TextEncodings JsonDocuments CalendarTime StoredColumns
  AuditLogTable Database HashChains AuditService AuditVerification

/-! ## The stored row -/

/-- `row` is what the database keeps of a payload that was appended after the hash
`before`. -/
structure AppendedAs (crypto : AuditCrypto) (env : AppendEnv) (payload : AuditLogEntryCreate)
    (before : Option String) (n : ℕ) (row : AuditLogEntry) : Prop where
  id : row.id = env.uuid4
  sequence : row.sequence = n
  occurredAt : row.occurredAt = ⟨env.now, 0⟩
  severity : auditSeverityColumn.bind payload.severity = some row.severity
  eventType : auditEventTypeColumn.bind payload.eventType = some row.eventType
  eventSubtype : varchar 60 payload.eventSubtype = some row.eventSubtype
  tenantId : row.tenantId = payload.tenantId
  tenantSlug : nullable (varchar 80) payload.tenantSlug = some row.tenantSlug
  actor : varchar 120 payload.actor = some row.actor
  sourceIp : nullable (varchar 45) payload.sourceIp = some row.sourceIp
  description : row.description = payload.description
  metadataJson : row.metadataJson = sanitizeMetadata (.obj payload.metadataJson)
  prevHash : nullable (varchar 64) before = some row.prevHash
  entryHash : row.entryHash = crypto.computeEntryHash before (payloadFields env.now payload)
  entryHash_length : row.entryHash.toList.length ≤ 64
  signature : crypto.signHexDigest env.nonce row.entryHash = some row.signature

theorem hexdigest_no_blank (bs : Bytes) : ' ' ∉ (hexdigest bs).toList := by
  have hdigit : ∀ n < 16, ' ' ≠ hexDigit n := by decide
  intro h
  obtain ⟨n, hn, heq⟩ := mem_hexdigest h
  exact hdigit n hn heq

/-- A digest has no blanks to cut off. -/
theorem varchar_hexdigest {n : ℕ} {bs : Bytes} {s : String}
    (h : varchar n (hexdigest bs) = some s) : s = hexdigest bs :=
  (varchar_eq_or_blank h).resolve_right (hexdigest_no_blank bs)

theorem newEntry_stored {crypto : AuditCrypto} {env : AppendEnv} {before : Option String}
    {payload : AuditLogEntryCreate} {signature : String} {n : ℕ} {row : AuditLogEntry}
    (hsign : crypto.signHexDigest env.nonce
      (crypto.computeEntryHash before (payloadFields env.now payload)) = some signature)
    (h : (newEntry crypto env before payload signature).stored n = some row) :
    AppendedAs crypto env payload before n row := by
  have hkept := NewAuditLogEntry.keptAs h
  have hhash := varchar_hexdigest hkept.entryHash
  exact {
    id := hkept.id
    sequence := hkept.sequence
    occurredAt := hkept.occurredAt
    severity := hkept.severity
    eventType := hkept.eventType
    eventSubtype := hkept.eventSubtype
    tenantId := hkept.tenantId
    tenantSlug := hkept.tenantSlug
    actor := hkept.actor
    sourceIp := hkept.sourceIp
    description := hkept.description
    metadataJson := hkept.metadataJson
    prevHash := hkept.prevHash
    entryHash := hhash
    entryHash_length := varchar_length hkept.entryHash
    signature := by
      rw [hhash, hkept.signature]
      exact hsign }

/-- What the columns accept of a payload that is appended after the hash `before`. -/
structure Appendable (crypto : AuditCrypto) (payload : AuditLogEntryCreate)
    (before : Option String) : Prop where
  severity : (auditSeverityColumn.bind payload.severity).isSome
  eventType : (auditEventTypeColumn.bind payload.eventType).isSome
  eventSubtype : (varchar 60 payload.eventSubtype).isSome
  tenantSlug : (nullable (varchar 80) payload.tenantSlug).isSome
  actor : (varchar 120 payload.actor).isSome
  sourceIp : (nullable (varchar 45) payload.sourceIp).isSome
  description : (text payload.description).isSome
  metadataJson : (json (sanitizeMetadata (.obj payload.metadataJson))).isSome
  prevHash : (nullable (varchar 64) before).isSome
  signingKeyId : (varchar 60 crypto.signingKeyId).isSome

/-- The digest of a hash of 32 bytes fits its column. -/
theorem varchar_digest {bs : Bytes} (h : bs.length = 32) :
    varchar 64 (hexdigest bs) = some (hexdigest bs) := by
  refine varchar_of_text (text_iff.mpr (hexdigest_no_nul bs)) ?_
  rw [hexdigest_length, h]

/-- An entry is stored when its columns accept what they are given. -/
theorem newEntry_accepted {crypto : AuditCrypto} (env : AppendEnv) {before : Option String}
    {payload : AuditLogEntryCreate} (h : Appendable crypto payload before)
    (hash : ∀ bs, (crypto.sha256 bs).length = 32) (n : ℕ) :
    ∃ signature row, crypto.signHexDigest env.nonce
        (crypto.computeEntryHash before (payloadFields env.now payload)) = some signature ∧
      (newEntry crypto env before payload signature).stored n = some row := by
  obtain ⟨severity, hseverity⟩ := Option.isSome_iff_exists.mp h.severity
  obtain ⟨eventType, htype⟩ := Option.isSome_iff_exists.mp h.eventType
  obtain ⟨subtype, hsubtype⟩ := Option.isSome_iff_exists.mp h.eventSubtype
  obtain ⟨slug, hslug⟩ := Option.isSome_iff_exists.mp h.tenantSlug
  obtain ⟨actor, hactor⟩ := Option.isSome_iff_exists.mp h.actor
  obtain ⟨source, hsource⟩ := Option.isSome_iff_exists.mp h.sourceIp
  obtain ⟨description, hdescription⟩ := Option.isSome_iff_exists.mp h.description
  obtain ⟨metadata, hmetadata⟩ := Option.isSome_iff_exists.mp h.metadataJson
  obtain ⟨prev, hprev⟩ := Option.isSome_iff_exists.mp h.prevHash
  obtain ⟨keyId, hkeyId⟩ := Option.isSome_iff_exists.mp h.signingKeyId
  have hdigest := varchar_digest (hash (canonicalPayload before (payloadFields env.now payload)))
  have hsigned := text_iff.mpr (b64encode_no_nul (crypto.sign env.nonce
    (crypto.sha256 (canonicalPayload before (payloadFields env.now payload)))))
  have hsignature : crypto.signHexDigest env.nonce
      (crypto.computeEntryHash before (payloadFields env.now payload)) =
        some (b64encode (crypto.sign env.nonce
          (crypto.sha256 (canonicalPayload before (payloadFields env.now payload))))) := by
    rw [AuditCrypto.computeEntryHash, AuditCrypto.signHexDigest, fromHex_hexdigest, Option.map_some]
  have hstored : ((newEntry crypto env before payload (b64encode (crypto.sign env.nonce
      (crypto.sha256 (canonicalPayload before (payloadFields env.now payload)))))).stored
        n).isSome := by
    simp only [NewAuditLogEntry.stored, newEntry, AuditCrypto.computeEntryHash, hseverity, htype,
      hsubtype, hslug, hactor, hsource, hdescription, payloadFields, hmetadata, hprev]
    rw [payloadFields] at hdigest hsigned
    simp only [hdigest, hkeyId, hsigned, Option.bind_eq_bind, Option.bind_some, Option.pure_def,
      Option.isSome_some]
  obtain ⟨row, hrow⟩ := Option.isSome_iff_exists.mp hstored
  exact ⟨_, row, hsignature, hrow⟩

/-! ## Stored as hashed -/

/-- Every text of the payload is what the database reads back: the severity and the event
type are values of their enumerations, and the other texts fit their columns. -/
structure StoredAsHashed (payload : AuditLogEntryCreate) : Prop where
  severity : (auditSeverityColumn.bind payload.severity).map AuditSeverity.value =
    some payload.severity
  eventType : (auditEventTypeColumn.bind payload.eventType).map AuditEventType.value =
    some payload.eventType
  eventSubtype : varchar 60 payload.eventSubtype = some payload.eventSubtype
  tenantSlug : nullable (varchar 80) payload.tenantSlug = some payload.tenantSlug
  actor : varchar 120 payload.actor = some payload.actor
  sourceIp : nullable (varchar 45) payload.sourceIp = some payload.sourceIp

theorem AppendedAs.fields_eq_iff {crypto : AuditCrypto} {env : AppendEnv}
    {payload : AuditLogEntryCreate} {before : Option String} {n : ℕ} {row : AuditLogEntry}
    (h : AppendedAs crypto env payload before n row) :
    normalFields (storedFields row) = normalFields (payloadFields env.now payload) ↔
      StoredAsHashed payload := by
  simp only [normalFields, storedFields, payloadFields, EntryFields.mk.injEq, h.occurredAt,
    h.description, h.metadataJson, and_true, true_and]
  constructor
  · rintro ⟨hseverity, htype, hsubtype, hactor, hslug, hsource⟩
    exact ⟨by rw [h.severity, Option.map_some, hseverity],
      by rw [h.eventType, Option.map_some, htype], by rw [h.eventSubtype, hsubtype],
      by rw [h.tenantSlug, hslug], by rw [h.actor, hactor], by rw [h.sourceIp, hsource]⟩
  · intro hs
    have hseverity := hs.severity
    have htype := hs.eventType
    rw [h.severity, Option.map_some, Option.some.injEq] at hseverity
    rw [h.eventType, Option.map_some, Option.some.injEq] at htype
    exact ⟨hseverity, htype, Option.some.inj (h.eventSubtype.symm.trans hs.eventSubtype),
      Option.some.inj (h.actor.symm.trans hs.actor),
      Option.some.inj (h.tenantSlug.symm.trans hs.tenantSlug),
      Option.some.inj (h.sourceIp.symm.trans hs.sourceIp)⟩

/-- A signature that the key produces verifies. -/
theorem signHexDigest_verifies {crypto : AuditCrypto}
    (sign : ∀ nonce digest, crypto.verify (crypto.sign nonce digest) digest = true)
    {nonce : ℕ} {hexDigest signature : String}
    (h : crypto.signHexDigest nonce hexDigest = some signature) :
    crypto.verifyHexDigest hexDigest signature = true := by
  obtain ⟨digest, hdigest, rfl⟩ := Option.map_eq_some_iff.mp h
  simp only [AuditCrypto.verifyHexDigest, b64decode_b64encode, hdigest, sign]

theorem AppendedAs.signatureVerifies {crypto : AuditCrypto}
    (sign : ∀ nonce digest, crypto.verify (crypto.sign nonce digest) digest = true)
    {env : AppendEnv} {payload : AuditLogEntryCreate} {before : Option String} {n : ℕ}
    {row : AuditLogEntry} (h : AppendedAs crypto env payload before n row) :
    SignatureVerifies crypto row := signHexDigest_verifies sign h.signature

/-! ## The append as a request -/

/-- The hash the next entry has to name. -/
def tailHash (log : List AuditLogEntry) : Option String :=
  (inSequenceOrder log).getLast?.map AuditLogEntry.entryHash

theorem mem_inSequenceOrder {log : List AuditLogEntry} {r : AuditLogEntry} :
    r ∈ inSequenceOrder log ↔ r ∈ log :=
  (List.perm_insertionSort _ log).mem_iff

/-- The hash of a stored row is stored again as it is. -/
theorem AppendedAs.prevHash_eq {crypto : AuditCrypto} {env : AppendEnv}
    {payload : AuditLogEntryCreate} {log : List AuditLogEntry} {n : ℕ} {row : AuditLogEntry}
    (h : AppendedAs crypto env payload (tailHash log) n row)
    (width : ∀ r ∈ log, r.entryHash.toList.length ≤ 64) : row.prevHash = tailHash log := by
  have hstored := h.prevHash
  cases htail : tailHash log with
  | none =>
    rw [htail] at hstored
    exact (Option.some.inj hstored).symm
  | some d =>
    rw [htail] at hstored
    obtain ⟨d', hd', hrow⟩ := Option.map_eq_some_iff.mp hstored
    obtain ⟨r, hr, rfl⟩ := Option.map_eq_some_iff.mp htail
    have hmem : r ∈ log := mem_inSequenceOrder.mp (List.mem_of_getLast? hr)
    rw [← hrow, varchar_of_length_le hd' (width r hmem)]

theorem find?_append_row {log : List AuditLogEntry} {tenants : List TenancyTables.Tenant}
    {row : AuditLogEntry} (h : admits tenants log row = true) :
    (log ++ [row]).find? (fun r => r.id = row.id) = some row := by
  simp only [admits, Bool.and_eq_true, List.all_eq_true, bne_iff_ne, ne_eq] at h
  have hnone : log.find? (fun r => r.id = row.id) = none := by
    rw [List.find?_eq_none]
    intro r hr
    simpa using (h.1 r hr).1.1
  rw [List.find?_append, hnone]
  simp

/-- The steps of an append. -/
theorem appendEntryInTransaction_eq (crypto : AuditCrypto) (env : AppendEnv)
    (unflushed : List Statement) (payload : AuditLogEntryCreate) :
    appendEntryInTransaction crypto env unflushed payload = (do
      let before ← Request.select fun db => tailHash db.auditLog
      let signature ← found (crypto.signHexDigest env.nonce
        (crypto.computeEntryHash before (payloadFields env.now payload))) .exception
      Request.send fun sequence => unflushed ++
        [.insertAuditLogEntry (newEntry crypto env before payload signature) sequence]
      let row ← Request.select fun db => db.auditLog.find? fun r =>
        r.id = (newEntry crypto env before payload signature).id
      found row .exception) := by
  simp only [appendEntryInTransaction, getTail, Request.select, Request.send, Request.query_bind,
    Request.done_bind, tailHash]
  congr 1
  funext db
  cases crypto.signHexDigest env.nonce (crypto.computeEntryHash
      ((inSequenceOrder db.auditLog).getLast?.map AuditLogEntry.entryHash)
      (payloadFields env.now payload)) with
  | none => rfl
  | some signature =>
    simp only [found, Request.flush_bind, Request.done_bind]
    refine congrArg _ (congrArg _ (funext fun db' => ?_))
    cases db'.auditLog.find? fun r => r.id = (newEntry crypto env _ payload signature).id <;> rfl

/-- The entry is read back as the row that is stored of it. -/
theorem find?_newEntry {crypto : AuditCrypto} {env : AppendEnv} {payload : AuditLogEntryCreate}
    {before : Option String} {n : ℕ} {row : AuditLogEntry}
    (happended : AppendedAs crypto env payload before n row) (signature : String)
    {tenants : List TenancyTables.Tenant} {log : List AuditLogEntry}
    (hadmits : admits tenants log row = true) :
    (log ++ [row]).find? (fun r => r.id = (newEntry crypto env before payload signature).id) =
      some row := by
  have hid : (newEntry crypto env before payload signature).id = row.id := happended.id.symm
  rw [hid]
  exact find?_append_row hadmits

/-- The rule of an append: it fails, or its flush sends the statements of the caller and
appends a row after the tail the transaction saw. -/
theorem appendEntryInTransaction_wp {crypto : AuditCrypto} {env : AppendEnv}
    {unflushed : List Statement} {payload : AuditLogEntryCreate}
    {post : Except ServiceError AuditLogEntry → Db → Db → ℕ → Prop} {durable work : Db} {n : ℕ}
    (failed : ∀ error k, n ≤ k → post (.error error) durable work k)
    (appended : ∀ sent row, postgres.applyAll unflushed work = some sent →
      AppendedAs crypto env payload (tailHash work.auditLog) n row →
      admits sent.tenancy.tenants.rows sent.auditLog row = true →
      post (.ok row) durable { sent with auditLog := sent.auditLog ++ [row] } (n + 1)) :
    (appendEntryInTransaction crypto env unflushed payload).wp postgres post durable work n := by
  rw [appendEntryInTransaction_eq]
  refine (Request.wp_bind ..).mpr ?_
  rw [Request.wp_select]
  refine (Request.wp_bind ..).mpr (wp_found.mpr
    ⟨fun _ => failed _ n (Nat.le_refl n), fun signature hsign => ?_⟩)
  refine (Request.wp_bind ..).mpr (Request.wp_send.mpr
    ⟨fun _ => failed _ _ (Nat.le_succ n), fun work' hwork => ?_⟩)
  obtain ⟨sent, row, hsent, hrow, hadmits, rfl⟩ := applyAll_insertAuditLogEntry hwork
  have happended := newEntry_stored hsign hrow
  refine (Request.wp_bind ..).mpr ?_
  rw [Request.wp_select]
  exact wp_found_of_some (find?_newEntry happended signature hadmits)
    (appended sent row hsent happended hadmits)

/-- The rule of an append that the columns and the log accept: it does not fail. -/
theorem appendEntryInTransaction_accepted {crypto : AuditCrypto} {env : AppendEnv}
    {unflushed : List Statement} {payload : AuditLogEntryCreate}
    {post : Except ServiceError AuditLogEntry → Db → Db → ℕ → Prop} {durable work sent : Db} {n : ℕ}
    (hsent : postgres.applyAll unflushed work = some sent)
    (h : Appendable crypto payload (tailHash work.auditLog))
    (hash : ∀ bs, (crypto.sha256 bs).length = 32)
    (admitted : ∀ row, AppendedAs crypto env payload (tailHash work.auditLog) n row →
      admits sent.tenancy.tenants.rows sent.auditLog row = true)
    (appended : ∀ row, AppendedAs crypto env payload (tailHash work.auditLog) n row →
      post (.ok row) durable { sent with auditLog := sent.auditLog ++ [row] } (n + 1)) :
    (appendEntryInTransaction crypto env unflushed payload).wp postgres post durable work n := by
  obtain ⟨signature, row, hsign, hrow⟩ := newEntry_accepted env h hash n
  have happended := newEntry_stored hsign hrow
  have hadmits := admitted row happended
  have hflush : postgres.applyAll (unflushed ++ [.insertAuditLogEntry
      (newEntry crypto env (tailHash work.auditLog) payload signature) n]) work =
        some { sent with auditLog := sent.auditLog ++ [row] } := by
    rw [StatementSemantics.applyAll_append, hsent, Option.bind_some,
      StatementSemantics.applyAll_singleton]
    exact apply_insertAuditLogEntry.mpr ⟨row, hrow, hadmits, rfl⟩
  rw [appendEntryInTransaction_eq]
  apply (Request.wp_bind ..).mpr
  rw [Request.wp_select]
  apply (Request.wp_bind ..).mpr
  apply wp_found_of_some hsign
  apply (Request.wp_bind ..).mpr
  apply Request.wp_send_of_some hflush
  apply (Request.wp_bind ..).mpr
  rw [Request.wp_select]
  exact wp_found_of_some (find?_newEntry happended signature hadmits) (appended row happended)

open ReadCommittedSessions in
/-- The promise of an append: its one flush sends the statements of the caller and an entry
that names the tail of an earlier view. -/
theorem appendEntryInTransaction_guarantees {crypto : AuditCrypto} {env : AppendEnv}
    {unflushed : List Statement} {payload : AuditLogEntryCreate} {R : Db → Db → Prop}
    {G : Db → List Statement → ℕ → List Statement → Prop}
    {post : AuditLogEntry → List Statement → Db → Prop} {pending : List Statement} {db : Db}
    (sends : ∀ seen view signature db' n, R db seen → postgres.applyAll pending seen = some view →
      crypto.signHexDigest env.nonce (crypto.computeEntryHash (tailHash view.auditLog)
        (payloadFields env.now payload)) = some signature → R seen db' →
      G db' pending n (unflushed ++ [.insertAuditLogEntry
        (newEntry crypto env (tailHash view.auditLog) payload signature) n]))
    (appended : ∀ row pending' db', post row pending' db') :
    Guarantees postgres R G (appendEntryInTransaction crypto env unflushed payload) post
      pending db := by
  rw [appendEntryInTransaction_eq]
  refine Guarantees.select_bind fun seen view hseen hview => ?_
  refine guarantees_found_bind fun signature hsign => ?_
  refine Guarantees.send_bind fun db₁ n hdb₁ =>
    ⟨sends seen view signature db₁ n hseen hview hsign hdb₁, ?_⟩
  refine Guarantees.select_bind fun db₂ view₂ _ _ => ?_
  cases view₂.auditLog.find? fun r => r.id = (newEntry crypto env _ payload signature).id with
  | none => exact Guarantees.raise
  | some row => exact Guarantees.return fun _ _ => appended _ _ _

/-! ## Transactions that append -/

/-- One transaction of a session that writes to the log: an append on its own, or any number
of appends of a caller that commits or gives up. -/
inductive AppendTransaction where
  | standalone (env : AppendEnv) (payload : AuditLogEntryCreate)
  | within (appends : List (AppendEnv × AuditLogEntryCreate)) (commits : Bool)

def appendAll (crypto : AuditCrypto) : List (AppendEnv × AuditLogEntryCreate) → Service Unit
  | [] => return ()
  | a :: as => do
    let _ ← appendEntryInTransaction crypto a.1 [] a.2
    appendAll crypto as

namespace AppendTransaction

def request (crypto : AuditCrypto) : AppendTransaction → Service Unit
  | standalone env payload => do
    let _ ← appendEntry crypto env payload
    return ()
  | within appends commits => do
    appendAll crypto appends
    if commits then Request.commitTransaction else .raise .exception

def appends : AppendTransaction → List (AppendEnv × AuditLogEntryCreate)
  | standalone env payload => [(env, payload)]
  | within appends _ => appends

end AppendTransaction

end NexusEngine.AuditAppends
