import NexusEngine.AuditService
import NexusEngine.Sha256

/-!
# What a verified chain commits to

The canonical payload determines the hash before an entry and every hashed field, up to the
offset of the timestamp and the order of metadata keys. The walk of `verify_chain` checks
every row against the stored hash of the row before it, so that a valid log is an intact
hash chain whose signatures verify.
-/

namespace NexusEngine.AuditVerification

open TransactionalRequests TextEncodings JsonDocuments CalendarTime StoredColumns
  AuditLogTable Database HashChains AuditService

/-! ## The canonical payload -/

/-- Fields up to the offset of the timestamp and the order of metadata keys. -/
def normalFields (f : EntryFields) : EntryFields :=
  { f with
    occurredAt := f.occurredAt.astimezoneUtc
    metadataJson := sortKeys f.metadataJson }

theorem optionalText_injective : Function.Injective optionalText := by
  rintro (_ | s) (_ | s') h <;> simp_all [optionalText]

theorem sortKeys_optionalText (s : Option String) : sortKeys (optionalText s) = optionalText s := by
  cases s <;> rfl

theorem sortKeys_canonicalDocument (prevHash : Option String) (f : EntryFields) :
    sortKeys (canonicalDocument prevHash f) = .obj [
      ("actor", .str f.actor),
      ("description", .str f.description),
      ("event_subtype", .str f.eventSubtype),
      ("event_type", .str f.eventType),
      ("metadata_json", sortKeys f.metadataJson),
      ("occurred_at", .str (String.ofList f.occurredAt.astimezoneUtc.isoformat)),
      ("prev_hash", optionalText prevHash),
      ("severity", .str f.severity),
      ("source_ip", optionalText f.sourceIp),
      ("tenant_slug", optionalText f.tenantSlug)] := by
  simp only [canonicalDocument, sortKeys, sortKeysMembers_eq_map, List.map_cons, List.map_nil,
    sortKeys_optionalText]
  simp [sortMembers, keyLe]

/-- The canonical payload is injective up to what `normalFields` forgets. -/
theorem canonicalPayload_inj {p p' : Option String} {f f' : EntryFields} :
    canonicalPayload p f = canonicalPayload p' f' ↔
      p = p' ∧ normalFields f = normalFields f' := by
  unfold canonicalPayload
  rw [utf8_injective.eq_iff, dumps_eq_iff, sortKeys_canonicalDocument,
    sortKeys_canonicalDocument]
  constructor
  · intro h
    simp only [Json.obj.injEq, List.cons.injEq, Prod.mk.injEq, Json.str.injEq, true_and,
      and_true, optionalText_injective.eq_iff, String.ofList_inj] at h
    obtain ⟨hactor, hdescription, hsubtype, htype, hmetadata, hoccurred, hprev, hseverity,
      hsource, hslug⟩ := h
    have hinstant := isoformat_utc_injective hoccurred
    refine ⟨hprev, ?_⟩
    simp only [normalFields, Datetime.astimezoneUtc, hactor, hdescription, hsubtype, htype,
      hmetadata, hinstant, hseverity, hsource, hslug]
  · rintro ⟨rfl, h⟩
    simp only [normalFields, EntryFields.mk.injEq] at h
    obtain ⟨hoccurred, hseverity, htype, hsubtype, hactor, hdescription, hslug, hsource,
      hmetadata⟩ := h
    rw [hoccurred, hseverity, htype, hsubtype, hactor, hdescription, hslug, hsource, hmetadata]

section

variable {crypto : AuditCrypto}

/-- The entry hash commits to what the canonical payload does. -/
theorem computeEntryHash_inj (sha : Function.Injective crypto.sha256) {p p' : Option String}
    {f f' : EntryFields} :
    crypto.computeEntryHash p f = crypto.computeEntryHash p' f' ↔
      p = p' ∧ normalFields f = normalFields f' := by
  unfold AuditCrypto.computeEntryHash
  rw [hexdigest_injective.eq_iff, sha.eq_iff, canonicalPayload_inj]

/-! ## The walk -/

/-- What the walk finds at each entry, given the stored hash before it. -/
def verdicts (crypto : AuditCrypto) : Option String → List AuditLogEntry → List Bool
  | _, [] => []
  | before, e :: es => entryVerifies crypto before e :: verdicts crypto (some e.entryHash) es

theorem visit_run (crypto : AuditCrypto) (entries : List AuditLogEntry) (w : Walk) :
    let w' := entries.foldl (Walk.visit crypto) w
    w'.verified = w.verified + (verdicts crypto w.expectedPrevHash entries).count true ∧
      w'.failed = w.failed + (verdicts crypto w.expectedPrevHash entries).count false ∧
      w'.firstBreak = w.firstBreak.or
        (((entries.zip (verdicts crypto w.expectedPrevHash entries)).find? fun e => !e.2).map
          fun e => e.1.sequence) := by
  induction entries generalizing w with
  | nil => simp [verdicts]
  | cons e es ih =>
    obtain ⟨hverified, hfailed, hbreak⟩ := ih (w.visit crypto e)
    simp only [List.foldl_cons, verdicts, List.zip_cons_cons, List.find?_cons] at *
    rw [hverified, hfailed, hbreak]
    unfold Walk.visit
    cases hv : entryVerifies crypto w.expectedPrevHash e with
    | true => simp [Nat.add_assoc, Nat.add_comm]
    | false => simp [Nat.add_assoc, Nat.add_comm]

theorem verifyEntries_eq (entries : List AuditLogEntry) :
    verifyEntries crypto entries =
      { verifiedCount := (verdicts crypto none entries).count true
        failedCount := (verdicts crypto none entries).count false
        isValid := (verdicts crypto none entries).count false == 0
        firstBreakSequence :=
          ((entries.zip (verdicts crypto none entries)).find? fun e => !e.2).map
            fun e => e.1.sequence
        rootHash := entries.getLast?.map AuditLogEntry.entryHash } := by
  obtain ⟨hverified, hfailed, hbreak⟩ := visit_run crypto entries ⟨0, 0, none, none⟩
  simp only [verifyEntries, hverified, hfailed, hbreak, Nat.zero_add, Option.none_or]

/-- The log as a hash chain over the fields that are read back. -/
def storedChain (crypto : AuditCrypto) : ChainFormat AuditLogEntry EntryFields String where
  prev := AuditLogEntry.prevHash
  digest := AuditLogEntry.entryHash
  content r := normalFields (storedFields r)
  hash before r := crypto.computeEntryHash before (storedFields r)

theorem storedChain_binding (sha : Function.Injective crypto.sha256) :
    (storedChain crypto).Binding := fun _ _ _ _ h => (computeEntryHash_inj sha).mp h

def SignatureVerifies (crypto : AuditCrypto) (r : AuditLogEntry) : Prop :=
  crypto.verifyHexDigest r.entryHash r.signature = true

theorem entryVerifies_iff (crypto : AuditCrypto) (before : Option String) (e : AuditLogEntry) :
    entryVerifies crypto before e = true ↔
      (storedChain crypto).Fits before e ∧ SignatureVerifies crypto e := by
  simp [entryVerifies, ChainFormat.Fits, storedChain, SignatureVerifies]

/-- A log is valid when it is an intact hash chain of rows whose signatures verify. -/
theorem verdicts_all_iff {before : Option String} {entries : List AuditLogEntry} :
    (verdicts crypto before entries).count false = 0 ↔
      (storedChain crypto).Intact before entries ∧ ∀ e ∈ entries, SignatureVerifies crypto e := by
  induction entries generalizing before with
  | nil => simp [verdicts]
  | cons e es ih =>
    have hstep := entryVerifies_iff crypto before e
    have hcount : (verdicts crypto before (e :: es)).count false = 0 ↔
        entryVerifies crypto before e = true ∧
          (verdicts crypto (some e.entryHash) es).count false = 0 := by
      cases hv : entryVerifies crypto before e <;> simp [verdicts, hv]
    rw [hcount, hstep, ih]
    simp only [ChainFormat.Intact, List.forall_mem_cons]
    constructor
    · rintro ⟨⟨hfits, hsig⟩, hintact, hrest⟩
      exact ⟨⟨hfits, hintact⟩, hsig, hrest⟩
    · rintro ⟨⟨hfits, hintact⟩, hsig, hrest⟩
      exact ⟨⟨hfits, hsig⟩, hintact, hrest⟩

theorem verifyEntries_isValid_iff {entries : List AuditLogEntry} :
    (verifyEntries crypto entries).isValid = true ↔
      (storedChain crypto).Intact none entries ∧ ∀ e ∈ entries, SignatureVerifies crypto e := by
  rw [verifyEntries_eq, ← verdicts_all_iff]
  simp

/-! ## Equal roots -/

/-- What `verify_chain` reports on a table. -/
def report (crypto : AuditCrypto) (log : List AuditLogEntry) : ChainVerificationResult :=
  verifyEntries crypto (inSequenceOrder log)

theorem verifyChain_report (durable work : Db) (sequence : ℕ) :
    ((verifyChain crypto).serial postgres durable work sequence).result =
      .ok (report crypto work.auditLog) := rfl

/-- Two rows agree on their place in the chain and on every hashed field. -/
structure SameHashedFields (r r' : AuditLogEntry) : Prop where
  prevHash : r.prevHash = r'.prevHash
  entryHash : r.entryHash = r'.entryHash
  occurredAt : r.occurredAt.utc = r'.occurredAt.utc
  severity : r.severity = r'.severity
  eventType : r.eventType = r'.eventType
  eventSubtype : r.eventSubtype = r'.eventSubtype
  actor : r.actor = r'.actor
  description : r.description = r'.description
  tenantSlug : r.tenantSlug = r'.tenantSlug
  sourceIp : r.sourceIp = r'.sourceIp
  metadataJson : sortKeys r.metadataJson = sortKeys r'.metadataJson

theorem severity_value_injective : Function.Injective AuditSeverity.value := by
  intro a b h
  cases a <;> cases b <;> first | rfl | exact absurd h (by decide)

theorem eventType_value_injective : Function.Injective AuditEventType.value := by
  intro a b h
  cases a <;> cases b <;> first | rfl | exact absurd h (by decide)

theorem normalFields_storedFields_iff {r r' : AuditLogEntry} :
    normalFields (storedFields r) = normalFields (storedFields r') ↔
      r.occurredAt.utc = r'.occurredAt.utc ∧ r.severity = r'.severity ∧
        r.eventType = r'.eventType ∧ r.eventSubtype = r'.eventSubtype ∧ r.actor = r'.actor ∧
          r.description = r'.description ∧ r.tenantSlug = r'.tenantSlug ∧
            r.sourceIp = r'.sourceIp ∧ sortKeys r.metadataJson = sortKeys r'.metadataJson := by
  simp only [normalFields, storedFields, Datetime.astimezoneUtc, EntryFields.mk.injEq,
    Datetime.mk.injEq, and_true, severity_value_injective.eq_iff,
    eventType_value_injective.eq_iff]

theorem sameHashedFields_of_view {r r' : AuditLogEntry}
    (h : (storedChain crypto).view r = (storedChain crypto).view r') : SameHashedFields r r' := by
  simp only [ChainFormat.view, storedChain, Prod.mk.injEq, normalFields_storedFields_iff] at h
  obtain ⟨hprev, hdigest, hoccurred, hseverity, htype, hsubtype, hactor, hdescription, hslug,
    hsource, hmetadata⟩ := h
  exact ⟨hprev, hdigest, hoccurred, hseverity, htype, hsubtype, hactor, hdescription, hslug,
    hsource, hmetadata⟩

end

/-! ## Sample entries

A signature scheme that accepts one signature for each digest, and a hash that has the
SHA-256 digests of the payloads below and keeps all other inputs apart.
-/

def samplePayload (severity description : String) : AuditLogEntryCreate where
  severity := severity
  eventType := "state_change"
  eventSubtype := "test.event"
  actor := "tester"
  description := description

def sampleEnv (k : ℕ) : AppendEnv where
  now := 63839664000000042 + k * 1000000
  uuid4 := k
  nonce := k

def sampleFields (k : ℕ) (severity description : String) : EntryFields :=
  payloadFields (sampleEnv k).now (samplePayload severity description)

def firstHash : String := "68e5dc20b61da643b7f7dc15f0ca953a28eff19cee2be93228c8cee616ca0b80"

def secondHash : String := "51fc1c6fad45e6f14bedc88eedbcce7e95e137451f6223453cf68625e2197766"

/-- The second event, hashed by a session that has not seen the first. -/
def forkHash : String := "d78fa72f4e234ac60604df4a449cbb57075f310ad20917eb1bd6b6e6d4ed6d1f"

/-- The first event with its severity given by name. -/
def namedHash : String := "2bd83b08748383a957a7481c628bf630da12133aa72e6c4ea47881e5cc5ff8d5"

def sampleDigests : List (Bytes × String) :=
  [(canonicalPayload none (sampleFields 0 "info" "first event"), firstHash),
    (canonicalPayload (some firstHash) (sampleFields 1 "info" "second event"), secondHash),
    (canonicalPayload none (sampleFields 1 "info" "second event"), forkHash),
    (canonicalPayload none (sampleFields 0 "INFO" "first event"), namedHash)]

def sampleSha256 (bs : Bytes) : Bytes :=
  match sampleDigests.find? fun e => e.1 = bs with
  | some e => (fromHex e.2).getD []
  | none => List.replicate 33 0 ++ bs

def sampleCrypto : AuditCrypto where
  sha256 := sampleSha256
  signingKeyId := "nexus-signing-key-v4:5f0c1d2e"
  sign _ digest := 0x30 :: digest
  verify signature digest := signature == 0x30 :: digest

/-- The same signature scheme with the hash itself. -/
def sha256Crypto : AuditCrypto := { sampleCrypto with sha256 := Sha256.sha256 }

theorem sampleDigests_hex : ∀ e ∈ sampleDigests, (fromHex e.2).isSome = true ∧
    ((fromHex e.2).getD []).length = 32 ∧ hexdigest ((fromHex e.2).getD []) = e.2 := by
  decide +kernel

theorem sampleSha256_injective : Function.Injective sampleSha256 := by
  have hdigest : ∀ e ∈ sampleDigests, ((fromHex e.2).getD []).length = 32 := fun e he =>
    (sampleDigests_hex e he).2.1
  have hhex : ∀ e ∈ sampleDigests, hexdigest ((fromHex e.2).getD []) = e.2 := fun e he =>
    (sampleDigests_hex e he).2.2
  have hnodup : (sampleDigests.map Prod.snd).Nodup := by
    simp [sampleDigests, firstHash, secondHash, forkHash, namedHash]
  intro bs bs' h
  unfold sampleSha256 at h
  cases hfind : sampleDigests.find? fun e => e.1 = bs with
  | none =>
    cases hfind' : sampleDigests.find? fun e => e.1 = bs' with
    | none =>
      simp only [hfind, hfind'] at h
      exact List.append_cancel_left h
    | some e' =>
      simp only [hfind, hfind'] at h
      have hlen := congrArg List.length h
      rw [hdigest e' (List.mem_of_find?_eq_some hfind')] at hlen
      simp at hlen
  | some e =>
    have hmem := List.mem_of_find?_eq_some hfind
    have hkey : e.1 = bs := by simpa using List.find?_some hfind
    cases hfind' : sampleDigests.find? fun e => e.1 = bs' with
    | none =>
      simp only [hfind, hfind'] at h
      have hlen := congrArg List.length h
      rw [hdigest e hmem] at hlen
      simp at hlen
    | some e' =>
      have hmem' := List.mem_of_find?_eq_some hfind'
      have hkey' : e'.1 = bs' := by simpa using List.find?_some hfind'
      simp only [hfind, hfind'] at h
      have hsame : e.2 = e'.2 := by rw [← hhex e hmem, h, hhex e' hmem']
      rw [← hkey, ← hkey', List.inj_on_of_nodup_map hnodup hmem hmem' hsame]

theorem sampleCrypto_sign (nonce : ℕ) (digest : Bytes) :
    sampleCrypto.verify (sampleCrypto.sign nonce digest) digest = true := by simp [sampleCrypto]

theorem sampleCrypto_unique (signature signature' digest : Bytes)
    (h : sampleCrypto.verify signature digest = true)
    (h' : sampleCrypto.verify signature' digest = true) : signature = signature' := by
  simp only [sampleCrypto, beq_iff_eq] at h h'
  rw [h, h']

/-- The sample payloads differ in the hash before them, the severity or the description. -/
theorem sampleDigests_nodup : (sampleDigests.map Prod.fst).Nodup := by
  simp [sampleDigests, canonicalPayload_inj, normalFields, sampleFields, payloadFields,
    samplePayload]

theorem computeEntryHash_sample {prevHash : Option String} {f : EntryFields} {hash : String}
    (h : (canonicalPayload prevHash f, hash) ∈ sampleDigests) :
    sampleCrypto.computeEntryHash prevHash f = hash := by
  have hlookup : sampleSha256 (canonicalPayload prevHash f) = (fromHex hash).getD [] := by
    unfold sampleSha256
    cases hfind : sampleDigests.find? fun e => e.1 = canonicalPayload prevHash f with
    | none => simpa using List.find?_eq_none.mp hfind _ h
    | some e =>
      have hkey : e.1 = canonicalPayload prevHash f := by simpa using List.find?_some hfind
      rw [List.inj_on_of_nodup_map sampleDigests_nodup (List.mem_of_find?_eq_some hfind) h hkey]
  have hhex := (sampleDigests_hex _ h).2.2
  simp only [AuditCrypto.computeEntryHash, sampleCrypto, hlookup] at hhex ⊢
  exact hhex

def sampleRow (k : ℕ) (offset : ℤ) (prevHash : Option String) (entryHash description : String) :
    AuditLogEntry where
  id := k
  sequence := k + 1
  occurredAt := ⟨(sampleEnv k).now, offset⟩
  severity := .info
  eventType := .stateChange
  eventSubtype := "test.event"
  tenantId := none
  tenantSlug := none
  actor := "tester"
  sourceIp := none
  description := description
  metadataJson := .obj []
  prevHash := prevHash
  entryHash := entryHash
  signingKeyId := sampleCrypto.signingKeyId
  signature := (sampleCrypto.signHexDigest k entryHash).getD ""
  createdAt := ⟨(sampleEnv k).now, offset⟩

def sampleLog (offset : ℤ) : List AuditLogEntry :=
  [sampleRow 0 offset none firstHash "first event",
    sampleRow 1 offset (some firstHash) secondHash "second event"]

theorem sampleRow_fits {k : ℕ} {offset : ℤ} {prevHash : Option String}
    {entryHash description : String}
    (h : (canonicalPayload prevHash (sampleFields k "info" description), entryHash) ∈
      sampleDigests) :
    (storedChain sampleCrypto).Fits prevHash (sampleRow k offset prevHash entryHash description) :=
  ⟨((computeEntryHash_inj sampleSha256_injective).mpr ⟨rfl, rfl⟩).trans
    (computeEntryHash_sample h), rfl⟩

theorem sampleRow_signature {k : ℕ} {offset : ℤ} {prevHash : Option String}
    {entryHash description : String}
    (h : (canonicalPayload prevHash (sampleFields k "info" description), entryHash) ∈
      sampleDigests) :
    SignatureVerifies sampleCrypto (sampleRow k offset prevHash entryHash description) := by
  obtain ⟨digest, hdigest⟩ := Option.isSome_iff_exists.mp (sampleDigests_hex _ h).1
  simp [SignatureVerifies, sampleRow, AuditCrypto.verifyHexDigest, AuditCrypto.signHexDigest,
    hdigest, b64decode_b64encode, sampleCrypto]

theorem firstDigest_mem :
    (canonicalPayload none (sampleFields 0 "info" "first event"), firstHash) ∈ sampleDigests := by
  simp [sampleDigests]

theorem secondDigest_mem :
    (canonicalPayload (some firstHash) (sampleFields 1 "info" "second event"), secondHash) ∈
      sampleDigests := by
  simp [sampleDigests]

theorem sampleLog_valid (offset : ℤ) : (report sampleCrypto (sampleLog offset)).isValid = true := by
  apply verifyEntries_isValid_iff.mpr
  constructor
  · exact ⟨sampleRow_fits firstDigest_mem, sampleRow_fits secondDigest_mem, trivial⟩
  · intro e he
    have hmem : e ∈ sampleLog offset := he
    rw [sampleLog, List.mem_pair] at hmem
    rcases hmem with rfl | rfl
    · exact sampleRow_signature firstDigest_mem
    · exact sampleRow_signature secondDigest_mem

section

variable {crypto : AuditCrypto}

/-- A valid log is bound by its root hash: two valid logs with one root have the same
length and agree row by row. -/
theorem same_root_same_log (sha : Function.Injective crypto.sha256)
    {log log' : List AuditLogEntry} (root : String)
    (valid : (report crypto log).isValid = true) (valid' : (report crypto log').isValid = true)
    (hroot : (report crypto log).rootHash = some root)
    (hroot' : (report crypto log').rootHash = some root) :
    List.Forall₂ SameHashedFields (inSequenceOrder log) (inSequenceOrder log') := by
  have hintact := (verifyEntries_isValid_iff.mp valid).1
  have hintact' := (verifyEntries_isValid_iff.mp valid').1
  have hend : (storedChain crypto).endDigest none (inSequenceOrder log) =
      (storedChain crypto).endDigest none (inSequenceOrder log') := by
    rw [ChainFormat.endDigest_eq_getLast?, ChainFormat.endDigest_eq_getLast?]
    simp only [report, verifyEntries] at hroot hroot'
    exact hroot.trans hroot'.symm
  have hviews := (storedChain_binding sha).chain_eq hintact hintact' hend
  have hall : List.Forall₂ (fun r r' => (storedChain crypto).view r = (storedChain crypto).view r')
      (inSequenceOrder log) (inSequenceOrder log') := by
    rw [← List.forall₂_map_right_iff, ← List.forall₂_map_left_iff, hviews]
    exact List.forall₂_refl _
  exact hall.imp fun r r' => sameHashedFields_of_view

/-- The same two rows, read back in another time zone. -/
theorem same_root_same_log_sample :
    List.Forall₂ SameHashedFields (inSequenceOrder (sampleLog 0))
      (inSequenceOrder (sampleLog 7200)) :=
  same_root_same_log sampleSha256_injective secondHash (sampleLog_valid 0)
    (sampleLog_valid 7200) rfl rfl

/-! ## Writes to single columns -/

/-- A value for one column of a stored row. -/
inductive ColumnWrite where
  | severity (v : AuditSeverity)
  | eventType (v : AuditEventType)
  | eventSubtype (v : String)
  | tenantId (v : Option Uuid)
  | tenantSlug (v : Option String)
  | actor (v : String)
  | sourceIp (v : Option String)
  | description (v : String)
  | metadataJson (v : Json)
  | occurredAt (v : Datetime)
  | prevHash (v : Option String)
  | entryHash (v : String)
  | signingKeyId (v : String)
  | signature (v : String)
  | createdAt (v : Datetime)

namespace ColumnWrite

def apply (r : AuditLogEntry) : ColumnWrite → AuditLogEntry
  | severity v => { r with severity := v }
  | eventType v => { r with eventType := v }
  | eventSubtype v => { r with eventSubtype := v }
  | tenantId v => { r with tenantId := v }
  | tenantSlug v => { r with tenantSlug := v }
  | actor v => { r with actor := v }
  | sourceIp v => { r with sourceIp := v }
  | description v => { r with description := v }
  | metadataJson v => { r with metadataJson := v }
  | occurredAt v => { r with occurredAt := v }
  | prevHash v => { r with prevHash := v }
  | entryHash v => { r with entryHash := v }
  | signingKeyId v => { r with signingKeyId := v }
  | signature v => { r with signature := v }
  | createdAt v => { r with createdAt := v }

/-- The value is not the stored one. Timestamps are compared as instants and metadata up to
the order of keys. -/
def Changes (r : AuditLogEntry) : ColumnWrite → Prop
  | severity v => v ≠ r.severity
  | eventType v => v ≠ r.eventType
  | eventSubtype v => v ≠ r.eventSubtype
  | tenantId v => v ≠ r.tenantId
  | tenantSlug v => v ≠ r.tenantSlug
  | actor v => v ≠ r.actor
  | sourceIp v => v ≠ r.sourceIp
  | description v => v ≠ r.description
  | metadataJson v => sortKeys v ≠ sortKeys r.metadataJson
  | occurredAt v => v.utc ≠ r.occurredAt.utc
  | prevHash v => v ≠ r.prevHash
  | entryHash v => v ≠ r.entryHash
  | signingKeyId v => v ≠ r.signingKeyId
  | signature v => v ≠ r.signature
  | createdAt v => v.utc ≠ r.createdAt.utc

/-- The columns the chain commits to: all but the tenant, the key id and the creation time,
and of a signature text no more than the bytes it decodes to. -/
def Committed (r : AuditLogEntry) : ColumnWrite → Prop
  | tenantId _ => False
  | signingKeyId _ => False
  | createdAt _ => False
  | signature v => b64decode v ≠ b64decode r.signature
  | _ => True

theorem apply_sequence (w : ColumnWrite) (r : AuditLogEntry) :
    (w.apply r).sequence = r.sequence := by
  cases w <;> rfl

end ColumnWrite

/-- Sorting puts a row where it would put any other row with its sequence number. -/
theorem orderedInsert_split (c r : AuditLogEntry) (before after : List AuditLogEntry) :
    ∃ before' after', ∀ r' : AuditLogEntry, r'.sequence = r.sequence →
      (before ++ r' :: after).orderedInsert (fun a b => a.sequence ≤ b.sequence) c =
        before' ++ r' :: after' := by
  induction before with
  | nil =>
    by_cases h : c.sequence ≤ r.sequence
    · exact ⟨[c], after, fun r' hr' => by simp [hr', h]⟩
    · exact ⟨[], after.orderedInsert (fun a b => a.sequence ≤ b.sequence) c,
        fun r' hr' => by simp [hr', h]⟩
  | cons b before ih =>
    by_cases h : c.sequence ≤ b.sequence
    · exact ⟨c :: b :: before, after, fun r' _ => by simp [h]⟩
    · obtain ⟨before', after', hsplit⟩ := ih
      exact ⟨b :: before', after', fun r' hr' => by simp [h, hsplit r' hr']⟩

theorem inSequenceOrder_split (r : AuditLogEntry) (before after : List AuditLogEntry) :
    ∃ before' after', ∀ r' : AuditLogEntry, r'.sequence = r.sequence →
      inSequenceOrder (before ++ r' :: after) = before' ++ r' :: after' := by
  induction before with
  | nil =>
    refine ⟨(inSequenceOrder after).takeWhile (fun b => decide ¬ r.sequence ≤ b.sequence),
      (inSequenceOrder after).dropWhile (fun b => decide ¬ r.sequence ≤ b.sequence),
      fun r' hr' => ?_⟩
    simp only [inSequenceOrder, List.nil_append, List.insertionSort_cons,
      List.orderedInsert_eq_take_drop, hr']
  | cons b before ih =>
    obtain ⟨before', after', hsplit⟩ := ih
    obtain ⟨before'', after'', hinsert⟩ := orderedInsert_split b r before' after'
    refine ⟨before'', after'', fun r' hr' => ?_⟩
    rw [← hinsert r' hr', ← hsplit r' hr']
    rfl

/-- A row that replaces another one in a valid log has to name the same hash before it. -/
theorem replaced_row_fits {before after : List AuditLogEntry} {r r' : AuditLogEntry}
    (hseq : r'.sequence = r.sequence)
    (valid : (report crypto (before ++ r :: after)).isValid = true)
    (valid' : (report crypto (before ++ r' :: after)).isValid = true) :
    (storedChain crypto).Fits r.prevHash r ∧ (storedChain crypto).Fits r.prevHash r' ∧
      SignatureVerifies crypto r' := by
  obtain ⟨front, back, hsplit⟩ := inSequenceOrder_split r before after
  obtain ⟨hintact, -⟩ := verifyEntries_isValid_iff.mp valid
  obtain ⟨hintact', hsignatures'⟩ := verifyEntries_isValid_iff.mp valid'
  rw [hsplit r rfl, ChainFormat.intact_append] at hintact
  rw [hsplit r' hseq, ChainFormat.intact_append] at hintact'
  rw [hsplit r' hseq] at hsignatures'
  have hfits := hintact.2.1
  have hprev : r.prevHash = (storedChain crypto).endDigest none front := hfits.2
  rw [← hprev] at hfits hintact'
  exact ⟨hfits, hintact'.2.1, hsignatures' r' (by simp)⟩

/-- What the chain does not commit to can be replaced. -/
theorem replaced_row_valid (before after : List AuditLogEntry) {r r' : AuditLogEntry}
    (hseq : r'.sequence = r.sequence) (hfields : storedFields r' = storedFields r)
    (hprev : r'.prevHash = r.prevHash) (hhash : r'.entryHash = r.entryHash)
    (hsignature : SignatureVerifies crypto r')
    (valid : (report crypto (before ++ r :: after)).isValid = true) :
    (report crypto (before ++ r' :: after)).isValid = true := by
  obtain ⟨front, back, hsplit⟩ := inSequenceOrder_split r before after
  obtain ⟨hintact, hsignatures⟩ := verifyEntries_isValid_iff.mp valid
  refine verifyEntries_isValid_iff.mpr ?_
  rw [hsplit r rfl] at hintact hsignatures
  rw [hsplit r' hseq]
  rw [ChainFormat.intact_append] at hintact ⊢
  obtain ⟨hfront, ⟨hdigest, hname⟩, hback⟩ := hintact
  refine ⟨⟨hfront, ⟨?_, ?_⟩, ?_⟩, ?_⟩
  · simpa only [storedChain, hfields, hhash] using hdigest
  · simpa only [storedChain, hprev] using hname
  · simpa only [storedChain, hhash] using hback
  · intro e he
    rcases List.mem_append.mp he with hf | hb
    · exact hsignatures e (List.mem_append_left _ hf)
    · rcases List.mem_cons.mp hb with rfl | hb
      · exact hsignature
      · exact hsignatures e (by simp [hb])

theorem signatureVerifies_congr (r r' : AuditLogEntry) (hhash : r'.entryHash = r.entryHash)
    (hsignature : b64decode r'.signature = b64decode r.signature) :
    SignatureVerifies crypto r' ↔ SignatureVerifies crypto r := by
  simp only [SignatureVerifies, AuditCrypto.verifyHexDigest, hhash, hsignature]

/-- With a scheme that accepts one signature for a digest, two signatures of one entry hash
decode to the same bytes. -/
theorem signature_decodes_uniquely
    (unique : ∀ signature signature' digest, crypto.verify signature digest = true →
      crypto.verify signature' digest = true → signature = signature')
    (r r' : AuditLogEntry) (hhash : r'.entryHash = r.entryHash)
    (h : SignatureVerifies crypto r) (h' : SignatureVerifies crypto r') :
    b64decode r'.signature = b64decode r.signature := by
  simp only [SignatureVerifies, AuditCrypto.verifyHexDigest, hhash] at h h'
  cases hdigest : fromHex r.entryHash with
  | none => simp [hdigest] at h
  | some digest =>
    cases hs : b64decode r.signature with
    | none => simp [hs] at h
    | some signature =>
      cases hs' : b64decode r'.signature with
      | none => simp [hs'] at h'
      | some signature' =>
        simp only [hdigest, hs, hs'] at h h'
        rw [unique _ _ _ h' h]

/-- A row with other hashed fields under the same entry hash is detected. -/
theorem replaced_fields_detected (sha : Function.Injective crypto.sha256)
    {before after : List AuditLogEntry} {r r' : AuditLogEntry} (hseq : r'.sequence = r.sequence)
    (hhash : r'.entryHash = r.entryHash)
    (hne : normalFields (storedFields r') ≠ normalFields (storedFields r))
    (valid : (report crypto (before ++ r :: after)).isValid = true) :
    (report crypto (before ++ r' :: after)).isValid = false := by
  rw [Bool.eq_false_iff]
  intro valid'
  obtain ⟨⟨hdigest, -⟩, ⟨hdigest', -⟩, -⟩ := replaced_row_fits hseq valid valid'
  have hsame : crypto.computeEntryHash r.prevHash (storedFields r') =
      crypto.computeEntryHash r.prevHash (storedFields r) :=
    hdigest'.trans (hhash.trans hdigest.symm)
  exact hne ((computeEntryHash_inj sha).mp hsame).2

/-- A write to a single column of a valid log is detected exactly when the chain commits to
the column. -/
theorem column_write_detected_iff (sha : Function.Injective crypto.sha256)
    (unique : ∀ signature signature' digest, crypto.verify signature digest = true →
      crypto.verify signature' digest = true → signature = signature')
    {before after : List AuditLogEntry} {r : AuditLogEntry} {w : ColumnWrite}
    (valid : (report crypto (before ++ r :: after)).isValid = true) (changes : w.Changes r) :
    (report crypto (before ++ w.apply r :: after)).isValid = false ↔ w.Committed r := by
  have hsignature : SignatureVerifies crypto r :=
    (replaced_row_fits rfl valid valid).2.2
  have hseq : ∀ w : ColumnWrite, (w.apply r).sequence = r.sequence := fun w => w.apply_sequence r
  have undetected : ∀ r' : AuditLogEntry, (report crypto (before ++ r' :: after)).isValid = true →
      ¬ (report crypto (before ++ r' :: after)).isValid = false := by
    intro r' h
    simp [h]
  cases w with
  | tenantId v =>
    exact iff_of_false (undetected _
      (replaced_row_valid before after (hseq _) rfl rfl rfl hsignature valid)) id
  | signingKeyId v =>
    exact iff_of_false (undetected _
      (replaced_row_valid before after (hseq _) rfl rfl rfl hsignature valid)) id
  | createdAt v =>
    exact iff_of_false (undetected _
      (replaced_row_valid before after (hseq _) rfl rfl rfl hsignature valid)) id
  | prevHash v =>
    refine iff_of_true (Bool.eq_false_iff.mpr fun valid' => ?_) trivial
    obtain ⟨-, ⟨-, hname⟩, -⟩ := replaced_row_fits (hseq _) valid valid'
    exact changes hname
  | entryHash v =>
    refine iff_of_true (Bool.eq_false_iff.mpr fun valid' => ?_) trivial
    obtain ⟨⟨hdigest, -⟩, ⟨hdigest', -⟩, -⟩ := replaced_row_fits (hseq _) valid valid'
    exact changes (hdigest'.symm.trans hdigest)
  | signature v =>
    have hdecodes : (report crypto (before ++ (ColumnWrite.signature v).apply r :: after)).isValid =
        true ↔ b64decode v = b64decode r.signature := by
      constructor
      · intro valid'
        exact signature_decodes_uniquely unique r ((ColumnWrite.signature v).apply r) rfl hsignature
          (replaced_row_fits (hseq _) valid valid').2.2
      · intro hsame
        exact replaced_row_valid before after (hseq _) rfl rfl rfl
          ((signatureVerifies_congr r ((ColumnWrite.signature v).apply r) rfl hsame).mpr hsignature)
          valid
    rw [← Bool.not_eq_true, hdecodes]
    rfl
  | _ =>
    refine iff_of_true (replaced_fields_detected sha (hseq _) rfl ?_ valid) trivial
    rw [Ne, normalFields_storedFields_iff]
    simp only [ColumnWrite.Changes] at changes
    simp [ColumnWrite.apply, changes]

theorem column_write_detected_iff_sample :
    (report sampleCrypto ([sampleRow 0 0 none firstHash "first event"] ++
      (ColumnWrite.signature "MA==").apply
        (sampleRow 1 0 (some firstHash) secondHash "second event") :: [])).isValid = false ↔
      (ColumnWrite.signature "MA==").Committed
        (sampleRow 1 0 (some firstHash) secondHash "second event") :=
  column_write_detected_iff sampleSha256_injective sampleCrypto_unique (sampleLog_valid 0)
    (show "MA==" ≠ (sampleRow 1 0 (some firstHash) secondHash "second event").signature by
      decide +kernel)

/-- In a valid log of two rows the second one can be given to another tenant, and its
signature a line break, without a trace. -/
theorem tenant_and_signature_text_unprotected :
    let first := sampleRow 0 0 none firstHash "first event"
    let second := sampleRow 1 0 (some firstHash) secondHash "second event"
    let tenant := ColumnWrite.tenantId (some 7)
    let signature := ColumnWrite.signature (second.signature ++ "\n")
    Function.Injective sampleCrypto.sha256 ∧
      (∀ signature signature' digest, sampleCrypto.verify signature digest = true →
        sampleCrypto.verify signature' digest = true → signature = signature') ∧
      (report sampleCrypto [first, second]).isValid = true ∧
      (tenant.Changes second ∧ (report sampleCrypto [first, tenant.apply second]).isValid = true) ∧
      signature.Changes second ∧
        (report sampleCrypto [first, signature.apply second]).isValid = true := by
  intro first second tenant signature
  have hverifies : SignatureVerifies sampleCrypto second :=
    sampleRow_signature secondDigest_mem
  have hdecodes : b64decode (second.signature ++ "\n") = b64decode second.signature := by
    decide +kernel
  refine ⟨sampleSha256_injective, sampleCrypto_unique, sampleLog_valid 0, ⟨?_, ?_⟩, ?_, ?_⟩
  · exact show some 7 ≠ none by decide
  · exact replaced_row_valid [first] [] (ColumnWrite.apply_sequence _ second) rfl rfl rfl
      hverifies (sampleLog_valid 0)
  · exact show second.signature ++ "\n" ≠ second.signature by decide +kernel
  · exact replaced_row_valid [first] [] (ColumnWrite.apply_sequence _ second) rfl rfl rfl
      ((signatureVerifies_congr second (signature.apply second) rfl hdecodes).mpr hverifies)
      (sampleLog_valid 0)

end

end NexusEngine.AuditVerification
