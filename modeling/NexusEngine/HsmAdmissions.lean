import NexusEngine.AuditAdmissions
import NexusEngine.HsmLifecycle
import NexusEngine.SecurityHistory
import NexusEngine.VersionLabels

/-!
# Key operations that go through

An operation on a key or a ceremony that passes its checks is answered where the columns take what
it writes and nothing that is drawn for it collides with a row that is there.
-/

namespace NexusEngine.HsmAdmissions

open TransactionalRequests StoredColumns JsonDocuments KeyedTables TextEncodings CalendarTime HsmTables
  AuditLogTable TenancyTables Database AuditService AuditAppends AuditedTransactions
  MetadataSanitisation AuditAdmissions HsmService HsmTransactions VersionLabels
open ConfigurationTable (maxInteger)

/-! ## What an operation relies on -/

/-- What the columns of a key hold. -/
structure StoredKey (k : MasterKey) : Prop where
  keyLabel : varchar 80 k.keyLabel = some k.keyLabel
  algorithm : varchar 40 k.algorithm = some k.algorithm
  wrapsDekCount : k.wrapsDekCount ≤ maxInteger

/-- The identifiers that are drawn for a request are new. -/
structure NewIds (env : HsmEnv) (t : HsmStore) : Prop where
  keys : t.keys.find? env.uuid4 = none
  ceremonies : t.ceremonies.find? env.uuid4 = none
  approvals : t.approvals.find? env.uuid4 = none
  attestationRuns : t.attestationRuns.find? env.uuid4 = none
  operations : t.operations.find? env.operationUuid4 = none

/-- The log takes one more entry, whoever it is by. -/
structure LogTakes (crypto : AuditCrypto) (s : Store Db) (a : Append) : Prop where
  sha256_length : ∀ bs, (crypto.sha256 bs).length = 32
  signingKeyId : (varchar 60 crypto.signingKeyId).isSome
  fresh : Fresh crypto s.db.auditLog s.sequence [a]

/-! ## Statements -/

section

variable {t : HsmStore}

theorem insertKey_accepts {k : MasterKey} (hlabel : varchar 80 k.keyLabel = some k.keyLabel)
    (halgorithm : varchar 40 k.algorithm = some k.algorithm)
    (hfree : ∀ r ∈ t.keys.rows, r.keyLabel ≠ k.keyLabel)
    (hslot : (k.slotId.all fun id => (t.slots.find? id).isSome) = true)
    (hsuperseded : t.hasKey k.supersededById = true)
    (hid : t.keys.find? k.id = none) :
    ∃ keys, t.insertKey k = some { t with keys := keys } ∧ keys.rows = t.keys.rows ++ [k] := by
  obtain ⟨keys, hkeys⟩ := Table.insert_isSome hid
  refine ⟨keys, ?_, (Table.insert_eq_some.mp hkeys).2⟩
  have hnew : (t.keys.rows.any fun r => r.keyLabel == k.keyLabel) = false := by
    simpa using hfree
  simp only [HsmStore.insertKey, hlabel, halgorithm, hnew, hslot, hsuperseded,
    Option.bind_eq_bind, Option.bind_some, Bool.and_self, if_true, hkeys]
  rfl

theorem insertOperation_accepts {o : SecurityOperation}
    (hlabel : (nullable (varchar 80) o.keyLabel).isSome) (hactor : (varchar 120 o.actor).isSome)
    (hdetail : (varchar 300 o.detail).isSome) (hkey : t.hasKey o.masterKeyId = true)
    (hid : t.operations.find? o.id = none) :
    ∃ operations, t.insertOperation o = some { t with operations := operations } := by
  obtain ⟨keyLabel, hlabel⟩ := Option.isSome_iff_exists.mp hlabel
  obtain ⟨actor, hactor⟩ := Option.isSome_iff_exists.mp hactor
  obtain ⟨detail, hdetail⟩ := Option.isSome_iff_exists.mp hdetail
  obtain ⟨operations, hoperations⟩ : ∃ operations, t.operations.insert
      { o with keyLabel := keyLabel, actor := actor, detail := detail } = some operations :=
    Table.insert_isSome hid
  refine ⟨operations, ?_⟩
  simp only [HsmStore.insertOperation, hlabel, hactor, hdetail, hkey, Option.bind_eq_bind,
    Option.bind_some, if_true, hoperations]
  rfl

theorem hasKey_iff {id : Uuid} : t.hasKey (some id) = true ↔ id ∈ t.keys.rows.map MasterKey.id :=
  Table.isSome_find?

theorem hasKey_of_mem {k : MasterKey} (h : k ∈ t.keys.rows) : t.hasKey (some k.id) = true :=
  hasKey_iff.mpr (List.mem_map_of_mem h)

/-- Which keys there are depends on the identifiers only. -/
theorem hasKey_congr {t' : HsmStore}
    (h : t'.keys.rows.map MasterKey.id = t.keys.rows.map MasterKey.id) (id : Option Uuid) :
    t'.hasKey id = t.hasKey id := by
  cases id with
  | none => rfl
  | some id => rw [Bool.eq_iff_iff, hasKey_iff, hasKey_iff, h]

end

/-- An update of a key that is there. -/
theorem saveKey_accepts {db : Db} {old new : MasterKey}
    (hold : old.id ∈ db.hsm.keys.rows.map MasterKey.id)
    (hsuperseded : old.supersededById = new.supersededById ∨
      db.hsm.hasKey new.supersededById = true) :
    ∃ keys, postgres.applyAll (saveKey old new) db =
        some { db with hsm := { db.hsm with keys := keys } } ∧
      keys.rows.map MasterKey.id = db.hsm.keys.rows.map MasterKey.id := by
  unfold saveKey
  split
  · exact ⟨db.hsm.keys, rfl, rfl⟩
  · have hreferences : (old.diff new).supersededById.all db.hsm.hasKey = true := by
      simp only [MasterKey.diff, changed]
      split
      · rfl
      · next hchanged => exact hsuperseded.resolve_left hchanged
    obtain ⟨row, hrow⟩ := Option.isSome_iff_exists.mp (Table.isSome_find?.mpr hold)
    obtain ⟨keys, hupdate⟩ : ∃ keys, db.hsm.keys.update old.id (old.diff new).apply
        (fun _ => rfl) = some keys := Table.update_isSome hrow
    refine ⟨keys, ?_, Table.keys_update hupdate⟩
    rw [StatementSemantics.applyAll_singleton]
    apply apply_hsm.mpr
    refine ⟨{ db.hsm with keys := keys }, ?_, rfl⟩
    rw [HsmStatement.apply, HsmStore.updateKey, if_pos hreferences, hupdate]
    rfl

/-- Updates of keys that are there, one after the other. -/
theorem saveKeys_accepts {db : Db} {ks : List (MasterKey × MasterKey)}
    (holds : ∀ p ∈ ks, p.1.id ∈ db.hsm.keys.rows.map MasterKey.id)
    (hsuperseded : ∀ p ∈ ks, p.1.supersededById = p.2.supersededById ∨
      db.hsm.hasKey p.2.supersededById = true) :
    ∃ keys, postgres.applyAll (ks.flatMap fun p => saveKey p.1 p.2) db =
        some { db with hsm := { db.hsm with keys := keys } } ∧
      keys.rows.map MasterKey.id = db.hsm.keys.rows.map MasterKey.id := by
  induction ks generalizing db with
  | nil => exact ⟨db.hsm.keys, rfl, rfl⟩
  | cons p ks ih =>
    obtain ⟨first, hfirst, hids⟩ := saveKey_accepts (holds p List.mem_cons_self)
      (hsuperseded p List.mem_cons_self)
    let mid : Db := { db with hsm := { db.hsm with keys := first } }
    have hmid : mid.hsm.keys.rows.map MasterKey.id = db.hsm.keys.rows.map MasterKey.id := hids
    have holds' : ∀ q ∈ ks, q.1.id ∈ mid.hsm.keys.rows.map MasterKey.id := by
      intro q hq
      rw [hmid]
      exact holds q (List.mem_cons_of_mem p hq)
    have hsuperseded' : ∀ q ∈ ks, q.1.supersededById = q.2.supersededById ∨
        mid.hsm.hasKey q.2.supersededById = true := by
      intro q hq
      rw [hasKey_congr hmid]
      exact hsuperseded q (List.mem_cons_of_mem p hq)
    obtain ⟨keys, hrest, hkeys⟩ := ih holds' hsuperseded'
    refine ⟨keys, ?_, hkeys.trans hmid⟩
    rw [List.flatMap_cons, StatementSemantics.applyAll_append, hfirst]
    exact hrest

/-- The record of an operation, on a key that is there or on none. -/
theorem recordOperation_accepts {env : HsmEnv} (operationType : SecurityOperationType)
    (key : Option MasterKey) {actor detail : String} {db : Db}
    (hlabel : ∀ k, key = some k → varchar 80 k.keyLabel = some k.keyLabel)
    (hkey : db.hsm.hasKey (key.map MasterKey.id) = true) (hactor : (varchar 120 actor).isSome)
    (hdetail : (varchar 300 detail).isSome)
    (hid : db.hsm.operations.find? env.operationUuid4 = none) :
    ∃ operations, postgres.applyAll [recordOperation env operationType key actor detail] db =
      some { db with hsm := { db.hsm with operations := operations } } := by
  have hlabel' : (nullable (varchar 80) (key.map MasterKey.keyLabel)).isSome := by
    cases key with
    | none => rfl
    | some k =>
      rw [Option.map_some, nullable, hlabel k rfl]
      rfl
  obtain ⟨operations, hoperations⟩ := insertOperation_accepts (t := db.hsm)
    (o := ⟨env.operationUuid4, operationType, key.map MasterKey.id, key.map MasterKey.keyLabel,
      actor, .success, detail, env.now⟩) hlabel' hactor hdetail hkey hid
  refine ⟨operations, ?_⟩
  rw [StatementSemantics.applyAll_singleton]
  exact apply_hsm.mpr ⟨_, hoperations, rfl⟩

/-! ## Entries -/

theorem keyOperationEntry_acceptable {crypto : AuditCrypto} {tenants : List Tenant}
    {severity eventSubtype actor description : String} {metadataJson : List (String × Json)}
    (hseverity : (auditSeverityColumn.bind severity).isSome)
    (hsubtype : (varchar 60 eventSubtype).isSome) (hactor : (varchar 120 actor).isSome)
    (hdescription : (text description).isSome) (hmetadata : isStandard (.obj metadataJson) = true)
    (hsigningKey : (varchar 60 crypto.signingKeyId).isSome) :
    Acceptable crypto tenants
      (keyOperationEntry severity eventSubtype actor description metadataJson) where
  columns := {
    severity := hseverity
    eventType := rfl
    eventSubtype := hsubtype
    tenantSlug := rfl
    actor := hactor
    sourceIp := rfl
    description := hdescription
    metadataJson := Option.isSome_iff_exists.mpr
      ⟨_, if_pos (isStandard_sanitizeMetadata hmetadata)⟩
    prevHash := rfl
    signingKeyId := hsigningKey }
  tenant := rfl

/-! ## Reads -/

section

variable {durable work : Db} {n : ℕ}

theorem getKeyOrm_answers {key : MasterKey} (hkey : key ∈ work.hsm.keys.rows)
    {post : Except ServiceError MasterKey → Db → Db → ℕ → Prop}
    (h : post (.ok key) durable work n) :
    (getKeyOrm key.id).wp postgres post durable work n := by
  simp only [getKeyOrm, Request.wp_bind, Request.wp_select]
  exact wp_found_of_some (Table.find?_of_mem hkey) h

/-- A key that is there is read. -/
theorem getKey_answers {env : HsmEnv} {keyId : Uuid}
    {post : Except ServiceError MasterKeyRead → Db → Db → ℕ → Prop}
    (hkey : keyId ∈ work.hsm.keys.rows.map MasterKey.id)
    (h : ∀ read, post (.ok read) durable work n) :
    (getKey env keyId).wp postgres post durable work n := by
  obtain ⟨k, hk, rfl⟩ := List.mem_map.mp hkey
  apply (Request.wp_bind ..).mpr
  apply getKeyOrm_answers hk
  apply (Request.wp_bind ..).mpr
  apply getSlot_wp
  intro slot
  exact Request.wp_return (h _)

theorem assertLabelAvailable_answers {label : String}
    (hfree : ∀ k ∈ work.hsm.keys.rows, k.keyLabel ≠ label)
    {post : Except ServiceError Unit → Db → Db → ℕ → Prop} (h : post (.ok ()) durable work n) :
    (assertLabelAvailable label).wp postgres post durable work n := by
  simp only [assertLabelAvailable, Request.wp_bind, Request.wp_select]
  exact ensure_answers (by simpa using hfree) h

/-- The statements of an operation go through, and the log takes its entry. -/
theorem append_answers {crypto : AuditCrypto} {s : Store Db} {a : Append} {work sent : Db} {n : ℕ}
    {unflushed : List Statement} (hlog : LogTakes crypto s a)
    (hacceptable : Acceptable crypto s.db.tenancy.tenants.rows a.2) (hwork : SameLog s.db work)
    (hn : s.sequence ≤ n) (hsent : postgres.applyAll unflushed work = some sent)
    (hsame : SameLog work sent) {post : Except ServiceError AuditLogEntry → Db → Db → ℕ → Prop}
    (appended : ∀ row, post (.ok row) durable
      { sent with auditLog := sent.auditLog ++ [row] } (n + 1)) :
    (appendEntryInTransaction crypto a.1 unflushed a.2).wp postgres post durable work n := by
  have hadmissible : Admissible crypto work.tenancy.tenants.rows work.auditLog n [a] := by
    rw [hwork.tenancy, hwork.auditLog]
    exact { hlog.fresh.later hn with
      payloads := fun a' ha' => List.mem_singleton.mp ha' ▸ hacceptable }
  exact append_admitted hlog.sha256_length hadmissible hsent hsame fun row _ _ => appended row

end

/-! ## Rotations -/

/-- The entry of a rotation. -/
def rotationEntry (env : HsmEnv) (key : MasterKey) (label actor : String) : AuditLogEntryCreate :=
  keyOperationEntry "info" "KEY_ROTATED" actor ("Rotated " ++ key.keyLabel ++ " to " ++ label)
    [("predecessor_key_id", .str (uuidText key.id)),
      ("predecessor_label", .str key.keyLabel),
      ("successor_key_id", .str (uuidText env.uuid4)),
      ("successor_label", .str label),
      ("wraps_dek_count", .int key.wrapsDekCount)]

/-- What the rotation of a key relies on. -/
structure Rotatable (crypto : AuditCrypto) (env : HsmEnv) (key : MasterKey) (label actor : String)
    (s : Store Db) : Prop where
  isKey : key ∈ s.db.hsm.keys.rows
  inService : key.status = .active ∨ key.status = .expiring
  stored : StoredKey key
  slot : (key.slotId.all fun id => (s.db.hsm.slots.find? id).isSome) = true
  expires : (addDays env.now key.rotationPolicyDays).isSome
  free : ∀ k ∈ s.db.hsm.keys.rows, k.keyLabel ≠ label
  ids : NewIds env s.db.hsm
  log : LogTakes crypto s (env.audit, rotationEntry env key label actor)

theorem text_of_varchar {n : ℕ} {s : String} (h : (varchar n s).isSome) : text s = some s := by
  obtain ⟨stored, hstored⟩ := Option.isSome_iff_exists.mp h
  obtain ⟨t, ht, -⟩ := Option.bind_eq_some_iff.mp hstored
  rw [text_eq_some ht] at ht
  exact ht

section

variable {crypto : AuditCrypto} {env : HsmEnv} {key : MasterKey} {label actor : String}
  {s : Store Db}

/-- The record of a rotation fits its column. -/
theorem rotation_detail (hkey : StoredKey key) (hlabel : varchar 80 label = some label) :
    (varchar 300 ("Rotated " ++ key.keyLabel ++ " -> " ++ label ++
      " via provider abstraction (" ++ natText key.wrapsDekCount ++ " DEKs re-wrapped)")).isSome := by
  have hcount : (natText key.wrapsDekCount).toList.length ≤ 10 := by
    apply natText_length (by omega)
    have hmax := hkey.wrapsDekCount
    rw [maxInteger] at hmax
    omega
  have hold := varchar_length hkey.keyLabel
  have hnew := varchar_length hlabel
  have htext := text_append (text_append (text_append (text_append (text_append
    (text_append (s := "Rotated ") rfl (text_varchar hkey.keyLabel)) (t := " -> ") rfl)
    (text_varchar hlabel)) (t := " via provider abstraction (") rfl)
    (text_natText key.wrapsDekCount)) (t := " DEKs re-wrapped)") rfl
  rw [varchar_of_text htext]
  · rfl
  · simp only [String.toList_append, List.length_append]
    have hone : "Rotated ".toList.length = 8 := rfl
    have htwo : " -> ".toList.length = 4 := rfl
    have hthree : " via provider abstraction (".toList.length = 27 := rfl
    have hfour : " DEKs re-wrapped)".toList.length = 17 := rfl
    omega

theorem rotationEntry_acceptable {tenants : List Tenant} (hkey : StoredKey key)
    (hlabel : varchar 80 label = some label) (hactor : (varchar 120 actor).isSome)
    (hsigningKey : (varchar 60 crypto.signingKeyId).isSome) :
    Acceptable crypto tenants (rotationEntry env key label actor) := by
  apply keyOperationEntry_acceptable rfl (by decide) hactor _ rfl hsigningKey
  rw [text_append (text_append (text_append rfl (text_varchar hkey.keyLabel)) rfl)
    (text_varchar hlabel)]
  rfl

/-- The flushes of a rotation go through: the successor is inserted, and the key that it takes over
from retires. -/
theorem rotation_applies (h : Rotatable crypto env key label actor s)
    (hlabel : varchar 80 label = some label) (hactor : (varchar 120 actor).isSome)
    (expiresAt : Instant) :
    ∃ keys sent,
      postgres.applyAll [.hsm (.insertKey (successorKey env key label expiresAt))] s.db =
        some { s.db with hsm := { s.db.hsm with keys := keys } } ∧
      postgres.applyAll (saveKey key (rotatedKey env key (successorKey env key label expiresAt)) ++
          [recordOperation env .keyRotate (some (successorKey env key label expiresAt)) actor
            ("Rotated " ++ key.keyLabel ++ " -> " ++ label ++ " via provider abstraction (" ++
              natText key.wrapsDekCount ++ " DEKs re-wrapped)")])
        { s.db with hsm := { s.db.hsm with keys := keys } } = some { s.db with hsm := sent } ∧
      env.uuid4 ∈ sent.keys.rows.map MasterKey.id := by
  obtain ⟨keys, hinsert, hkeys⟩ := insertKey_accepts (t := s.db.hsm)
    (k := successorKey env key label expiresAt) hlabel h.stored.algorithm h.free h.slot rfl
    h.ids.keys
  let mid : Db := { s.db with hsm := { s.db.hsm with keys := keys } }
  have hkey : key.id ∈ mid.hsm.keys.rows.map MasterKey.id := by
    apply List.mem_map_of_mem
    exact hkeys ▸ List.mem_append_left _ h.isKey
  have hsuccessor : env.uuid4 ∈ mid.hsm.keys.rows.map MasterKey.id := by
    apply List.mem_map.mpr
    refine ⟨successorKey env key label expiresAt, ?_, rfl⟩
    simp [mid, hkeys]
  have hsuperseded : mid.hsm.hasKey
      (rotatedKey env key (successorKey env key label expiresAt)).supersededById = true :=
    hasKey_iff.mpr hsuccessor
  obtain ⟨saved, hsave, hids⟩ := saveKey_accepts hkey (.inr hsuperseded)
  let kept : Db := { mid with hsm := { mid.hsm with keys := saved } }
  have hsaved : env.uuid4 ∈ kept.hsm.keys.rows.map MasterKey.id := hids ▸ hsuccessor
  have hnew : kept.hsm.operations.find? env.operationUuid4 = none := h.ids.operations
  obtain ⟨operations, hrecord⟩ := recordOperation_accepts .keyRotate
    (some (successorKey env key label expiresAt)) (fun k hk => Option.some.inj hk ▸ hlabel)
    (hasKey_iff.mpr hsaved) hactor (rotation_detail h.stored hlabel) hnew
  refine ⟨keys, { s.db.hsm with keys := saved, operations := operations }, ?_, ?_, hsaved⟩
  · rw [StatementSemantics.applyAll_singleton]
    exact apply_hsm.mpr ⟨_, hinsert, rfl⟩
  · rw [StatementSemantics.applyAll_append, hsave]
    exact hrecord

/-- A rotation to a label that fits is answered. -/
theorem rotateKey_answered {payload : MasterKeyRotateRequest}
    (h : Rotatable crypto env key (successorLabel key payload.newLabel) actor s)
    (hlabel : varchar 80 (successorLabel key payload.newLabel) =
      some (successorLabel key payload.newLabel)) (hactor : (varchar 120 actor).isSome) :
    Answered (rotateKey crypto env key.id actor payload) s := by
  obtain ⟨expiresAt, hexpires⟩ := Option.isSome_iff_exists.mp h.expires
  obtain ⟨keys, sent, hinsert, hsave, hread⟩ := rotation_applies h hlabel hactor expiresAt
  have hinserted : SameLog s.db { s.db with hsm := { s.db.hsm with keys := keys } } := ⟨rfl, rfl⟩
  have hsaved : SameLog { s.db with hsm := { s.db.hsm with keys := keys } }
      { s.db with hsm := sent } := ⟨rfl, rfl⟩
  apply answered_of_wp
  apply (Request.wp_bind ..).mpr
  apply getKeyOrm_answers h.isKey
  apply (Request.wp_bind ..).mpr
  apply ensure_answers h.inService
  apply (Request.wp_bind ..).mpr
  apply assertLabelAvailable_answers h.free
  apply (Request.wp_bind ..).mpr
  apply wp_found_of_some hexpires
  apply (Request.wp_bind ..).mpr
  apply Request.wp_send_of_some hinsert
  apply (Request.wp_bind ..).mpr
  apply append_answers h.log (rotationEntry_acceptable h.stored hlabel hactor h.log.signingKeyId)
    hinserted (Nat.le_succ _) hsave hsaved
  intro row
  apply Request.wp_commitTransaction_bind
  exact getKey_answers hread fun read => ⟨read, rfl⟩

/-- A rotation to a label that does not fit fails and leaves the database. -/
theorem rotateKey_refused {payload : MasterKeyRotateRequest} (hkey : key ∈ s.db.hsm.keys.rows)
    (hlong : 80 < (successorLabel key payload.newLabel).toList.length) :
    ∃ error, ((rotateKey crypto env key.id actor payload).serial postgres s.db s.db
        s.sequence).result = .error error ∧
      ((rotateKey crypto env key.id actor payload).serial postgres s.db s.db
        s.sequence).db = s.db := by
  have hwp : (rotateKey crypto env key.id actor payload).wp postgres
      (Ends crypto (HsmPlan s.db.hsm (.rotateKey env key.id actor payload)) s.db s.sequence)
      s.db s.db s.sequence := rotateKey_ends env key.id actor payload
  obtain ⟨work, hends⟩ := Request.serial_sound hwp
  generalize hserial : (rotateKey crypto env key.id actor payload).serial postgres s.db s.db
    s.sequence = outcome at hends ⊢
  obtain ⟨result, db', n⟩ := outcome
  dsimp only at hends ⊢
  cases hends with
  | failed hle => exact ⟨_, rfl, rfl⟩
  | performed planned performed =>
    obtain ⟨mid, rows, hmid, -, -⟩ := performed.outcome
    generalize hid : key.id = keyId at planned
    cases planned with
    | rotated isKey inService available expires isSuccessor isEntry =>
      obtain rfl := s.db.hsm.keys.eq_of_key_eq hkey isKey hid
      rw [StatementSemantics.applyAll_cons] at hmid
      obtain ⟨inserted, hinsert, -⟩ := Option.bind_eq_some_iff.mp hmid
      obtain ⟨hsm, hstatement, -⟩ := apply_hsm.mp hinsert
      obtain ⟨label, _, _, hlabel, -⟩ := HsmStore.insertKey_eq_some hstatement
      rw [isSuccessor] at hlabel
      have hlength := varchar_length hlabel
      rw [SecurityHistory.successorLabel_stored payload hlabel] at hlength
      omega

end

/-! ## Default rotations -/

/-- A key in service with a label that a request can give. -/
structure InService (key : MasterKey) : Prop where
  status : key.status = .active ∨ key.status = .expiring
  label_min : 3 ≤ key.keyLabel.toList.length
  label_max : key.keyLabel.toList.length ≤ 80

/-- A rotation that names no label. -/
def defaultRotation : MasterKeyRotateRequest where
  newLabel := none
  newLabel_min := no_newLabel_min
  newLabel_max := no_newLabel_max

/-- Where the label leaves room, and only there, the label that a default rotation computes is
another one that fits, so that the rotation is answered; elsewhere every rotation fails. -/
theorem default_rotation_iff {key : MasterKey} (hkey : InService key) :
    ((nextVersionLabel key.keyLabel ≠ key.keyLabel ∧
        (nextVersionLabel key.keyLabel).toList.length ≤ 80 ∧
        ∀ (crypto : AuditCrypto) (env : HsmEnv) (actor : String) (s : Store Db),
          (varchar 120 actor).isSome →
          Rotatable crypto env key (nextVersionLabel key.keyLabel) actor s →
          Answered (rotateKey crypto env key.id actor defaultRotation) s) ↔
      LeavesRoom 80 key.keyLabel) ∧
    (¬ LeavesRoom 80 key.keyLabel →
      ∀ (crypto : AuditCrypto) (env : HsmEnv) (actor : String) (s : Store Db),
        key ∈ s.db.hsm.keys.rows →
        ∃ error, ((rotateKey crypto env key.id actor defaultRotation).serial postgres s.db s.db
            s.sequence).result = .error error ∧
          ((rotateKey crypto env key.id actor defaultRotation).serial postgres s.db s.db
            s.sequence).db = s.db) := by
  have hfits := nextVersionLabel_length_le hkey.label_max
  refine ⟨⟨fun h => hfits.mp h.2.1, fun hroom => ?_⟩, fun hroom crypto env actor s hmem => ?_⟩
  · refine ⟨nextVersionLabel_ne _, hfits.mpr hroom, fun crypto env actor s hactor h => ?_⟩
    have htext := text_nextVersionLabel (text_varchar h.stored.keyLabel)
    exact rotateKey_answered h (varchar_of_text htext (hfits.mpr hroom)) hactor
  · have hlong := mt hfits.mp hroom
    apply rotateKey_refused hmem
    change 80 < (nextVersionLabel key.keyLabel).toList.length
    omega

/-- A key in service. -/
def sampleServiceKey (keyLabel : String) : MasterKey where
  id := 7
  keyLabel := keyLabel
  slotId := none
  algorithm := "AES-256"
  status := .active
  rotationPolicyDays := 180
  activatedAt := some 63839664000000042
  expiresAt := some 63855216000000042
  retiredAt := none
  supersededById := none
  wrapsDekCount := 3
  throughputOps := 12

def sampleServiceStore (keyLabel : String) : Store Db where
  db := { emptyDb with hsm := { emptyDb.hsm with keys := ⟨[sampleServiceKey keyLabel], by simp⟩ } }
  sequence := 1

/-- A label of the full width, without a version. -/
def longLabel : String := String.ofList (List.replicate 80 'a')

theorem longLabel_toList : longLabel.toList = List.replicate 80 'a' := String.toList_ofList

theorem longLabel_length : longLabel.toList.length = 80 :=
  (congrArg List.length longLabel_toList).trans List.length_replicate

theorem longLabel_unversioned : ¬ EndsInVersion longLabel := by
  rintro ⟨stem, digits, ending, h⟩
  have hsplit := longLabel_toList.symm.trans h.split
  have hminus : '-' ∈ stem ++ '-' :: 'v' :: (digits ++ ending) := by simp
  rw [← hsplit] at hminus
  exact absurd (List.eq_of_mem_replicate hminus) (by decide)

theorem longLabel_noRoom : ¬ LeavesRoom 80 longLabel := by
  intro h
  have hroom := h.unversioned longLabel_unversioned
  have hlength := longLabel_length
  omega

theorem sampleServiceKey_inService {keyLabel : String} (hmin : 3 ≤ keyLabel.toList.length)
    (hmax : keyLabel.toList.length ≤ 80) : InService (sampleServiceKey keyLabel) :=
  ⟨.inl rfl, hmin, hmax⟩

theorem longLabel_inService : InService (sampleServiceKey longLabel) := by
  have hlength := longLabel_length
  apply sampleServiceKey_inService
  · omega
  · omega

/-- The label that is computed for a label of the full width does not fit. -/
theorem default_rotation_counterexample :
    ¬ ∀ key, InService key → nextVersionLabel key.keyLabel ≠ key.keyLabel ∧
      (nextVersionLabel key.keyLabel).toList.length ≤ 80 := by
  intro hclaim
  have hfits := (hclaim _ longLabel_inService).2
  have hroom := (nextVersionLabel_length_le longLabel_inService.label_max).mp hfits
  exact longLabel_noRoom hroom

theorem sample_rotatable : Rotatable AuditVerification.sha256Crypto (HsmLifecycle.sampleHsmEnv 0)
    (sampleServiceKey "nexus-master-v9") "nexus-master-v10" "admin@nexus"
    (sampleServiceStore "nexus-master-v9") where
  isKey := List.mem_singleton.mpr rfl
  inService := .inl rfl
  stored := ⟨by decide +kernel, by decide +kernel, by decide⟩
  slot := rfl
  expires := by decide +kernel
  free := by
    intro k hk
    rw [List.mem_singleton.mp hk]
    decide
  ids := ⟨by decide, rfl, rfl, rfl, rfl⟩
  log := {
    sha256_length := Sha256.length_sha256
    signingKeyId := by decide
    fresh := {
      below := fun _ hr => nomatch hr
      tail := rfl
      ids := List.nodup_singleton _
      hashes := List.nodup_singleton _ } }

/-- The ninth version is rotated to the tenth; a label of the full width is not rotated. -/
theorem default_rotation_sample :
    Answered (rotateKey AuditVerification.sha256Crypto (HsmLifecycle.sampleHsmEnv 0) 7
        "admin@nexus" defaultRotation) (sampleServiceStore "nexus-master-v9") ∧
      ((rotateKey AuditVerification.sha256Crypto (HsmLifecycle.sampleHsmEnv 0) 7 "admin@nexus"
        defaultRotation).serial postgres (sampleServiceStore longLabel).db
        (sampleServiceStore longLabel).db 1).db = (sampleServiceStore longLabel).db := by
  have hlabel : nextVersionLabel "nexus-master-v9" = "nexus-master-v10" := by decide +kernel
  have hkey : InService (sampleServiceKey "nexus-master-v9") :=
    sampleServiceKey_inService (by decide) (by decide)
  have hroom : LeavesRoom 80 "nexus-master-v9" :=
    (nextVersionLabel_length_le hkey.label_max).mp (hlabel ▸ by decide)
  constructor
  · apply ((default_rotation_iff hkey).1.mpr hroom).2.2 _ _ _ _ (by decide +kernel)
    have hrotatable := sample_rotatable
    rwa [← hlabel] at hrotatable
  · obtain ⟨_, -, hkept⟩ := (default_rotation_iff longLabel_inService).2 longLabel_noRoom
      AuditVerification.sha256Crypto (HsmLifecycle.sampleHsmEnv 0) "admin@nexus"
      (sampleServiceStore longLabel) (List.mem_singleton.mpr rfl)
    exact hkept

end NexusEngine.HsmAdmissions
