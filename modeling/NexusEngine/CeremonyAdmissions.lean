import NexusEngine.HsmAdmissions

/-!
# Registrations, ceremonies and self-tests that go through

A key is registered and disabled, a ceremony is opened, approved and completed, and the self-test
is run. Each of these that passes its checks is answered where the name of the caller fits.
-/

namespace NexusEngine.CeremonyAdmissions

open TransactionalRequests StoredColumns JsonDocuments KeyedTables TextEncodings CalendarTime HsmTables
  AuditLogTable TenancyTables Database AuditService AuditAppends AuditedTransactions
  AuditAdmissions HsmService HsmTransactions HsmLifecycle HsmAdmissions

/-! ## Statements -/

theorem fits_of_text {n : ℕ} {s : String} (h : text s = some s) (hle : s.toList.length ≤ n) :
    (varchar n s).isSome := by
  rw [varchar_of_text h hle]
  rfl

/-- The statements of the keys, followed by the record of the operation on one of them. -/
theorem recorded_applies {env : HsmEnv} (operationType : SecurityOperationType) {key : MasterKey}
    {actor detail : String} {ws : List Statement} {db : Db} {sent : HsmStore}
    (hws : postgres.applyAll ws db = some { db with hsm := sent })
    (hkey : key.id ∈ sent.keys.rows.map MasterKey.id)
    (hlabel : varchar 80 key.keyLabel = some key.keyLabel) (hactor : (varchar 120 actor).isSome)
    (hdetail : (varchar 300 detail).isSome)
    (hid : sent.operations.find? env.operationUuid4 = none) :
    ∃ operations, postgres.applyAll
        (ws ++ [recordOperation env operationType (some key) actor detail]) db =
      some { db with hsm := { sent with operations := operations } } := by
  let mid : Db := { db with hsm := sent }
  have hid' : mid.hsm.operations.find? env.operationUuid4 = none := hid
  have hhas : mid.hsm.hasKey (Option.map MasterKey.id (some key)) = true := hasKey_iff.mpr hkey
  obtain ⟨operations, hrecord⟩ := recordOperation_accepts operationType (some key)
    (fun k hk => Option.some.inj hk ▸ hlabel) hhas hactor hdetail hid'
  refine ⟨operations, ?_⟩
  rw [StatementSemantics.applyAll_append, hws]
  exact hrecord

/-! ## Reads -/

section

variable {durable work : Db} {n : ℕ}

theorem assertSlotExists_answers {slotId : Option Uuid}
    (hslot : (slotId.all fun id => (work.hsm.slots.find? id).isSome) = true)
    {post : Except ServiceError Unit → Db → Db → ℕ → Prop} (h : post (.ok ()) durable work n) :
    (assertSlotExists slotId).wp postgres post durable work n := by
  cases slotId with
  | none => exact Request.wp_return h
  | some id =>
    obtain ⟨slot, hfind⟩ := Option.isSome_iff_exists.mp hslot
    simp only [assertSlotExists, Request.wp_bind, Request.wp_select]
    exact wp_found_of_some hfind (Request.wp_return h)

theorem getKeyOrm_finds {keyId : Uuid} {key : MasterKey}
    (hkey : work.hsm.keys.find? keyId = some key)
    {post : Except ServiceError MasterKey → Db → Db → ℕ → Prop}
    (h : post (.ok key) durable work n) : (getKeyOrm keyId).wp postgres post durable work n := by
  simp only [getKeyOrm, Request.wp_bind, Request.wp_select]
  exact wp_found_of_some hkey h

/-- Another key that is in service is the predecessor. -/
theorem predecessorOf_answers {masterKeyId : Uuid} {predecessorKeyId : Option Uuid}
    (hpredecessor : ∀ id, predecessorKeyId = some id → id ≠ masterKeyId ∧
      ∃ p, work.hsm.keys.find? id = some p ∧ (p.status = .active ∨ p.status = .expiring))
    {post : Except ServiceError (Option MasterKey) → Db → Db → ℕ → Prop}
    (h : post (.ok (predecessorKeyId.bind work.hsm.keys.find?)) durable work n) :
    (predecessorOf masterKeyId predecessorKeyId).wp postgres post durable work n := by
  cases predecessorKeyId with
  | none => exact Request.wp_return h
  | some id =>
    obtain ⟨hother, p, hfind, hinService⟩ := hpredecessor id rfl
    rw [Option.bind_some, hfind] at h
    apply (Request.wp_bind ..).mpr
    apply ensure_answers hother
    apply (Request.wp_bind ..).mpr
    apply getKeyOrm_finds hfind
    apply (Request.wp_bind ..).mpr
    apply ensure_answers hinService
    exact Request.wp_return h

theorem loadRelationships_answers {c : KeyCeremony} {key : MasterKey}
    (hkey : work.hsm.keys.find? c.masterKeyId = some key)
    {post : Except ServiceError LoadedCeremony → Db → Db → ℕ → Prop}
    (h : post (.ok ⟨c, approvalsOf work.hsm c.id, key⟩) durable work n) :
    (loadRelationships c).wp postgres post durable work n := by
  simp only [loadRelationships, selectApprovals, Request.wp_bind, Request.wp_select]
  exact wp_found_of_some hkey (Request.wp_return h)

/-- A ceremony whose key is there is loaded. -/
theorem loadRelationships_loads {c : KeyCeremony}
    (hkey : c.masterKeyId ∈ work.hsm.keys.rows.map MasterKey.id)
    {post : Except ServiceError LoadedCeremony → Db → Db → ℕ → Prop}
    (h : ∀ loaded, post (.ok loaded) durable work n) :
    (loadRelationships c).wp postgres post durable work n := by
  obtain ⟨key, hfind⟩ := Option.isSome_iff_exists.mp (Table.isSome_find?.mpr hkey)
  exact loadRelationships_answers hfind (h _)

theorem loadPendingCeremony_answers {c : KeyCeremony} {key : MasterKey}
    (hc : c ∈ work.hsm.ceremonies.rows) (hpending : c.status = .pending)
    (hkey : work.hsm.keys.find? c.masterKeyId = some key)
    {post : Except ServiceError LoadedCeremony → Db → Db → ℕ → Prop}
    (h : post (.ok ⟨c, approvalsOf work.hsm c.id, key⟩) durable work n) :
    (loadPendingCeremony c.id).wp postgres post durable work n := by
  simp only [loadPendingCeremony, Request.wp_bind, Request.wp_select]
  apply wp_found_of_some (Table.find?_of_mem hc)
  apply loadRelationships_answers hkey
  exact ensure_answers hpending (Request.wp_return h)

end

/-! ## Registrations -/

def registrationEntry (env : HsmEnv) (payload : MasterKeyCreate) (actor : String) :
    AuditLogEntryCreate :=
  keyOperationEntry "info" "KEY_REFERENCE_REGISTERED" actor
    ("Registered key reference " ++ payload.keyLabel)
    [("master_key_id", .str (uuidText env.uuid4)),
      ("key_label", .str payload.keyLabel),
      ("algorithm", .str payload.algorithm),
      ("slot_id", optionalId payload.slotId),
      ("rotation_policy_days", .int payload.rotationPolicyDays)]

/-- What the registration of a key relies on. -/
structure Registrable (crypto : AuditCrypto) (env : HsmEnv) (payload : MasterKeyCreate)
    (actor : String) (s : Store Db) : Prop where
  label : text payload.keyLabel = some payload.keyLabel
  algorithm : text payload.algorithm = some payload.algorithm
  slot : (payload.slotId.all fun id => (s.db.hsm.slots.find? id).isSome) = true
  free : ∀ k ∈ s.db.hsm.keys.rows, k.keyLabel ≠ payload.keyLabel
  ids : NewIds env s.db.hsm
  log : LogTakes crypto s (env.audit, registrationEntry env payload actor)

section

variable {crypto : AuditCrypto} {env : HsmEnv} {payload : MasterKeyCreate} {actor : String}
  {s : Store Db}

theorem registration_detail (hlabel : text payload.keyLabel = some payload.keyLabel)
    (halgorithm : text payload.algorithm = some payload.algorithm) :
    (varchar 300 ("Registered key reference " ++ payload.keyLabel ++ " (" ++ payload.algorithm ++
      ") — pending ceremony")).isSome := by
  have htext := text_append (text_append (text_append
    (text_append (s := "Registered key reference ") rfl hlabel) (t := " (") rfl) halgorithm)
    (t := ") — pending ceremony") (by decide)
  apply fits_of_text htext
  have hlabelMax := payload.keyLabel_max
  have halgorithmMax := payload.algorithm_max
  simp only [String.toList_append, List.length_append]
  have hone : "Registered key reference ".toList.length = 25 := rfl
  have htwo : " (".toList.length = 2 := rfl
  have hthree : ") — pending ceremony".toList.length = 20 := rfl
  omega

theorem registrationEntry_acceptable {tenants : List Tenant}
    (hlabel : text payload.keyLabel = some payload.keyLabel) (hactor : (varchar 120 actor).isSome)
    (hsigningKey : (varchar 60 crypto.signingKeyId).isSome) :
    Acceptable crypto tenants (registrationEntry env payload actor) := by
  apply keyOperationEntry_acceptable rfl (by decide) hactor _ _ hsigningKey
  · rw [text_append rfl hlabel]
    rfl
  · cases payload.slotId <;> rfl

/-- A key whose label is free is registered. -/
theorem createKey_answered (h : Registrable crypto env payload actor s)
    (hactor : (varchar 120 actor).isSome) : Answered (createKey crypto env payload actor) s := by
  have hlabel : varchar 80 payload.keyLabel = some payload.keyLabel :=
    varchar_of_text h.label payload.keyLabel_max
  have halgorithm : varchar 40 payload.algorithm = some payload.algorithm :=
    varchar_of_text h.algorithm payload.algorithm_max
  obtain ⟨keys, hinsert, hkeys⟩ := insertKey_accepts (t := s.db.hsm)
    (k := registeredKey env payload) hlabel halgorithm h.free h.slot rfl h.ids.keys
  have hinserted : postgres.applyAll [.hsm (.insertKey (registeredKey env payload))] s.db =
      some { s.db with hsm := { s.db.hsm with keys := keys } } := by
    rw [StatementSemantics.applyAll_singleton]
    exact apply_hsm.mpr ⟨_, hinsert, rfl⟩
  have hkey : (registeredKey env payload).id ∈ keys.rows.map MasterKey.id := by
    rw [hkeys, List.map_append]
    simp
  obtain ⟨operations, hsent⟩ := recorded_applies .keyCreate hinserted hkey hlabel hactor
    (registration_detail h.label h.algorithm) h.ids.operations
  apply answered_of_wp
  apply (Request.wp_bind ..).mpr
  apply assertLabelAvailable_answers h.free
  apply (Request.wp_bind ..).mpr
  apply assertSlotExists_answers h.slot
  apply (Request.wp_bind ..).mpr
  apply append_answers h.log (registrationEntry_acceptable h.label hactor h.log.signingKeyId)
    ⟨rfl, rfl⟩ le_rfl hsent ⟨rfl, rfl⟩
  intro row
  apply Request.wp_commitTransaction_bind
  exact getKey_answers hkey fun read => ⟨read, rfl⟩

end

/-! ## Keys out of service -/

def disablingEntry (key : MasterKey) (actor : String) : AuditLogEntryCreate :=
  keyOperationEntry "warning" "KEY_DISABLED" actor ("Disabled key " ++ key.keyLabel)
    [("master_key_id", .str (uuidText key.id)),
      ("key_label", .str key.keyLabel),
      ("previous_status", .str key.status.value)]

/-- What disabling a key relies on. -/
structure Disablable (crypto : AuditCrypto) (env : HsmEnv) (key : MasterKey) (actor : String)
    (s : Store Db) : Prop where
  isKey : key ∈ s.db.hsm.keys.rows
  inService : ¬ (key.status = .retired ∨ key.status = .disabled)
  label : varchar 80 key.keyLabel = some key.keyLabel
  ids : NewIds env s.db.hsm
  log : LogTakes crypto s (env.audit, disablingEntry key actor)

section

variable {crypto : AuditCrypto} {env : HsmEnv} {key : MasterKey} {actor : String} {s : Store Db}

theorem disabling_detail (hlabel : varchar 80 key.keyLabel = some key.keyLabel) :
    (varchar 300 ("Disabled key " ++ key.keyLabel)).isSome := by
  apply fits_of_text (text_append rfl (text_varchar hlabel))
  have hmax := varchar_length hlabel
  rw [String.toList_append, List.length_append]
  have hlead : "Disabled key ".toList.length = 13 := rfl
  omega

theorem disablingEntry_acceptable {tenants : List Tenant}
    (hlabel : varchar 80 key.keyLabel = some key.keyLabel) (hactor : (varchar 120 actor).isSome)
    (hsigningKey : (varchar 60 crypto.signingKeyId).isSome) :
    Acceptable crypto tenants (disablingEntry key actor) := by
  apply keyOperationEntry_acceptable rfl (by decide) hactor _ rfl hsigningKey
  rw [text_append rfl (text_varchar hlabel)]
  rfl

/-- A key in service is disabled. -/
theorem disableKey_answered (h : Disablable crypto env key actor s)
    (hactor : (varchar 120 actor).isSome) : Answered (disableKey crypto env key.id actor) s := by
  have hkey : key.id ∈ s.db.hsm.keys.rows.map MasterKey.id := List.mem_map_of_mem h.isKey
  have hsuperseded : key.supersededById = (disabledKey env key).supersededById := rfl
  obtain ⟨keys, hsave, hids⟩ := saveKey_accepts hkey (.inl hsuperseded)
  have hsaved : key.id ∈ keys.rows.map MasterKey.id := hids ▸ hkey
  obtain ⟨operations, hsent⟩ := recorded_applies .keyDisable hsave hsaved h.label hactor
    (disabling_detail h.label) h.ids.operations
  apply answered_of_wp
  apply (Request.wp_bind ..).mpr
  apply getKeyOrm_answers h.isKey
  apply (Request.wp_bind ..).mpr
  apply ensure_answers h.inService
  apply (Request.wp_bind ..).mpr
  apply append_answers h.log (disablingEntry_acceptable h.label hactor h.log.signingKeyId)
    ⟨rfl, rfl⟩ le_rfl hsent ⟨rfl, rfl⟩
  intro row
  apply Request.wp_commitTransaction_bind
  exact getKey_answers hsaved fun read => ⟨read, rfl⟩

end

/-! ## References -/

theorem padded_length_le {width n k : ℕ} (hk : 0 < k) (hwidth : width ≤ k) (hn : n < 10 ^ k) :
    (padded width n).length ≤ k := by
  have hdigits : (Nat.toDigits 10 n).length ≤ k :=
    (Nat.length_toDigits_le_iff (by decide) hk).mpr hn
  rw [padded, List.length_append, List.length_replicate]
  omega

/-- A day before the end of the calendar has a year of at most five digits. -/
theorem ord2ymd_lt {n : ℕ} (h : n < 3652059) :
    (ord2ymd (n + 1)).1 < 10 ^ 5 ∧ (ord2ymd (n + 1)).2.1 < 10 ^ 5 ∧
      (ord2ymd (n + 1)).2.2 < 10 ^ 5 := by
  have hmonthDay : ∀ leap m, m < 365 → (monthDay leap m).1 < 10 ^ 5 ∧
      (monthDay leap m).2 < 10 ^ 5 := by
    intro leap m hm
    simp only [monthDay]
    generalize daysBeforeMonth ((m + 50) / 32) +
      (if (decide (2 < (m + 50) / 32) && leap) = true then 1 else 0) = preceding
    split
    · dsimp only
      omega
    · dsimp only
      omega
  simp only [ord2ymd, Nat.add_sub_cancel]
  split
  · dsimp only
    omega
  · refine ⟨?_, hmonthDay _ _ (Nat.mod_lt _ (by decide))⟩
    omega

/-- The reference of a ceremony fits its column. -/
theorem ceremonyRef_stored {now : Instant} (hnow : now < 3652059 * 86400000000) (id : Uuid) :
    varchar 40 (ceremonyRef now id) = some (ceremonyRef now id) := by
  have hday : now / 86400000000 < 3652059 := by
    rw [Nat.div_lt_iff_lt_mul (by decide)]
    exact hnow
  obtain ⟨hyear, hmonth, hdayOf⟩ := ord2ymd_lt hday
  have hdigits : ∀ width n, Char.ofNat 0 ∉ padded width n := by
    intro width n hmem
    exact absurd (isDigit_of_mem_padded hmem) (by decide)
  have hhex : Char.ofNat 0 ∉ ((uuidHex id).take 8).map Char.toUpper := by
    intro hmem
    obtain ⟨c, hc, hupper⟩ := List.mem_map.mp hmem
    obtain ⟨d, hd, rfl⟩ := mem_uuidHex (List.mem_of_mem_take hc)
    have hdigit : ∀ d < 16, (Nat.digitChar d).toUpper ≠ Char.ofNat 0 := by decide
    exact hdigit d hd hupper
  apply varchar_of_text
  · rw [text_iff]
    have hlead : Char.ofNat 0 ∉ "CER-".toList := by decide
    have hdash : Char.ofNat 0 ∉ "-".toList := by decide
    simp only [ceremonyRef, String.toList_append, String.toList_ofList, List.mem_append, hlead,
      hdash, hhex, hdigits, or_self, not_false_iff]
  · have hyearDigits : (padded 4 (ord2ymd (now / 86400000000 + 1)).1).length ≤ 5 :=
      padded_length_le (by decide) (by decide) hyear
    have hmonthDigits : (padded 2 (ord2ymd (now / 86400000000 + 1)).2.1).length ≤ 5 :=
      padded_length_le (by decide) (by decide) hmonth
    have hdayDigits : (padded 2 (ord2ymd (now / 86400000000 + 1)).2.2).length ≤ 5 :=
      padded_length_le (by decide) (by decide) hdayOf
    have hhexDigits : (((uuidHex id).take 8).map Char.toUpper).length ≤ 8 := by
      rw [List.length_map, List.length_take]
      omega
    have hlead : "CER-".toList.length = 4 := rfl
    have hdash : "-".toList.length = 1 := rfl
    simp only [ceremonyRef, String.toList_append, String.toList_ofList, List.length_append]
    omega

/-! ## Opening a ceremony -/

def initiationEntry (ceremony : KeyCeremony) (targetKey : MasterKey) (actor : String) :
    AuditLogEntryCreate :=
  keyOperationEntry "info" "KEY_CEREMONY_INITIATED" actor
    ("Initiated key ceremony " ++ ceremony.ceremonyRef ++ " for " ++ targetKey.keyLabel)
    [("ceremony_ref", .str ceremony.ceremonyRef),
      ("master_key_id", .str (uuidText targetKey.id)),
      ("master_key_label", .str targetKey.keyLabel),
      ("predecessor_label", optionalText ceremony.predecessorLabel),
      ("required_approvals", .int ceremony.requiredApprovals)]

/-- The ceremony that a request opens. -/
def openedCeremony (env : HsmEnv) (payload : KeyCeremonyCreate) (targetKey : MasterKey)
    (t : HsmStore) : KeyCeremony :=
  initiatedCeremony env payload targetKey (payload.predecessorKeyId.bind t.keys.find?)

/-- What opening a ceremony for a key relies on. -/
structure Initiable (crypto : AuditCrypto) (env : HsmEnv) (payload : KeyCeremonyCreate)
    (targetKey : MasterKey) (actor : String) (s : Store Db) : Prop where
  target : s.db.hsm.keys.find? payload.masterKeyId = some targetKey
  pending : targetKey.status = .pending
  label : varchar 80 targetKey.keyLabel = some targetKey.keyLabel
  predecessor : ∀ id, payload.predecessorKeyId = some id → id ≠ payload.masterKeyId ∧
    ∃ p, s.db.hsm.keys.find? id = some p ∧ (p.status = .active ∨ p.status = .expiring)
  predecessorLabels : ∀ k ∈ s.db.hsm.keys.rows, varchar 80 k.keyLabel = some k.keyLabel
  first : ∀ c ∈ s.db.hsm.ceremonies.rows, c.masterKeyId = targetKey.id → c.status ≠ .pending
  now : env.now < 3652059 * 86400000000
  ref : ∀ c ∈ s.db.hsm.ceremonies.rows, c.ceremonyRef ≠ ceremonyRef env.now env.refUuid4
  ids : NewIds env s.db.hsm
  log : LogTakes crypto s (env.audit,
    initiationEntry (openedCeremony env payload targetKey s.db.hsm) targetKey actor)

section

variable {crypto : AuditCrypto} {env : HsmEnv} {payload : KeyCeremonyCreate}
  {targetKey : MasterKey} {actor : String} {s : Store Db}

theorem insertCeremony_accepts {t : HsmStore} {c : KeyCeremony}
    (href : varchar 40 c.ceremonyRef = some c.ceremonyRef)
    (hlabel : nullable (varchar 80) c.predecessorLabel = some c.predecessorLabel)
    (hfree : ∀ r ∈ t.ceremonies.rows, r.ceremonyRef ≠ c.ceremonyRef)
    (hkey : t.hasKey (some c.masterKeyId) = true) (hid : t.ceremonies.find? c.id = none) :
    ∃ ceremonies, t.insertCeremony c = some { t with ceremonies := ceremonies } := by
  obtain ⟨ceremonies, hinsert⟩ : ∃ ceremonies, t.ceremonies.insert c = some ceremonies :=
    Table.insert_isSome hid
  have hnew : (t.ceremonies.rows.any fun r => r.ceremonyRef == c.ceremonyRef) = false := by
    simpa using hfree
  refine ⟨ceremonies, ?_⟩
  simp only [HsmStore.insertCeremony, href, hlabel, hnew, hkey, Option.bind_eq_bind,
    Option.bind_some, Bool.false_eq_true, if_false, if_true, hinsert]
  rfl

theorem initiationEntry_acceptable {tenants : List Tenant} {ceremony : KeyCeremony}
    (href : varchar 40 ceremony.ceremonyRef = some ceremony.ceremonyRef)
    (hlabel : varchar 80 targetKey.keyLabel = some targetKey.keyLabel)
    (hactor : (varchar 120 actor).isSome) (hsigningKey : (varchar 60 crypto.signingKeyId).isSome) :
    Acceptable crypto tenants (initiationEntry ceremony targetKey actor) := by
  apply keyOperationEntry_acceptable rfl (by decide) hactor _ _ hsigningKey
  · rw [text_append (text_append (text_append rfl (text_varchar href)) rfl) (text_varchar hlabel)]
    rfl
  · cases ceremony.predecessorLabel <;> rfl

/-- A ceremony is opened for a pending key that has none. -/
theorem createCeremony_answered (h : Initiable crypto env payload targetKey actor s)
    (hactor : (varchar 120 actor).isSome) :
    Answered (createCeremony crypto env payload actor) s := by
  have href : varchar 40 (openedCeremony env payload targetKey s.db.hsm).ceremonyRef =
      some (openedCeremony env payload targetKey s.db.hsm).ceremonyRef :=
    ceremonyRef_stored h.now env.refUuid4
  have hlabel : nullable (varchar 80) (openedCeremony env payload targetKey
      s.db.hsm).predecessorLabel =
        some (openedCeremony env payload targetKey s.db.hsm).predecessorLabel := by
    show nullable (varchar 80) ((payload.predecessorKeyId.bind s.db.hsm.keys.find?).map
      MasterKey.keyLabel) = some ((payload.predecessorKeyId.bind s.db.hsm.keys.find?).map
        MasterKey.keyLabel)
    cases hfind : payload.predecessorKeyId.bind s.db.hsm.keys.find? with
    | none => rfl
    | some p =>
      obtain ⟨id, -, hp⟩ := Option.bind_eq_some_iff.mp hfind
      rw [Option.map_some, nullable, h.predecessorLabels p (Table.find?_eq_some.mp hp).1,
        Option.map_some]
  have hkey : targetKey.id ∈ s.db.hsm.keys.rows.map MasterKey.id :=
    List.mem_map_of_mem (Table.find?_eq_some.mp h.target).1
  obtain ⟨ceremonies, hinsert⟩ := insertCeremony_accepts href hlabel h.ref (hasKey_iff.mpr hkey)
    h.ids.ceremonies
  let mid : Db := { s.db with hsm := { s.db.hsm with ceremonies := ceremonies } }
  have hsame : SameLog s.db mid := ⟨rfl, rfl⟩
  have hflushed : postgres.applyAll [] mid = some mid := rfl
  have hinserted : postgres.applyAll
      [.hsm (.insertCeremony (openedCeremony env payload targetKey s.db.hsm))] s.db =
        some mid := by
    rw [StatementSemantics.applyAll_singleton]
    exact apply_hsm.mpr ⟨_, hinsert, rfl⟩
  have hnone : (s.db.hsm.ceremonies.rows.filter fun c =>
      c.masterKeyId = targetKey.id ∧ c.status = .pending) = [] := by
    apply List.filter_eq_nil_iff.mpr
    intro c hc hopen
    rw [decide_eq_true_eq] at hopen
    exact h.first c hc hopen.1 hopen.2
  apply answered_of_wp
  apply (Request.wp_bind ..).mpr
  apply getKeyOrm_finds h.target
  apply (Request.wp_bind ..).mpr
  apply ensure_answers h.pending
  apply (Request.wp_bind ..).mpr
  apply predecessorOf_answers h.predecessor
  apply (Request.wp_bind ..).mpr
  rw [Request.wp_select, hnone]
  apply (Request.wp_bind ..).mpr
  apply ensure_answers (Nat.zero_le 1)
  apply (Request.wp_bind ..).mpr
  apply ensure_answers rfl
  apply (Request.wp_bind ..).mpr
  refine Request.wp_send_of_some hinserted ?_
  apply (Request.wp_bind ..).mpr
  apply append_answers h.log (initiationEntry_acceptable href h.label hactor h.log.signingKeyId)
    hsame (Nat.le_succ _) hflushed ⟨rfl, rfl⟩
  intro row
  apply Request.wp_commitTransaction_bind
  refine loadRelationships_loads ?_ fun loaded => ⟨loaded, rfl⟩
  exact hkey

end

/-! ## Approving a ceremony -/

def approvalEntry (ceremony : LoadedCeremony) (approvals : List KeyCustodianApproval)
    (custodianEmail : String) : AuditLogEntryCreate :=
  keyOperationEntry "info" "KEY_CEREMONY_APPROVED" custodianEmail
    ("Approved key ceremony " ++ ceremony.ceremony.ceremonyRef)
    [("ceremony_ref", .str ceremony.ceremony.ceremonyRef),
      ("master_key_id", .str (uuidText ceremony.ceremony.masterKeyId)),
      ("master_key_label", .str ceremony.masterKey.keyLabel),
      ("approval_count", .int (approvalCount approvals)),
      ("required_approvals", .int ceremony.ceremony.requiredApprovals)]

/-- A ceremony that is open, with what is loaded with it. -/
structure Open (t : HsmStore) (loaded : LoadedCeremony) : Prop where
  isCeremony : loaded.ceremony ∈ t.ceremonies.rows
  pending : loaded.ceremony.status = .pending
  approvals : loaded.approvals = approvalsOf t loaded.ceremony.id
  key : t.keys.find? loaded.ceremony.masterKeyId = some loaded.masterKey
  ref : varchar 40 loaded.ceremony.ceremonyRef = some loaded.ceremony.ceremonyRef

theorem loadPendingCeremony_loads {loaded : LoadedCeremony} {durable work : Db} {n : ℕ}
    (hopen : Open work.hsm loaded) {post : Except ServiceError LoadedCeremony → Db → Db → ℕ → Prop}
    (h : post (.ok loaded) durable work n) :
    (loadPendingCeremony loaded.ceremony.id).wp postgres post durable work n := by
  have hloaded : (⟨loaded.ceremony, approvalsOf work.hsm loaded.ceremony.id,
      loaded.masterKey⟩ : LoadedCeremony) = loaded := by
    rw [← hopen.approvals]
  apply loadPendingCeremony_answers hopen.isCeremony hopen.pending hopen.key
  rw [hloaded]
  exact h

/-- What an approval relies on. -/
structure Approvable (crypto : AuditCrypto) (env : HsmEnv) (loaded : LoadedCeremony)
    (custodianEmail : String) (s : Store Db) : Prop where
  isOpen : Open s.db.hsm loaded
  ids : NewIds env s.db.hsm
  log : LogTakes crypto s (env.audit,
    approvalEntry loaded (giveApproval env loaded custodianEmail).2 custodianEmail)

section

variable {crypto : AuditCrypto} {env : HsmEnv} {loaded : LoadedCeremony} {custodianEmail : String}
  {s : Store Db}

/-- The approval is stored where the email fits. -/
theorem giveApproval_applies (hopen : Open s.db.hsm loaded) (hids : NewIds env s.db.hsm)
    (hactor : (varchar 120 custodianEmail).isSome) :
    ∃ approvals, postgres.applyAll (giveApproval env loaded custodianEmail).1 s.db =
      some { s.db with hsm := { s.db.hsm with approvals := approvals } } := by
  unfold giveApproval
  split
  · obtain ⟨email, hemail⟩ := Option.isSome_iff_exists.mp hactor
    obtain ⟨approvals, hinsert⟩ : ∃ approvals, s.db.hsm.approvals.insert
        ⟨env.uuid4, loaded.ceremony.id, email, some env.now⟩ = some approvals :=
      Table.insert_isSome hids.approvals
    have hceremony : (s.db.hsm.ceremonies.find? loaded.ceremony.id).isSome = true := by
      rw [Table.find?_of_mem hopen.isCeremony, Option.isSome_some]
    refine ⟨approvals, ?_⟩
    rw [StatementSemantics.applyAll_singleton]
    apply apply_hsm.mpr
    refine ⟨_, ?_, rfl⟩
    simp only [HsmStatement.apply, HsmStore.insertApproval, hemail, hceremony, if_true,
      Option.bind_eq_bind, Option.bind_some, hinsert]
    rfl
  · next approval hfind =>
    have hmem : approval ∈ s.db.hsm.approvals.rows := by
      have hloaded := List.mem_of_find?_eq_some hfind
      rw [hopen.approvals] at hloaded
      exact List.mem_of_mem_filter hloaded
    obtain ⟨approvals, hupdate⟩ : ∃ approvals, s.db.hsm.approvals.update approval.id
        (fun a => { a with approvedAt := some env.now }) (fun _ => rfl) = some approvals :=
      Table.update_isSome (Table.find?_of_mem hmem)
    refine ⟨approvals, ?_⟩
    rw [StatementSemantics.applyAll_singleton]
    apply apply_hsm.mpr
    refine ⟨_, ?_, rfl⟩
    rw [HsmStatement.apply, HsmStore.updateApproval, hupdate, Option.map_some]

theorem approvalEntry_acceptable {tenants : List Tenant} {approvals : List KeyCustodianApproval}
    (hopen : Open s.db.hsm loaded) (hactor : (varchar 120 custodianEmail).isSome)
    (hsigningKey : (varchar 60 crypto.signingKeyId).isSome) :
    Acceptable crypto tenants (approvalEntry loaded approvals custodianEmail) := by
  apply keyOperationEntry_acceptable rfl (by decide) hactor _ rfl hsigningKey
  rw [text_append rfl (text_varchar hopen.ref)]
  rfl

/-- An open ceremony is approved. A second approval by a custodian writes nothing. -/
theorem approveCeremony_answered (h : Approvable crypto env loaded custodianEmail s)
    (hactor : alreadyApproved loaded custodianEmail = false → (varchar 120 custodianEmail).isSome) :
    Answered (approveCeremony crypto env loaded.ceremony.id custodianEmail) s := by
  have hkey : loaded.ceremony.masterKeyId ∈ s.db.hsm.keys.rows.map MasterKey.id := by
    obtain ⟨hmem, hid⟩ := Table.find?_eq_some.mp h.isOpen.key
    exact hid ▸ List.mem_map_of_mem hmem
  apply answered_of_wp
  apply (Request.wp_bind ..).mpr
  apply loadPendingCeremony_loads h.isOpen
  apply (Request.wp_bind ..).mpr
  unfold recordApproval
  split
  · apply Request.wp_return
    apply Request.wp_commitTransaction_bind
    exact loadRelationships_loads hkey fun loaded => ⟨loaded, rfl⟩
  · next hfirst =>
    have hfits := hactor (Bool.eq_false_iff.mpr hfirst)
    obtain ⟨approvals, hsent⟩ := giveApproval_applies h.isOpen h.ids hfits
    apply (Request.wp_bind ..).mpr
    apply append_answers h.log (approvalEntry_acceptable h.isOpen hfits h.log.signingKeyId)
      ⟨rfl, rfl⟩ le_rfl hsent ⟨rfl, rfl⟩
    intro row
    apply Request.wp_return
    apply Request.wp_commitTransaction_bind
    refine loadRelationships_loads ?_ fun loaded => ⟨loaded, rfl⟩
    exact hkey

end

/-! ## Completing a ceremony -/

def completionEntry (loaded : LoadedCeremony) (actor : String) : AuditLogEntryCreate :=
  keyOperationEntry "info" "KEY_ROTATION_COMPLETE" actor
    ((match loaded.ceremony.predecessorLabel with
      | some label => if label = "" then "new key" else label
      | none => "new key") ++ " -> " ++ loaded.masterKey.keyLabel ++
      " rotation completed via ceremony " ++ loaded.ceremony.ceremonyRef)
    [("ceremony_ref", .str loaded.ceremony.ceremonyRef),
      ("new_key", .str loaded.masterKey.keyLabel),
      ("approvals", .int (approvalCount loaded.approvals))]

/-- What the completion of a ceremony relies on. -/
structure Completable (crypto : AuditCrypto) (env : HsmEnv) (loaded : LoadedCeremony)
    (actor : String) (s : Store Db) : Prop where
  isOpen : Open s.db.hsm loaded
  quorum : loaded.quorumMet = true
  expires : (addDays env.now loaded.masterKey.rotationPolicyDays).isSome
  label : varchar 80 loaded.masterKey.keyLabel = some loaded.masterKey.keyLabel
  predecessorLabel : nullable (varchar 80) loaded.ceremony.predecessorLabel =
    some loaded.ceremony.predecessorLabel
  ids : NewIds env s.db.hsm
  log : LogTakes crypto s (env.audit, completionEntry loaded actor)

section

variable {crypto : AuditCrypto} {env : HsmEnv} {loaded : LoadedCeremony} {actor : String}
  {s : Store Db}

theorem saveCeremony_accepts {db : Db} {old : KeyCeremony} (new : KeyCeremony)
    (hold : old ∈ db.hsm.ceremonies.rows) :
    ∃ ceremonies, postgres.applyAll (saveCeremony old new) db =
      some { db with hsm := { db.hsm with ceremonies := ceremonies } } := by
  unfold saveCeremony
  split
  · exact ⟨db.hsm.ceremonies, rfl⟩
  · obtain ⟨ceremonies, hupdate⟩ : ∃ ceremonies, db.hsm.ceremonies.update old.id
        (old.diff new).apply (fun _ => rfl) = some ceremonies :=
      Table.update_isSome (Table.find?_of_mem hold)
    refine ⟨ceremonies, ?_⟩
    rw [StatementSemantics.applyAll_singleton]
    apply apply_hsm.mpr
    refine ⟨_, ?_, rfl⟩
    rw [HsmStatement.apply, HsmStore.updateCeremony, hupdate, Option.map_some]

/-- A key that a completion changes refers to the new key, to none, or to the one it referred to. -/
theorem rotatedKeys_supersededById {t : HsmStore} {now expiresAt : Instant} {key : MasterKey}
    (hkey : key.id ∈ t.keys.rows.map MasterKey.id) (predecessor : Option MasterKey) :
    ∀ p ∈ rotatedKeys now expiresAt key predecessor,
      p.1.supersededById = p.2.supersededById ∨ t.hasKey p.2.supersededById = true := by
  have hnew : t.hasKey (some key.id) = true := hasKey_iff.mpr hkey
  intro p hp
  cases predecessor with
  | none =>
    rw [rotatedKeys, List.mem_singleton] at hp
    exact .inl (by rw [hp])
  | some predecessor =>
    by_cases hself : predecessor.id = key.id
    · rw [rotatedKeys_self hself, List.mem_singleton] at hp
      exact .inr (by rw [hp]; exact hnew)
    · rw [rotatedKeys_some hself, List.mem_cons, List.mem_singleton] at hp
      rcases hp with rfl | rfl
      · exact .inr rfl
      · exact .inr hnew

/-- The flushes of a completion go through. -/
theorem completion_applies (h : Completable crypto env loaded actor s)
    (hactor : (varchar 120 actor).isSome) (expiresAt : Instant) :
    ∃ sent, postgres.applyAll
        ((rotatedKeys env.now expiresAt loaded.masterKey
            (predecessorByLabel s.db.hsm loaded.ceremony.predecessorLabel)).flatMap
            (fun k => saveKey k.1 k.2) ++
          saveCeremony loaded.ceremony (completedCeremony env.now loaded.ceremony) ++
          [recordOperation env .ceremonyComplete (some loaded.masterKey) actor
            ("Completed ceremony " ++ loaded.ceremony.ceremonyRef)]) s.db =
        some { s.db with hsm := sent } ∧
      loaded.ceremony.masterKeyId ∈ sent.keys.rows.map MasterKey.id := by
  obtain ⟨hmem, hid⟩ := Table.find?_eq_some.mp h.isOpen.key
  have hkey : loaded.masterKey.id ∈ s.db.hsm.keys.rows.map MasterKey.id :=
    List.mem_map_of_mem hmem
  have hrows : ∀ p ∈ rotatedKeys env.now expiresAt loaded.masterKey
      (predecessorByLabel s.db.hsm loaded.ceremony.predecessorLabel), p.1 ∈ s.db.hsm.keys.rows :=
    (rotatedKeys_saves env.now expiresAt hmem fun _ hp => predecessorByLabel_mem hp).1
  obtain ⟨keys, hsave, hids⟩ := saveKeys_accepts
    (fun p hp => List.mem_map_of_mem (hrows p hp)) (rotatedKeys_supersededById hkey
      (predecessorByLabel s.db.hsm loaded.ceremony.predecessorLabel))
  let mid : Db := { s.db with hsm := { s.db.hsm with keys := keys } }
  have hceremony : loaded.ceremony ∈ mid.hsm.ceremonies.rows := h.isOpen.isCeremony
  obtain ⟨ceremonies, hcomplete⟩ :=
    saveCeremony_accepts (completedCeremony env.now loaded.ceremony) hceremony
  have hsaved : postgres.applyAll
      ((rotatedKeys env.now expiresAt loaded.masterKey
          (predecessorByLabel s.db.hsm loaded.ceremony.predecessorLabel)).flatMap
          (fun k => saveKey k.1 k.2) ++
        saveCeremony loaded.ceremony (completedCeremony env.now loaded.ceremony)) s.db =
      some { s.db with hsm := { s.db.hsm with keys := keys, ceremonies := ceremonies } } := by
    rw [StatementSemantics.applyAll_append, hsave]
    exact hcomplete
  have hdetail : (varchar 300 ("Completed ceremony " ++ loaded.ceremony.ceremonyRef)).isSome := by
    apply fits_of_text (text_append rfl (text_varchar h.isOpen.ref))
    have hmax := varchar_length h.isOpen.ref
    rw [String.toList_append, List.length_append]
    have hlead : "Completed ceremony ".toList.length = 19 := rfl
    omega
  have hkept : loaded.masterKey.id ∈ keys.rows.map MasterKey.id := hids ▸ hkey
  obtain ⟨operations, hsent⟩ := recorded_applies .ceremonyComplete hsaved hkept h.label hactor
    hdetail h.ids.operations
  exact ⟨_, hsent, hid ▸ hkept⟩

theorem completionEntry_acceptable {tenants : List Tenant}
    (h : Completable crypto env loaded actor s) (hactor : (varchar 120 actor).isSome) :
    Acceptable crypto tenants (completionEntry loaded actor) := by
  apply keyOperationEntry_acceptable rfl (by decide) hactor _ rfl h.log.signingKeyId
  have hlead : ∃ lead, text (match loaded.ceremony.predecessorLabel with
      | some label => if label = "" then "new key" else label
      | none => "new key") = some lead := by
    have hstored := h.predecessorLabel
    cases hlabel : loaded.ceremony.predecessorLabel with
    | none => exact ⟨_, rfl⟩
    | some label =>
      rw [hlabel, nullable] at hstored
      obtain ⟨stored, hstored, hsame⟩ := Option.map_eq_some_iff.mp hstored
      rw [Option.some.inj hsame] at hstored
      dsimp only
      split
      · exact ⟨_, rfl⟩
      · exact ⟨_, text_varchar hstored⟩
  obtain ⟨lead, hlead⟩ := hlead
  have hsame := text_eq_some hlead
  rw [hsame] at hlead
  rw [text_append (text_append (text_append (text_append hlead rfl) (text_varchar h.label)) rfl)
    (text_varchar h.isOpen.ref)]
  rfl

/-- A ceremony with its quorum is completed. -/
theorem completeCeremony_answered (h : Completable crypto env loaded actor s)
    (hactor : (varchar 120 actor).isSome) :
    Answered (completeCeremony crypto env loaded.ceremony.id actor) s := by
  obtain ⟨expiresAt, hexpires⟩ := Option.isSome_iff_exists.mp h.expires
  obtain ⟨sent, hsent, hkey⟩ := completion_applies h hactor expiresAt
  apply answered_of_wp
  apply (Request.wp_bind ..).mpr
  apply loadPendingCeremony_loads h.isOpen
  apply (Request.wp_bind ..).mpr
  apply ensure_answers h.quorum
  apply (Request.wp_bind ..).mpr
  apply wp_found_of_some hexpires
  apply (Request.wp_bind ..).mpr
  apply findPredecessor_wp
  apply (Request.wp_bind ..).mpr
  apply append_answers h.log (completionEntry_acceptable h hactor) ⟨rfl, rfl⟩ le_rfl hsent
    ⟨rfl, rfl⟩
  intro row
  apply Request.wp_commitTransaction_bind
  refine loadRelationships_loads ?_ fun loaded => ⟨loaded, rfl⟩
  exact hkey

end

/-! ## Self-tests -/

/-- What a self-test relies on. -/
structure Attestable (crypto : AuditCrypto) (env : HsmEnv) (actor : String) (s : Store Db) :
    Prop where
  ids : NewIds env s.db.hsm
  log : LogTakes crypto s (env.audit, attestationEntry env actor)

section

variable {crypto : AuditCrypto} {env : HsmEnv} {actor : String} {s : Store Db}

theorem attestationEntry_acceptable {tenants : List Tenant} (hactor : (varchar 120 actor).isSome)
    (hsigningKey : (varchar 60 crypto.signingKeyId).isSome) :
    Acceptable crypto tenants (attestationEntry env actor) :=
  keyOperationEntry_acceptable rfl (by decide) hactor (by decide) rfl hsigningKey

/-- The self-test is run. -/
theorem runAttestation_answered (h : Attestable crypto env actor s)
    (hactor : (varchar 120 actor).isSome) : Answered (runAttestation crypto env actor) s := by
  obtain ⟨attestationRuns, hinsert⟩ : ∃ attestationRuns,
      s.db.hsm.attestationRuns.insert (attestationRun env) = some attestationRuns :=
    Table.insert_isSome h.ids.attestationRuns
  let mid : Db := { s.db with hsm := { s.db.hsm with attestationRuns := attestationRuns } }
  have hnew : mid.hsm.operations.find? env.operationUuid4 = none := h.ids.operations
  obtain ⟨operations, hrecord⟩ := recordOperation_accepts .attestationRun none
    (fun k hk => nomatch hk) rfl hactor
    (by decide : (varchar 300 "Executed hardware attestation checks").isSome) hnew
  have hsent : postgres.applyAll [.hsm (.insertAttestationRun (attestationRun env)),
      recordOperation env .attestationRun none actor "Executed hardware attestation checks"] s.db =
        some { mid with hsm := { mid.hsm with operations := operations } } := by
    rw [StatementSemantics.applyAll_cons]
    have happly : postgres.apply (.hsm (.insertAttestationRun (attestationRun env))) s.db =
        some mid := by
      apply apply_hsm.mpr
      refine ⟨{ s.db.hsm with attestationRuns := attestationRuns }, ?_, rfl⟩
      rw [HsmStatement.apply, HsmStore.insertAttestationRun, hinsert]
      rfl
    rw [happly]
    exact hrecord
  have hfind : attestationRuns.find? env.uuid4 = some (attestationRun env) := by
    rw [Table.find?_insert hinsert]
    exact if_pos rfl
  apply answered_of_wp
  apply (Request.wp_bind ..).mpr
  apply append_answers h.log (attestationEntry_acceptable hactor h.log.signingKeyId) ⟨rfl, rfl⟩
    le_rfl hsent ⟨rfl, rfl⟩
  intro row
  apply Request.wp_commitTransaction_bind
  apply (Request.wp_bind ..).mpr
  rw [Request.wp_select]
  exact wp_found_of_some hfind ⟨_, rfl⟩

end

end NexusEngine.CeremonyAdmissions
