import NexusEngine.HsmLifecycle
import NexusEngine.AuditTrails
import NexusEngine.RelatedLists

/-!
# The history of security operations

An operation on a key, or the self-test, that succeeds adds one row to the history of operations
and one entry to the audit log, which names the same actor and the same key. The other entries of
the service, for ceremonies that are opened and approved, have subtypes of their own. So the two
histories grow in step.
-/

namespace NexusEngine.SecurityHistory

open TransactionalRequests StoredColumns JsonDocuments KeyedTables TextEncodings HsmTables
  AuditLogTable Database AuditService AuditAppends AuditedTransactions AuditTrails
  MetadataSanitisation HsmService HsmTransactions HsmLifecycle

/-! ## Requests -/

inductive SecurityRequest where
  | key (r : HsmRequest)
  | runAttestation (env : HsmEnv) (actor : String)

/-- The request, without its response. -/
def SecurityRequest.request (crypto : AuditCrypto) : SecurityRequest → Service Unit
  | key r => r.request crypto
  | runAttestation env actor => do
    let _ ← HsmService.runAttestation crypto env actor
    return ()

def execAll (crypto : AuditCrypto) (s : Store Db) (rs : List SecurityRequest) : Store Db :=
  s.execAll postgres (rs.map (·.request crypto))

/-! ## Matching rows -/

/-- The subtype of the entry that is written with an operation. -/
def eventSubtypeOf : SecurityOperationType → String
  | .keyCreate => "KEY_REFERENCE_REGISTERED"
  | .keyRotate => "KEY_ROTATED"
  | .keyDisable => "KEY_DISABLED"
  | .attestationRun => "HSM_ATTESTATION_RUN"
  | .ceremonyComplete => "KEY_ROTATION_COMPLETE"

/-- Where the metadata of that entry has the label of the key: the new one, where there are two. -/
def labelKey : SecurityOperationType → Option String
  | .keyCreate => some "key_label"
  | .keyRotate => some "successor_label"
  | .keyDisable => some "key_label"
  | .attestationRun => none
  | .ceremonyComplete => some "new_key"

def securitySubtypes : List String :=
  [.keyCreate, .keyRotate, .keyDisable, .attestationRun, .ceremonyComplete].map eventSubtypeOf

def isSecurityEntry (row : AuditLogEntry) : Bool := securitySubtypes.contains row.eventSubtype

theorem eventSubtypeOf_mem (t : SecurityOperationType) : eventSubtypeOf t ∈ securitySubtypes := by
  cases t <;> decide

theorem eventSubtypeOf_length (t : SecurityOperationType) :
    (eventSubtypeOf t).toList.length ≤ 60 := by
  cases t <;> decide

theorem labelKey_public (t : SecurityOperationType) {key : String} (h : labelKey t = some key) :
    isSensitiveKey key = false := by
  cases t with
  | attestationRun => cases h
  | _ =>
    obtain rfl := Option.some.inj h
    decide

/-- The row of the log is the entry of the operation. -/
structure Matches (o : SecurityOperation) (row : AuditLogEntry) : Prop where
  eventSubtype : row.eventSubtype = eventSubtypeOf o.operationType
  actor : row.actor = o.actor
  keyLabel : (labelKey o.operationType).bind (metadataValue row) = o.keyLabel.map Json.str

/-- The operations, in the order of their insertion, and the entries of the security subtypes, in
the order of the log, match one to one. -/
def HistoriesAgree (db : Db) : Prop :=
  List.Forall₂ Matches db.hsm.operations.rows (trail isSecurityEntry db.auditLog)

/-! ## Plans -/

def recordsOperation : Statement → Bool
  | .hsm (.insertOperation _) => true
  | _ => false

/-- The statements leave the history of operations alone. -/
def Unrecorded (ws : List Statement) : Prop := ∀ w ∈ ws, recordsOperation w = false

/-- The entry speaks of the operation, whose label is stored as it is. -/
structure SpeaksOf (entry : AuditLogEntryCreate) (o : SecurityOperation) : Prop where
  eventSubtype : entry.eventSubtype = eventSubtypeOf o.operationType
  actor : entry.actor = o.actor
  keyLabel : (labelKey o.operationType).bind
    (fun key => child (.obj entry.metadataJson) (.key key)) = o.keyLabel.map Json.str
  stored : ∀ l ∈ o.keyLabel, ∀ l', varchar 80 l = some l' → l' = l

/-- What a request sends and appends: no operation and no entry of a security subtype, or one
operation and its entry. -/
inductive SecurityPlan : List Statement → List Append → Prop where
  | quiet {ws : List Statement} {as : List Append} (unrecorded : Unrecorded ws)
      (other : ∀ a ∈ as, ∀ subtype, varchar 60 a.2.eventSubtype = some subtype →
        subtype ∉ securitySubtypes) : SecurityPlan ws as
  | recorded {ws : List Statement} {a : Append} {o : SecurityOperation} (unrecorded : Unrecorded ws)
      (speaks : SpeaksOf a.2 o) : SecurityPlan (ws ++ [.hsm (.insertOperation o)]) [a]

theorem apply_operations {w : Statement} (hw : recordsOperation w = false) {db db' : Db}
    (h : postgres.apply w db = some db') : db'.hsm.operations = db.hsm.operations := by
  rcases (apply_frame h).hsm with ⟨statement, rfl, hst⟩ | hsm
  · rcases (HsmStatement.frame hst).operations with ⟨o, rfl⟩ | hsame
    · cases hw
    · exact hsame
  · rw [hsm]

theorem applyAll_operations {ws : List Statement} (hws : Unrecorded ws) {db db' : Db}
    (h : postgres.applyAll ws db = some db') : db'.hsm.operations = db.hsm.operations := by
  apply postgres.applyAll_preserves (P := fun d => d.hsm.operations = db.hsm.operations) _ h rfl
  intro w hw d d' happly hd
  rw [apply_operations (hws w hw) happly, hd]

/-- A recorded operation is stored but for blanks cut off its texts. -/
theorem insertOperation_rows {o : SecurityOperation} {t t' : HsmStore}
    (h : t.insertOperation o = some t') :
    ∃ keyLabel actor detail, nullable (varchar 80) o.keyLabel = some keyLabel ∧
      varchar 120 o.actor = some actor ∧ t'.operations.rows = t.operations.rows ++
        [{ o with keyLabel := keyLabel, actor := actor, detail := detail }] := by
  simp only [HsmStore.insertOperation, Option.bind_eq_bind, Option.bind_eq_some_iff,
    Option.ite_none_right_eq_some, Option.pure_def, Option.some.injEq] at h
  obtain ⟨keyLabel, hlabel, actor, hactor, detail, -, -, operations, hinsert, rfl⟩ := h
  exact ⟨keyLabel, actor, detail, hlabel, hactor, (Table.insert_eq_some.mp hinsert).2⟩

/-- The stored operation and the row of its entry match. -/
theorem SpeaksOf.matches {crypto : AuditCrypto} {env : AppendEnv} {entry : AuditLogEntryCreate}
    {o : SecurityOperation} {before : Option String} {n : ℕ} {row : AuditLogEntry}
    (h : SpeaksOf entry o) (hrow : AppendedAs crypto env entry before n row)
    {keyLabel : Option String} {actor detail : String}
    (hlabel : nullable (varchar 80) o.keyLabel = some keyLabel)
    (hactor : varchar 120 o.actor = some actor) :
    Matches { o with keyLabel := keyLabel, actor := actor, detail := detail } row where
  eventSubtype := by
    have hstored := hrow.eventSubtype
    rw [h.eventSubtype] at hstored
    exact varchar_of_length_le hstored (eventSubtypeOf_length _)
  actor := by
    have hstored := hrow.actor
    rw [h.actor, hactor] at hstored
    exact (Option.some.inj hstored).symm
  keyLabel := by
    have hsame : keyLabel = o.keyLabel := by
      cases hl : o.keyLabel with
      | none =>
        rw [hl] at hlabel
        exact (Option.some.inj hlabel).symm
      | some l =>
        rw [hl] at hlabel
        obtain ⟨l', hl', rfl⟩ := Option.map_eq_some_iff.mp hlabel
        rw [h.stored l hl l' hl']
    have hentry := h.keyLabel
    cases hkey : labelKey o.operationType with
    | none =>
      rw [hkey] at hentry
      simpa [hkey, hsame] using hentry
    | some key =>
      rw [hkey, Option.bind_some] at hentry
      have hvalue : metadataValue row key = o.keyLabel.map Json.str := by
        rw [metadataValue_appended hrow (labelKey_public _ hkey), hentry]
        cases o.keyLabel <;> rfl
      simp [hsame, hvalue]

/-- The step lemma: a transaction that performs a plan keeps the two histories in step. -/
theorem HistoriesAgree.performed {crypto : AuditCrypto} {db db' : Db} {n k : ℕ}
    {ws : List Statement} {as : List Append} (h : HistoriesAgree db)
    (hordered : Ordered db.auditLog n) (plan : SecurityPlan ws as)
    (performed : Performed crypto db n ws as db' k) : HistoriesAgree db' := by
  obtain ⟨mid, rows, hmid, hrows, rfl⟩ := performed.outcome
  unfold HistoriesAgree at h ⊢
  rw [hordered.trail_append hrows]
  cases plan with
  | quiet unrecorded other =>
    have hnone : rows.filter isSecurityEntry = [] := by
      rw [List.filter_eq_nil_iff]
      intro row hrow
      obtain ⟨a, ha, _, m, happended⟩ := RelatedLists.forall₂_mem_right hrows.forall₂ hrow
      simpa [isSecurityEntry] using other a ha _ happended.eventSubtype
    rw [hnone, List.append_nil, applyAll_operations unrecorded hmid]
    exact h
  | @recorded ws a o unrecorded speaks =>
    rw [StatementSemantics.applyAll_append, Option.bind_eq_some_iff] at hmid
    obtain ⟨first, hfirst, hlast⟩ := hmid
    obtain ⟨hsm, hinsert, rfl⟩ := applyAll_hsm_singleton hlast
    obtain ⟨keyLabel, actor, detail, hlabel, hactor, hoperations⟩ :=
      insertOperation_rows hinsert
    obtain ⟨row, m, rfl, happended⟩ := hrows.singleton
    have hmatches : Matches
        { o with keyLabel := keyLabel, actor := actor, detail := detail } row :=
      speaks.matches happended hlabel hactor
    have hselected : isSecurityEntry row = true := by
      simp [isSecurityEntry, hmatches.eventSubtype, eventSubtypeOf_mem]
    rw [List.filter_singleton, hselected]
    simp only [hoperations, applyAll_operations unrecorded hfirst]
    exact List.rel_append h (.cons hmatches .nil)

/-! ## Labels

A label that ends in a digit is never cut off, and those of the stored keys fit their column. -/

def LabelsFit (t : HsmStore) : Prop := ∀ k ∈ t.keys.rows, k.keyLabel.toList.length ≤ 80

/-- Only blanks at the end are cut off. -/
theorem varchar_of_getLast? {n : ℕ} {s s' : String} (h : varchar n s = some s')
    (hlast : s.toList.getLast? ≠ some ' ') : s' = s := by
  rcases varchar_eq_or_cut h with hsame | ⟨hne, hblank⟩
  · exact hsame
  · have hend := hblank _ (List.getLast_mem hne)
    rw [List.getLast_drop] at hend
    exact absurd (List.getLast?_eq_some_getLast _ ▸ congrArg some hend) hlast

theorem natText_getLast? (n : ℕ) : (natText n).toList.getLast? ≠ some ' ' := by
  intro h
  rw [natText, String.toList_ofList] at h
  have hdigit := Nat.isDigit_of_mem_toDigits (by decide) (by decide) (List.mem_of_getLast? h)
  revert hdigit
  decide

theorem nextVersionLabel_getLast? (label : String) :
    (nextVersionLabel label).toList.getLast? ≠ some ' ' := by
  unfold nextVersionLabel
  split
  · next stem version _ =>
    rw [String.toList_append, List.getLast?_append_of_ne_nil]
    · exact natText_getLast? _
    · simp [natText, Nat.toDigits_ne_nil]
  · rw [String.toList_append, List.getLast?_append_of_ne_nil]
    · decide
    · decide

theorem successorLabel_stored {key : MasterKey} (payload : MasterKeyRotateRequest) {l : String}
    (h : varchar 80 (successorLabel key payload.newLabel) = some l) :
    l = successorLabel key payload.newLabel := by
  unfold successorLabel at h ⊢
  cases hnew : payload.newLabel with
  | none =>
    rw [hnew] at h
    exact varchar_of_getLast? h (nextVersionLabel_getLast? _)
  | some label =>
    rw [hnew] at h
    dsimp only at h ⊢
    split at h
    · next hempty =>
      rw [if_pos hempty]
      exact varchar_of_getLast? h (nextVersionLabel_getLast? _)
    · next hnonempty =>
      rw [if_neg hnonempty]
      exact varchar_of_length_le h (payload.newLabel_max label hnew)

theorem apply_labelsFit {w : Statement} {db db' : Db} (h : postgres.apply w db = some db')
    (hfit : LabelsFit db.hsm) : LabelsFit db'.hsm := by
  rcases (apply_frame h).hsm with ⟨statement, rfl, hst⟩ | hsm
  · intro k' hk'
    rcases (HsmStatement.frame hst).keys with ⟨k, keyLabel, algorithm, -, hlabel, hinsert⟩ |
      ⟨id, patch, -, hupdate⟩ | hkeys
    · rw [(Table.insert_eq_some.mp hinsert).2, List.mem_append, List.mem_singleton] at hk'
      rcases hk' with hk' | rfl
      · exact hfit k' hk'
      · exact varchar_length hlabel
    · rw [(Table.update_eq_some.mp hupdate).2, List.mem_map] at hk'
      obtain ⟨k, hk, rfl⟩ := hk'
      split
      · exact hfit k hk
      · exact hfit k hk
    · exact hfit k' (hkeys ▸ hk')
  · rwa [hsm]

theorem LabelsFit.performed {crypto : AuditCrypto} {db db' : Db} {n k : ℕ} {ws : List Statement}
    {as : List Append} (h : LabelsFit db.hsm) (performed : Performed crypto db n ws as db' k) :
    LabelsFit db'.hsm := by
  obtain ⟨mid, rows, hmid, -, rfl⟩ := performed.outcome
  have hfit : LabelsFit mid.hsm :=
    postgres.applyAll_preserves (P := fun d => LabelsFit d.hsm)
      (fun w _ d d' => apply_labelsFit) hmid h
  exact hfit

/-! ## Operations -/

theorem unrecorded_saveKey (old new : MasterKey) : Unrecorded (saveKey old new) := by
  unfold saveKey Unrecorded
  split <;> simp [recordsOperation]

theorem unrecorded_saveCeremony (old new : KeyCeremony) : Unrecorded (saveCeremony old new) := by
  unfold saveCeremony Unrecorded
  split <;> simp [recordsOperation]

theorem unrecorded_giveApproval (env : HsmEnv) (ceremony : LoadedCeremony)
    (custodianEmail : String) : Unrecorded (giveApproval env ceremony custodianEmail).1 := by
  unfold giveApproval Unrecorded
  split <;> simp [recordsOperation]

theorem unrecorded_append {ws ws' : List Statement} (h : Unrecorded ws) (h' : Unrecorded ws') :
    Unrecorded (ws ++ ws') := List.forall_mem_append.mpr ⟨h, h'⟩

theorem unrecorded_saveKeys (ks : List (MasterKey × MasterKey)) :
    Unrecorded (ks.flatMap fun k => saveKey k.1 k.2) := by
  intro w hw
  obtain ⟨k, -, hk⟩ := List.mem_flatMap.mp hw
  exact unrecorded_saveKey k.1 k.2 w hk

/-- An entry of another subtype. -/
theorem quiet_entry {ws : List Statement} {env : AppendEnv} {entry : AuditLogEntryCreate}
    (unrecorded : Unrecorded ws) (hlength : entry.eventSubtype.toList.length ≤ 60)
    (hother : entry.eventSubtype ∉ securitySubtypes) : SecurityPlan ws [(env, entry)] := by
  apply SecurityPlan.quiet unrecorded
  intro a ha subtype hsubtype
  obtain rfl := List.mem_singleton.mp ha
  rwa [varchar_of_length_le hsubtype hlength]

section

variable {crypto : AuditCrypto} {db : Db} {n : ℕ}

theorem createKey_records (env : HsmEnv) (payload : MasterKeyCreate) (actor : String) :
    (createKey crypto env payload actor).wp postgres (Ends crypto SecurityPlan db n) db db n := by
  apply (Request.wp_bind ..).mpr
  apply assertLabelAvailable_wp (fun _ => .failed (Nat.le_refl n))
  intro _
  apply (Request.wp_bind ..).mpr
  apply assertSlotExists_wp (fun _ => .failed (Nat.le_refl n))
  intro _
  have hinsert : Unrecorded [.hsm (.insertKey (registeredKey env payload))] := by
    simp [Unrecorded, recordsOperation]
  apply (Request.wp_bind ..).mpr
  apply append_performs (.start crypto db n) (domain_cons.mpr ⟨rfl, domain_recordOperation⟩)
    (fun _ _ hk => .failed hk)
  intro row work' performed
  refine Request.wp_commitTransaction_bind (getKey_wp fun _ =>
    .performed (.recorded hinsert ?_) performed)
  exact {
    eventSubtype := rfl
    actor := rfl
    keyLabel := rfl
    stored := by
      intro l hl l' hl'
      obtain rfl := Option.some.inj hl
      exact varchar_of_length_le hl' payload.keyLabel_max }

theorem completeCeremony_records (hfit : LabelsFit db.hsm) (env : HsmEnv) (ceremonyId : Uuid)
    (actor : String) :
    (completeCeremony crypto env ceremonyId actor).wp postgres (Ends crypto SecurityPlan db n)
      db db n := by
  apply (Request.wp_bind ..).mpr
  apply loadPendingCeremony_wp (fun _ => .failed (Nat.le_refl n))
  intro c _ _ _ key hkey _
  apply (Request.wp_bind ..).mpr
  refine wp_ensure.mpr ⟨fun _ => .failed (Nat.le_refl n), fun _ => ?_⟩
  apply (Request.wp_bind ..).mpr
  refine wp_found.mpr ⟨fun _ => .failed (Nat.le_refl n), fun expiresAt _ => ?_⟩
  apply (Request.wp_bind ..).mpr
  apply findPredecessor_wp
  apply (Request.wp_bind ..).mpr
  apply append_performs (.start crypto db n)
    (domain_append.mpr ⟨domain_append.mpr ⟨domain_saveKeys, domain_saveCeremony⟩,
      domain_recordOperation⟩) (fun _ _ hk => .failed hk)
  intro row work' performed
  have hends : ∀ result : Except ServiceError LoadedCeremony,
      Ends crypto SecurityPlan db n result work' work' (n + 1) := by
    intro result
    refine .performed (.recorded (unrecorded_append (unrecorded_saveKeys _)
      (unrecorded_saveCeremony _ _)) ?_) performed
    exact {
      eventSubtype := rfl
      actor := rfl
      keyLabel := rfl
      stored := by
        intro l hl l' hl'
        obtain rfl := Option.some.inj hl
        exact varchar_of_length_le hl' (hfit key hkey) }
  exact Request.wp_commitTransaction_bind
    (loadRelationships_wp (fun _ => hends _) fun _ _ _ => hends _)

theorem rotateKey_records (env : HsmEnv) (keyId : Uuid) (actor : String)
    (payload : MasterKeyRotateRequest) :
    (rotateKey crypto env keyId actor payload).wp postgres (Ends crypto SecurityPlan db n)
      db db n := by
  apply (Request.wp_bind ..).mpr
  apply getKeyOrm_wp (fun _ => .failed (Nat.le_refl n))
  intro key _ _
  apply (Request.wp_bind ..).mpr
  refine wp_ensure.mpr ⟨fun _ => .failed (Nat.le_refl n), fun _ => ?_⟩
  apply (Request.wp_bind ..).mpr
  apply assertLabelAvailable_wp (fun _ => .failed (Nat.le_refl n))
  intro _
  apply (Request.wp_bind ..).mpr
  refine wp_found.mpr ⟨fun _ => .failed (Nat.le_refl n), fun expiresAt _ => ?_⟩
  apply (Request.wp_bind ..).mpr
  apply send_performs (.start crypto db n) (domain_singleton rfl)
    (fun _ => .failed (Nat.le_succ n))
  intro mid _ hsent
  apply (Request.wp_bind ..).mpr
  apply append_performs hsent (domain_append.mpr ⟨domain_saveKey, domain_recordOperation⟩)
    (fun _ k hk => .failed (by omega))
  intro row work' performed
  rw [← List.append_assoc] at performed
  have hunrecorded : Unrecorded ([] ++
      [.hsm (.insertKey (successorKey env key (successorLabel key payload.newLabel) expiresAt))] ++
      saveKey key (rotatedKey env key
        (successorKey env key (successorLabel key payload.newLabel) expiresAt))) :=
    unrecorded_append (by simp [Unrecorded, recordsOperation]) (unrecorded_saveKey _ _)
  refine Request.wp_commitTransaction_bind (getKey_wp fun _ =>
    .performed (.recorded hunrecorded ?_) performed)
  exact {
    eventSubtype := rfl
    actor := rfl
    keyLabel := rfl
    stored := by
      intro l hl l' hl'
      obtain rfl := Option.some.inj hl
      exact successorLabel_stored payload hl' }

theorem disableKey_records (hfit : LabelsFit db.hsm) (env : HsmEnv) (keyId : Uuid)
    (actor : String) :
    (disableKey crypto env keyId actor).wp postgres (Ends crypto SecurityPlan db n) db db n := by
  apply (Request.wp_bind ..).mpr
  apply getKeyOrm_wp (fun _ => .failed (Nat.le_refl n))
  intro key hkey _
  apply (Request.wp_bind ..).mpr
  refine wp_ensure.mpr ⟨fun _ => .failed (Nat.le_refl n), fun _ => ?_⟩
  apply (Request.wp_bind ..).mpr
  apply append_performs (.start crypto db n)
    (domain_append.mpr ⟨domain_saveKey, domain_recordOperation⟩) (fun _ _ hk => .failed hk)
  intro row work' performed
  refine Request.wp_commitTransaction_bind (getKey_wp fun _ =>
    .performed (.recorded (unrecorded_saveKey _ _) ?_) performed)
  exact {
    eventSubtype := rfl
    actor := rfl
    keyLabel := rfl
    stored := by
      intro l hl l' hl'
      obtain rfl := Option.some.inj hl
      exact varchar_of_length_le hl' (hfit key hkey) }

theorem runAttestation_records (env : HsmEnv) (actor : String) :
    (runAttestation crypto env actor).wp postgres (Ends crypto SecurityPlan db n) db db n := by
  apply (Request.wp_bind ..).mpr
  apply append_performs (.start crypto db n) (domain_cons.mpr ⟨rfl, domain_recordOperation⟩)
    (fun _ _ hk => .failed hk)
  intro row work' performed
  have hinsert : Unrecorded [.hsm (.insertAttestationRun (attestationRun env))] := by
    simp [Unrecorded, recordsOperation]
  have hends : ∀ result : Except ServiceError AttestationRun,
      Ends crypto SecurityPlan db n result work' work' (n + 1) := by
    intro result
    refine .performed (.recorded hinsert ?_) performed
    exact {
      eventSubtype := rfl
      actor := rfl
      keyLabel := rfl
      stored := by
        intro l hl
        cases hl }
  apply Request.wp_commitTransaction_bind
  apply (Request.wp_bind ..).mpr
  rw [Request.wp_select]
  exact wp_found.mpr ⟨fun _ => hends _, fun _ _ => hends _⟩

/-- Ceremonies are opened and approved without an operation. -/
theorem quiet_of_ceremonyPlan {r : HsmRequest} {t : HsmStore} {ws : List Statement}
    {as : List Append} (plan : HsmPlan t r ws as)
    (hr : (∃ env payload actor, r = .createCeremony env payload actor) ∨
      ∃ env ceremonyId custodianEmail, r = .approveCeremony env ceremonyId custodianEmail) :
    SecurityPlan ws as := by
  cases plan with
  | initiated _ _ _ _ _ _ isEntry =>
    obtain ⟨_, _, _, rfl⟩ := isEntry
    apply quiet_entry
    · simp [Unrecorded, recordsOperation]
    · simp [keyOperationEntry]
    · simp [keyOperationEntry, securitySubtypes, eventSubtypeOf]
  | approvedBefore =>
    exact .quiet (fun _ hw => nomatch hw) fun _ ha => nomatch ha
  | approved _ _ _ isEntry =>
    obtain ⟨_, _, _, rfl⟩ := isEntry
    apply quiet_entry (unrecorded_giveApproval _ _ _)
    · simp [keyOperationEntry]
    · simp [keyOperationEntry, securitySubtypes, eventSubtypeOf]
  | registered => simp at hr
  | completed => simp at hr
  | rotated => simp at hr
  | disabled => simp at hr

/-- A request fails and leaves the database, or performs a plan. -/
theorem SecurityRequest.ends (hfit : LabelsFit db.hsm) (r : SecurityRequest) :
    (r.request crypto).wp postgres (Ends crypto SecurityPlan db n) db db n := by
  cases r with
  | runAttestation env actor =>
    exact Request.wp_answer (Request.wp_mono (runAttestation_records env actor)
      fun _ _ _ _ h => h.map)
  | key r =>
    cases r with
    | createKey env payload actor =>
      exact Request.wp_answer (Request.wp_mono (createKey_records env payload actor)
        fun _ _ _ _ h => h.map)
    | createCeremony env payload actor =>
      exact Request.wp_mono (request_ends (.createCeremony env payload actor))
        fun _ _ _ _ h => h.mono fun _ _ plan => quiet_of_ceremonyPlan plan (.inl ⟨_, _, _, rfl⟩)
    | approveCeremony env id email =>
      exact Request.wp_mono (request_ends (.approveCeremony env id email))
        fun _ _ _ _ h => h.mono fun _ _ plan => quiet_of_ceremonyPlan plan (.inr ⟨_, _, _, rfl⟩)
    | completeCeremony env id actor =>
      exact Request.wp_answer (Request.wp_mono (completeCeremony_records hfit env id actor)
        fun _ _ _ _ h => h.map)
    | rotateKey env id actor payload =>
      exact Request.wp_answer (Request.wp_mono (rotateKey_records env id actor payload)
        fun _ _ _ _ h => h.map)
    | disableKey env id actor =>
      exact Request.wp_answer (Request.wp_mono (disableKey_records hfit env id actor)
        fun _ _ _ _ h => h.map)

end

/-! ## Runs -/

/-- What holds of every reachable store. -/
structure HistoryInv (s : Store Db) : Prop where
  agree : HistoriesAgree s.db
  ordered : Ordered s.db.auditLog s.sequence
  labels : LabelsFit s.db.hsm

theorem HistoryInv.exec {crypto : AuditCrypto} {s : Store Db} (h : HistoryInv s)
    (r : SecurityRequest) : HistoryInv (s.exec postgres (r.request crypto)) := by
  have hends : (r.request crypto).wp postgres (Ends crypto SecurityPlan s.db s.sequence)
      s.db s.db s.sequence := r.ends h.labels
  have hordered := h.ordered.exec hends
  rcases exec_of_ends s hends with ⟨hdb, -⟩ | ⟨ws, as, plan, performed⟩
  · exact ⟨hdb ▸ h.agree, hordered, hdb ▸ h.labels⟩
  · exact ⟨h.agree.performed h.ordered plan performed, hordered, h.labels.performed performed⟩

/-- In every state that serial runs from empty tables reach, the history of operations and the
security entries of the audit log match one to one, in order, actor and key label. -/
theorem histories_agree (crypto : AuditCrypto) (n : ℕ) (rs : List SecurityRequest) :
    HistoriesAgree (execAll crypto ⟨emptyDb, n⟩ rs).db := by
  have hempty : HistoryInv ⟨emptyDb, n⟩ :=
    ⟨.nil, ordered_nil n, fun k hk => nomatch hk⟩
  have hrun : HistoryInv (execAll crypto ⟨emptyDb, n⟩ rs) :=
    Store.execAll_preserves (Q := fun _ _ => True) hempty (fun _ _ _ _ => trivial)
      fun _ r _ h => h.exec r
  exact hrun.agree

end NexusEngine.SecurityHistory
