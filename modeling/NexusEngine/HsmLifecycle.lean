import NexusEngine.HsmTransactions

/-!
# What the HSM operations do

Each operation, run to its end, leaves the tables as they were or has one effect on them.
Everything about runs of the service is derived from these effects.
-/

namespace NexusEngine.HsmLifecycle

open TransactionalRequests StoredColumns KeyedTables CalendarTime HsmTables Database AuditService
  AuditedTransactions HsmService HsmTransactions

/-! ## Flushed objects -/

/-- Replace the loaded keys by the flushed ones. -/
def replaceKeys (ks : List (MasterKey × MasterKey)) (k : MasterKey) : MasterKey :=
  match ks.find? fun p => p.1.id = k.id with
  | some p => p.2
  | none => k

@[simp] theorem replaceKeys_nil : replaceKeys [] = id := rfl

theorem replaceKeys_id {ks : List (MasterKey × MasterKey)}
    (h : ∀ p ∈ ks, p.1.SameRecord p.2) (k : MasterKey) : (replaceKeys ks k).id = k.id := by
  unfold replaceKeys
  cases hfind : ks.find? fun p => p.1.id = k.id with
  | none => rfl
  | some p =>
    have hid : p.1.id = k.id := by simpa using List.find?_some hfind
    exact (h p (List.mem_of_find?_eq_some hfind)).1.trans hid

theorem replaceKeys_singleton (old new k : MasterKey) :
    replaceKeys [(old, new)] k = if k.id = old.id then new else k := by
  unfold replaceKeys
  by_cases hk : old.id = k.id
  · simp [hk]
  · simp [hk, Ne.symm hk]

/-- The keys of one flush are replaced one after the other. -/
theorem replaceKeys_cons {p : MasterKey × MasterKey} {ks : List (MasterKey × MasterKey)}
    (hsame : p.1.SameRecord p.2) (hdistinct : ∀ q ∈ ks, p.1.id ≠ q.1.id) (k : MasterKey) :
    replaceKeys (p :: ks) k = replaceKeys ks (replaceKeys [p] k) := by
  simp only [replaceKeys, List.find?_cons, List.find?_nil]
  by_cases hk : p.1.id = k.id
  · have hnone : ks.find? (fun q => q.1.id = p.2.id) = none := by
      rw [List.find?_eq_none]
      intro q hq
      rw [hsame.1]
      simpa using Ne.symm (hdistinct q hq)
    simp [hk, hnone]
  · simp [hk]

theorem saveKey_sound {old new : MasterKey} {db db' : Db} (hold : old ∈ db.hsm.keys.rows)
    (hsame : old.SameRecord new) (h : postgres.applyAll (saveKey old new) db = some db') :
    ∃ keys, db' = { db with hsm := { db.hsm with keys := keys } } ∧
      keys.rows = db.hsm.keys.rows.map (replaceKeys [(old, new)]) := by
  unfold saveKey at h
  split at h
  · next heq =>
    subst heq
    cases h
    refine ⟨db.hsm.keys, rfl, ?_⟩
    refine (List.map_id' _).symm.trans (List.map_congr_left fun k hk => ?_)
    rw [replaceKeys_singleton]
    split
    · next hid => exact db.hsm.keys.eq_of_key_eq hk hold hid
    · rfl
  · obtain ⟨hsm, hupdate, rfl⟩ := applyAll_hsm_singleton h
    obtain ⟨keys, hkeys, rfl⟩ := HsmStore.updateKey_eq_some hupdate
    refine ⟨keys, rfl, ?_⟩
    rw [(Table.update_eq_some.mp hkeys).2]
    refine List.map_congr_left fun k hk => ?_
    rw [replaceKeys_singleton]
    split
    · next hid =>
      rw [db.hsm.keys.eq_of_key_eq hk hold hid]
      exact MasterKey.diff_apply hsame
    · rfl

/-- The keys of one flush are rows of their own. -/
theorem saveKeys_sound {ks : List (MasterKey × MasterKey)} {db db' : Db}
    (hrows : ∀ p ∈ ks, p.1 ∈ db.hsm.keys.rows) (hsame : ∀ p ∈ ks, p.1.SameRecord p.2)
    (hdistinct : ks.Pairwise fun p q => p.1.id ≠ q.1.id)
    (h : postgres.applyAll (ks.flatMap fun k => saveKey k.1 k.2) db = some db') :
    ∃ keys, db' = { db with hsm := { db.hsm with keys := keys } } ∧
      keys.rows = db.hsm.keys.rows.map (replaceKeys ks) := by
  induction ks generalizing db with
  | nil =>
    cases h
    exact ⟨_, rfl, (List.map_id' _).symm⟩
  | cons p ks ih =>
    rw [List.flatMap_cons, StatementSemantics.applyAll_append, Option.bind_eq_some_iff] at h
    obtain ⟨mid, hfirst, hrest⟩ := h
    obtain ⟨hhead, htail⟩ := List.pairwise_cons.mp hdistinct
    obtain ⟨keys, rfl, hkeys⟩ := saveKey_sound (hrows p List.mem_cons_self)
      (hsame p List.mem_cons_self) hfirst
    have hkeep : ∀ q ∈ ks, q.1 ∈ keys.rows := by
      intro q hq
      rw [hkeys, List.mem_map]
      refine ⟨q.1, hrows q (List.mem_cons_of_mem _ hq), ?_⟩
      simp [replaceKeys, hhead q hq]
    obtain ⟨keys', rfl, hkeys'⟩ := ih hkeep (fun q hq => hsame q (List.mem_cons_of_mem _ hq))
      htail hrest
    refine ⟨keys', rfl, ?_⟩
    rw [hkeys', hkeys, List.map_map]
    refine List.map_congr_left fun k _ => ?_
    exact (replaceKeys_cons (hsame p List.mem_cons_self) hhead k).symm

theorem saveCeremony_sound {c c' : KeyCeremony} {db db' : Db} (hc : c ∈ db.hsm.ceremonies.rows)
    (hsame : c' = { c with status := c'.status, completedAt := c'.completedAt })
    (h : postgres.applyAll (saveCeremony c c') db = some db') :
    ∃ ceremonies, db' = { db with hsm := { db.hsm with ceremonies := ceremonies } } ∧
      ceremonies.rows = db.hsm.ceremonies.rows.map fun d => if d.id = c.id then c' else d := by
  unfold saveCeremony at h
  split at h
  · next heq =>
    subst heq
    cases h
    refine ⟨db.hsm.ceremonies, rfl, ?_⟩
    refine (List.map_id' _).symm.trans (List.map_congr_left fun d hd => ?_)
    split
    · next hid => exact db.hsm.ceremonies.eq_of_key_eq hd hc hid
    · rfl
  · obtain ⟨hsm, hupdate, rfl⟩ := applyAll_hsm_singleton h
    obtain ⟨ceremonies, hceremonies, rfl⟩ := HsmStore.updateCeremony_eq_some hupdate
    refine ⟨ceremonies, rfl, ?_⟩
    rw [(Table.update_eq_some.mp hceremonies).2]
    refine List.map_congr_left fun d hd => ?_
    split
    · next hid =>
      rw [db.hsm.ceremonies.eq_of_key_eq hd hc hid]
      exact KeyCeremony.diff_apply hsame
    · rfl

theorem recordOperation_sound {env : HsmEnv} {operationType : SecurityOperationType}
    {key : Option MasterKey} {actor detail : String} {db db' : Db}
    (h : postgres.applyAll [recordOperation env operationType key actor detail] db = some db') :
    ∃ operations, db' = { db with hsm := { db.hsm with operations := operations } } := by
  obtain ⟨hsm, hinsert, rfl⟩ := applyAll_hsm_singleton h
  obtain ⟨operations, rfl⟩ := HsmStore.insertOperation_eq_some hinsert
  exact ⟨operations, rfl⟩

/-! ## Effects -/

def approvalsOf (t : HsmStore) (ceremonyId : Uuid) : List KeyCustodianApproval :=
  t.approvals.rows.filter fun a => a.ceremonyId = ceremonyId

theorem approvalsOf_append {t t' : HsmStore} {a : KeyCustodianApproval}
    (h : t'.approvals.rows = t.approvals.rows ++ [a]) (id : Uuid) :
    approvalsOf t' id = approvalsOf t id ++ if a.ceremonyId = id then [a] else [] := by
  rw [approvalsOf, h, List.filter_append]
  congr 1
  by_cases hid : a.ceremonyId = id <;> simp [hid]

theorem approvalsOf_eq {t t' : HsmStore} (h : t'.approvals = t.approvals) (id : Uuid) :
    approvalsOf t' id = approvalsOf t id := by
  rw [approvalsOf, h]
  rfl

/-- What a request can do to the tables, with the guards it has passed. -/
inductive HsmEffect (t : HsmStore) : HsmRequest → HsmStore → Prop where
  | unchanged (r : HsmRequest) : HsmEffect t r t
  | keyCreated {env : HsmEnv} {payload : MasterKeyCreate} {actor : String} {k : MasterKey}
      {t' : HsmStore} (fresh : t.keys.find? env.uuid4 = none) (id : k.id = env.uuid4)
      (status : k.status = .pending) (inactive : k.activatedAt = none)
      (keys : t'.keys.rows = t.keys.rows ++ [k]) (ceremonies : t'.ceremonies = t.ceremonies)
      (approvals : t'.approvals = t.approvals) (notSuperseded : k.supersededById = none)
      (wraps : k.wrapsDekCount = 0) (label : ∀ l ∈ t.keys.rows, l.keyLabel ≠ k.keyLabel)
      (fits : k.keyLabel.toList.length ≤ 80) : HsmEffect t (.createKey env payload actor) t'
  | ceremonyCreated {env : HsmEnv} {payload : KeyCeremonyCreate} {actor : String}
      {target : MasterKey} {c : KeyCeremony} {t' : HsmStore} (isTarget : target ∈ t.keys.rows)
      (pendingKey : target.status = .pending)
      (single : ∀ d ∈ t.ceremonies.rows, d.masterKeyId = target.id → d.status ≠ .pending)
      (fresh : t.ceremonies.find? c.id = none) (masterKeyId : c.masterKeyId = target.id)
      (status : c.status = .pending) (quorum : c.requiredApprovals = payload.requiredApprovals)
      (ceremonies : t'.ceremonies.rows = t.ceremonies.rows ++ [c]) (keys : t'.keys = t.keys)
      (approvals : t'.approvals = t.approvals)
      (predecessor : ∀ l, c.predecessorLabel = some l → ∃ p ∈ t.keys.rows, p.id ≠ target.id ∧
        (p.status = .active ∨ p.status = .expiring) ∧ varchar 80 p.keyLabel = some l) :
      HsmEffect t (.createCeremony env payload actor) t'
  | approvalInserted {env : HsmEnv} {custodianEmail : String} {c : KeyCeremony}
      {a : KeyCustodianApproval} {t' : HsmStore} (isCeremony : c ∈ t.ceremonies.rows)
      (pending : c.status = .pending)
      (missing : ∀ b ∈ approvalsOf t c.id, b.custodianEmail ≠ custodianEmail)
      (ceremonyId : a.ceremonyId = c.id) (approvedAt : a.approvedAt = some env.now)
      (email : varchar 120 custodianEmail = some a.custodianEmail)
      (approvals : t'.approvals.rows = t.approvals.rows ++ [a]) (keys : t'.keys = t.keys)
      (ceremonies : t'.ceremonies = t.ceremonies) :
      HsmEffect t (.approveCeremony env c.id custodianEmail) t'
  | approvalUpdated {env : HsmEnv} {custodianEmail : String} {c : KeyCeremony}
      {a : KeyCustodianApproval} {t' : HsmStore} (isCeremony : c ∈ t.ceremonies.rows)
      (pending : c.status = .pending) (isApproval : a ∈ approvalsOf t c.id)
      (open_ : a.approvedAt = none)
      (approvals : t'.approvals.rows = t.approvals.rows.map fun b =>
        if b.id = a.id then { b with approvedAt := some env.now } else b)
      (keys : t'.keys = t.keys) (ceremonies : t'.ceremonies = t.ceremonies) :
      HsmEffect t (.approveCeremony env c.id custodianEmail) t'
  | completed {env : HsmEnv} {actor : String} {c : KeyCeremony} {key : MasterKey}
      {expiresAt : Instant} {t' : HsmStore} (isCeremony : c ∈ t.ceremonies.rows)
      (pending : c.status = .pending)
      (quorum : c.requiredApprovals ≤ approvalCount (approvalsOf t c.id))
      (isKey : key ∈ t.keys.rows) (masterKeyId : c.masterKeyId = key.id)
      (keys : t'.keys.rows = t.keys.rows.map (replaceKeys
        (rotatedKeys env.now expiresAt key (predecessorByLabel t c.predecessorLabel))))
      (ceremonies : t'.ceremonies.rows = t.ceremonies.rows.map fun d =>
        if d.id = c.id then completedCeremony env.now c else d)
      (approvals : t'.approvals = t.approvals) : HsmEffect t (.completeCeremony env c.id actor) t'
  | rotated {env : HsmEnv} {actor : String} {payload : MasterKeyRotateRequest}
      {key successor : MasterKey} {t' : HsmStore} (isKey : key ∈ t.keys.rows)
      (inService : key.status = .active ∨ key.status = .expiring)
      (fresh : t.keys.find? successor.id = none) (status : successor.status = .active)
      (keys : t'.keys.rows = t.keys.rows.map (replaceKeys
        [(key, rotatedKey env key successor)]) ++ [successor])
      (ceremonies : t'.ceremonies = t.ceremonies) (approvals : t'.approvals = t.approvals)
      (notSuperseded : successor.supersededById = none)
      (activatedAt : successor.activatedAt = some env.now)
      (wraps : successor.wrapsDekCount = key.wrapsDekCount)
      (label : ∀ k ∈ t.keys.rows, k.keyLabel ≠ successor.keyLabel)
      (fits : successor.keyLabel.toList.length ≤ 80) :
      HsmEffect t (.rotateKey env key.id actor payload) t'
  | disabled {env : HsmEnv} {actor : String} {key : MasterKey} {t' : HsmStore}
      (isKey : key ∈ t.keys.rows) (inService : ¬ (key.status = .retired ∨ key.status = .disabled))
      (keys : t'.keys.rows = t.keys.rows.map (replaceKeys [(key, disabledKey env key)]))
      (ceremonies : t'.ceremonies = t.ceremonies) (approvals : t'.approvals = t.approvals) :
      HsmEffect t (.disableKey env key.id actor) t'

/-! ## Plans -/

theorem predecessorByLabel_mem {t : HsmStore} {label : Option String} {k : MasterKey}
    (h : predecessorByLabel t label = some k) : k ∈ t.keys.rows := by
  cases label with
  | none => cases h
  | some l =>
    simp only [predecessorByLabel, Option.ite_none_left_eq_some] at h
    exact List.mem_of_find?_eq_some h.2

/-- The keys of a completion are rows of their own, changed in the columns an update writes. -/
theorem rotatedKeys_saves {t : HsmStore} (now expiresAt : Instant) {key : MasterKey}
    {predecessor : Option MasterKey} (hkey : key ∈ t.keys.rows)
    (hpredecessor : ∀ p, predecessor = some p → p ∈ t.keys.rows) :
    (∀ p ∈ rotatedKeys now expiresAt key predecessor, p.1 ∈ t.keys.rows) ∧
      (∀ p ∈ rotatedKeys now expiresAt key predecessor, p.1.SameRecord p.2) ∧
      (rotatedKeys now expiresAt key predecessor).Pairwise fun p q => p.1.id ≠ q.1.id := by
  cases predecessor with
  | none => simp [rotatedKeys, hkey, MasterKey.SameRecord]
  | some p =>
    have hp := hpredecessor p rfl
    unfold rotatedKeys
    by_cases hid : p.id = key.id
    · simp [hid, hkey, MasterKey.SameRecord]
    · simp [hid, hkey, hp, MasterKey.SameRecord, Ne.symm hid]

/-- The new key of a completion with a predecessor. -/
def activatedKey (now expiresAt : Instant) (key : MasterKey) : MasterKey :=
  { key with
    status := .active
    activatedAt := some now
    expiresAt := some expiresAt
    supersededById := none }

/-- The predecessor after a completion. -/
def retiredKey (now : Instant) (key predecessor : MasterKey) : MasterKey :=
  { predecessor with
    status := .retired
    retiredAt := some now
    supersededById := some key.id }

theorem rotatedKeys_some {now expiresAt : Instant} {key predecessor : MasterKey}
    (h : predecessor.id ≠ key.id) :
    rotatedKeys now expiresAt key (some predecessor) =
      [(key, activatedKey now expiresAt key), (predecessor, retiredKey now key predecessor)] := by
  unfold rotatedKeys
  exact if_neg h

theorem rotatedKeys_self {now expiresAt : Instant} {key predecessor : MasterKey}
    (h : predecessor.id = key.id) :
    rotatedKeys now expiresAt key (some predecessor) =
      [(key, { key with
        status := .retired
        activatedAt := some now
        expiresAt := some expiresAt
        retiredAt := some now
        supersededById := some key.id })] := by
  unfold rotatedKeys
  exact if_pos h

theorem activatedKey_sameRecord (now expiresAt : Instant) (key : MasterKey) :
    key.SameRecord (activatedKey now expiresAt key) := ⟨rfl, rfl, rfl, rfl, rfl, rfl⟩

theorem rotatedKey_sameRecord (env : HsmEnv) (key successor : MasterKey) :
    key.SameRecord (rotatedKey env key successor) := ⟨rfl, rfl, rfl, rfl, rfl, rfl⟩

theorem disabledKey_sameRecord (env : HsmEnv) (key : MasterKey) :
    key.SameRecord (disabledKey env key) := ⟨rfl, rfl, rfl, rfl, rfl, rfl⟩

/-- An inserted key has an identifier and a label of its own. -/
theorem insertKey_sound {k : MasterKey} {db db' : Db}
    (h : postgres.applyAll [.hsm (.insertKey k)] db = some db') :
    ∃ keyLabel algorithm keys, db' = { db with hsm := { db.hsm with keys := keys } } ∧
      keys.rows = db.hsm.keys.rows ++ [{ k with keyLabel := keyLabel, algorithm := algorithm }] ∧
      db.hsm.keys.find? k.id = none ∧ (∀ r ∈ db.hsm.keys.rows, r.keyLabel ≠ keyLabel) ∧
      keyLabel.toList.length ≤ 80 := by
  obtain ⟨hsm, hinsert, rfl⟩ := applyAll_hsm_singleton h
  obtain ⟨keyLabel, algorithm, keys, hlabel, hkeys, rfl⟩ := HsmStore.insertKey_eq_some hinsert
  obtain ⟨keyLabel', hlabel', hfresh⟩ := HsmStore.insertKey_label hinsert
  obtain rfl := Option.some.inj (hlabel.symm.trans hlabel')
  obtain ⟨hnone, hrows⟩ := Table.insert_eq_some.mp hkeys
  exact ⟨keyLabel, algorithm, keys, rfl, hrows, hnone, hfresh, varchar_length hlabel⟩

/-- The rows that a completion leaves. -/
theorem completion_rows {env : HsmEnv} {c : KeyCeremony} {key : MasterKey} {expiresAt : Instant}
    {actor detail : String} {db db' : Db} (isCeremony : c ∈ db.hsm.ceremonies.rows)
    (isKey : key ∈ db.hsm.keys.rows)
    (h : postgres.applyAll ((rotatedKeys env.now expiresAt key
        (predecessorByLabel db.hsm c.predecessorLabel)).flatMap (fun k => saveKey k.1 k.2) ++
      saveCeremony c (completedCeremony env.now c) ++
      [recordOperation env .ceremonyComplete (some key) actor detail]) db = some db') :
    db'.hsm.keys.rows = db.hsm.keys.rows.map (replaceKeys (rotatedKeys env.now expiresAt key
        (predecessorByLabel db.hsm c.predecessorLabel))) ∧
      db'.hsm.ceremonies.rows = db.hsm.ceremonies.rows.map (fun d =>
        if d.id = c.id then completedCeremony env.now c else d) ∧
      db'.hsm.approvals = db.hsm.approvals := by
  obtain ⟨hrows, hsame, hdistinct⟩ := rotatedKeys_saves env.now expiresAt isKey
    fun p (hp : predecessorByLabel db.hsm c.predecessorLabel = some p) => predecessorByLabel_mem hp
  rw [StatementSemantics.applyAll_append, Option.bind_eq_some_iff] at h
  obtain ⟨mid, hsaved, hrecord⟩ := h
  rw [StatementSemantics.applyAll_append, Option.bind_eq_some_iff] at hsaved
  obtain ⟨withKeys, hkeys, hceremony⟩ := hsaved
  obtain ⟨keys, rfl, hkeyRows⟩ := saveKeys_sound hrows hsame hdistinct hkeys
  have hloaded : c ∈
      ({ db with hsm := { db.hsm with keys := keys } } : Db).hsm.ceremonies.rows := isCeremony
  obtain ⟨ceremonies, rfl, hceremonyRows⟩ := saveCeremony_sound hloaded rfl hceremony
  obtain ⟨operations, rfl⟩ := recordOperation_sound hrecord
  exact ⟨hkeyRows, hceremonyRows, rfl⟩

/-- The rows that a rotation leaves: the successor is stored but for blanks cut off its texts. -/
theorem rotation_rows {env : HsmEnv} {key successor : MasterKey} {actor detail : String}
    {db db' : Db} (isKey : key ∈ db.hsm.keys.rows)
    (h : postgres.applyAll (.hsm (.insertKey successor) :: (saveKey key (rotatedKey env key successor)
      ++ [recordOperation env .keyRotate (some successor) actor detail])) db = some db') :
    ∃ keyLabel algorithm, db'.hsm.keys.rows =
        db.hsm.keys.rows.map (replaceKeys [(key, rotatedKey env key successor)]) ++
          [{ successor with keyLabel := keyLabel, algorithm := algorithm }] ∧
      db.hsm.keys.find? successor.id = none ∧ (∀ r ∈ db.hsm.keys.rows, r.keyLabel ≠ keyLabel) ∧
      keyLabel.toList.length ≤ 80 ∧ db'.hsm.ceremonies = db.hsm.ceremonies ∧
      db'.hsm.approvals = db.hsm.approvals := by
  rw [← List.singleton_append, StatementSemantics.applyAll_append, Option.bind_eq_some_iff] at h
  obtain ⟨mid, hfirst, hrest⟩ := h
  obtain ⟨keyLabel, algorithm, keys, rfl, hrows, hnone, hfresh, hfits⟩ := insertKey_sound hfirst
  rw [StatementSemantics.applyAll_append, Option.bind_eq_some_iff] at hrest
  obtain ⟨withKey, hsaved, hrecord⟩ := hrest
  have hmem : key ∈ keys.rows := hrows ▸ List.mem_append_left _ isKey
  obtain ⟨keys', rfl, hkeyRows⟩ := saveKey_sound hmem (rotatedKey_sameRecord env key _) hsaved
  obtain ⟨operations, rfl⟩ := recordOperation_sound hrecord
  have hne : key.id ≠ successor.id := fun heq => Table.find?_eq_none.mp hnone key isKey heq
  refine ⟨keyLabel, algorithm, ?_, hnone, hfresh, hfits, rfl, rfl⟩
  rw [hkeyRows, hrows, List.map_append]
  simp [replaceKeys, hne]

/-- What a plan does to the tables, where its statements are accepted. -/
theorem effect_of_plan {r : HsmRequest} {ws : List Statement} {as : List Append} {db db' : Db}
    (plan : HsmPlan db.hsm r ws as) (h : postgres.applyAll ws db = some db') :
    HsmEffect db.hsm r db'.hsm := by
  cases plan with
  | registered =>
    rw [← List.singleton_append, StatementSemantics.applyAll_append, Option.bind_eq_some_iff] at h
    obtain ⟨mid, hfirst, hrecord⟩ := h
    obtain ⟨operations, rfl⟩ := recordOperation_sound hrecord
    obtain ⟨keyLabel, algorithm, keys, rfl, hrows, hnone, hfresh, hfits⟩ := insertKey_sound hfirst
    exact .keyCreated hnone rfl rfl rfl hrows rfl rfl rfl rfl hfresh hfits
  | @initiated env payload actor target predecessor entry isTarget id pendingKey named isPredecessor
      single =>
    obtain ⟨hsm, hinsert, rfl⟩ := applyAll_hsm_singleton h
    obtain ⟨ceremonyRef, label, ceremonies, hlabel, hceremonies, rfl⟩ :=
      HsmStore.insertCeremony_eq_some hinsert
    obtain ⟨hfresh, hrows⟩ := Table.insert_eq_some.mp hceremonies
    refine .ceremonyCreated isTarget pendingKey single hfresh rfl rfl rfl hrows rfl rfl ?_
    intro l hl
    obtain rfl : label = some l := hl
    cases predecessor with
    | none => cases hlabel
    | some p =>
      obtain ⟨l', hstored, hl'⟩ := Option.map_eq_some_iff.mp hlabel
      obtain rfl := Option.some.inj hl'
      obtain ⟨hmem, hother, hinService⟩ := isPredecessor p rfl
      exact ⟨p, hmem, hother, hinService, hstored⟩
  | approvedBefore =>
    cases h
    exact .unchanged _
  | @approved env c key custodianEmail entry isCeremony pending notYet =>
    simp only [giveApproval, alreadyApproved] at h notYet
    cases hfind : (approvalsOf db.hsm c.id).find? fun a => a.custodianEmail = custodianEmail with
    | none =>
      have hmissing : ∀ b ∈ approvalsOf db.hsm c.id, b.custodianEmail ≠ custodianEmail :=
        fun b hb => by simpa using List.find?_eq_none.mp hfind b hb
      rw [approvalsOf] at hfind
      rw [hfind] at h
      obtain ⟨hsm, hinsert, rfl⟩ := applyAll_hsm_singleton h
      obtain ⟨email, approvals, hemail, hinserted, rfl⟩ := HsmStore.insertApproval_eq_some hinsert
      exact .approvalInserted isCeremony pending hmissing rfl rfl hemail
        (Table.insert_eq_some.mp hinserted).2 rfl rfl
    | some a =>
      have hmem := List.mem_of_find?_eq_some hfind
      rw [approvalsOf] at hfind
      rw [hfind] at h notYet
      obtain ⟨hsm, hupdate, rfl⟩ := applyAll_hsm_singleton h
      obtain ⟨approvals, hupdated, rfl⟩ := HsmStore.updateApproval_eq_some hupdate
      refine .approvalUpdated isCeremony pending hmem ?_ (Table.update_eq_some.mp hupdated).2 rfl rfl
      simpa using notYet
  | @completed env c key actor expiresAt entry isCeremony pending quorum isKey masterKeyId =>
    obtain ⟨hkeys, hceremonies, happrovals⟩ := completion_rows isCeremony isKey h
    exact .completed isCeremony pending quorum isKey masterKeyId hkeys hceremonies happrovals
  | @rotated env key successor actor payload expiresAt entry isKey inService _ _ isSuccessor =>
    obtain ⟨keyLabel, algorithm, hkeys, hnone, hfresh, hfits, hceremonies, happrovals⟩ :=
      rotation_rows isKey h
    refine @HsmEffect.rotated db.hsm env actor payload key
      { successor with keyLabel := keyLabel, algorithm := algorithm } _ isKey inService hnone ?_
      hkeys hceremonies happrovals ?_ ?_ ?_ hfresh hfits
    · rw [isSuccessor]
      rfl
    · rw [isSuccessor]
      rfl
    · rw [isSuccessor]
      rfl
    · rw [isSuccessor]
      rfl
  | @disabled env key actor entry isKey inService =>
    rw [StatementSemantics.applyAll_append, Option.bind_eq_some_iff] at h
    obtain ⟨withKey, hsaved, hrecord⟩ := h
    obtain ⟨keys, rfl, hkeyRows⟩ := saveKey_sound isKey (disabledKey_sameRecord env key) hsaved
    obtain ⟨operations, rfl⟩ := recordOperation_sound hrecord
    exact .disabled isKey inService hkeyRows rfl rfl

/-- The step lemma of the service: a request has an effect or leaves the tables alone. -/
theorem exec_effect {crypto : AuditCrypto} (s : Store Db) (r : HsmRequest) :
    HsmEffect s.db.hsm r (s.exec postgres (r.request crypto)).db.hsm := by
  have hends : (r.request crypto).wp postgres (Ends crypto (HsmPlan s.db.hsm r) s.db s.sequence)
      s.db s.db s.sequence := request_ends r
  rcases exec_of_ends s hends with ⟨hdb, -⟩ | ⟨ws, as, plan, performed⟩
  · rw [hdb]
    exact .unchanged r
  · obtain ⟨mid, rows, hmid, -, hdb⟩ := performed.outcome
    have heffect := effect_of_plan plan hmid
    rwa [hdb]

/-! ## Sample requests -/

def sampleHsmEnv (k : ℕ) : HsmEnv where
  now := (AuditVerification.sampleEnv k).now
  uuid4 := 100 + k
  refUuid4 := 200 + k
  operationUuid4 := 300 + k
  audit := AuditVerification.sampleEnv k
  readAt := (AuditVerification.sampleEnv k).now

def sampleMasterKey : MasterKeyCreate where
  keyLabel := "nexus-master-v5"
  keyLabel_min := by decide
  keyLabel_max := by decide
  algorithm := "AES-256"
  algorithm_min := by decide
  algorithm_max := by decide
  slotId := none

def sampleCeremony (requiredApprovals : Fin 10) : KeyCeremonyCreate where
  masterKeyId := 100
  predecessorKeyId := none
  requiredApprovals := requiredApprovals + 1
  ge_one := by omega
  le_ten := by omega
  scheduledAt := none

end NexusEngine.HsmLifecycle
