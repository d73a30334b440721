import NexusEngine.HsmActivation

/-!
# Wrapped keys across a rotation

A rotation hands the data keys that a master key wraps to its successor. The rotation of a key
does: the successor starts with the count of the key it replaces. The completion of a ceremony
does not: the new key keeps its own count, so that the count of the predecessor is lost from the
keys in service.
-/

namespace NexusEngine.DekRotation

open TransactionalRequests StoredColumns KeyedTables CalendarTime HsmTables Database AuditService
  AuditedTransactions HsmService HsmTransactions HsmLifecycle
open AuditVerification (sha256Crypto)

/-- The data keys that a key in service wraps. -/
def liveCount (k : MasterKey) : ℕ :=
  if k.status = .active ∨ k.status = .expiring then k.wrapsDekCount else 0

/-- The data keys that the keys in service wrap. -/
def liveDekCount (t : HsmStore) : ℕ := (t.keys.rows.map liveCount).sum

/-- A rotation by either path. That of a ceremony has a new key that wraps nothing, and a
predecessor that is still in service. -/
inductive Rotation (t : HsmStore) : HsmRequest → Prop where
  | rotate (env : HsmEnv) (keyId : Uuid) (actor : String) (payload : MasterKeyRotateRequest) :
      Rotation t (.rotateKey env keyId actor payload)
  | ceremony (env : HsmEnv) (actor : String) {c : KeyCeremony} {key predecessor : MasterKey}
      (isCeremony : c ∈ t.ceremonies.rows) (isKey : t.keys.find? c.masterKeyId = some key)
      (wrapsNone : key.wrapsDekCount = 0)
      (isPredecessor : predecessorByLabel t c.predecessorLabel = some predecessor)
      (inService : predecessor.status = .active ∨ predecessor.status = .expiring) :
      Rotation t (.completeCeremony env c.id actor)

/-- No ceremony is completed whose predecessor wraps data keys. -/
def CarriesDeks (t : HsmStore) : HsmRequest → Prop
  | .completeCeremony _ ceremonyId _ => ∀ c ∈ t.ceremonies.rows, c.id = ceremonyId →
      ∀ p, predecessorByLabel t c.predecessorLabel = some p → p.wrapsDekCount = 0
  | _ => True

/-! ## The sum -/

theorem liveCount_of_inService {k : MasterKey} (h : k.status = .active ∨ k.status = .expiring) :
    liveCount k = k.wrapsDekCount := if_pos h

theorem liveCount_of_wrapsNone {k : MasterKey} (h : k.wrapsDekCount = 0) : liveCount k = 0 := by
  unfold liveCount
  split
  · exact h
  · rfl

theorem liveCount_of_retired {k : MasterKey} (h : k.status = .retired) : liveCount k = 0 := by
  refine if_neg ?_
  rw [h]
  exact fun hstatus => hstatus.elim (fun h => nomatch h) fun h => nomatch h

/-- Replacing one key trades its count. -/
theorem sum_replaceKeys_singleton {rows : List MasterKey} (hnodup : (rows.map MasterKey.id).Nodup)
    {old : MasterKey} (hold : old ∈ rows) (new : MasterKey) :
    ((rows.map (replaceKeys [(old, new)])).map liveCount).sum + liveCount old =
      (rows.map liveCount).sum + liveCount new := by
  have hreplace : replaceKeys [(old, new)] = fun k => if k.id = old.id then new else k :=
    funext (replaceKeys_singleton old new)
  rw [hreplace]
  exact Table.sum_map_replace hnodup hold new liveCount

/-- A rotated key passes its count on. -/
theorem rotation_sum {env : HsmEnv} {t t' : HsmStore} {key successor stored : MasterKey}
    (isKey : key ∈ t.keys.rows) (inService : key.status = .active ∨ key.status = .expiring)
    (status : stored.status = .active) (wraps : stored.wrapsDekCount = key.wrapsDekCount)
    (rows : t'.keys.rows = t.keys.rows.map (replaceKeys [(key, rotatedKey env key successor)]) ++
      [stored]) : liveDekCount t' = liveDekCount t := by
  have hsum := sum_replaceKeys_singleton t.keys.nodup isKey (rotatedKey env key successor)
  have hretired : liveCount (rotatedKey env key successor) = 0 := liveCount_of_retired rfl
  have hstored : liveCount stored = key.wrapsDekCount :=
    (liveCount_of_inService (.inl status)).trans wraps
  rw [liveCount_of_inService inService] at hsum
  rw [liveDekCount, liveDekCount, rows, List.map_append, List.sum_append, List.map_singleton,
    List.sum_singleton, hstored]
  omega

/-- A completion loses the count of the predecessor. -/
theorem completion_sum {now expiresAt : Instant} {t t' : HsmStore} {key predecessor : MasterKey}
    (isKey : key ∈ t.keys.rows) (isPredecessor : predecessor ∈ t.keys.rows)
    (wrapsNone : key.wrapsDekCount = 0)
    (inService : predecessor.status = .active ∨ predecessor.status = .expiring)
    (rows : t'.keys.rows = t.keys.rows.map
      (replaceKeys (rotatedKeys now expiresAt key (some predecessor)))) :
    liveDekCount t' + predecessor.wrapsDekCount = liveDekCount t := by
  rw [liveDekCount, liveDekCount, rows]
  by_cases hid : predecessor.id = key.id
  · -- the new key is its own predecessor, and wraps nothing
    obtain rfl := t.keys.eq_of_key_eq isPredecessor isKey hid
    have hsum := sum_replaceKeys_singleton t.keys.nodup isKey { predecessor with
      status := .retired
      activatedAt := some now
      expiresAt := some expiresAt
      retiredAt := some now
      supersededById := some predecessor.id }
    rw [liveCount_of_wrapsNone wrapsNone, liveCount_of_retired rfl] at hsum
    rw [rotatedKeys_self rfl]
    omega
  · have hsame := activatedKey_sameRecord now expiresAt key
    have hdistinct : ∀ q ∈ [(predecessor, retiredKey now key predecessor)], key.id ≠ q.1.id := by
      intro q hq
      rw [List.mem_singleton.mp hq]
      exact Ne.symm hid
    have hcompose : replaceKeys (rotatedKeys now expiresAt key (some predecessor)) =
        replaceKeys [(predecessor, retiredKey now key predecessor)] ∘
          replaceKeys [(key, activatedKey now expiresAt key)] := by
      rw [rotatedKeys_some hid]
      exact funext (replaceKeys_cons hsame hdistinct)
    have hids : (t.keys.rows.map (replaceKeys [(key, activatedKey now expiresAt key)])).map
        MasterKey.id = t.keys.rows.map MasterKey.id := by
      rw [List.map_map]
      refine List.map_congr_left fun k _ => replaceKeys_id (fun p hp => ?_) k
      rw [List.mem_singleton.mp hp]
      exact hsame
    have hkept : predecessor ∈
        t.keys.rows.map (replaceKeys [(key, activatedKey now expiresAt key)]) := by
      refine List.mem_map.mpr ⟨predecessor, isPredecessor, ?_⟩
      rw [replaceKeys_singleton, if_neg hid]
    have hactivated : liveCount (activatedKey now expiresAt key) = 0 :=
      liveCount_of_wrapsNone wrapsNone
    have hretired : liveCount (retiredKey now key predecessor) = 0 := liveCount_of_retired rfl
    have hkeyStep := sum_replaceKeys_singleton t.keys.nodup isKey (activatedKey now expiresAt key)
    have hpredecessorStep := sum_replaceKeys_singleton (hids ▸ t.keys.nodup) hkept
      (retiredKey now key predecessor)
    rw [liveCount_of_wrapsNone wrapsNone, hactivated] at hkeyStep
    rw [liveCount_of_inService inService, hretired] at hpredecessorStep
    rw [hcompose, ← List.map_map]
    omega

/-! ## Requests -/

/-- A rotation that is answered keeps the number of data keys that the keys in service wrap
exactly when the predecessor of a completed ceremony wraps none. -/
theorem deks_kept_iff (crypto : AuditCrypto) {s : Store Db} {r : HsmRequest}
    (rotation : Rotation s.db.hsm r)
    (answered : ((r.request crypto).serial postgres s.db s.db s.sequence).result = .ok ()) :
    liveDekCount (s.exec postgres (r.request crypto)).db.hsm = liveDekCount s.db.hsm ↔
      CarriesDeks s.db.hsm r := by
  obtain ⟨ws, as, plan, performed⟩ := performed_of_ok (request_ends r) answered
  obtain ⟨mid, _, hmid, -, hdb⟩ := performed.outcome
  rw [hdb]
  change liveDekCount mid.hsm = _ ↔ _
  cases rotation with
  | rotate env keyId actor payload =>
    cases plan with
    | rotated isKey inService _ _ isSuccessor =>
      obtain ⟨keyLabel, algorithm, rows, -⟩ := rotation_rows isKey hmid
      subst isSuccessor
      refine iff_of_true (rotation_sum isKey inService ?_ ?_ rows) trivial
      · rfl
      · rfl
  | @ceremony env actor c key predecessor isCeremony isKey wrapsNone isPredecessor inService =>
    generalize hid : c.id = ceremonyId at *
    cases plan with
    | @completed _ d key' _ expiresAt _ isCeremony' pending quorum isKey' masterKeyId =>
      obtain rfl := s.db.hsm.ceremonies.eq_of_key_eq isCeremony isCeremony' hid
      obtain ⟨hkey, hkeyId⟩ := Table.find?_eq_some.mp isKey
      obtain rfl := s.db.hsm.keys.eq_of_key_eq hkey isKey' (hkeyId.trans masterKeyId)
      obtain ⟨rows, -⟩ := completion_rows isCeremony isKey' hmid
      rw [isPredecessor] at rows
      have hsum := completion_sum hkey (predecessorByLabel_mem isPredecessor) wrapsNone inService
        rows
      constructor
      · intro heq d hd hdid p hp
        obtain rfl := s.db.hsm.ceremonies.eq_of_key_eq hd isCeremony hdid
        obtain rfl := Option.some.inj (isPredecessor.symm.trans hp)
        omega
      · intro hcarries
        have hnone := hcarries c isCeremony rfl predecessor isPredecessor
        omega

/-! ## Sample rotations -/

/-- A key in service that wraps data keys, and the approved ceremony of its successor. -/
def sampleRotation (wraps : ℕ) : HsmStore where
  slots := .empty
  keys := ⟨[⟨1, "nexus-master-v1", none, "AES-256", .active, 180, some 63839664000000000,
      some 63855216000000000, none, none, wraps, 0⟩,
    ⟨2, "nexus-master-v2", none, "AES-256", .pending, 180, none, none, none, none, 0, 0⟩],
    by simp⟩
  ceremonies :=
    .singleton ⟨3, "CER-20240101-00000003", 2, some "nexus-master-v1", 1, .pending, none, none⟩
  approvals := .singleton ⟨4, 3, "custodian@example.com", some 63839664000000042⟩
  operations := .empty
  attestationRuns := .empty

def sampleRotationStore (wraps : ℕ) : Store Db := ⟨{ emptyDb with hsm := sampleRotation wraps }, 1⟩

def completion : HsmRequest := .completeCeremony (sampleHsmEnv 0) 3 "admin@example.com"

theorem rotation_sample (wraps : ℕ) : Rotation (sampleRotationStore wraps).db.hsm completion :=
  .ceremony (c := ⟨3, "CER-20240101-00000003", 2, some "nexus-master-v1", 1, .pending, none, none⟩)
    _ _ List.mem_cons_self rfl rfl rfl (.inl rfl)

theorem deks_kept_iff_sample :
    liveDekCount ((sampleRotationStore 0).exec postgres
        (completion.request sha256Crypto)).db.hsm = 0 := by
  have hanswered : ((completion.request sha256Crypto).serial postgres (sampleRotationStore 0).db
      (sampleRotationStore 0).db (sampleRotationStore 0).sequence).result = .ok () := by
    decide +kernel
  refine (deks_kept_iff sha256Crypto (rotation_sample 0) hanswered).mpr ?_
  intro c hc _ p hp
  obtain rfl := List.mem_singleton.mp hc
  obtain rfl := Option.some.inj hp
  rfl

/-- The completion of a ceremony loses the twelve data keys of the predecessor. -/
theorem completion_loses_deks :
    Rotation (sampleRotationStore 12).db.hsm completion ∧
      ((completion.request sha256Crypto).serial postgres (sampleRotationStore 12).db
        (sampleRotationStore 12).db (sampleRotationStore 12).sequence).result = .ok () ∧
      liveDekCount (sampleRotationStore 12).db.hsm = 12 ∧
      liveDekCount ((sampleRotationStore 12).exec postgres
        (completion.request sha256Crypto)).db.hsm = 0 := by
  refine ⟨rotation_sample 12, ?_⟩
  decide +kernel

end NexusEngine.DekRotation
