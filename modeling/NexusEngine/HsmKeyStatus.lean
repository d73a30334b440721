import NexusEngine.HsmLifecycle

/-!
# Keys out of service

A disabled or retired key has to stay what it is. The guards of most operations see to that.
Completing a ceremony checks the ceremony and not the keys, so that a key that was disabled
while its ceremony was open comes back.
-/

namespace NexusEngine.HsmKeyStatus

open TransactionalRequests StoredColumns KeyedTables HsmTables Database AuditService HsmService
  HsmLifecycle
open AuditVerification (sha256Crypto)

def OutOfService (k : MasterKey) : Prop := k.status = .disabled ∨ k.status = .retired

/-- A completion that is about to succeed finds the key of its ceremony in service, and a
predecessor that is not disabled. -/
def CompletesInService (t : HsmStore) : HsmRequest → Prop
  | .completeCeremony _ ceremonyId _ => ∀ c ∈ t.ceremonies.rows, c.id = ceremonyId →
      c.status = .pending → c.requiredApprovals ≤ approvalCount (approvalsOf t c.id) →
      (∀ key ∈ t.keys.rows, key.id = c.masterKeyId → ¬ OutOfService key) ∧
        ∀ p, predecessorByLabel t c.predecessorLabel = some p → p.status ≠ .disabled
  | _ => True

/-- A key that is not among the loaded ones stays as it is. -/
theorem replaceKeys_of_ne {ks : List (MasterKey × MasterKey)} {k : MasterKey}
    (h : ∀ p ∈ ks, p.1.id ≠ k.id) : replaceKeys ks k = k := by
  have hnone : ks.find? (fun p => p.1.id = k.id) = none := by
    rw [List.find?_eq_none]
    intro p hp
    simpa using h p hp
  simp only [replaceKeys, hnone]

/-- A completion in service leaves keys out of service as they are, or retired. -/
theorem completion_status {t : HsmStore} {now expiresAt : ℕ} {key k : MasterKey}
    {predecessor : Option MasterKey} (hkey : key ∈ t.keys.rows)
    (hpredecessor : ∀ p, predecessor = some p → p ∈ t.keys.rows) (hk : k ∈ t.keys.rows)
    (hout : OutOfService k) (hinService : ¬ OutOfService key)
    (hnotDisabled : ∀ p, predecessor = some p → p.status ≠ .disabled) :
    (replaceKeys (rotatedKeys now expiresAt key predecessor) k).status = k.status := by
  have hne : key.id ≠ k.id := fun hid =>
    hinService (t.keys.eq_of_key_eq hkey hk hid ▸ hout)
  cases predecessor with
  | none =>
    rw [replaceKeys_of_ne]
    simpa [rotatedKeys] using hne
  | some p =>
    by_cases hself : p.id = key.id
    · rw [replaceKeys_of_ne]
      simpa [rotatedKeys, hself] using hne
    · by_cases hid : p.id = k.id
      · obtain rfl : p = k := t.keys.eq_of_key_eq (hpredecessor p rfl) hk hid
        have hretired : p.status = .retired := hout.resolve_left (hnotDisabled p rfl)
        simp [replaceKeys, rotatedKeys, hself, hne, hretired]
      · rw [replaceKeys_of_ne]
        simp [rotatedKeys, hself, hne, hid]

/-- The step lemma: a key out of service keeps its status. -/
theorem status_step {t t' : HsmStore} {r : HsmRequest} (effect : HsmEffect t r t')
    (hcond : CompletesInService t r) {k : MasterKey} (hk : k ∈ t.keys.rows)
    (hout : OutOfService k) : ∃ k' ∈ t'.keys.rows, k'.id = k.id ∧ k'.status = k.status := by
  cases effect with
  | unchanged => exact ⟨k, hk, rfl, rfl⟩
  | keyCreated _ _ _ _ keys _ _ => exact ⟨k, keys ▸ List.mem_append_left _ hk, rfl, rfl⟩
  | ceremonyCreated _ _ _ _ _ _ _ _ keys _ => exact ⟨k, keys ▸ hk, rfl, rfl⟩
  | approvalInserted _ _ _ _ _ _ _ keys _ => exact ⟨k, keys ▸ hk, rfl, rfl⟩
  | approvalUpdated _ _ _ _ _ keys _ => exact ⟨k, keys ▸ hk, rfl, rfl⟩
  | completed isCeremony pending quorum isKey masterKeyId keys _ _ =>
    obtain ⟨hinService, hnotDisabled⟩ := hcond _ isCeremony rfl pending quorum
    obtain ⟨-, hsame, -⟩ := rotatedKeys_saves _ _ isKey fun _ => predecessorByLabel_mem
    exact ⟨_, keys ▸ List.mem_map_of_mem hk, replaceKeys_id hsame k,
      completion_status isKey (fun _ => predecessorByLabel_mem) hk hout
        (hinService _ isKey masterKeyId.symm) hnotDisabled⟩
  | rotated isKey inService _ _ keys _ _ =>
    refine ⟨k, keys ▸ List.mem_append_left _ (List.mem_map.mpr ⟨k, hk, ?_⟩), rfl, rfl⟩
    refine replaceKeys_of_ne fun p hp hid => ?_
    rw [List.mem_singleton.mp hp] at hid
    obtain rfl := t.keys.eq_of_key_eq isKey hk hid
    rcases hout with hout | hout <;> simp [hout] at inService
  | disabled isKey inService keys _ _ =>
    refine ⟨k, keys ▸ List.mem_map.mpr ⟨k, hk, ?_⟩, rfl, rfl⟩
    refine replaceKeys_of_ne fun p hp hid => ?_
    rw [List.mem_singleton.mp hp] at hid
    obtain rfl := t.keys.eq_of_key_eq isKey hk hid
    exact inService hout.symm

def execAll (crypto : AuditCrypto) (s : Store Db) (rs : List HsmRequest) : Store Db :=
  s.execAll postgres (rs.map (·.request crypto))

/-- In every run whose completions meet the condition, a key that is disabled or retired
keeps that status to the end. -/
theorem out_of_service_stays {crypto : AuditCrypto} {s : Store Db} {rs : List HsmRequest}
    (hcond : ∀ rs₁ r rs₂, rs = rs₁ ++ r :: rs₂ →
      CompletesInService (execAll crypto s rs₁).db.hsm r)
    {k : MasterKey} (hk : k ∈ s.db.hsm.keys.rows) (hout : OutOfService k) :
    ∃ k' ∈ (execAll crypto s rs).db.hsm.keys.rows, k'.id = k.id ∧ k'.status = k.status := by
  refine Store.execAll_preserves (Q := fun (s : Store Db) r => CompletesInService s.db.hsm r)
    (P := fun s : Store Db => ∃ k' ∈ s.db.hsm.keys.rows, k'.id = k.id ∧ k'.status = k.status)
    ⟨k, hk, rfl, rfl⟩ hcond ?_
  rintro s r hcompletes ⟨k₁, hk₁, hid₁, hstatus₁⟩
  have hout₁ : OutOfService k₁ := by rwa [OutOfService, hstatus₁]
  obtain ⟨k', hk', hid', hstatus'⟩ := status_step (exec_effect s r) hcompletes hk₁ hout₁
  exact ⟨k', hk', hid'.trans hid₁, hstatus'.trans hstatus₁⟩

def sampleKey (id : Uuid) (keyLabel : String) (status : MasterKeyStatus) : MasterKey where
  id := id
  keyLabel := keyLabel
  slotId := none
  algorithm := "AES-256"
  status := status
  rotationPolicyDays := 180
  activatedAt := none
  expiresAt := none
  retiredAt := none
  supersededById := none
  wrapsDekCount := 0
  throughputOps := 0

/-- A disabled key, and a pending one with an approved ceremony. -/
def sampleStore : HsmStore where
  slots := .empty
  keys := ⟨[sampleKey 1 "nexus-master-v1" .disabled, sampleKey 2 "nexus-master-v2" .pending],
    by decide⟩
  ceremonies := ⟨[⟨3, "CER-20240101-00000003", 2, none, 1, .pending, none, none⟩], by decide⟩
  approvals := ⟨[⟨4, 3, "custodian@example.com", some 63839664000000042⟩], by decide⟩
  operations := .empty
  attestationRuns := .empty

theorem out_of_service_stays_sample :
    ∃ k' ∈ (execAll sha256Crypto ⟨{ emptyDb with hsm := sampleStore }, 1⟩
        [.completeCeremony (sampleHsmEnv 0) 3 "admin@example.com"]).db.hsm.keys.rows,
      k'.id = 1 ∧ k'.status = .disabled := by
  refine out_of_service_stays (k := sampleKey 1 "nexus-master-v1" .disabled)
    (fun rs₁ r rs₂ h => ?_) List.mem_cons_self (.inl rfl)
  obtain ⟨rfl, hr⟩ : rs₁ = [] ∧ r :: rs₂ = [.completeCeremony (sampleHsmEnv 0) 3
      "admin@example.com"] := by
    cases rs₁ with
    | nil => exact ⟨rfl, h.symm⟩
    | cons _ _ => simp at h
  obtain rfl := (List.cons.inj hr).1
  intro c hc _ _ _
  obtain rfl := List.mem_singleton.mp hc
  refine ⟨fun key hkey hid => ?_, fun p hp => nomatch hp⟩
  rcases List.mem_pair.mp hkey with rfl | rfl
  · simp [sampleKey] at hid
  · simp [OutOfService, sampleKey]

/-- A ceremony is opened and approved for a key, and the key is disabled. -/
def disabledMeanwhile : List HsmRequest :=
  [.createKey (sampleHsmEnv 0) sampleMasterKey "admin@example.com",
    .createCeremony (sampleHsmEnv 1) (sampleCeremony ⟨0, by decide⟩) "admin@example.com",
    .approveCeremony (sampleHsmEnv 2) 101 "custodian@example.com",
    .disableKey (sampleHsmEnv 3) 100 "admin@example.com"]

/-- The ceremony is completed, and the key is active. -/
theorem disabled_key_reactivated :
    let before := execAll sha256Crypto ⟨emptyDb, 1⟩ disabledMeanwhile
    let after := execAll sha256Crypto before
      [.completeCeremony (sampleHsmEnv 4) 101 "admin@example.com"]
    (before.db.hsm.keys.find? 100).map MasterKey.status = some .disabled ∧
      (after.db.hsm.keys.find? 100).map MasterKey.status = some .active := by
  decide +kernel

end NexusEngine.HsmKeyStatus
