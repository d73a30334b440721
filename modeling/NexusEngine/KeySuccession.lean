import NexusEngine.KeyLineage

/-!
# Successors that are named once

A rotation names the successor of a key in service and takes the key out of service. A completion
names the key of its ceremony as the successor of the key whose label the ceremony remembers, and
does not look whether that key was rotated since the ceremony was opened. Such a key gets a second
successor, and the first is forgotten.
-/

namespace NexusEngine.KeySuccession

open TransactionalRequests StoredColumns KeyedTables CalendarTime HsmTables Database AuditService
  HsmService HsmLifecycle HsmKeyStatus HsmActivation KeyLineage
open AuditVerification (sha256Crypto)

/-- A completion that is about to succeed finds a predecessor without another successor, and a new
key without one. A rotation finds its key without one. -/
def SuccessorFree (t : HsmStore) : HsmRequest → Prop
  | .completeCeremony _ ceremonyId _ => ∀ c ∈ t.ceremonies.rows, c.id = ceremonyId →
      c.status = .pending → c.requiredApprovals ≤ approvalCount (approvalsOf t c.id) →
      ∀ key ∈ t.keys.rows, key.id = c.masterKeyId →
        ∀ p, predecessorByLabel t c.predecessorLabel = some p →
          (p.supersededById = none ∨ p.supersededById = some key.id) ∧
            (p.id ≠ key.id → key.supersededById = none)
  | .rotateKey _ keyId _ _ => ∀ key ∈ t.keys.rows, key.id = keyId →
      key.status = .active ∨ key.status = .expiring → key.supersededById = none
  | _ => True

/-- Successors that are named stay named. -/
def KeepsSuccessors (t t' : HsmStore) : Prop :=
  ∀ a b, successor t a = some b → successor t' a = some b

theorem keepsSuccessors_of_eq {t t' : HsmStore} (h : t'.keys = t.keys) : KeepsSuccessors t t' := by
  intro a b hab
  rwa [successor, h]

theorem keepsSuccessors_of_map {t t' : HsmStore} {f : MasterKey → MasterKey} {new : List MasterKey}
    (hrows : t'.keys.rows = t.keys.rows.map f ++ new) (hid : ∀ k ∈ t.keys.rows, (f k).id = k.id) :
    KeepsSuccessors t t' ↔
      ∀ k ∈ t.keys.rows, ∀ b, k.supersededById = some b → (f k).supersededById = some b := by
  have hmem : ∀ k ∈ t.keys.rows, f k ∈ t'.keys.rows := by
    intro k hk
    rw [hrows]
    exact List.mem_append_left _ (List.mem_map_of_mem hk)
  constructor
  · intro hkeeps k hk b hb
    have hkept := hkeeps k.id b ((successor_of_mem hk).trans hb)
    rwa [← hid k hk, successor_of_mem (hmem k hk)] at hkept
  · intro hrow a b hab
    obtain ⟨k, hk, rfl, hb⟩ := successor_eq_some.mp hab
    rw [← hid k hk, successor_of_mem (hmem k hk)]
    exact hrow k hk b hb

/-! ## Completions -/

theorem completion_successor {t : HsmStore} (now expiresAt : Instant) {key k : MasterKey}
    {predecessor : Option MasterKey} (hkey : key ∈ t.keys.rows)
    (hpredecessor : ∀ p, predecessor = some p → p ∈ t.keys.rows) (hk : k ∈ t.keys.rows) :
    (replaceKeys (rotatedKeys now expiresAt key predecessor) k).supersededById =
      predecessor.elim k.supersededById fun p =>
        if k.id = p.id then some key.id else if k.id = key.id then none else k.supersededById := by
  cases predecessor with
  | none =>
    rw [rotatedKeys, replaceKeys_singleton]
    split
    · next hid =>
      rw [t.keys.eq_of_key_eq hk hkey hid]
      rfl
    · rfl
  | some p =>
    by_cases hself : p.id = key.id
    · rw [rotatedKeys_self hself, replaceKeys_singleton, Option.elim_some, hself]
      split <;> rfl
    · rcases completion_cases now expiresAt hkey hpredecessor
        (fun q hq => Option.some.inj hq ▸ hself) hk with
        ⟨-, hnone, -⟩ | ⟨rfl, -, heq⟩ | ⟨-, hp, heq⟩ | ⟨hne, hp, heq⟩
      · cases hnone
      · rw [heq]
        simp [activatedKey, Ne.symm hself]
      · obtain rfl := Option.some.inj hp
        rw [heq]
        simp [retiredKey]
      · rw [heq, Option.elim_some, if_neg, if_neg]
        · exact fun hid => hne (t.keys.eq_of_key_eq hk hkey hid)
        · exact fun hid => hp (congrArg some
            (t.keys.eq_of_key_eq hk (hpredecessor p rfl) hid).symm)

/-- A completion keeps the successors exactly where its predecessor has no other one and its new
key has none. -/
theorem completion_keeps_iff {t t' : HsmStore} {now expiresAt : Instant} {key : MasterKey}
    {predecessor : Option MasterKey} (hkey : key ∈ t.keys.rows)
    (hpredecessor : ∀ p, predecessor = some p → p ∈ t.keys.rows)
    (hrows : t'.keys.rows = t.keys.rows.map
      (replaceKeys (rotatedKeys now expiresAt key predecessor))) :
    KeepsSuccessors t t' ↔ ∀ p, predecessor = some p →
      (p.supersededById = none ∨ p.supersededById = some key.id) ∧
        (p.id ≠ key.id → key.supersededById = none) := by
  obtain ⟨-, hsame, -⟩ := rotatedKeys_saves now expiresAt hkey hpredecessor
  rw [keepsSuccessors_of_map (hrows.trans (List.append_nil _).symm)
    fun k _ => replaceKeys_id hsame k]
  have hsuccessor := fun k (hk : k ∈ t.keys.rows) =>
    completion_successor now expiresAt hkey hpredecessor hk
  constructor
  · rintro hkeeps p rfl
    have hp := hpredecessor p rfl
    constructor
    · cases hb : p.supersededById with
      | none => exact .inl rfl
      | some b =>
        have hkept := hkeeps p hp b hb
        rw [hsuccessor p hp, Option.elim_some, if_pos rfl] at hkept
        exact .inr hkept.symm
    · intro hne
      cases hb : key.supersededById with
      | none => rfl
      | some b =>
        have hkept := hkeeps key hkey b hb
        rw [hsuccessor key hkey, Option.elim_some, if_neg (Ne.symm hne), if_pos rfl] at hkept
        cases hkept
  · intro hfree k hk b hb
    rw [hsuccessor k hk]
    cases predecessor with
    | none => exact hb
    | some p =>
      obtain ⟨hp, hnew⟩ := hfree p rfl
      rw [Option.elim_some]
      split
      · next hid =>
        obtain rfl := t.keys.eq_of_key_eq hk (hpredecessor p rfl) hid
        rcases hp with hnone | hsome
        · rw [hnone] at hb
          cases hb
        · exact hsome.symm.trans hb
      · next hid =>
        split
        · next hkid =>
          obtain rfl := t.keys.eq_of_key_eq hk hkey hkid
          rw [hnew (Ne.symm hid)] at hb
          cases hb
        · exact hb

/-! ## Steps -/

theorem saved_keeps {t t' : HsmStore} {key key' : MasterKey} {new : List MasterKey}
    (hkey : key ∈ t.keys.rows) (hsame : key.SameRecord key')
    (hrows : t'.keys.rows = t.keys.rows.map (replaceKeys [(key, key')]) ++ new)
    (h : ∀ b, key.supersededById = some b → key'.supersededById = some b) :
    KeepsSuccessors t t' := by
  refine (keepsSuccessors_of_map hrows fun k _ => replaceKeys_id ?_ k).mpr fun k hk b hb => ?_
  · intro p hp
    rw [List.mem_singleton.mp hp]
    exact hsame
  · rw [replaceKeys_singleton]
    split
    · next hid =>
      obtain rfl := t.keys.eq_of_key_eq hk hkey hid
      exact h b hb
    · exact hb

/-- The step lemma. -/
theorem keeps_step {t t' : HsmStore} {r : HsmRequest} (effect : HsmEffect t r t')
    (hfree : SuccessorFree t r) : KeepsSuccessors t t' := by
  cases effect with
  | unchanged => exact fun _ _ => id
  | @keyCreated _ _ _ k _ _ _ _ _ keys _ _ _ _ _ _ =>
    have hrows : t'.keys.rows = t.keys.rows.map id ++ [k] := by rw [List.map_id, keys]
    exact (keepsSuccessors_of_map hrows fun _ _ => rfl).mpr fun _ _ _ => id
  | ceremonyCreated _ _ _ _ _ _ _ _ keys _ _ => exact keepsSuccessors_of_eq keys
  | approvalInserted _ _ _ _ _ _ _ keys _ => exact keepsSuccessors_of_eq keys
  | approvalUpdated _ _ _ _ _ keys _ => exact keepsSuccessors_of_eq keys
  | completed isCeremony pending quorum isKey masterKeyId keys _ _ =>
    exact (completion_keeps_iff isKey (fun _ => predecessorByLabel_mem) keys).mpr
      (hfree _ isCeremony rfl pending quorum _ isKey masterKeyId.symm)
  | @rotated env _ _ key successor _ isKey inService _ _ keys _ _ _ _ _ _ _ =>
    refine saved_keeps isKey (rotatedKey_sameRecord env key successor) keys fun b hb => ?_
    rw [hfree key isKey rfl inService] at hb
    cases hb
  | @disabled env _ key _ isKey _ keys _ _ =>
    exact saved_keeps isKey (disabledKey_sameRecord env key)
      (keys.trans (List.append_nil _).symm) fun _ => id

/-! ## Runs -/

/-- In every run a successor stays once it is named, and no key ever has two. -/
def SupersededOnce (crypto : AuditCrypto) (s : Store Db) (rs : List HsmRequest) : Prop :=
  (∀ rs₁ rs₂, rs₁ ++ rs₂ <+: rs →
    KeepsSuccessors (execAll crypto s rs₁).db.hsm (execAll crypto s (rs₁ ++ rs₂)).db.hsm) ∧
  ∀ rs₁ rs₂, rs₁ <+: rs → rs₂ <+: rs → ∀ a b c,
    successor (execAll crypto s rs₁).db.hsm a = some b →
      successor (execAll crypto s rs₂).db.hsm a = some c → b = c

/-- Every step of a run meets the condition. -/
def FreeRun (crypto : AuditCrypto) (s : Store Db) (rs : List HsmRequest) : Prop :=
  ∀ rs₁ r rs₂, rs = rs₁ ++ r :: rs₂ → SuccessorFree (execAll crypto s rs₁).db.hsm r

section

variable {crypto : AuditCrypto} {s : Store Db}

/-- The run lemma. -/
theorem keeps_run {rs₁ rs₂ rs : List HsmRequest} (hpre : rs₁ ++ rs₂ <+: rs)
    (hfree : FreeRun crypto s rs) :
    KeepsSuccessors (execAll crypto s rs₁).db.hsm (execAll crypto s (rs₁ ++ rs₂)).db.hsm := by
  induction rs₂ using List.reverseRecOn with
  | nil =>
    rw [List.append_nil]
    exact fun _ _ => id
  | append_singleton rs₂ r ih =>
    rw [← List.append_assoc] at hpre ⊢
    obtain ⟨rest, hrest⟩ := hpre
    have hbefore := ih ⟨r :: rest, by rw [← hrest]; simp⟩
    have hstep := keeps_step (effect_concat crypto s (rs₁ ++ rs₂) r)
      (hfree (rs₁ ++ rs₂) r rest (by rw [← hrest]; simp))
    exact fun a b hab => hstep a b (hbefore a b hab)

/-- In every run whose completions and rotations find their keys without another successor, a
successor is named once. -/
theorem superseded_once {rs : List HsmRequest} (hfree : FreeRun crypto s rs) :
    SupersededOnce crypto s rs := by
  refine ⟨fun rs₁ rs₂ hpre => keeps_run hpre hfree, fun rs₁ rs₂ h₁ h₂ a b c hb hc => ?_⟩
  obtain ⟨rest₁, hrest₁⟩ := h₁
  obtain ⟨rest₂, hrest₂⟩ := h₂
  -- both hold at the end of the run
  have hb' : successor (execAll crypto s (rs₁ ++ rest₁)).db.hsm a = some b :=
    keeps_run ⟨[], by rw [hrest₁, List.append_nil]⟩ hfree a b hb
  have hc' : successor (execAll crypto s (rs₂ ++ rest₂)).db.hsm a = some c :=
    keeps_run ⟨[], by rw [hrest₂, List.append_nil]⟩ hfree a c hc
  rw [hrest₁] at hb'
  rw [hrest₂] at hc'
  exact Option.some.inj (hb'.symm.trans hc')

/-- In a store that a run from an empty one reaches, it is the predecessor of a completion alone
that may have a successor already. -/
theorem successorFree_of_lineage {t : HsmStore} (h : LineageInv t) {r : HsmRequest}
    (hpredecessor : ∀ env id actor, r = .completeCeremony env id actor → ∀ c ∈ t.ceremonies.rows,
      c.id = id → c.status = .pending → c.requiredApprovals ≤ approvalCount (approvalsOf t c.id) →
        ∀ p, predecessorByLabel t c.predecessorLabel = some p → p.supersededById = none) :
    SuccessorFree t r := by
  cases r with
  | completeCeremony env id actor =>
    intro c hc hid hpending hquorum key hkey hkid p hp
    exact ⟨.inl (hpredecessor env id actor rfl c hc hid hpending hquorum p hp),
      fun _ => h.open_notSuperseded hc hpending hkey hkid⟩
  | rotateKey env id actor payload => exact fun key hkey _ => (h.key key hkey).current
  | createKey => trivial
  | createCeremony => trivial
  | approveCeremony => trivial
  | disableKey => trivial

end

/-! ## Sample runs -/

/-- An active key, and a pending one whose approved ceremony remembers it. -/
def sampleSuccession : HsmStore where
  slots := .empty
  keys := ⟨[sampleKey 1 "nexus-master-v1" .active, sampleKey 2 "nexus-master-v2" .pending],
    by decide⟩
  ceremonies :=
    .singleton ⟨3, "CER-20240101-00000003", 2, some "nexus-master-v1", 1, .pending, none, none⟩
  approvals := .singleton ⟨4, 3, "custodian@example.com", some 63839664000000042⟩
  operations := .empty
  attestationRuns := .empty

theorem superseded_once_sample :
    SupersededOnce sha256Crypto ⟨{ emptyDb with hsm := sampleSuccession }, 1⟩
      [.completeCeremony (sampleHsmEnv 0) 3 "admin@example.com"] := by
  refine superseded_once fun rs₁ r rs₂ h => ?_
  obtain ⟨rfl, hr⟩ : rs₁ = [] ∧ r :: rs₂ = [.completeCeremony (sampleHsmEnv 0) 3
      "admin@example.com"] := by
    cases rs₁ with
    | nil => exact ⟨rfl, h.symm⟩
    | cons _ _ => simp at h
  obtain rfl := (List.cons.inj hr).1
  intro c _ _ _ _ key hkey _ p hp
  have hnone : ∀ k ∈ sampleSuccession.keys.rows, k.supersededById = none := by
    simp [sampleSuccession, sampleKey]
  exact ⟨.inl (hnone p (predecessorByLabel_mem hp)), fun _ => hnone key hkey⟩

def ceremonyKey : MasterKeyCreate where
  keyLabel := "nexus-ceremony-v1"
  keyLabel_min := by decide
  keyLabel_max := by decide
  algorithm := "AES-256"
  algorithm_min := sampleMasterKey.algorithm_min
  algorithm_max := sampleMasterKey.algorithm_max
  slotId := none
  ge_one := sampleMasterKey.ge_one
  le_max := sampleMasterKey.le_max

def ceremonyFor (masterKeyId : Uuid) (predecessorKeyId : Option Uuid) : KeyCeremonyCreate where
  masterKeyId := masterKeyId
  predecessorKeyId := predecessorKeyId
  requiredApprovals := 1
  ge_one := by decide
  le_ten := by decide
  scheduledAt := none

/-- A key is activated, and while the ceremony of the key that is to follow it is open, it is
rotated. -/
def rotatedMeanwhile : List HsmRequest :=
  [.createKey (sampleHsmEnv 0) sampleMasterKey "admin@example.com",
    .createCeremony (sampleHsmEnv 1) (ceremonyFor 100 none) "admin@example.com",
    .approveCeremony (sampleHsmEnv 2) 101 "alice@example.com",
    .completeCeremony (sampleHsmEnv 3) 101 "admin@example.com",
    .createKey (sampleHsmEnv 4) ceremonyKey "admin@example.com",
    .createCeremony { sampleHsmEnv 5 with refUuid4 := 396140812571321687967719751680 }
      (ceremonyFor 104 (some 100))
      "admin@example.com",
    .approveCeremony (sampleHsmEnv 6) 105 "alice@example.com",
    .rotateKey (sampleHsmEnv 7) 100 "admin@example.com" sampleRotation]

def lateCompletion : HsmRequest := .completeCeremony (sampleHsmEnv 8) 105 "admin@example.com"

/-- The rotated key gets a second successor. -/
theorem second_successor : ¬ SupersededOnce sha256Crypto ⟨emptyDb, 1⟩
    (rotatedMeanwhile ++ [lateCompletion]) := by
  rintro ⟨hkeeps, -⟩
  have hsuccessors : let before := execAll sha256Crypto ⟨emptyDb, 1⟩ rotatedMeanwhile
      successor before.db.hsm 100 = some 107 ∧
        successor (before.exec postgres (lateCompletion.request sha256Crypto)).db.hsm 100 =
          some 104 := by
    decide +kernel
  obtain ⟨hfirst, hsecond⟩ := hsuccessors
  have hkept := hkeeps rotatedMeanwhile [lateCompletion] List.prefix_rfl 100 107 hfirst
  rw [execAll_concat, hsecond] at hkept
  cases hkept

end NexusEngine.KeySuccession
