import NexusEngine.HsmKeyStatus

/-!
# How a key comes to be active

In a serial run from an empty store a key that was registered is activated by its one
ceremony only, and the ceremony has the approvals of as many custodians as it requires. This
needs every custodian's e-mail address to be stored as it is: an address that the column cuts
is not found again, and its custodian can approve twice.
-/

namespace NexusEngine.HsmActivation

open TransactionalRequests StoredColumns KeyedTables CalendarTime HsmTables Database AuditService
  HsmService HsmLifecycle HsmKeyStatus
open AuditVerification (sha256Crypto)

/-! ## Keys and ceremonies -/

/-- Each key has one ceremony at most, and a completed one has activated its key. -/
structure CeremonyInv (t : HsmStore) : Prop where
  keyOf : ∀ c ∈ t.ceremonies.rows, ∃ k ∈ t.keys.rows, k.id = c.masterKeyId
  single : ∀ c ∈ t.ceremonies.rows, ∀ d ∈ t.ceremonies.rows, c.masterKeyId = d.masterKeyId → c = d
  notAborted : ∀ c ∈ t.ceremonies.rows, c.status = .pending ∨ c.status = .complete
  required : ∀ c ∈ t.ceremonies.rows, 1 ≤ c.requiredApprovals
  activated : ∀ c ∈ t.ceremonies.rows, c.status = .complete → ∀ k ∈ t.keys.rows,
    k.id = c.masterKeyId → k.status ≠ .pending ∧ k.activatedAt = c.completedAt

/-- Keys that no completion has touched: new ones have new identifiers, and old ones keep
their activation and do not become pending. -/
structure KeysEvolve (t t' : HsmStore) : Prop where
  kept : ∀ k ∈ t.keys.rows, ∃ k' ∈ t'.keys.rows, k'.id = k.id
  origin : ∀ k' ∈ t'.keys.rows, t.keys.find? k'.id = none ∨ ∃ k ∈ t.keys.rows, k.id = k'.id ∧
    k'.activatedAt = k.activatedAt ∧ (k'.status = .pending → k.status = .pending)

theorem keysEvolve_of_eq {t t' : HsmStore} (h : t'.keys = t.keys) : KeysEvolve t t' where
  kept k hk := ⟨k, h ▸ hk, rfl⟩
  origin k hk := .inr ⟨k, h ▸ hk, rfl, rfl, id⟩

/-- Saving objects that keep their activation and are not pending, after inserting keys with
new identifiers. -/
theorem keysEvolve_of_saved {t t' : HsmStore} (ks : List (MasterKey × MasterKey))
    (new : List MasterKey) (hkeys : t'.keys.rows = t.keys.rows.map (replaceKeys ks) ++ new)
    (hsaved : ∀ p ∈ ks, p.1.SameRecord p.2 ∧ p.1 ∈ t.keys.rows ∧
      p.2.activatedAt = p.1.activatedAt ∧ p.2.status ≠ .pending)
    (hnew : ∀ k ∈ new, t.keys.find? k.id = none) : KeysEvolve t t' := by
  have hid := replaceKeys_id fun p hp => (hsaved p hp).1
  constructor
  · intro k hk
    exact ⟨_, hkeys ▸ List.mem_append_left _ (List.mem_map_of_mem hk), hid k⟩
  · intro k' hk'
    rw [hkeys] at hk'
    rcases List.mem_append.mp hk' with hk' | hk'
    · obtain ⟨k, hk, rfl⟩ := List.mem_map.mp hk'
      refine .inr ⟨k, hk, (hid k).symm, ?_⟩
      unfold replaceKeys
      cases hfind : ks.find? fun p => p.1.id = k.id with
      | none => exact ⟨rfl, fun h => h⟩
      | some p =>
        obtain ⟨-, hmem, hactivated, hstatus⟩ := hsaved p (List.mem_of_find?_eq_some hfind)
        have hkey : p.1.id = k.id := by simpa using List.find?_some hfind
        rw [t.keys.eq_of_key_eq hmem hk hkey] at hactivated
        exact ⟨hactivated, fun h => absurd h hstatus⟩
    · exact .inl (hnew k' hk')

/-- Where the ceremonies stay, the invariant follows the keys. -/
theorem CeremonyInv.of_keysEvolve {t t' : HsmStore} (h : CeremonyInv t) (hkeys : KeysEvolve t t')
    (hceremonies : t'.ceremonies = t.ceremonies) : CeremonyInv t' where
  keyOf c hc := by
    rw [hceremonies] at hc
    obtain ⟨k, hk, hid⟩ := h.keyOf c hc
    obtain ⟨k', hk', hid'⟩ := hkeys.kept k hk
    exact ⟨k', hk', hid'.trans hid⟩
  single := hceremonies ▸ h.single
  notAborted := hceremonies ▸ h.notAborted
  required := hceremonies ▸ h.required
  activated c hc hcomplete k' hk' hid := by
    rw [hceremonies] at hc
    rcases hkeys.origin k' hk' with hfresh | ⟨k, hk, hkid, hactivated, hpending⟩
    · obtain ⟨k, hk, hkid⟩ := h.keyOf c hc
      exact absurd (hkid.trans hid.symm) (Table.find?_eq_none.mp hfresh k hk)
    · obtain ⟨hstatus, hat⟩ := h.activated c hc hcomplete k hk (hkid.trans hid)
      exact ⟨fun hp => hstatus (hpending hp), hactivated.trans hat⟩

/-- What a completion makes of the keys. -/
theorem completion_key {t : HsmStore} (now expiresAt : Instant) {key k : MasterKey}
    {predecessor : Option MasterKey} (hkey : key ∈ t.keys.rows)
    (hpredecessor : ∀ p, predecessor = some p → p ∈ t.keys.rows) (hk : k ∈ t.keys.rows) :
    let k' := replaceKeys (rotatedKeys now expiresAt key predecessor) k
    (k.id = key.id ∧ k'.activatedAt = some now ∧ k'.status ≠ .pending) ∨
      (k.id ≠ key.id ∧ k'.activatedAt = k.activatedAt ∧
        (k'.status = .pending → k.status = .pending)) := by
  intro k'
  by_cases hid : key.id = k.id
  · refine .inl ⟨hid.symm, ?_⟩
    obtain rfl : key = k := t.keys.eq_of_key_eq hkey hk hid
    cases predecessor with
    | none => simp [k', replaceKeys, rotatedKeys]
    | some p => by_cases hself : p.id = key.id <;> simp [k', replaceKeys, rotatedKeys, hself]
  · refine .inr ⟨Ne.symm hid, ?_⟩
    cases predecessor with
    | none => simp [k', replaceKeys, rotatedKeys, hid]
    | some p =>
      by_cases hself : p.id = key.id
      · simp [k', replaceKeys, rotatedKeys, hid, hself]
      · by_cases hp : p.id = k.id
        · obtain rfl : p = k := t.keys.eq_of_key_eq (hpredecessor p rfl) hk hp
          simp [k', replaceKeys, rotatedKeys, hid, hself]
        · simp [k', replaceKeys, rotatedKeys, hid, hself, hp]

/-- Only a completion activates a key that is there already. -/
theorem keysEvolve_of_effect {t t' : HsmStore} {r : HsmRequest} (effect : HsmEffect t r t')
    (hr : ∀ env id actor, r ≠ .completeCeremony env id actor) : KeysEvolve t t' := by
  cases effect with
  | unchanged => exact keysEvolve_of_eq rfl
  | @keyCreated env payload actor k _ fresh id _ _ keys _ _ =>
    refine keysEvolve_of_saved [] [k] (by simpa using keys) (fun _ hp => nomatch hp) ?_
    intro k' hk'
    rw [List.mem_singleton.mp hk', id]
    exact fresh
  | ceremonyCreated _ _ _ _ _ _ _ _ keys _ => exact keysEvolve_of_eq keys
  | approvalInserted _ _ _ _ _ _ _ keys _ => exact keysEvolve_of_eq keys
  | approvalUpdated _ _ _ _ _ keys _ => exact keysEvolve_of_eq keys
  | completed => exact absurd rfl (hr _ _ _)
  | @rotated env actor payload key successor _ isKey _ fresh _ keys _ _ =>
    refine keysEvolve_of_saved _ _ keys ?_ ?_
    · intro p hp
      rw [List.mem_singleton.mp hp]
      exact ⟨rotatedKey_sameRecord env key successor, isKey, rfl, fun h => nomatch h⟩
    · intro k hk
      rw [List.mem_singleton.mp hk]
      exact fresh
  | @disabled env actor key _ isKey _ keys _ _ =>
    refine keysEvolve_of_saved _ [] (keys.trans (List.append_nil _).symm) ?_ (fun _ hk => nomatch hk)
    intro p hp
    rw [List.mem_singleton.mp hp]
    exact ⟨disabledKey_sameRecord env key, isKey, rfl, fun h => nomatch h⟩

theorem CeremonyInv.of_empty {t : HsmStore} (h : t.ceremonies.rows = []) : CeremonyInv t := by
  constructor <;> simp [h]

/-- A ceremony is opened for a pending key without an open one. -/
theorem CeremonyInv.insert {t t' : HsmStore} {target : MasterKey} {c : KeyCeremony}
    (h : CeremonyInv t) (isTarget : target ∈ t.keys.rows) (pendingKey : target.status = .pending)
    (single : ∀ d ∈ t.ceremonies.rows, d.masterKeyId = target.id → d.status ≠ .pending)
    (masterKeyId : c.masterKeyId = target.id) (status : c.status = .pending)
    (required : 1 ≤ c.requiredApprovals)
    (ceremonies : t'.ceremonies.rows = t.ceremonies.rows ++ [c]) (keys : t'.keys = t.keys) :
    CeremonyInv t' := by
  -- an older ceremony of the key would be open, or would have activated the key
  have hnone : ∀ d ∈ t.ceremonies.rows, d.masterKeyId ≠ target.id := by
    intro d hd hid
    rcases h.notAborted d hd with hpending | hcomplete
    · exact single d hd hid hpending
    · exact (h.activated d hd hcomplete target isTarget hid.symm).1 pendingKey
  have hrows : ∀ d ∈ t'.ceremonies.rows, d ∈ t.ceremonies.rows ∨ d = c := by
    intro d hd
    simpa [ceremonies] using hd
  constructor
  case keyOf =>
    intro d hd
    rw [keys]
    rcases hrows d hd with hd | rfl
    · exact h.keyOf d hd
    · exact ⟨target, isTarget, masterKeyId.symm⟩
  case single =>
    intro d hd d' hd' heq
    rcases hrows d hd with hd | rfl <;> rcases hrows d' hd' with hd' | rfl
    · exact h.single d hd d' hd' heq
    · exact absurd (heq.trans masterKeyId) (hnone d hd)
    · exact absurd (heq.symm.trans masterKeyId) (hnone d' hd')
    · rfl
  case notAborted =>
    intro d hd
    rcases hrows d hd with hd | rfl
    · exact h.notAborted d hd
    · exact .inl status
  case required =>
    intro d hd
    rcases hrows d hd with hd | rfl
    · exact h.required d hd
    · exact required
  case activated =>
    intro d hd hcomplete
    rw [keys]
    rcases hrows d hd with hd | rfl
    · exact h.activated d hd hcomplete
    · simp [status] at hcomplete

/-- A completed ceremony has activated its key, and no other. -/
theorem CeremonyInv.complete {t t' : HsmStore} {c : KeyCeremony} {key : MasterKey}
    (h : CeremonyInv t) (now expiresAt : Instant) (isCeremony : c ∈ t.ceremonies.rows)
    (isKey : key ∈ t.keys.rows) (masterKeyId : c.masterKeyId = key.id)
    (keys : t'.keys.rows = t.keys.rows.map (replaceKeys
      (rotatedKeys now expiresAt key (predecessorByLabel t c.predecessorLabel))))
    (ceremonies : t'.ceremonies.rows = t.ceremonies.rows.map fun d =>
      if d.id = c.id then completedCeremony now c else d) : CeremonyInv t' := by
  have hpredecessor := fun p (hp : predecessorByLabel t c.predecessorLabel = some p) =>
    predecessorByLabel_mem hp
  obtain ⟨-, hsame, -⟩ := rotatedKeys_saves now expiresAt isKey hpredecessor
  have hrows : ∀ d ∈ t'.ceremonies.rows,
      (d ∈ t.ceremonies.rows ∧ d.id ≠ c.id) ∨ d = completedCeremony now c := by
    intro d' hd'
    rw [ceremonies] at hd'
    obtain ⟨d, hd, rfl⟩ := List.mem_map.mp hd'
    by_cases hid : d.id = c.id
    · exact .inr (if_pos hid)
    · exact .inl (by simp [hid, hd])
  have hother : ∀ d ∈ t.ceremonies.rows, d.id ≠ c.id → d.masterKeyId ≠ c.masterKeyId :=
    fun d hd hne heq => hne (congrArg KeyCeremony.id (h.single d hd c isCeremony heq))
  have hkept : ∀ k ∈ t.keys.rows, ∃ k' ∈ t'.keys.rows, k'.id = k.id := fun k hk =>
    ⟨_, keys ▸ List.mem_map_of_mem hk, replaceKeys_id hsame k⟩
  constructor
  case keyOf =>
    intro d hd
    rcases hrows d hd with ⟨hd, -⟩ | rfl
    · obtain ⟨k, hk, hid⟩ := h.keyOf d hd
      obtain ⟨k', hk', hid'⟩ := hkept k hk
      exact ⟨k', hk', hid'.trans hid⟩
    · obtain ⟨k', hk', hid'⟩ := hkept key isKey
      exact ⟨k', hk', hid'.trans masterKeyId.symm⟩
  case single =>
    intro d hd d' hd' heq
    rcases hrows d hd with ⟨hd, hne⟩ | rfl <;> rcases hrows d' hd' with ⟨hd', hne'⟩ | rfl
    · exact h.single d hd d' hd' heq
    · exact absurd heq (hother d hd hne)
    · exact absurd heq.symm (hother d' hd' hne')
    · rfl
  case notAborted =>
    intro d hd
    rcases hrows d hd with ⟨hd, -⟩ | rfl
    · exact h.notAborted d hd
    · exact .inr rfl
  case required =>
    intro d hd
    rcases hrows d hd with ⟨hd, -⟩ | rfl
    · exact h.required d hd
    · exact h.required c isCeremony
  case activated =>
    intro d hd hcomplete k' hk' hid'
    rw [keys] at hk'
    obtain ⟨k, hk, rfl⟩ := List.mem_map.mp hk'
    rw [replaceKeys_id hsame] at hid'
    have hkey := completion_key now expiresAt isKey hpredecessor hk
    rcases hrows d hd with ⟨hd, hne⟩ | rfl
    · rcases hkey with ⟨hkid, -, -⟩ | ⟨-, hactivated, hpending⟩
      · exact absurd (hid'.symm.trans (hkid.trans masterKeyId.symm)) (hother d hd hne)
      · obtain ⟨hstatus, hat⟩ := h.activated d hd hcomplete k hk hid'
        exact ⟨fun hp => hstatus (hpending hp), hactivated.trans hat⟩
    · rcases hkey with ⟨-, hactivated, hstatus⟩ | ⟨hkid, -, -⟩
      · exact ⟨hstatus, hactivated⟩
      · exact absurd (hid'.trans masterKeyId) hkid

/-- The step lemma of the ceremonies. -/
theorem CeremonyInv.step {t t' : HsmStore} {r : HsmRequest} (effect : HsmEffect t r t')
    (h : CeremonyInv t) : CeremonyInv t' := by
  have hkeys := keysEvolve_of_effect effect
  cases effect with
  | unchanged => exact h
  | keyCreated _ _ _ _ _ ceremonies _ =>
    exact h.of_keysEvolve (hkeys fun _ _ _ hr => nomatch hr) ceremonies
  | approvalInserted _ _ _ _ _ _ _ _ ceremonies =>
    exact h.of_keysEvolve (hkeys fun _ _ _ hr => nomatch hr) ceremonies
  | approvalUpdated _ _ _ _ _ _ ceremonies =>
    exact h.of_keysEvolve (hkeys fun _ _ _ hr => nomatch hr) ceremonies
  | rotated _ _ _ _ _ ceremonies _ =>
    exact h.of_keysEvolve (hkeys fun _ _ _ hr => nomatch hr) ceremonies
  | disabled _ _ _ ceremonies _ =>
    exact h.of_keysEvolve (hkeys fun _ _ _ hr => nomatch hr) ceremonies
  | @ceremonyCreated env payload actor target c _ isTarget pendingKey single _ masterKeyId status
      quorum ceremonies keys _ =>
    exact h.insert isTarget pendingKey single masterKeyId status (quorum ▸ payload.ge_one)
      ceremonies keys
  | @completed env actor c key expiresAt _ isCeremony _ _ isKey masterKeyId keys ceremonies _ =>
    exact h.complete env.now expiresAt isCeremony isKey masterKeyId keys ceremonies

/-! ## Approvals -/

/-- The e-mail address of an approval is stored as it is, or rejected. -/
def StoresEmail : HsmRequest → Prop
  | .approveCeremony _ _ custodianEmail =>
    ∀ email, varchar 120 custodianEmail = some email → email = custodianEmail
  | _ => True

/-- Every approval is given, no custodian has two for one ceremony, and a completed ceremony
has as many as it requires. -/
structure ApprovalInv (t : HsmStore) : Prop where
  approved : ∀ a ∈ t.approvals.rows, a.approvedAt.isSome
  distinct : ∀ id, ((approvalsOf t id).map KeyCustodianApproval.custodianEmail).Nodup
  quorum : ∀ c ∈ t.ceremonies.rows, c.status = .complete →
    c.requiredApprovals ≤ (approvalsOf t c.id).length

theorem approvalCount_eq {t : HsmStore} (h : ∀ a ∈ t.approvals.rows, a.approvedAt.isSome)
    (id : Uuid) : approvalCount (approvalsOf t id) = (approvalsOf t id).length := by
  rw [approvalCount, List.filter_eq_self.mpr]
  exact fun a ha => h a (List.mem_of_mem_filter ha)

/-- The step lemma of the approvals. -/
theorem ApprovalInv.step {t t' : HsmStore} {r : HsmRequest} (effect : HsmEffect t r t')
    (h : ApprovalInv t) (hstores : StoresEmail r) : ApprovalInv t' := by
  have same : t'.approvals = t.approvals → (∀ c ∈ t'.ceremonies.rows, c.status = .complete →
      c.requiredApprovals ≤ (approvalsOf t c.id).length) → ApprovalInv t' := by
    intro happrovals hquorum
    refine ⟨happrovals ▸ h.approved, fun id => ?_, fun c hc hcomplete => ?_⟩
    · rw [approvalsOf_eq happrovals]
      exact h.distinct id
    · rw [approvalsOf_eq happrovals]
      exact hquorum c hc hcomplete
  cases effect with
  | unchanged => exact h
  | keyCreated _ _ _ _ _ ceremonies approvals => exact same approvals (ceremonies ▸ h.quorum)
  | rotated _ _ _ _ _ ceremonies approvals => exact same approvals (ceremonies ▸ h.quorum)
  | disabled _ _ _ ceremonies approvals => exact same approvals (ceremonies ▸ h.quorum)
  | ceremonyCreated _ _ _ _ _ status _ ceremonies _ approvals =>
    refine same approvals fun d hd hcomplete => ?_
    rw [ceremonies] at hd
    rcases List.mem_append.mp hd with hd | hd
    · exact h.quorum d hd hcomplete
    · rw [List.mem_singleton.mp hd, status] at hcomplete
      nomatch hcomplete
  | approvalInserted isCeremony _ missing ceremonyId approvedAt email approvals _ ceremonies =>
    constructor
    · intro b hb
      rw [approvals] at hb
      rcases List.mem_append.mp hb with hb | hb
      · exact h.approved b hb
      · rw [List.mem_singleton.mp hb, approvedAt]
        rfl
    · intro id
      rw [approvalsOf_append approvals]
      split
      · next hid =>
        rw [List.map_append, List.nodup_append]
        refine ⟨h.distinct id, List.nodup_singleton _, fun e he e' he' => ?_⟩
        obtain ⟨b, hb, rfl⟩ := List.mem_map.mp he
        rw [List.mem_singleton.mp he', hstores _ email]
        exact missing b (ceremonyId.symm.trans hid ▸ hb)
      · rw [List.append_nil]
        exact h.distinct id
    · intro c hc hcomplete
      rw [ceremonies] at hc
      rw [approvalsOf_append approvals, List.length_append]
      exact Nat.le_add_right_of_le (h.quorum c hc hcomplete)
  | approvalUpdated _ _ isApproval open_ _ _ _ =>
    have happroved := h.approved _ (List.mem_of_mem_filter isApproval)
    rw [open_] at happroved
    nomatch happroved
  | completed isCeremony _ quorum _ _ _ ceremonies approvals =>
    refine same approvals fun d' hd' hcomplete => ?_
    rw [ceremonies] at hd'
    obtain ⟨d, hd, rfl⟩ := List.mem_map.mp hd'
    split at hcomplete
    · next hid =>
      rw [if_pos hid]
      exact approvalCount_eq h.approved _ ▸ quorum
    · next hid =>
      rw [if_neg hid]
      exact h.quorum d hd hcomplete

/-- A complete ceremony was complete before the step or was completed by it, and its
approvals are those before the step. -/
theorem complete_step {t t' : HsmStore} {r : HsmRequest} (effect : HsmEffect t r t')
    (h : ApprovalInv t) {c : KeyCeremony} (hc : c ∈ t'.ceremonies.rows)
    (hcomplete : c.status = .complete) :
    approvalsOf t' c.id = approvalsOf t c.id ∧
      (c ∈ t.ceremonies.rows ∨ ∃ d ∈ t.ceremonies.rows, d.id = c.id ∧ d.status = .pending) := by
  cases effect with
  | unchanged => exact ⟨rfl, .inl hc⟩
  | keyCreated _ _ _ _ _ ceremonies approvals =>
    exact ⟨approvalsOf_eq approvals _, .inl (ceremonies ▸ hc)⟩
  | rotated _ _ _ _ _ ceremonies approvals =>
    exact ⟨approvalsOf_eq approvals _, .inl (ceremonies ▸ hc)⟩
  | disabled _ _ _ ceremonies approvals =>
    exact ⟨approvalsOf_eq approvals _, .inl (ceremonies ▸ hc)⟩
  | ceremonyCreated _ _ _ _ _ status _ ceremonies _ approvals =>
    refine ⟨approvalsOf_eq approvals _, .inl ?_⟩
    rw [ceremonies] at hc
    rcases List.mem_append.mp hc with hc | hc
    · exact hc
    · rw [List.mem_singleton.mp hc, status] at hcomplete
      nomatch hcomplete
  | approvalInserted isCeremony pending _ ceremonyId _ _ approvals _ ceremonies =>
    rw [ceremonies] at hc
    refine ⟨?_, .inl hc⟩
    rw [approvalsOf_append approvals, if_neg, List.append_nil]
    intro hid
    rw [t.ceremonies.eq_of_key_eq isCeremony hc (ceremonyId.symm.trans hid), hcomplete] at pending
    nomatch pending
  | approvalUpdated _ _ isApproval open_ _ _ _ =>
    have happroved := h.approved _ (List.mem_of_mem_filter isApproval)
    rw [open_] at happroved
    nomatch happroved
  | completed isCeremony pending _ _ _ _ ceremonies approvals =>
    refine ⟨approvalsOf_eq approvals _, ?_⟩
    rw [ceremonies] at hc
    obtain ⟨d, hd, rfl⟩ := List.mem_map.mp hc
    split
    · exact .inr ⟨_, isCeremony, rfl, pending⟩
    · exact .inl hd

/-! ## Activation -/

/-- A key with this identifier exists, and is active only by a completed ceremony. -/
structure ActivatedByCeremony (t : HsmStore) (id : Uuid) : Prop where
  isKey : ∃ k ∈ t.keys.rows, k.id = id
  activated : ∀ k ∈ t.keys.rows, k.id = id → k.activatedAt.isSome →
    ∃ c ∈ t.ceremonies.rows, c.masterKeyId = id ∧ c.status = .complete

theorem ActivatedByCeremony.of_keysEvolve {t t' : HsmStore} {id : Uuid}
    (h : ActivatedByCeremony t id) (hkeys : KeysEvolve t t')
    (hceremonies : ∀ c ∈ t.ceremonies.rows, c ∈ t'.ceremonies.rows) :
    ActivatedByCeremony t' id where
  isKey := by
    obtain ⟨k, hk, hid⟩ := h.isKey
    obtain ⟨k', hk', hid'⟩ := hkeys.kept k hk
    exact ⟨k', hk', hid'.trans hid⟩
  activated k' hk' hid hsome := by
    rcases hkeys.origin k' hk' with hfresh | ⟨k, hk, hkid, hactivated, -⟩
    · obtain ⟨k, hk, hkid⟩ := h.isKey
      exact absurd (hkid.trans hid.symm) (Table.find?_eq_none.mp hfresh k hk)
    · obtain ⟨c, hc, hrest⟩ := h.activated k hk (hkid.trans hid) (hactivated ▸ hsome)
      exact ⟨c, hceremonies c hc, hrest⟩

theorem ActivatedByCeremony.step {t t' : HsmStore} {r : HsmRequest} {id : Uuid}
    (effect : HsmEffect t r t') (h : ActivatedByCeremony t id) : ActivatedByCeremony t' id := by
  have hkeys := keysEvolve_of_effect effect
  cases effect with
  | unchanged => exact h
  | keyCreated _ _ _ _ _ ceremonies _ =>
    exact h.of_keysEvolve (hkeys fun _ _ _ hr => nomatch hr) fun _ hc => ceremonies ▸ hc
  | ceremonyCreated _ _ _ _ _ _ _ ceremonies _ _ =>
    exact h.of_keysEvolve (hkeys fun _ _ _ hr => nomatch hr) fun _ hc =>
      ceremonies ▸ List.mem_append_left _ hc
  | approvalInserted _ _ _ _ _ _ _ _ ceremonies =>
    exact h.of_keysEvolve (hkeys fun _ _ _ hr => nomatch hr) fun _ hc => ceremonies ▸ hc
  | approvalUpdated _ _ _ _ _ _ ceremonies =>
    exact h.of_keysEvolve (hkeys fun _ _ _ hr => nomatch hr) fun _ hc => ceremonies ▸ hc
  | rotated _ _ _ _ _ ceremonies _ =>
    exact h.of_keysEvolve (hkeys fun _ _ _ hr => nomatch hr) fun _ hc => ceremonies ▸ hc
  | disabled _ _ _ ceremonies _ =>
    exact h.of_keysEvolve (hkeys fun _ _ _ hr => nomatch hr) fun _ hc => ceremonies ▸ hc
  | @completed env actor c key expiresAt _ isCeremony pending _ isKey masterKeyId keys
      ceremonies _ =>
    have hpredecessor := fun p (hp : predecessorByLabel t c.predecessorLabel = some p) =>
      predecessorByLabel_mem hp
    obtain ⟨-, hsame, -⟩ := rotatedKeys_saves env.now expiresAt isKey hpredecessor
    have hcompleted : completedCeremony env.now c ∈ t'.ceremonies.rows := by
      rw [ceremonies]
      exact List.mem_map.mpr ⟨c, isCeremony, if_pos rfl⟩
    constructor
    · obtain ⟨k, hk, hid⟩ := h.isKey
      exact ⟨_, keys ▸ List.mem_map_of_mem hk, (replaceKeys_id hsame k).trans hid⟩
    · intro k' hk' hid hsome
      rw [keys] at hk'
      obtain ⟨k, hk, rfl⟩ := List.mem_map.mp hk'
      rw [replaceKeys_id hsame] at hid
      rcases completion_key env.now expiresAt isKey hpredecessor hk with
        ⟨hkid, -, -⟩ | ⟨-, hactivated, -⟩
      · exact ⟨_, hcompleted, masterKeyId.trans (hkid.symm.trans hid), rfl⟩
      · obtain ⟨d, hd, hmaster, hcomplete⟩ := h.activated k hk hid (hactivated ▸ hsome)
        have hne : d.id ≠ c.id := by
          intro heq
          rw [t.ceremonies.eq_of_key_eq hd isCeremony heq, pending] at hcomplete
          nomatch hcomplete
        refine ⟨d, ?_, hmaster, hcomplete⟩
        rw [ceremonies]
        exact List.mem_map.mpr ⟨d, hd, if_neg hne⟩

/-! ## Runs -/

/-- No keys, no ceremonies and no approvals. -/
structure EmptyKeyStore (t : HsmStore) : Prop where
  keys : t.keys.rows = []
  ceremonies : t.ceremonies.rows = []
  approvals : t.approvals.rows = []

/-- A request of the run has registered a key with this identifier. -/
def Registered (crypto : AuditCrypto) (s : Store Db) (rs : List HsmRequest) (id : Uuid) : Prop :=
  ∃ rs₁ env payload actor rs₂, rs = rs₁ ++ .createKey env payload actor :: rs₂ ∧
    (execAll crypto s rs₁).db.hsm.keys.find? id = none ∧
    ((execAll crypto s (rs₁ ++ [.createKey env payload actor])).db.hsm.keys.find? id).isSome

/-- The approvals were there when a request of the run found the ceremony pending and
completed it. -/
def RecordedBefore (crypto : AuditCrypto) (s : Store Db) (rs : List HsmRequest)
    (c : KeyCeremony) (as : List KeyCustodianApproval) : Prop :=
  ∃ rs₁ r rs₂, rs = rs₁ ++ r :: rs₂ ∧
    (∃ d ∈ (execAll crypto s rs₁).db.hsm.ceremonies.rows, d.id = c.id ∧ d.status = .pending) ∧
    c ∈ (execAll crypto s (rs₁ ++ [r])).db.hsm.ceremonies.rows ∧
    ∀ a ∈ as, a ∈ approvalsOf (execAll crypto s rs₁).db.hsm c.id

/-- The one ceremony that has activated a key, with approvals of different custodians. -/
structure ActivatedBy (crypto : AuditCrypto) (s : Store Db) (rs : List HsmRequest)
    (k : MasterKey) (c : KeyCeremony) : Prop where
  masterKeyId : c.masterKeyId = k.id
  status : c.status = .complete
  only : ∀ d ∈ (execAll crypto s rs).db.hsm.ceremonies.rows, d.masterKeyId = k.id →
    d.status = .complete → d = c
  completedAt : c.completedAt = k.activatedAt
  required : 1 ≤ c.requiredApprovals
  approvals : ∃ as, c.requiredApprovals ≤ as.length ∧
    (as.map KeyCustodianApproval.custodianEmail).Nodup ∧
    (∀ a ∈ as, a ∈ approvalsOf (execAll crypto s rs).db.hsm c.id ∧ a.approvedAt.isSome) ∧
    RecordedBefore crypto s rs c as

/-- Every active registered key has its ceremony, and no key has two open ones. -/
def ActivationProvenance (crypto : AuditCrypto) (s : Store Db) (rs : List HsmRequest) : Prop :=
  (∀ k ∈ (execAll crypto s rs).db.hsm.keys.rows, Registered crypto s rs k.id →
    k.activatedAt.isSome → ∃ c ∈ (execAll crypto s rs).db.hsm.ceremonies.rows,
      ActivatedBy crypto s rs k c) ∧
  ∀ c ∈ (execAll crypto s rs).db.hsm.ceremonies.rows,
    ∀ d ∈ (execAll crypto s rs).db.hsm.ceremonies.rows, c.status = .pending →
      d.status = .pending → c.masterKeyId = d.masterKeyId → c = d

section

variable {crypto : AuditCrypto} {s : Store Db}

theorem execAll_concat (rs : List HsmRequest) (r : HsmRequest) :
    execAll crypto s (rs ++ [r]) = (execAll crypto s rs).exec postgres (r.request crypto) :=
  Store.execAll_concat ..

theorem effect_concat (crypto : AuditCrypto) (s : Store Db) (rs : List HsmRequest)
    (r : HsmRequest) :
    HsmEffect (execAll crypto s rs).db.hsm r (execAll crypto s (rs ++ [r])).db.hsm := by
  rw [execAll_concat]
  exact exec_effect _ r

/-- The run lemma: the invariants hold, and the approvals of a complete ceremony are those it
was completed with. -/
theorem invariants_run (crypto : AuditCrypto) (hempty : EmptyKeyStore s.db.hsm) {rs : List HsmRequest}
    (hstores : ∀ r ∈ rs, StoresEmail r) :
    CeremonyInv (execAll crypto s rs).db.hsm ∧ ApprovalInv (execAll crypto s rs).db.hsm ∧
      ∀ c ∈ (execAll crypto s rs).db.hsm.ceremonies.rows, c.status = .complete →
        RecordedBefore crypto s rs c (approvalsOf (execAll crypto s rs).db.hsm c.id) := by
  induction rs using List.reverseRecOn with
  | nil =>
    change CeremonyInv s.db.hsm ∧ ApprovalInv s.db.hsm ∧ _
    obtain ⟨hkeys, hceremonies, happrovals⟩ := hempty
    refine ⟨?_, ?_, fun c hc => ?_⟩
    · exact .of_empty hceremonies
    · constructor <;> simp [hceremonies, happrovals, approvalsOf]
    · change c ∈ s.db.hsm.ceremonies.rows at hc
      simp [hceremonies] at hc
  | append_singleton rs r ih =>
    obtain ⟨hceremony, happroval, hrecorded⟩ := ih fun r' hr' => hstores r' (by simp [hr'])
    have effect := effect_concat crypto s rs r
    refine ⟨hceremony.step effect, happroval.step effect (hstores r (by simp)),
      fun c hc hcomplete => ?_⟩
    obtain ⟨hsame, hbefore⟩ := complete_step effect happroval hc hcomplete
    rw [hsame]
    rcases hbefore with hold | hpending
    · obtain ⟨rs₁, r', rs₂, rfl, hfound, hdone, has⟩ := hrecorded c hold hcomplete
      exact ⟨rs₁, r', rs₂ ++ [r], by simp, hfound, hdone, has⟩
    · exact ⟨rs, r, [], rfl, hpending, hc, fun _ ha => ha⟩

/-- A registered key is active only by a completed ceremony, whatever follows. -/
theorem registered_run {rs : List HsmRequest} {id : Uuid} (h : Registered crypto s rs id) :
    ActivatedByCeremony (execAll crypto s rs).db.hsm id := by
  obtain ⟨rs₁, env, payload, actor, rs₂, rfl, hnone, hsome⟩ := h
  induction rs₂ using List.reverseRecOn with
  | nil =>
    have effect := effect_concat crypto s rs₁ (.createKey env payload actor)
    obtain ⟨k, hk⟩ := Option.isSome_iff_exists.mp hsome
    obtain ⟨hmem, hid⟩ := Table.find?_eq_some.mp hk
    refine ⟨⟨k, hmem, hid⟩, fun k' hk' hid' hactivated => ?_⟩
    generalize (execAll crypto s (rs₁ ++ [.createKey env payload actor])).db.hsm = t' at *
    cases effect with
    | unchanged => exact absurd hid' (Table.find?_eq_none.mp hnone k' hk')
    | keyCreated _ _ _ inactive keys _ _ =>
      rw [keys] at hk'
      rcases List.mem_append.mp hk' with hk' | hk'
      · exact absurd hid' (Table.find?_eq_none.mp hnone k' hk')
      · rw [List.mem_singleton.mp hk', inactive] at hactivated
        nomatch hactivated
  | append_singleton rs₂ r ih =>
    have heffect := effect_concat crypto s
      (rs₁ ++ .createKey env payload actor :: rs₂) r
    rw [List.append_assoc, List.cons_append] at heffect
    exact ih.step heffect

/-- In every run from an empty key store whose approvals store the custodians' addresses as
they are, an active registered key has been activated by its one ceremony. -/
theorem activation_provenance (hempty : EmptyKeyStore s.db.hsm) {rs : List HsmRequest}
    (hstores : ∀ r ∈ rs, StoresEmail r) : ActivationProvenance crypto s rs := by
  obtain ⟨hceremony, happroval, hrecorded⟩ := invariants_run crypto hempty hstores
  refine ⟨fun k hk hregistered hactivated => ?_, fun c hc d hd _ _ => hceremony.single c hc d hd⟩
  obtain ⟨c, hc, hmaster, hcomplete⟩ :=
    (registered_run hregistered).activated k hk rfl hactivated
  refine ⟨c, hc, ?_⟩
  exact {
    masterKeyId := hmaster
    status := hcomplete
    only := fun d hd hid _ => hceremony.single d hd c hc (hid.trans hmaster.symm)
    completedAt := (hceremony.activated c hc hcomplete k hk hmaster.symm).2.symm
    required := hceremony.required c hc
    approvals := ⟨approvalsOf (execAll crypto s rs).db.hsm c.id, happroval.quorum c hc hcomplete,
      happroval.distinct c.id, fun a ha =>
        ⟨ha, happroval.approved a (List.mem_of_mem_filter ha)⟩, hrecorded c hc hcomplete⟩ }

end

/-! ## Sample runs -/

/-- A ceremony of two custodians. -/
def sampleRun (first second : String) : List HsmRequest :=
  [.createKey (sampleHsmEnv 0) sampleMasterKey "admin@example.com",
    .createCeremony (sampleHsmEnv 1) (sampleCeremony ⟨1, by decide⟩) "admin@example.com",
    .approveCeremony (sampleHsmEnv 2) 101 first,
    .approveCeremony (sampleHsmEnv 3) 101 second,
    .completeCeremony (sampleHsmEnv 4) 101 "admin@example.com"]

theorem activation_provenance_sample :
    ActivationProvenance sha256Crypto ⟨emptyDb, 1⟩
      (sampleRun "alice@example.com" "bob@example.com") := by
  refine activation_provenance ⟨rfl, rfl, rfl⟩ fun r hr => ?_
  simp only [sampleRun, List.mem_cons, List.not_mem_nil, or_false] at hr
  rcases hr with rfl | rfl | rfl | rfl | rfl
  · trivial
  · trivial
  · exact fun email h => varchar_of_length_le h (by decide)
  · exact fun email h => varchar_of_length_le h (by decide)
  · trivial

/-- An address of 120 characters. -/
def longEmail : String := String.ofList (List.replicate 108 'c') ++ "@example.com"

/-- A registered key is active though all approvals carry one address and its ceremony requires
two. -/
theorem not_activationProvenance {crypto : AuditCrypto} {s : Store Db} {env : HsmEnv}
    {payload : MasterKeyCreate} {actor : String} {rs : List HsmRequest} (id : Uuid)
    (email : String) (hfresh : s.db.hsm.keys.find? id = none)
    (hregistered : ((execAll crypto s [.createKey env payload actor]).db.hsm.keys.find? id).isSome)
    (hrun : let t := (execAll crypto s (.createKey env payload actor :: rs)).db.hsm
      (t.keys.find? id).any (·.activatedAt.isSome) = true ∧
        t.ceremonies.rows.all (·.requiredApprovals == 2) = true ∧
        t.approvals.rows.all (·.custodianEmail == email) = true) :
    ¬ ActivationProvenance crypto s (.createKey env payload actor :: rs) := by
  obtain ⟨hactive, hrequired, hemails⟩ := hrun
  intro hprovenance
  obtain ⟨k, hk, hactivated⟩ := (Option.any_eq_true _ _).mp hactive
  obtain ⟨hmem, rfl⟩ := Table.find?_eq_some.mp hk
  obtain ⟨c, hc, hby⟩ := hprovenance.1 k hmem
    ⟨[], env, payload, actor, rs, rfl, hfresh, hregistered⟩ hactivated
  obtain ⟨as, hcount, hdistinct, has, -⟩ := hby.approvals
  have hone : (as.map KeyCustodianApproval.custodianEmail).length ≤ [email].length := by
    refine (List.subperm_of_subset hdistinct fun e he => ?_).length_le
    obtain ⟨a, ha, rfl⟩ := List.mem_map.mp he
    have hsame := List.all_eq_true.mp hemails a (List.mem_of_mem_filter (has a ha).1)
    exact beq_iff_eq.mp hsame ▸ List.mem_cons_self
  have htwo := beq_iff_eq.mp (List.all_eq_true.mp hrequired c hc)
  rw [List.length_map, List.length_singleton] at hone
  omega

/-- One custodian, whose address ends in a blank, approves twice, and a key with a quorum of
two is activated. -/
theorem one_custodian_activates :
    ¬ ActivationProvenance sha256Crypto ⟨emptyDb, 1⟩
      (sampleRun (longEmail ++ " ") (longEmail ++ " ")) :=
  not_activationProvenance 100 longEmail rfl (by decide +kernel) (by decide +kernel)

end NexusEngine.HsmActivation
