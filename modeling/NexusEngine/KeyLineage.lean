import NexusEngine.HsmActivation
import NexusEngine.SuccessorChains

/-!
# The lineage of keys

A key that is retired names its successor. The successor is activated when it is named, and has no
successor then, and no key is activated twice. So the chain of successors never returns, and from
every key it leads to one that is not retired.
-/

namespace NexusEngine.KeyLineage

open TransactionalRequests StoredColumns KeyedTables CalendarTime HsmTables Database AuditService
  HsmService HsmLifecycle HsmKeyStatus HsmActivation SuccessorChains
open AuditVerification (sha256Crypto)

/-! ## Successors -/

/-- The `superseded_by_id` of a stored key. -/
def successor (t : HsmStore) (id : Uuid) : Option Uuid :=
  (t.keys.find? id).bind (·.supersededById)

theorem successor_eq_some {t : HsmStore} {a b : Uuid} :
    successor t a = some b ↔ ∃ k ∈ t.keys.rows, k.id = a ∧ k.supersededById = some b := by
  simp only [successor, Option.bind_eq_some_iff, Table.find?_eq_some, and_assoc]

theorem successor_of_mem {t : HsmStore} {k : MasterKey} (hk : k ∈ t.keys.rows) :
    successor t k.id = k.supersededById := by
  rw [successor, Table.find?_of_mem hk]
  rfl

/-- What holds of every stored key. -/
structure KeyInv (k : MasterKey) : Prop where
  inService : k.status = .active ∨ k.status = .expiring → k.activatedAt.isSome
  pending : k.status = .pending → k.activatedAt = none
  retired : k.status = .retired → k.supersededById.isSome
  superseded : k.supersededById.isSome → k.activatedAt.isSome
  current : k.status = .active ∨ k.status = .expiring → k.supersededById = none
  fits : k.keyLabel.toList.length ≤ 80

/-- The key of an open ceremony is not activated, the predecessors that ceremonies remember are,
and successors are stored keys further up. -/
structure LineageInv (t : HsmStore) : Prop where
  key : ∀ k ∈ t.keys.rows, KeyInv k
  labels : ∀ k ∈ t.keys.rows, ∀ l ∈ t.keys.rows, k.keyLabel = l.keyLabel → k = l
  openKey : ∀ c ∈ t.ceremonies.rows, c.status = .pending → ∀ k ∈ t.keys.rows,
    k.id = c.masterKeyId → k.activatedAt = none
  predecessor : ∀ c ∈ t.ceremonies.rows, ∀ l, c.predecessorLabel = some l → ∃ p ∈ t.keys.rows,
    p.keyLabel = l ∧ p.activatedAt.isSome
  named : ∀ k ∈ t.keys.rows, ∀ id, k.supersededById = some id → ∃ l ∈ t.keys.rows, l.id = id
  ranked : Ranked (successor t)

theorem LineageInv.of_empty {t : HsmStore} (h : EmptyKeyStore t) : LineageInv t := by
  obtain ⟨hkeys, hceremonies, -⟩ := h
  constructor
  case ranked =>
    refine ranked_none fun a => ?_
    simp [successor, Table.find?, hkeys]
  all_goals simp [hkeys, hceremonies]

/-! ## Changed keys -/

/-- The keys after a step: the old ones keep their record and stay activated, a new one is new in
identifier and label, and new links lead to one key that has no successor. -/
structure KeysChange (t t' : HsmStore) (f : MasterKey → MasterKey) (new top : Option MasterKey) :
    Prop where
  rows : t'.keys.rows = t.keys.rows.map f ++ new.toList
  record : ∀ k ∈ t.keys.rows, (f k).id = k.id ∧ (f k).keyLabel = k.keyLabel
  keyInv : ∀ k ∈ t.keys.rows, KeyInv (f k)
  activated : ∀ k ∈ t.keys.rows, k.activatedAt.isSome → (f k).activatedAt.isSome
  newInv : ∀ n ∈ new, KeyInv n ∧ n.supersededById = none
  fresh : ∀ n ∈ new, ∀ k ∈ t.keys.rows, k.id ≠ n.id ∧ k.keyLabel ≠ n.keyLabel
  last : ∀ n ∈ top, n ∈ t'.keys.rows ∧ n.supersededById = none
  links : ∀ k ∈ t.keys.rows, ∀ b, (f k).supersededById = some b →
    k.supersededById = some b ∨ ∃ n ∈ top, n.id = b

section

variable {t t' : HsmStore} {f : MasterKey → MasterKey} {new top : Option MasterKey}

theorem KeysChange.cases (h : KeysChange t t' f new top) {k' : MasterKey}
    (hk' : k' ∈ t'.keys.rows) : (∃ k ∈ t.keys.rows, k' = f k) ∨ k' ∈ new := by
  rw [h.rows, List.mem_append, Option.mem_toList] at hk'
  refine hk'.imp_left fun hk' => ?_
  obtain ⟨k, hk, rfl⟩ := List.mem_map.mp hk'
  exact ⟨k, hk, rfl⟩

theorem KeysChange.mem (h : KeysChange t t' f new top) {k : MasterKey} (hk : k ∈ t.keys.rows) :
    f k ∈ t'.keys.rows := by
  rw [h.rows]
  exact List.mem_append_left _ (List.mem_map_of_mem hk)

theorem KeysChange.link (h : KeysChange t t' f new top) {k' : MasterKey} (hk' : k' ∈ t'.keys.rows)
    {b : Uuid} (hb : k'.supersededById = some b) :
    (∃ k ∈ t.keys.rows, k.id = k'.id ∧ k.supersededById = some b) ∨ ∃ n ∈ top, n.id = b := by
  rcases h.cases hk' with ⟨k, hk, rfl⟩ | hnew
  · exact (h.links k hk b hb).imp_left fun hold => ⟨k, hk, (h.record k hk).1.symm, hold⟩
  · rw [(h.newInv k' hnew).2] at hb
    cases hb

theorem KeysChange.ranked (h : KeysChange t t' f new top) (hranked : Ranked (successor t)) :
    Ranked (successor t') := by
  have hlinks : ∀ a b, successor t' a = some b → successor t a = some b ∨ ∃ n ∈ top, n.id = b := by
    intro a b hab
    obtain ⟨k', hk', rfl, hb⟩ := successor_eq_some.mp hab
    exact (h.link hk' hb).imp_left successor_eq_some.mpr
  cases htop : top with
  | none =>
    refine hranked.mono fun a b hab => (hlinks a b hab).resolve_right ?_
    rintro ⟨n, hn, -⟩
    rw [htop] at hn
    cases hn
  | some n =>
    obtain ⟨hn, hnone⟩ := h.last n htop
    refine hranked.link ((successor_of_mem hn).trans hnone) fun a b hab => ?_
    refine (hlinks a b hab).imp_right ?_
    rintro ⟨m, hm, rfl⟩
    rw [Option.mem_unique hm htop]

/-- The invariant follows the keys, where open ceremonies were open before and their keys are not
activated by the step. -/
theorem LineageInv.of_keysChange (h : LineageInv t) (hceremony : CeremonyInv t)
    (hkeys : KeysChange t t' f new top)
    (hopen : ∀ c ∈ t'.ceremonies.rows, c.status = .pending → c ∈ t.ceremonies.rows ∧
      ∀ k ∈ t.keys.rows, k.id = c.masterKeyId → (f k).activatedAt = k.activatedAt)
    (hlabel : ∀ c ∈ t'.ceremonies.rows, ∃ d ∈ t.ceremonies.rows,
      d.predecessorLabel = c.predecessorLabel) : LineageInv t' where
  key k' hk' := by
    rcases hkeys.cases hk' with ⟨k, hk, rfl⟩ | hnew
    · exact hkeys.keyInv k hk
    · exact (hkeys.newInv k' hnew).1
  labels k' hk' l' hl' heq := by
    rcases hkeys.cases hk' with ⟨k, hk, rfl⟩ | hnew <;>
      rcases hkeys.cases hl' with ⟨l, hl, rfl⟩ | hnew'
    · rw [(hkeys.record k hk).2, (hkeys.record l hl).2] at heq
      rw [h.labels k hk l hl heq]
    · rw [(hkeys.record k hk).2] at heq
      exact absurd heq (hkeys.fresh l' hnew' k hk).2
    · rw [(hkeys.record l hl).2] at heq
      exact absurd heq.symm (hkeys.fresh k' hnew l hl).2
    · exact Option.mem_unique hnew hnew'
  openKey c hc hpending k' hk' hid := by
    obtain ⟨hold, hkept⟩ := hopen c hc hpending
    rcases hkeys.cases hk' with ⟨k, hk, rfl⟩ | hnew
    · rw [(hkeys.record k hk).1] at hid
      exact (hkept k hk hid).trans (h.openKey c hold hpending k hk hid)
    · obtain ⟨k, hk, hkid⟩ := hceremony.keyOf c hold
      exact absurd (hkid.trans hid.symm) (hkeys.fresh k' hnew k hk).1
  predecessor c hc l hl := by
    obtain ⟨d, hd, hsame⟩ := hlabel c hc
    obtain ⟨p, hp, hpl, hactivated⟩ := h.predecessor d hd l (hsame.trans hl)
    exact ⟨f p, hkeys.mem hp, (hkeys.record p hp).2.trans hpl, hkeys.activated p hp hactivated⟩
  named k' hk' b hb := by
    rcases hkeys.link hk' hb with ⟨k, hk, -, hold⟩ | ⟨n, hn, rfl⟩
    · obtain ⟨l, hl, rfl⟩ := h.named k hk b hold
      exact ⟨f l, hkeys.mem hl, (hkeys.record l hl).1⟩
    · exact ⟨n, (hkeys.last n hn).1, rfl⟩
  ranked := hkeys.ranked h.ranked

end

/-! ## Steps -/

/-- What a completion makes of each key, where the predecessor is another one. -/
theorem completion_cases {t : HsmStore} (now expiresAt : Instant) {key k : MasterKey}
    {predecessor : Option MasterKey} (hkey : key ∈ t.keys.rows)
    (hpredecessor : ∀ p, predecessor = some p → p ∈ t.keys.rows)
    (hother : ∀ p, predecessor = some p → p.id ≠ key.id) (hk : k ∈ t.keys.rows) :
    let k' := replaceKeys (rotatedKeys now expiresAt key predecessor) k
    (k = key ∧ predecessor = none ∧
        k' = { activatedKey now expiresAt key with supersededById := key.supersededById }) ∨
      (k = key ∧ predecessor.isSome ∧ k' = activatedKey now expiresAt key) ∨
      (k ≠ key ∧ predecessor = some k ∧ k' = retiredKey now key k) ∨
      (k ≠ key ∧ predecessor ≠ some k ∧ k' = k) := by
  intro k'
  cases predecessor with
  | none =>
    have hk' : k' = if k.id = key.id then _ else k := replaceKeys_singleton _ _ k
    by_cases hid : k.id = key.id
    · obtain rfl := t.keys.eq_of_key_eq hk hkey hid
      exact .inl ⟨rfl, rfl, hk'.trans (if_pos rfl)⟩
    · refine .inr (.inr (.inr ⟨?_, Option.some_ne_none _ |>.symm, hk'.trans (if_neg hid)⟩))
      rintro rfl
      exact hid rfl
  | some p =>
    have hne := hother p rfl
    have hk' : k' = if k.id = key.id then activatedKey now expiresAt key else
        if k.id = p.id then retiredKey now key p else k := by
      simp only [k', rotatedKeys_some hne]
      rw [replaceKeys_cons (activatedKey_sameRecord now expiresAt key)
        (fun q hq => by rw [List.mem_singleton.mp hq]; exact Ne.symm hne), replaceKeys_singleton,
        replaceKeys_singleton]
      by_cases hid : k.id = key.id
      · rw [if_pos hid, if_pos hid, if_neg]
        exact Ne.symm hne
      · rw [if_neg hid, if_neg hid]
    by_cases hid : k.id = key.id
    · obtain rfl := t.keys.eq_of_key_eq hk hkey hid
      exact .inr (.inl ⟨rfl, rfl, hk'.trans (if_pos rfl)⟩)
    · rw [if_neg hid] at hk'
      by_cases hp : k.id = p.id
      · obtain rfl := t.keys.eq_of_key_eq hk (hpredecessor p rfl) hp
        refine .inr (.inr (.inl ⟨?_, rfl, hk'.trans (if_pos rfl)⟩))
        rintro rfl
        exact hid rfl
      · refine .inr (.inr (.inr ⟨?_, ?_, hk'.trans (if_neg hp)⟩))
        · rintro rfl
          exact hid rfl
        · intro heq
          exact hp (congrArg MasterKey.id (Option.some.inj heq)).symm

/-- An activation or a retirement keeps the invariant of the key. -/
theorem KeyInv.activate {k : MasterKey} (h : KeyInv k) (now expiresAt : Instant) :
    KeyInv (activatedKey now expiresAt k) where
  inService _ := rfl
  pending hpending := nomatch hpending
  retired hretired := nomatch hretired
  superseded _ := rfl
  current _ := rfl
  fits := h.fits

theorem KeyInv.retire {k : MasterKey} (h : KeyInv k) (hactivated : k.activatedAt.isSome)
    (retiredAt : Option Instant) (successor : Uuid) (throughputOps : Rat) :
    KeyInv { k with
      status := .retired
      retiredAt := retiredAt
      supersededById := some successor
      throughputOps := throughputOps } where
  inService hinService := by simp at hinService
  pending hpending := nomatch hpending
  retired _ := rfl
  superseded _ := hactivated
  current hcurrent := by simp at hcurrent
  fits := h.fits

theorem KeyInv.disable {k : MasterKey} (h : KeyInv k) (env : HsmEnv) :
    KeyInv (disabledKey env k) where
  inService hinService := by simp [disabledKey] at hinService
  pending hpending := nomatch hpending
  retired hretired := nomatch hretired
  superseded := h.superseded
  current hcurrent := by simp [disabledKey] at hcurrent
  fits := h.fits

section

variable {t t' : HsmStore}

theorem keysChange_created (h : LineageInv t) {k : MasterKey}
    (hrows : t'.keys.rows = t.keys.rows ++ [k]) (hfresh : t.keys.find? k.id = none)
    (hlabel : ∀ l ∈ t.keys.rows, l.keyLabel ≠ k.keyLabel) (hinv : KeyInv k)
    (hnone : k.supersededById = none) : KeysChange t t' id (some k) none where
  rows := by simpa using hrows
  record _ _ := ⟨rfl, rfl⟩
  keyInv := h.key
  activated _ _ := id
  newInv n hn := by
    obtain rfl := Option.some.inj hn
    exact ⟨hinv, hnone⟩
  fresh n hn l hl := by
    obtain rfl := Option.some.inj hn
    exact ⟨Table.find?_eq_none.mp hfresh l hl, hlabel l hl⟩
  last n hn := nomatch hn
  links _ _ _ := .inl

/-- One loaded key is flushed, and its successor may be a new key. -/
theorem keysChange_saved (h : LineageInv t) {key key' : MasterKey} (new : Option MasterKey)
    (hkey : key ∈ t.keys.rows) (hsame : key.SameRecord key')
    (hrows : t'.keys.rows = t.keys.rows.map (replaceKeys [(key, key')]) ++ new.toList)
    (hinv : KeyInv key') (hactivated : key'.activatedAt = key.activatedAt)
    (hnew : ∀ n ∈ new, KeyInv n ∧ n.supersededById = none)
    (hfresh : ∀ n ∈ new, ∀ k ∈ t.keys.rows, k.id ≠ n.id ∧ k.keyLabel ≠ n.keyLabel)
    (hlink : ∀ b, key'.supersededById = some b →
      key.supersededById = some b ∨ ∃ n ∈ new, n.id = b) :
    KeysChange t t' (replaceKeys [(key, key')]) new new := by
  have hcases : ∀ k ∈ t.keys.rows, (k = key ∧ replaceKeys [(key, key')] k = key') ∨
      replaceKeys [(key, key')] k = k := by
    intro k hk
    rw [replaceKeys_singleton]
    by_cases hid : k.id = key.id
    · exact .inl ⟨t.keys.eq_of_key_eq hk hkey hid, if_pos hid⟩
    · exact .inr (if_neg hid)
  constructor
  case rows => exact hrows
  case newInv => exact hnew
  case fresh => exact hfresh
  case last =>
    intro n hn
    rw [hrows]
    exact ⟨List.mem_append_right _ (Option.mem_toList.mpr hn), (hnew n hn).2⟩
  case record =>
    intro k hk
    rcases hcases k hk with ⟨rfl, heq⟩ | heq
    · rw [heq]
      exact ⟨hsame.1, hsame.2.1⟩
    · rw [heq]
      exact ⟨rfl, rfl⟩
  case keyInv =>
    intro k hk
    rcases hcases k hk with ⟨rfl, heq⟩ | heq
    · rw [heq]
      exact hinv
    · rw [heq]
      exact h.key k hk
  case activated =>
    intro k hk hisSome
    rcases hcases k hk with ⟨rfl, heq⟩ | heq
    · rw [heq, hactivated]
      exact hisSome
    · rw [heq]
      exact hisSome
  case links =>
    intro k hk b hb
    rcases hcases k hk with ⟨rfl, heq⟩ | heq
    · rw [heq] at hb
      exact hlink b hb
    · rw [heq] at hb
      exact .inl hb

/-- The predecessor that a ceremony remembers is an activated key, and so not the one of an open
ceremony. -/
theorem LineageInv.predecessor_activated (h : LineageInv t) {c : KeyCeremony}
    (hc : c ∈ t.ceremonies.rows) {p : MasterKey}
    (hp : predecessorByLabel t c.predecessorLabel = some p) :
    p.activatedAt.isSome := by
  cases hlabel : c.predecessorLabel with
  | none =>
    rw [hlabel] at hp
    cases hp
  | some l =>
    rw [hlabel] at hp
    simp only [predecessorByLabel, Option.ite_none_left_eq_some] at hp
    obtain ⟨q, hq, hql, hactivated⟩ := h.predecessor c hc l hlabel
    have hpl : p.keyLabel = l := by simpa using List.find?_some hp.2
    rwa [h.labels p (List.mem_of_find?_eq_some hp.2) q hq (hpl.trans hql.symm)]

theorem LineageInv.open_notSuperseded (h : LineageInv t) {c : KeyCeremony}
    (hc : c ∈ t.ceremonies.rows) (hpending : c.status = .pending) {key : MasterKey}
    (hkey : key ∈ t.keys.rows) (hid : key.id = c.masterKeyId) : key.supersededById = none := by
  have hnone := h.openKey c hc hpending key hkey hid
  cases hsuperseded : key.supersededById with
  | none => rfl
  | some b =>
    have hactivated := (h.key key hkey).superseded (by rw [hsuperseded]; rfl)
    rw [hnone] at hactivated
    cases hactivated

theorem LineageInv.predecessor_ne (h : LineageInv t) {c : KeyCeremony}
    (hc : c ∈ t.ceremonies.rows) (hpending : c.status = .pending) {key p : MasterKey}
    (hkey : key ∈ t.keys.rows) (hid : c.masterKeyId = key.id)
    (hp : predecessorByLabel t c.predecessorLabel = some p) : p.id ≠ key.id := by
  intro heq
  have hactivated := h.predecessor_activated hc hp
  rw [t.keys.eq_of_key_eq (predecessorByLabel_mem hp) hkey heq,
    h.openKey c hc hpending key hkey hid.symm] at hactivated
  cases hactivated

theorem keysChange_completed (h : LineageInv t) (now expiresAt : Instant) {c : KeyCeremony}
    (hc : c ∈ t.ceremonies.rows) (hpending : c.status = .pending) {key : MasterKey}
    (hkey : key ∈ t.keys.rows) (hid : c.masterKeyId = key.id)
    (hrows : t'.keys.rows = t.keys.rows.map (replaceKeys (rotatedKeys now expiresAt key
      (predecessorByLabel t c.predecessorLabel)))) :
    KeysChange t t' (replaceKeys (rotatedKeys now expiresAt key
        (predecessorByLabel t c.predecessorLabel))) none
      ((predecessorByLabel t c.predecessorLabel).map fun _ => activatedKey now expiresAt key) := by
  have hactivated := fun p (hp : predecessorByLabel t c.predecessorLabel = some p) =>
    h.predecessor_activated hc hp
  have hcases := fun k (hk : k ∈ t.keys.rows) => completion_cases now expiresAt hkey
    (fun p (hp : predecessorByLabel t c.predecessorLabel = some p) => predecessorByLabel_mem hp)
    (fun p hp => h.predecessor_ne hc hpending hkey hid hp) hk
  generalize predecessorByLabel t c.predecessorLabel = predecessor at *
  constructor
  case rows => simpa using hrows
  case newInv => exact fun n hn => nomatch hn
  case fresh => exact fun n hn => nomatch hn
  case last =>
    intro n hn
    obtain ⟨p, hp, rfl⟩ := Option.map_eq_some_iff.mp hn
    refine ⟨?_, rfl⟩
    rw [hrows]
    refine List.mem_map.mpr ⟨key, hkey, ?_⟩
    rcases hcases key hkey with ⟨-, hnone, -⟩ | ⟨-, -, heq⟩ | ⟨hne, -⟩ | ⟨hne, -⟩
    · rw [hp] at hnone
      cases hnone
    · exact heq
    · exact absurd rfl hne
    · exact absurd rfl hne
  case record =>
    intro k hk
    rcases hcases k hk with ⟨rfl, -, heq⟩ | ⟨rfl, -, heq⟩ | ⟨-, -, heq⟩ | ⟨-, -, heq⟩ <;> rw [heq] <;>
      exact ⟨rfl, rfl⟩
  case keyInv =>
    intro k hk
    have hinv := h.key k hk
    rcases hcases k hk with ⟨rfl, -, heq⟩ | ⟨rfl, -, heq⟩ | ⟨-, hp, heq⟩ | ⟨-, -, heq⟩ <;> rw [heq]
    · rw [h.open_notSuperseded hc hpending hkey hid.symm]
      exact hinv.activate now expiresAt
    · exact hinv.activate now expiresAt
    · exact hinv.retire (hactivated k hp) _ _ _
    · exact hinv
  case activated =>
    intro k hk hisSome
    rcases hcases k hk with ⟨rfl, -, heq⟩ | ⟨rfl, -, heq⟩ | ⟨-, -, heq⟩ | ⟨-, -, heq⟩ <;> rw [heq]
    · rfl
    · rfl
    · exact hisSome
    · exact hisSome
  case links =>
    intro k hk b hb
    rcases hcases k hk with ⟨rfl, -, heq⟩ | ⟨rfl, -, heq⟩ | ⟨-, hp, heq⟩ | ⟨-, -, heq⟩ <;>
      rw [heq] at hb
    · exact .inl hb
    · cases hb
    · refine .inr ⟨activatedKey now expiresAt key, ?_, Option.some.inj hb⟩
      rw [hp]
      rfl
    · exact .inl hb

theorem successor_of_keys_eq (h : t'.keys = t.keys) : successor t' = successor t := by
  funext a
  rw [successor, successor, h]

theorem LineageInv.of_eq (h : LineageInv t) (hkeys : t'.keys = t.keys)
    (hceremonies : t'.ceremonies = t.ceremonies) : LineageInv t' where
  key := hkeys ▸ h.key
  labels := hkeys ▸ h.labels
  openKey := hkeys ▸ hceremonies ▸ h.openKey
  predecessor := hkeys ▸ hceremonies ▸ h.predecessor
  named := hkeys ▸ h.named
  ranked := successor_of_keys_eq hkeys ▸ h.ranked

/-- A ceremony is opened for a pending key, and remembers the label of a key in service. -/
theorem LineageInv.insertCeremony {target : MasterKey} {c : KeyCeremony} (h : LineageInv t)
    (isTarget : target ∈ t.keys.rows) (pendingKey : target.status = .pending)
    (masterKeyId : c.masterKeyId = target.id)
    (ceremonies : t'.ceremonies.rows = t.ceremonies.rows ++ [c]) (keys : t'.keys = t.keys)
    (predecessor : ∀ l, c.predecessorLabel = some l → ∃ p ∈ t.keys.rows, p.id ≠ target.id ∧
      (p.status = .active ∨ p.status = .expiring) ∧ varchar 80 p.keyLabel = some l) :
    LineageInv t' := by
  have hrows : ∀ d ∈ t'.ceremonies.rows, d ∈ t.ceremonies.rows ∨ d = c := by
    intro d hd
    simpa [ceremonies] using hd
  constructor
  case key => exact keys ▸ h.key
  case labels => exact keys ▸ h.labels
  case named => exact keys ▸ h.named
  case ranked => exact successor_of_keys_eq keys ▸ h.ranked
  case openKey =>
    intro d hd hpending
    rw [keys]
    rcases hrows d hd with hd | rfl
    · exact h.openKey d hd hpending
    · intro k hk hid
      rw [t.keys.eq_of_key_eq hk isTarget (hid.trans masterKeyId)]
      exact (h.key target isTarget).pending pendingKey
  case predecessor =>
    intro d hd l hl
    rw [keys]
    rcases hrows d hd with hd | rfl
    · exact h.predecessor d hd l hl
    · obtain ⟨p, hp, -, hinService, hstored⟩ := predecessor l hl
      have hinv := h.key p hp
      exact ⟨p, hp, (varchar_of_length_le hstored hinv.fits).symm, hinv.inService hinService⟩

/-- A completion activates the key of its ceremony and retires the predecessor. -/
theorem LineageInv.complete {c : KeyCeremony} {key : MasterKey} (h : LineageInv t)
    (hceremony : CeremonyInv t) (now expiresAt : Instant) (isCeremony : c ∈ t.ceremonies.rows)
    (pending : c.status = .pending) (isKey : key ∈ t.keys.rows) (masterKeyId : c.masterKeyId = key.id)
    (keys : t'.keys.rows = t.keys.rows.map (replaceKeys
      (rotatedKeys now expiresAt key (predecessorByLabel t c.predecessorLabel))))
    (ceremonies : t'.ceremonies.rows = t.ceremonies.rows.map fun d =>
      if d.id = c.id then completedCeremony now c else d) : LineageInv t' := by
  apply h.of_keysChange hceremony
    (keysChange_completed h now expiresAt isCeremony pending isKey masterKeyId keys)
  · intro d' hd' hopen
    rw [ceremonies] at hd'
    obtain ⟨d, hd, rfl⟩ := List.mem_map.mp hd'
    by_cases hid : d.id = c.id
    · rw [if_pos hid] at hopen
      cases hopen
    rw [if_neg hid]
    refine ⟨hd, fun k hk hkid => ?_⟩
    -- the key of the completed ceremony has no other one
    have hother : k.id ≠ key.id := fun heq => hid (congrArg KeyCeremony.id
      (hceremony.single d hd c isCeremony (hkid.symm.trans (heq.trans masterKeyId.symm))))
    rcases completion_key now expiresAt isKey
      (fun p (hp : predecessorByLabel t c.predecessorLabel = some p) => predecessorByLabel_mem hp)
      hk with ⟨heq, -⟩ | ⟨-, hactivated, -⟩
    · exact absurd heq hother
    · exact hactivated
  · intro d' hd'
    rw [ceremonies] at hd'
    obtain ⟨d, hd, rfl⟩ := List.mem_map.mp hd'
    by_cases hid : d.id = c.id
    · exact ⟨c, isCeremony, by rw [if_pos hid]; rfl⟩
    · exact ⟨d, hd, by rw [if_neg hid]⟩

theorem activatedAt_replaceKeys {key : MasterKey} (hkey : key ∈ t.keys.rows) (key' : MasterKey)
    (heq : key'.activatedAt = key.activatedAt) :
    ∀ k ∈ t.keys.rows, (replaceKeys [(key, key')] k).activatedAt = k.activatedAt := by
  intro k hk
  rw [replaceKeys_singleton]
  split
  · next hid =>
    rw [t.keys.eq_of_key_eq hk hkey hid]
    exact heq
  · rfl

/-- The step lemma of the lineage. -/
theorem LineageInv.step {r : HsmRequest} (effect : HsmEffect t r t') (h : LineageInv t)
    (hceremony : CeremonyInv t) : LineageInv t' := by
  have sameCeremonies {f : MasterKey → MasterKey} {new top : Option MasterKey}
      (hkeys : KeysChange t t' f new top) (hceremonies : t'.ceremonies = t.ceremonies)
      (hactivated : ∀ k ∈ t.keys.rows, (f k).activatedAt = k.activatedAt) : LineageInv t' :=
    h.of_keysChange hceremony hkeys
      (fun c hc _ => ⟨hceremonies ▸ hc, fun k hk _ => hactivated k hk⟩)
      fun c hc => ⟨c, hceremonies ▸ hc, rfl⟩
  cases effect with
  | unchanged => exact h
  | @keyCreated env payload actor k _ fresh id status inactive keys ceremonies _ notSuperseded _
      label fits =>
    have hinv : KeyInv k := by
      constructor
      case fits => exact fits
      all_goals simp [status, inactive, notSuperseded]
    exact sameCeremonies (keysChange_created h keys (id ▸ fresh) label hinv notSuperseded) ceremonies
      fun _ _ => rfl
  | ceremonyCreated isTarget pendingKey _ _ masterKeyId _ _ ceremonies keys _ predecessor =>
    exact h.insertCeremony isTarget pendingKey masterKeyId ceremonies keys predecessor
  | approvalInserted _ _ _ _ _ _ _ keys ceremonies => exact h.of_eq keys ceremonies
  | approvalUpdated _ _ _ _ _ keys ceremonies => exact h.of_eq keys ceremonies
  | @completed env actor c key expiresAt _ isCeremony pending _ isKey masterKeyId keys ceremonies _ =>
    exact h.complete hceremony env.now expiresAt isCeremony pending isKey masterKeyId keys ceremonies
  | @rotated env actor payload key successor _ isKey inService fresh status keys ceremonies _
      notSuperseded activatedAt _ label fits =>
    have hinv : KeyInv successor := by
      constructor
      case fits => exact fits
      all_goals simp [status, activatedAt, notSuperseded]
    have hold := h.key key isKey
    refine sameCeremonies (keysChange_saved h (some successor) isKey
      (rotatedKey_sameRecord env key successor) keys
      (hold.retire (hold.inService inService) _ _ _) rfl ?_ ?_ ?_) ceremonies
      (activatedAt_replaceKeys isKey (rotatedKey env key successor) rfl)
    · intro n hn
      obtain rfl := Option.some.inj hn
      exact ⟨hinv, notSuperseded⟩
    · intro n hn k hk
      obtain rfl := Option.some.inj hn
      exact ⟨Table.find?_eq_none.mp fresh k hk, label k hk⟩
    · intro b hb
      exact .inr ⟨successor, rfl, Option.some.inj hb⟩
  | @disabled env actor key _ isKey _ keys ceremonies _ =>
    exact sameCeremonies (keysChange_saved h none isKey (disabledKey_sameRecord env key)
      (keys.trans (List.append_nil _).symm) ((h.key key isKey).disable env) rfl
      (fun n hn => nomatch hn) (fun n hn => nomatch hn) fun b => .inl) ceremonies
      (activatedAt_replaceKeys isKey (disabledKey env key) rfl)

end

/-! ## Runs -/

/-- Successors are stored, never return, and lead to a key that is not retired. -/
structure WellFoundedLineage (t : HsmStore) : Prop where
  named : ∀ k ∈ t.keys.rows, ∀ id, k.supersededById = some id → ∃ l ∈ t.keys.rows, l.id = id
  acyclic : ∀ id, ¬ Relation.TransGen (Follows (successor t)) id id
  retired : ∀ k ∈ t.keys.rows, k.status = .retired → k.supersededById.isSome
  ends : ∀ k ∈ t.keys.rows, ∃ l ∈ t.keys.rows,
    Relation.ReflTransGen (Follows (successor t)) k.id l.id ∧ l.supersededById = none ∧
      l.status ≠ .retired

theorem LineageInv.wellFounded {t : HsmStore} (h : LineageInv t) : WellFoundedLineage t where
  named := h.named
  acyclic := h.ranked.acyclic
  retired k hk := (h.key k hk).retired
  ends k hk := by
    obtain ⟨b, hchain, hlast⟩ := h.ranked.ends k.id
    have hstep : ∀ a c, successor t a = some c → (∃ l ∈ t.keys.rows, l.id = a) →
        ∃ l ∈ t.keys.rows, l.id = c := by
      intro a c hac _
      obtain ⟨l, hl, -, hc⟩ := successor_eq_some.mp hac
      exact h.named l hl c hc
    obtain ⟨l, hl, rfl⟩ := reflTransGen_preserves hstep hchain ⟨k, hk, rfl⟩
    rw [successor_of_mem hl] at hlast
    refine ⟨l, hl, hchain, hlast, fun hretired => ?_⟩
    have hsome := (h.key l hl).retired hretired
    rw [hlast] at hsome
    cases hsome

/-- The run lemma. -/
theorem lineageInv_run (crypto : AuditCrypto) {s : Store Db} (hempty : EmptyKeyStore s.db.hsm)
    (rs : List HsmRequest) : CeremonyInv (execAll crypto s rs).db.hsm ∧
      LineageInv (execAll crypto s rs).db.hsm := by
  induction rs using List.reverseRecOn with
  | nil => exact ⟨.of_empty hempty.ceremonies, .of_empty hempty⟩
  | append_singleton rs r ih =>
    obtain ⟨hceremony, hlineage⟩ := ih
    have effect := effect_concat crypto s rs r
    exact ⟨hceremony.step effect, hlineage.step effect hceremony⟩

/-- After every run from an empty key store the lineage of the keys is well founded. -/
theorem lineage_wellFounded (crypto : AuditCrypto) {s : Store Db} (hempty : EmptyKeyStore s.db.hsm)
    (rs : List HsmRequest) : WellFoundedLineage (execAll crypto s rs).db.hsm :=
  (lineageInv_run crypto hempty rs).2.wellFounded

def sampleRotation : MasterKeyRotateRequest where
  newLabel := none
  newLabel_min := by simp
  newLabel_max := by simp

theorem lineage_wellFounded_sample :
    WellFoundedLineage (execAll sha256Crypto ⟨emptyDb, 1⟩
      (sampleRun "alice@example.com" "bob@example.com" ++
        [.rotateKey (sampleHsmEnv 5) 100 "admin@example.com" sampleRotation])).db.hsm :=
  lineage_wellFounded sha256Crypto ⟨rfl, rfl, rfl⟩ _

end NexusEngine.KeyLineage
