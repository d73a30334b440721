import NexusEngine.ConfigurationDocuments
import NexusEngine.ConfigurationReads
import NexusEngine.ConfigurationConfidentiality

/-!
# Comparisons of two versions

A comparison finds no difference exactly when the payloads are equal as values. The checksum is
taken of the canonical text of the payload, which also shows how a number is written, so that the
two tell versions apart alike but where equal payloads write a number differently. Without
sensitive keys a comparison is a patch that takes the one payload to the other.
-/

namespace NexusEngine.ConfigurationComparisons

open TransactionalRequests TextEncodings JsonDocuments JsonEquality Dictionaries StoredColumns
  KeyedTables PythonText ConfigurationTable Database AuditService ConfigurationService
  ConfigurationLifecycle ConfigurationVersions ConfigurationDocuments ConfigurationReads
open AuditVerification (sha256Crypto)
open ConfigurationConfidentiality (sampleReadEnv)

/-! ## The response -/

theorem dictGet_lookup {κ ν : Type} [DecidableEq κ] (d : List (κ × ν)) (k : κ) (default : ν) :
    dictGet d k default = (d.lookup k).getD default := by
  rw [dictGet, find?_key]

theorem dictGet_of_lookup {κ ν : Type} [DecidableEq κ] {d : List (κ × ν)} {k : κ} {default v : ν}
    (h : d.lookup k = some v) : dictGet d k default = v := by
  rw [dictGet_lookup, h]
  rfl

/-- Both documents have an equal value under the key. -/
def sameAt (floatValue : FloatText → Rat) (base other : List (String × Json)) (k : String) : Bool :=
  valuesEqual floatValue (dictGet base k .null) (dictGet other k .null)

theorem compareCommon_eq (floatValue : FloatText → Rat)
    (base other maskedBase maskedOther : List (String × Json)) (keys : List String) :
    compareCommon floatValue base other maskedBase maskedOther keys =
      ((keys.filter fun k => !sameAt floatValue base other k).map
          fun k => (k, dictGet maskedBase k .null, dictGet maskedOther k .null),
        keys.countP (sameAt floatValue base other)) := by
  induction keys with
  | nil => rfl
  | cons k keys ih =>
    rw [compareCommon, ih]
    cases h : valuesEqual floatValue (dictGet base k .null) (dictGet other k .null) with
    | true => simp [sameAt, h]
    | false => simp [sameAt, h]

section

variable (env : ReadEnv) (c d : Configuration)

def commonKeys : List String :=
  env.setOrder.intersection (keys c.payload) (keys d.payload)

theorem compared_added : (compared env c d).added =
    pick (maskPayload d.payload d.sensitiveKeys)
      (env.setOrder.difference (keys d.payload) (keys c.payload)) := rfl

theorem compared_removed : (compared env c d).removed =
    pick (maskPayload c.payload c.sensitiveKeys)
      (env.setOrder.difference (keys c.payload) (keys d.payload)) := rfl

theorem compared_changed : (compared env c d).changed =
    ((commonKeys env c d).filter fun k => !sameAt env.floatValue c.payload d.payload k).map fun k =>
      (k, dictGet (maskPayload c.payload c.sensitiveKeys) k .null,
        dictGet (maskPayload d.payload d.sensitiveKeys) k .null) :=
  congrArg Prod.fst (compareCommon_eq ..)

theorem compared_unchangedCount : (compared env c d).unchangedCount =
    (commonKeys env c d).countP (sameAt env.floatValue c.payload d.payload) :=
  congrArg Prod.snd (compareCommon_eq ..)

variable {env c d}

theorem mem_commonKeys {k : String} :
    k ∈ commonKeys env c d ↔ k ∈ keys c.payload ∧ k ∈ keys d.payload :=
  env.setOrder.mem_intersection

end

/-- The comparison found no difference. -/
def NoDifference (r : ConfigurationCompareResponse) : Prop :=
  r.added = [] ∧ r.removed = [] ∧ r.changed = []

instance (r : ConfigurationCompareResponse) : Decidable (NoDifference r) :=
  inferInstanceAs (Decidable (_ ∧ _ ∧ _))

theorem pick_eq_nil {payload : List (String × Json)} {ks : List String} :
    pick payload ks = [] ↔ ∀ k, k ∉ ks := by
  rw [pick, List.map_eq_nil_iff, List.eq_nil_iff_forall_not_mem]

/-- No difference is found exactly where the payloads are equal. -/
theorem noDifference_iff {env : ReadEnv} {c d : Configuration}
    (hc : isDictionary (.obj c.payload) = true) (hd : isDictionary (.obj d.payload) = true) :
    NoDifference (compared env c d) ↔
      valuesEqual env.floatValue (.obj c.payload) (.obj d.payload) = true := by
  have hchanged : (compared env c d).changed = [] ↔ ∀ k, k ∈ keys c.payload → k ∈ keys d.payload →
      sameAt env.floatValue c.payload d.payload k = true := by
    simp [compared_changed, List.filter_eq_nil_iff, mem_commonKeys]
  have hadded : (compared env c d).added = [] ↔ ∀ k, k ∈ keys d.payload → k ∈ keys c.payload := by
    simp [compared_added, pick_eq_nil, env.setOrder.mem_difference]
  have hremoved : (compared env c d).removed = [] ↔
      ∀ k, k ∈ keys c.payload → k ∈ keys d.payload := by
    simp [compared_removed, pick_eq_nil, env.setOrder.mem_difference]
  have hsame : ∀ k v w, c.payload.lookup k = some v → d.payload.lookup k = some w →
      sameAt env.floatValue c.payload d.payload k = valuesEqual env.floatValue v w := by
    intro k v w hv hw
    rw [sameAt, dictGet_of_lookup hv, dictGet_of_lookup hw]
  rw [NoDifference, hadded, hremoved, hchanged, valuesEqual_obj hc hd]
  simp only [Json.obj.injEq, exists_eq_left', agree_iff]
  constructor
  · rintro ⟨hother, hbase, hvalues⟩
    refine ⟨fun k => ⟨hbase k, hother k⟩, fun k v w hv hw => ?_⟩
    rw [← hsame k v w hv hw]
    exact hvalues k (mem_keys.mpr ⟨v, hv⟩) (mem_keys.mpr ⟨w, hw⟩)
  · rintro ⟨hkeys, hvalues⟩
    refine ⟨fun k => (hkeys k).mpr, fun k => (hkeys k).mp, fun k hk hk' => ?_⟩
    obtain ⟨v, hv⟩ := mem_keys.mp hk
    obtain ⟨w, hw⟩ := mem_keys.mp hk'
    rw [hsame k v w hv hw]
    exact hvalues k v w hv hw

/-! ## The request -/

/-- Two rows of one name that are not deleted. -/
structure VersionsOfOneName (t : Configurations) (c d : Configuration) : Prop where
  base : c ∈ t.rows
  other : d ∈ t.rows
  name : d.name = c.name
  baseLive : c.deletedAt = none
  otherLive : d.deletedAt = none

theorem VersionsOfOneName.symm {t : Configurations} {c d : Configuration}
    (h : VersionsOfOneName t c d) : VersionsOfOneName t d c :=
  ⟨h.other, h.base, h.name.symm, h.otherLive, h.baseLive⟩

/-- The query for a version of a name finds one row. -/
theorem filter_version {crypto : AuditCrypto} {t : Configurations} (h : Numbered crypto t)
    {d : Configuration} (hd : d ∈ t.rows) (hlive : d.deletedAt = none)
    (order : Uuid → Uuid → Bool) :
    ((t.scan order).filter fun e => isVersionOf d.name e && (e.version : ℤ) = d.version) = [d] := by
  have hkeys : ((t.scan order).map Configuration.id).Nodup :=
    ((t.scan_perm order).map Configuration.id).nodup_iff.mpr t.nodup
  rw [← Table.filter_key hkeys (Table.mem_scan.mpr hd)]
  refine List.filter_congr fun e he => ?_
  have hmem : e ∈ t.rows := Table.mem_scan.mp he
  have hiff : (e.name = d.name ∧ e.deletedAt = none) ∧ e.version = d.version ↔ e.id = d.id := by
    constructor
    · rintro ⟨⟨hname, -⟩, hversion⟩
      rw [version_inj h hmem hd hname hversion]
    · intro hid
      obtain rfl := t.eq_of_key_eq hmem hd hid
      exact ⟨⟨rfl, hlive⟩, rfl⟩
  rw [Bool.eq_iff_iff]
  simpa [isVersionOf, Int.natCast_inj] using hiff

/-- Versions of one name are compared. -/
theorem compareConfigurations_result {crypto : AuditCrypto} {db : Db}
    (hnumbered : Numbered crypto db.configurations) (hstorable : StorableTable db)
    {c d : Configuration} (h : VersionsOfOneName db.configurations c d) (env : ReadEnv) (n : ℕ) :
    ((compareConfigurations env c.id d.version).serial postgres db db n).result =
      .ok (compared env c d) := by
  have hrun : (compareConfigurations env c.id d.version).wp postgres
      (fun result _ _ _ => result = .ok (compared env c d)) db db n := by
    have hversion := (hstorable d h.other).version
    have hothers := filter_version hnumbered h.other h.otherLive env.rowOrder
    rw [h.name] at hothers
    apply (Request.wp_bind ..).mpr
    apply getConfigurationOrm_loads h.base h.baseLive
    apply (Request.wp_bind ..).mpr
    apply wp_ensure.mpr
    refine ⟨fun hrange => absurd ⟨by omega, by omega⟩ hrange, fun _ => ?_⟩
    apply (Request.wp_bind ..).mpr
    rw [Request.wp_select, hothers]
    apply (Request.wp_bind ..).mpr
    apply Request.wp_return
    apply (Request.wp_bind ..).mpr
    exact wp_found_of_some rfl (Request.wp_return rfl)
  exact (Request.serial_sound hrun).elim fun _ hresult => hresult

/-! ## Differences and checksums -/

/-- What the checksum of a payload is taken of. -/
def canonicalText (payload : List (String × Json)) : Bytes := utf8 (dumps (.obj payload))

/-- The checksum tells the canonical texts apart that the hash tells apart. -/
theorem checksum_eq_iff {crypto : AuditCrypto} {t : Configurations} (h : Numbered crypto t)
    {c d : Configuration} (hc : c ∈ t.rows) (hd : d ∈ t.rows)
    (sha : crypto.sha256 (canonicalText c.payload) = crypto.sha256 (canonicalText d.payload) →
      canonicalText c.payload = canonicalText d.payload) :
    c.checksum = d.checksum ↔ dumps (.obj c.payload) = dumps (.obj d.payload) := by
  rw [h.checksum c hc, h.checksum d hd, payloadChecksum, payloadChecksum]
  constructor
  · intro heq
    exact utf8_injective (sha (hexdigest_injective heq))
  · intro heq
    rw [heq]

/-- Every payload of the run is a dictionary at every depth. -/
def BringDictionaries (rs : List ConfigurationRequest) : Prop :=
  ∀ r ∈ rs, ∀ payload ∈ payloadsOf r, isDictionary (.obj payload) = true

/-- In every state of a run from an empty table the rows can be compared. -/
theorem comparable_execAll {crypto : AuditCrypto} {s : Store Db}
    (hempty : s.db.configurations.rows = []) (rs : List ConfigurationRequest)
    (hdictionaries : BringDictionaries rs) :
    Numbered crypto (execAll crypto s rs).db.configurations ∧
      StorableTable (execAll crypto s rs).db ∧
      Payloads (fun payload => isDictionary (.obj payload) = true) (execAll crypto s rs).db :=
  ⟨numbered_steps (execAll_steps_of_empty hempty rs) (numbered_of_empty hempty),
    storable_execAll hempty rs, payloads_execAll hempty rs hdictionaries⟩

/-- In every state of a run from an empty table, and for two versions of one name that are not
deleted, the comparison tells what the checksums tell exactly where equal payloads write every
number alike. -/
theorem difference_iff_checksum_iff {crypto : AuditCrypto} {s : Store Db}
    (hempty : s.db.configurations.rows = []) (rs : List ConfigurationRequest)
    (hdictionaries : BringDictionaries rs) {c d : Configuration}
    (h : VersionsOfOneName (execAll crypto s rs).db.configurations c d)
    (sha : crypto.sha256 (canonicalText c.payload) = crypto.sha256 (canonicalText d.payload) →
      canonicalText c.payload = canonicalText d.payload) (env : ReadEnv) (n : ℕ) :
    ∃ response, ((compareConfigurations env c.id d.version).serial postgres
        (execAll crypto s rs).db (execAll crypto s rs).db n).result = .ok response ∧
      ((NoDifference response ↔ c.checksum = d.checksum) ↔
        (valuesEqual env.floatValue (.obj c.payload) (.obj d.payload) = true →
          SameNumbers (.obj c.payload) (.obj d.payload))) := by
  obtain ⟨hnumbered, hstorable, hdictionary⟩ := comparable_execAll hempty rs hdictionaries
  have hc := hdictionary c h.base
  have hd := hdictionary d h.other
  refine ⟨_, compareConfigurations_result hnumbered hstorable h env n, ?_⟩
  rw [noDifference_iff hc hd, checksum_eq_iff hnumbered h.base h.other sha]
  exact valuesEqual_iff_dumps (hstorable c h.base).payload hc hd

theorem difference_iff_checksum_iff_sample :
    let db := (execAll sha256Crypto ⟨emptyDb, 1⟩ sampleRun).db
    ∃ (c d : Configuration) (response : ConfigurationCompareResponse), c.version = 1 ∧ d.version = 2 ∧
      ((compareConfigurations sampleReadEnv c.id d.version).serial postgres db db 1).result =
        .ok response ∧
      ((NoDifference response ↔ c.checksum = d.checksum) ↔
        (valuesEqual sampleReadEnv.floatValue (.obj c.payload) (.obj d.payload) = true →
          SameNumbers (.obj c.payload) (.obj d.payload))) := by
  have hdictionaries : BringDictionaries sampleRun := by
    unfold BringDictionaries
    decide +kernel
  obtain ⟨c, hc, d, hd, hfirst, hsecond, hname, hlive, hlive', hsha⟩ :
      ∃ c ∈ (execAll sha256Crypto ⟨emptyDb, 1⟩ sampleRun).db.configurations.rows,
        ∃ d ∈ (execAll sha256Crypto ⟨emptyDb, 1⟩ sampleRun).db.configurations.rows,
          c.version = 1 ∧ d.version = 2 ∧ d.name = c.name ∧ c.deletedAt = none ∧
            d.deletedAt = none ∧ sha256Crypto.sha256 (canonicalText c.payload) ≠
              sha256Crypto.sha256 (canonicalText d.payload) := by
    decide +kernel
  obtain ⟨response, hresponse⟩ := difference_iff_checksum_iff rfl sampleRun hdictionaries
    ⟨hc, hd, hname, hlive, hlive'⟩ (fun heq => absurd heq hsha) sampleReadEnv 1
  exact ⟨c, d, response, hfirst, hsecond, hresponse⟩

def flagUpdate : ConfigurationUpdate where
  payload := [("limit", .bool true)]
  description := none
  description_max := no_description_max
  sensitiveKeys := none

/-- The limit 1 becomes true. -/
def flagRun : List ConfigurationRequest :=
  [.create (sampleConfigurationEnv 1) (sampleDocument "limits" "limit" limits_length)
      "admin@example.com",
    .createSuccessor (sampleConfigurationEnv 2) 10 flagUpdate "admin@example.com"]

/-- The comparison finds no difference between two versions whose checksums differ. -/
theorem flag_for_number_unnoticed :
    let db := (execAll sha256Crypto ⟨emptyDb, 1⟩ flagRun).db
    ¬ ∀ c d, VersionsOfOneName db.configurations c d → ∀ response,
      ((compareConfigurations sampleReadEnv c.id d.version).serial postgres db db 1).result =
        .ok response → (NoDifference response ↔ c.checksum = d.checksum) := by
  intro db hclaim
  obtain ⟨c, hc, d, hd, hname, hlive, hlive', hnone, hdiffer⟩ :
      ∃ c ∈ (execAll sha256Crypto ⟨emptyDb, 1⟩ flagRun).db.configurations.rows,
        ∃ d ∈ (execAll sha256Crypto ⟨emptyDb, 1⟩ flagRun).db.configurations.rows,
          d.name = c.name ∧ c.deletedAt = none ∧ d.deletedAt = none ∧
            NoDifference (compared sampleReadEnv c d) ∧ c.checksum ≠ d.checksum := by
    decide +kernel
  have hversions : VersionsOfOneName db.configurations c d := ⟨hc, hd, hname, hlive, hlive'⟩
  have hresult := compareConfigurations_result
    (numbered_steps (execAll_steps_of_empty rfl flagRun) (numbered_of_empty rfl))
    (storable_execAll rfl flagRun) hversions sampleReadEnv 1
  exact hdiffer ((hclaim c d hversions _ hresult).mp hnone)

/-! ## Comparisons as patches -/

def patchOf (r : ConfigurationCompareResponse) : Patch String Json :=
  ⟨r.added, r.removed, r.changed⟩

theorem maskPayload_nil (payload : List (String × Json)) : maskPayload payload [] = payload := by
  simp [maskPayload]

theorem mem_pick {payload : List (String × Json)} {ks : List String} {k : String} {v : Json}
    (h : ∀ k ∈ ks, k ∈ keys payload) :
    (k, v) ∈ pick payload ks ↔ k ∈ ks ∧ payload.lookup k = some v := by
  have hvalue : ∀ k ∈ ks, dictGet payload k .null = v ↔ payload.lookup k = some v := by
    intro k hk
    obtain ⟨w, hw⟩ := mem_keys.mp (h k hk)
    rw [dictGet_of_lookup hw, hw, Option.some.injEq]
  simp only [pick, List.mem_map, Prod.mk.injEq]
  constructor
  · rintro ⟨k, hk, rfl, hv⟩
    exact ⟨hk, (hvalue k hk).mp hv⟩
  · rintro ⟨hk, hv⟩
    exact ⟨k, hk, rfl, (hvalue k hk).mpr hv⟩

theorem keys_pick (payload : List (String × Json)) (ks : List String) :
    keys (pick payload ks) = ks := by
  simp [keys, pick, Function.comp_def]

theorem nodup_difference (order : SetOrder) (ks others : List String) :
    (order.difference ks others).Nodup :=
  (order.difference_perm ks others).nodup_iff.mpr ((List.nodup_dedup ks).filter _)

section

variable {env : ReadEnv} {c d : Configuration}

theorem nodup_commonKeys : (commonKeys env c d).Nodup :=
  (env.setOrder.intersection_perm _ _).nodup_iff.mpr ((List.nodup_dedup _).filter _)

theorem mem_picked_difference {payload others : List (String × Json)} {k : String} {v : Json} :
    (k, v) ∈ pick payload (env.setOrder.difference (keys payload) (keys others)) ↔
      payload.lookup k = some v ∧ others.lookup k = none := by
  rw [mem_pick fun k hk => (env.setOrder.mem_difference.mp hk).1, env.setOrder.mem_difference,
    lookup_eq_none]
  constructor
  · rintro ⟨⟨-, hk⟩, hv⟩
    exact ⟨hv, hk⟩
  · rintro ⟨hv, hk⟩
    exact ⟨⟨mem_keys.mpr ⟨v, hv⟩, hk⟩, hv⟩

/-- Without sensitive keys the response is a patch between the payloads. -/
theorem compared_between (hc : c.sensitiveKeys = []) (hd : d.sensitiveKeys = []) :
    (patchOf (compared env c d)).Between (valuesEqual env.floatValue) c.payload d.payload where
  addedKeys := by
    rw [patchOf, compared_added, keys_pick]
    exact nodup_difference _ _ _
  removedKeys := by
    rw [patchOf, compared_removed, keys_pick]
    exact nodup_difference _ _ _
  changedKeys := by
    rw [patchOf, compared_changed, keys, List.map_map]
    simpa [Function.comp_def] using nodup_commonKeys.filter _
  added k v := by
    rw [patchOf, compared_added, hd, maskPayload_nil, mem_picked_difference, and_comm]
  removed k v := by
    rw [patchOf, compared_removed, hc, maskPayload_nil, mem_picked_difference]
  changed k v w := by
    simp only [patchOf, compared_changed, hc, hd, maskPayload_nil, List.mem_map, List.mem_filter,
      mem_commonKeys, Prod.mk.injEq, Bool.not_eq_true']
    constructor
    · rintro ⟨k, ⟨⟨hbase, hother⟩, hsame⟩, rfl, rfl, rfl⟩
      obtain ⟨v, hv⟩ := mem_keys.mp hbase
      obtain ⟨w, hw⟩ := mem_keys.mp hother
      rw [sameAt, dictGet_of_lookup hv, dictGet_of_lookup hw] at hsame
      rw [dictGet_of_lookup hv, dictGet_of_lookup hw]
      exact ⟨hv, hw, hsame⟩
    · rintro ⟨hv, hw, hsame⟩
      refine ⟨k, ⟨⟨mem_keys.mpr ⟨v, hv⟩, mem_keys.mpr ⟨w, hw⟩⟩, ?_⟩, rfl, dictGet_of_lookup hv,
        dictGet_of_lookup hw⟩
      rw [sameAt, dictGet_of_lookup hv, dictGet_of_lookup hw]
      exact hsame

/-- Every key of the first payload is removed, changed or unchanged. -/
theorem compared_count (hc : (keys c.payload).Nodup) :
    (compared env c d).removed.length + (compared env c d).changed.length +
      (compared env c d).unchangedCount = c.payload.length := by
  have hdifference : (env.setOrder.difference (keys c.payload) (keys d.payload)).length =
      ((keys c.payload).filter fun k => !decide (k ∈ keys d.payload)).length := by
    simpa [hc.dedup] using (env.setOrder.difference_perm (keys c.payload) (keys d.payload)).length_eq
  have hcommon : (commonKeys env c d).length =
      ((keys c.payload).filter fun k => decide (k ∈ keys d.payload)).length := by
    simpa [commonKeys, hc.dedup] using
      (env.setOrder.intersection_perm (keys c.payload) (keys d.payload)).length_eq
  have hkeys := (keys c.payload).length_eq_length_filter_add fun k => decide (k ∈ keys d.payload)
  have hsplit := (commonKeys env c d).length_eq_length_filter_add
    (sameAt env.floatValue c.payload d.payload)
  have hlength : (keys c.payload).length = c.payload.length := List.length_map _
  rw [compared_removed, compared_changed, compared_unchangedCount, pick, List.length_map,
    List.length_map, List.countP_eq_length_filter]
  omega

/-- What is unchanged in one direction is unchanged in the other. -/
theorem compared_unchanged_swap (hc : isDictionary (.obj c.payload) = true)
    (hd : isDictionary (.obj d.payload) = true) :
    (compared env d c).unchangedCount = (compared env c d).unchangedCount := by
  have hperm : (commonKeys env d c).Perm (commonKeys env c d) := by
    refine (List.perm_ext_iff_of_nodup nodup_commonKeys nodup_commonKeys).mpr fun k => ?_
    rw [mem_commonKeys, mem_commonKeys, and_comm]
  rw [compared_unchangedCount, compared_unchangedCount, hperm.countP_eq]
  refine List.countP_congr fun k hk => ?_
  obtain ⟨hbase, hother⟩ := mem_commonKeys.mp hk
  obtain ⟨v, hv⟩ := mem_keys.mp hbase
  obtain ⟨w, hw⟩ := mem_keys.mp hother
  have hvd := (isDictionary_obj.mp hc).2 _ (mem_of_lookup hv)
  have hwd := (isDictionary_obj.mp hd).2 _ (mem_of_lookup hw)
  rw [sameAt, sameAt, dictGet_of_lookup hv, dictGet_of_lookup hw]
  exact ⟨valuesEqual_symm hwd hvd, valuesEqual_symm hvd hwd⟩

end

/-- The response is a patch from the one payload to the other, and its counts add up. -/
structure CorrectPatch (floatValue : FloatText → Rat) (base other : List (String × Json))
    (r : ConfigurationCompareResponse) : Prop where
  patched : valuesEqual floatValue (.obj ((patchOf r).apply base)) (.obj other) = true
  changedFrom : ∀ k v w, (k, v, w) ∈ r.changed → base.lookup k = some v
  distinct : (keys r.added).Nodup ∧ (keys r.removed).Nodup ∧ (keys r.changed).Nodup
  added_removed : (keys r.added).Disjoint (keys r.removed)
  added_changed : (keys r.added).Disjoint (keys r.changed)
  removed_changed : (keys r.removed).Disjoint (keys r.changed)
  baseCount : r.removed.length + r.changed.length + r.unchangedCount = base.length
  otherCount : r.added.length + r.changed.length + r.unchangedCount = other.length

/-- The response is the other one with its two sides exchanged, up to the order of items. -/
structure Exchanged (r r' : ConfigurationCompareResponse) : Prop where
  name : r'.name = r.name
  baseVersion : r'.baseVersion = r.otherVersion
  otherVersion : r'.otherVersion = r.baseVersion
  added : r'.added.Perm r.removed
  removed : r'.removed.Perm r.added
  changed : r'.changed.Perm (r.changed.map fun kvw => (kvw.1, kvw.2.2, kvw.2.1))
  unchangedCount : r'.unchangedCount = r.unchangedCount

section

variable {env : ReadEnv} {c d : Configuration} (hc : isDictionary (.obj c.payload) = true)
  (hd : isDictionary (.obj d.payload) = true) (hopen : c.sensitiveKeys = [])
  (hopen' : d.sensitiveKeys = [])

include hc hd hopen hopen'

theorem compared_exchanged (hname : d.name = c.name) :
    Exchanged (compared env c d) (compared env d c) := by
  have hbetween : (patchOf (compared env c d)).Between (valuesEqual env.floatValue) c.payload
    d.payload := compared_between hopen hopen'
  have hswap := hbetween.swap fun kv hkv kw hkw => by
    have hv := (isDictionary_obj.mp hc).2 kv hkv
    have hw := (isDictionary_obj.mp hd).2 kw hkw
    exact Bool.eq_iff_iff.mpr ⟨valuesEqual_symm hw hv, valuesEqual_symm hv hw⟩
  obtain ⟨hadded, hremoved, hchanged⟩ := (compared_between hopen' hopen).perm hswap
  exact ⟨hname, rfl, rfl, hadded, hremoved, hchanged, compared_unchanged_swap hc hd⟩

theorem compared_correctPatch (hstandard : isStandard (.obj d.payload) = true)
    (hname : d.name = c.name) :
    CorrectPatch env.floatValue c.payload d.payload (compared env c d) := by
  have hbetween : (patchOf (compared env c d)).Between (valuesEqual env.floatValue) c.payload
    d.payload := compared_between hopen hopen'
  have hkeys := (isDictionary_obj.mp hc).1
  have hexchanged : Exchanged (compared env c d) (compared env d c) :=
    compared_exchanged hc hd hopen hopen' hname
  have hpatched : isDictionary (.obj ((patchOf (compared env c d)).apply c.payload)) = true := by
    refine isDictionary_obj.mpr ⟨hbetween.nodup_apply hkeys, fun kv hkv => ?_⟩
    rcases hbetween.mem_apply hkv with hmem | hmem
    · exact (isDictionary_obj.mp hc).2 kv hmem
    · exact (isDictionary_obj.mp hd).2 kv hmem
  constructor
  · refine (valuesEqual_obj hpatched hd).mpr ⟨_, rfl, hbetween.agree_apply fun kv hkv => ?_⟩
    exact valuesEqual_refl (isStandard_obj.mp hstandard kv hkv) ((isDictionary_obj.mp hd).2 kv hkv)
  · exact fun k v w h => ((hbetween.changed k v w).mp h).1
  · exact ⟨hbetween.addedKeys, hbetween.removedKeys, hbetween.changedKeys⟩
  · exact fun k hk hk' => (hbetween.mem_addedKeys.mp hk).1 (hbetween.mem_removedKeys.mp hk').1
  · exact fun k hk hk' => (hbetween.mem_addedKeys.mp hk).1 (hbetween.of_mem_changedKeys hk').1
  · exact fun k hk hk' => (hbetween.mem_removedKeys.mp hk).2 (hbetween.of_mem_changedKeys hk').2
  · exact compared_count hkeys
  · have hcount : (compared env d c).removed.length + (compared env d c).changed.length +
        (compared env d c).unchangedCount = d.payload.length :=
      compared_count (isDictionary_obj.mp hd).1
    rw [hexchanged.removed.length_eq, hexchanged.changed.length_eq, List.length_map,
      hexchanged.unchangedCount] at hcount
    exact hcount

end

/-- In every state of a run from an empty table, and for two versions of one name that are not
deleted and have no sensitive keys, the comparison is a patch from the one payload to the other,
and the comparison in the other direction is the same one with its sides exchanged. -/
theorem comparison_patches {crypto : AuditCrypto} {s : Store Db}
    (hempty : s.db.configurations.rows = []) (rs : List ConfigurationRequest)
    (hdictionaries : BringDictionaries rs) {c d : Configuration}
    (h : VersionsOfOneName (execAll crypto s rs).db.configurations c d)
    (hopen : c.sensitiveKeys = []) (hopen' : d.sensitiveKeys = []) (env : ReadEnv) (n : ℕ) :
    ∃ r r', ((compareConfigurations env c.id d.version).serial postgres
        (execAll crypto s rs).db (execAll crypto s rs).db n).result = .ok r ∧
      ((compareConfigurations env d.id c.version).serial postgres
        (execAll crypto s rs).db (execAll crypto s rs).db n).result = .ok r' ∧
      CorrectPatch env.floatValue c.payload d.payload r ∧ Exchanged r r' := by
  obtain ⟨hnumbered, hstorable, hdictionary⟩ := comparable_execAll hempty rs hdictionaries
  have hc := hdictionary c h.base
  have hd := hdictionary d h.other
  refine ⟨_, _, compareConfigurations_result hnumbered hstorable h env n,
    compareConfigurations_result hnumbered hstorable h.symm env n, ?_, ?_⟩
  · exact compared_correctPatch hc hd hopen hopen' (hstorable d h.other).payload h.name
  · exact compared_exchanged hc hd hopen hopen' h.name

theorem comparison_patches_sample :
    let db := (execAll sha256Crypto ⟨emptyDb, 1⟩ sampleRun).db
    ∃ (c d : Configuration) (r r' : ConfigurationCompareResponse), c.version = 1 ∧ d.version = 2 ∧
      ((compareConfigurations sampleReadEnv c.id d.version).serial postgres db db 1).result =
        .ok r ∧
      ((compareConfigurations sampleReadEnv d.id c.version).serial postgres db db 1).result =
        .ok r' ∧
      CorrectPatch sampleReadEnv.floatValue c.payload d.payload r ∧ Exchanged r r' := by
  have hdictionaries : BringDictionaries sampleRun := by
    unfold BringDictionaries
    decide +kernel
  obtain ⟨c, hc, d, hd, hfirst, hsecond, hname, hlive, hlive', hopen, hopen'⟩ :
      ∃ c ∈ (execAll sha256Crypto ⟨emptyDb, 1⟩ sampleRun).db.configurations.rows,
        ∃ d ∈ (execAll sha256Crypto ⟨emptyDb, 1⟩ sampleRun).db.configurations.rows,
          c.version = 1 ∧ d.version = 2 ∧ d.name = c.name ∧ c.deletedAt = none ∧
            d.deletedAt = none ∧ c.sensitiveKeys = [] ∧ d.sensitiveKeys = [] := by
    decide +kernel
  obtain ⟨r, r', hresponses⟩ := comparison_patches rfl sampleRun hdictionaries
    ⟨hc, hd, hname, hlive, hlive'⟩ hopen hopen' sampleReadEnv 1
  exact ⟨c, d, r, r', hfirst, hsecond, hresponses⟩

end NexusEngine.ConfigurationComparisons
