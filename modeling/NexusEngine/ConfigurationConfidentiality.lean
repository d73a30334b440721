import NexusEngine.ConfigurationReads
import NexusEngine.RelatedLists
import NexusEngine.RelatedReads

/-!
# Sensitive values of documents

Two tables are compared that differ in sensitive payload values and in checksums only. All reads of
a document go through its masked payload, which is the same in both. A comparison of two versions
also looks at which raw values are equal, so that it needs the tables to agree in that.
-/

namespace NexusEngine.ConfigurationConfidentiality

open TransactionalRequests JsonDocuments JsonEquality CalendarTime StoredColumns KeyedTables
  PythonText ConfigurationTable Database ConfigurationService ConfigurationReads RelatedLists

/-! ## Tables that differ in sensitive values -/

/-- The rows differ in the values under sensitive keys and in the checksum only. -/
structure LowEqual (c c' : Configuration) : Prop where
  rest : c' = { c with payload := c'.payload, checksum := c'.checksum }
  payload : List.Forall₂ (fun kv kv' => kv'.1 = kv.1 ∧ (kv.1 ∉ c.sensitiveKeys → kv'.2 = kv.2))
    c.payload c'.payload

def LowEqualTable (t t' : Configurations) : Prop := List.Forall₂ LowEqual t.rows t'.rows

/-- Whether two versions of a document have equal values under a key they both have. -/
def sameValue (floatValue : FloatText → Rat) (c d : Configuration) (key : String) : Bool :=
  valuesEqual floatValue (dictGet c.payload key .null) (dictGet d.payload key .null)

/-- Of every two rows of one name the same values are equal in both tables. -/
def SamePattern (floatValue : FloatText → Rat) (t t' : Configurations) : Prop :=
  ∀ c ∈ t.rows, ∀ d ∈ t.rows, ∀ c' ∈ t'.rows, ∀ d' ∈ t'.rows, c'.id = c.id → d'.id = d.id →
    c.name = d.name → ∀ key ∈ c.payload.map Prod.fst, key ∈ d.payload.map Prod.fst →
      sameValue floatValue c' d' key = sameValue floatValue c d key

/-! ## Rows -/

section

variable {c c' d d' : Configuration}

theorem LowEqual.id (h : LowEqual c c') : c'.id = c.id := by rw [h.rest]

theorem LowEqual.name (h : LowEqual c c') : c'.name = c.name := by rw [h.rest]

theorem LowEqual.version (h : LowEqual c c') : c'.version = c.version := by rw [h.rest]

theorem LowEqual.deletedAt (h : LowEqual c c') : c'.deletedAt = c.deletedAt := by rw [h.rest]

theorem LowEqual.status (h : LowEqual c c') : c'.status = c.status := by rw [h.rest]

theorem LowEqual.sensitiveKeys (h : LowEqual c c') : c'.sensitiveKeys = c.sensitiveKeys := by
  rw [h.rest]

theorem LowEqual.keys (h : LowEqual c c') :
    c'.payload.map Prod.fst = c.payload.map Prod.fst :=
  map_eq_of_forall₂ (fun _ _ hkv => hkv.1) h.payload

/-- The masked payloads agree. -/
theorem LowEqual.maskPayload (h : LowEqual c c') :
    maskPayload c'.payload c'.sensitiveKeys = maskPayload c.payload c.sensitiveKeys := by
  rw [h.sensitiveKeys]
  refine map_eq_of_forall₂ (fun kv kv' hkv => ?_) h.payload
  obtain ⟨hkey, hvalue⟩ := hkv
  rw [hkey]
  split
  · rfl
  · next hopen => rw [hvalue hopen]

/-- A response without its checksum. -/
def withoutChecksum (r : ConfigurationRead) : ConfigurationRead := { r with checksum := "" }

theorem LowEqual.toRead (h : LowEqual c c') :
    withoutChecksum (toRead c') = withoutChecksum (toRead c) := by
  have hmasked := h.maskPayload
  have hrest := h.rest
  generalize c'.payload = payload, c'.checksum = checksum at hrest
  subst hrest
  simp only [withoutChecksum, ConfigurationService.toRead, hmasked]

theorem LowEqual.isVersionOf (h : LowEqual c c') (name : String) :
    isVersionOf name c' = isVersionOf name c := by
  rw [ConfigurationReads.isVersionOf, ConfigurationReads.isVersionOf, h.name, h.deletedAt]

end

/-! ## Comparisons -/

theorem compareCommon_congr {floatValue : FloatText → Rat}
    {base other base' other' maskedBase maskedOther : List (String × Json)} {keys : List String}
    (h : ∀ key ∈ keys,
      valuesEqual floatValue (dictGet base' key .null) (dictGet other' key .null) =
        valuesEqual floatValue (dictGet base key .null) (dictGet other key .null)) :
    compareCommon floatValue base' other' maskedBase maskedOther keys =
      compareCommon floatValue base other maskedBase maskedOther keys := by
  induction keys with
  | nil => rfl
  | cons key keys ih =>
    have hrest := ih fun k hk => h k (List.mem_cons_of_mem _ hk)
    simp only [compareCommon, hrest, h key List.mem_cons_self]

/-- Two comparisons agree where the same values are equal. -/
theorem compared_eq {c c' d d' : Configuration} (hc : LowEqual c c') (hd : LowEqual d d')
    (env : ReadEnv)
    (hsame : ∀ key ∈ c.payload.map Prod.fst, key ∈ d.payload.map Prod.fst →
      sameValue env.floatValue c' d' key = sameValue env.floatValue c d key) :
    compared env c' d' = compared env c d := by
  have hcommon : ∀ maskedBase maskedOther,
      compareCommon env.floatValue c'.payload d'.payload maskedBase maskedOther
          (env.setOrder.intersection (c.payload.map Prod.fst) (d.payload.map Prod.fst)) =
        compareCommon env.floatValue c.payload d.payload maskedBase maskedOther
          (env.setOrder.intersection (c.payload.map Prod.fst) (d.payload.map Prod.fst)) := by
    intro maskedBase maskedOther
    refine compareCommon_congr fun key hkey => ?_
    obtain ⟨hbase, hother⟩ := env.setOrder.mem_intersection.mp hkey
    exact hsame key hbase hother
  simp only [compared, hc.name, hc.version, hd.version, hc.maskPayload, hd.maskPayload, hc.keys,
    hd.keys, hcommon]

/-! ## Reads -/

section

variable {α β : Type} {db db' : Db} {Q : α → α → Prop}

theorem alike_found {row row' : Option α} {error : ServiceError} (h : Option.Rel Q row row') :
    Request.Alike db db' Q (found row error) (found row' error) := by
  cases h with
  | none => exact .raise error
  | some h => exact .done h

theorem alike_ensure {c c' : Prop} [Decidable c] [Decidable c'] {error : ServiceError}
    (h : c ↔ c') : Request.Alike db db' (fun _ _ => True) (ensure c error) (ensure c' error) := by
  unfold ensure
  by_cases hc : c
  · rw [if_pos hc, if_pos (h.mp hc)]
    exact .done trivial
  · rw [if_neg hc, if_neg fun hc' => hc (h.mpr hc')]
    exact .raise error

theorem alike_scalarOneOrNone {rows rows' : List α} (h : List.Forall₂ Q rows rows') :
    Request.Alike db db' (Option.Rel Q) (scalarOneOrNone rows) (scalarOneOrNone rows') := by
  cases h with
  | nil => exact .done .none
  | cons hrow hrest =>
    cases hrest with
    | nil => exact .done (.some hrow)
    | cons _ _ => exact .raise _

end

/-- Rows in the same place of two tables. -/
def Paired (t t' : Configurations) (c c' : Configuration) : Prop :=
  LowEqual c c' ∧ c ∈ t.rows ∧ c' ∈ t'.rows

section

variable {db db' : Db}

/-- Reads that agree but in the checksum. -/
theorem alike_toRead {row row' : Option Configuration} {error : ServiceError}
    (hrow : Option.Rel (Paired db.configurations db'.configurations) row row') :
    Request.Alike db db' (fun r r' => withoutChecksum r' = withoutChecksum r)
      (do return toRead (← found row error)) (do return toRead (← found row' error)) :=
  .bind (alike_found hrow) fun _ _ hc => .done hc.1.toRead

theorem toReads_eq {cs cs' : List Configuration}
    (hcs : List.Forall₂ (Paired db.configurations db'.configurations) cs cs') :
    (cs'.map toRead).map withoutChecksum = (cs.map toRead).map withoutChecksum := by
  rw [List.map_map, List.map_map]
  exact map_eq_of_forall₂ (fun c c' hc => hc.1.toRead) hcs

variable (h : LowEqualTable db.configurations db'.configurations)

include h

theorem paired_rows : List.Forall₂ (Paired db.configurations db'.configurations)
    db.configurations.rows db'.configurations.rows := forall₂_and_mem h

theorem paired_scan (before : Uuid → Uuid → Bool) :
    List.Forall₂ (Paired db.configurations db'.configurations) (db.configurations.scan before)
      (db'.configurations.scan before) :=
  forall₂_insertionSort (fun a a' b b' ha hb => by rw [ha.1.id, hb.1.id]) (paired_rows h)

theorem alike_getConfigurationOrm (configId : Uuid) :
    Request.Alike db db' (Paired db.configurations db'.configurations)
      (getConfigurationOrm configId) (getConfigurationOrm configId) := by
  refine .bind (.select (Q := Option.Rel (Paired db.configurations db'.configurations)) ?_) ?_
  · exact rel_find? (fun c c' hc => by rw [hc.1.id]) (paired_rows h)
  · intro row row' hrow
    refine .bind (alike_found hrow) fun c c' hc => ?_
    refine .bind (alike_ensure (by rw [hc.1.deletedAt])) fun _ _ _ => ?_
    exact .done hc

theorem alike_getConfiguration (configId : Uuid) :
    Request.Alike db db' (fun r r' => withoutChecksum r' = withoutChecksum r)
      (getConfiguration configId) (getConfiguration configId) :=
  .bind (alike_getConfigurationOrm h configId) fun _ _ hc => .done hc.1.toRead

theorem alike_getLatestConfiguration (name : String) :
    Request.Alike db db' (fun r r' => withoutChecksum r' = withoutChecksum r)
      (getLatestConfiguration name) (getLatestConfiguration name) := by
  refine .bind (.select (Q := Option.Rel (Paired db.configurations db'.configurations)) ?_)
    fun _ _ hrow => alike_toRead hrow
  exact rel_argmax (fun c c' hc => hc.1.version)
    (forall₂_filter (fun c c' hc => hc.1.isVersionOf name) (paired_rows h))

theorem alike_getLatestActiveConfiguration (name : String) :
    Request.Alike db db' (fun r r' => withoutChecksum r' = withoutChecksum r)
      (getLatestActiveConfiguration name) (getLatestActiveConfiguration name) := by
  refine .bind (.select (Q := Option.Rel (Paired db.configurations db'.configurations)) ?_)
    fun _ _ hrow => alike_toRead hrow
  refine rel_argmax (fun c c' hc => hc.1.version) (forall₂_filter (fun c c' hc => ?_)
    (paired_rows h))
  rw [isActive, isActive, hc.1.name, hc.1.status, hc.1.deletedAt]

theorem alike_listConfigurations (env : ReadEnv) (name : Option String)
    (status : Option ConfigurationStatus) (includeDeleted : Bool) :
    Request.Alike db db' (fun rs rs' => rs'.map withoutChecksum = rs.map withoutChecksum)
      (listConfigurations env name status includeDeleted)
      (listConfigurations env name status includeDeleted) := by
  refine .bind (.select (Q := List.Forall₂ (Paired db.configurations db'.configurations)) ?_)
    fun _ _ hcs => .done (toReads_eq hcs)
  refine forall₂_insertionSort (fun c c' d d' hc hd => ?_) (forall₂_filter (fun c c' hc => ?_)
    (paired_scan h env.rowOrder))
  · rw [nameOrder, nameOrder, hc.1.name, hd.1.name, hc.1.version, hd.1.version]
  · rw [hc.1.name, hc.1.status, hc.1.deletedAt]

theorem alike_getConfigurationHistory (env : ReadEnv) (configId : Uuid) :
    Request.Alike db db' (fun rs rs' => rs'.map withoutChecksum = rs.map withoutChecksum)
      (getConfigurationHistory env configId) (getConfigurationHistory env configId) := by
  refine .bind (alike_getConfigurationOrm h configId) fun c c' hc => ?_
  refine .bind (.select (Q := List.Forall₂ (Paired db.configurations db'.configurations)) ?_)
    fun _ _ hcs => .done (toReads_eq hcs)
  rw [hc.1.name]
  refine forall₂_insertionSort (fun d d' e e' hd he => ?_)
    (forall₂_filter (fun d d' hd => hd.1.isVersionOf c.name) (paired_scan h env.rowOrder))
  rw [hd.1.version, he.1.version]

/-- The one operation that looks at raw values. -/
theorem alike_compareConfigurations {env : ReadEnv}
    (hpattern : SamePattern env.floatValue db.configurations db'.configurations) (configId : Uuid)
    (otherVersion : ℤ) :
    Request.Alike db db' (fun r r' => r' = r) (compareConfigurations env configId otherVersion)
      (compareConfigurations env configId otherVersion) := by
  refine .bind (alike_getConfigurationOrm h configId) fun c c' hc => ?_
  refine .bind (alike_ensure Iff.rfl) fun _ _ _ => ?_
  refine .bind (.select (Q := List.Forall₂ fun d d' =>
    Paired db.configurations db'.configurations d d' ∧ d.name = c.name) ?_) fun ds ds' hds => ?_
  · rw [hc.1.name]
    refine (forall₂_and_mem (forall₂_filter (fun d d' hd => ?_) (paired_scan h env.rowOrder))).imp
      fun d d' hd => ⟨hd.1, ?_⟩
    · rw [hd.1.isVersionOf, hd.1.version]
    · have hversion := (List.mem_filter.mp hd.2.1).2
      simp only [isVersionOf, Bool.and_eq_true, decide_eq_true_eq] at hversion
      exact hversion.1.1
  refine .bind (alike_scalarOneOrNone hds) fun row row' hrow => ?_
  rw [hc.1.name]
  refine .bind (alike_found hrow) fun d d' hd => ?_
  obtain ⟨⟨hlow, hd, hd'⟩, hname⟩ := hd
  obtain ⟨hlowc, hcmem, hcmem'⟩ := hc
  exact .done (compared_eq hlowc hlow env
    (hpattern c hcmem d hd c' hcmem' d' hd' hlowc.id hlow.id hname.symm))

end

/-! ## Answers -/

/-- An answer without the checksums in it. -/
def ConfigurationAnswer.withoutChecksums : ConfigurationAnswer → ConfigurationAnswer
  | .read config => .read (withoutChecksum config)
  | .reads configs => .reads (configs.map withoutChecksum)
  | .comparison response => .comparison response

/-- Tables that differ in sensitive values and in checksums only, and have the same values equal,
are answered alike but for the checksums. -/
theorem answers_agree {db db' : Db} (env : ReadEnv)
    (h : LowEqualTable db.configurations db'.configurations)
    (hpattern : SamePattern env.floatValue db.configurations db'.configurations)
    (q : ConfigurationQuery) (n n' : ℕ) :
    (((q.request env).serial postgres db' db' n').result).map
        ConfigurationAnswer.withoutChecksums =
      (((q.request env).serial postgres db db n).result).map
        ConfigurationAnswer.withoutChecksums := by
  refine Request.Alike.result_map ?_ postgres db db' n n'
  cases q with
  | get configId =>
    exact .bind (alike_getConfiguration h configId) fun _ _ hr =>
      .done (congrArg ConfigurationAnswer.read hr)
  | list name status includeDeleted =>
    exact .bind (alike_listConfigurations h env name status includeDeleted) fun _ _ hr =>
      .done (congrArg ConfigurationAnswer.reads hr)
  | latest name =>
    exact .bind (alike_getLatestConfiguration h name) fun _ _ hr =>
      .done (congrArg ConfigurationAnswer.read hr)
  | latestActive name =>
    exact .bind (alike_getLatestActiveConfiguration h name) fun _ _ hr =>
      .done (congrArg ConfigurationAnswer.read hr)
  | history configId =>
    exact .bind (alike_getConfigurationHistory h env configId) fun _ _ hr =>
      .done (congrArg ConfigurationAnswer.reads hr)
  | compare configId otherVersion =>
    exact .bind (alike_compareConfigurations h hpattern configId otherVersion) fun _ _ hr =>
      .done (congrArg ConfigurationAnswer.comparison hr)

/-! ## Two tables with other secrets -/

def sampleReadEnv : ReadEnv where
  rowOrder := fun id id' => Nat.ble id id'
  collate := fun a b => decide (a ≤ b)
  setOrder :=
    { difference := fun keys others => keys.dedup.filter fun k => k ∉ others
      intersection := fun keys others => keys.dedup.filter fun k => k ∈ others
      difference_perm := fun _ _ => .rfl
      intersection_perm := fun _ _ => .rfl }
  floatValue := fun _ => 0

/-- A version whose password is sensitive. -/
def secretVersion (version : ℕ) (password checksum : String) : Configuration where
  id := version
  name := "engine"
  version := version
  status := .draft
  payload := [("host", .str "db"), ("password", .str password)]
  sensitiveKeys := ["password"]
  checksum := checksum
  description := none
  createdBy := "admin@example.com"
  activatedAt := none
  archivedAt := none
  deletedAt := none
  createdAt := 0
  updatedAt := 0

def secretDb (first second : String) : Db :=
  { emptyDb with
    configurations := ⟨[secretVersion 1 first (first ++ "1"), secretVersion 2 second (second ++ "2")],
      by simp [secretVersion]⟩ }

theorem secretVersion_lowEqual (version : ℕ) (password checksum password' checksum' : String) :
    LowEqual (secretVersion version password checksum)
      (secretVersion version password' checksum') where
  rest := rfl
  payload := .cons ⟨rfl, fun _ => rfl⟩
    (.cons ⟨rfl, fun h => absurd (List.mem_singleton.mpr rfl) h⟩ .nil)

theorem secretDb_lowEqual (first second first' second' : String) :
    LowEqualTable (secretDb first second).configurations
      (secretDb first' second').configurations :=
  .cons (secretVersion_lowEqual 1 _ _ _ _) (.cons (secretVersion_lowEqual 2 _ _ _ _) .nil)

theorem answers_agree_sample :
    ((((ConfigurationQuery.compare 1 2).request sampleReadEnv).serial postgres
        (secretDb "swordfish" "hunter2") (secretDb "swordfish" "hunter2") 1).result).map
        ConfigurationAnswer.withoutChecksums =
      ((((ConfigurationQuery.compare 1 2).request sampleReadEnv).serial postgres
        (secretDb "letmein" "dragon") (secretDb "letmein" "dragon") 1).result).map
        ConfigurationAnswer.withoutChecksums := by
  refine answers_agree sampleReadEnv (secretDb_lowEqual _ _ _ _) ?_ (.compare 1 2) 1 1
  unfold SamePattern
  decide +kernel

end NexusEngine.ConfigurationConfidentiality
