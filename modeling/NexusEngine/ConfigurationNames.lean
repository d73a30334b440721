import NexusEngine.ConfigurationRollback

/-!
# Names that are taken

A name is refused to a new configuration as soon as some row has it, deleted or not, and the caller
is told to add a version to it. Only a row that is not deleted takes one. So a name stays usable
exactly as long as no deletion takes its last row and its numbers do not run out.
-/

namespace NexusEngine.ConfigurationNames

open TransactionalRequests JsonDocuments StoredColumns KeyedTables ConfigurationTable Database
  AuditService AuditAppends AuditedTransactions ConfigurationService ConfigurationLifecycle
  ConfigurationDocuments ConfigurationTransactions
open ConfigurationRollback (insertConfiguration_accepts saveConfiguration_applies)
open AuditVerification (sha256Crypto)

/-! ## Names -/

/-- The refusal of a name that exists. -/
def alreadyExists (name : String) : ServiceError :=
  .http 409 ("Configuration '" ++ name ++ "' already exists; PATCH it to add a version")

/-- What an update of a row has to bring: its payload passes the validation, and the columns take
what is stored of it. -/
structure ValidUpdate (base : Configuration) (payload : ConfigurationUpdate)
    (createdBy : String) : Prop where
  valid : validatePayload payload.payload (payload.sensitiveKeys.getD base.sensitiveKeys) = []
  standard : isStandard (.obj payload.payload) = true
  description : (nullable (varchar 255) payload.description).isSome
  createdBy : (varchar 120 createdBy).isSome

/-- Every valid update of the row is answered with a new version. -/
def TakesVersions (crypto : AuditCrypto) (s : Store Db) (base : Configuration) : Prop :=
  ∀ (env : ConfigurationEnv) (payload : ConfigurationUpdate) (createdBy : String),
    (∀ d ∈ s.db.configurations.rows, d.id ≠ env.uuid4 0) → ValidUpdate base payload createdBy →
    ∃ read, ((createSuccessorVersion crypto env base.id payload createdBy).serial postgres s.db
      s.db s.sequence).result = .ok read

/-- Where a name is refused because it exists, some row of the name takes versions. -/
def NoNameStuck (crypto : AuditCrypto) (s : Store Db) : Prop :=
  ∀ (env : ConfigurationEnv) (payload : ConfigurationCreate) (createdBy : String),
    ((createConfiguration crypto env payload createdBy).serial postgres s.db s.db
      s.sequence).result = .error (alreadyExists payload.name) →
    ∃ base ∈ s.db.configurations.rows, base.name = payload.name ∧ TakesVersions crypto s base

def HasLive (t : Configurations) (name : String) : Prop :=
  ∃ c ∈ t.rows, c.name = name ∧ c.deletedAt = none

/-- Every name has a row that is not deleted. -/
def AllLive (t : Configurations) : Prop := ∀ c ∈ t.rows, HasLive t c.name

/-- No name has used up its numbers. -/
def Roomy (t : Configurations) : Prop := ∀ c ∈ t.rows, maxVersion t c.name < maxInteger

/-- A deletion that goes through leaves another row of its name that is not deleted. -/
def LeavesVersion (t : Configurations) : ConfigurationRequest → Prop
  | .delete _ configId => ∀ c ∈ t.rows, c.id = configId → c.deletedAt = none →
      c.status ≠ .active → ∃ d ∈ t.rows, d.id ≠ configId ∧ d.name = c.name ∧ d.deletedAt = none
  | _ => True

/-! ## The two requests -/

section

variable {crypto : AuditCrypto} {s : Store Db}

/-- A name is refused because it exists exactly where some row has it. -/
theorem createConfiguration_exists_iff (env : ConfigurationEnv) (payload : ConfigurationCreate)
    (createdBy : String) :
    ((createConfiguration crypto env payload createdBy).serial postgres s.db s.db
      s.sequence).result = .error (alreadyExists payload.name) ↔
      ∃ c ∈ s.db.configurations.rows, c.name = payload.name := by
  have hwp : (createConfiguration crypto env payload createdBy).wp postgres
      (fun result _ _ _ => result = .error (alreadyExists payload.name) ↔
        ∃ c ∈ s.db.configurations.rows, c.name = payload.name) s.db s.db s.sequence := by
    apply (Request.wp_bind ..).mpr
    rw [Request.wp_select]
    apply (Request.wp_bind ..).mpr
    rw [wp_ensure]
    constructor
    · intro hexists
      have hany : ∃ c ∈ s.db.configurations.rows, c.name = payload.name := by
        simpa using hexists
      simp [hany, alreadyExists]
    · intro hnew
      have hnone : ¬ ∃ c ∈ s.db.configurations.rows, c.name = payload.name := by
        simpa using hnew
      simp only [hnone, iff_false]
      -- nothing that comes after is answered with this refusal
      apply (Request.wp_bind ..).mpr
      rw [ensureValid, wp_ensure]
      constructor
      · intro _
        simp [alreadyExists]
      · intro _
        apply (Request.wp_bind ..).mpr
        rw [Request.wp_send]
        constructor
        · exact fun _ h => nomatch h
        · intro work _
          apply Request.wp_commitTransaction_bind
          apply (Request.wp_bind ..).mpr
          rw [Request.wp_select]
          apply (Request.wp_bind ..).mpr
          rw [wp_found]
          constructor
          · exact fun _ h => nomatch h
          · exact fun c _ => Request.wp_return fun h => nomatch h
  exact (Request.serial_sound hwp).elim fun _ h => h

/-- A row that is not deleted takes every valid update while there is a next number. -/
theorem takesVersions_of_live (hdigest : ∀ bs, (crypto.sha256 bs).length = 32)
    (hstorable : StorableTable s.db) {base : Configuration}
    (hbase : base ∈ s.db.configurations.rows) (hlive : base.deletedAt = none)
    (hroom : maxVersion s.db.configurations base.name < maxInteger) :
    TakesVersions crypto s base := by
  intro env payload createdBy hfresh hvalid
  obtain ⟨storedBy, hby⟩ := Option.isSome_iff_exists.mp hvalid.createdBy
  have hdescription : nullable (varchar 255) (payload.description.or base.description) =
      some (payload.description.or base.description) := by
    cases hgiven : payload.description with
    | none => exact (hstorable base hbase).description
    | some description =>
      have hgiven' := nullable_of_length_le hvalid.description payload.description_max
      rw [hgiven] at hgiven'
      exact hgiven'
  let config := draft crypto env 0 base.name (maxVersion s.db.configurations base.name + 1)
    payload.payload (payload.sensitiveKeys.getD base.sensitiveKeys)
    (payload.description.or base.description) createdBy
  have hroom' : maxVersion s.db.configurations config.name < maxInteger := hroom
  obtain ⟨inserted, hinsert, hrows⟩ := insertConfiguration_next (c := config)
    (hstorable base hbase).name hvalid.standard (payloadChecksum_fits hdigest _) hdescription hby
    rfl hroom' hfresh
  have hsent : postgres.applyAll [.configuration (.insert config)] s.db =
      some { s.db with configurations := inserted } := by
    rw [StatementSemantics.applyAll_singleton]
    exact apply_configuration.mpr ⟨inserted, hinsert, rfl⟩
  have hmem : { config with createdBy := storedBy } ∈ inserted.rows := by simp [hrows]
  have hwp : (createSuccessorVersion crypto env base.id payload createdBy).wp postgres
      (fun result _ _ _ => ∃ read, result = .ok read) s.db s.db s.sequence := by
    apply (Request.wp_bind ..).mpr
    apply getConfigurationOrm_loads hbase hlive
    apply (Request.wp_bind ..).mpr
    rw [ensureValid, wp_ensure]
    constructor
    · intro hnot
      exact absurd hvalid.valid hnot
    · intro _
      apply (Request.wp_bind ..).mpr
      rw [nextVersion, Request.wp_select]
      apply (Request.wp_bind ..).mpr
      apply Request.wp_send_of_some hsent
      apply Request.wp_commitTransaction_bind
      have hread : (refreshed ({ config with createdBy := storedBy } : Configuration).id).wp
          postgres (fun result _ _ _ => ∃ read, result = .ok read)
          { s.db with configurations := inserted } { s.db with configurations := inserted }
          (s.sequence + 1) := refreshed_loads hmem ⟨_, rfl⟩
      exact hread
  exact (Request.serial_sound hwp).elim fun _ h => h

/-- No update of a deleted row is answered with a version. -/
theorem createSuccessorVersion_deleted {base : Configuration}
    (hbase : base ∈ s.db.configurations.rows) (hdeleted : base.deletedAt ≠ none)
    (env : ConfigurationEnv) (payload : ConfigurationUpdate) (createdBy : String) :
    ((createSuccessorVersion crypto env base.id payload createdBy).serial postgres s.db s.db
      s.sequence).result = .error (.http 404 "Configuration not found") := by
  have hwp : (createSuccessorVersion crypto env base.id payload createdBy).wp postgres
      (fun result _ _ _ => result = .error (.http 404 "Configuration not found")) s.db s.db
      s.sequence := by
    apply (Request.wp_bind ..).mpr
    apply (Request.wp_bind ..).mpr
    rw [Request.wp_select]
    apply (Request.wp_bind ..).mpr
    apply wp_found_of_some (Table.find?_of_mem hbase)
    apply (Request.wp_bind ..).mpr
    rw [wp_ensure]
    exact ⟨fun _ => rfl, fun hnone => absurd hnone hdeleted⟩
  exact (Request.serial_sound hwp).elim fun _ h => h

/-- No update is answered with a version where the numbers of the name are used up. -/
theorem createSuccessorVersion_full {base : Configuration}
    (hbase : base ∈ s.db.configurations.rows)
    (hfull : maxInteger ≤ maxVersion s.db.configurations base.name)
    (env : ConfigurationEnv) (payload : ConfigurationUpdate) (createdBy : String)
    (read : ConfigurationRead) :
    ((createSuccessorVersion crypto env base.id payload createdBy).serial postgres s.db s.db
      s.sequence).result ≠ .ok read := by
  have hwp : (createSuccessorVersion crypto env base.id payload createdBy).wp postgres
      (fun result _ _ _ => result ≠ .ok read) s.db s.db s.sequence := by
    apply (Request.wp_bind ..).mpr
    apply getConfigurationOrm_wp
    · intro _ h
      cases h
    intro c hc hid _
    obtain rfl := s.db.configurations.eq_of_key_eq hc hbase hid
    apply (Request.wp_bind ..).mpr
    apply ensureValid_wp
    · intro _ h
      cases h
    apply (Request.wp_bind ..).mpr
    rw [nextVersion, Request.wp_select]
    apply (Request.wp_bind ..).mpr
    rw [Request.wp_send]
    constructor
    · intro _ h
      cases h
    · intro work hwork
      obtain ⟨inserted, hinsert, -⟩ := applyAll_configuration_singleton hwork
      have hversion := (insertConfiguration_accepts hinsert).2
      simp only [draft] at hversion
      omega
  exact (Request.serial_sound hwp).elim fun _ h => h

/-! ## Stuck names -/

/-- An update that is valid for every row. -/
def plainUpdate : ConfigurationUpdate where
  payload := [("limit", .int 1)]
  description := none
  description_max := no_description_max
  sensitiveKeys := some []

theorem validUpdate_plain (base : Configuration) : ValidUpdate base plainUpdate "admin" where
  valid := rfl
  standard := rfl
  description := rfl
  createdBy := rfl

/-- Identifiers can be drawn that no row has. -/
theorem exists_fresh (t : Configurations) (audit : AppendEnv) :
    ∃ env : ConfigurationEnv, ∀ d ∈ t.rows, d.id ≠ env.uuid4 0 := by
  let ids := t.rows.map Configuration.id
  refine ⟨⟨0, fun _ => ids.foldr max 0 + 1, fun _ => 0, fun _ => 0, 0, audit⟩, fun d hd => ?_⟩
  have hle : d.id ≤ ids.foldr max 0 :=
    List.le_max_of_le' 0 (List.mem_map_of_mem hd) (Nat.le_refl _)
  exact Nat.ne_of_lt (Nat.lt_succ_of_le hle)

/-- A row that takes versions is not deleted, and there is a next number. -/
theorem TakesVersions.live {base : Configuration} (h : TakesVersions crypto s base)
    (hbase : base ∈ s.db.configurations.rows) :
    base.deletedAt = none ∧ maxVersion s.db.configurations base.name < maxInteger := by
  obtain ⟨env, hfresh⟩ := exists_fresh s.db.configurations (AuditVerification.sampleEnv 0)
  obtain ⟨read, hread⟩ := h env plainUpdate "admin" hfresh (validUpdate_plain base)
  constructor
  · by_contra hdeleted
    rw [createSuccessorVersion_deleted hbase hdeleted] at hread
    nomatch hread
  · by_contra hfull
    exact createSuccessorVersion_full hbase (Nat.le_of_not_lt hfull) _ _ _ read hread

/-- The rows have names that a request can bring. -/
def Named (t : Configurations) : Prop := ∀ c ∈ t.rows, 2 ≤ c.name.toList.length

/-- No name is stuck exactly where every name has a row that is not deleted, and a next number. -/
theorem noNameStuck_iff (hdigest : ∀ bs, (crypto.sha256 bs).length = 32)
    (hstorable : StorableTable s.db) (hnamed : Named s.db.configurations) :
    NoNameStuck crypto s ↔ AllLive s.db.configurations ∧
      Roomy s.db.configurations := by
  constructor
  · intro h
    have hall : ∀ c ∈ s.db.configurations.rows, HasLive s.db.configurations c.name ∧
        maxVersion s.db.configurations c.name < maxInteger := by
      intro c hc
      let payload : ConfigurationCreate := {
        name := c.name
        name_min := hnamed c hc
        name_max := varchar_length (hstorable c hc).name
        payload := plainUpdate.payload
        description := none
        description_max := no_description_max
        sensitiveKeys := [] }
      obtain ⟨env, -⟩ := exists_fresh s.db.configurations (AuditVerification.sampleEnv 0)
      obtain ⟨base, hbase, hname, htakes⟩ := h env payload "admin"
        ((createConfiguration_exists_iff env payload "admin").mpr ⟨c, hc, rfl⟩)
      have hlive := htakes.live hbase
      rw [hname] at hlive
      exact ⟨⟨base, hbase, hname, hlive.1⟩, hlive.2⟩
    exact ⟨fun c hc => (hall c hc).1, fun c hc => (hall c hc).2⟩
  · rintro ⟨hlive, hroomy⟩ env payload createdBy hrefused
    obtain ⟨c, hc, hname⟩ := (createConfiguration_exists_iff env payload createdBy).mp hrefused
    obtain ⟨base, hbase, hsame, hnot⟩ := hlive c hc
    have hroom := hroomy base hbase
    exact ⟨base, hbase, hsame.trans hname,
      takesVersions_of_live hdigest hstorable hbase hnot hroom⟩

end

/-! ## What a request leaves of the names -/

/-- No row goes, none is deleted, and no name of a single character appears. -/
structure Grows (t t' : Configurations) : Prop where
  kept : ∀ c ∈ t.rows, ∃ c' ∈ t'.rows, c'.name = c.name ∧ c'.deletedAt = c.deletedAt
  origin : ∀ c' ∈ t'.rows, (∃ c ∈ t.rows, c.name = c'.name ∧ c.deletedAt = c'.deletedAt) ∨
    2 ≤ c'.name.toList.length ∧ c'.deletedAt = none

section

variable {t t' t'' : Configurations}

theorem Grows.refl (t : Configurations) : Grows t t where
  kept c hc := ⟨c, hc, rfl, rfl⟩
  origin c hc := .inl ⟨c, hc, rfl, rfl⟩

theorem Grows.trans (h : Grows t t') (h' : Grows t' t'') : Grows t t'' where
  kept c hc := by
    obtain ⟨c', hc', hname, hdeleted⟩ := h.kept c hc
    obtain ⟨c'', hc'', hname', hdeleted'⟩ := h'.kept c' hc'
    exact ⟨c'', hc'', hname'.trans hname, hdeleted'.trans hdeleted⟩
  origin c'' hc'' := by
    rcases h'.origin c'' hc'' with ⟨c', hc', hname', hdeleted'⟩ | hnew
    · rcases h.origin c' hc' with ⟨c, hc, hname, hdeleted⟩ | ⟨hlength, hlive⟩
      · exact .inl ⟨c, hc, hname.trans hname', hdeleted.trans hdeleted'⟩
      · exact .inr ⟨hname' ▸ hlength, hdeleted'.symm.trans hlive⟩
    · exact .inr hnew

theorem Grows.named (h : Grows t t') (hnamed : Named t) : Named t' := by
  intro c' hc'
  rcases h.origin c' hc' with ⟨c, hc, hname, -⟩ | ⟨hlength, -⟩
  · exact hname ▸ hnamed c hc
  · exact hlength

theorem Grows.allLive (h : Grows t t') (hlive : AllLive t) : AllLive t' := by
  intro c' hc'
  rcases h.origin c' hc' with ⟨c, hc, hname, -⟩ | ⟨-, hnew⟩
  · obtain ⟨d, hd, hsame, hnot⟩ := hlive c hc
    obtain ⟨d', hd', hname', hdeleted'⟩ := h.kept d hd
    exact ⟨d', hd', hname'.trans (hsame.trans hname), hdeleted'.trans hnot⟩
  · exact ⟨c', hc', rfl, hnew⟩

end

/-- The statement inserts a row that is not deleted, or leaves open which rows are deleted. -/
def KeepsNames : Statement → Prop
  | .configuration (.insert c) =>
    2 ≤ c.name.toList.length ∧ c.name.toList.length ≤ 120 ∧ c.deletedAt = none
  | .configuration (.update _ patch) => patch.deletedAt = none
  | _ => True

section

variable {w : Statement} {ws : List Statement} {db db' : Db}

theorem Grows.apply (h : postgres.apply w db = some db') (hw : KeepsNames w) :
    Grows db.configurations db'.configurations := by
  rcases (apply_frame h).configurations with ⟨statement, rfl, hconf⟩ | hsame
  · cases statement with
    | insert c =>
      obtain ⟨hmin, hmax, hlive⟩ := hw
      obtain ⟨row, hstored, hinsert⟩ := insertConfiguration_eq_some hconf
      have hname : row.name = c.name := varchar_of_length_le hstored.name hmax
      have hdeleted : row.deletedAt = none := by rw [hstored.rest, hlive]
      constructor
      · intro d hd
        exact ⟨d, (Table.mem_insert hinsert).mpr (.inl hd), rfl, rfl⟩
      · intro d hd
        rcases (Table.mem_insert hinsert).mp hd with hd | rfl
        · exact .inl ⟨d, hd, rfl, rfl⟩
        · exact .inr ⟨hname ▸ hmin, hdeleted⟩
    | update id patch =>
      have hdeleted : ∀ d, (patch.apply d).deletedAt = d.deletedAt := by
        intro d
        rw [ConfigurationPatch.apply, hw, Option.getD_none]
      change db.configurations.update id patch.apply (fun _ => rfl) = _ at hconf
      have hrows := (Table.update_eq_some.mp hconf).2
      constructor
      · intro d hd
        refine ⟨if d.id = id then patch.apply d else d, hrows ▸ List.mem_map_of_mem hd, ?_⟩
        split
        · exact ⟨rfl, hdeleted d⟩
        · exact ⟨rfl, rfl⟩
      · intro d' hd'
        rw [hrows] at hd'
        obtain ⟨d, hd, rfl⟩ := List.mem_map.mp hd'
        refine .inl ⟨d, hd, ?_⟩
        split
        · exact ⟨rfl, (hdeleted d).symm⟩
        · exact ⟨rfl, rfl⟩
  · rw [hsame]
    exact .refl _

theorem Grows.applyAll (h : postgres.applyAll ws db = some db') (hws : ∀ w ∈ ws, KeepsNames w) :
    Grows db.configurations db'.configurations :=
  postgres.applyAll_preserves (P := fun d => Grows db.configurations d.configurations)
    (fun w hw _ _ happly hgrows => hgrows.trans (.apply happly (hws w hw))) h (.refl _)

/-- A flush that inserts a draft. -/
theorem Grows.insert {c : Configuration}
    (h : postgres.applyAll [.configuration (.insert c)] db = some db')
    (hmin : 2 ≤ c.name.toList.length) (hmax : c.name.toList.length ≤ 120)
    (hlive : c.deletedAt = none) : Grows db.configurations db'.configurations := by
  apply Grows.applyAll h
  intro w hw
  rw [List.mem_singleton.mp hw]
  exact ⟨hmin, hmax, hlive⟩

theorem keepsNames_save {old new : Configuration} (h : new.deletedAt = old.deletedAt) :
    ∀ w ∈ saveConfiguration old new, KeepsNames w := by
  intro w hw
  unfold saveConfiguration at hw
  split at hw
  · nomatch hw
  · rw [List.mem_singleton.mp hw]
    simp [KeepsNames, Configuration.diff, changed, h]

theorem keepsNames_archiveCurrent {env : ConfigurationEnv} {id : Uuid}
    {current : Option Configuration} : ∀ w ∈ archiveCurrent env id current, KeepsNames w := by
  intro w hw
  unfold archiveCurrent at hw
  split at hw
  · nomatch hw
  · split at hw
    · nomatch hw
    · exact keepsNames_save (by rfl) w hw

theorem keepsNames_activation {env : ConfigurationEnv} {t : Configurations}
    {config : Configuration} : ∀ w ∈ activationStatements env t config, KeepsNames w := by
  intro w hw
  rcases List.mem_append.mp hw with hw | hw
  · exact keepsNames_archiveCurrent w hw
  · exact keepsNames_save (by rfl) w hw

end

section

variable {crypto : AuditCrypto} {db : Db} {n : ℕ}

/-- The postcondition of an operation that deletes no row. -/
abbrev Growing (db : Db) {α : Type} (_ : Except ServiceError α) (durable _ : Db) (_ : ℕ) : Prop :=
  Grows db.configurations durable.configurations

theorem createConfiguration_grows (env : ConfigurationEnv) (payload : ConfigurationCreate)
    (createdBy : String) :
    (createConfiguration crypto env payload createdBy).wp postgres (Growing db) db db n := by
  apply (Request.wp_bind ..).mpr
  rw [Request.wp_select]
  apply (Request.wp_bind ..).mpr
  rw [wp_ensure]
  refine ⟨fun _ => .refl _, fun _ => ?_⟩
  apply (Request.wp_bind ..).mpr
  apply ensureValid_wp (fun _ => .refl _)
  apply (Request.wp_bind ..).mpr
  rw [Request.wp_send]
  refine ⟨fun _ => .refl _, fun work hwork => ?_⟩
  apply Request.wp_commitTransaction_bind
  exact refreshed_wp fun _ => .insert hwork payload.name_min payload.name_max rfl

theorem createSuccessorVersion_grows (hnamed : Named db.configurations)
    (hfits : Fits db.configurations) (env : ConfigurationEnv) (configId : Uuid)
    (payload : ConfigurationUpdate) (createdBy : String) :
    (createSuccessorVersion crypto env configId payload createdBy).wp postgres (Growing db)
      db db n := by
  apply (Request.wp_bind ..).mpr
  apply getConfigurationOrm_wp (fun _ => .refl _)
  intro base hbase _ _
  apply (Request.wp_bind ..).mpr
  apply ensureValid_wp (fun _ => .refl _)
  apply (Request.wp_bind ..).mpr
  rw [nextVersion, Request.wp_select]
  apply (Request.wp_bind ..).mpr
  rw [Request.wp_send]
  refine ⟨fun _ => .refl _, fun work hwork => ?_⟩
  apply Request.wp_commitTransaction_bind
  exact refreshed_wp fun _ => .insert hwork (hnamed base hbase) (hfits.name base hbase) rfl

/-- The rule of the import loop. -/
theorem importItems_grows (env : ConfigurationEnv) (createdBy : String)
    (items : List ConfigurationImportItem)
    {post : Except ServiceError ConfigurationImportResponse → Db → Db → ℕ → Prop}
    {durable work : Db} {k m : ℕ} (hwork : Grows db.configurations work.configurations)
    (failed : ∀ error work' m', post (.error error) durable work' m')
    (imported : ∀ response work' m', Grows db.configurations work'.configurations →
      post (.ok response) durable work' m') :
    (importItems crypto env createdBy k items).wp postgres post durable work m := by
  induction items generalizing work k m post with
  | nil => exact Request.wp_return (imported _ _ _ hwork)
  | cons item items ih =>
    rw [importItems, Request.wp_ite]
    constructor
    · intro _
      apply (Request.wp_bind ..).mpr
      exact ih hwork failed fun _ _ _ hgrows => Request.wp_return (imported _ _ _ hgrows)
    · intro _
      apply (Request.wp_bind ..).mpr
      rw [nextVersion, Request.wp_select]
      apply (Request.wp_bind ..).mpr
      rw [Request.wp_send]
      refine ⟨fun _ => failed _ _ _, fun mid hmid => ?_⟩
      have hgrows : Grows db.configurations mid.configurations :=
        hwork.trans (.insert hmid item.name_min item.name_max rfl)
      apply (Request.wp_bind ..).mpr
      exact ih hgrows failed fun _ _ _ hgrows => Request.wp_return (imported _ _ _ hgrows)

theorem importConfigurations_grows (env : ConfigurationEnv) (req : ConfigurationImportRequest)
    (createdBy : String) :
    (importConfigurations crypto env req createdBy).wp postgres (Growing db) db db n := by
  apply (Request.wp_bind ..).mpr
  apply importItems_grows env createdBy req.items (.refl db.configurations)
  · exact fun _ _ _ => .refl _
  · exact fun _ _ _ hgrows => Request.wp_commitTransaction_bind (Request.wp_return hgrows)

end

/-- The requests that delete no row. -/
def deletesNone : ConfigurationRequest → Bool
  | .delete .. => false
  | _ => true

section

variable {crypto : AuditCrypto} {s : Store Db}

/-- The step lemma of the requests that delete no row. -/
theorem Grows.exec (hnamed : Named s.db.configurations) (hfits : Fits s.db.configurations)
    {r : ConfigurationRequest} (hr : deletesNone r = true) :
    Grows s.db.configurations (s.exec postgres (r.request crypto)).db.configurations := by
  -- the requests with a plan of their own
  have planned : (∀ ws as, ConfigurationPlan s.db.configurations r ws as →
      ∀ w ∈ ws, KeepsNames w) →
      Grows s.db.configurations (s.exec postgres (r.request crypto)).db.configurations := by
    intro hplan
    have hends : (r.request crypto).wp postgres (Ends crypto
        (ConfigurationPlan s.db.configurations r) s.db s.sequence) s.db s.db s.sequence :=
      request_ends r
    rcases exec_of_ends s hends with ⟨hdb, -⟩ | ⟨ws, as, hws, hperformed⟩
    · rw [hdb]
      exact .refl _
    · obtain ⟨mid, rows, happly, -, hdb⟩ := hperformed.outcome
      have hgrows : Grows s.db.configurations mid.configurations :=
        .applyAll happly (hplan ws as hws)
      rw [hdb]
      exact hgrows
  cases r with
  | create env payload createdBy =>
    exact Store.exec_sound (P := fun db _ => Grows s.db.configurations db.configurations) s
      (Request.wp_answer (createConfiguration_grows env payload createdBy))
  | createSuccessor env id payload createdBy =>
    exact Store.exec_sound (P := fun db _ => Grows s.db.configurations db.configurations) s
      (Request.wp_answer (createSuccessorVersion_grows hnamed hfits env id payload createdBy))
  | importAll env req createdBy =>
    exact Store.exec_sound (P := fun db _ => Grows s.db.configurations db.configurations) s
      (Request.wp_answer (importConfigurations_grows env req createdBy))
  | activate env id actor =>
    apply planned
    intro ws as hplan
    cases hplan with
    | inserted isInsert => nomatch isInsert
    | activated => exact keepsNames_activation
  | archive env id =>
    apply planned
    intro ws as hplan
    cases hplan with
    | inserted isInsert => nomatch isInsert
    | archived => exact keepsNames_save (by rfl)
  | rollback env id actor =>
    apply planned
    intro ws as hplan
    cases hplan with
    | inserted isInsert => nomatch isInsert
    | @rolledBack _ base _ _ isBase isCopy =>
      have hmin : 2 ≤ base.name.toList.length := hnamed base isBase
      intro w hw
      rcases List.mem_cons.mp hw with rfl | hw
      · rw [isCopy]
        exact ⟨hmin, hfits.name base isBase, rfl⟩
      · exact keepsNames_activation w hw
  | delete env id => nomatch hr

/-! ## Deletions -/

/-- A row that may be deleted is. -/
theorem deleteConfiguration_deletes (env : ConfigurationEnv) {c : Configuration}
    (hc : c ∈ s.db.configurations.rows) (hlive : c.deletedAt = none)
    (hstatus : c.status ≠ .active) :
    (s.exec postgres (deleteConfiguration env c.id)).db.configurations.rows =
      s.db.configurations.rows.map fun d =>
        if d.id = c.id then deletedConfiguration env c else d := by
  obtain ⟨configurations, happly, hrows⟩ := saveConfiguration_applies c
    (deletedConfiguration env c) hc rfl rfl
  refine Store.exec_sound (P := fun db _ => db.configurations.rows = _) s ?_
  apply (Request.wp_bind ..).mpr
  apply getConfigurationOrm_loads hc hlive
  apply (Request.wp_bind ..).mpr
  rw [wp_ensure]
  constructor
  · intro hactive
    exact absurd hstatus hactive
  · intro _
    apply (Request.wp_bind ..).mpr
    apply Request.wp_send_of_some happly
    exact Request.wp_commitTransaction hrows

/-- The row that a deletion finds. -/
def Deletable (t : Configurations) (configId : Uuid) (c : Configuration) : Prop :=
  c ∈ t.rows ∧ c.id = configId ∧ c.deletedAt = none ∧ c.status ≠ .active

/-- The step lemma of deletions. -/
theorem delete_cases (env : ConfigurationEnv) (configId : Uuid) :
    ((¬ ∃ c, Deletable s.db.configurations configId c) ∧
      (s.exec postgres (deleteConfiguration env configId)).db.configurations =
        s.db.configurations) ∨
      ∃ c, Deletable s.db.configurations configId c ∧
        (s.exec postgres (deleteConfiguration env configId)).db.configurations.rows =
          s.db.configurations.rows.map fun d =>
            if d.id = c.id then deletedConfiguration env c else d := by
  by_cases hgoes : ∃ c, Deletable s.db.configurations configId c
  · obtain ⟨c, hc⟩ := hgoes
    obtain ⟨hmem, rfl, hlive, hstatus⟩ := hc
    exact .inr ⟨c, ⟨hmem, rfl, hlive, hstatus⟩, deleteConfiguration_deletes env hmem hlive hstatus⟩
  · refine .inl ⟨hgoes, ?_⟩
    refine Store.exec_sound (P := fun db _ => db.configurations = s.db.configurations) s ?_
    apply (Request.wp_bind ..).mpr
    apply getConfigurationOrm_wp
    · exact fun _ => rfl
    · intro c hc hid hlive
      apply (Request.wp_bind ..).mpr
      rw [wp_ensure]
      exact ⟨fun _ => rfl, fun hstatus => absurd ⟨c, hc, hid, hlive, hstatus⟩ hgoes⟩

/-- The step lemma: names stay long enough. -/
theorem Named.exec (h : Named s.db.configurations) (hfits : Fits s.db.configurations)
    (r : ConfigurationRequest) :
    Named (s.exec postgres (r.request crypto)).db.configurations := by
  by_cases hr : deletesNone r = true
  · exact (Grows.exec h hfits hr).named h
  · cases r with
    | delete env configId =>
      rcases delete_cases (s := s) env configId with ⟨-, hsame⟩ | ⟨c, hc, hrows⟩
      · change Named (s.exec postgres (deleteConfiguration env configId)).db.configurations
        rw [hsame]
        exact h
      · intro d' hd'
        change d' ∈ (s.exec postgres (deleteConfiguration env configId)).db.configurations.rows
          at hd'
        rw [hrows] at hd'
        obtain ⟨d, hd, rfl⟩ := List.mem_map.mp hd'
        split
        · exact h c hc.1
        · exact h d hd
    | _ => exact absurd rfl hr

/-- After a deletion that goes through every name has a row that is not deleted exactly where
another row of the name was left, provided that every name had one. -/
theorem allLive_delete_iff {t' : Configurations} (h : AllLive s.db.configurations)
    {c : Configuration} (hc : c ∈ s.db.configurations.rows) {env : ConfigurationEnv}
    (hrows : t'.rows = s.db.configurations.rows.map fun d =>
      if d.id = c.id then deletedConfiguration env c else d) :
    AllLive t' ↔
      ∃ d ∈ s.db.configurations.rows, d.id ≠ c.id ∧ d.name = c.name ∧ d.deletedAt = none := by
  constructor
  · intro hafter
    have hmem : deletedConfiguration env c ∈ t'.rows := by
      rw [hrows, List.mem_map]
      exact ⟨c, hc, if_pos rfl⟩
    obtain ⟨d', hd', hname, hlive⟩ := hafter _ hmem
    rw [hrows] at hd'
    obtain ⟨d, hd, rfl⟩ := List.mem_map.mp hd'
    by_cases hid : d.id = c.id
    · rw [if_pos hid] at hlive
      nomatch hlive
    · rw [if_neg hid] at hname hlive
      exact ⟨d, hd, hid, hname, hlive⟩
  · rintro ⟨e, he, heid, hename, helive⟩ d' hd'
    have hstays : e ∈ t'.rows := by
      rw [hrows, List.mem_map]
      exact ⟨e, he, if_neg heid⟩
    rw [hrows] at hd'
    obtain ⟨d, hd, rfl⟩ := List.mem_map.mp hd'
    by_cases hid : d.id = c.id
    · rw [if_pos hid]
      exact ⟨e, hstays, hename, helive⟩
    · rw [if_neg hid]
      obtain ⟨f, hf, hfname, hflive⟩ := h d hd
      by_cases hfid : f.id = c.id
      · obtain rfl := s.db.configurations.eq_of_key_eq hf hc hfid
        exact ⟨e, hstays, hename.trans hfname, helive⟩
      · refine ⟨f, ?_, hfname, hflive⟩
        rw [hrows, List.mem_map]
        exact ⟨f, hf, if_neg hfid⟩

/-- The step lemma: a request leaves every name a row that is not deleted exactly where it is not
the deletion of the last one. -/
theorem allLive_exec_iff (h : AllLive s.db.configurations) (hnamed : Named s.db.configurations)
    (hfits : Fits s.db.configurations) (r : ConfigurationRequest) :
    AllLive (s.exec postgres (r.request crypto)).db.configurations ↔
      LeavesVersion s.db.configurations r := by
  by_cases hr : deletesNone r = true
  · have hlive : AllLive (s.exec postgres (r.request crypto)).db.configurations :=
      (Grows.exec hnamed hfits hr).allLive h
    refine ⟨fun _ => ?_, fun _ => hlive⟩
    cases r with
    | delete => nomatch hr
    | _ => trivial
  · cases r with
    | delete env configId =>
      change AllLive (s.exec postgres (deleteConfiguration env configId)).db.configurations ↔ _
      rcases delete_cases (s := s) env configId with ⟨hnone, hsame⟩ | ⟨c, hdeletable, hrows⟩
      · rw [hsame]
        refine ⟨fun _ c hc hid hlive hstatus => ?_, fun _ => h⟩
        exact absurd ⟨c, hc, hid, hlive, hstatus⟩ hnone
      · obtain ⟨hc, rfl, hlive, hstatus⟩ := hdeletable
        rw [allLive_delete_iff h hc hrows]
        constructor
        · intro hleft d hd hid _ _
          obtain rfl := s.db.configurations.eq_of_key_eq hd hc hid
          exact hleft
        · intro hleaves
          exact hleaves c hc rfl hlive hstatus
    | _ => exact absurd rfl hr

end

/-! ## Runs -/

section

variable {crypto : AuditCrypto} {s : Store Db}

/-- The run lemma of the names. -/
theorem named_execAll (hempty : s.db.configurations.rows = []) (rs : List ConfigurationRequest) :
    Named (execAll crypto s rs).db.configurations ∧
      Fits (execAll crypto s rs).db.configurations := by
  have hstart : Named s.db.configurations ∧ Fits s.db.configurations := by
    refine ⟨fun c hc => ?_, fits_of_empty hempty⟩
    rw [hempty] at hc
    nomatch hc
  refine Store.execAll_preserves (Q := fun _ _ => True)
    (P := fun s' : Store Db => (Named s'.db.configurations ∧ Fits s'.db.configurations) ∧
      Lifecycle s'.db.configurations) ⟨hstart, lifecycle_of_empty hempty⟩
    (fun _ _ _ _ => trivial) (fun s' r _ h => ?_) |>.1
  have hsteps : Steps crypto s'.db.configurations
      (s'.exec postgres (r.request crypto)).db.configurations := exec_steps s' h.2 h.1.2 r
  exact ⟨⟨h.1.1.exec h.1.2 r, hsteps.fits h.1.2⟩, hsteps.lifecycle h.2⟩

theorem execAll_concat (rs : List ConfigurationRequest) (r : ConfigurationRequest) :
    execAll crypto s (rs ++ [r]) = (execAll crypto s rs).exec postgres (r.request crypto) :=
  Store.execAll_concat postgres (ConfigurationRequest.request crypto) s rs r

/-- In every state of a run every name has a row that is not deleted exactly where no request
deletes the last one. -/
theorem allLive_execAll_iff (hempty : s.db.configurations.rows = [])
    (rs : List ConfigurationRequest) :
    (∀ before after, rs = before ++ after → AllLive (execAll crypto s before).db.configurations) ↔
      ∀ before r after, rs = before ++ r :: after →
        LeavesVersion (execAll crypto s before).db.configurations r := by
  constructor
  · intro h before r after heq
    obtain ⟨hnamed, hfits⟩ : Named (execAll crypto s before).db.configurations ∧
        Fits (execAll crypto s before).db.configurations := named_execAll hempty before
    have hnext : AllLive (execAll crypto s (before ++ [r])).db.configurations :=
      h (before ++ [r]) after (by rw [heq, List.append_assoc]; rfl)
    rw [execAll_concat] at hnext
    exact (allLive_exec_iff (h before (r :: after) heq) hnamed hfits r).mp hnext
  · intro h before
    induction before using List.reverseRecOn with
    | nil =>
      intro after _ c hc
      rw [execAll, List.map_nil, Store.execAll_nil, hempty] at hc
      cases hc
    | append_singleton before r ih =>
      intro after heq
      have heq' : rs = before ++ r :: after := by rw [heq, List.append_assoc]; rfl
      obtain ⟨hnamed, hfits⟩ : Named (execAll crypto s before).db.configurations ∧
          Fits (execAll crypto s before).db.configurations := named_execAll hempty before
      rw [execAll_concat]
      exact (allLive_exec_iff (ih (r :: after) heq') hnamed hfits r).mpr (h before r after heq')

/-- In every run from an empty table no name is stuck in any state exactly where every deletion
leaves a row of its name, and no name uses up its numbers. -/
theorem no_name_stuck_iff (hempty : s.db.configurations.rows = [])
    (hdigest : ∀ bs, (crypto.sha256 bs).length = 32) (rs : List ConfigurationRequest) :
    (∀ before after, rs = before ++ after → NoNameStuck crypto (execAll crypto s before)) ↔
      (∀ before r after, rs = before ++ r :: after →
        LeavesVersion (execAll crypto s before).db.configurations r) ∧
      ∀ before after, rs = before ++ after →
        Roomy (execAll crypto s before).db.configurations := by
  have hstate : ∀ before, NoNameStuck crypto (execAll crypto s before) ↔
      AllLive (execAll crypto s before).db.configurations ∧
        Roomy (execAll crypto s before).db.configurations := fun before =>
    noNameStuck_iff hdigest (storable_execAll hempty before) (named_execAll hempty before).1
  rw [← allLive_execAll_iff hempty]
  constructor
  · intro h
    exact ⟨fun before after heq => ((hstate before).mp (h before after heq)).1,
      fun before after heq => ((hstate before).mp (h before after heq)).2⟩
  · rintro ⟨hlive, hroomy⟩ before after heq
    exact (hstate before).mpr ⟨hlive before after heq, hroomy before after heq⟩

end

/-! ## A run -/

/-- Two versions of one document, of which the first is deleted. -/
def sampleVersions : List ConfigurationRequest :=
  sampleRun.take 2 ++ [.delete (sampleConfigurationEnv 3) 10]

instance (t : Configurations) : Decidable (Roomy t) :=
  inferInstanceAs (Decidable (∀ c ∈ t.rows, _))

theorem no_name_stuck_sample :
    NoNameStuck sha256Crypto (execAll sha256Crypto ⟨emptyDb, 1⟩ sampleVersions) := by
  have hroomy : ∀ before ∈ sampleVersions.inits,
      Roomy (execAll sha256Crypto ⟨emptyDb, 1⟩ before).db.configurations := by
    decide +kernel
  have hleft : ∀ c ∈ (execAll sha256Crypto ⟨emptyDb, 1⟩ (sampleRun.take 2)).db.configurations.rows,
      c.id = 10 → c.deletedAt = none → c.status ≠ .active →
      ∃ d ∈ (execAll sha256Crypto ⟨emptyDb, 1⟩ (sampleRun.take 2)).db.configurations.rows,
        d.id ≠ 10 ∧ d.name = c.name ∧ d.deletedAt = none := by
    decide +kernel
  apply (no_name_stuck_iff (s := ⟨emptyDb, 1⟩) rfl Sha256.length_sha256 sampleVersions).mpr _
    sampleVersions [] (List.append_nil sampleVersions).symm
  constructor
  · intro before r after heq
    -- only the third request is a deletion
    rcases before with _ | ⟨r₁, _ | ⟨r₂, _ | ⟨r₃, before⟩⟩⟩
    · simp only [sampleVersions, sampleRun, List.take_succ_cons, List.cons_append, List.nil_append,
        List.cons.injEq] at heq
      rw [← heq.1]
      trivial
    · simp only [sampleVersions, sampleRun, List.take_succ_cons, List.cons_append, List.nil_append,
        List.cons.injEq] at heq
      rw [← heq.2.1]
      trivial
    · simp only [sampleVersions, sampleRun, List.take_succ_cons, List.take_zero, List.cons_append,
        List.nil_append, List.cons.injEq] at heq
      obtain ⟨rfl, rfl, rfl, -⟩ := heq
      exact hleft
    · simp [sampleVersions, sampleRun] at heq
  · intro before after heq
    exact hroomy before (List.mem_inits before sampleVersions |>.mpr ⟨after, heq.symm⟩)

/-- One version of a document, which is deleted. -/
def deletedVersion : Store Db :=
  execAll sha256Crypto ⟨emptyDb, 1⟩
    (sampleRun.take 1 ++ [.delete (sampleConfigurationEnv 2) 10])

/-- The name of a deleted document is refused because it exists, and no update of any row is
answered with a version. -/
theorem deleted_name_stuck :
    ¬ NoNameStuck sha256Crypto deletedVersion ∧
      ((createConfiguration sha256Crypto (sampleConfigurationEnv 3)
        (sampleDocument "limits" "limit" limits_length) "admin@example.com").serial postgres
        deletedVersion.db deletedVersion.db deletedVersion.sequence).result =
          .error (alreadyExists "limits") ∧
      ∀ c ∈ deletedVersion.db.configurations.rows, ∀ env payload createdBy,
        ((createSuccessorVersion sha256Crypto env c.id payload createdBy).serial postgres
          deletedVersion.db deletedVersion.db deletedVersion.sequence).result =
            .error (.http 404 "Configuration not found") := by
  have hrows : (∃ c ∈ deletedVersion.db.configurations.rows, c.name = "limits") ∧
      ∀ c ∈ deletedVersion.db.configurations.rows, c.deletedAt ≠ none := by
    decide +kernel
  obtain ⟨hexists, hdeleted⟩ := hrows
  have hrefused : ((createConfiguration sha256Crypto (sampleConfigurationEnv 3)
      (sampleDocument "limits" "limit" limits_length) "admin@example.com").serial postgres
      deletedVersion.db deletedVersion.db deletedVersion.sequence).result =
        .error (alreadyExists "limits") :=
    (createConfiguration_exists_iff (s := deletedVersion) (sampleConfigurationEnv 3)
      (sampleDocument "limits" "limit" limits_length) "admin@example.com").mpr hexists
  refine ⟨fun hnone => ?_, hrefused, fun c hc env payload createdBy => ?_⟩
  · obtain ⟨base, hbase, -, htakes⟩ := hnone _ _ _ hrefused
    exact hdeleted base hbase (htakes.live hbase).1
  · exact createSuccessorVersion_deleted hc (hdeleted c hc) env payload createdBy

end NexusEngine.ConfigurationNames
