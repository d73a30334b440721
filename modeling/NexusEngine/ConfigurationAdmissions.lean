import NexusEngine.ConfigurationRollback
import NexusEngine.HsmAdmissions

/-!
# Configurations that are taken

A new name with a valid payload is stored, and a version is activated, where the columns take the
name of the caller.
-/

namespace NexusEngine.ConfigurationAdmissions

open TransactionalRequests JsonDocuments StoredColumns KeyedTables ConfigurationTable TenancyTables
  Database AuditService AuditAppends AuditedTransactions AuditAdmissions ConfigurationService
  ConfigurationDocuments
open HsmAdmissions (LogTakes append_answers)
open ConfigurationRollback (saveConfiguration_accepts)

/-! ## New configurations -/

/-- What a new configuration relies on. -/
structure Creatable (crypto : AuditCrypto) (env : ConfigurationEnv) (payload : ConfigurationCreate)
    (s : Store Db) : Prop where
  free : ∀ c ∈ s.db.configurations.rows, c.name ≠ payload.name
  valid : validatePayload payload.payload payload.sensitiveKeys = []
  standard : isStandard (.obj payload.payload) = true
  name : text payload.name = some payload.name
  description : ∀ d, payload.description = some d → text d = some d
  fresh : ∀ c ∈ s.db.configurations.rows, c.id ≠ env.uuid4 0
  sha256_length : ∀ bs, (crypto.sha256 bs).length = 32

section

variable {crypto : AuditCrypto} {env : ConfigurationEnv} {payload : ConfigurationCreate}
  {actor : String} {s : Store Db}

theorem maxVersion_of_free {t : Configurations} {name : String}
    (h : ∀ c ∈ t.rows, c.name ≠ name) : maxVersion t name = 0 := by
  have hnone : (t.rows.filter fun c => c.name = name) = [] := by
    apply List.filter_eq_nil_iff.mpr
    intro c hc
    simpa using h c hc
  rw [maxVersion, hnone]
  rfl

theorem description_stored (h : Creatable crypto env payload s) :
    nullable (varchar 255) payload.description = some payload.description := by
  cases hgiven : payload.description with
  | none => rfl
  | some d =>
    rw [nullable, varchar_of_text (h.description d hgiven) (payload.description_max d hgiven),
      Option.map_some]

/-- A configuration of a new name is stored. -/
theorem createConfiguration_answered (h : Creatable crypto env payload s)
    (hactor : (varchar 120 actor).isSome) :
    Answered (createConfiguration crypto env payload actor) s := by
  obtain ⟨createdBy, hcreatedBy⟩ := Option.isSome_iff_exists.mp hactor
  let config := draft crypto env 0 payload.name 1 payload.payload payload.sensitiveKeys
    payload.description actor
  have hname : varchar 120 config.name = some config.name :=
    varchar_of_text h.name payload.name_max
  have hnone : maxVersion s.db.configurations config.name = 0 := maxVersion_of_free h.free
  have hversion : config.version = maxVersion s.db.configurations config.name + 1 := by
    rw [hnone]
    rfl
  have hroom : maxVersion s.db.configurations config.name < maxInteger := by
    rw [hnone]
    decide
  obtain ⟨inserted, hinsert, hrows⟩ := insertConfiguration_next hname h.standard
    (payloadChecksum_fits h.sha256_length _) (description_stored h) hcreatedBy hversion hroom h.fresh
  have hsent : postgres.applyAll [.configuration (.insert config)] s.db =
      some { s.db with configurations := inserted } := by
    rw [StatementSemantics.applyAll_singleton]
    exact apply_configuration.mpr ⟨inserted, hinsert, rfl⟩
  obtain ⟨row, hrow, hid⟩ : ∃ row ∈ inserted.rows, row.id = config.id := by
    rw [hrows]
    exact ⟨_, List.mem_append_right _ (List.mem_singleton_self _), rfl⟩
  apply answered_of_wp
  apply (Request.wp_bind ..).mpr
  rw [Request.wp_select]
  apply (Request.wp_bind ..).mpr
  apply ensure_answers (by simpa using h.free)
  apply (Request.wp_bind ..).mpr
  apply ensure_answers h.valid
  apply (Request.wp_bind ..).mpr
  apply Request.wp_send_of_some hsent
  apply Request.wp_commitTransaction_bind
  show (refreshed config.id).wp _ _ _ _ _
  rw [← hid]
  exact refreshed_loads hrow ⟨_, rfl⟩

end

/-! ## Activations -/

def activationEntry (config : Configuration) (actor : String) : AuditLogEntryCreate :=
  configurationEntry actor "CONFIGURATION_ACTIVATED"
    ("Configuration '" ++ config.name ++ "' v" ++ natText config.version ++ " activated")
    [("name", .str config.name), ("version", .int config.version),
      ("checksum", .str config.checksum)]

/-- What the activation of a version relies on. -/
structure Activatable (crypto : AuditCrypto) (env : ConfigurationEnv) (config : Configuration)
    (actor : String) (s : Store Db) : Prop where
  isConfiguration : config ∈ s.db.configurations.rows
  live : config.deletedAt = none
  inactive : config.status ≠ .active
  name : text config.name = some config.name
  log : LogTakes crypto s (env.audit, activationEntry config actor)

section

variable {crypto : AuditCrypto} {env : ConfigurationEnv} {config : Configuration} {actor : String}
  {s : Store Db}

/-- The active version, if there is one, makes room. -/
theorem archiveCurrent_accepts (env : ConfigurationEnv) (configId : Uuid) {current : Option Configuration} {db : Db}
    (hcurrent : ∀ c, current = some c → c ∈ db.configurations.rows) :
    ∃ configurations, postgres.applyAll (archiveCurrent env configId current) db =
        some { db with configurations := configurations } ∧
      configurations.rows.map Configuration.id = db.configurations.rows.map Configuration.id := by
  cases current with
  | none => exact ⟨db.configurations, rfl, rfl⟩
  | some c =>
    rw [archiveCurrent]
    split
    · exact ⟨db.configurations, rfl, rfl⟩
    · exact saveConfiguration_accepts _ (List.mem_map_of_mem (hcurrent c rfl))

theorem activationEntry_acceptable {tenants : List Tenant}
    (hname : text config.name = some config.name) (hactor : (varchar 120 actor).isSome)
    (hsigningKey : (varchar 60 crypto.signingKeyId).isSome) :
    Acceptable crypto tenants (activationEntry config actor) where
  columns := {
    severity := rfl
    eventType := rfl
    eventSubtype := by
      change (varchar 60 "CONFIGURATION_ACTIVATED").isSome = true
      decide
    tenantSlug := rfl
    actor := hactor
    sourceIp := rfl
    description := by
      have htext : text ("Configuration '" ++ config.name ++ "' v" ++ natText config.version ++
          " activated") = some _ :=
        text_append (text_append (text_append (text_append rfl hname) rfl) (text_natText _)) rfl
      exact Option.isSome_iff_exists.mpr ⟨_, htext⟩
    metadataJson := rfl
    prevHash := rfl
    signingKeyId := hsigningKey }
  tenant := rfl

/-- A version that is not active is activated. -/
theorem activateConfiguration_answered (h : Activatable crypto env config actor s)
    (hactor : (varchar 120 actor).isSome) :
    Answered (activateConfiguration crypto env config.id actor) s := by
  have hcurrent : ∀ c, (s.db.configurations.rows.filter (isActive config.name)).argmax
      Configuration.version = some c → c ∈ s.db.configurations.rows := by
    intro c hc
    exact List.mem_of_mem_filter (List.argmax_mem hc)
  obtain ⟨archived, harchive, hids⟩ := archiveCurrent_accepts env config.id hcurrent
  let mid : Db := { s.db with configurations := archived }
  have hold : config.id ∈ mid.configurations.rows.map Configuration.id :=
    hids ▸ List.mem_map_of_mem h.isConfiguration
  obtain ⟨activated, hactivate, hids'⟩ :=
    saveConfiguration_accepts (activatedConfiguration env config) hold
  have hsent : postgres.applyAll (archiveCurrent env config.id
        ((s.db.configurations.rows.filter (isActive config.name)).argmax Configuration.version) ++
      saveConfiguration config (activatedConfiguration env config)) s.db =
        some { s.db with configurations := activated } := by
    rw [StatementSemantics.applyAll_append, harchive]
    exact hactivate
  obtain ⟨row, hrow, hid⟩ : ∃ row ∈ activated.rows, row.id = config.id :=
    List.mem_map.mp (hids' ▸ hold)
  apply answered_of_wp
  apply (Request.wp_bind ..).mpr
  apply getConfigurationOrm_loads h.isConfiguration h.live
  apply (Request.wp_bind ..).mpr
  apply ensure_answers h.inactive
  apply (Request.wp_bind ..).mpr
  rw [activeConfiguration, Request.wp_select]
  apply (Request.wp_bind ..).mpr
  apply append_answers h.log (activationEntry_acceptable h.name hactor h.log.signingKeyId)
    ⟨rfl, rfl⟩ le_rfl hsent ⟨rfl, rfl⟩
  intro entry
  apply Request.wp_commitTransaction_bind
  rw [← hid]
  exact refreshed_loads hrow ⟨_, rfl⟩

end

end NexusEngine.ConfigurationAdmissions
