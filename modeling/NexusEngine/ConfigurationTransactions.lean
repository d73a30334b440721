import NexusEngine.ConfigurationLifecycle
import NexusEngine.AuditedTransactions

/-!
# The transactions of the configuration service

Each operation fails and leaves the database, or it passes its guards and performs one plan. An
activation and a rollback append an entry. The other operations append none.
-/

namespace NexusEngine.ConfigurationTransactions

open TransactionalRequests StoredColumns JsonDocuments KeyedTables ConfigurationTable Database
  AuditService AuditAppends AuditedTransactions ConfigurationService ConfigurationLifecycle

/-- The active version of a name that a query finds. -/
def activeVersion (t : Configurations) (name : String) : Option Configuration :=
  (t.rows.filter (isActive name)).argmax Configuration.version

def activationEntry (config : Configuration) (actor : String) : AuditLogEntryCreate :=
  configurationEntry actor "CONFIGURATION_ACTIVATED"
    ("Configuration '" ++ config.name ++ "' v" ++ natText config.version ++ " activated")
    [("name", .str config.name), ("version", .int config.version),
      ("checksum", .str config.checksum)]

def rollbackEntry (base : Configuration) (version : ℕ) (actor : String) : AuditLogEntryCreate :=
  configurationEntry actor "CONFIGURATION_ROLLED_BACK"
    ("Configuration '" ++ base.name ++ "' rolled back to v" ++ natText base.version ++
      " (activated as v" ++ natText version ++ ")")
    [("name", .str base.name), ("restored_from_version", .int base.version),
      ("new_version", .int version)]

/-- The statements that make a loaded version the active one. -/
def activationStatements (env : ConfigurationEnv) (t : Configurations) (config : Configuration) :
    List Statement :=
  archiveCurrent env config.id (activeVersion t config.name) ++
    saveConfiguration config (activatedConfiguration env config)

def inserts (cs : List Configuration) : List Statement :=
  cs.map fun c => .configuration (.insert c)

/-- The requests that only insert drafts. -/
def insertsDrafts : ConfigurationRequest → Bool
  | .create .. => true
  | .createSuccessor .. => true
  | .importAll .. => true
  | _ => false

/-- What a request sends and appends where it passes its guards. -/
inductive ConfigurationPlan (t : Configurations) :
    ConfigurationRequest → List Statement → List Append → Prop where
  | inserted {r : ConfigurationRequest} {cs : List Configuration} (isInsert : insertsDrafts r = true)
      (drafts : ∀ c ∈ cs, c.status = .draft) :
      ConfigurationPlan t r (inserts cs) []
  | activated {env : ConfigurationEnv} {config : Configuration} {actor : String}
      (isConfig : config ∈ t.rows) (notDeleted : config.deletedAt = none)
      (notActive : config.status ≠ .active) :
      ConfigurationPlan t (.activate env config.id actor)
        (activationStatements env t config) [(env.audit, activationEntry config actor)]
  | archived {env : ConfigurationEnv} {config : Configuration} (isConfig : config ∈ t.rows)
      (notDeleted : config.deletedAt = none) :
      ConfigurationPlan t (.archive env config.id)
        (saveConfiguration config (archivedConfiguration env config)) []
  | rolledBack {env : ConfigurationEnv} {base config : Configuration} {actor : String}
      (isBase : base ∈ t.rows)
      (isCopy : config = rollbackCopy env base (maxVersion t base.name + 1) actor) :
      ConfigurationPlan t (.rollback env base.id actor)
        (.configuration (.insert config) :: activationStatements env t config)
        [(env.audit, rollbackEntry base config.version actor)]
  | deleted {env : ConfigurationEnv} {config : Configuration} (isConfig : config ∈ t.rows)
      (notActive : config.status ≠ .active) :
      ConfigurationPlan t (.delete env config.id)
        (saveConfiguration config (deletedConfiguration env config)) []

/-! ## Statements -/

theorem domain_saveConfiguration {old new : Configuration} : Domain (saveConfiguration old new) := by
  unfold saveConfiguration
  split
  · exact domain_nil
  · exact domain_singleton rfl

theorem domain_archiveCurrent {env : ConfigurationEnv} {id : Uuid}
    {current : Option Configuration} : Domain (archiveCurrent env id current) := by
  unfold archiveCurrent
  split
  · exact domain_nil
  · split
    · exact domain_nil
    · exact domain_saveConfiguration

theorem domain_activation {env : ConfigurationEnv} {t : Configurations} {config : Configuration} :
    Domain (activationStatements env t config) :=
  domain_append.mpr ⟨domain_archiveCurrent, domain_saveConfiguration⟩

theorem inserts_concat (cs : List Configuration) (c : Configuration) :
    inserts (cs ++ [c]) = inserts cs ++ [.configuration (.insert c)] := List.map_append

/-- A draft that was inserted is not the active version. -/
theorem activeVersion_insert {c : Configuration} {db db' : Db}
    (h : postgres.applyAll [.configuration (.insert c)] db = some db') (draft : c.status = .draft)
    (name : String) :
    activeVersion db'.configurations name = activeVersion db.configurations name := by
  obtain ⟨configurations, hinsert, rfl⟩ := applyAll_configuration_singleton h
  obtain ⟨row, hstored, hrows⟩ := insertConfiguration_eq_some hinsert
  have hdraft : row.status = .draft := by rw [hstored.rest, draft]
  have hactive : isActive name row = false := by simp [isActive, hdraft]
  rw [activeVersion, (Table.insert_eq_some.mp hrows).2, List.filter_append,
    List.filter_cons_of_neg (by simp [hactive]), List.filter_nil, List.append_nil]
  rfl

theorem forall_draft_singleton {c : Configuration} (h : c.status = .draft) :
    ∀ d ∈ [c], d.status = .draft := by
  intro d hd
  rw [List.mem_singleton.mp hd, h]

/-! ## Operations -/

section

variable {crypto : AuditCrypto} {db : Db} {n : ℕ}

theorem createConfiguration_ends (env : ConfigurationEnv) (payload : ConfigurationCreate)
    (createdBy : String) :
    (createConfiguration crypto env payload createdBy).wp postgres
      (Ends crypto (ConfigurationPlan db.configurations (.create env payload createdBy))
        db n) db db n := by
  refine (Request.wp_bind ..).mpr ?_
  rw [Request.wp_select]
  refine (Request.wp_bind ..).mpr (wp_ensure.mpr ⟨fun _ => .failed (Nat.le_refl n), fun _ => ?_⟩)
  refine (Request.wp_bind ..).mpr (ensureValid_wp (fun _ => .failed (Nat.le_refl n)) ?_)
  refine (Request.wp_bind ..).mpr (send_performs (.start crypto db n) (domain_singleton rfl)
    (fun _ => .failed (Nat.le_succ n)) fun work' _ hperformed => ?_)
  refine Request.wp_commitTransaction_bind (refreshed_wp fun _ => ?_)
  exact .performed (.inserted rfl (forall_draft_singleton rfl)) hperformed

theorem createSuccessorVersion_ends (env : ConfigurationEnv) (configId : Uuid)
    (payload : ConfigurationUpdate) (createdBy : String) :
    (createSuccessorVersion crypto env configId payload createdBy).wp postgres
      (Ends crypto (ConfigurationPlan db.configurations
        (.createSuccessor env configId payload createdBy)) db n) db db n := by
  refine (Request.wp_bind ..).mpr (getConfigurationOrm_wp (fun _ => .failed (Nat.le_refl n))
    fun base _ _ _ => ?_)
  refine (Request.wp_bind ..).mpr (ensureValid_wp (fun _ => .failed (Nat.le_refl n)) ?_)
  refine (Request.wp_bind ..).mpr ?_
  rw [nextVersion, Request.wp_select]
  refine (Request.wp_bind ..).mpr (send_performs (.start crypto db n) (domain_singleton rfl)
    (fun _ => .failed (Nat.le_succ n)) fun work' _ hperformed => ?_)
  refine Request.wp_commitTransaction_bind (refreshed_wp fun _ => ?_)
  exact .performed (.inserted rfl (forall_draft_singleton rfl)) hperformed

theorem deleteConfiguration_ends (env : ConfigurationEnv) (configId : Uuid) :
    (deleteConfiguration env configId).wp postgres
      (Ends crypto (ConfigurationPlan db.configurations (.delete env configId)) db n)
      db db n := by
  refine (Request.wp_bind ..).mpr (getConfigurationOrm_wp (fun _ => .failed (Nat.le_refl n))
    fun config hconfig hid _ => ?_)
  subst hid
  refine (Request.wp_bind ..).mpr (wp_ensure.mpr
    ⟨fun _ => .failed (Nat.le_refl n), fun hnot => ?_⟩)
  refine (Request.wp_bind ..).mpr (send_performs (.start crypto db n) domain_saveConfiguration
    (fun _ => .failed (Nat.le_succ n)) fun work' _ hperformed => ?_)
  exact Request.wp_commitTransaction_bind (Request.wp_return
    (.performed (.deleted hconfig hnot) hperformed))

theorem archiveConfiguration_ends (env : ConfigurationEnv) (configId : Uuid) :
    (archiveConfiguration env configId).wp postgres
      (Ends crypto (ConfigurationPlan db.configurations (.archive env configId)) db n)
      db db n := by
  refine (Request.wp_bind ..).mpr (getConfigurationOrm_wp (fun _ => .failed (Nat.le_refl n))
    fun config hconfig hid hdeleted => ?_)
  subst hid
  refine (Request.wp_bind ..).mpr (wp_ensure.mpr ⟨fun _ => .failed (Nat.le_refl n), fun _ => ?_⟩)
  refine (Request.wp_bind ..).mpr (send_performs (.start crypto db n) domain_saveConfiguration
    (fun _ => .failed (Nat.le_succ n)) fun work' _ hperformed => ?_)
  exact Request.wp_commitTransaction_bind (refreshed_wp fun _ =>
    .performed (.archived hconfig hdeleted) hperformed)

theorem activateConfiguration_ends (env : ConfigurationEnv) (configId : Uuid) (actor : String) :
    (activateConfiguration crypto env configId actor).wp postgres
      (Ends crypto (ConfigurationPlan db.configurations (.activate env configId actor)) db n)
      db db n := by
  refine (Request.wp_bind ..).mpr (getConfigurationOrm_wp (fun _ => .failed (Nat.le_refl n))
    fun config hconfig hid hdeleted => ?_)
  subst hid
  refine (Request.wp_bind ..).mpr (wp_ensure.mpr
    ⟨fun _ => .failed (Nat.le_refl n), fun hnot => ?_⟩)
  refine (Request.wp_bind ..).mpr ?_
  rw [activeConfiguration, Request.wp_select]
  refine (Request.wp_bind ..).mpr (append_performs (.start crypto db n) domain_activation
    (fun _ _ hk => .failed hk) fun row work' hperformed => ?_)
  exact Request.wp_commitTransaction_bind (refreshed_wp fun _ =>
    .performed (.activated hconfig hdeleted hnot) hperformed)

theorem rollbackConfiguration_ends (env : ConfigurationEnv) (configId : Uuid) (actor : String) :
    (rollbackConfiguration crypto env configId actor).wp postgres
      (Ends crypto (ConfigurationPlan db.configurations (.rollback env configId actor)) db n)
      db db n := by
  refine (Request.wp_bind ..).mpr (getConfigurationOrm_wp (fun _ => .failed (Nat.le_refl n))
    fun base hbase hid _ => ?_)
  subst hid
  refine (Request.wp_bind ..).mpr ?_
  rw [nextVersion, Request.wp_select]
  refine (Request.wp_bind ..).mpr (send_performs (.start crypto db n) (domain_singleton rfl)
    (fun _ => .failed (Nat.le_succ n)) fun mid hsent hinserted => ?_)
  refine (Request.wp_bind ..).mpr ?_
  rw [activeConfiguration, Request.wp_select]
  -- the copy is a draft when the active version is looked up
  have hactive : (mid.configurations.rows.filter (isActive base.name)).argmax
      Configuration.version = activeVersion db.configurations base.name :=
    activeVersion_insert hsent rfl base.name
  rw [hactive]
  have hdomain : Domain (activationStatements env db.configurations
      (rollbackCopy env base (maxVersion db.configurations base.name + 1) actor)) :=
    domain_activation
  refine (Request.wp_bind ..).mpr (append_performs hinserted hdomain
    (fun _ k hk => .failed (by omega)) fun row work' hperformed => ?_)
  exact Request.wp_commitTransaction_bind (refreshed_wp fun _ =>
    .performed (.rolledBack hbase rfl) hperformed)

/-- The rule of the import loop: each item that is accepted inserts one more draft. -/
theorem importItems_performs (env : ConfigurationEnv) (createdBy : String)
    (items : List ConfigurationImportItem)
    {post : Except ServiceError ConfigurationImportResponse → Db → Db → ℕ → Prop}
    {durable work : Db} {cs : List Configuration} {k m : ℕ}
    (hwork : Performed crypto db n (inserts cs) [] work m) (hdrafts : ∀ c ∈ cs, c.status = .draft)
    (failed : ∀ error work' m', n ≤ m' → post (.error error) durable work' m')
    (imported : ∀ response cs' work' m', (∀ c ∈ cs', c.status = .draft) →
      Performed crypto db n (inserts cs') [] work' m' → post (.ok response) durable work' m') :
    (importItems crypto env createdBy k items).wp postgres post durable work m := by
  induction items generalizing work cs k m post with
  | nil => exact Request.wp_return (imported _ cs _ _ hdrafts hwork)
  | cons item items ih =>
    rw [importItems, Request.wp_ite]
    refine ⟨fun _ => ?_, fun _ => ?_⟩
    · exact (Request.wp_bind ..).mpr (ih hwork hdrafts failed fun _ cs' _ _ hdrafts' hperformed =>
        Request.wp_return (imported _ cs' _ _ hdrafts' hperformed))
    · refine (Request.wp_bind ..).mpr ?_
      rw [nextVersion, Request.wp_select]
      have hle := hwork.le
      refine (Request.wp_bind ..).mpr (send_performs hwork (domain_singleton rfl)
        (fun _ => failed _ _ _ (by omega)) fun mid _ hinserted => ?_)
      rw [← inserts_concat] at hinserted
      refine (Request.wp_bind ..).mpr (ih hinserted ?_ failed
        fun _ cs' _ _ hdrafts' hperformed =>
          Request.wp_return (imported _ cs' _ _ hdrafts' hperformed))
      intro c hc
      rcases List.mem_append.mp hc with hc | hc
      · exact hdrafts c hc
      · exact forall_draft_singleton rfl c hc

theorem importConfigurations_ends (env : ConfigurationEnv) (req : ConfigurationImportRequest)
    (createdBy : String) :
    (importConfigurations crypto env req createdBy).wp postgres
      (Ends crypto (ConfigurationPlan db.configurations (.importAll env req createdBy)) db n)
      db db n := by
  have hstart : Performed crypto db n (inserts []) [] db n := .start crypto db n
  refine (Request.wp_bind ..).mpr (importItems_performs env createdBy req.items hstart
    (fun c hc => nomatch hc) (fun _ _ _ hk => .failed hk) fun _ cs _ _ hdrafts hperformed => ?_)
  exact Request.wp_commitTransaction_bind (Request.wp_return
    (.performed (.inserted rfl hdrafts) hperformed))

/-- The specification of the service: a request fails and leaves the database, or performs one of
its plans. -/
theorem request_ends (r : ConfigurationRequest) :
    (r.request crypto).wp postgres (Ends crypto (ConfigurationPlan db.configurations r) db n)
      db db n := by
  cases r with
  | create env payload createdBy =>
    exact Request.wp_answer (Request.wp_mono (createConfiguration_ends env payload createdBy)
      fun _ _ _ _ h => h.map)
  | createSuccessor env id payload createdBy =>
    exact Request.wp_answer (Request.wp_mono (createSuccessorVersion_ends env id payload createdBy)
      fun _ _ _ _ h => h.map)
  | activate env id actor =>
    exact Request.wp_answer (Request.wp_mono (activateConfiguration_ends env id actor)
      fun _ _ _ _ h => h.map)
  | archive env id =>
    exact Request.wp_answer (Request.wp_mono (archiveConfiguration_ends env id)
      fun _ _ _ _ h => h.map)
  | rollback env id actor =>
    exact Request.wp_answer (Request.wp_mono (rollbackConfiguration_ends env id actor)
      fun _ _ _ _ h => h.map)
  | delete env id => exact deleteConfiguration_ends env id
  | importAll env req createdBy =>
    exact Request.wp_answer (Request.wp_mono (importConfigurations_ends env req createdBy)
      fun _ _ _ _ h => h.map)

end

end NexusEngine.ConfigurationTransactions
