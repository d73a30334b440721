import NexusEngine.ConfigurationVersions
import NexusEngine.JsonEquality
import NexusEngine.RequestStatements

/-!
# What the rows of configurations hold

A stored row can be stored again as it is. Its payload is one that some request has brought, so
that what holds of the payloads of all requests holds of every row.
-/

namespace NexusEngine.ConfigurationDocuments

open TransactionalRequests StoredColumns KeyedTables JsonDocuments JsonEquality ConfigurationTable
  Database AuditService AuditAppends ConfigurationService ConfigurationLifecycle
  ConfigurationVersions

/-! ## Stored rows -/

/-- Every column keeps the value that it holds. -/
structure Storable (c : Configuration) : Prop where
  name : varchar 120 c.name = some c.name
  payload : isStandard (.obj c.payload) = true
  checksum : varchar 64 c.checksum = some c.checksum
  description : nullable (varchar 255) c.description = some c.description
  createdBy : varchar 120 c.createdBy = some c.createdBy
  version : c.version ≤ maxInteger

def StorableTable (db : Db) : Prop := ∀ c ∈ db.configurations.rows, Storable c

/-- What an insert leaves can be inserted again. -/
theorem storable_inserted {t t' : Configurations} {c : Configuration}
    (h : insertConfiguration t c = some t') :
    ∃ row, t'.rows = t.rows ++ [row] ∧ Storable row ∧ row.payload = c.payload := by
  simp only [insertConfiguration, Option.bind_eq_bind, Option.bind_eq_some_iff,
    Option.ite_none_left_eq_some] at h
  obtain ⟨name, hname, payload, hpayload, checksum, hchecksum, description, hdescription, createdBy,
    hby, -, hversion, hinsert⟩ := h
  refine ⟨_, (Table.insert_eq_some.mp hinsert).2, ?_, rfl⟩
  exact {
    name := varchar_stored hname
    payload := json_isStandard hpayload
    checksum := varchar_stored hchecksum
    description := nullable_stored hdescription
    createdBy := varchar_stored hby
    version := Nat.le_of_not_lt hversion }

theorem version_le_maxVersion {t : Configurations} {c : Configuration} (hc : c ∈ t.rows) :
    c.version ≤ maxVersion t c.name := by
  have hmem : c.version ∈ (t.rows.filter fun d => d.name = c.name).map Configuration.version :=
    List.mem_map_of_mem (List.mem_filter.mpr ⟨hc, by simp⟩)
  exact List.le_max_of_le' 0 hmem (Nat.le_refl _)

/-- A checksum fits its column. -/
theorem payloadChecksum_fits {crypto : AuditCrypto} (hdigest : ∀ bs, (crypto.sha256 bs).length = 32)
    (payload : List (String × Json)) :
    varchar 64 (payloadChecksum crypto payload) = some (payloadChecksum crypto payload) := by
  apply varchar_of_text
  · exact text_iff.mpr (TextEncodings.hexdigest_no_nul _)
  · rw [payloadChecksum, TextEncodings.hexdigest_length, hdigest]

/-- A new row with the next number of its name is inserted where the columns take it. -/
theorem insertConfiguration_next {t : Configurations} {c : Configuration} {createdBy : String}
    (hname : varchar 120 c.name = some c.name) (hpayload : isStandard (.obj c.payload) = true)
    (hchecksum : varchar 64 c.checksum = some c.checksum)
    (hdescription : nullable (varchar 255) c.description = some c.description)
    (hby : varchar 120 c.createdBy = some createdBy)
    (hversion : c.version = maxVersion t c.name + 1) (hroom : maxVersion t c.name < maxInteger)
    (hfresh : ∀ d ∈ t.rows, d.id ≠ c.id) :
    ∃ t', insertConfiguration t c = some t' ∧
      t'.rows = t.rows ++ [{ c with createdBy := createdBy }] := by
  have hunused : (t.rows.any fun r => r.name == c.name && r.version == c.version) = false := by
    apply Bool.eq_false_iff.mpr
    intro hused
    obtain ⟨d, hd, hsame⟩ := List.any_eq_true.mp hused
    simp only [Bool.and_eq_true, beq_iff_eq] at hsame
    have hle := version_le_maxVersion hd
    rw [hsame.1] at hle
    omega
  have hnone : t.find? ({ c with createdBy := createdBy } : Configuration).id = none :=
    Table.find?_eq_none.mpr hfresh
  have hjson : json (.obj c.payload) = some (.obj c.payload) := if_pos hpayload
  have hrange : ¬ maxInteger < c.version := by omega
  obtain ⟨t', hinsert⟩ := Table.insert_isSome hnone
  refine ⟨t', ?_, (Table.insert_eq_some.mp hinsert).2⟩
  rw [← hinsert]
  simp only [insertConfiguration, hname, hjson, hchecksum, hdescription, hby, hunused,
    Option.bind_eq_bind, Option.bind_some, Bool.false_eq_true, if_false]
  exact if_neg hrange

theorem Storable.sameDocument {c c' : Configuration} (h : Storable c) (hsame : c.SameDocument c') :
    Storable c' where
  name := hsame.name ▸ h.name
  payload := hsame.payload ▸ h.payload
  checksum := hsame.checksum ▸ h.checksum
  description := hsame.description ▸ h.description
  createdBy := hsame.createdBy ▸ h.createdBy
  version := hsame.version ▸ h.version

/-- A row after a statement: an inserted one, or one from before with the same document. -/
theorem apply_rows {w : Statement} {db db' : Db} (h : postgres.apply w db = some db')
    {c' : Configuration} (hc' : c' ∈ db'.configurations.rows) :
    (∃ c, w = .configuration (.insert c) ∧ Storable c' ∧ c'.payload = c.payload) ∨
      ∃ c ∈ db.configurations.rows, c.SameDocument c' := by
  rcases (apply_frame h).configurations with ⟨statement, rfl, hconf⟩ | hsame
  · cases statement with
    | insert c =>
      obtain ⟨row, hrows, hstorable, hpayload⟩ := storable_inserted hconf
      rw [hrows] at hc'
      rcases List.mem_append.mp hc' with hc' | hc'
      · exact .inr ⟨c', hc', .refl c'⟩
      · obtain rfl := List.mem_singleton.mp hc'
        exact .inl ⟨c, rfl, hstorable, hpayload⟩
    | update id patch =>
      change db.configurations.update id patch.apply (fun _ => rfl) = _ at hconf
      rw [(Table.update_eq_some.mp hconf).2] at hc'
      obtain ⟨c, hc, rfl⟩ := List.mem_map.mp hc'
      refine .inr ⟨c, hc, ?_⟩
      split
      · exact patch.apply_sameDocument c
      · exact .refl c
  · exact .inr ⟨c', hsame ▸ hc', .refl c'⟩

theorem StorableTable.apply {w : Statement} {db db' : Db} (happly : postgres.apply w db = some db')
    (h : StorableTable db) : StorableTable db' := by
  intro c' hc'
  rcases apply_rows happly hc' with ⟨c, -, hstorable, -⟩ | ⟨c, hc, hsame⟩
  · exact hstorable
  · exact (h c hc).sameDocument hsame

/-- In every run from an empty table the stored rows can be stored again. -/
theorem storable_execAll {crypto : AuditCrypto} {s : Store Db}
    (hempty : s.db.configurations.rows = []) (rs : List ConfigurationRequest) :
    StorableTable (execAll crypto s rs).db := by
  have hstart : StorableTable s.db := by
    intro c hc
    rw [hempty] at hc
    nomatch hc
  exact Store.execAll_preserves (Q := fun _ _ => True) (P := fun s => StorableTable s.db) hstart
    (fun _ _ _ _ => trivial) fun s r _ h =>
      Store.exec_invariant (fun _ _ _ happly => StorableTable.apply happly) (r.request crypto) s h

/-! ## Payloads -/

/-- The payloads that a request brings. -/
def payloadsOf : ConfigurationRequest → List (List (String × Json))
  | .create _ payload _ => [payload.payload]
  | .createSuccessor _ _ payload _ => [payload.payload]
  | .importAll _ req _ => req.items.map (·.payload)
  | _ => []

def Payloads (P : List (String × Json) → Prop) (db : Db) : Prop :=
  ∀ c ∈ db.configurations.rows, P c.payload

section

variable {crypto : AuditCrypto} {P : List (String × Json) → Prop} {db db' : Db} {n : ℕ}

theorem Payloads.applyAll {ws : List Statement} (happly : postgres.applyAll ws db = some db')
    (h : Payloads P db) (hws : ∀ c, .configuration (.insert c) ∈ ws → P c.payload) :
    Payloads P db' := by
  refine postgres.applyAll_preserves (P := Payloads P) (fun w hw db db' happly h c' hc' => ?_)
    happly h
  rcases apply_rows happly hc' with ⟨c, rfl, -, hpayload⟩ | ⟨c, hc, hsame⟩
  · exact hpayload ▸ hws c hw
  · exact hsame.payload ▸ h c hc

theorem insert_notMem_save {c old new : Configuration} :
    Statement.configuration (.insert c) ∉ saveConfiguration old new := by
  unfold saveConfiguration
  split
  · simp
  · simp

theorem insert_notMem_archiveCurrent {c : Configuration} {env : ConfigurationEnv} {id : Uuid}
    {current : Option Configuration} :
    Statement.configuration (.insert c) ∉ archiveCurrent env id current := by
  unfold archiveCurrent
  split
  · simp
  · split
    · simp
    · exact insert_notMem_save

theorem insert_notMem_activation {c old new : Configuration} {env : ConfigurationEnv} {id : Uuid}
    {current : Option Configuration} :
    Statement.configuration (.insert c) ∉
      archiveCurrent env id current ++ saveConfiguration old new := by
  rw [List.mem_append]
  exact not_or.mpr ⟨insert_notMem_archiveCurrent, insert_notMem_save⟩

/-- A flush that inserts one row. -/
theorem Payloads.insert {c : Configuration}
    (happly : postgres.applyAll [.configuration (.insert c)] db = some db') (h : Payloads P db)
    (hc : P c.payload) : Payloads P db' := by
  refine h.applyAll happly fun c' hc' => ?_
  cases List.mem_singleton.mp hc'
  exact hc

/-- A flush that inserts no row. -/
theorem Payloads.updated {ws : List Statement} (happly : postgres.applyAll ws db = some db')
    (h : Payloads P db) (hws : ∀ c, Statement.configuration (.insert c) ∉ ws) : Payloads P db' :=
  h.applyAll happly fun c hc => absurd hc (hws c)

/-- The postcondition of an operation. -/
abbrev Keeps (P : List (String × Json) → Prop) {α : Type} (_ : Except ServiceError α)
    (durable _ : Db) (_ : ℕ) : Prop := Payloads P durable

theorem createConfiguration_payloads (h : Payloads P db) (env : ConfigurationEnv)
    (payload : ConfigurationCreate) (createdBy : String) (hpayload : P payload.payload) :
    (createConfiguration crypto env payload createdBy).wp postgres (Keeps P) db db n := by
  refine (Request.wp_bind ..).mpr ?_
  rw [Request.wp_select]
  refine (Request.wp_bind ..).mpr (wp_ensure.mpr ⟨fun _ => h, fun _ => ?_⟩)
  refine (Request.wp_bind ..).mpr (ensureValid_wp (fun _ => h) ?_)
  refine (Request.wp_bind ..).mpr (Request.wp_send.mpr ⟨fun _ => h, fun work hwork => ?_⟩)
  exact Request.wp_commitTransaction_bind (refreshed_wp fun _ => h.insert hwork hpayload)

theorem createSuccessorVersion_payloads (h : Payloads P db) (env : ConfigurationEnv)
    (configId : Uuid) (payload : ConfigurationUpdate) (createdBy : String)
    (hpayload : P payload.payload) :
    (createSuccessorVersion crypto env configId payload createdBy).wp postgres (Keeps P) db db n := by
  refine (Request.wp_bind ..).mpr (getConfigurationOrm_wp (fun _ => h) fun base _ _ _ => ?_)
  refine (Request.wp_bind ..).mpr (ensureValid_wp (fun _ => h) ?_)
  refine (Request.wp_bind ..).mpr ?_
  rw [nextVersion, Request.wp_select]
  refine (Request.wp_bind ..).mpr (Request.wp_send.mpr ⟨fun _ => h, fun work hwork => ?_⟩)
  exact Request.wp_commitTransaction_bind (refreshed_wp fun _ => h.insert hwork hpayload)

theorem deleteConfiguration_payloads (h : Payloads P db) (env : ConfigurationEnv)
    (configId : Uuid) : (deleteConfiguration env configId).wp postgres (Keeps P) db db n := by
  refine (Request.wp_bind ..).mpr (getConfigurationOrm_wp (fun _ => h) fun c _ _ _ => ?_)
  refine (Request.wp_bind ..).mpr (wp_ensure.mpr ⟨fun _ => h, fun _ => ?_⟩)
  refine (Request.wp_bind ..).mpr (Request.wp_send.mpr ⟨fun _ => h, fun work hwork => ?_⟩)
  exact Request.wp_commitTransaction_bind (Request.wp_return
    (h.updated hwork fun _ => insert_notMem_save))

theorem archiveConfiguration_payloads (h : Payloads P db) (env : ConfigurationEnv)
    (configId : Uuid) : (archiveConfiguration env configId).wp postgres (Keeps P) db db n := by
  refine (Request.wp_bind ..).mpr (getConfigurationOrm_wp (fun _ => h) fun c _ _ _ => ?_)
  refine (Request.wp_bind ..).mpr (wp_ensure.mpr ⟨fun _ => h, fun _ => ?_⟩)
  refine (Request.wp_bind ..).mpr (Request.wp_send.mpr ⟨fun _ => h, fun work hwork => ?_⟩)
  exact Request.wp_commitTransaction_bind (refreshed_wp fun _ =>
    h.updated hwork fun _ => insert_notMem_save)

theorem activateConfiguration_payloads (h : Payloads P db) (env : ConfigurationEnv)
    (configId : Uuid) (actor : String) :
    (activateConfiguration crypto env configId actor).wp postgres (Keeps P) db db n := by
  refine (Request.wp_bind ..).mpr (getConfigurationOrm_wp (fun _ => h) fun c _ _ _ => ?_)
  refine (Request.wp_bind ..).mpr (wp_ensure.mpr ⟨fun _ => h, fun _ => ?_⟩)
  refine (Request.wp_bind ..).mpr ?_
  rw [activeConfiguration, Request.wp_select]
  refine (Request.wp_bind ..).mpr (appendEntryInTransaction_wp (fun _ _ _ => h)
    fun sent row hsent _ _ => ?_)
  have hkept : Payloads P sent := h.updated hsent fun _ => insert_notMem_activation
  exact Request.wp_commitTransaction_bind (refreshed_wp fun _ => hkept)

/-- A rollback copies the payload of a row. -/
theorem rollbackConfiguration_payloads (h : Payloads P db) (env : ConfigurationEnv)
    (configId : Uuid) (actor : String) :
    (rollbackConfiguration crypto env configId actor).wp postgres (Keeps P) db db n := by
  refine (Request.wp_bind ..).mpr (getConfigurationOrm_wp (fun _ => h) fun base hbase _ _ => ?_)
  refine (Request.wp_bind ..).mpr ?_
  rw [nextVersion, Request.wp_select]
  refine (Request.wp_bind ..).mpr (Request.wp_send.mpr ⟨fun _ => h, fun mid hmid => ?_⟩)
  have hcopied : Payloads P mid := h.insert hmid (h base hbase)
  refine (Request.wp_bind ..).mpr ?_
  rw [activeConfiguration, Request.wp_select]
  refine (Request.wp_bind ..).mpr (appendEntryInTransaction_wp (fun _ _ _ => h)
    fun sent row hsent _ _ => ?_)
  have hkept : Payloads P sent := hcopied.updated hsent fun _ => insert_notMem_activation
  exact Request.wp_commitTransaction_bind (refreshed_wp fun _ => hkept)

/-- The rule of the import loop. -/
theorem importItems_payloads (env : ConfigurationEnv) (createdBy : String)
    (items : List ConfigurationImportItem) (hitems : ∀ item ∈ items, P item.payload)
    {post : Except ServiceError ConfigurationImportResponse → Db → Db → ℕ → Prop}
    {durable work : Db} {k n : ℕ} (hwork : Payloads P work)
    (failed : ∀ error work' n', post (.error error) durable work' n')
    (imported : ∀ response work' n', Payloads P work' → post (.ok response) durable work' n') :
    (importItems crypto env createdBy k items).wp postgres post durable work n := by
  induction items generalizing work k n post with
  | nil => exact Request.wp_return (imported _ _ _ hwork)
  | cons item items ih =>
    have hrest : ∀ item ∈ items, P item.payload := fun i hi => hitems i (List.mem_cons_of_mem _ hi)
    rw [importItems, Request.wp_ite]
    refine ⟨fun _ => ?_, fun _ => ?_⟩
    · exact (Request.wp_bind ..).mpr (ih hrest hwork failed fun _ _ _ hkept =>
        Request.wp_return (imported _ _ _ hkept))
    · refine (Request.wp_bind ..).mpr ?_
      rw [nextVersion, Request.wp_select]
      refine (Request.wp_bind ..).mpr (Request.wp_send.mpr
        ⟨fun _ => failed _ _ _, fun mid hmid => ?_⟩)
      have hinserted : Payloads P mid := hwork.insert hmid (hitems item List.mem_cons_self)
      exact (Request.wp_bind ..).mpr (ih hrest hinserted failed fun _ _ _ hkept =>
        Request.wp_return (imported _ _ _ hkept))

theorem importConfigurations_payloads (h : Payloads P db) (env : ConfigurationEnv)
    (req : ConfigurationImportRequest) (createdBy : String)
    (hitems : ∀ item ∈ req.items, P item.payload) :
    (importConfigurations crypto env req createdBy).wp postgres (Keeps P) db db n := by
  refine (Request.wp_bind ..).mpr (importItems_payloads env createdBy req.items hitems h
    (fun _ _ _ => h) fun _ _ _ hkept => ?_)
  exact Request.wp_commitTransaction_bind (Request.wp_return hkept)

/-- The step lemma: a request adds payloads of its own only. -/
theorem Payloads.exec {s : Store Db} (h : Payloads P s.db) (r : ConfigurationRequest)
    (hr : ∀ payload ∈ payloadsOf r, P payload) :
    Payloads P (s.exec postgres (r.request crypto)).db := by
  refine Store.exec_sound (P := fun db _ => Payloads P db) s ?_
  cases r with
  | create env payload createdBy =>
    exact Request.wp_answer (createConfiguration_payloads h env payload createdBy
      (hr _ List.mem_cons_self))
  | createSuccessor env id payload createdBy =>
    exact Request.wp_answer (createSuccessorVersion_payloads h env id payload createdBy
      (hr _ List.mem_cons_self))
  | activate env id actor => exact Request.wp_answer (activateConfiguration_payloads h env id actor)
  | archive env id => exact Request.wp_answer (archiveConfiguration_payloads h env id)
  | rollback env id actor => exact Request.wp_answer (rollbackConfiguration_payloads h env id actor)
  | delete env id => exact deleteConfiguration_payloads h env id
  | importAll env req createdBy =>
    exact Request.wp_answer (importConfigurations_payloads h env req createdBy fun item hitem =>
      hr _ (List.mem_map_of_mem hitem))

/-- The run lemma: what holds of all payloads that the requests bring holds of all rows. -/
theorem payloads_execAll {s : Store Db} (hempty : s.db.configurations.rows = [])
    (rs : List ConfigurationRequest) (hrs : ∀ r ∈ rs, ∀ payload ∈ payloadsOf r, P payload) :
    Payloads P (execAll crypto s rs).db := by
  have hstart : Payloads P s.db := by
    intro c hc
    rw [hempty] at hc
    nomatch hc
  refine Store.execAll_preserves (Q := fun _ r => ∀ payload ∈ payloadsOf r, P payload)
    (P := fun s => Payloads P s.db) hstart (fun rs₁ r rs₂ heq => ?_)
    fun s r hr h => h.exec r hr
  exact hrs r (heq ▸ List.mem_append_right _ List.mem_cons_self)

end

/-! ## Rows that are there -/

/-- A row that is not deleted is loaded. -/
theorem getConfigurationOrm_loads {durable work : Db} {n : ℕ} {c : Configuration}
    {post : Except ServiceError Configuration → Db → Db → ℕ → Prop}
    (hc : c ∈ work.configurations.rows) (hlive : c.deletedAt = none)
    (h : post (.ok c) durable work n) :
    (getConfigurationOrm c.id).wp postgres post durable work n := by
  apply (Request.wp_bind ..).mpr
  rw [Request.wp_select]
  apply (Request.wp_bind ..).mpr
  apply wp_found_of_some (Table.find?_of_mem hc)
  apply (Request.wp_bind ..).mpr
  exact wp_ensure.mpr ⟨fun hdeleted => absurd hlive hdeleted, fun _ => Request.wp_return h⟩

/-- A row that is there is read again. -/
theorem refreshed_loads {durable work : Db} {n : ℕ} {c : Configuration}
    {post : Except ServiceError ConfigurationRead → Db → Db → ℕ → Prop}
    (hc : c ∈ work.configurations.rows) (h : post (.ok (toRead c)) durable work n) :
    (refreshed c.id).wp postgres post durable work n := by
  apply (Request.wp_bind ..).mpr
  rw [Request.wp_select]
  apply (Request.wp_bind ..).mpr
  exact wp_found_of_some (Table.find?_of_mem hc) (Request.wp_return h)

/-- No two rows of a name have one version. -/
theorem version_inj {crypto : AuditCrypto} {t : Configurations} (h : Numbered crypto t)
    {c d : Configuration} (hc : c ∈ t.rows) (hd : d ∈ t.rows) (hname : c.name = d.name)
    (hversion : c.version = d.version) : c = d := by
  obtain ⟨k, hk⟩ := h.versions d.name
  have hnodup : ((t.rows.filter fun c => c.name = d.name).map Configuration.version).Nodup := by
    rw [← versionsOf, hk]
    exact List.nodup_range'
  exact List.inj_on_of_nodup_map hnodup (List.mem_filter.mpr ⟨hc, by simpa using hname⟩)
    (List.mem_filter.mpr ⟨hd, by simp⟩) hversion

end NexusEngine.ConfigurationDocuments
