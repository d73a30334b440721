import NexusEngine.ConfigurationService
import NexusEngine.AuditAppends
import Mathlib.Logic.Relation

/-!
# The life of a configuration version

Every operation, run to its end, takes the table through a sequence of steps: a draft is
inserted with the next version of its name, or one row is archived, activated or deleted. Each
step keeps the invariant of the table, so every run does.
-/

namespace NexusEngine.ConfigurationLifecycle

open TransactionalRequests TextEncodings StoredColumns KeyedTables ConfigurationTable Database
  AuditService AuditAppends ConfigurationService
open AuditVerification (sampleEnv sha256Crypto)

/-! ## The invariant -/

/-- At most one version of a name is active, and the timestamps of a row tell its status. -/
structure Lifecycle (t : Configurations) : Prop where
  single : ∀ c ∈ t.rows, ∀ d ∈ t.rows, c.status = .active → d.status = .active →
    c.name = d.name → c = d
  notDeleted : ∀ c ∈ t.rows, c.status = .active → c.deletedAt = none
  draft : ∀ c ∈ t.rows, c.status = .draft → c.activatedAt = none ∧ c.archivedAt = none
  active : ∀ c ∈ t.rows, c.status = .active → c.activatedAt.isSome ∧ c.archivedAt = none
  archived : ∀ c ∈ t.rows, c.status = .archived → c.archivedAt.isSome

/-- The texts that other rows are made from fit their columns. -/
structure Fits (t : Configurations) : Prop where
  name : ∀ c ∈ t.rows, c.name.toList.length ≤ 120
  checksum : ∀ c ∈ t.rows, c.checksum.toList.length ≤ 64

/-! ## Steps of the table -/

/-- What becomes of one row. -/
inductive Move (t : Configurations) (c c' : Configuration) : Prop where
  | archived (status : c'.status = .archived) (archivedAt : c'.archivedAt.isSome)
  | activated (status : c'.status = .active) (activatedAt : c'.activatedAt.isSome)
      (archivedAt : c'.archivedAt = none) (notDeleted : c'.deletedAt = none)
      (noOther : ∀ d ∈ t.rows, d.status = .active → d.name = c.name → d.id = c.id)
  | deleted (notActive : c.status ≠ .active) (status : c'.status = c.status)
      (activatedAt : c'.activatedAt = c.activatedAt) (archivedAt : c'.archivedAt = c.archivedAt)

inductive VersionStep (crypto : AuditCrypto) (t t' : Configurations) : Prop where
  | inserted (c : Configuration) (version : c.version = maxVersion t c.name + 1)
      (status : c.status = .draft) (activatedAt : c.activatedAt = none)
      (archivedAt : c.archivedAt = none)
      (checksum : c.checksum = payloadChecksum crypto c.payload ∨
        ∃ b ∈ t.rows, b.payload = c.payload ∧ b.checksum = c.checksum)
      (name_fits : c.name.toList.length ≤ 120) (checksum_fits : c.checksum.toList.length ≤ 64)
      (rows : t'.rows = t.rows ++ [c])
  | moved (c c' : Configuration) (mem : c ∈ t.rows) (document : c.SameDocument c')
      (move : Move t c c') (rows : t'.rows = t.rows.map fun d => if d.id = c.id then c' else d)

def Steps (crypto : AuditCrypto) : Configurations → Configurations → Prop :=
  Relation.ReflTransGen (VersionStep crypto)

variable {crypto : AuditCrypto} {t t' : Configurations}

/-- A row after a move is the moved one or a row from before. -/
theorem mem_moved {c c' d' : Configuration}
    (h : d' ∈ t.rows.map fun d => if d.id = c.id then c' else d) :
    d' = c' ∨ d' ∈ t.rows ∧ d' ≠ c := by
  obtain ⟨d, hd, rfl⟩ := List.mem_map.mp h
  split
  · exact .inl rfl
  · next hid => exact .inr ⟨hd, fun heq => hid (congrArg Configuration.id heq)⟩

theorem Lifecycle.step (h : Lifecycle t) (hstep : VersionStep crypto t t') : Lifecycle t' := by
  cases hstep with
  | inserted c version status activatedAt archivedAt checksum _ _ rows =>
    have hcases : ∀ d ∈ t'.rows, d.status ≠ .draft → d ∈ t.rows := by
      intro d hd hstatus
      rw [rows] at hd
      rcases List.mem_append.mp hd with hd | hd
      · exact hd
      · exact absurd (List.mem_singleton.mp hd ▸ status) hstatus
    refine ⟨fun d hd e he hda hea hname => ?_, fun d hd hda => ?_, fun d hd hdd => ?_,
      fun d hd hda => ?_, fun d hd hda => ?_⟩
    · exact h.single d (hcases d hd (by simp [hda])) e (hcases e he (by simp [hea])) hda hea hname
    · exact h.notDeleted d (hcases d hd (by simp [hda])) hda
    · rw [rows] at hd
      rcases List.mem_append.mp hd with hd | hd
      · exact h.draft d hd hdd
      · rw [List.mem_singleton.mp hd]
        exact ⟨activatedAt, archivedAt⟩
    · exact h.active d (hcases d hd (by simp [hda])) hda
    · exact h.archived d (hcases d hd (by simp [hda])) hda
  | moved c c' mem document move rows =>
    have hmem : ∀ d' ∈ t'.rows, d' = c' ∨ d' ∈ t.rows ∧ d' ≠ c := fun d' hd' =>
      mem_moved (rows ▸ hd')
    -- every conjunct holds of the rows that stay, so it is enough to look at the moved one
    have keep : Lifecycle t → (∀ d ∈ t.rows, d ≠ c → c'.status = .active → d.status = .active →
        c'.name ≠ d.name) → (c'.status = .active → c'.deletedAt = none) →
        (c'.status = .draft → c'.activatedAt = none ∧ c'.archivedAt = none) →
        (c'.status = .active → c'.activatedAt.isSome ∧ c'.archivedAt = none) →
        (c'.status = .archived → c'.archivedAt.isSome) → Lifecycle t' := by
      intro h hsingle hdeleted hdraft hactive harchived
      refine ⟨fun d hd e he hda hea hname => ?_, fun d hd hda => ?_, fun d hd hdd => ?_,
        fun d hd hda => ?_, fun d hd hda => ?_⟩
      · rcases hmem d hd with rfl | ⟨hd, hdc⟩ <;> rcases hmem e he with rfl | ⟨he, hec⟩
        · rfl
        · exact absurd hname (hsingle e he hec hda hea)
        · exact absurd hname.symm (hsingle d hd hdc hea hda)
        · exact h.single d hd e he hda hea hname
      · rcases hmem d hd with rfl | ⟨hd, -⟩
        · exact hdeleted hda
        · exact h.notDeleted d hd hda
      · rcases hmem d hd with rfl | ⟨hd, -⟩
        · exact hdraft hdd
        · exact h.draft d hd hdd
      · rcases hmem d hd with rfl | ⟨hd, -⟩
        · exact hactive hda
        · exact h.active d hd hda
      · rcases hmem d hd with rfl | ⟨hd, -⟩
        · exact harchived hda
        · exact h.archived d hd hda
    cases move with
    | archived status archivedAt =>
      exact keep h (by simp [status]) (by simp [status]) (by simp [status]) (by simp [status])
        fun _ => archivedAt
    | activated status activatedAt archivedAt notDeleted noOther =>
      refine keep h (fun d hd hdc _ hda hname => ?_) (fun _ => notDeleted) (by simp [status])
        (fun _ => ⟨activatedAt, archivedAt⟩) (by simp [status])
      exact hdc (t.eq_of_key_eq hd mem (noOther d hd hda (hname.symm.trans document.name)))
    | deleted notActive status activatedAt archivedAt =>
      refine keep h (fun _ _ _ hactive => absurd (status ▸ hactive) notActive)
        (fun hactive => absurd (status ▸ hactive) notActive) (fun hdraft => ?_)
        (fun hactive => absurd (status ▸ hactive) notActive) (fun harchived => ?_)
      · rw [activatedAt, archivedAt]
        exact h.draft c mem (status ▸ hdraft)
      · rw [archivedAt]
        exact h.archived c mem (status ▸ harchived)

theorem Fits.step (h : Fits t) (hstep : VersionStep crypto t t') : Fits t' := by
  cases hstep with
  | inserted c _ _ _ _ _ name_fits checksum_fits rows =>
    constructor
    · intro d hd
      rw [rows] at hd
      rcases List.mem_append.mp hd with hd | hd
      · exact h.name d hd
      · exact List.mem_singleton.mp hd ▸ name_fits
    · intro d hd
      rw [rows] at hd
      rcases List.mem_append.mp hd with hd | hd
      · exact h.checksum d hd
      · exact List.mem_singleton.mp hd ▸ checksum_fits
  | moved c c' mem document _ rows =>
    constructor
    · intro d hd
      rcases mem_moved (rows ▸ hd) with rfl | ⟨hd, -⟩
      · exact document.name ▸ h.name c mem
      · exact h.name d hd
    · intro d hd
      rcases mem_moved (rows ▸ hd) with rfl | ⟨hd, -⟩
      · exact document.checksum ▸ h.checksum c mem
      · exact h.checksum d hd

/-! ## Flushed objects -/

/-- A saved object leaves its state in the row it was loaded from. -/
theorem saveConfiguration_sound {old new row : Configuration} {db db' : Db}
    (hrow : row ∈ db.configurations.rows) (hid : row.id = old.id)
    (hstate : row.takeState old = row)
    (h : postgres.applyAll (saveConfiguration old new) db = some db') :
    ∃ configurations, db' = { db with configurations := configurations } ∧
      configurations.rows = db.configurations.rows.map fun d =>
        if d.id = row.id then row.takeState new else d := by
  unfold saveConfiguration at h
  split at h
  · next heq =>
    subst heq
    cases h
    refine ⟨db.configurations, rfl, ?_⟩
    refine (List.map_id' _).symm.trans (List.map_congr_left fun d hd => ?_)
    split
    · next hdid => rw [hstate, db.configurations.eq_of_key_eq hd hrow hdid]
    · rfl
  · obtain ⟨configurations, hupdate, rfl⟩ := applyAll_configuration_singleton h
    change db.configurations.update old.id (old.diff new).apply (fun _ => rfl) = _ at hupdate
    refine ⟨configurations, rfl, ?_⟩
    rw [(Table.update_eq_some.mp hupdate).2]
    refine List.map_congr_left fun d hd => ?_
    rw [← hid]
    split
    · next hdid =>
      rw [db.configurations.eq_of_key_eq hd hrow hdid]
      exact Configuration.diff_apply hstate
    · rfl

/-- Saving an object whose state makes a move is a step. -/
theorem saveConfiguration_step {old new row : Configuration} {db db' : Db}
    (h : postgres.applyAll (saveConfiguration old new) db = some db')
    (hrow : row ∈ db.configurations.rows) (hid : row.id = old.id)
    (hstate : row.takeState old = row) (move : Move db.configurations row (row.takeState new)) :
    VersionStep crypto db.configurations db'.configurations := by
  obtain ⟨configurations, rfl, hrows⟩ := saveConfiguration_sound hrow hid hstate h
  exact .moved row _ hrow (row.takeState_sameDocument new) move hrows

/-- The active version of a name is the one the query finds. -/
theorem argmax_active {t : Configurations} (h : Lifecycle t) (name : String) :
    match (t.rows.filter (isActive name)).argmax Configuration.version with
    | none => ∀ d ∈ t.rows, d.status = .active → d.name ≠ name
    | some current => current ∈ t.rows ∧ current.status = .active ∧
        ∀ d ∈ t.rows, d.status = .active → d.name = name → d = current := by
  cases hmax : (t.rows.filter (isActive name)).argmax Configuration.version with
  | none =>
    intro d hd hda hname
    have hmem : d ∈ t.rows.filter (isActive name) := by
      simp [isActive, hd, hda, hname, h.notDeleted d hd hda]
    rw [List.argmax_eq_none.mp hmax] at hmem
    nomatch hmem
  | some current =>
    obtain ⟨hmem, hactive⟩ := List.mem_filter.mp (List.argmax_mem hmax)
    simp only [isActive, Bool.and_eq_true, decide_eq_true_eq] at hactive
    exact ⟨hmem, hactive.1.2, fun d hd hda hname =>
      h.single d hd current hmem hda hactive.1.2 (hname.trans hactive.1.1.symm)⟩

/-- Archiving the active version and activating another one. -/
theorem activation_steps {env : ConfigurationEnv} {config row : Configuration} {db db' : Db}
    (h : Lifecycle db.configurations) (hrow : row ∈ db.configurations.rows)
    (hid : row.id = config.id) (hname : row.name = config.name)
    (hstate : row.takeState config = row) (hnot : row.status ≠ .active)
    (hdeleted : config.deletedAt = none)
    (happly : postgres.applyAll (archiveCurrent env config.id
      ((db.configurations.rows.filter (isActive config.name)).argmax Configuration.version) ++
        saveConfiguration config (activatedConfiguration env config)) db = some db') :
    Steps crypto db.configurations db'.configurations := by
  have hactive := argmax_active h config.name
  rw [StatementSemantics.applyAll_append, Option.bind_eq_some_iff] at happly
  obtain ⟨mid, harchive, hsave⟩ := happly
  cases hmax : (db.configurations.rows.filter (isActive config.name)).argmax
      Configuration.version with
  | none =>
    rw [hmax] at harchive hactive
    cases harchive
    refine .single (saveConfiguration_step hsave hrow hid hstate ?_)
    exact .activated rfl rfl rfl hdeleted fun d hd hda hdn =>
      absurd (hdn.trans hname) (hactive d hd hda)
  | some current =>
    rw [hmax] at harchive hactive
    obtain ⟨hmem, hcurrent, hunique⟩ := hactive
    have hne : row ≠ current := fun heq => hnot (heq ▸ hcurrent)
    have hneId : current.id ≠ config.id := fun heq =>
      hne (db.configurations.eq_of_key_eq hrow hmem (hid.trans heq.symm))
    rw [archiveCurrent, if_neg hneId] at harchive
    have hstep : VersionStep crypto db.configurations mid.configurations :=
      saveConfiguration_step harchive hmem rfl rfl (.archived rfl rfl)
    obtain ⟨configurations, rfl, hrows⟩ := saveConfiguration_sound hmem rfl rfl harchive
    have hrow' : row ∈ configurations.rows := by
      rw [hrows]
      exact List.mem_map.mpr ⟨row, hrow, if_neg fun heq => hneId (heq.symm.trans hid)⟩
    refine .tail (.single hstep) (saveConfiguration_step hsave hrow' hid hstate ?_)
    refine .activated rfl rfl rfl hdeleted fun d hd hda hdn => ?_
    rcases mem_moved (hrows ▸ hd) with rfl | ⟨hd, hdc⟩
    · nomatch hda
    · exact absurd (hunique d hd hda (hdn.trans hname)) hdc

/-- An inserted draft is a step. -/
theorem insert_step {c : Configuration} {db db' : Db}
    (h : postgres.applyAll [.configuration (.insert c)] db = some db')
    (version : c.version = maxVersion db.configurations c.name + 1)
    (status : c.status = .draft) (activatedAt : c.activatedAt = none)
    (archivedAt : c.archivedAt = none)
    (checksum : c.checksum = payloadChecksum crypto c.payload ∨
      ∃ b ∈ db.configurations.rows, b.payload = c.payload ∧ b.checksum = c.checksum)
    (name_fits : c.name.toList.length ≤ 120)
    (checksum_stored : ∀ checksum, varchar 64 c.checksum = some checksum → checksum = c.checksum) :
    VersionStep crypto db.configurations db'.configurations ∧
      ∃ row ∈ db'.configurations.rows, StoredAs c row ∧ row.name = c.name := by
  obtain ⟨configurations, hinsert, rfl⟩ := applyAll_configuration_singleton h
  obtain ⟨row, hstored, hrows⟩ := insertConfiguration_eq_some hinsert
  have hname := varchar_of_length_le hstored.name name_fits
  have hchecksum := checksum_stored _ hstored.checksum
  have hfits := varchar_length hstored.checksum
  refine ⟨.inserted row ?_ ?_ ?_ ?_ ?_ (hname ▸ name_fits) hfits (Table.insert_eq_some.mp hrows).2,
    row, (Table.mem_insert hrows).mpr (.inr rfl), hstored, hname⟩
  · rw [hname, hstored.rest]
    exact version
  · rw [hstored.rest]
    exact status
  · rw [hstored.rest]
    exact activatedAt
  · rw [hstored.rest]
    exact archivedAt
  · rw [hchecksum, hstored.rest]
    exact checksum

/-! ## Reads -/

section

variable {durable work : Db} {n : ℕ}

theorem getConfigurationOrm_wp {configId : Uuid}
    {post : Except ServiceError Configuration → Db → Db → ℕ → Prop}
    (missing : ∀ error, post (.error error) durable work n)
    (loaded : ∀ c ∈ work.configurations.rows, c.id = configId → c.deletedAt = none →
      post (.ok c) durable work n) :
    (getConfigurationOrm configId).wp postgres post durable work n := by
  simp only [getConfigurationOrm, Request.wp_bind, Request.wp_select, wp_found, wp_ensure]
  refine ⟨fun _ => missing _, fun c hc => ⟨fun _ => missing _, fun hdeleted => ?_⟩⟩
  obtain ⟨hmem, hid⟩ := Table.find?_eq_some.mp hc
  exact Request.wp_return (loaded c hmem hid hdeleted)

theorem refreshed_wp {id : Uuid} {post : Except ServiceError ConfigurationRead → Db → Db → ℕ → Prop}
    (h : ∀ result, post result durable work n) :
    (refreshed id).wp postgres post durable work n := by
  simp only [refreshed, Request.wp_bind, Request.wp_select, wp_found]
  exact ⟨fun _ => h _, fun _ _ => Request.wp_return (h _)⟩

theorem ensureValid_wp {payload : List (String × JsonDocuments.Json)}
    {sensitiveKeys : List String} {post : Except ServiceError Unit → Db → Db → ℕ → Prop}
    (refused : ∀ error, post (.error error) durable work n) (valid : post (.ok ()) durable work n) :
    (ensureValid payload sensitiveKeys).wp postgres post durable work n :=
  wp_ensure.mpr ⟨fun _ => refused _, fun _ => valid⟩

end

/-! ## Operations -/

section

variable {db : Db} {n : ℕ}

/-- The postcondition of an operation: the committed table is some steps further. -/
abbrev Advances (crypto : AuditCrypto) (db : Db) {α : Type} (_ : Except ServiceError α)
    (durable _ : Db) (_ : ℕ) : Prop := Steps crypto db.configurations durable.configurations

theorem Steps.refl : Steps crypto t t := Relation.ReflTransGen.refl

/-- No row of a name has a version above the largest one. -/
theorem maxVersion_eq_zero {name : String} (h : ∀ c ∈ t.rows, c.name ≠ name) :
    maxVersion t name = 0 := by
  have hnone : t.rows.filter (fun c => c.name = name) = [] := by simpa using h
  rw [maxVersion, hnone]
  rfl

theorem checksum_stored {payload : List (String × JsonDocuments.Json)} {checksum : String}
    (h : varchar 64 (payloadChecksum crypto payload) = some checksum) :
    checksum = payloadChecksum crypto payload := varchar_hexdigest h

theorem createConfiguration_steps (env : ConfigurationEnv) (payload : ConfigurationCreate)
    (createdBy : String) :
    (createConfiguration crypto env payload createdBy).wp postgres (Advances crypto db) db db n := by
  refine (Request.wp_bind ..).mpr ?_
  rw [Request.wp_select]
  refine (Request.wp_bind ..).mpr (wp_ensure.mpr ⟨fun _ => .refl, fun hnew => ?_⟩)
  refine (Request.wp_bind ..).mpr (ensureValid_wp (fun _ => .refl) ?_)
  refine (Request.wp_bind ..).mpr (Request.wp_send.mpr ⟨fun _ => .refl, fun work hwork => ?_⟩)
  refine Request.wp_commitTransaction_bind (refreshed_wp fun _ => .single ?_)
  have hzero : maxVersion db.configurations payload.name = 0 :=
    maxVersion_eq_zero (by simpa using hnew)
  refine (insert_step hwork ?_ rfl rfl rfl (.inl rfl) payload.name_max fun _ => checksum_stored).1
  rw [draft, hzero]

theorem createSuccessorVersion_steps (hfits : Fits db.configurations) (env : ConfigurationEnv)
    (configId : Uuid) (payload : ConfigurationUpdate) (createdBy : String) :
    (createSuccessorVersion crypto env configId payload createdBy).wp postgres
      (Advances crypto db) db db n := by
  refine (Request.wp_bind ..).mpr (getConfigurationOrm_wp (fun _ => .refl) fun base hbase _ _ => ?_)
  refine (Request.wp_bind ..).mpr (ensureValid_wp (fun _ => .refl) ?_)
  refine (Request.wp_bind ..).mpr ?_
  rw [nextVersion, Request.wp_select]
  refine (Request.wp_bind ..).mpr (Request.wp_send.mpr ⟨fun _ => .refl, fun work hwork => ?_⟩)
  refine Request.wp_commitTransaction_bind (refreshed_wp fun _ => .single ?_)
  exact (insert_step hwork rfl rfl rfl rfl (.inl rfl) (hfits.name base hbase)
    fun _ => checksum_stored).1

theorem deleteConfiguration_steps (env : ConfigurationEnv) (configId : Uuid) :
    (deleteConfiguration env configId).wp postgres (Advances crypto db) db db n := by
  refine (Request.wp_bind ..).mpr (getConfigurationOrm_wp (fun _ => .refl) fun c hc _ _ => ?_)
  refine (Request.wp_bind ..).mpr (wp_ensure.mpr ⟨fun _ => .refl, fun hnot => ?_⟩)
  refine (Request.wp_bind ..).mpr (Request.wp_send.mpr ⟨fun _ => .refl, fun work hwork => ?_⟩)
  exact Request.wp_commitTransaction_bind (Request.wp_return
    (.single (saveConfiguration_step hwork hc rfl rfl (.deleted hnot rfl rfl rfl))))

theorem archiveConfiguration_steps (env : ConfigurationEnv) (configId : Uuid) :
    (archiveConfiguration env configId).wp postgres (Advances crypto db) db db n := by
  refine (Request.wp_bind ..).mpr (getConfigurationOrm_wp (fun _ => .refl) fun c hc _ _ => ?_)
  refine (Request.wp_bind ..).mpr (wp_ensure.mpr ⟨fun _ => .refl, fun _ => ?_⟩)
  refine (Request.wp_bind ..).mpr (Request.wp_send.mpr ⟨fun _ => .refl, fun work hwork => ?_⟩)
  exact Request.wp_commitTransaction_bind (refreshed_wp fun _ =>
    .single (saveConfiguration_step hwork hc rfl rfl (.archived rfl rfl)))

theorem activateConfiguration_steps (h : Lifecycle db.configurations) (env : ConfigurationEnv)
    (configId : Uuid) (actor : String) :
    (activateConfiguration crypto env configId actor).wp postgres (Advances crypto db) db db n := by
  refine (Request.wp_bind ..).mpr
    (getConfigurationOrm_wp (fun _ => .refl) fun c hc _ hdeleted => ?_)
  refine (Request.wp_bind ..).mpr (wp_ensure.mpr ⟨fun _ => .refl, fun hnot => ?_⟩)
  refine (Request.wp_bind ..).mpr ?_
  rw [activeConfiguration, Request.wp_select]
  refine (Request.wp_bind ..).mpr (appendEntryInTransaction_wp (fun _ _ _ => .refl)
    fun sent row hsent _ _ => ?_)
  have hactivated : Steps crypto db.configurations sent.configurations :=
    activation_steps h hc rfl rfl rfl hnot hdeleted hsent
  exact Request.wp_commitTransaction_bind (refreshed_wp fun _ => hactivated)

theorem rollbackConfiguration_steps (h : Lifecycle db.configurations)
    (hfits : Fits db.configurations) (env : ConfigurationEnv) (configId : Uuid) (actor : String) :
    (rollbackConfiguration crypto env configId actor).wp postgres (Advances crypto db) db db n := by
  refine (Request.wp_bind ..).mpr (getConfigurationOrm_wp (fun _ => .refl) fun base hbase _ _ => ?_)
  refine (Request.wp_bind ..).mpr ?_
  rw [nextVersion, Request.wp_select]
  refine (Request.wp_bind ..).mpr (Request.wp_send.mpr ⟨fun _ => .refl, fun mid hmid => ?_⟩)
  refine (Request.wp_bind ..).mpr ?_
  rw [activeConfiguration, Request.wp_select]
  refine (Request.wp_bind ..).mpr (appendEntryInTransaction_wp (fun _ _ _ => .refl)
    fun sent _ hsent _ _ => ?_)
  refine Request.wp_commitTransaction_bind (refreshed_wp fun _ => ?_)
  have hcopied : ∀ checksum, varchar 64 base.checksum = some checksum → checksum = base.checksum :=
    fun _ hchecksum => varchar_of_length_le hchecksum (hfits.checksum base hbase)
  obtain ⟨hinsert, row, hrow, hstored, hname⟩ : VersionStep crypto db.configurations
      mid.configurations ∧ _ := insert_step hmid rfl rfl rfl rfl (.inr ⟨base, hbase, rfl, rfl⟩)
    (hfits.name base hbase) hcopied
  have hid : row.id = (rollbackCopy env base
    (maxVersion db.configurations base.name + 1) actor).id := by rw [hstored.rest]
  have hstate : row.takeState (rollbackCopy env base
      (maxVersion db.configurations base.name + 1) actor) = row := by rw [hstored.rest]; rfl
  have hdraft : row.status ≠ .active := by
    rw [hstored.rest]
    exact fun h => nomatch h
  have hactivated : Steps crypto mid.configurations sent.configurations :=
    activation_steps (h.step hinsert) hrow hid hname hstate hdraft rfl hsent
  exact .head hinsert hactivated

/-- An import takes the table of its transaction further, item by item. -/
theorem importItems_wp (env : ConfigurationEnv) (createdBy : String)
    (items : List ConfigurationImportItem)
    {post : Except ServiceError ConfigurationImportResponse → Db → Db → ℕ → Prop}
    {durable work : Db} {k n : ℕ} (hwork : Steps crypto db.configurations work.configurations)
    (failed : ∀ error work' n', post (.error error) durable work' n')
    (imported : ∀ response work' n', Steps crypto db.configurations work'.configurations →
      post (.ok response) durable work' n') :
    (importItems crypto env createdBy k items).wp postgres post durable work n := by
  induction items generalizing work k n post with
  | nil => exact Request.wp_return (imported _ _ _ hwork)
  | cons item items ih =>
    rw [importItems, Request.wp_ite]
    refine ⟨fun _ => ?_, fun _ => ?_⟩
    · exact (Request.wp_bind ..).mpr (ih hwork failed fun _ _ _ hsteps =>
        Request.wp_return (imported _ _ _ hsteps))
    · refine (Request.wp_bind ..).mpr ?_
      rw [nextVersion, Request.wp_select]
      refine (Request.wp_bind ..).mpr (Request.wp_send.mpr
        ⟨fun _ => failed _ _ _, fun mid hmid => ?_⟩)
      have hstep : VersionStep crypto work.configurations mid.configurations :=
        (insert_step hmid rfl rfl rfl rfl (.inl rfl) item.name_max fun _ => checksum_stored).1
      exact (Request.wp_bind ..).mpr (ih (hwork.tail hstep) failed fun _ _ _ hsteps =>
        Request.wp_return (imported _ _ _ hsteps))

theorem importConfigurations_steps (env : ConfigurationEnv) (req : ConfigurationImportRequest)
    (createdBy : String) :
    (importConfigurations crypto env req createdBy).wp postgres (Advances crypto db) db db n := by
  refine (Request.wp_bind ..).mpr (importItems_wp env createdBy req.items .refl (fun _ _ _ => .refl)
    fun _ _ _ hsteps => ?_)
  exact Request.wp_commitTransaction_bind (Request.wp_return hsteps)

/-- The step lemma of the service: a request takes the table some steps further. -/
theorem exec_steps (s : Store Db) (h : Lifecycle s.db.configurations)
    (hfits : Fits s.db.configurations) (r : ConfigurationRequest) :
    Steps crypto s.db.configurations (s.exec postgres (r.request crypto)).db.configurations := by
  refine Store.exec_sound (P := fun db _ => Steps crypto s.db.configurations db.configurations) s ?_
  cases r with
  | create env payload createdBy =>
    exact Request.wp_answer (createConfiguration_steps env payload createdBy)
  | createSuccessor env id payload createdBy =>
    exact Request.wp_answer (createSuccessorVersion_steps hfits env id payload createdBy)
  | activate env id actor => exact Request.wp_answer (activateConfiguration_steps h env id actor)
  | archive env id => exact Request.wp_answer (archiveConfiguration_steps env id)
  | rollback env id actor =>
    exact Request.wp_answer (rollbackConfiguration_steps h hfits env id actor)
  | delete env id => exact deleteConfiguration_steps env id
  | importAll env req createdBy =>
    exact Request.wp_answer (importConfigurations_steps env req createdBy)

end

/-! ## Runs -/

theorem Steps.lifecycle (steps : Steps crypto t t') (h : Lifecycle t) : Lifecycle t' := by
  induction steps with
  | refl => exact h
  | tail _ step ih => exact ih.step step

theorem Steps.fits (steps : Steps crypto t t') (h : Fits t) : Fits t' := by
  induction steps with
  | refl => exact h
  | tail _ step ih => exact ih.step step

def execAll (crypto : AuditCrypto) (s : Store Db) (rs : List ConfigurationRequest) : Store Db :=
  s.execAll postgres (rs.map (·.request crypto))

theorem execAll_append (s : Store Db) (rs rs' : List ConfigurationRequest) :
    execAll crypto s (rs ++ rs') = execAll crypto (execAll crypto s rs) rs' := by
  rw [execAll, List.map_append, Store.execAll_append]
  rfl

/-- The run lemma: requests one after the other take the table some steps further. -/
theorem execAll_steps {s : Store Db} (h : Lifecycle s.db.configurations)
    (hfits : Fits s.db.configurations) (rs : List ConfigurationRequest) :
    Steps crypto s.db.configurations (execAll crypto s rs).db.configurations := by
  refine Store.execAll_preserves (Q := fun _ _ => True)
    (P := fun s' : Store Db => Steps crypto s.db.configurations s'.db.configurations) .refl
    (fun _ _ _ _ => trivial) fun s' r _ hsteps => ?_
  exact hsteps.trans (exec_steps s' (hsteps.lifecycle h) (hsteps.fits hfits) r)

theorem lifecycle_of_empty (h : t.rows = []) : Lifecycle t := by
  constructor <;> simp [h]

theorem fits_of_empty (h : t.rows = []) : Fits t := by
  constructor <;> simp [h]

theorem execAll_steps_of_empty {s : Store Db} (hempty : s.db.configurations.rows = [])
    (rs : List ConfigurationRequest) :
    Steps crypto s.db.configurations (execAll crypto s rs).db.configurations :=
  execAll_steps (lifecycle_of_empty hempty) (fits_of_empty hempty) rs

/-- In every run from an empty table at most one version of a name is active, and the
timestamps of every row tell its status. -/
theorem lifecycle_holds {s : Store Db} (hempty : s.db.configurations.rows = [])
    (rs : List ConfigurationRequest) : Lifecycle (execAll crypto s rs).db.configurations :=
  (execAll_steps_of_empty hempty rs).lifecycle (lifecycle_of_empty hempty)

/-! ## A sample run -/

def sampleConfigurationEnv (k : ℕ) : ConfigurationEnv where
  now := 63839664000000000 + k
  uuid4 i := 10 * k + i
  createdAt i := 63839664000000000 + k + i
  updatedAt i := 63839664000000000 + k + i
  touchedAt := 63839664000000000 + k
  audit := sampleEnv k

def sampleDocument (name key : String) (h : 2 ≤ name.toList.length ∧ name.toList.length ≤ 120) :
    ConfigurationCreate where
  name := name
  name_min := h.1
  name_max := h.2
  payload := [(key, .int 1)]
  description := none
  description_max := fun _ h => nomatch h
  sensitiveKeys := []

theorem limits_length : 2 ≤ "limits".toList.length ∧ "limits".toList.length ≤ 120 := by decide

def sampleUpdate : ConfigurationUpdate where
  payload := [("limit", .int 2)]
  description := some "raised"
  description_max := fun d h => Option.some.inj h ▸ by decide
  sensitiveKeys := none

/-- Two versions of one document, the second active, and a rollback to the first. -/
def sampleRun : List ConfigurationRequest :=
  [.create (sampleConfigurationEnv 1) (sampleDocument "limits" "limit" limits_length)
      "admin@example.com",
    .createSuccessor (sampleConfigurationEnv 2) 10 sampleUpdate "admin@example.com",
    .activate (sampleConfigurationEnv 3) 20 "admin@example.com",
    .rollback (sampleConfigurationEnv 4) 10 "admin@example.com"]

theorem lifecycle_holds_sample :
    Lifecycle (execAll sha256Crypto ⟨emptyDb, 1⟩ sampleRun).db.configurations :=
  lifecycle_holds rfl sampleRun

end NexusEngine.ConfigurationLifecycle
