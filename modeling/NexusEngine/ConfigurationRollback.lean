import NexusEngine.ConfigurationAudit
import NexusEngine.ConfigurationComparisons

/-!
# Rollbacks

A rollback copies a version of a name and makes the copy the active one. It goes through where the
columns take the actor and the number of the copy, and then the copy is the latest and the active
version, with the document of the version that was rolled back to.
-/

namespace NexusEngine.ConfigurationRollback

open TransactionalRequests TextEncodings JsonDocuments JsonEquality StoredColumns KeyedTables
  ConfigurationTable AuditLogTable Database AuditService AuditAppends AuditedTransactions
  AuditTrails RelatedLists ConfigurationService ConfigurationLifecycle ConfigurationVersions
  ConfigurationDocuments ConfigurationTransactions ConfigurationReads ConfigurationComparisons
open AuditVerification (sha256Crypto)
open ConfigurationConfidentiality (sampleReadEnv)

/-! ## The rows -/

/-- The query for the largest version finds the row that has it. -/
theorem argmax_version {rows : List Configuration} {c : Configuration} (hc : c ∈ rows)
    (hle : ∀ d ∈ rows, d.version ≤ c.version)
    (hunique : ∀ d ∈ rows, d.version = c.version → d = c) :
    rows.argmax Configuration.version = some c := by
  apply List.argmax_eq_some_iff.mpr
  refine ⟨hc, hle, fun d hd hge => ?_⟩
  rw [hunique d hd (Nat.le_antisymm (hle d hd) hge)]

/-- What a rollback makes of a row that was there. -/
def retired (env : ConfigurationEnv) (name : String) (c : Configuration) : Configuration :=
  if isActive name c then archivedConfiguration env c else c

section

variable {env : ConfigurationEnv} {name : String} {c : Configuration}

theorem retired_sameDocument : c.SameDocument (retired env name c) := by
  unfold retired
  split
  · exact ⟨rfl, rfl, rfl, rfl, rfl, rfl, rfl, rfl, rfl⟩
  · exact .refl c

theorem retired_deletedAt : (retired env name c).deletedAt = c.deletedAt := by
  unfold retired
  split <;> rfl

theorem retired_of_not_active (h : isActive name c = false) : retired env name c = c := by
  rw [retired, h]
  rfl

theorem retired_of_active (h : isActive name c = true) :
    retired env name c = archivedConfiguration env c := by
  rw [retired, if_pos h]

end

/-- The row that a rollback adds: the copy, activated. -/
def restored (env : ConfigurationEnv) (base : Configuration) (version : ℕ)
    (createdBy : String) : Configuration :=
  activatedConfiguration env (rollbackCopy env base version createdBy)

/-! ## The flushes -/

/-- An object whose row is there is saved. -/
theorem saveConfiguration_accepts {old : Configuration} (new : Configuration) {db : Db}
    (hold : old.id ∈ db.configurations.rows.map Configuration.id) :
    ∃ configurations, postgres.applyAll (saveConfiguration old new) db =
        some { db with configurations := configurations } ∧
      configurations.rows.map Configuration.id = db.configurations.rows.map Configuration.id := by
  unfold saveConfiguration
  split
  · exact ⟨db.configurations, rfl, rfl⟩
  · obtain ⟨row, hrow⟩ := Option.isSome_iff_exists.mp (Table.isSome_find?.mpr hold)
    obtain ⟨configurations, hupdate⟩ : ∃ configurations, db.configurations.update old.id
        (old.diff new).apply (fun _ => rfl) = some configurations := Table.update_isSome hrow
    refine ⟨configurations, ?_, Table.keys_update hupdate⟩
    rw [StatementSemantics.applyAll_singleton]
    exact apply_configuration.mpr ⟨configurations, hupdate, rfl⟩

theorem saveConfiguration_applies (old new : Configuration) {row : Configuration} {db : Db}
    (hrow : row ∈ db.configurations.rows) (hid : row.id = old.id)
    (hstate : row.takeState old = row) :
    ∃ configurations, postgres.applyAll (saveConfiguration old new) db =
        some { db with configurations := configurations } ∧
      configurations.rows = db.configurations.rows.map fun d =>
        if d.id = row.id then row.takeState new else d := by
  have hold : old.id ∈ db.configurations.rows.map Configuration.id := by
    rw [← hid]
    exact List.mem_map_of_mem hrow
  obtain ⟨saved, hsaved, -⟩ := saveConfiguration_accepts new hold
  obtain ⟨configurations, hsame, hrows⟩ := saveConfiguration_sound hrow hid hstate hsaved
  exact ⟨configurations, hsaved.trans (congrArg some hsame), hrows⟩

/-- The active version of a name is archived, unless it is the one to be activated. -/
theorem archiveCurrent_applies (env : ConfigurationEnv) {id : Uuid} {name : String} {db : Db}
    (h : Lifecycle db.configurations)
    (hother : ∀ d ∈ db.configurations.rows, isActive name d = true → d.id ≠ id) :
    ∃ configurations,
      postgres.applyAll (archiveCurrent env id (activeVersion db.configurations name)) db =
        some { db with configurations := configurations } ∧
      configurations.rows = db.configurations.rows.map (retired env name) := by
  have hactive := argmax_active h name
  cases hmax : activeVersion db.configurations name with
  | none =>
    rw [activeVersion] at hmax
    rw [hmax] at hactive
    refine ⟨db.configurations, rfl, ?_⟩
    have hkept : ∀ d ∈ db.configurations.rows, retired env name d = d := by
      intro d hd
      apply retired_of_not_active
      have hname := hactive d hd
      simp only [isActive, Bool.and_eq_false_iff, decide_eq_false_iff_not]
      tauto
    exact (List.map_id' _).symm.trans (List.map_congr_left fun d hd => (hkept d hd).symm)
  | some current =>
    rw [activeVersion] at hmax
    rw [hmax] at hactive
    obtain ⟨hmem, hstatus, hunique⟩ := hactive
    have hcurrent : isActive name current = true :=
      (List.mem_filter.mp (List.argmax_mem hmax)).2
    obtain ⟨configurations, happly, hrows⟩ := saveConfiguration_applies current
      (archivedConfiguration env current) hmem rfl rfl
    refine ⟨configurations, ?_, ?_⟩
    · rw [archiveCurrent, if_neg (hother current hmem hcurrent)]
      exact happly
    · rw [hrows]
      apply List.map_congr_left
      intro d hd
      by_cases hid : d.id = current.id
      · rw [if_pos hid, db.configurations.eq_of_key_eq hd hmem hid, retired_of_active hcurrent]
        rfl
      · rw [if_neg hid]
        have hnot : isActive name d = false := by
          apply Bool.eq_false_iff.mpr
          intro hd'
          simp only [isActive, Bool.and_eq_true, decide_eq_true_eq] at hd'
          exact hid (congrArg Configuration.id (hunique d hd hd'.1.2 hd'.1.1))
        rw [retired_of_not_active hnot]

/-- A copy that was inserted is activated. -/
theorem activation_applies {env : ConfigurationEnv} {base : Configuration} {version : ℕ}
    (actor : String) {createdBy : String} {t : Configurations} {db : Db} (h : Lifecycle db.configurations)
    (hrows : db.configurations.rows = t.rows ++ [rollbackCopy env base version createdBy])
    (hfresh : ∀ d ∈ t.rows, d.id ≠ env.uuid4 0) :
    ∃ configurations,
      postgres.applyAll (archiveCurrent env (rollbackCopy env base version actor).id
          (activeVersion db.configurations base.name) ++
        saveConfiguration (rollbackCopy env base version actor)
          (activatedConfiguration env (rollbackCopy env base version actor))) db =
        some { db with configurations := configurations } ∧
      configurations.rows =
        t.rows.map (retired env base.name) ++ [restored env base version createdBy] := by
  have hother : ∀ d ∈ db.configurations.rows, isActive base.name d = true →
      d.id ≠ (rollbackCopy env base version actor).id := by
    intro d hd hactive
    rw [hrows] at hd
    rcases List.mem_append.mp hd with hd | hd
    · exact hfresh d hd
    · obtain rfl := List.mem_singleton.mp hd
      simp [isActive, rollbackCopy] at hactive
  obtain ⟨archived, harchive, harchived⟩ := archiveCurrent_applies env h hother
  have hcopy : retired env base.name (rollbackCopy env base version createdBy) =
      rollbackCopy env base version createdBy :=
    retired_of_not_active (by simp [isActive, rollbackCopy])
  have hmid : archived.rows =
      t.rows.map (retired env base.name) ++ [rollbackCopy env base version createdBy] := by
    rw [harchived, hrows, List.map_append, List.map_singleton, hcopy]
  have hmem : rollbackCopy env base version createdBy ∈ archived.rows := by simp [hmid]
  let mid : Db := { db with configurations := archived }
  have hrow : rollbackCopy env base version createdBy ∈ mid.configurations.rows := hmem
  obtain ⟨configurations, hsave, hsaved⟩ := saveConfiguration_applies
    (rollbackCopy env base version actor)
    (activatedConfiguration env (rollbackCopy env base version actor)) hrow rfl rfl
  refine ⟨configurations, ?_, ?_⟩
  · rw [StatementSemantics.applyAll_append, harchive]
    exact hsave
  · rw [hsaved, hmid, List.map_append]
    have hkept : ∀ d ∈ t.rows.map (retired env base.name),
        (if d.id = (rollbackCopy env base version createdBy).id then
          (rollbackCopy env base version createdBy).takeState
            (activatedConfiguration env (rollbackCopy env base version actor)) else d) = d := by
      intro d hd
      obtain ⟨e, he, rfl⟩ := List.mem_map.mp hd
      apply if_neg
      rw [retired_sameDocument.id]
      exact hfresh e he
    rw [List.map_congr_left hkept, List.map_id', List.map_singleton, if_pos rfl]
    rfl

/-! ## The copy -/

/-- What the columns have to take: the actor, and the number of the copy. -/
def Acceptable (t : Configurations) (name actor : String) : Prop :=
  (varchar 120 actor).isSome ∧ maxVersion t name < maxInteger

instance (t : Configurations) (name actor : String) : Decidable (Acceptable t name actor) :=
  inferInstanceAs (Decidable (_ ∧ _))

/-- The description of a copy fits its column. -/
theorem rollback_description {base : Configuration} (h : Storable base) :
    nullable (varchar 255)
        (some ("Rollback of '" ++ base.name ++ "' to v" ++ natText base.version)) =
      some (some ("Rollback of '" ++ base.name ++ "' to v" ++ natText base.version)) := by
  have hname := varchar_length h.name
  have hversion : (natText base.version).toList.length ≤ 10 := by
    apply natText_length (by omega)
    have hle := h.version
    rw [maxInteger] at hle
    omega
  have htext : text ("Rollback of '" ++ base.name ++ "' to v" ++ natText base.version) =
      some ("Rollback of '" ++ base.name ++ "' to v" ++ natText base.version) :=
    text_append (text_append (text_append rfl (text_varchar h.name)) rfl) (text_natText _)
  have hstored := varchar_of_text (n := 255) htext (by
    simp only [String.toList_append, List.length_append]
    have hfront : "Rollback of '".toList.length = 13 := rfl
    have hback : "' to v".toList.length = 6 := rfl
    omega)
  rw [nullable, hstored, Option.map_some]

section

variable {crypto : AuditCrypto} {t : Configurations} {env : ConfigurationEnv} {base : Configuration}
  {actor : String}

/-- An acceptable copy is inserted. -/
theorem insertConfiguration_copy (hbase : Storable base)
    (hfresh : ∀ d ∈ t.rows, d.id ≠ env.uuid4 0) {createdBy : String}
    (hactor : varchar 120 actor = some createdBy) (hversion : maxVersion t base.name < maxInteger) :
    ∃ t', insertConfiguration t (rollbackCopy env base (maxVersion t base.name + 1) actor) =
        some t' ∧
      t'.rows = t.rows ++ [rollbackCopy env base (maxVersion t base.name + 1) createdBy] := by
  have hname : maxVersion t (rollbackCopy env base (maxVersion t base.name + 1) actor).name <
      maxInteger := hversion
  exact insertConfiguration_next hbase.name hbase.payload hbase.checksum
    (rollback_description hbase) hactor rfl hname hfresh

/-- What is inserted has an author and a number that the columns take. -/
theorem insertConfiguration_accepts {c : Configuration} {t' : Configurations}
    (h : insertConfiguration t c = some t') :
    (varchar 120 c.createdBy).isSome ∧ c.version ≤ maxInteger := by
  simp only [insertConfiguration, Option.bind_eq_bind, Option.bind_eq_some_iff,
    Option.ite_none_left_eq_some] at h
  obtain ⟨-, -, -, -, -, -, -, -, createdBy, hactor, -, hversion, -⟩ := h
  exact ⟨Option.isSome_iff_exists.mpr ⟨createdBy, hactor⟩, Nat.le_of_not_lt hversion⟩

end

/-! ## The entry -/

/-- The entry of a rollback fits its columns where the actor does. -/
theorem rollbackEntry_appendable {crypto : AuditCrypto} {base : Configuration}
    (hbase : Storable base) (version : ℕ) {actor : String} (hactor : (varchar 120 actor).isSome)
    {before : Option String} (hbefore : nullable (varchar 64) before = some before)
    (hkey : (varchar 60 crypto.signingKeyId).isSome) :
    Appendable crypto (rollbackEntry base version actor) before where
  severity := rfl
  eventType := rfl
  eventSubtype := by
    change (varchar 60 "CONFIGURATION_ROLLED_BACK").isSome = true
    decide
  tenantSlug := rfl
  actor := hactor
  sourceIp := rfl
  description := by
    have htext : text ("Configuration '" ++ base.name ++ "' rolled back to v" ++
        natText base.version ++ " (activated as v" ++ natText version ++ ")") = some _ :=
      text_append (text_append (text_append (text_append (text_append (text_append rfl
        (text_varchar hbase.name)) rfl) (text_natText _)) rfl) (text_natText _)) rfl
    exact Option.isSome_iff_exists.mpr ⟨_, htext⟩
  metadataJson := rfl
  prevHash := Option.isSome_iff_exists.mpr ⟨_, hbefore⟩
  signingKeyId := hkey

/-! ## The log -/

/-- Every hash of the log is stored again as it is. -/
def HashesFit (log : List AuditLogEntry) : Prop :=
  ∀ r ∈ log, varchar 64 r.entryHash = some r.entryHash

theorem hashesFit_nil : HashesFit [] := fun _ hr => nomatch hr

theorem hashFits_of_appended {crypto : AuditCrypto} {env : AppendEnv}
    {payload : AuditLogEntryCreate} {before : Option String} {n : ℕ} {row : AuditLogEntry}
    (h : AppendedAs crypto env payload before n row) :
    varchar 64 row.entryHash = some row.entryHash := by
  have hlength := h.entryHash_length
  rw [h.entryHash] at hlength ⊢
  exact varchar_of_text (text_iff.mpr (hexdigest_no_nul _)) hlength

theorem HashesFit.performed {crypto : AuditCrypto} {db db' : Db} {ws : List Statement}
    {as : List Append} {n k : ℕ} (h : HashesFit db.auditLog)
    (hperformed : Performed crypto db n ws as db' k) : HashesFit db'.auditLog := by
  obtain ⟨mid, rows, -, hrows, rfl⟩ := hperformed.outcome
  intro r hr
  rcases List.mem_append.mp hr with hr | hr
  · exact h r hr
  · obtain ⟨a, -, _, _, happended⟩ := forall₂_mem_right hrows.forall₂ hr
    exact hashFits_of_appended happended

/-- The hash of the tail is stored as it is. -/
theorem HashesFit.tail {log : List AuditLogEntry} (h : HashesFit log) :
    nullable (varchar 64) (tailHash log) = some (tailHash log) := by
  cases htail : tailHash log with
  | none => rfl
  | some hash =>
    obtain ⟨r, hr, rfl⟩ := Option.map_eq_some_iff.mp htail
    rw [nullable, h r (mem_inSequenceOrder.mp (List.mem_of_getLast? hr)), Option.map_some]

/-! ## Reached states -/

/-- What every run keeps. -/
structure Reached (crypto : AuditCrypto) (s : Store Db) : Prop where
  lifecycle : Lifecycle s.db.configurations
  fits : Fits s.db.configurations
  numbered : Numbered crypto s.db.configurations
  storable : StorableTable s.db
  ordered : Ordered s.db.auditLog s.sequence
  hashes : HashesFit s.db.auditLog

theorem Reached.step {crypto : AuditCrypto} {s : Store Db} (h : Reached crypto s)
    (r : ConfigurationRequest) : Reached crypto (s.exec postgres (r.request crypto)) := by
  have hsteps : Steps crypto s.db.configurations
      (s.exec postgres (r.request crypto)).db.configurations := exec_steps s h.lifecycle h.fits r
  have hhashes : HashesFit (s.exec postgres (r.request crypto)).db.auditLog := by
    rcases exec_of_ends s (request_ends r) with ⟨hdb, -⟩ | ⟨ws, as, -, hperformed⟩
    · rw [hdb]
      exact h.hashes
    · exact h.hashes.performed hperformed
  exact {
    lifecycle := hsteps.lifecycle h.lifecycle
    fits := hsteps.fits h.fits
    numbered := numbered_steps hsteps h.numbered
    storable := Store.exec_invariant (fun _ _ _ happly => StorableTable.apply happly)
      (r.request crypto) s h.storable
    ordered := h.ordered.exec (request_ends r)
    hashes := hhashes }

theorem reached_of_empty {crypto : AuditCrypto} {s : Store Db}
    (hempty : s.db.configurations.rows = []) (hordered : Ordered s.db.auditLog s.sequence)
    (hhashes : HashesFit s.db.auditLog) : Reached crypto s where
  lifecycle := lifecycle_of_empty hempty
  fits := fits_of_empty hempty
  numbered := numbered_of_empty hempty
  storable c hc := by
    rw [hempty] at hc
    nomatch hc
  ordered := hordered
  hashes := hhashes

/-- The run lemma. -/
theorem reached_execAll {crypto : AuditCrypto} {s : Store Db} (h : Reached crypto s)
    (rs : List ConfigurationRequest) : Reached crypto (execAll crypto s rs) :=
  Store.execAll_preserves (Q := fun _ _ => True) h (fun _ _ _ _ => trivial) fun _ r _ h => h.step r

/-! ## The request -/

/-- What a rollback relies on: the identifiers that it draws are new, a hash has 32 bytes and is not
one of the log, and the name of the key fits its column. -/
structure Surroundings (crypto : AuditCrypto) (env : ConfigurationEnv) (db : Db)
    (base : Configuration) (actor : String) : Prop where
  uuid4 : ∀ d ∈ db.configurations.rows, d.id ≠ env.uuid4 0
  auditUuid4 : ∀ r ∈ db.auditLog, r.id ≠ env.audit.uuid4
  sha256_length : ∀ bs, (crypto.sha256 bs).length = 32
  newHash : ∀ r ∈ db.auditLog, r.entryHash ≠ crypto.computeEntryHash (tailHash db.auditLog)
    (payloadFields env.audit.now
      (rollbackEntry base (maxVersion db.configurations base.name + 1) actor))
  signingKeyId : (varchar 60 crypto.signingKeyId).isSome

section

variable {crypto : AuditCrypto} {env : ConfigurationEnv} {base : Configuration} {actor : String}

/-- The log admits the entry of a rollback. -/
theorem Surroundings.admits {db : Db} (h : Surroundings crypto env db base actor) {n k : ℕ}
    (hordered : Ordered db.auditLog n) (hle : n ≤ k) {row : AuditLogEntry}
    (happended : AppendedAs crypto env.audit
      (rollbackEntry base (maxVersion db.configurations base.name + 1) actor)
      (tailHash db.auditLog) k row) (tenants : List TenancyTables.Tenant) :
    AuditLogTable.admits tenants db.auditLog row = true := by
  have htenant : row.tenantId = none := happended.tenantId
  simp only [AuditLogTable.admits, htenant, Option.all_none, Bool.and_true, List.all_eq_true,
    Bool.and_eq_true, bne_iff_ne, ne_eq]
  intro r hr
  have hbelow := hordered.below r hr
  refine ⟨⟨?_, ?_⟩, ?_⟩
  · rw [happended.id]
    exact h.auditUuid4 r hr
  · rw [happended.sequence]
    omega
  · rw [happended.entryHash]
    exact h.newHash r hr

/-- An acceptable rollback is answered with the copy. -/
theorem rollbackConfiguration_result {s : Store Db} (h : Reached crypto s)
    (hbase : base ∈ s.db.configurations.rows) (hlive : base.deletedAt = none)
    (hsurroundings : Surroundings crypto env s.db base actor) {createdBy : String}
    (hactor : varchar 120 actor = some createdBy)
    (hversion : maxVersion s.db.configurations base.name < maxInteger) :
    (rollbackConfiguration crypto env base.id actor).wp postgres
      (fun result durable _ _ =>
        result = .ok (toRead (restored env base (maxVersion s.db.configurations base.name + 1)
          createdBy)) ∧
        durable.configurations.rows = s.db.configurations.rows.map (retired env base.name) ++
          [restored env base (maxVersion s.db.configurations base.name + 1) createdBy])
      s.db s.db s.sequence := by
  have hstorable := h.storable base hbase
  obtain ⟨inserted, hinsert, hinserted⟩ :=
    insertConfiguration_copy hstorable hsurroundings.uuid4 hactor hversion
  have hmid : postgres.applyAll [.configuration (.insert (rollbackCopy env base
      (maxVersion s.db.configurations base.name + 1) actor))] s.db =
        some { s.db with configurations := inserted } := by
    rw [StatementSemantics.applyAll_singleton]
    exact apply_configuration.mpr ⟨inserted, hinsert, rfl⟩
  have hcopied : ∀ checksum, varchar 64 base.checksum = some checksum → checksum = base.checksum :=
    fun _ hchecksum => varchar_of_length_le hchecksum (h.fits.checksum base hbase)
  have hstep : VersionStep crypto s.db.configurations inserted :=
    (insert_step hmid rfl rfl rfl rfl (.inr ⟨base, hbase, rfl, rfl⟩) (h.fits.name base hbase)
      hcopied).1
  let mid : Db := { s.db with configurations := inserted }
  have hlifecycle : Lifecycle mid.configurations := h.lifecycle.step hstep
  obtain ⟨activated, hactivate, hactivated⟩ :=
    activation_applies actor hlifecycle hinserted hsurroundings.uuid4
  apply (Request.wp_bind ..).mpr
  apply getConfigurationOrm_loads hbase hlive
  apply (Request.wp_bind ..).mpr
  rw [nextVersion, Request.wp_select]
  apply (Request.wp_bind ..).mpr
  apply Request.wp_send_of_some hmid
  apply (Request.wp_bind ..).mpr
  rw [activeConfiguration, Request.wp_select]
  apply (Request.wp_bind ..).mpr
  apply appendEntryInTransaction_accepted hactivate
  · exact rollbackEntry_appendable hstorable _ (Option.isSome_iff_exists.mpr ⟨_, hactor⟩)
      h.hashes.tail hsurroundings.signingKeyId
  · exact hsurroundings.sha256_length
  · intro row happended
    exact hsurroundings.admits h.ordered (Nat.le_succ _) happended _
  · intro row happended
    apply Request.wp_commitTransaction_bind
    have hnew : restored env base (maxVersion s.db.configurations base.name + 1) createdBy ∈
        activated.rows := by simp [hactivated]
    have hid : (rollbackCopy env base (maxVersion s.db.configurations base.name + 1) actor).id =
      (restored env base (maxVersion s.db.configurations base.name + 1) createdBy).id := rfl
    rw [hid]
    exact refreshed_loads hnew ⟨rfl, hactivated⟩

/-- A rollback that is not acceptable fails. -/
theorem rollbackConfiguration_refused {db : Db} {n : ℕ} (hbase : base ∈ db.configurations.rows)
    (hlive : base.deletedAt = none) (h : ¬ Acceptable db.configurations base.name actor) :
    (rollbackConfiguration crypto env base.id actor).wp postgres
      (fun result _ _ _ => result = .error .rejected) db db n := by
  apply (Request.wp_bind ..).mpr
  apply getConfigurationOrm_loads hbase hlive
  apply (Request.wp_bind ..).mpr
  rw [nextVersion, Request.wp_select]
  apply (Request.wp_bind ..).mpr
  rw [Request.wp_send]
  constructor
  · intro _
    rfl
  · intro mid hmid
    obtain ⟨inserted, hinsert, -⟩ := applyAll_configuration_singleton hmid
    obtain ⟨hactor, hversion⟩ := insertConfiguration_accepts hinsert
    exact absurd ⟨hactor, hversion⟩ h

end

/-! ## What a rollback restores -/

/-- A rollback to `v` took the database from `before` to `after` and added the version `c`. -/
structure RolledBack (env : ReadEnv) (v : Configuration) (before after : Db)
    (c : Configuration) : Prop where
  name : c.name = v.name
  newVersion : ∀ d ∈ before.configurations.rows, d.name = v.name → d.version < c.version
  payload : c.payload = v.payload
  sensitiveKeys : c.sensitiveKeys = v.sensitiveKeys
  checksum : c.checksum = v.checksum
  latest : ∀ n, ((getLatestConfiguration v.name).serial postgres after after n).result =
    .ok (toRead c)
  latestActive : ∀ n, ((getLatestActiveConfiguration v.name).serial postgres after after n).result =
    .ok (toRead c)
  comparison : ∀ n, ∃ response, ((compareConfigurations env c.id v.version).serial postgres after
    after n).result = .ok response ∧ NoDifference response
  archived : ∀ d ∈ before.configurations.rows, isActive v.name d = true →
    ∃ d' ∈ after.configurations.rows, d'.id = d.id ∧ d'.status = .archived
  otherNames : (after.configurations.rows.filter fun d => d.name ≠ v.name) =
    before.configurations.rows.filter fun d => d.name ≠ v.name
  documents : KeepsDocuments before.configurations after.configurations

theorem RolledBack.sameDocument {env : ReadEnv} {v c : Configuration} {before after : Db}
    {new : Configuration} (h : RolledBack env c before after new) (hsame : v.SameDocument c) :
    RolledBack env v before after new where
  name := h.name.trans hsame.name
  newVersion := hsame.name ▸ h.newVersion
  payload := h.payload.trans hsame.payload
  sensitiveKeys := h.sensitiveKeys.trans hsame.sensitiveKeys
  checksum := h.checksum.trans hsame.checksum
  latest := hsame.name ▸ h.latest
  latestActive := hsame.name ▸ h.latestActive
  comparison := hsame.version ▸ h.comparison
  archived := hsame.name ▸ h.archived
  otherNames := hsame.name ▸ h.otherNames
  documents := h.documents

section

variable {crypto : AuditCrypto} {env : ConfigurationEnv} {base : Configuration}
  {createdBy : String} {t t' : Configurations}

/-- The rows after a rollback. -/
def Rows (env : ConfigurationEnv) (base : Configuration) (createdBy : String)
    (t t' : Configurations) : Prop :=
  t'.rows = t.rows.map (retired env base.name) ++
    [restored env base (maxVersion t base.name + 1) createdBy]

theorem Rows.mem (h : Rows env base createdBy t t') {d' : Configuration} :
    d' ∈ t'.rows ↔ (∃ d ∈ t.rows, retired env base.name d = d') ∨
      d' = restored env base (maxVersion t base.name + 1) createdBy := by
  rw [h, List.mem_append, List.mem_map, List.mem_singleton]

/-- The new version is the largest one of its name. -/
theorem Rows.version_le (h : Rows env base createdBy t t') {d' : Configuration} (hd' : d' ∈ t'.rows)
    (hname : d'.name = base.name) : d'.version ≤ maxVersion t base.name + 1 := by
  rcases h.mem.mp hd' with ⟨d, hd, rfl⟩ | rfl
  · rw [retired_sameDocument.name] at hname
    rw [retired_sameDocument.version, ← hname]
    exact Nat.le_succ_of_le (version_le_maxVersion hd)
  · exact Nat.le_refl _

/-- A query for the largest version of the name finds the new one. -/
theorem Rows.argmax (h : Rows env base createdBy t t') (hnumbered : Numbered crypto t')
    {p : Configuration → Bool} (hname : ∀ d, p d = true → d.name = base.name)
    (hnew : p (restored env base (maxVersion t base.name + 1) createdBy) = true) :
    (t'.rows.filter p).argmax Configuration.version =
      some (restored env base (maxVersion t base.name + 1) createdBy) := by
  have hmem : restored env base (maxVersion t base.name + 1) createdBy ∈ t'.rows :=
    h.mem.mpr (.inr rfl)
  apply argmax_version (List.mem_filter.mpr ⟨hmem, hnew⟩)
  · intro d hd
    obtain ⟨hd, hp⟩ := List.mem_filter.mp hd
    exact h.version_le hd (hname d hp)
  · intro d hd hversion
    obtain ⟨hd, hp⟩ := List.mem_filter.mp hd
    exact version_inj hnumbered hd hmem (hname d hp) hversion

theorem Rows.otherNames (h : Rows env base createdBy t t') :
    (t'.rows.filter fun d => d.name ≠ base.name) = t.rows.filter fun d => d.name ≠ base.name := by
  have hnew : (restored env base (maxVersion t base.name + 1) createdBy).name = base.name := rfl
  have hkept : ∀ l : List Configuration,
      ((l.map (retired env base.name)).filter fun d => d.name ≠ base.name) =
        l.filter fun d => d.name ≠ base.name := by
    intro l
    induction l with
    | nil => rfl
    | cons d l ih =>
      rw [List.map_cons, List.filter_cons, List.filter_cons, ih, retired_sameDocument.name]
      by_cases hname : d.name = base.name
      · simp [hname]
      · rw [retired_of_not_active (by simp [isActive, hname])]
  rw [h, List.filter_append, hkept, List.filter_singleton, decide_eq_false (by simp [hnew])]
  exact List.append_nil _

end

/-- The rows after a rollback have everything that it promises. -/
theorem Rows.rolledBack {crypto : AuditCrypto} {env : ConfigurationEnv} {base : Configuration}
    {createdBy : String} {before after : Db}
    (h : Rows env base createdBy before.configurations after.configurations)
    (hbase : base ∈ before.configurations.rows) (hlive : base.deletedAt = none)
    (hdictionary : isDictionary (.obj base.payload) = true)
    (hnumbered : Numbered crypto after.configurations) (hstorable : StorableTable after)
    (readEnv : ReadEnv) :
    RolledBack readEnv base before after
      (restored env base (maxVersion before.configurations base.name + 1) createdBy) where
  name := rfl
  newVersion d hd hname := by
    have hle := version_le_maxVersion hd
    rw [hname] at hle
    exact Nat.lt_succ_of_le hle
  payload := rfl
  sensitiveKeys := rfl
  checksum := rfl
  latest n := by
    have hlatest := h.argmax (p := isVersionOf base.name) hnumbered
      (fun d hd => by simpa using (Bool.and_eq_true_iff.mp hd).1)
      (by simp [isVersionOf, restored, activatedConfiguration, rollbackCopy])
    simp [getLatestConfiguration, Request.select, Request.serial, hlatest, found]
  latestActive n := by
    have hactive := h.argmax (p := isActive base.name) hnumbered
      (fun d hd => by
        simp only [isActive, Bool.and_eq_true, decide_eq_true_eq] at hd
        exact hd.1.1)
      (by simp [isActive, restored, activatedConfiguration, rollbackCopy])
    simp [getLatestActiveConfiguration, activeConfiguration, Request.select, Request.serial,
      hactive, found]
  comparison n := by
    have hnew := h.mem.mpr (.inr rfl)
    have hold := h.mem.mpr (.inl ⟨base, hbase, rfl⟩)
    have hsame : base.SameDocument (retired env base.name base) := retired_sameDocument
    have hversions : VersionsOfOneName after.configurations
        (restored env base (maxVersion before.configurations base.name + 1) createdBy)
        (retired env base.name base) :=
      ⟨hnew, hold, hsame.name, rfl, retired_deletedAt.trans hlive⟩
    have hresult := compareConfigurations_result hnumbered hstorable hversions readEnv n
    rw [hsame.version] at hresult
    refine ⟨_, hresult, ?_⟩
    have hdictionary' : isDictionary (.obj (retired env base.name base).payload) = true := by
      rw [hsame.payload]
      exact hdictionary
    apply (noDifference_iff hdictionary hdictionary').mpr
    rw [hsame.payload]
    exact valuesEqual_refl (hstorable _ hnew).payload hdictionary
  archived d hd hactive := by
    refine ⟨retired env base.name d, h.mem.mpr (.inl ⟨d, hd, rfl⟩), retired_sameDocument.id, ?_⟩
    rw [retired_of_active hactive]
    rfl
  otherNames := h.otherNames
  documents d hd := ⟨retired env base.name d, h.mem.mpr (.inl ⟨d, hd, rfl⟩), retired_sameDocument⟩

/-- The rollback to `v` in the state `s` succeeds and restores it. -/
def Restores (crypto : AuditCrypto) (env : ConfigurationEnv) (readEnv : ReadEnv) (actor : String)
    (s : Store Db) (v : Configuration) : Prop :=
  ∃ c, ((rollbackConfiguration crypto env v.id actor).serial postgres s.db s.db
      s.sequence).result = .ok (toRead c) ∧
    RolledBack readEnv v s.db ((rollbackConfiguration crypto env v.id actor).serial postgres s.db
      s.db s.sequence).db c

section

variable {crypto : AuditCrypto} {env : ConfigurationEnv} {base : Configuration} {actor : String}
  {s : Store Db}

/-- A rollback that is not acceptable is answered with no version. -/
theorem not_answered (hbase : base ∈ s.db.configurations.rows) (hlive : base.deletedAt = none)
    (h : ¬ Acceptable s.db.configurations base.name actor) (read : ConfigurationRead) :
    ((rollbackConfiguration crypto env base.id actor).serial postgres s.db s.db
      s.sequence).result ≠ .ok read := by
  have hrefused : (rollbackConfiguration crypto env base.id actor).wp postgres
      (fun result _ _ _ => result = .error .rejected) s.db s.db s.sequence :=
    rollbackConfiguration_refused hbase hlive h
  obtain ⟨_, hrejected⟩ := Request.serial_sound hrefused
  rw [hrejected]
  intro heq
  nomatch heq

theorem restores_of_acceptable (h : Reached crypto s) (hbase : base ∈ s.db.configurations.rows)
    (hlive : base.deletedAt = none) (hdictionary : isDictionary (.obj base.payload) = true)
    (hsurroundings : Surroundings crypto env s.db base actor) (readEnv : ReadEnv)
    (hacceptable : Acceptable s.db.configurations base.name actor) :
    Restores crypto env readEnv actor s base := by
  obtain ⟨hactor, hversion⟩ := hacceptable
  obtain ⟨createdBy, hactor⟩ := Option.isSome_iff_exists.mp hactor
  obtain ⟨_, hresult, hrows⟩ := Request.serial_sound
    (rollbackConfiguration_result h hbase hlive hsurroundings hactor hversion)
  obtain ⟨_, hsteps⟩ := Request.serial_sound
    (rollbackConfiguration_steps (n := s.sequence) h.lifecycle h.fits env base.id actor)
  have hstorable : StorableTable ((rollbackConfiguration crypto env base.id actor).serial postgres
      s.db s.db s.sequence).db :=
    Store.exec_invariant (fun _ _ _ happly => StorableTable.apply happly)
      (rollbackConfiguration crypto env base.id actor) s h.storable
  have hnumbered := numbered_steps hsteps h.numbered
  exact ⟨_, hresult, Rows.rolledBack hrows hbase hlive hdictionary hnumbered hstorable readEnv⟩

end

/-- In every run from an empty table a rollback restores a version that is not deleted exactly
where the columns take the actor and the next number. -/
theorem rollback_restores_iff {crypto : AuditCrypto} {s : Store Db}
    (hempty : s.db.configurations.rows = []) (hordered : Ordered s.db.auditLog s.sequence)
    (hhashes : HashesFit s.db.auditLog) (rs rs' : List ConfigurationRequest)
    (hdictionaries : BringDictionaries (rs ++ rs')) {v c : Configuration}
    (hv : v ∈ (execAll crypto s rs).db.configurations.rows)
    (hc : c ∈ (execAll crypto s (rs ++ rs')).db.configurations.rows) (hid : c.id = v.id)
    (hlive : c.deletedAt = none) {env : ConfigurationEnv} {actor : String}
    (hsurroundings : Surroundings crypto env (execAll crypto s (rs ++ rs')).db c actor)
    (readEnv : ReadEnv) :
    Restores crypto env readEnv actor (execAll crypto s (rs ++ rs')) v ↔
      Acceptable (execAll crypto s (rs ++ rs')).db.configurations v.name actor := by
  have hstart : Reached crypto s := reached_of_empty hempty hordered hhashes
  have hfirst : Reached crypto (execAll crypto s rs) := reached_execAll hstart rs
  have hreached : Reached crypto (execAll crypto s (rs ++ rs')) := reached_execAll hstart _
  have hkept : KeepsDocuments (execAll crypto s rs).db.configurations
      (execAll crypto s (rs ++ rs')).db.configurations := by
    rw [execAll_append]
    exact keepsDocuments_steps (execAll_steps hfirst.lifecycle hfirst.fits rs')
  -- the row of the run's end holds the document that `v` was created with
  obtain ⟨c', hc', hsame⟩ := hkept v hv
  have hrow : c' = c :=
    (execAll crypto s (rs ++ rs')).db.configurations.eq_of_key_eq hc' hc (hsame.id.trans hid.symm)
  subst hrow
  have hdictionary : isDictionary (.obj c'.payload) = true :=
    payloads_execAll (P := fun payload => isDictionary (.obj payload) = true) hempty (rs ++ rs')
      hdictionaries c' hc
  rw [← hsame.name]
  constructor
  · rintro ⟨new, hresult, -⟩
    rw [← hid] at hresult
    by_contra hnot
    exact not_answered hc hlive hnot _ hresult
  · intro hacceptable
    obtain ⟨new, hresult, hrolledBack⟩ :=
      restores_of_acceptable hreached hc hlive hdictionary hsurroundings readEnv hacceptable
    rw [hid] at hresult hrolledBack
    exact ⟨new, hresult, hrolledBack.sameDocument hsame⟩

/-! ## Two rollbacks -/

/-- After two versions, the activation of the second one and a rollback to the first. -/
def sampleStore : Store Db :=
  execAll sha256Crypto ⟨emptyDb, 1⟩ (sampleRun.take 2 ++ sampleRun.drop 2)

theorem rollback_restores_iff_sample :
    ∃ v, v.version = 1 ∧ Restores sha256Crypto (sampleConfigurationEnv 5) sampleReadEnv
      "admin@example.com" sampleStore v := by
  have hdictionaries : BringDictionaries (sampleRun.take 2 ++ sampleRun.drop 2) := by
    unfold BringDictionaries
    decide +kernel
  obtain ⟨v, hv, c, hc, hfirst, hid, hlive, hacceptable, huuid, haudit, hhash⟩ :
      ∃ v ∈ (execAll sha256Crypto ⟨emptyDb, 1⟩ (sampleRun.take 2)).db.configurations.rows,
        ∃ c ∈ sampleStore.db.configurations.rows, v.version = 1 ∧ c.id = v.id ∧
          c.deletedAt = none ∧
          Acceptable sampleStore.db.configurations v.name "admin@example.com" ∧
          (∀ d ∈ sampleStore.db.configurations.rows,
            d.id ≠ (sampleConfigurationEnv 5).uuid4 0) ∧
          (∀ r ∈ sampleStore.db.auditLog, r.id ≠ (sampleConfigurationEnv 5).audit.uuid4) ∧
          ∀ r ∈ sampleStore.db.auditLog, r.entryHash ≠
            sha256Crypto.computeEntryHash (tailHash sampleStore.db.auditLog)
              (payloadFields (sampleConfigurationEnv 5).audit.now (rollbackEntry c
                (maxVersion sampleStore.db.configurations c.name + 1) "admin@example.com")) := by
    decide +kernel
  have hsurroundings : Surroundings sha256Crypto (sampleConfigurationEnv 5) sampleStore.db c
      "admin@example.com" := ⟨huuid, haudit, Sha256.length_sha256, hhash, by decide⟩
  rw [sampleStore] at hc hsurroundings hacceptable
  have hiff := rollback_restores_iff (s := ⟨emptyDb, 1⟩) rfl (ordered_nil 1) hashesFit_nil
    (sampleRun.take 2) (sampleRun.drop 2) hdictionaries hv hc hid hlive hsurroundings sampleReadEnv
  exact ⟨v, hfirst, hiff.mpr hacceptable⟩

/-- An e-mail of 140 characters, which a user can have. -/
def longEmail : String :=
  String.ofList (List.replicate 64 'a' ++ '@' :: (List.replicate 63 'b' ++ chars ".example.com"))

/-- A rollback by its owner fails. -/
theorem long_email_refused :
    ∃ v ∈ sampleStore.db.configurations.rows, v.deletedAt = none ∧
      ¬ Restores sha256Crypto (sampleConfigurationEnv 5) sampleReadEnv longEmail sampleStore v := by
  obtain ⟨v, hv, hlive⟩ : ∃ v ∈ sampleStore.db.configurations.rows, v.deletedAt = none := by
    decide +kernel
  have hlong : (varchar 120 longEmail).isSome = false := by decide +kernel
  have hnot : ¬ Acceptable sampleStore.db.configurations v.name longEmail := by
    simp [Acceptable, hlong]
  refine ⟨v, hv, hlive, ?_⟩
  rintro ⟨c, hresult, -⟩
  exact not_answered hv hlive hnot _ hresult

end NexusEngine.ConfigurationRollback
