import NexusEngine.SafeServices
import NexusEngine.ConfigurationRaces
import NexusEngine.ConfigurationVersions

/-!
# Versions that are numbered concurrently

A session numbers a version after the largest one that it has read, and other sessions can commit
versions of the name in the meantime. Rows are never removed, so the numbers below it stay taken,
and the constraint on the table refuses a number that is taken twice.
-/

namespace NexusEngine.ConfigurationVersionRaces

open TransactionalRequests ReadCommittedSessions StoredColumns KeyedTables ConfigurationTable
  Database AuditService AuditAppends ConfigurationService ConfigurationLifecycle
  ConfigurationVersions AuditedOperations QuietRequests SafeServices
open AuditVerification (sha256Crypto)

/-- No version of a name is stored twice or missing below another one, and every checksum is that
of the payload. -/
structure Counted (crypto : AuditCrypto) (t : Configurations) : Prop where
  distinct : ∀ c ∈ t.rows, ∀ d ∈ t.rows, c.name = d.name → c.version = d.version → c = d
  positive : ∀ c ∈ t.rows, 0 < c.version
  gapless : ∀ c ∈ t.rows, ∀ v, 0 < v → v ≤ c.version →
    ∃ d ∈ t.rows, d.name = c.name ∧ d.version = v
  checksum : ∀ c ∈ t.rows, c.checksum = payloadChecksum crypto c.payload
  fits : ∀ c ∈ t.rows, c.name.toList.length ≤ 120

/-- A name has a version with this number, unless the number is zero. -/
def Taken (name : String) (v : ℕ) (db : Db) : Prop :=
  v = 0 ∨ ∃ c ∈ db.configurations.rows, c.name = name ∧ c.version = v

/-- The version that was read is stored. -/
def Stored (base : Configuration) (db : Db) : Prop :=
  ∃ c ∈ db.configurations.rows, base.SameDocument c

/-- The documents of one state are those of the other, and maybe more. -/
def Grows (db db' : Db) : Prop := KeepsDocuments db.configurations db'.configurations

/-! ## Tables that only grow -/

theorem sameDocument_symm {c c' : Configuration} (h : c.SameDocument c') : c'.SameDocument c where
  id := h.id.symm
  name := h.name.symm
  version := h.version.symm
  payload := h.payload.symm
  sensitiveKeys := h.sensitiveKeys.symm
  checksum := h.checksum.symm
  description := h.description.symm
  createdBy := h.createdBy.symm
  createdAt := h.createdAt.symm

/-- The row that is stored of an inserted one does not depend on the table. -/
theorem insertConfiguration_row {a b a' b' : Configurations} {c : Configuration}
    (ha : insertConfiguration a c = some a') (hb : insertConfiguration b c = some b') :
    ∃ row, a.insert row = some a' ∧ b.insert row = some b' := by
  simp only [insertConfiguration, Option.bind_eq_bind, Option.bind_eq_some_iff,
    Option.ite_none_left_eq_some] at ha hb
  obtain ⟨name, hname, _, _, checksum, hchecksum, description, hdescription, createdBy,
    hcreatedBy, _, _, hinsert⟩ := ha
  obtain ⟨name', hname', _, _, checksum', hchecksum', description', hdescription', createdBy',
    hcreatedBy', _, _, hinsert'⟩ := hb
  obtain rfl := Option.some.inj (hname.symm.trans hname')
  obtain rfl := Option.some.inj (hchecksum.symm.trans hchecksum')
  obtain rfl := Option.some.inj (hdescription.symm.trans hdescription')
  obtain rfl := Option.some.inj (hcreatedBy.symm.trans hcreatedBy')
  exact ⟨_, hinsert, hinsert'⟩

/-- A number that is taken is refused. -/
theorem insertConfiguration_free {t t' : Configurations} {c : Configuration} {name : String}
    (hname : varchar 120 c.name = some name) (h : insertConfiguration t c = some t') :
    ∀ d ∈ t.rows, d.name = name → d.version ≠ c.version := by
  simp only [insertConfiguration, Option.bind_eq_bind, Option.bind_eq_some_iff,
    Option.ite_none_left_eq_some] at h
  obtain ⟨name', hname', _, _, _, _, _, _, _, _, hfree, _⟩ := h
  obtain rfl := Option.some.inj (hname.symm.trans hname')
  intro d hd hdname hversion
  apply hfree
  rw [List.any_eq_true]
  exact ⟨d, hd, by simp [hdname, hversion]⟩

/-- What a statement other than an insert leaves of the rows. -/
theorem rows_kept {w : Statement} {db db' : Db} (h : postgres.apply w db = some db')
    (hw : ∀ c, w ≠ .configuration (.insert c)) :
    Grows db db' ∧ ∀ c' ∈ db'.configurations.rows,
      ∃ c ∈ db.configurations.rows, c.SameDocument c' := by
  rcases (apply_frame h).configurations with ⟨statement, rfl, hst⟩ | hsame
  · cases statement with
    | insert c => exact absurd rfl (hw c)
    | update id patch =>
      change db.configurations.update id patch.apply (fun _ => rfl) = _ at hst
      have hrows := (Table.update_eq_some.mp hst).2
      have hmoved : ∀ c : Configuration,
          c.SameDocument (if c.id = id then patch.apply c else c) := by
        intro c
        split
        · exact patch.apply_sameDocument c
        · exact .refl c
      constructor
      · intro c hc
        exact ⟨_, hrows ▸ List.mem_map_of_mem hc, hmoved c⟩
      · intro c' hc'
        rw [hrows] at hc'
        obtain ⟨c, hc, rfl⟩ := List.mem_map.mp hc'
        exact ⟨c, hc, hmoved c⟩
  · rw [Grows, hsame]
    exact ⟨.refl _, fun c hc => ⟨c, hc, .refl c⟩⟩

theorem apply_grows {w : Statement} {db db' : Db} (h : postgres.apply w db = some db') :
    Grows db db' := by
  by_cases hw : ∃ c, w = .configuration (.insert c)
  · obtain ⟨c, rfl⟩ := hw
    obtain ⟨configurations, hinsert, rfl⟩ := apply_configuration.mp h
    obtain ⟨row, -, hrows⟩ := insertConfiguration_eq_some hinsert
    intro d hd
    exact ⟨d, (Table.mem_insert hrows).mpr (.inl hd), .refl d⟩
  · exact (rows_kept h fun c heq => hw ⟨c, heq⟩).1

theorem apply_mono {w : Statement} {a b a' b' : Db} (hab : Grows a b)
    (ha : postgres.apply w a = some a') (hb : postgres.apply w b = some b') : Grows a' b' := by
  have hold : Grows b b' := apply_grows hb
  by_cases hw : ∃ c, w = .configuration (.insert c)
  · obtain ⟨c, rfl⟩ := hw
    obtain ⟨configurations, hinsert, rfl⟩ := apply_configuration.mp ha
    obtain ⟨configurations', hinsert', rfl⟩ := apply_configuration.mp hb
    obtain ⟨row, hrows, hrows'⟩ := insertConfiguration_row hinsert hinsert'
    intro d hd
    rcases (Table.mem_insert hrows).mp hd with hd | rfl
    · exact (hab.trans hold) d hd
    · exact ⟨d, (Table.mem_insert hrows').mpr (.inr rfl), .refl d⟩
  · intro d hd
    obtain ⟨c, hc, hsame⟩ := (rows_kept ha fun c heq => hw ⟨c, heq⟩).2 d hd
    obtain ⟨c', hc', hkept⟩ := (hab.trans hold) c hc
    exact ⟨c', hc', (sameDocument_symm hsame).trans hkept⟩

theorem growth : Growth postgres Grows where
  refl db := .refl db.configurations
  trans _ _ _ h h' := KeepsDocuments.trans h h'
  grows _ _ _ h := apply_grows h
  mono _ _ _ _ _ h ha hb := apply_mono h ha hb

theorem stable_taken (name : String) (v : ℕ) : Stable Grows (Taken name v) := by
  intro a b hab ha
  rcases ha with hzero | ⟨c, hc, hname, hversion⟩
  · exact .inl hzero
  · obtain ⟨d, hd, hsame⟩ := hab c hc
    exact .inr ⟨d, hd, hsame.name.trans hname, hsame.version.trans hversion⟩

/-- The number follows one that is taken. -/
def Follows (name : String) (version : ℕ) (db : Db) : Prop :=
  ∃ v, version = v + 1 ∧ Taken name v db

theorem stable_follows (name : String) (version : ℕ) : Stable Grows (Follows name version) := by
  rintro a b hab ⟨v, hversion, htaken⟩
  exact ⟨v, hversion, stable_taken name v a b hab htaken⟩

theorem stable_stored (base : Configuration) : Stable Grows (Stored base) := by
  intro a b hab ⟨c, hc, hsame⟩
  obtain ⟨d, hd, hkept⟩ := hab c hc
  exact ⟨d, hd, hsame.trans hkept⟩

/-! ## Statements -/

section

variable {crypto : AuditCrypto} {t t' : Configurations}

/-- A number after one that is taken leaves no gap. -/
theorem Counted.insert (h : Counted crypto t) {c : Configuration} {v : ℕ}
    (hinsert : insertConfiguration t c = some t') (version : c.version = v + 1)
    (taken : v = 0 ∨ ∃ d ∈ t.rows, d.name = c.name ∧ d.version = v)
    (checksum : c.checksum = payloadChecksum crypto c.payload)
    (fits : c.name.toList.length ≤ 120) : Counted crypto t' := by
  obtain ⟨row, hstored, hrows⟩ := insertConfiguration_eq_some hinsert
  have hfree := insertConfiguration_free hstored.name hinsert
  have hname : row.name = c.name := varchar_of_length_le hstored.name fits
  have hversion : row.version = v + 1 := by rw [hstored.rest, version]
  have hmem : ∀ {d}, d ∈ t'.rows ↔ d ∈ t.rows ∨ d = row := fun {d} => Table.mem_insert hrows
  have hother : ∀ d ∈ t.rows, d.name = row.name → d.version ≠ row.version := by
    intro d hd hdname
    rw [hversion, ← version]
    exact hfree d hd hdname
  constructor
  · intro d hd e he hdname hdversion
    rcases hmem.mp hd with hd | rfl <;> rcases hmem.mp he with he | rfl
    · exact h.distinct d hd e he hdname hdversion
    · exact absurd hdversion (hother d hd hdname)
    · exact absurd hdversion.symm (hother e he hdname.symm)
    · rfl
  · intro d hd
    rcases hmem.mp hd with hd | rfl
    · exact h.positive d hd
    · omega
  · intro d hd u hpos hle
    rcases hmem.mp hd with hd | rfl
    · obtain ⟨e, he, hfound⟩ := h.gapless d hd u hpos hle
      exact ⟨e, hmem.mpr (.inl he), hfound⟩
    · by_cases hlast : u = v + 1
      · exact ⟨d, hmem.mpr (.inr rfl), rfl, hversion.trans hlast.symm⟩
      · rcases taken with rfl | ⟨b, hb, hbname, hbversion⟩
        · omega
        · obtain ⟨e, he, hename, heversion⟩ := h.gapless b hb u hpos (by omega)
          exact ⟨e, hmem.mpr (.inl he), hename.trans (hbname.trans hname.symm), heversion⟩
  · intro d hd
    rcases hmem.mp hd with hd | rfl
    · exact h.checksum d hd
    · have hchecksum := hstored.checksum
      rw [checksum] at hchecksum
      rw [checksum_stored hchecksum, hstored.rest]
  · intro d hd
    rcases hmem.mp hd with hd | rfl
    · exact h.fits d hd
    · rw [hname]
      exact fits

/-- Rows that keep their documents keep the count. -/
theorem Counted.kept (h : Counted crypto t) (hgrows : KeepsDocuments t t')
    (hkept : ∀ c' ∈ t'.rows, ∃ c ∈ t.rows, c.SameDocument c') : Counted crypto t' := by
  constructor
  · intro c' hc' d' hd' hname hversion
    obtain ⟨c, hc, hsame⟩ := hkept c' hc'
    obtain ⟨d, hd, hsame'⟩ := hkept d' hd'
    have heq : c = d := by
      apply h.distinct c hc d hd
      · rw [← hsame.name, ← hsame'.name, hname]
      · rw [← hsame.version, ← hsame'.version, hversion]
    apply t'.eq_of_key_eq hc' hd'
    rw [hsame.id, hsame'.id, heq]
  · intro c' hc'
    obtain ⟨c, hc, hsame⟩ := hkept c' hc'
    rw [hsame.version]
    exact h.positive c hc
  · intro c' hc' v hpos hle
    obtain ⟨c, hc, hsame⟩ := hkept c' hc'
    obtain ⟨d, hd, hname, hversion⟩ := h.gapless c hc v hpos (hsame.version ▸ hle)
    obtain ⟨d', hd', hsame'⟩ := hgrows d hd
    exact ⟨d', hd', hsame'.name.trans (hname.trans hsame.name.symm), hsame'.version.trans hversion⟩
  · intro c' hc'
    obtain ⟨c, hc, hsame⟩ := hkept c' hc'
    rw [hsame.checksum, hsame.payload]
    exact h.checksum c hc
  · intro c' hc'
    obtain ⟨c, hc, hsame⟩ := hkept c' hc'
    rw [hsame.name]
    exact h.fits c hc

/-- The statement inserts no version. -/
def InsertsNone (w : Statement) : Prop := ∀ c, w ≠ .configuration (.insert c)

theorem counted_keeps (w : Statement) (before after : Db) (hw : InsertsNone w)
    (h : postgres.apply w before = some after) (hcounted : Counted crypto before.configurations) :
    Counted crypto after.configurations :=
  hcounted.kept (rows_kept h hw).1 (rows_kept h hw).2

theorem insertsNone_saveConfiguration {old new : Configuration} {w : Statement}
    (hw : w ∈ saveConfiguration old new) : InsertsNone w := by
  intro c heq
  unfold saveConfiguration at hw
  split at hw
  · cases hw
  · rw [List.mem_singleton.mp hw] at heq
    cases heq

theorem insertsNone_archiveCurrent {env : ConfigurationEnv} {id : Uuid}
    {current : Option Configuration} {w : Statement} (hw : w ∈ archiveCurrent env id current) :
    InsertsNone w := by
  unfold archiveCurrent at hw
  split at hw
  · cases hw
  · split at hw
    · cases hw
    · exact insertsNone_saveConfiguration hw

/-- The statements of an activation, with their entry. -/
theorem insertsNone_activation {env : ConfigurationEnv} {id : Uuid}
    {current : Option Configuration} {old new : Configuration} {payload : AuditLogEntryCreate} :
    (appendEntryInTransaction crypto env.audit
      (archiveCurrent env id current ++ saveConfiguration old new) payload).Sends InsertsNone := by
  apply append_sends
  · intro w hw
    rcases List.mem_append.mp hw with hw | hw
    · exact insertsNone_archiveCurrent hw
    · exact insertsNone_saveConfiguration hw
  · intro before signature n c heq
    cases heq

/-! ## Requests -/

/-- The requests of the service, verified against interference. -/
abbrev CountsSafely {α : Type} (crypto : AuditCrypto) (K : Db → Prop) (p : Service α)
    (K' : α → Db → Prop) : Prop :=
  Safe postgres Grows (fun db => Counted crypto db.configurations) K p K'

theorem counts_of_sends {α : Type} {K : Db → Prop} {p : Service α} (hstable : Stable Grows K)
    (h : p.Sends InsertsNone) : CountsSafely crypto K p fun _ => K :=
  Safe.of_sends growth hstable h counted_keeps

/-- The commit and the response that end a request. -/
theorem finish_counts {K : Db → Prop} (hstable : Stable Grows K) (id : Uuid) :
    CountsSafely crypto K (do
      Request.commitTransaction
      refreshed id) fun _ => K :=
  (Safe.commit growth hstable).bind growth fun _ =>
    Safe.of_readsOnly growth hstable (refreshedConfiguration_readsOnly id)

theorem getConfigurationOrm_counts (id : Uuid) :
    CountsSafely crypto (fun _ => True) (getConfigurationOrm id) Stored := by
  refine (Safe.select growth _).bind growth fun row => ?_
  refine (safe_found growth).bind growth fun config => ?_
  refine (safe_ensure growth).bind growth fun _ => Safe.done growth ?_
  rintro db ⟨⟨⟨view, -, -, hview, hread⟩, hrow⟩, -⟩
  rw [hrow] at hread
  exact hview config (Table.find?_eq_some.mp hread).1

/-- The largest version of a name is the number of one of its versions. -/
theorem taken_maxVersion (db : Db) (name : String) :
    Taken name (maxVersion db.configurations name) db := by
  have hmax : ∀ l : List Configuration, (∀ c ∈ l, c ∈ db.configurations.rows ∧ c.name = name) →
      Taken name ((l.map Configuration.version).foldr max 0) db := by
    intro l hl
    induction l with
    | nil => exact .inl rfl
    | cons c l ih =>
      have hc := hl c List.mem_cons_self
      rw [List.map_cons, List.foldr_cons]
      rcases max_choice c.version ((l.map Configuration.version).foldr max 0) with hmax | hmax
      · rw [hmax]
        exact .inr ⟨c, hc.1, hc.2, rfl⟩
      · rw [hmax]
        exact ih fun d hd => hl d (List.mem_cons_of_mem _ hd)
  apply hmax
  intro c hc
  simpa using hc

theorem nextVersion_counts {K : Db → Prop} (hstable : Stable Grows K) (name : String) :
    CountsSafely crypto K (nextVersion name) fun version db =>
      K db ∧ Follows name version db := by
  apply (Safe.select growth _).mono (fun _ hk => hk)
  rintro version db ⟨view, -, hk, hview, rfl⟩
  have htaken := stable_taken name _ view db hview (taken_maxVersion view name)
  exact ⟨hstable view db hview hk, _, rfl, htaken⟩

/-- An insert of a version whose number follows one that is known to be taken. -/
theorem insert_counts {K : Db → Prop} (hstable : Stable Grows K) {c : Configuration}
    (h : ∀ db, K db → Counted crypto db.configurations → ∃ v, c.version = v + 1 ∧
      Taken c.name v db ∧ c.checksum = payloadChecksum crypto c.payload ∧
        c.name.toList.length ≤ 120) :
    CountsSafely crypto K (Request.send fun _ => [.configuration (.insert c)]) fun _ => K := by
  apply Safe.send growth hstable
  intro mid after _ hk hcounted happly
  obtain ⟨v, hversion, htaken, hchecksum, hfits⟩ := h mid hk hcounted
  obtain ⟨configurations, hinsert, rfl⟩ := applyAll_configuration_singleton happly
  exact hcounted.insert hinsert hversion htaken hchecksum hfits

theorem createConfiguration_counts (env : ConfigurationEnv) (payload : ConfigurationCreate)
    (createdBy : String) :
    CountsSafely crypto (fun _ => True) (createConfiguration crypto env payload createdBy)
      fun _ _ => True := by
  refine (Safe.of_readsOnly growth stable_true (Request.readsOnly_select _)).bind growth
    fun existing => ?_
  refine (Safe.of_readsOnly growth stable_true (ensure_readsOnly _ _)).bind growth fun _ => ?_
  refine (Safe.of_readsOnly growth stable_true (ensureValid_readsOnly _ _)).bind growth
    fun _ => ?_
  refine Safe.bind growth (insert_counts stable_true fun db _ _ => ?_) fun _ =>
    finish_counts stable_true _
  exact ⟨0, rfl, .inl rfl, rfl, payload.name_max⟩

theorem createSuccessorVersion_counts (env : ConfigurationEnv) (configId : Uuid)
    (payload : ConfigurationUpdate) (createdBy : String) :
    CountsSafely crypto (fun _ => True)
      (createSuccessorVersion crypto env configId payload createdBy) fun _ _ => True := by
  refine (getConfigurationOrm_counts configId).bind growth fun base => ?_
  have hbase := stable_stored base
  refine (Safe.of_readsOnly growth hbase (ensureValid_readsOnly _ _)).bind growth fun _ => ?_
  refine (nextVersion_counts hbase base.name).bind growth fun version => ?_
  have hknown := hbase.and (stable_follows base.name version)
  refine Safe.bind growth (insert_counts hknown ?_) fun _ =>
    (finish_counts hknown _).mono (fun _ h => h) fun _ _ _ => trivial
  rintro db ⟨⟨c, hc, hsame⟩, v, hversion, htaken⟩ hcounted
  exact ⟨v, hversion, htaken, rfl, hsame.name ▸ hcounted.fits c hc⟩

theorem activateConfiguration_counts (env : ConfigurationEnv) (configId : Uuid) (actor : String) :
    CountsSafely crypto (fun _ => True) (activateConfiguration crypto env configId actor)
      fun _ _ => True := by
  apply counts_of_sends stable_true
  refine (getConfigurationOrm_readsOnly _).sends.bind fun config => ?_
  refine (ensure_readsOnly _ _).sends.bind fun _ => ?_
  refine (Request.sends_select _).bind fun current => ?_
  exact insertsNone_activation.bind fun _ =>
    Request.sends_commit.bind fun _ => (refreshedConfiguration_readsOnly _).sends

theorem archiveConfiguration_counts (env : ConfigurationEnv) (configId : Uuid) :
    CountsSafely crypto (fun _ => True) (archiveConfiguration env configId) fun _ _ => True := by
  apply counts_of_sends stable_true
  refine (getConfigurationOrm_readsOnly _).sends.bind fun config => ?_
  refine (ensure_readsOnly _ _).sends.bind fun _ => ?_
  refine (Request.sends_send fun _ _ => insertsNone_saveConfiguration).bind fun _ => ?_
  exact Request.sends_commit.bind fun _ => (refreshedConfiguration_readsOnly _).sends

theorem deleteConfiguration_counts (env : ConfigurationEnv) (configId : Uuid) :
    CountsSafely crypto (fun _ => True) (deleteConfiguration env configId) fun _ _ => True := by
  apply counts_of_sends stable_true
  refine (getConfigurationOrm_readsOnly _).sends.bind fun config => ?_
  refine (ensure_readsOnly _ _).sends.bind fun _ => ?_
  exact (Request.sends_send fun _ _ => insertsNone_saveConfiguration).bind fun _ =>
    Request.sends_commit

theorem rollbackConfiguration_counts (env : ConfigurationEnv) (configId : Uuid) (actor : String) :
    CountsSafely crypto (fun _ => True) (rollbackConfiguration crypto env configId actor)
      fun _ _ => True := by
  refine (getConfigurationOrm_counts configId).bind growth fun base => ?_
  have hbase := stable_stored base
  refine (nextVersion_counts hbase base.name).bind growth fun version => ?_
  have hknown := hbase.and (stable_follows base.name version)
  refine Safe.bind growth (insert_counts hknown ?_) fun _ =>
    Safe.mono (K := fun _ => True) (counts_of_sends stable_true ?_) (fun _ _ => trivial)
      fun _ _ h => h
  · -- the copy takes its checksum from the version that it copies
    rintro db ⟨⟨c, hc, hsame⟩, v, hversion, htaken⟩ hcounted
    have hchecksum := hcounted.checksum c hc
    rw [hsame.checksum, hsame.payload] at hchecksum
    exact ⟨v, hversion, htaken, hchecksum, hsame.name ▸ hcounted.fits c hc⟩
  · refine (Request.sends_select _).bind fun current => ?_
    exact insertsNone_activation.bind fun _ =>
      Request.sends_commit.bind fun _ => (refreshedConfiguration_readsOnly _).sends

theorem importItems_counts (env : ConfigurationEnv) (createdBy : String) (k : ℕ)
    (items : List ConfigurationImportItem) :
    CountsSafely crypto (fun _ => True) (importItems crypto env createdBy k items)
      fun _ _ => True := by
  induction items generalizing k with
  | nil => exact Safe.done growth fun _ hk => hk
  | cons item items ih =>
    rw [importItems]
    split
    · exact safe_answer growth (ih (k + 1))
    · refine (nextVersion_counts stable_true item.name).bind growth fun version => ?_
      have hknown := stable_true.and (stable_follows item.name version)
      refine Safe.bind growth (insert_counts hknown ?_) fun _ =>
        (safe_answer growth (ih (k + 1))).mono (fun _ _ => trivial) fun _ _ h => h
      rintro db ⟨-, v, hversion, htaken⟩ _
      exact ⟨v, hversion, htaken, rfl, item.name_max⟩

theorem request_counts (r : ConfigurationRequest) :
    CountsSafely crypto (fun _ => True) (r.request crypto) fun _ _ => True := by
  cases r with
  | create env payload createdBy =>
    exact safe_answer growth (createConfiguration_counts env payload createdBy)
  | createSuccessor env id payload createdBy =>
    exact safe_answer growth (createSuccessorVersion_counts env id payload createdBy)
  | activate env id actor => exact safe_answer growth (activateConfiguration_counts env id actor)
  | archive env id => exact safe_answer growth (archiveConfiguration_counts env id)
  | rollback env id actor => exact safe_answer growth (rollbackConfiguration_counts env id actor)
  | delete env id => exact deleteConfiguration_counts env id
  | importAll env req createdBy =>
    apply safe_answer growth
    refine (importItems_counts env createdBy 0 req.items).bind growth fun _ => ?_
    exact (Safe.commit growth stable_true).bind growth fun _ => Safe.done growth fun _ hk => hk

/-! ## Interleavings -/

/-- The numbers of a counted name are those from one on. -/
theorem Counted.versionsOf_perm (h : Counted crypto t) (name : String) :
    ∃ k, (versionsOf t name).Perm (List.range' 1 k) := by
  have hmem : ∀ v, v ∈ versionsOf t name ↔ ∃ c ∈ t.rows, c.name = name ∧ c.version = v := by
    intro v
    simp [versionsOf, and_assoc]
  have hnodup : (versionsOf t name).Nodup := by
    have hrows : (t.rows.filter fun c => c.name = name).Nodup := (t.nodup.of_map).filter _
    refine (List.nodup_map_iff_inj_on hrows).mpr ?_
    intro c hc d hd hversion
    rw [List.mem_filter, decide_eq_true_eq] at hc hd
    exact h.distinct c hc.1 d hd.1 (hc.2.trans hd.2.symm) hversion
  refine ⟨(versionsOf t name).foldr max 0, ?_⟩
  apply (List.perm_ext_iff_of_nodup hnodup List.nodup_range').mpr
  intro v
  have hlargest : ∀ u ∈ versionsOf t name, u ≤ (versionsOf t name).foldr max 0 := by
    intro u hu
    exact List.le_max_of_le' 0 hu le_rfl
  rw [List.mem_range'_1]
  constructor
  · intro hv
    obtain ⟨c, hc, -, rfl⟩ := (hmem v).mp hv
    have hpos := h.positive c hc
    have hle := hlargest c.version hv
    omega
  · rintro ⟨hpos, hlt⟩
    obtain hzero | ⟨c, hc, hname, hversion⟩ :=
      taken_maxVersion { emptyDb with configurations := t } name
    · have hmax : (versionsOf t name).foldr max 0 = 0 := hzero
      omega
    · have hmax : c.version = (versionsOf t name).foldr max 0 := hversion
      obtain ⟨d, hd, hdname, hdversion⟩ := h.gapless c hc v (by omega) (by omega)
      exact (hmem v).mpr ⟨d, hd, hdname.trans hname, hdversion⟩

theorem counted_of_empty (h : t.rows = []) : Counted crypto t := by
  constructor <;> simp [h]

/-- In every interleaving from an empty table the committed versions of a name are numbered from
one without a gap or a repetition, every checksum is that of its row's payload, and a committed row
is never taken away and never changes its document. -/
theorem versions_counted_concurrently {db : Db} (hempty : db.configurations.rows = []) {n : ℕ}
    (rs : List ConfigurationRequest) {σ : Server Db Statement ServiceError Unit}
    (run : Server.Reaches postgres (fun _ _ => True)
      (start db n (rs.map (·.request crypto))) σ) :
    (∀ name, ∃ k, (versionsOf σ.committed.configurations name).Perm (List.range' 1 k)) ∧
      (∀ c ∈ σ.committed.configurations.rows, c.checksum = payloadChecksum crypto c.payload) ∧
      ∀ σ', Server.Reaches postgres (fun _ _ => True) σ σ' →
        KeepsDocuments σ.committed.configurations σ'.committed.configurations := by
  have hsafe : ∀ p ∈ rs.map (·.request crypto),
      CountsSafely crypto (fun _ => True) p fun _ _ => True := by
    intro p hp
    obtain ⟨r, -, rfl⟩ := List.mem_map.mp hp
    exact request_counts r
  have hcounted : Counted crypto σ.committed.configurations :=
    Server.Reaches.safe growth (counted_of_empty hempty) hsafe run
  exact ⟨hcounted.versionsOf_perm, hcounted.checksum, fun σ' => growth.reaches⟩

end

/-- A document, and two successors of its version. -/
def sampleRaces : List ConfigurationRequest :=
  [.create (sampleConfigurationEnv 1) (sampleDocument "limits" "limit" limits_length)
      "admin@example.com",
    .createSuccessor (sampleConfigurationEnv 2) 10 sampleUpdate "alice@example.com",
    .createSuccessor (sampleConfigurationEnv 3) 10 sampleUpdate "bob@example.com"]

/-- Both successors read that the largest version is the first: one is committed, and then the
other is refused. -/
def sampleSchedule : List Action :=
  List.replicate 4 (.run 0) ++ [.run 1, .run 2, .run 1, .run 2] ++ List.replicate 3 (.run 1) ++
    [.run 2]

theorem versions_counted_concurrently_sample :
    ∃ σ, Server.run postgres (fun _ _ => true)
        (start emptyDb 1 (sampleRaces.map (·.request sha256Crypto))) sampleSchedule = some σ ∧
      ∀ name, ∃ k, (versionsOf σ.committed.configurations name).Perm (List.range' 1 k) := by
  have hrun : (Server.run postgres (fun _ _ => true)
      (start emptyDb 1 (sampleRaces.map (·.request sha256Crypto))) sampleSchedule).isSome =
        true := by
    decide +kernel
  obtain ⟨σ, hσ⟩ := Option.isSome_iff_exists.mp hrun
  exact ⟨σ, hσ, (versions_counted_concurrently rfl _
    (Server.Reaches.of_run (fun _ _ _ => trivial) .refl hσ)).1⟩

end NexusEngine.ConfigurationVersionRaces
