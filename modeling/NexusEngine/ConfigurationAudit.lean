import NexusEngine.ConfigurationTransactions
import NexusEngine.AuditTrails

/-!
# The live version in the log

An activation and a rollback leave an entry that names the version they make live. Read off the
log, the live version of a name is the one that the last entry about the name has made live.
Archiving a live version leaves no entry, and is the only request that the log does not show.
-/

namespace NexusEngine.ConfigurationAudit

open TransactionalRequests JsonDocuments StoredColumns KeyedTables ConfigurationTable AuditLogTable
  Database AuditService AuditAppends AuditedTransactions ConfigurationService
  ConfigurationLifecycle ConfigurationTransactions MetadataSanitisation AuditTrails
open AuditVerification (sha256Crypto)

/-! ## The log -/

def textValue : Option Json → Option String
  | some (.str s) => some s
  | _ => none

def intValue : Option Json → Option ℤ
  | some (.int n) => some n
  | _ => none

/-- An entry about a configuration. -/
def isAbout (name : String) (row : AuditLogEntry) : Bool :=
  row.eventType = .configChange && textValue (metadataValue row "name") = some name

/-- The version that an entry has made live. -/
def recordedVersion (row : AuditLogEntry) : Option ℤ :=
  if row.eventSubtype = "CONFIGURATION_ACTIVATED" then intValue (metadataValue row "version")
  else if row.eventSubtype = "CONFIGURATION_ROLLED_BACK" then
    intValue (metadataValue row "new_version")
  else none

/-- The live version of a name, read off the log. After an entry of any other kind there is
none. -/
def liveInLog (log : List AuditLogEntry) (name : String) : Option ℤ :=
  (trail (isAbout name) log).getLast?.bind recordedVersion

/-- The version of a name is live. -/
def Live (t : Configurations) (name : String) (version : ℤ) : Prop :=
  ∃ c ∈ t.rows, c.status = .active ∧ c.name = name ∧ (c.version : ℤ) = version

/-- What is live is what the log says. -/
def LiveReadable (db : Db) : Prop :=
  ∀ name version, Live db.configurations name version ↔
    liveInLog db.auditLog name = some version

/-! ## The table -/

section

variable {t t' : Configurations} {name : String} {version : ℤ}

/-- A row is replaced by one with the same document. -/
theorem live_replaced {c c' : Configuration} (mem : c ∈ t.rows) (document : c.SameDocument c')
    (rows : t'.rows = t.rows.map fun d => if d.id = c.id then c' else d) :
    Live t' name version ↔
      (∃ d ∈ t.rows, d.id ≠ c.id ∧ d.status = .active ∧ d.name = name ∧ (d.version : ℤ) = version) ∨
        (c'.status = .active ∧ c.name = name ∧ (c.version : ℤ) = version) := by
  constructor
  · rintro ⟨d', hd', hactive, hname, hversion⟩
    rw [rows] at hd'
    obtain ⟨d, hd, rfl⟩ := List.mem_map.mp hd'
    split at hactive
    · next hid =>
      rw [if_pos hid, document.name] at hname
      rw [if_pos hid, document.version] at hversion
      exact .inr ⟨hactive, hname, hversion⟩
    · next hid =>
      rw [if_neg hid] at hname hversion
      exact .inl ⟨d, hd, hid, hactive, hname, hversion⟩
  · rintro (⟨d, hd, hid, hactive, hname, hversion⟩ | ⟨hactive, hname, hversion⟩)
    · refine ⟨d, ?_, hactive, hname, hversion⟩
      rw [rows]
      exact List.mem_map.mpr ⟨d, hd, if_neg hid⟩
    · refine ⟨c', ?_, hactive, document.name ▸ hname, document.version ▸ hversion⟩
      rw [rows]
      exact List.mem_map.mpr ⟨c, mem, if_pos rfl⟩

/-- A row that is not active stays so. -/
theorem live_kept {c c' : Configuration} (mem : c ∈ t.rows) (document : c.SameDocument c')
    (rows : t'.rows = t.rows.map fun d => if d.id = c.id then c' else d)
    (before : c.status ≠ .active) (after : c'.status ≠ .active) :
    Live t' name version ↔ Live t name version := by
  rw [live_replaced mem document rows]
  constructor
  · rintro (⟨d, hd, -, hlive⟩ | ⟨hactive, -⟩)
    · exact ⟨d, hd, hlive⟩
    · exact absurd hactive after
  · rintro ⟨d, hd, hactive, hlive⟩
    refine .inl ⟨d, hd, fun hid => ?_, hactive, hlive⟩
    exact before (t.eq_of_key_eq hd mem hid ▸ hactive)

end

section

variable {db db' : Db} {name : String} {version : ℤ}

theorem live_insert {c : Configuration}
    (h : postgres.applyAll [.configuration (.insert c)] db = some db') (draft : c.status = .draft) :
    Live db'.configurations name version ↔ Live db.configurations name version := by
  obtain ⟨configurations, hinsert, rfl⟩ := applyAll_configuration_singleton h
  obtain ⟨row, hstored, hrows⟩ := insertConfiguration_eq_some hinsert
  have hdraft : row.status ≠ .active := by
    rw [hstored.rest, draft]
    exact fun h => nomatch h
  constructor
  · rintro ⟨d, hd, hactive, hlive⟩
    rcases (Table.mem_insert hrows).mp hd with hd | rfl
    · exact ⟨d, hd, hactive, hlive⟩
    · exact absurd hactive hdraft
  · rintro ⟨d, hd, hlive⟩
    exact ⟨d, (Table.mem_insert hrows).mpr (.inl hd), hlive⟩

theorem live_inserts {cs : List Configuration}
    (h : postgres.applyAll (inserts cs) db = some db') (drafts : ∀ c ∈ cs, c.status = .draft) :
    Live db'.configurations name version ↔ Live db.configurations name version := by
  induction cs generalizing db with
  | nil =>
    cases h
    exact Iff.rfl
  | cons c cs ih =>
    obtain ⟨mid, hinsert, hrest⟩ := Option.bind_eq_some_iff.mp h
    have hone : postgres.applyAll [.configuration (.insert c)] db = some mid :=
      (StatementSemantics.applyAll_singleton ..).trans hinsert
    rw [ih hrest fun d hd => drafts d (List.mem_cons_of_mem _ hd)]
    exact live_insert hone (drafts c List.mem_cons_self)

/-- Saving an object that was not active and is not. -/
theorem live_save {old new row : Configuration} (hrow : row ∈ db.configurations.rows)
    (hid : row.id = old.id) (hstate : row.takeState old = row) (before : row.status ≠ .active)
    (after : new.status ≠ .active) (h : postgres.applyAll (saveConfiguration old new) db = some db') :
    Live db'.configurations name version ↔ Live db.configurations name version := by
  obtain ⟨configurations, rfl, hrows⟩ := saveConfiguration_sound hrow hid hstate h
  exact live_kept hrow (row.takeState_sameDocument new) hrows before after

/-- Activating a row whose name has no live version. -/
theorem live_activated {env : ConfigurationEnv} {config row : Configuration}
    (hrow : row ∈ db.configurations.rows) (hid : row.id = config.id)
    (hstate : row.takeState config = row)
    (none_live : ∀ d ∈ db.configurations.rows, d.status = .active → d.name ≠ row.name)
    (h : postgres.applyAll (saveConfiguration config (activatedConfiguration env config)) db =
      some db') :
    Live db'.configurations name version ↔
      if row.name = name then (row.version : ℤ) = version
      else Live db.configurations name version := by
  obtain ⟨configurations, rfl, hrows⟩ := saveConfiguration_sound hrow hid hstate h
  rw [live_replaced hrow (row.takeState_sameDocument _) hrows]
  split
  · next heq =>
    constructor
    · rintro (⟨d, hd, -, hactive, hname, -⟩ | ⟨-, -, hversion⟩)
      · exact absurd (hname.trans heq.symm) (none_live d hd hactive)
      · exact hversion
    · exact fun hversion => .inr ⟨rfl, heq, hversion⟩
  · next hne =>
    constructor
    · rintro (⟨d, hd, -, hlive⟩ | ⟨-, heq, -⟩)
      · exact ⟨d, hd, hlive⟩
      · exact absurd heq hne
    · rintro ⟨d, hd, hactive, hname, hversion⟩
      refine .inl ⟨d, hd, fun heq => ?_, hactive, hname, hversion⟩
      exact none_live d hd hactive (congrArg Configuration.name
        (db.configurations.eq_of_key_eq hd hrow heq))

/-- The active version makes room: its name has no live version, and the other names keep
theirs. -/
theorem live_archiveCurrent {env : ConfigurationEnv} {config row : Configuration}
    (h : Lifecycle db.configurations) (hrow : row ∈ db.configurations.rows)
    (hid : row.id = config.id) (hname : row.name = config.name) (hnot : row.status ≠ .active)
    (happly : postgres.applyAll (archiveCurrent env config.id
      (activeVersion db.configurations config.name)) db = some db') :
    row ∈ db'.configurations.rows ∧
      (∀ d ∈ db'.configurations.rows, d.status = .active → d.name ≠ row.name) ∧
      (row.name ≠ name →
        (Live db'.configurations name version ↔ Live db.configurations name version)) := by
  have hactive := argmax_active h config.name
  rw [activeVersion] at happly
  cases hmax : (db.configurations.rows.filter (isActive config.name)).argmax
      Configuration.version with
  | none =>
    rw [hmax] at happly hactive
    cases happly
    exact ⟨hrow, fun d hd hda => hname ▸ hactive d hd hda, fun _ => Iff.rfl⟩
  | some current =>
    rw [hmax] at happly hactive
    obtain ⟨hmem, hcurrent, hunique⟩ := hactive
    obtain ⟨-, hfound⟩ := List.mem_filter.mp (List.argmax_mem hmax)
    simp only [isActive, Bool.and_eq_true, decide_eq_true_eq] at hfound
    have hne : row ≠ current := fun heq => hnot (heq ▸ hcurrent)
    have hneId : current.id ≠ config.id := fun heq =>
      hne (db.configurations.eq_of_key_eq hrow hmem (hid.trans heq.symm))
    rw [archiveCurrent, if_neg hneId] at happly
    obtain ⟨configurations, rfl, hrows⟩ := saveConfiguration_sound hmem rfl rfl happly
    refine ⟨?_, fun d hd hda => ?_, fun hother => ?_⟩
    · rw [hrows]
      exact List.mem_map.mpr ⟨row, hrow, if_neg fun heq => hneId (heq.symm.trans hid)⟩
    · rcases mem_moved (hrows ▸ hd) with rfl | ⟨hd, hdc⟩
      · cases hda
      · exact fun heq => hdc (hunique d hd hda (heq.trans hname))
    · rw [live_replaced hmem (current.takeState_sameDocument _) hrows]
      constructor
      · rintro (⟨d, hd, -, hlive⟩ | ⟨harchived, -⟩)
        · exact ⟨d, hd, hlive⟩
        · cases harchived
      · rintro ⟨d, hd, hda, hdn, hversion⟩
        refine .inl ⟨d, hd, fun heq => hother ?_, hda, hdn, hversion⟩
        obtain rfl := db.configurations.eq_of_key_eq hd hmem heq
        exact hname.trans (hfound.1.1.symm.trans hdn)

/-- An activation makes a version the only live one of its name. -/
theorem live_activation {env : ConfigurationEnv} {config row : Configuration}
    (h : Lifecycle db.configurations) (hrow : row ∈ db.configurations.rows)
    (hid : row.id = config.id) (hname : row.name = config.name)
    (hstate : row.takeState config = row) (hnot : row.status ≠ .active)
    (happly : postgres.applyAll (activationStatements env db.configurations config) db =
      some db') :
    Live db'.configurations name version ↔
      if row.name = name then (row.version : ℤ) = version
      else Live db.configurations name version := by
  rw [activationStatements, StatementSemantics.applyAll_append, Option.bind_eq_some_iff] at happly
  obtain ⟨mid, harchive, hsave⟩ := happly
  obtain ⟨hmid, hnone, hothers⟩ : row ∈ mid.configurations.rows ∧
      (∀ d ∈ mid.configurations.rows, d.status = .active → d.name ≠ row.name) ∧
      (row.name ≠ name →
        (Live mid.configurations name version ↔ Live db.configurations name version)) :=
    live_archiveCurrent h hrow hid hname hnot harchive
  rw [live_activated hmid hid hstate hnone hsave]
  split
  · exact Iff.rfl
  · next hne => exact hothers hne

end

/-! ## Entries -/

section

variable {crypto : AuditCrypto} {env : AppendEnv} {actor subtype description : String}
  {metadataJson : List (String × Json)} {before : Option String} {n : ℕ} {row : AuditLogEntry}

/-- An entry of the service, as a row. -/
theorem configurationEntry_row
    (h : AppendedAs crypto env (configurationEntry actor subtype description metadataJson) before n
      row) (fits : subtype.toList.length ≤ 60) :
    row.eventType = .configChange ∧ row.eventSubtype = subtype := by
  have htype : some AuditEventType.configChange = some row.eventType := h.eventType
  exact ⟨(Option.some.inj htype).symm, varchar_of_length_le h.eventSubtype fits⟩

/-- The entry of an activation is about its configuration and names its version. -/
theorem activationEntry_row {config : Configuration}
    (h : AppendedAs crypto env (activationEntry config actor) before n row) (name : String) :
    isAbout name row = decide (config.name = name) ∧ recordedVersion row = some config.version := by
  obtain ⟨htype, hsubtype⟩ := configurationEntry_row h (by decide)
  have hname : metadataValue row "name" = some (.str config.name) :=
    metadataValue_appended h (by decide)
  have hversion : metadataValue row "version" = some (.int config.version) :=
    metadataValue_appended h (by decide)
  constructor
  · simp [isAbout, htype, hname, textValue]
  · simp [recordedVersion, hsubtype, hversion, intValue]

/-- The entry of a rollback is about its configuration and names the version of the copy. -/
theorem rollbackEntry_row {base : Configuration} {version : ℕ}
    (h : AppendedAs crypto env (rollbackEntry base version actor) before n row) (name : String) :
    isAbout name row = decide (base.name = name) ∧ recordedVersion row = some version := by
  obtain ⟨htype, hsubtype⟩ := configurationEntry_row h (by decide)
  have hname : metadataValue row "name" = some (.str base.name) :=
    metadataValue_appended h (by decide)
  have hversion : metadataValue row "new_version" = some (.int version) :=
    metadataValue_appended h (by decide)
  constructor
  · simp [isAbout, htype, hname, textValue]
  · simp [recordedVersion, hsubtype, hversion, intValue]

end

/-- An entry about a name decides what is live. -/
theorem liveInLog_append {crypto : AuditCrypto} {log : List AuditLogEntry}
    {row : AuditLogEntry} {as : List Append} {n k : ℕ} (h : Ordered log n)
    (hrows : Recorded crypto log n as [row] k) (name : String) :
    liveInLog (log ++ [row]) name =
      if isAbout name row = true then recordedVersion row else liveInLog log name := by
  rw [liveInLog, h.trail_append hrows, List.filter_singleton]
  cases isAbout name row with
  | true =>
    rw [cond_true, List.getLast?_concat]
    rfl
  | false =>
    rw [cond_false, List.append_nil]
    rfl

/-! ## Steps -/

section

variable {crypto : AuditCrypto} {db db' : Db} {n k : ℕ}

/-- A transaction that makes a version live and appends an entry that says so. -/
theorem LiveReadable.logged {a : Append} {ws : List Statement} {confName : String}
    {confVersion : ℕ} (h : LiveReadable db) (hlog : Ordered db.auditLog n)
    (hperformed : Performed crypto db n ws [a] db' k)
    (hlive : ∀ mid, postgres.applyAll ws db = some mid → ∀ name version,
      Live mid.configurations name version ↔ if confName = name then (confVersion : ℤ) = version
        else Live db.configurations name version)
    (hentry : ∀ before m row, AppendedAs crypto a.1 a.2 before m row → ∀ name,
      isAbout name row = decide (confName = name) ∧ recordedVersion row = some (confVersion : ℤ)) :
    LiveReadable db' := by
  intro name version
  obtain ⟨mid, rows, hmid, hrows, rfl⟩ := hperformed.outcome
  obtain ⟨row, m, rfl, happended⟩ := hrows.singleton
  obtain ⟨habout, hversion⟩ := hentry _ _ _ happended name
  rw [liveInLog_append hlog hrows, habout, hversion]
  refine (hlive mid hmid name version).trans ?_
  simp only [decide_eq_true_eq]
  split
  · exact Option.some_inj.symm
  · exact h name version

/-- A transaction that leaves what is live and appends no entry. -/
theorem LiveReadable.unlogged {ws : List Statement} (h : LiveReadable db)
    (hperformed : Performed crypto db n ws [] db' k)
    (hlive : ∀ mid, postgres.applyAll ws db = some mid → ∀ name version,
      Live mid.configurations name version ↔ Live db.configurations name version) :
    LiveReadable db' := by
  intro name version
  obtain ⟨mid, rows, hmid, hrows, rfl⟩ := hperformed.outcome
  cases hrows
  rw [List.append_nil]
  exact (hlive mid hmid name version).trans (h name version)

/-- A rollback makes its copy the only live version of the name. -/
theorem live_rollback {env : ConfigurationEnv} {base : Configuration} {actor : String}
    (h : Lifecycle db.configurations) (hfits : Fits db.configurations)
    (hbase : base ∈ db.configurations.rows)
    (happly : postgres.applyAll (.configuration (.insert (rollbackCopy env base
      (maxVersion db.configurations base.name + 1) actor)) ::
        activationStatements env db.configurations (rollbackCopy env base
          (maxVersion db.configurations base.name + 1) actor)) db = some db')
    (name : String) (version : ℤ) :
    Live db'.configurations name version ↔
      if base.name = name then ((maxVersion db.configurations base.name + 1 : ℕ) : ℤ) = version
      else Live db.configurations name version := by
  obtain ⟨mid, hinsert, hactivation⟩ := Option.bind_eq_some_iff.mp happly
  rw [← StatementSemantics.applyAll_singleton] at hinsert
  have hcopied : ∀ checksum, varchar 64 base.checksum = some checksum → checksum = base.checksum :=
    fun _ hchecksum => varchar_of_length_le hchecksum (hfits.checksum base hbase)
  obtain ⟨hstep, row, hrow, hstored, hname⟩ : VersionStep sha256Crypto db.configurations
      mid.configurations ∧ _ := insert_step hinsert rfl rfl rfl rfl
    (.inr ⟨base, hbase, rfl, rfl⟩) (hfits.name base hbase) hcopied
  have hsame : activationStatements env db.configurations (rollbackCopy env base
      (maxVersion db.configurations base.name + 1) actor) =
      activationStatements env mid.configurations (rollbackCopy env base
        (maxVersion db.configurations base.name + 1) actor) := by
    rw [activationStatements, activationStatements, activeVersion_insert hinsert rfl]
  rw [hsame] at hactivation
  have hdraft : row.status ≠ .active := by
    rw [hstored.rest]
    exact fun h => nomatch h
  have hid : row.id = (rollbackCopy env base
    (maxVersion db.configurations base.name + 1) actor).id := by rw [hstored.rest]
  have hstate : row.takeState (rollbackCopy env base
      (maxVersion db.configurations base.name + 1) actor) = row := by rw [hstored.rest]; rfl
  have hversion : row.version = maxVersion db.configurations base.name + 1 := by
    rw [hstored.rest]
    rfl
  have hbaseName : row.name = base.name := hname
  rw [live_activation (h.step hstep) hrow hid hname hstate hdraft hactivation, hbaseName, hversion,
    live_insert hinsert rfl]

/-- The request archives no live version. -/
def KeepsLive (db : Db) : ConfigurationRequest → Prop
  | .archive _ configId => ∀ c ∈ db.configurations.rows, c.id = configId → c.status ≠ .active
  | _ => True

/-- The step lemma, for a plan that is performed. -/
theorem LiveReadable.performed {r : ConfigurationRequest} {ws : List Statement} {as : List Append}
    (h : LiveReadable db) (hlifecycle : Lifecycle db.configurations)
    (hfits : Fits db.configurations) (hlog : Ordered db.auditLog n) (hkeeps : KeepsLive db r)
    (hplan : ConfigurationPlan db.configurations r ws as)
    (hperformed : Performed crypto db n ws as db' k) : LiveReadable db' := by
  cases hplan with
  | inserted _ drafts =>
    exact h.unlogged hperformed fun _ hmid _ _ => live_inserts hmid drafts
  | activated isConfig _ notActive =>
    exact h.logged hlog hperformed
      (fun _ hmid _ _ => live_activation hlifecycle isConfig rfl rfl rfl notActive hmid)
      fun _ _ _ happended => activationEntry_row happended
  | @archived env config isConfig _ =>
    have harchived : (archivedConfiguration env config).status ≠ .active := fun h => nomatch h
    exact h.unlogged hperformed fun _ hmid _ _ => live_save isConfig rfl rfl
      (hkeeps config isConfig rfl) harchived hmid
  | rolledBack isBase isCopy =>
    subst isCopy
    exact h.logged hlog hperformed (fun _ hmid => live_rollback hlifecycle hfits isBase hmid)
      fun _ _ _ happended => rollbackEntry_row happended
  | @deleted env config isConfig notActive =>
    have hdeleted : (deletedConfiguration env config).status ≠ .active := notActive
    exact h.unlogged hperformed fun _ hmid _ _ => live_save isConfig rfl rfl notActive hdeleted hmid

end

/-! ## Runs -/

section

variable {crypto : AuditCrypto}

/-- What a run keeps. -/
structure Audited (s : Store Db) : Prop where
  lifecycle : Lifecycle s.db.configurations
  fits : Fits s.db.configurations
  ordered : Ordered s.db.auditLog s.sequence
  readable : LiveReadable s.db

/-- The step lemma of the service. -/
theorem Audited.step {s : Store Db} (h : Audited s) {r : ConfigurationRequest}
    (hkeeps : KeepsLive s.db r) : Audited (s.exec postgres (r.request crypto)) := by
  have hsteps : Steps crypto s.db.configurations
      (s.exec postgres (r.request crypto)).db.configurations := exec_steps s h.lifecycle h.fits r
  refine ⟨hsteps.lifecycle h.lifecycle, hsteps.fits h.fits, h.ordered.exec (request_ends r), ?_⟩
  rcases exec_of_ends s (request_ends r) with ⟨hdb, -⟩ | ⟨ws, as, hplan, hperformed⟩
  · rw [hdb]
    exact h.readable
  · exact h.readable.performed h.lifecycle h.fits h.ordered hkeeps hplan hperformed

theorem audited_of_empty {s : Store Db} (hempty : s.db.configurations.rows = [])
    (hlog : s.db.auditLog = []) : Audited s where
  lifecycle := lifecycle_of_empty hempty
  fits := fits_of_empty hempty
  ordered := hlog ▸ ordered_nil s.sequence
  readable name version := by
    constructor
    · rintro ⟨c, hc, -⟩
      rw [hempty] at hc
      nomatch hc
    · intro hlive
      rw [hlog] at hlive
      nomatch hlive

/-- In every run from empty tables in which no request archives a live version, what is live is
what the log says. -/
theorem live_version_readable {s : Store Db} (hempty : s.db.configurations.rows = [])
    (hlog : s.db.auditLog = []) (rs : List ConfigurationRequest)
    (hkeeps : ∀ rs₁ r rs₂, rs = rs₁ ++ r :: rs₂ → KeepsLive (execAll crypto s rs₁).db r) :
    LiveReadable (execAll crypto s rs).db := by
  have haudited : Audited (execAll crypto s rs) :=
    Store.execAll_preserves (Q := fun s' r => KeepsLive s'.db r) (audited_of_empty hempty hlog)
      hkeeps fun _ _ hkeeps haudited => haudited.step hkeeps
  exact haudited.readable

end

/-- The first version is live when the second one, a draft, is archived. -/
def keptRun : List ConfigurationRequest :=
  [.create (sampleConfigurationEnv 1) (sampleDocument "limits" "limit" limits_length)
      "admin@example.com",
    .activate (sampleConfigurationEnv 2) 10 "admin@example.com",
    .createSuccessor (sampleConfigurationEnv 3) 10 sampleUpdate "admin@example.com",
    .archive (sampleConfigurationEnv 4) 30]

theorem live_version_readable_sample :
    LiveReadable (execAll sha256Crypto ⟨emptyDb, 1⟩ keptRun).db := by
  refine live_version_readable rfl rfl keptRun fun rs₁ r rs₂ heq => ?_
  have hdraft : ∀ c ∈ (execAll sha256Crypto ⟨emptyDb, 1⟩
      (keptRun.take 3)).db.configurations.rows, c.id = 30 → c.status ≠ .active := by
    decide +kernel
  rcases rs₁ with _ | ⟨r₁, _ | ⟨r₂, _ | ⟨r₃, _ | ⟨r₄, rs₁⟩⟩⟩⟩
  · obtain rfl := (List.cons.inj heq).1
    trivial
  · obtain rfl := (List.cons.inj (List.cons.inj heq).2).1
    trivial
  · obtain rfl := (List.cons.inj (List.cons.inj (List.cons.inj heq).2).2).1
    trivial
  · have hfront : keptRun.take 3 = [r₁, r₂, r₃] := congrArg (List.take 3) heq
    have hlast : some (ConfigurationRequest.archive (sampleConfigurationEnv 4) 30) = some r :=
      congrArg (fun rs => rs[3]?) heq
    obtain rfl := Option.some.inj hlast
    exact hfront ▸ hdraft
  · simp [keptRun] at heq

/-- A version is activated and archived. -/
def archivedLiveRun : List ConfigurationRequest :=
  [.create (sampleConfigurationEnv 1) (sampleDocument "limits" "limit" limits_length)
      "admin@example.com",
    .activate (sampleConfigurationEnv 2) 10 "admin@example.com",
    .archive (sampleConfigurationEnv 3) 10]

/-- The log still says that the archived version is live. -/
theorem archived_version_live_in_log :
    ¬ LiveReadable (execAll sha256Crypto ⟨emptyDb, 1⟩ archivedLiveRun).db := by
  intro h
  have hrun : liveInLog (execAll sha256Crypto ⟨emptyDb, 1⟩ archivedLiveRun).db.auditLog "limits" =
        some 1 ∧
      ∀ c ∈ (execAll sha256Crypto ⟨emptyDb, 1⟩ archivedLiveRun).db.configurations.rows,
        c.status ≠ .active := by
    decide +kernel
  obtain ⟨c, hc, hactive, -⟩ := (h "limits" 1).mpr hrun.1
  exact hrun.2 c hc hactive

end NexusEngine.ConfigurationAudit
