import NexusEngine.AccountLogins
import NexusEngine.AnomalyBulkUpdates
import NexusEngine.CeremonyAdmissions
import NexusEngine.ConfigurationAdmissions
import NexusEngine.ParameterPending

/-!
# Administrators that can act

An account may have an email of 255 characters, and the columns that hold the name of the caller
take 120. The operations of an administrator go through where the email fits, and where it does
not, each of them that writes is refused.
-/

namespace NexusEngine.AdminAccounts

open TransactionalRequests TextEncodings StoredColumns JsonDocuments KeyedTables CalendarTime
  HsmTables AnomalyTables ParameterTables AuditLogTable TenancyTables AccountTables Database
  AuditService AuditAppends AuditedTransactions AuditAdmissions HsmService HsmAdmissions
  CeremonyAdmissions AnomalyService AnomalyTransactions AnomalyBulkUpdates ParameterService
  ParameterPending ConfigurationService ConfigurationAdmissions RbacService AccountLogins
open AuthService (AuthCrypto)
open HsmLifecycle (approvalsOf sampleHsmEnv)
open ParameterTransactions (applyAppends)
open AuditVerification (sha256Crypto)
open AuthLifecycle (sampleAuthCrypto)
open ConfigurationRollback (longEmail)

/-! ## Callers whose name does not fit -/

section

variable {crypto : AuditCrypto} {tables : PythonText.CharacterTables} {actor : String}

/-- The outcome of a request that is not answered. -/
abbrev Unanswered {α : Type} (result : Except ServiceError α) (_durable _work : Db) (_n : ℕ) :
    Prop := ∀ value, result ≠ .ok value

theorem unanswered_error {α : Type} (error : ServiceError) (durable work : Db) (n : ℕ) :
    Unanswered (α := α) (.error error) durable work n := fun _ hok => nomatch hok

theorem not_answered_of_wp {α : Type} {p : Service α} {s : Store Db}
    (h : p.wp postgres Unanswered s.db s.db s.sequence) : ¬ Answered p s := by
  rintro ⟨value, hresult⟩
  exact (Request.serial_sound h).elim fun _ hnot => hnot value hresult

/-- A request that fails is not answered. -/
theorem not_answered_of_fails {α : Type} {p : Service α} {s : Store Db} (h : p.Fails postgres) :
    ¬ Answered p s := not_answered_of_wp (h.wp unanswered_error)

theorem append_fails {env : AppendEnv} {unflushed : List Statement} {payload : AuditLogEntryCreate}
    (hactor : varchar 120 payload.actor = none) :
    (appendEntryInTransaction crypto env unflushed payload).Fails postgres := by
  have hentry : ∀ before signature sequence db, postgres.apply
      (.insertAuditLogEntry (newEntry crypto env before payload signature) sequence) db = none := by
    intro before signature sequence db
    by_contra hsome
    obtain ⟨db', happly⟩ := Option.ne_none_iff_exists'.mp hsome
    obtain ⟨row, hrow, -⟩ := apply_insertAuditLogEntry.mp happly
    have hkept := (NewAuditLogEntry.keptAs hrow).actor
    cases hactor.symm.trans hkept
  rw [appendEntryInTransaction_eq]
  apply Request.fails_bind
  intro before
  apply Request.fails_bind
  intro signature
  apply Request.Fails.bind
  apply Request.fails_send
  intro sequence
  exact Request.applyAll_concat_none (hentry before signature sequence)

theorem createKey_fails (env : HsmEnv) (payload : MasterKeyCreate)
    (hactor : varchar 120 actor = none) :
    (createKey crypto env payload actor).Fails postgres := by
  apply Request.fails_bind
  intro _
  apply Request.fails_bind
  intro _
  exact (append_fails hactor).bind

theorem rotateKey_fails (env : HsmEnv) (keyId : Uuid) (payload : MasterKeyRotateRequest)
    (hactor : varchar 120 actor = none) :
    (rotateKey crypto env keyId actor payload).Fails postgres := by
  apply Request.fails_bind
  intro key
  apply Request.fails_bind
  intro _
  apply Request.fails_bind
  intro _
  apply Request.fails_bind
  intro expiresAt
  apply Request.fails_bind
  intro _
  exact (append_fails hactor).bind

theorem disableKey_fails (env : HsmEnv) (keyId : Uuid) (hactor : varchar 120 actor = none) :
    (disableKey crypto env keyId actor).Fails postgres := by
  apply Request.fails_bind
  intro key
  apply Request.fails_bind
  intro _
  exact (append_fails hactor).bind

theorem createCeremony_fails (env : HsmEnv) (payload : KeyCeremonyCreate)
    (hactor : varchar 120 actor = none) :
    (createCeremony crypto env payload actor).Fails postgres := by
  apply Request.fails_bind
  intro targetKey
  apply Request.fails_bind
  intro _
  apply Request.fails_bind
  intro predecessor
  apply Request.fails_bind
  intro duplicates
  apply Request.fails_bind
  intro _
  apply Request.fails_bind
  intro _
  apply Request.fails_bind
  intro _
  exact (append_fails hactor).bind

theorem completeCeremony_fails (env : HsmEnv) (ceremonyId : Uuid)
    (hactor : varchar 120 actor = none) :
    (completeCeremony crypto env ceremonyId actor).Fails postgres := by
  apply Request.fails_bind
  intro loaded
  apply Request.fails_bind
  intro _
  apply Request.fails_bind
  intro expiresAt
  apply Request.fails_bind
  intro predecessor
  exact (append_fails hactor).bind

theorem runAttestation_fails (env : HsmEnv) (hactor : varchar 120 actor = none) :
    (runAttestation crypto env actor).Fails postgres := (append_fails hactor).bind

theorem createConfiguration_fails (env : ConfigurationEnv) (payload : ConfigurationCreate)
    (hactor : varchar 120 actor = none) :
    (createConfiguration crypto env payload actor).Fails postgres := by
  apply Request.fails_bind
  intro existing
  apply Request.fails_bind
  intro _
  apply Request.fails_bind
  intro _
  apply Request.Fails.bind
  apply Request.fails_send
  intro sequence db
  rw [StatementSemantics.applyAll_singleton]
  by_contra hsome
  obtain ⟨db', happly⟩ := Option.ne_none_iff_exists'.mp hsome
  obtain ⟨configurations, hinsert, -⟩ := apply_configuration.mp happly
  have hfits : (varchar 120 actor).isSome = true :=
    (ConfigurationRollback.insertConfiguration_accepts hinsert).1
  rw [hactor] at hfits
  cases hfits

theorem activateConfiguration_fails (env : ConfigurationEnv) (configId : Uuid)
    (hactor : varchar 120 actor = none) :
    (activateConfiguration crypto env configId actor).Fails postgres := by
  apply Request.fails_bind
  intro config
  apply Request.fails_bind
  intro _
  apply Request.fails_bind
  intro current
  exact (append_fails hactor).bind

theorem transition_fails (now : Instant) (audit : AppendEnv) (status : AnomalyStatus)
    (event : AnomalyEvent) (hactor : ¬ ActorFits (some actor)) :
    (transition crypto now audit status (some actor) event).Fails postgres := by
  apply Request.fails_bind
  intro _
  apply Request.Fails.bind
  apply append_fails
  exact auditActor_unfit hactor _

/-- The first staged value is not applied. -/
theorem applyParameters_fails (env : ConfigManagerEnv) (k : ℕ) {parameters : List ConfigParameter}
    (hsome : parameters ≠ []) (hactor : varchar 120 actor = none) :
    (applyParameters crypto tables env actor k parameters).Fails postgres := by
  cases parameters with
  | nil => exact absurd rfl hsome
  | cons parameter parameters =>
    apply Request.fails_bind
    intro changes
    exact (append_fails hactor).bind

end

section

variable {crypto : AuditCrypto} {tables : PythonText.CharacterTables} {actor : String} {s : Store Db}

/-- A first approval is not recorded. -/
theorem approveCeremony_refused (env : HsmEnv) {loaded : LoadedCeremony} (hopen : Open s.db.hsm loaded)
    (hfirst : alreadyApproved loaded actor = false) (hactor : varchar 120 actor = none) :
    ¬ Answered (approveCeremony crypto env loaded.ceremony.id actor) s := by
  have hrecord : (recordApproval crypto env loaded actor).Fails postgres := by
    rw [recordApproval, hfirst]
    exact (append_fails hactor).bind
  apply not_answered_of_wp
  apply (Request.wp_bind ..).mpr
  apply loadPendingCeremony_loads hopen
  exact hrecord.bind.wp unanswered_error

theorem applyPendingChanges_refused (env : ConfigManagerEnv)
    (hstaged : ∃ p ∈ s.db.parameters.parameters.rows, p.pendingValue.isSome)
    (hactor : varchar 120 actor = none) :
    ¬ Answered (applyPendingChanges crypto tables env actor) s := by
  have hsome : stagedParameters env.parameterOrder s.db.parameters ≠ [] := by
    obtain ⟨p, hp, hpending⟩ := hstaged
    apply List.ne_nil_of_mem (a := p)
    simp [stagedParameters, Table.mem_scan, hp, hpending]
  apply not_answered_of_wp
  apply (Request.wp_bind ..).mpr
  rw [Request.wp_select]
  exact (applyParameters_fails env 0 hsome hactor).bind.wp unanswered_error

theorem updateAnomalyStatus_refused (env : AnomalyEnv) {eventId : Uuid} (status : AnomalyStatus)
    {event : AnomalyEvent} (hfind : s.db.anomalies.find? eventId = some event)
    (hactor : ¬ ActorFits (some actor)) :
    ¬ Answered (updateAnomalyStatus crypto env eventId status (some actor)) s := by
  apply not_answered_of_wp
  apply (Request.wp_bind ..).mpr
  rw [Request.wp_select, hfind]
  exact (transition_fails env.now (env.audit 0) status event hactor).bind.wp unanswered_error

theorem bulkUpdateAnomalyStatus_refused (env : AnomalyEnv) {eventIds : List Uuid}
    (status : AnomalyStatus) (hevent : ∃ e ∈ s.db.anomalies.rows, e.id ∈ eventIds)
    (hactor : ¬ ActorFits (some actor)) :
    ¬ Answered (bulkUpdateAnomalyStatus crypto env eventIds status (some actor)) s := by
  obtain ⟨e, he, hid⟩ := hevent
  have hfound : e ∈ eventsWithin env eventIds.eraseDups s.db.anomalies :=
    mem_eventsWithin.mpr ⟨he, List.mem_eraseDups.mpr hid⟩
  apply not_answered_of_wp
  apply (Request.wp_bind ..).mpr
  rw [Request.wp_select]
  cases hevents : eventsWithin env eventIds.eraseDups s.db.anomalies with
  | nil =>
    rw [hevents] at hfound
    nomatch hfound
  | cons event events =>
    exact (transition_fails env.now (env.audit 0) status event hactor).bind.bind.wp
      unanswered_error

end

/-! ## Operations -/

/-- An operation that an administrator asks for, with what it draws from its surroundings. -/
inductive AdminOperation where
  | createKey (env : HsmEnv) (payload : MasterKeyCreate)
  | rotateKey (env : HsmEnv) (keyId : Uuid) (payload : MasterKeyRotateRequest)
  | disableKey (env : HsmEnv) (keyId : Uuid)
  | createCeremony (env : HsmEnv) (payload : KeyCeremonyCreate)
  | approveCeremony (env : HsmEnv) (ceremonyId : Uuid)
  | completeCeremony (env : HsmEnv) (ceremonyId : Uuid)
  | runAttestation (env : HsmEnv)
  | applyPendingChanges (env : ConfigManagerEnv)
  | updateAnomalyStatus (env : AnomalyEnv) (eventId : Uuid) (status : AnomalyStatus)
  | bulkUpdateAnomalyStatus (env : AnomalyEnv) (eventIds : List Uuid) (status : AnomalyStatus)
  | createConfiguration (env : ConfigurationEnv) (payload : ConfigurationCreate)
  | activateConfiguration (env : ConfigurationEnv) (configId : Uuid)

/-- What a change of the status of loaded events relies on. -/
structure Reviewable (crypto : AuditCrypto) (env : AnomalyEnv) (events : List AnomalyEvent)
    (status : AnomalyStatus) (actor : String) (s : Store Db) : Prop where
  sha256_length : ∀ bs, (crypto.sha256 bs).length = 32
  signingKeyId : (varchar 60 crypto.signingKeyId).isSome
  auditable : ∀ e ∈ events, Auditable s.db.tenancy.tenants.rows e
  fresh : Fresh crypto s.db.auditLog s.sequence (statusAppends env status (some actor) 0 events)

/-- What an apply relies on. -/
structure Appliable (crypto : AuditCrypto) (tables : PythonText.CharacterTables)
    (env : ConfigManagerEnv) (actor : String) (s : Store Db) : Prop where
  sha256_length : ∀ bs, (crypto.sha256 bs).length = 32
  signingKeyId : (varchar 60 crypto.signingKeyId).isSome
  keys : ∀ p ∈ s.db.parameters.parameters.rows, text p.parameterKey = some p.parameterKey
  apart : ∀ p ∈ s.db.parameters.parameters.rows, StagedApart p
  entries : Fresh crypto s.db.auditLog s.sequence
    (applyAppends tables env actor 0 (stagedParameters env.parameterOrder s.db.parameters))

namespace AdminOperation

section

variable (crypto : AuditCrypto) (tables : PythonText.CharacterTables) (actor : String)
  (s : Store Db)

/-- The operation passes its checks, and nothing but the name of the caller can fail to fit. -/
def Ready : AdminOperation → Prop
  | createKey env payload => Registrable crypto env payload actor s
  | rotateKey env keyId payload => ∃ key label, key.id = keyId ∧ payload.newLabel = some label ∧
      text label = some label ∧ Rotatable crypto env key label actor s
  | disableKey env keyId => ∃ key, key.id = keyId ∧ Disablable crypto env key actor s
  | createCeremony env payload => ∃ targetKey, Initiable crypto env payload targetKey actor s
  | approveCeremony env ceremonyId => ∃ loaded, loaded.ceremony.id = ceremonyId ∧
      Approvable crypto env loaded actor s
  | completeCeremony env ceremonyId => ∃ loaded, loaded.ceremony.id = ceremonyId ∧
      Completable crypto env loaded actor s
  | runAttestation env => Attestable crypto env actor s
  | applyPendingChanges env => Appliable crypto tables env actor s
  | updateAnomalyStatus env eventId status => ∃ event,
      s.db.anomalies.find? eventId = some event ∧ Reviewable crypto env [event] status actor s
  | bulkUpdateAnomalyStatus env eventIds status =>
      Reviewable crypto env (eventsWithin env eventIds.eraseDups s.db.anomalies) status actor s
  | createConfiguration env payload => Creatable crypto env payload s
  | activateConfiguration env configId => ∃ config, config.id = configId ∧
      Activatable crypto env config actor s

/-- The operation is called by the actor, and is answered. -/
def IsAnswered : AdminOperation → Prop
  | createKey env payload => Answered (HsmService.createKey crypto env payload actor) s
  | rotateKey env keyId payload => Answered (HsmService.rotateKey crypto env keyId actor payload) s
  | disableKey env keyId => Answered (HsmService.disableKey crypto env keyId actor) s
  | createCeremony env payload => Answered (HsmService.createCeremony crypto env payload actor) s
  | approveCeremony env ceremonyId =>
      Answered (HsmService.approveCeremony crypto env ceremonyId actor) s
  | completeCeremony env ceremonyId =>
      Answered (HsmService.completeCeremony crypto env ceremonyId actor) s
  | runAttestation env => Answered (HsmService.runAttestation crypto env actor) s
  | applyPendingChanges env =>
      Answered (ParameterService.applyPendingChanges crypto tables env actor) s
  | updateAnomalyStatus env eventId status =>
      Answered (AnomalyService.updateAnomalyStatus crypto env eventId status (some actor)) s
  | bulkUpdateAnomalyStatus env eventIds status =>
      Answered (AnomalyService.bulkUpdateAnomalyStatus crypto env eventIds status (some actor)) s
  | createConfiguration env payload =>
      Answered (ConfigurationService.createConfiguration crypto env payload actor) s
  | activateConfiguration env configId =>
      Answered (ConfigurationService.activateConfiguration crypto env configId actor) s

/-- The operation has something to write. A second approval, an apply with nothing staged and a
bulk change of no event have not. -/
def Writes : AdminOperation → Prop
  | approveCeremony _ ceremonyId => ((approvalsOf s.db.hsm ceremonyId).find? fun a =>
      a.custodianEmail = actor).any (fun a => a.approvedAt.isSome) = false
  | applyPendingChanges _ => ∃ p ∈ s.db.parameters.parameters.rows, p.pendingValue.isSome
  | bulkUpdateAnomalyStatus _ eventIds _ => ∃ e ∈ s.db.anomalies.rows, e.id ∈ eventIds
  | _ => True

end

end AdminOperation

/-! ## The name of the caller -/

/-- The email has at most 120 characters, or only blanks after these. -/
def FitsActor (email : String) : Prop := ∀ c ∈ email.toList.drop 120, c = ' '

instance (email : String) : Decidable (FitsActor email) :=
  List.decidableBAll (· = ' ') (email.toList.drop 120)

section

variable {email : String}

theorem fitsActor_iff (htext : text email = some email) :
    FitsActor email ↔ (varchar 120 email).isSome := by
  rw [varchar, htext, Option.bind_some, chars_eq, FitsActor]
  constructor
  · intro hblank
    have hall : ((email.toList.drop 120).all (· == ' ')) = true := by
      simpa [List.all_eq_true] using hblank
    split <;> simp
  · intro hsome c hc
    split at hsome
    · next hle =>
      rw [List.drop_eq_nil_of_le hle] at hc
      cases hc
    · split at hsome
      · next hall => simpa using List.all_eq_true.mp hall c hc
      · cases hsome

theorem actorFits_of_fits (hfits : (varchar 120 email).isSome) : ActorFits (some email) := by
  intro name hname _
  rw [← Option.some.inj hname]
  exact hfits

theorem not_actorFits (hne : email ≠ "") (hnone : varchar 120 email = none) :
    ¬ ActorFits (some email) := by
  intro hfits
  have hsome := hfits email rfl hne
  rw [hnone] at hsome
  nomatch hsome

end

namespace AdminOperation

section

variable {crypto : AuditCrypto} {tables : PythonText.CharacterTables} {actor : String}
  {s : Store Db}

theorem reviewable_admissible {env : AnomalyEnv} {events : List AnomalyEvent}
    {status : AnomalyStatus} (h : Reviewable crypto env events status actor s)
    (hactor : ∀ e ∈ events, (varchar 120 actor).isSome) :
    Admissible crypto s.db.tenancy.tenants.rows s.db.auditLog s.sequence
      (statusAppends env status (some actor) 0 events) :=
  { h.fresh with
    payloads := payload_statusAppends fun e he => statusEntry_acceptable (h.auditable e he)
      (actorFits_of_fits (hactor e he)) h.signingKeyId }

/-- An operation that passes its checks is answered where the name fits. -/
theorem answered_of_ready (op : AdminOperation) (hready : op.Ready crypto tables actor s)
    (hactor : op.Writes actor s → (varchar 120 actor).isSome) :
    op.IsAnswered crypto tables actor s := by
  cases op with
  | createKey env payload => exact createKey_answered hready (hactor trivial)
  | rotateKey env keyId payload =>
    obtain ⟨key, label, rfl, hgiven, htext, hrotatable⟩ := hready
    have hne : label ≠ "" := by
      rintro rfl
      have hmin := payload.newLabel_min "" hgiven
      simp at hmin
    have hlabel : successorLabel key payload.newLabel = label := by
      simp [successorLabel, hgiven, hne]
    have hstored : varchar 80 label = some label :=
      varchar_of_text htext (payload.newLabel_max label hgiven)
    rw [← hlabel] at hrotatable hstored
    exact rotateKey_answered hrotatable hstored (hactor trivial)
  | disableKey env keyId =>
    obtain ⟨key, rfl, hdisablable⟩ := hready
    exact disableKey_answered hdisablable (hactor trivial)
  | createCeremony env payload =>
    obtain ⟨targetKey, hinitiable⟩ := hready
    exact createCeremony_answered hinitiable (hactor trivial)
  | approveCeremony env ceremonyId =>
    obtain ⟨loaded, rfl, happrovable⟩ := hready
    apply approveCeremony_answered happrovable
    intro hfirst
    rw [alreadyApproved, happrovable.isOpen.approvals] at hfirst
    exact hactor hfirst
  | completeCeremony env ceremonyId =>
    obtain ⟨loaded, rfl, hcompletable⟩ := hready
    exact completeCeremony_answered hcompletable (hactor trivial)
  | runAttestation env => exact runAttestation_answered hready (hactor trivial)
  | applyPendingChanges env =>
    by_cases hstaged : ∃ p ∈ s.db.parameters.parameters.rows, p.pendingValue.isSome
    · exact ⟨_, applyPendingChanges_answered ⟨hready.sha256_length, hready.signingKeyId,
        hactor hstaged, hready.keys, hready.entries⟩ hready.apart⟩
    · have hnone : stagedParameters env.parameterOrder s.db.parameters = [] := by
        apply List.filter_eq_nil_iff.mpr
        intro p hp hpending
        exact hstaged ⟨p, Table.mem_scan.mp hp, hpending⟩
      apply answered_of_wp
      apply (Request.wp_bind ..).mpr
      rw [Request.wp_select, hnone]
      apply (Request.wp_bind ..).mpr
      apply Request.wp_return
      apply Request.wp_commitTransaction_bind
      exact Request.wp_return ⟨_, rfl⟩
  | updateAnomalyStatus env eventId status =>
    obtain ⟨event, hfind, hreviewable⟩ := hready
    obtain ⟨-, rfl⟩ := Table.find?_eq_some.mp hfind
    exact update_answered hreviewable.sha256_length hfind
      (reviewable_admissible hreviewable fun _ _ => hactor trivial)
  | bulkUpdateAnomalyStatus env eventIds status =>
    have hadmissible := reviewable_admissible hready fun e he => by
      obtain ⟨hmem, hid⟩ := mem_eventsWithin.mp he
      exact hactor ⟨e, hmem, List.mem_eraseDups.mp hid⟩
    obtain ⟨_, hresult, -⟩ := Request.serial_sound (bulk_admitted hready.sha256_length hadmissible)
    exact ⟨_, hresult⟩
  | createConfiguration env payload => exact createConfiguration_answered hready (hactor trivial)
  | activateConfiguration env configId =>
    obtain ⟨config, rfl, hactivatable⟩ := hready
    exact activateConfiguration_answered hactivatable (hactor trivial)

/-- An operation that writes is not answered where the name does not fit. -/
theorem not_answered_of_unfit (op : AdminOperation) (hready : op.Ready crypto tables actor s)
    (hwrites : op.Writes actor s) (hne : actor ≠ "") (hactor : varchar 120 actor = none) :
    ¬ op.IsAnswered crypto tables actor s := by
  cases op with
  | createKey env payload => exact not_answered_of_fails (createKey_fails env payload hactor)
  | rotateKey env keyId payload =>
    exact not_answered_of_fails (rotateKey_fails env keyId payload hactor)
  | disableKey env keyId => exact not_answered_of_fails (disableKey_fails env keyId hactor)
  | createCeremony env payload =>
    exact not_answered_of_fails (createCeremony_fails env payload hactor)
  | approveCeremony env ceremonyId =>
    obtain ⟨loaded, rfl, happrovable⟩ := hready
    have hfirst : alreadyApproved loaded actor = false := by
      rw [alreadyApproved, happrovable.isOpen.approvals]
      exact hwrites
    exact approveCeremony_refused env happrovable.isOpen hfirst hactor
  | completeCeremony env ceremonyId =>
    exact not_answered_of_fails (completeCeremony_fails env ceremonyId hactor)
  | runAttestation env => exact not_answered_of_fails (runAttestation_fails env hactor)
  | applyPendingChanges env => exact applyPendingChanges_refused env hwrites hactor
  | updateAnomalyStatus env eventId status =>
    obtain ⟨event, hfind, -⟩ := hready
    exact updateAnomalyStatus_refused env status hfind (not_actorFits hne hactor)
  | bulkUpdateAnomalyStatus env eventIds status =>
    exact bulkUpdateAnomalyStatus_refused env status hwrites (not_actorFits hne hactor)
  | createConfiguration env payload =>
    exact not_answered_of_fails (createConfiguration_fails env payload hactor)
  | activateConfiguration env configId =>
    exact not_answered_of_fails (activateConfiguration_fails env configId hactor)

/-- An operation that passes its checks is answered if and only if the name fits or nothing is
written. -/
theorem answered_iff (htext : text actor = some actor) (hne : actor ≠ "") (op : AdminOperation)
    (hready : op.Ready crypto tables actor s) :
    op.IsAnswered crypto tables actor s ↔ (op.Writes actor s → FitsActor actor) := by
  rw [fitsActor_iff htext]
  constructor
  · intro hanswered hwrites
    by_contra hfits
    have hnone : varchar 120 actor = none := Option.not_isSome_iff_eq_none.mp hfits
    exact not_answered_of_unfit op hready hwrites hne hnone hanswered
  · exact answered_of_ready op hready

end

end AdminOperation

/-! ## Accounts -/

/-- There is an active administrator with the email. -/
def IsAdmin (email : String) (db : Db) : Prop :=
  ∃ user ∈ db.accounts.users.rows,
    user.email = email ∧ user.isActive = true ∧ user.isAdmin = true

section

variable {auth : AuthCrypto} {env : RbacEnv} {payload : RbacUserCreate} {before : Store Db}

/-- An account that is created as an administrator's is one, and its email is a text. -/
theorem createUser_admin (hadmin : payload.isAdmin = true)
    (hcreated : Answered (createUser auth env payload) before) :
    text payload.email = some payload.email ∧
      IsAdmin payload.email (before.exec postgres (createUser auth env payload)).db := by
  obtain ⟨view, hview⟩ := hcreated
  have hstores : Stores auth env payload view
      (before.exec postgres (createUser auth env payload)).db := by
    obtain ⟨_, hpost⟩ := Request.serial_sound (createUser_stores payload)
    exact hpost view hview
  obtain ⟨email, hemail⟩ := Option.isSome_iff_exists.mp hstores.storable
  obtain ⟨displayName, hashedPassword, stored, -, -, hmem⟩ := hstores.row
  constructor
  · rw [text_eq_some hemail] at hemail
    exact hemail
  · exact ⟨_, hmem, rfl, rfl, hadmin⟩

/-- A creation leaves the keys and ceremonies. -/
theorem createUser_hsm (payload : RbacUserCreate) (s : Store Db) :
    (s.exec postgres (createUser auth env payload)).db.hsm = s.db.hsm := by
  have hstep : ∀ (w : Statement) (db db' : Db), Administers w → postgres.apply w db = some db' →
      db'.hsm = db.hsm := by
    intro w db db' hw happly
    rcases (apply_frame happly).hsm with ⟨statement, rfl, -⟩ | hsame
    · exact hw.elim
    · exact hsame
  exact Store.exec_rel (R := fun db db' : Db => db'.hsm = db.hsm) (fun _ => rfl)
    (fun hab hbc => Eq.trans hbc hab) hstep (administers_createUser payload) s

end

def firstConfiguration : ConfigurationCreate where
  name := "edge-gateway"
  name_min := by decide
  name_max := by decide
  payload := [("region", .str "eu")]
  description := none
  description_max := no_description_max
  sensitiveKeys := []

theorem firstConfiguration_creatable {crypto : AuditCrypto} {env : ConfigurationEnv} {s : Store Db}
    (hempty : s.db.configurations.rows = [])
    (hdigest : ∀ bs, (crypto.sha256 bs).length = 32) :
    Creatable crypto env firstConfiguration s where
  free := by simp [hempty]
  valid := by decide
  standard := by decide
  name := by decide
  description := by simp [firstConfiguration]
  fresh := by simp [hempty]
  sha256_length := hdigest

/-- Every operation of an administrator that passes its checks is answered if and only if the email
of the account has at most 120 characters or only blanks after these, and where it has not, every
operation that writes is refused. -/
theorem admin_acts_iff {auth : AuthCrypto} {env : RbacEnv} {payload : RbacUserCreate}
    {before : Store Db} (hadmin : payload.isAdmin = true)
    (hcreated : Answered (createUser auth env payload) before) {crypto : AuditCrypto}
    (hdigest : ∀ bs, (crypto.sha256 bs).length = 32) (tables : PythonText.CharacterTables) :
    ((∀ (op : AdminOperation) (s : Store Db), IsAdmin payload.email s.db →
        op.Ready crypto tables payload.email s → op.IsAnswered crypto tables payload.email s) ↔
      FitsActor payload.email) ∧
    ∀ (op : AdminOperation) (s : Store Db), op.Ready crypto tables payload.email s →
      (op.IsAnswered crypto tables payload.email s ↔
        (op.Writes payload.email s → FitsActor payload.email)) := by
  obtain ⟨htext, hisAdmin⟩ := createUser_admin hadmin hcreated
  have hne : payload.email ≠ "" := by
    intro hempty
    have hmin := payload.email_min
    rw [hempty] at hmin
    simp at hmin
  refine ⟨⟨fun hall => ?_, fun hfits op s _ hready => ?_⟩, fun op s hready =>
    op.answered_iff htext hne hready⟩
  · -- the first configuration of all is refused where the email does not fit
    let created : Store Db := ⟨{ emptyDb with
      accounts := (before.exec postgres (createUser auth env payload)).db.accounts }, 1⟩
    let op : AdminOperation := .createConfiguration
      ⟨0, fun k => k, fun _ => 0, fun _ => 0, 0, AuditVerification.sampleEnv 0⟩ firstConfiguration
    have hready : op.Ready crypto tables payload.email created :=
      firstConfiguration_creatable rfl hdigest
    exact (op.answered_iff htext hne hready).mp (hall op created hisAdmin hready) trivial
  · exact (op.answered_iff htext hne hready).mpr fun _ => hfits

/-! ## A short and a long email -/

def sampleAdmin : RbacUserCreate :=
  { sampleAccount "ada@nexus.io" "old password" ada_length oldPassword_length with isAdmin := true }

/-- The store in which an administrator was created. -/
def sampleAdmins (payload : RbacUserCreate) : Store Db :=
  (⟨emptyDb, 1⟩ : Store Db).exec postgres (createUser sampleAuthCrypto (sampleRbacEnv 0) payload)

/-- The self-test passes its checks where there are no keys yet. -/
theorem sampleAdmins_attestable {payload : RbacUserCreate}
    (hfresh : Fresh sha256Crypto (sampleAdmins payload).db.auditLog (sampleAdmins payload).sequence
      [((sampleHsmEnv 0).audit, attestationEntry (sampleHsmEnv 0) payload.email)]) :
    Attestable sha256Crypto (sampleHsmEnv 0) payload.email (sampleAdmins payload) where
  ids := by
    have hempty : (sampleAdmins payload).db.hsm = emptyDb.hsm := createUser_hsm payload _
    rw [hempty]
    exact ⟨rfl, rfl, rfl, rfl, rfl⟩
  log := ⟨Sha256.length_sha256, by decide, hfresh⟩

/-- The administrator with a short email runs the self-test. -/
theorem admin_acts_iff_sample :
    Answered (runAttestation sha256Crypto (sampleHsmEnv 0) sampleAdmin.email)
      (sampleAdmins sampleAdmin) := by
  have hadmin : sampleAdmin.isAdmin = true := rfl
  have hview : ((createUser sampleAuthCrypto (sampleRbacEnv 0) sampleAdmin).serial postgres
      emptyDb emptyDb 1).result = .ok ⟨20, "ada@nexus.io", "Ada", true, true, []⟩ := by
    decide +kernel
  have hcreated : Answered (createUser sampleAuthCrypto (sampleRbacEnv 0) sampleAdmin)
      ⟨emptyDb, 1⟩ := ⟨_, hview⟩
  have hdigest : ∀ bs, (sha256Crypto.sha256 bs).length = 32 := Sha256.length_sha256
  have hfits : FitsActor sampleAdmin.email := by decide +kernel
  have hisAdmin : IsAdmin sampleAdmin.email (sampleAdmins sampleAdmin).db := by
    unfold IsAdmin
    decide +kernel
  have hready : (AdminOperation.runAttestation (sampleHsmEnv 0)).Ready sha256Crypto
      PythonText.asciiTables sampleAdmin.email (sampleAdmins sampleAdmin) :=
    sampleAdmins_attestable (by decide +kernel)
  have hacts := admin_acts_iff hadmin hcreated hdigest PythonText.asciiTables
  exact hacts.1.mpr hfits (.runAttestation (sampleHsmEnv 0)) (sampleAdmins sampleAdmin) hisAdmin
    hready

def longAdmin : RbacUserCreate :=
  { sampleAdmin with
    email := longEmail
    email_min := by decide +kernel
    email_max := by decide +kernel }

/-- The administrator with an email of 140 characters is created and cannot run the self-test. -/
theorem long_email_locked_out :
    Answered (createUser sampleAuthCrypto (sampleRbacEnv 0) longAdmin) ⟨emptyDb, 1⟩ ∧
      longAdmin.isAdmin = true ∧ IsAdmin longAdmin.email (sampleAdmins longAdmin).db ∧
      ∃ op : AdminOperation,
        op.Ready sha256Crypto PythonText.asciiTables longAdmin.email (sampleAdmins longAdmin) ∧
        ¬ op.IsAnswered sha256Crypto PythonText.asciiTables longAdmin.email
          (sampleAdmins longAdmin) := by
  have hview : ((createUser sampleAuthCrypto (sampleRbacEnv 0) longAdmin).serial postgres
      emptyDb emptyDb 1).result = .ok ⟨20, longEmail, "Ada", true, true, []⟩ := by
    decide +kernel
  have hisAdmin : IsAdmin longAdmin.email (sampleAdmins longAdmin).db := by
    unfold IsAdmin
    decide +kernel
  have hready : (AdminOperation.runAttestation (sampleHsmEnv 0)).Ready sha256Crypto
      PythonText.asciiTables longAdmin.email (sampleAdmins longAdmin) :=
    sampleAdmins_attestable (by decide +kernel)
  have hlong : varchar 120 longAdmin.email = none := by decide +kernel
  exact ⟨⟨_, hview⟩, rfl, hisAdmin, .runAttestation (sampleHsmEnv 0), hready,
    not_answered_of_fails (runAttestation_fails (sampleHsmEnv 0) hlong)⟩

end NexusEngine.AdminAccounts
