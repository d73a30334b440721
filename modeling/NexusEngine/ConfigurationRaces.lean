import NexusEngine.ConfigurationLifecycle

/-!
# Concurrent activations

Sessions run the operations on configurations under read committed. A transaction activates
one version at most, and archives the active version that it has read. Another session can
have activated a third version in between, and nothing in the table forbids two active ones.
-/

namespace NexusEngine.ConfigurationRaces

open TransactionalRequests ReadCommittedSessions StoredColumns KeyedTables ConfigurationTable
  Database AuditService AuditAppends ConfigurationService ConfigurationLifecycle
open AuditVerification (sha256Crypto)

/-- Of the versions of a name that are not deleted, one at most is active. -/
def SingleActive (t : Configurations) : Prop :=
  ∀ c ∈ t.rows, ∀ d ∈ t.rows, c.status = .active → d.status = .active → c.deletedAt = none →
    d.deletedAt = none → c.name = d.name → c = d

/-! ## What a transaction does to a version -/

/-- The statements give the version with this identifier a status. -/
def Sets (ws : List Statement) (id : Uuid) (status : ConfigurationStatus) : Prop :=
  ∃ patch, .configuration (.update id patch) ∈ ws ∧ patch.status = some status

/-- The name of a version that a commit finds, unless it is deleted, or inserts. -/
def Names (committed : Db) (ws : List Statement) (id : Uuid) (name : String) : Prop :=
  (∃ c ∈ committed.configurations.rows, c.id = id ∧ c.name = name ∧ c.deletedAt = none) ∨
    ∃ c, .configuration (.insert c) ∈ ws ∧ c.id = id ∧ varchar 120 c.name = some name

/-- A commit that activates a version archives every other active version of the name. -/
def ArchivesOthers (committed : Db) (ws : List Statement) : Prop :=
  ∀ id name, Sets ws id .active → Names committed ws id name →
    ∀ d ∈ committed.configurations.rows, d.name = name → d.status = .active →
      d.deletedAt = none → d.id ≠ id → Sets ws d.id .archived

theorem sets_append {ws ws' : List Statement} {id : Uuid} {status : ConfigurationStatus} :
    Sets (ws ++ ws') id status ↔ Sets ws id status ∨ Sets ws' id status := by
  simp only [Sets, List.mem_append, or_and_right, exists_or]

/-- The statement inserts a draft, or brings no deleted row back and activates only `id`. -/
def Allowed (id : Uuid) : Statement → Prop
  | .configuration (.insert c) => c.status = .draft
  | .configuration (.update id' patch) =>
    patch.deletedAt ≠ some none ∧ (patch.status = some .active → id' = id)
  | _ => True

/-- The statements of an open transaction activate one version at most. -/
def Held (ws : List Statement) : Prop := ∃ id, ∀ w ∈ ws, Allowed id w

theorem Held.activates_one {ws : List Statement} (h : Held ws) {id id' : Uuid}
    (hid : Sets ws id .active) (hid' : Sets ws id' .active) : id = id' := by
  obtain ⟨only, hallowed⟩ := h
  obtain ⟨patch, hmem, hactive⟩ := hid
  obtain ⟨patch', hmem', hactive'⟩ := hid'
  exact ((hallowed _ hmem).2 hactive).trans ((hallowed _ hmem').2 hactive').symm

/-! ## Where a row comes from -/

/-- A row after some statements is one from before or an inserted one, and it is active by the
statements or was active and is not archived by them. -/
inductive Origin (t : Configurations) (ws : List Statement) (c' : Configuration) : Prop where
  | kept (c : Configuration) (mem : c ∈ t.rows) (document : c.SameDocument c')
      (deletedAt : c'.deletedAt = none → c.deletedAt = none)
      (status : c'.status = .active →
        Sets ws c.id .active ∨ c.status = .active ∧ ¬ Sets ws c.id .archived)
  | inserted (c : Configuration) (sent : .configuration (.insert c) ∈ ws) (id : c'.id = c.id)
      (name : varchar 120 c.name = some c'.name)
      (status : c'.status = .active → Sets ws c.id .active)

theorem Origin.trans {t mid : Configurations} {ws ws' : List Statement} {c' : Configuration}
    (h : ∀ m ∈ mid.rows, Origin t ws m) (h' : Origin mid ws' c') : Origin t (ws ++ ws') c' := by
  cases h' with
  | inserted c sent id name status =>
    exact .inserted c (List.mem_append_right _ sent) id name fun hactive =>
      sets_append.mpr (.inr (status hactive))
  | kept m mem document deletedAt status =>
    cases h m mem with
    | kept c mem₀ document₀ deletedAt₀ status₀ =>
      refine .kept c mem₀ (document₀.trans document) (fun h => deletedAt₀ (deletedAt h)) ?_
      intro hactive
      rw [sets_append, sets_append]
      rcases status hactive with hset | ⟨hm, hnot⟩
      · exact .inl (.inr (document₀.id ▸ hset))
      · rcases status₀ hm with hset | ⟨hc, hnot₀⟩
        · exact .inl (.inl hset)
        · exact .inr ⟨hc, fun hset => hset.elim hnot₀ fun hset => hnot (document₀.id.symm ▸ hset)⟩
    | inserted c sent id name status₀ =>
      refine .inserted c (List.mem_append_left _ sent) (document.id.trans id)
        (document.name.symm ▸ name) fun hactive => ?_
      rw [sets_append]
      rcases status hactive with hset | ⟨hm, -⟩
      · exact .inr (id ▸ hset)
      · exact .inl (status₀ hm)

theorem Origin.unchanged {t : Configurations} {w : Statement} {c : Configuration}
    (hc : c ∈ t.rows) (h : ¬ Sets [w] c.id .archived) : Origin t [w] c :=
  .kept c hc (.refl c) id fun hactive => .inr ⟨hactive, h⟩

/-- An update takes the status from the row or from the patch. -/
theorem patched {t : Configurations} {c : Configuration} {patch : ConfigurationPatch}
    (hc : c ∈ t.rows) (hdeletes : patch.deletedAt ≠ some none) :
    Origin t [.configuration (.update c.id patch)] (patch.apply c) := by
  refine .kept c hc (patch.apply_sameDocument c) (fun hnone => ?_) fun hactive => ?_
  · change patch.deletedAt.getD c.deletedAt = none at hnone
    cases hdeleted : patch.deletedAt with
    | none => rwa [hdeleted] at hnone
    | some deletedAt =>
      rw [hdeleted] at hnone
      exact absurd (hdeleted.trans (congrArg some hnone)) hdeletes
  · change patch.status.getD c.status = .active at hactive
    cases hstatus : patch.status with
    | none =>
      rw [hstatus] at hactive
      refine .inr ⟨hactive, fun ⟨patch', hmem, hset⟩ => ?_⟩
      cases List.mem_singleton.mp hmem
      rw [hstatus] at hset
      nomatch hset
    | some status =>
      rw [hstatus] at hactive
      exact .inl ⟨patch, List.mem_cons_self, hstatus.trans (congrArg some hactive)⟩

/-- The step lemma: one accepted statement. -/
theorem apply_origin {id : Uuid} {w : Statement} {db db' : Db} (hallowed : Allowed id w)
    (h : postgres.apply w db = some db') :
    ∀ c' ∈ db'.configurations.rows, Origin db.configurations [w] c' := by
  intro c' hc'
  cases w with
  | configuration st =>
    obtain ⟨configurations, hst, rfl⟩ := apply_configuration.mp h
    cases st with
    | insert c =>
      obtain ⟨row, hstored, hinsert⟩ := insertConfiguration_eq_some hst
      rcases (Table.mem_insert hinsert).mp hc' with hold | rfl
      · exact .unchanged hold fun ⟨_, hmem, _⟩ => nomatch List.mem_singleton.mp hmem
      · have hdraft : c'.status = .draft := by
          rw [hstored.rest]
          exact hallowed
        refine .inserted c List.mem_cons_self ?_ hstored.name fun hactive => ?_
        · rw [hstored.rest]
        · rw [hdraft] at hactive
          nomatch hactive
    | update id' patch =>
      change db.configurations.update id' patch.apply (fun _ => rfl) = _ at hst
      change c' ∈ configurations.rows at hc'
      rw [(Table.update_eq_some.mp hst).2] at hc'
      obtain ⟨c, hc, rfl⟩ := List.mem_map.mp hc'
      split
      · next hid => exact hid ▸ patched hc hallowed.1
      · next hid =>
        refine .unchanged hc fun ⟨patch', hmem, _⟩ => ?_
        cases List.mem_singleton.mp hmem
        exact hid rfl
  | _ =>
    rcases (apply_frame h).configurations with ⟨st, hw, -⟩ | hsame
    · nomatch hw
    · exact .unchanged (hsame ▸ hc') fun ⟨_, hmem, _⟩ => nomatch List.mem_singleton.mp hmem

theorem applyAll_origin {id : Uuid} {ws : List Statement} {db db' : Db}
    (h : postgres.applyAll ws db = some db') (hallowed : ∀ w ∈ ws, Allowed id w) :
    ∀ c' ∈ db'.configurations.rows, Origin db.configurations ws c' := by
  induction ws generalizing db with
  | nil =>
    cases h
    intro c hc
    exact .kept c hc (.refl c) (fun h => h) fun hactive =>
      .inr ⟨hactive, fun ⟨_, hmem, _⟩ => nomatch hmem⟩
  | cons w ws ih =>
    obtain ⟨mid, hw, hws⟩ := Option.bind_eq_some_iff.mp h
    intro c' hc'
    have hfirst := apply_origin (hallowed w List.mem_cons_self) hw
    have hrest := ih hws (fun v hv => hallowed v (List.mem_cons_of_mem _ hv)) c' hc'
    exact Origin.trans hfirst hrest

/-- The step lemma of commits. -/
theorem singleActive_commit {ws : List Statement} {db view : Db}
    (h : SingleActive db.configurations) (held : Held ws) (archives : ArchivesOthers db ws)
    (happly : postgres.applyAll ws db = some view) : SingleActive view.configurations := by
  obtain ⟨only, hallowed⟩ := held
  have horigin := applyAll_origin happly hallowed
  -- an active version that the transaction leaves active is the one that it activates
  have hother : ∀ c' ∈ view.configurations.rows, ∀ d' ∈ view.configurations.rows,
      c'.deletedAt = none → d'.deletedAt = none → c'.name = d'.name → Sets ws d'.id .active →
      ∀ c ∈ db.configurations.rows, c.SameDocument c' → c.deletedAt = none → c.status = .active →
        ¬ Sets ws c.id .archived → c'.id = d'.id := by
    intro c' hc' d' hd' _ hdd hname hset c hc document hcd hactive hnot
    by_contra hne
    refine hnot (archives d'.id d'.name hset ?_ c hc (document.name ▸ hname) hactive hcd
      fun heq => hne (document.id.trans heq))
    cases horigin d' hd' with
    | kept d mem document' deletedAt _ =>
      exact .inl ⟨d, mem, document'.id.symm, document'.name.symm, deletedAt hdd⟩
    | inserted d sent id name _ => exact .inr ⟨d, sent, id.symm, name⟩
  have hsets : ∀ c' ∈ view.configurations.rows, c'.status = .active → c'.deletedAt = none →
      Sets ws c'.id .active ∨ ∃ c ∈ db.configurations.rows, c.SameDocument c' ∧
        c.deletedAt = none ∧ c.status = .active ∧ ¬ Sets ws c.id .archived := by
    intro c' hc' hactive hdeleted
    cases horigin c' hc' with
    | kept c mem document deletedAt status =>
      rcases status hactive with hset | ⟨hc, hnot⟩
      · exact .inl (document.id ▸ hset)
      · exact .inr ⟨c, mem, document, deletedAt hdeleted, hc, hnot⟩
    | inserted c sent id _ status => exact .inl (id ▸ status hactive)
  intro c' hc' d' hd' hca hda hcd hdd hname
  refine view.configurations.eq_of_key_eq hc' hd' ?_
  rcases hsets c' hc' hca hcd with hset | ⟨c, hc, document, hcn, hactive, hnot⟩
  · rcases hsets d' hd' hda hdd with hset' | ⟨d, hd, document', hdn, hactive', hnot'⟩
    · exact Held.activates_one ⟨only, hallowed⟩ hset hset'
    · exact (hother d' hd' c' hc' hdd hcd hname.symm hset d hd document' hdn hactive' hnot').symm
  · rcases hsets d' hd' hda hdd with hset' | ⟨d, hd, document', hdn, hactive', -⟩
    · exact hother c' hc' d' hd' hcd hdd hname hset' c hc document hcn hactive hnot
    · have heq : c = d := h c hc d hd hactive hactive' hcn hdn
        (document.name.symm.trans (hname.trans document'.name))
      rw [document.id, document'.id, heq]

/-! ## What the sessions send -/

/-- A flush keeps the statements of its transaction within one activation. -/
def SendsHeld (_ : Db) (pending : List Statement) (_ : ℕ) (ws : List Statement) : Prop :=
  Held (pending ++ ws)

/-- The sessions promise nothing about each other's changes. -/
def Any (_ _ : Db) : Prop := True

theorem any_refl (db : Db) : Any db db := trivial

theorem any_trans (db₁ db₂ db₃ : Db) (_ : Any db₁ db₂) (_ : Any db₂ db₃) : Any db₁ db₃ := trivial

/-- Saving an object whose deletion is not taken back. -/
theorem saveConfiguration_allowed {id : Uuid} {old new : Configuration} {w : Statement}
    (hw : w ∈ saveConfiguration old new)
    (hdeleted : new.deletedAt = old.deletedAt ∨ new.deletedAt ≠ none)
    (hactive : new.status = .active → old.id = id) : Allowed id w := by
  unfold saveConfiguration at hw
  split at hw
  · nomatch hw
  · rw [List.mem_singleton.mp hw]
    constructor
    · intro heq
      simp only [Configuration.diff, changed, Option.ite_none_left_eq_some, Option.some.injEq] at heq
      rcases hdeleted with hsame | hnone
      · exact heq.1 hsame.symm
      · exact hnone heq.2
    · intro heq
      simp only [Configuration.diff, changed, Option.ite_none_left_eq_some, Option.some.injEq] at heq
      exact hactive heq.2

/-- The statements that put one version in the place of the active one. -/
theorem activation_allowed {env : ConfigurationEnv} {config : Configuration}
    {current : Option Configuration} {entry : AuditLogTable.NewAuditLogEntry} {n : ℕ} :
    ∀ w ∈ (archiveCurrent env config.id current ++
      saveConfiguration config (activatedConfiguration env config)) ++
        [.insertAuditLogEntry entry n], Allowed config.id w := by
  intro w hw
  rcases List.mem_append.mp hw with hw | hw
  · rcases List.mem_append.mp hw with hw | hw
    · unfold archiveCurrent at hw
      split at hw
      · nomatch hw
      · split at hw
        · nomatch hw
        · exact saveConfiguration_allowed hw (.inl rfl) fun h => nomatch h
    · exact saveConfiguration_allowed hw (.inl rfl) fun _ => rfl
  · rw [List.mem_singleton.mp hw]
    trivial

/-- An inserted draft activates nothing. -/
theorem Held.insert {pending : List Statement} (h : Held pending) {c : Configuration}
    (hdraft : c.status = .draft) : Held (pending ++ [.configuration (.insert c)]) := by
  obtain ⟨id, hallowed⟩ := h
  refine ⟨id, fun w hw => ?_⟩
  rcases List.mem_append.mp hw with hw | hw
  · exact hallowed w hw
  · rw [List.mem_singleton.mp hw]
    exact hdraft

theorem held_nil : Held [] := ⟨0, fun _ h => nomatch h⟩

section

variable {crypto : AuditCrypto} {db : Db} {pending : List Statement}

theorem getConfigurationOrm_guarantees {id : Uuid}
    {post : Configuration → List Statement → Db → Prop}
    (h : ∀ c db', post c pending db') :
    Guarantees postgres Any SendsHeld (getConfigurationOrm id) post pending db :=
  Guarantees.select_bind fun _ _ _ _ => guarantees_found_bind fun c _ =>
    guarantees_ensure_bind fun _ => Guarantees.return fun db' _ => h c db'

/-- The commit and the response that end a request. -/
theorem finish_guarantees {id : Uuid} :
    Guarantees postgres Any SendsHeld (do
      Request.commitTransaction
      refreshed id) (fun _ _ _ => True) pending db :=
  Guarantees.commitTransaction_bind fun _ _ _ _ => Guarantees.select_bind fun _ _ _ _ =>
    guarantees_found_bind fun _ _ => Guarantees.return fun _ _ => trivial

/-- One insert, and the end of the request. -/
theorem insert_guarantees {c : Configuration} (hdraft : c.status = .draft) :
    Guarantees postgres Any SendsHeld (do
      Request.send fun _ => [.configuration (.insert c)]
      Request.commitTransaction
      refreshed c.id) (fun _ _ _ => True) [] db :=
  Guarantees.send_bind fun _ _ _ => ⟨held_nil.insert hdraft, finish_guarantees⟩

theorem createConfiguration_guarantees (env : ConfigurationEnv) (payload : ConfigurationCreate)
    (createdBy : String) :
    Guarantees postgres Any SendsHeld (createConfiguration crypto env payload createdBy)
      (fun _ _ _ => True) [] db :=
  Guarantees.select_bind fun _ _ _ _ => guarantees_ensure_bind fun _ =>
    guarantees_ensure_bind fun _ => insert_guarantees rfl

theorem createSuccessorVersion_guarantees (env : ConfigurationEnv) (configId : Uuid)
    (payload : ConfigurationUpdate) (createdBy : String) :
    Guarantees postgres Any SendsHeld (createSuccessorVersion crypto env configId payload createdBy)
      (fun _ _ _ => True) [] db := by
  refine Guarantees.bind any_refl (getConfigurationOrm_guarantees fun base _ => ?_)
  refine guarantees_ensure_bind fun _ => ?_
  exact Guarantees.select_bind fun _ _ _ _ => insert_guarantees rfl

theorem deleteConfiguration_guarantees (env : ConfigurationEnv) (configId : Uuid) :
    Guarantees postgres Any SendsHeld (deleteConfiguration env configId)
      (fun _ _ _ => True) [] db := by
  refine Guarantees.bind any_refl (getConfigurationOrm_guarantees fun c _ => ?_)
  refine guarantees_ensure_bind fun hnot => ?_
  refine Guarantees.send_bind fun _ _ _ => ⟨⟨c.id, fun w hw => ?_⟩, ?_⟩
  · exact saveConfiguration_allowed hw (.inr fun h => nomatch h) fun hactive => absurd hactive hnot
  · exact Guarantees.commitTransaction_bind fun _ _ _ _ => Guarantees.return fun _ _ => trivial

theorem archiveConfiguration_guarantees (env : ConfigurationEnv) (configId : Uuid) :
    Guarantees postgres Any SendsHeld (archiveConfiguration env configId)
      (fun _ _ _ => True) [] db := by
  refine Guarantees.bind any_refl (getConfigurationOrm_guarantees fun c _ => ?_)
  refine guarantees_ensure_bind fun _ => ?_
  refine Guarantees.send_bind fun _ _ _ => ⟨⟨c.id, fun w hw => ?_⟩, finish_guarantees⟩
  exact saveConfiguration_allowed hw (.inl rfl) fun h => nomatch h

theorem activateConfiguration_guarantees (env : ConfigurationEnv) (configId : Uuid)
    (actor : String) :
    Guarantees postgres Any SendsHeld (activateConfiguration crypto env configId actor)
      (fun _ _ _ => True) [] db := by
  refine Guarantees.bind any_refl (getConfigurationOrm_guarantees fun c _ => ?_)
  refine guarantees_ensure_bind fun _ => ?_
  refine Guarantees.select_bind fun _ _ _ _ => ?_
  exact Guarantees.bind any_refl (appendEntryInTransaction_guarantees
    (fun _ _ _ _ _ _ _ _ _ => ⟨c.id, activation_allowed⟩) fun _ _ _ => finish_guarantees)

theorem rollbackConfiguration_guarantees (env : ConfigurationEnv) (configId : Uuid)
    (actor : String) :
    Guarantees postgres Any SendsHeld (rollbackConfiguration crypto env configId actor)
      (fun _ _ _ => True) [] db := by
  refine Guarantees.bind any_refl (getConfigurationOrm_guarantees fun base _ => ?_)
  refine Guarantees.select_bind fun _ view _ _ => ?_
  refine Guarantees.send_bind fun _ _ _ => ⟨held_nil.insert rfl, ?_⟩
  refine Guarantees.select_bind fun _ _ _ _ => ?_
  refine Guarantees.bind any_refl (appendEntryInTransaction_guarantees
    (fun _ _ _ _ _ _ _ _ _ => ⟨env.uuid4 0, fun w hw => ?_⟩) fun _ _ _ => finish_guarantees)
  rcases List.mem_append.mp hw with hw | hw
  · rw [List.mem_singleton.mp hw]
    exact rfl
  · have hallowed := activation_allowed w hw
    exact hallowed

theorem importItems_guarantees (env : ConfigurationEnv) (createdBy : String)
    (items : List ConfigurationImportItem) {k : ℕ} (hheld : Held pending) :
    Guarantees postgres Any SendsHeld (importItems crypto env createdBy k items)
      (fun _ pending' _ => Held pending') pending db := by
  induction items generalizing k pending db with
  | nil => exact Guarantees.return fun _ _ => hheld
  | cons item items ih =>
    rw [importItems]
    split
    · exact Guarantees.bind any_refl (Guarantees.mono (fun _ _ _ _ h => h)
        (fun _ _ _ h => Guarantees.return fun _ _ => h) (ih hheld))
    · refine Guarantees.select_bind fun _ _ _ _ => Guarantees.send_bind fun _ _ _ =>
        ⟨hheld.insert rfl, ?_⟩
      exact Guarantees.bind any_refl (Guarantees.mono (fun _ _ _ _ h => h)
        (fun _ _ _ h => Guarantees.return fun _ _ => h) (ih (hheld.insert rfl)))

theorem importConfigurations_guarantees (env : ConfigurationEnv)
    (req : ConfigurationImportRequest) (createdBy : String) :
    Guarantees postgres Any SendsHeld (importConfigurations crypto env req createdBy)
      (fun _ _ _ => True) [] db := by
  refine Guarantees.bind any_refl (Guarantees.mono (fun _ _ _ _ h => h) (fun _ _ _ _ => ?_)
    (importItems_guarantees env createdBy req.items held_nil))
  exact Guarantees.commitTransaction_bind fun _ _ _ _ => Guarantees.return fun _ _ => trivial

theorem request_guarantees (r : ConfigurationRequest) :
    Guarantees postgres Any SendsHeld (r.request crypto) (fun _ _ _ => True) [] db := by
  have discard : ∀ {α : Type} {p : Service α},
      Guarantees postgres Any SendsHeld p (fun _ _ _ => True) [] db →
      Guarantees postgres Any SendsHeld (do
        let _ ← p
        return () : Service Unit) (fun _ _ _ => True) [] db := fun h =>
    Guarantees.bind any_refl (Guarantees.mono (fun _ _ _ _ h => h)
      (fun _ _ _ _ => Guarantees.return fun _ _ => trivial) h)
  cases r with
  | create env payload createdBy =>
    exact discard (createConfiguration_guarantees env payload createdBy)
  | createSuccessor env id payload createdBy =>
    exact discard (createSuccessorVersion_guarantees env id payload createdBy)
  | activate env id actor => exact discard (activateConfiguration_guarantees env id actor)
  | archive env id => exact discard (archiveConfiguration_guarantees env id)
  | rollback env id actor => exact discard (rollbackConfiguration_guarantees env id actor)
  | delete env id => exact deleteConfiguration_guarantees env id
  | importAll env req createdBy => exact discard (importConfigurations_guarantees env req createdBy)

/-- In every interleaving whose commits archive every other active version of a name that they
activate a version of, no committed state has two active versions of one name. -/
theorem one_active_version (hsingle : SingleActive db.configurations) {n : ℕ}
    (rs : List ConfigurationRequest) {σ : Server Db Statement ServiceError Unit}
    (run : Server.Reaches postgres ArchivesOthers (start db n (rs.map (·.request crypto))) σ) :
    SingleActive σ.committed.configurations := by
  have hpromise : ∀ p ∈ rs.map (·.request crypto),
      Guarantees postgres Any SendsHeld p (fun _ _ _ => True) [] db := by
    intro p hp
    obtain ⟨r, -, rfl⟩ := List.mem_map.mp hp
    exact request_guarantees r
  obtain ⟨hfinal, -, -, -⟩ := Server.Reaches.preserves (fun d => SingleActive d.configurations)
    (fun _ ws => Held ws) any_refl any_trans (fun _ => held_nil) (fun _ _ _ _ held => held)
    (fun _ _ _ _ _ sends => sends)
    (fun _ _ _ hinv held archives happly =>
      ⟨singleActive_commit hinv held archives happly, trivial⟩) hsingle hpromise run
  exact hfinal

end

/-! ## Two versions activated at once -/

/-- A document with two versions, and an activation of each. -/
def sampleRequests : List ConfigurationRequest :=
  [.create (sampleConfigurationEnv 1) (sampleDocument "limits" "limit" limits_length)
      "admin@example.com",
    .createSuccessor (sampleConfigurationEnv 2) 10 sampleUpdate "admin@example.com",
    .activate (sampleConfigurationEnv 3) 10 "alice@example.com",
    .activate (sampleConfigurationEnv 4) 20 "bob@example.com"]

def sampleStart : Server Db Statement ServiceError Unit :=
  start emptyDb 1 (sampleRequests.map (·.request sha256Crypto))

/-- The sessions run one after the other. -/
def oneByOne : List Action :=
  List.replicate 4 (.run 0) ++ List.replicate 5 (.run 1) ++ List.replicate 7 (.run 2) ++
    List.replicate 7 (.run 3)

/-- Both activations read that no version is active before one of them writes. -/
def interleaved : List Action :=
  List.replicate 4 (.run 0) ++ List.replicate 5 (.run 1) ++ List.replicate 2 (.run 2) ++
    List.replicate 2 (.run 3) ++ List.replicate 5 (.run 2) ++ List.replicate 5 (.run 3)

def setsStatus (ws : List Statement) (id : Uuid) (status : ConfigurationStatus) : Bool :=
  ws.any fun
    | .configuration (.update id' patch) => id' == id && patch.status == some status
    | _ => false

/-- A check that is stricter than the condition: the versions of other names are archived too. -/
def archivesAll (committed : Db) (ws : List Statement) : Bool :=
  ws.all fun
    | .configuration (.update id patch) => patch.status != some .active ||
      committed.configurations.rows.all fun d => d.status != .active || d.id == id ||
        setsStatus ws d.id .archived
    | _ => true

theorem sets_of_setsStatus {ws : List Statement} {id : Uuid} {status : ConfigurationStatus}
    (h : setsStatus ws id status = true) : Sets ws id status := by
  obtain ⟨w, hw, hsets⟩ := List.any_eq_true.mp h
  cases w with
  | configuration st =>
    cases st with
    | update id' patch =>
      simp only [Bool.and_eq_true, beq_iff_eq] at hsets
      exact ⟨patch, hsets.1 ▸ hw, hsets.2⟩
    | insert c => nomatch hsets
  | _ => nomatch hsets

theorem archivesAll_sound (committed : Db) (ws : List Statement)
    (h : archivesAll committed ws = true) : ArchivesOthers committed ws := by
  rintro id name ⟨patch, hmem, hactive⟩ - d hd - hda - hne
  have hall := List.all_eq_true.mp h _ hmem
  simp only [hactive, bne_self_eq_false, Bool.false_or, List.all_eq_true] at hall
  have hd' := hall d hd
  simp only [hda, bne_self_eq_false, Bool.false_or, Bool.or_eq_true, beq_iff_eq] at hd'
  exact sets_of_setsStatus (hd'.resolve_left hne)

theorem one_active_version_sample :
    ∃ σ, Server.run postgres archivesAll sampleStart oneByOne = some σ ∧
      (σ.committed.configurations.rows.map Configuration.status = [.archived, .active]) ∧
      SingleActive σ.committed.configurations := by
  have hrun : ((Server.run postgres archivesAll sampleStart oneByOne).map fun σ =>
      σ.committed.configurations.rows.map Configuration.status) = some [.archived, .active] := by
    decide +kernel
  obtain ⟨σ, hσ, hstatus⟩ := Option.map_eq_some_iff.mp hrun
  refine ⟨σ, hσ, hstatus, ?_⟩
  have hempty : SingleActive emptyDb.configurations := fun _ hc => absurd hc List.not_mem_nil
  exact one_active_version hempty _ (Server.Reaches.of_run archivesAll_sound .refl hσ)

/-- Two versions of one name are active and not deleted. -/
theorem both_versions_active :
    ∃ σ, Server.Reaches postgres (fun _ _ => True) sampleStart σ ∧
      ¬ SingleActive σ.committed.configurations := by
  have hrun : ((Server.run postgres (fun _ _ => true) sampleStart interleaved).map fun σ =>
      σ.committed.configurations.rows.map fun c => (c.name, c.version, c.status, c.deletedAt)) =
      some [("limits", 1, .active, none), ("limits", 2, .active, none)] := by decide +kernel
  obtain ⟨σ, hσ, hrows⟩ := Option.map_eq_some_iff.mp hrun
  refine ⟨σ, Server.Reaches.of_run (fun _ _ _ => trivial) .refl hσ, fun hsingle => ?_⟩
  obtain ⟨c, rest, hc, hfirst, hrest⟩ := List.map_eq_cons_iff.mp hrows
  obtain ⟨d, rest', rfl, hsecond, -⟩ := List.map_eq_cons_iff.mp hrest
  simp only [Prod.mk.injEq] at hfirst hsecond
  obtain ⟨hname, hversion, hactive, hdeleted⟩ := hfirst
  obtain ⟨hname', hversion', hactive', hdeleted'⟩ := hsecond
  have heq : c = d := hsingle c (by simp [hc]) d (by simp [hc]) hactive hactive' hdeleted hdeleted'
    (hname.trans hname'.symm)
  rw [heq, hversion'] at hversion
  nomatch hversion

end NexusEngine.ConfigurationRaces
