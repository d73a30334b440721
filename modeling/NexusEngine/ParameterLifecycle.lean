import NexusEngine.ParameterService
import NexusEngine.AuditAppends

/-!
# What the parameter operations do

Each operation, run to its end, has one effect on a parameter and the changes that are recorded
for it, or none. Parameters are never inserted or deleted, and an apply promotes one parameter
after the other.
-/

namespace NexusEngine.ParameterLifecycle

open TransactionalRequests StoredColumns KeyedTables CalendarTime ParameterTables Database
  PythonText AuditService AuditAppends ParameterService

/-! ## Flushed objects -/

/-- The update of an object takes its row to the object's new state. -/
theorem diffParameter_apply {old new : ConfigParameter}
    (h : new = { old with activeValue := new.activeValue, pendingValue := new.pendingValue }) :
    (old.diff new).apply old = new := by
  rw [h]
  simp [ConfigParameterPatch.apply, ConfigParameter.diff]

theorem diffChange_apply {old new : ConfigChange}
    (h : new = { old with status := new.status, appliedAt := new.appliedAt }) :
    (old.diff new).apply old = new := by
  rw [h]
  simp [ConfigChangePatch.apply, ConfigChange.diff]

theorem updateParameter_eq_some {s s' : ParameterStore} {id : Uuid} {patch : ConfigParameterPatch}
    (h : s.updateParameter id patch = some s') :
    ∃ parameters, s' = { s with parameters := parameters } ∧
      parameters.rows = s.parameters.rows.map fun p => if p.id = id then patch.apply p else p := by
  simp only [ParameterStore.updateParameter, Option.bind_eq_bind, Option.bind_eq_some_iff,
    Option.pure_def, Option.some.injEq] at h
  obtain ⟨_, -, _, -, parameters, hupdate, rfl⟩ := h
  exact ⟨parameters, rfl, (Table.update_eq_some.mp hupdate).2⟩

theorem updateChange_eq_some {s s' : ParameterStore} {id : Uuid} {patch : ConfigChangePatch}
    (h : s.updateChange id patch = some s') :
    ∃ changes, s' = { s with changes := changes } ∧
      changes.rows = s.changes.rows.map fun c => if c.id = id then patch.apply c else c := by
  obtain ⟨changes, hupdate, rfl⟩ := Option.map_eq_some_iff.mp h
  exact ⟨changes, rfl, (Table.update_eq_some.mp hupdate).2⟩

/-- The texts of a staged change fit its columns. -/
def Storable (payload : ConfigParameterStage) : Prop :=
  text payload.value = some payload.value ∧ (nullable (varchar 255) payload.reason).isSome ∧
    (varchar 120 payload.changedBy).isSome

theorem insertChange_eq_some {s s' : ParameterStore} {c : ConfigChange}
    (h : s.insertChange c = some s') :
    ∃ reason changedBy changes, nullable (varchar 255) c.reason = some reason ∧
      varchar 120 c.changedBy = some changedBy ∧ text c.newValue = some c.newValue ∧
      s' = { s with changes := changes } ∧
      changes.rows = s.changes.rows ++ [{ c with reason := reason, changedBy := changedBy }] := by
  simp only [ParameterStore.insertChange, Option.bind_eq_bind, Option.bind_eq_some_iff,
    Option.ite_none_right_eq_some, Option.pure_def, Option.some.injEq] at h
  obtain ⟨previous, hprevious, new, hnew, reason, hreason, changedBy, hchangedBy, -, changes,
    hinsert, rfl⟩ := h
  obtain rfl := text_eq_some hprevious
  obtain rfl := text_eq_some hnew
  exact ⟨reason, changedBy, changes, hreason, hchangedBy, hnew, rfl,
    (Table.insert_eq_some.mp hinsert).2⟩

theorem applyAll_parameter_singleton {statement : ParameterStatement} {db db' : Db}
    (h : postgres.applyAll [.parameter statement] db = some db') :
    ∃ parameters, statement.apply db.parameters = some parameters ∧
      db' = { db with parameters := parameters } := by
  rw [StatementSemantics.applyAll_singleton] at h
  exact apply_parameter.mp h

/-- A saved parameter replaces the row it was loaded from. -/
theorem saveParameter_sound {old new : ConfigParameter} {db db' : Db}
    (h : postgres.applyAll (saveParameter old new) db = some db')
    (hrow : old ∈ db.parameters.parameters.rows)
    (hnew : new = { old with activeValue := new.activeValue, pendingValue := new.pendingValue }) :
    db'.parameters.changes = db.parameters.changes ∧
      db'.parameters.parameters.rows =
        db.parameters.parameters.rows.map fun p => if p.id = old.id then new else p := by
  have hsame : ∀ p ∈ db.parameters.parameters.rows, p.id = old.id → p = old := fun p hp hid =>
    db.parameters.parameters.eq_of_key_eq hp hrow hid
  unfold saveParameter at h
  split at h
  · next heq =>
    cases h
    refine ⟨rfl, (List.map_id' _).symm.trans (List.map_congr_left fun p hp => ?_)⟩
    split
    · next hid => exact (hsame p hp hid).trans heq
    · rfl
  · obtain ⟨store, hupdate, rfl⟩ := applyAll_parameter_singleton h
    obtain ⟨parameters, rfl, hrows⟩ := updateParameter_eq_some hupdate
    refine ⟨rfl, hrows.trans (List.map_congr_left fun p hp => ?_)⟩
    split
    · next hid => rw [hsame p hp hid, diffParameter_apply hnew]
    · rfl

/-- Change the rows that were loaded. -/
def rewriteLoaded (loaded : List ConfigChange) (f : ConfigChange → ConfigChange)
    (c : ConfigChange) : ConfigChange := if c ∈ loaded then f c else c

theorem saveChange_sound {old new : ConfigChange} {db db' : Db}
    (h : postgres.applyAll (saveChange old new) db = some db')
    (hrow : old ∈ db.parameters.changes.rows)
    (hnew : new = { old with status := new.status, appliedAt := new.appliedAt }) :
    db'.parameters.parameters = db.parameters.parameters ∧
      db'.parameters.changes.rows =
        db.parameters.changes.rows.map fun c => if c = old then new else c := by
  have hsame : ∀ c ∈ db.parameters.changes.rows, c.id = old.id → c = old := fun c hc hid =>
    db.parameters.changes.eq_of_key_eq hc hrow hid
  unfold saveChange at h
  split at h
  · next heq =>
    cases h
    refine ⟨rfl, (List.map_id' _).symm.trans (List.map_congr_left fun c _ => ?_)⟩
    split
    · next hc => exact hc.trans heq
    · rfl
  · obtain ⟨store, hupdate, rfl⟩ := applyAll_parameter_singleton h
    obtain ⟨changes, rfl, hrows⟩ := updateChange_eq_some hupdate
    refine ⟨rfl, hrows.trans (List.map_congr_left fun c hc => ?_)⟩
    by_cases hid : c.id = old.id
    · rw [hsame c hc hid, if_pos rfl, if_pos rfl, diffChange_apply hnew]
    · rw [if_neg hid, if_neg fun heq => hid (congrArg ConfigChange.id heq)]

/-- Saving loaded changes rewrites them, and leaves the others. -/
theorem saveChanges_sound {f : ConfigChange → ConfigChange}
    (hf : ∀ c, f c = { c with status := (f c).status, appliedAt := (f c).appliedAt })
    {loaded : List ConfigChange} {db db' : Db}
    (h : postgres.applyAll (loaded.flatMap fun c => saveChange c (f c)) db = some db')
    (hrows : ∀ c ∈ loaded, c ∈ db.parameters.changes.rows)
    (hnodup : (loaded.map ConfigChange.id).Nodup) :
    db'.parameters.parameters = db.parameters.parameters ∧
      db'.parameters.changes.rows = db.parameters.changes.rows.map (rewriteLoaded loaded f) := by
  induction loaded generalizing db with
  | nil =>
    cases h
    refine ⟨rfl, (List.map_id' _).symm.trans (List.map_congr_left fun c _ => ?_)⟩
    exact (if_neg List.not_mem_nil).symm
  | cons c loaded ih =>
    rw [List.flatMap_cons, StatementSemantics.applyAll_append, Option.bind_eq_some_iff] at h
    obtain ⟨mid, hfirst, hrest⟩ := h
    obtain ⟨hparameters, hchanges⟩ := saveChange_sound hfirst (hrows c List.mem_cons_self) (hf c)
    obtain ⟨hnot, hnodup⟩ := List.nodup_cons.mp hnodup
    have hother : ∀ d ∈ loaded, d ≠ c := fun d hd heq =>
      hnot (List.mem_map.mpr ⟨d, hd, congrArg ConfigChange.id heq⟩)
    have hmid : ∀ d ∈ loaded, d ∈ mid.parameters.changes.rows := by
      intro d hd
      rw [hchanges]
      exact List.mem_map.mpr ⟨d, hrows d (List.mem_cons_of_mem _ hd), if_neg (hother d hd)⟩
    obtain ⟨hparameters', hchanges'⟩ := ih hrest hmid hnodup
    refine ⟨hparameters'.trans hparameters, ?_⟩
    rw [hchanges', hchanges, List.map_map]
    refine List.map_congr_left fun d _ => ?_
    simp only [Function.comp, rewriteLoaded, List.mem_cons]
    by_cases hd : d = c
    · subst hd
      have hkept : f d ∉ loaded := by
        intro hmem
        refine hnot (List.mem_map.mpr ⟨f d, hmem, ?_⟩)
        rw [hf d]
      rw [if_pos rfl, if_neg hkept, if_pos (.inl rfl)]
    · simp only [hd, false_or, ↓reduceIte]

/-! ## The changes of a parameter -/

def changesOf (s : ParameterStore) (id : Uuid) : List ConfigChange :=
  s.changes.rows.filter fun c => c.parameterId = id

theorem mem_pendingChanges {before : Uuid → Uuid → Bool} {s : ParameterStore} {id : Uuid}
    {c : ConfigChange} :
    c ∈ pendingChanges before s id ↔ c ∈ changesOf s id ∧ c.status = .pending := by
  simp only [pendingChanges, changesOf, List.mem_filter, Table.mem_scan, Bool.and_eq_true,
    decide_eq_true_eq, and_assoc]

theorem pendingChanges_perm (before : Uuid → Uuid → Bool) (s : ParameterStore) (id : Uuid) :
    (pendingChanges before s id).Perm ((changesOf s id).filter fun c => c.status = .pending) := by
  have hperm := (s.changes.scan_perm before).filter fun c =>
    decide (c.parameterId = id) && decide (c.status = .pending)
  rw [pendingChanges, changesOf, List.filter_filter]
  simpa only [Bool.and_comm] using hperm

theorem pendingChanges_nodup (before : Uuid → Uuid → Bool) (s : ParameterStore) (id : Uuid) :
    ((pendingChanges before s id).map ConfigChange.id).Nodup :=
  (((s.changes.scan_perm before).map ConfigChange.id).nodup_iff.mpr s.changes.nodup).sublist
    (List.filter_sublist.map _)

theorem changesOf_map {s s' : ParameterStore} {f : ConfigChange → ConfigChange}
    (h : s'.changes.rows = s.changes.rows.map f) (hf : ∀ c, (f c).parameterId = c.parameterId)
    (id : Uuid) : changesOf s' id = (changesOf s id).map f := by
  rw [changesOf, h, List.filter_map]
  congr 2
  funext c
  simp only [Function.comp, hf]

/-- The order in which a query returns changes depends on their identifiers only. -/
theorem pendingChanges_congr {s s' : ParameterStore} {f : ConfigChange → ConfigChange}
    (h : s'.changes.rows = s.changes.rows.map f) (hid : ∀ c, (f c).id = c.id)
    (hparameter : ∀ c, (f c).parameterId = c.parameterId) {id : Uuid}
    (hsame : ∀ c, c.parameterId = id → f c = c) (before : Uuid → Uuid → Bool) :
    pendingChanges before s' id = pendingChanges before s id := by
  have hscan : s'.changes.scan before = (s.changes.scan before).map f := by
    rw [Table.scan, Table.scan, h]
    refine (List.map_insertionSort _ _ _ _ fun a _ b _ => ?_).symm
    rw [hid, hid]
  rw [pendingChanges, pendingChanges, hscan]
  induction s.changes.scan before with
  | nil => rfl
  | cons c cs ih =>
    rw [List.map_cons, List.filter_cons, List.filter_cons, hparameter]
    by_cases hc : c.parameterId = id
    · rw [hsame c hc, ih]
    · simpa only [hc, decide_false, Bool.false_and, Bool.false_eq_true, ↓reduceIte] using ih

/-! ## Effects -/

/-- What a request does to one parameter and to its changes. -/
inductive ParameterEffect (tables : CharacterTables) (r : ParameterRequest)
    (s s' : ParameterStore) (p : ConfigParameter) : ConfigParameter → Prop where
  | unchanged (changes : changesOf s' p.id = changesOf s p.id) : ParameterEffect tables r s s' p p
  | cleared (env : ConfigManagerEnv) (payload : ConfigParameterStage)
      (request : r = .stage env p.id payload)
      (valid : validateValue tables p payload.value = none) (value : payload.value = p.activeValue)
      (changes : changesOf s' p.id = changesOf s p.id) :
      ParameterEffect tables r s s' p { p with pendingValue := none }
  | staged (env : ConfigManagerEnv) (payload : ConfigParameterStage) (c : ConfigChange)
      (request : r = .stage env p.id payload)
      (valid : validateValue tables p payload.value = none) (value : payload.value ≠ p.activeValue)
      (storable : Storable payload) (status : c.status = .pending)
      (previousValue : c.previousValue = p.activeValue) (newValue : c.newValue = payload.value)
      (changes : changesOf s' p.id = changesOf s p.id ++ [c]) :
      ParameterEffect tables r s s' p { p with pendingValue := some payload.value }
  | reverted (env : ConfigManagerEnv) (request : r = .revert env p.id)
      (changes : changesOf s' p.id = (changesOf s p.id).map
        (rewriteLoaded (pendingChanges (env.changeOrder p.id) s p.id)
          fun c => { c with status := .reverted })) :
      ParameterEffect tables r s s' p { p with pendingValue := none }
  | promoted (env : ConfigManagerEnv) (changedBy : String) (now : Instant)
      (request : r = .apply env changedBy) (actor : (varchar 120 changedBy).isSome)
      (pending : p.pendingValue.isSome)
      (changes : changesOf s' p.id = (changesOf s p.id).map
        (rewriteLoaded (pendingChanges (env.changeOrder p.id) s p.id).head?.toList
          (appliedChange now))) :
      ParameterEffect tables r s s' p (promoted p)

/-- Every parameter after the request is one from before, with one effect on it. -/
def Effect (tables : CharacterTables) (r : ParameterRequest) (s s' : ParameterStore) : Prop :=
  ∀ p' ∈ s'.parameters.rows, ∃ p ∈ s.parameters.rows, p'.id = p.id ∧
    ParameterEffect tables r s s' p p'

theorem Effect.refl (tables : CharacterTables) (r : ParameterRequest) (s : ParameterStore) :
    Effect tables r s s := fun p hp => ⟨p, hp, rfl, .unchanged rfl⟩

/-- An effect on one parameter, where the changes of the others stay. -/
theorem Effect.of_one {tables : CharacterTables} {r : ParameterRequest} {s s' : ParameterStore}
    {p new : ConfigParameter} (hp : p ∈ s.parameters.rows)
    (hrows : s'.parameters.rows = s.parameters.rows.map fun q => if q.id = p.id then new else q)
    (hnew : new.id = p.id) (heffect : ParameterEffect tables r s s' p new)
    (hothers : ∀ id, id ≠ p.id → changesOf s' id = changesOf s id) : Effect tables r s s' := by
  intro p' hp'
  rw [hrows] at hp'
  obtain ⟨q, hq, rfl⟩ := List.mem_map.mp hp'
  refine ⟨q, hq, ?_⟩
  split
  · next hid =>
    obtain rfl : q = p := s.parameters.eq_of_key_eq hq hp hid
    exact ⟨hnew, heffect⟩
  · next hid => exact ⟨rfl, .unchanged (hothers q.id hid)⟩

/-- Rewriting changes of one parameter leaves those of the others. -/
theorem changesOf_rewriteLoaded {s s' : ParameterStore} {loaded : List ConfigChange}
    {f : ConfigChange → ConfigChange}
    (hf : ∀ c, f c = { c with status := (f c).status, appliedAt := (f c).appliedAt })
    (hrows : s'.changes.rows = s.changes.rows.map (rewriteLoaded loaded f)) (id : Uuid) :
    changesOf s' id = (changesOf s id).map (rewriteLoaded loaded f) := by
  refine changesOf_map hrows (fun c => ?_) id
  rw [rewriteLoaded]
  split
  · rw [hf c]
  · rfl

theorem map_rewriteLoaded_of_ne {s : ParameterStore} {loaded : List ConfigChange}
    {f : ConfigChange → ConfigChange} {id id' : Uuid} (hne : id' ≠ id)
    (hloaded : ∀ c ∈ loaded, c.parameterId = id) :
    (changesOf s id').map (rewriteLoaded loaded f) = changesOf s id' := by
  refine (List.map_congr_left fun c hc => ?_).trans (List.map_id' _)
  refine if_neg fun hmem => hne ?_
  have hc' : c.parameterId = id' := by simpa using (List.mem_filter.mp hc).2
  exact hc'.symm.trans (hloaded c hmem)

/-! ## Staging and reverting -/

section

variable {crypto : AuditCrypto} {tables : CharacterTables} {db durable work : Db} {n : ℕ}

theorem getParameter_wp {parameterId : Uuid} {error : ServiceError}
    {post : Except ServiceError ConfigParameter → Db → Db → ℕ → Prop}
    (missing : post (.error error) durable work n)
    (loaded : ∀ p ∈ work.parameters.parameters.rows, p.id = parameterId →
      post (.ok p) durable work n) :
    (getParameter parameterId error).wp postgres post durable work n := by
  simp only [getParameter, Request.wp_bind, Request.wp_select, wp_found]
  refine ⟨fun _ => missing, fun p hp => ?_⟩
  obtain ⟨hmem, hid⟩ := Table.find?_eq_some.mp hp
  exact loaded p hmem hid

/-- The postcondition of an operation: the committed tables show its effect. -/
abbrev Shows (tables : CharacterTables) (r : ParameterRequest) (db : Db) {α : Type}
    (_ : Except ServiceError α) (durable _ : Db) (_ : ℕ) : Prop :=
  Effect tables r db.parameters durable.parameters

theorem stage_effect {env : ConfigManagerEnv} {p : ConfigParameter} {payload : ConfigParameterStage}
    {db' : Db} (h : postgres.applyAll (stageStatements env p payload) db = some db')
    (hp : p ∈ db.parameters.parameters.rows)
    (hvalid : validateValue tables p payload.value = none) :
    Effect tables (.stage env p.id payload) db.parameters db'.parameters := by
  unfold stageStatements at h
  split at h
  · next hvalue =>
    obtain ⟨hchanges, hrows⟩ := saveParameter_sound h hp rfl
    have hsame : ∀ id, changesOf db'.parameters id = changesOf db.parameters id := fun id => by
      rw [changesOf, hchanges]
      rfl
    exact .of_one hp hrows rfl (.cleared env payload rfl hvalid hvalue (hsame p.id))
      fun id _ => hsame id
  · next hvalue =>
    rw [StatementSemantics.applyAll_append, Option.bind_eq_some_iff] at h
    obtain ⟨mid, hsave, hinsert⟩ := h
    obtain ⟨hchanges, hrows⟩ := saveParameter_sound hsave hp rfl
    obtain ⟨store, hstore, rfl⟩ := applyAll_parameter_singleton hinsert
    obtain ⟨reason, changedBy, changes, hreason, hchangedBy, hnew, rfl, hrows'⟩ :=
      insertChange_eq_some hstore
    have hstorable : Storable payload :=
      ⟨hnew, Option.isSome_iff_exists.mpr ⟨reason, hreason⟩,
        Option.isSome_iff_exists.mpr ⟨changedBy, hchangedBy⟩⟩
    have happended : ∀ id, changesOf { mid.parameters with changes := changes } id =
        changesOf db.parameters id ++ ([{ stagedChange env p payload with
          reason := reason, changedBy := changedBy }].filter fun c => c.parameterId = id) := by
      intro id
      rw [changesOf, hrows', List.filter_append, hchanges]
      rfl
    refine .of_one hp hrows rfl (.staged env payload { stagedChange env p payload with
      reason := reason, changedBy := changedBy } rfl hvalid hvalue hstorable rfl rfl rfl ?_)
      fun id hne => ?_
    · rw [happended, List.filter_singleton]
      simp [stagedChange]
    · rw [happended, List.filter_singleton]
      simp [stagedChange, hne.symm]

theorem stageConfigChange_effect (env : ConfigManagerEnv) (parameterId : Uuid)
    (payload : ConfigParameterStage) :
    (stageConfigChange tables env parameterId payload).wp postgres
      (Shows tables (.stage env parameterId payload) db) db db n := by
  refine (Request.wp_bind ..).mpr (getParameter_wp (Effect.refl _ _ _) fun p hp hid => ?_)
  subst hid
  refine (Request.wp_bind ..).mpr (wp_ensure.mpr ⟨fun _ => Effect.refl _ _ _, fun hvalid => ?_⟩)
  refine (Request.wp_bind ..).mpr (Request.wp_send.mpr
    ⟨fun _ => Effect.refl _ _ _, fun work hwork => ?_⟩)
  have heffect := stage_effect hwork hp hvalid
  exact Request.wp_commitTransaction_bind (getParameter_wp heffect fun _ _ _ => heffect)

theorem revertConfigChange_effect (env : ConfigManagerEnv) (parameterId : Uuid) :
    (revertConfigChange env parameterId).wp postgres
      (Shows tables (.revert env parameterId) db) db db n := by
  refine (Request.wp_bind ..).mpr (getParameter_wp (Effect.refl _ _ _) fun p hp hid => ?_)
  subst hid
  refine (Request.wp_bind ..).mpr ?_
  rw [Request.wp_select]
  refine (Request.wp_bind ..).mpr (Request.wp_send.mpr
    ⟨fun _ => Effect.refl _ _ _, fun work hwork => ?_⟩)
  rw [StatementSemantics.applyAll_append, Option.bind_eq_some_iff] at hwork
  obtain ⟨mid, hsave, hsaves⟩ := hwork
  obtain ⟨hchanges, hrows⟩ := saveParameter_sound hsave hp rfl
  obtain ⟨hparameters, hrewritten⟩ := saveChanges_sound (fun _ => rfl) hsaves (fun c hc => by
    rw [hchanges]
    exact List.mem_of_mem_filter (mem_pendingChanges.mp hc).1)
    (pendingChanges_nodup _ _ _)
  rw [hchanges] at hrewritten
  have hone := changesOf_rewriteLoaded (fun _ => rfl) hrewritten
  have heffect : Effect tables (.revert env p.id) db.parameters work.parameters := by
    refine .of_one hp ((congrArg Table.rows hparameters).trans hrows) rfl
      (.reverted env rfl (hone p.id)) fun id hne => ?_
    rw [hone, map_rewriteLoaded_of_ne hne fun c hc => ?_]
    simpa using (List.mem_filter.mp (mem_pendingChanges.mp hc).1).2
  exact Request.wp_commitTransaction_bind (getParameter_wp heffect fun _ _ _ => heffect)

end

/-! ## Applying -/

/-- The tables after the parameters of `done` have been promoted, one after the other. -/
structure Promoted (env : ConfigManagerEnv) (changedBy : String) (s w : ParameterStore)
    (done : List Uuid) : Prop where
  actor : done ≠ [] → (varchar 120 changedBy).isSome
  parameters : w.parameters.rows = s.parameters.rows.map fun p =>
    if p.id ∈ done then promoted p else p
  changes : ∃ f : ConfigChange → ConfigChange, w.changes.rows = s.changes.rows.map f ∧
    (∀ c, (f c).id = c.id) ∧ (∀ c, (f c).parameterId = c.parameterId) ∧
    (∀ c, c.parameterId ∉ done → f c = c) ∧
    ∀ id ∈ done, ∃ now, ∀ c, c.parameterId = id → f c =
      rewriteLoaded (pendingChanges (env.changeOrder id) s id).head?.toList (appliedChange now) c

theorem Promoted.nil (env : ConfigManagerEnv) (changedBy : String) (s : ParameterStore) :
    Promoted env changedBy s s [] where
  actor h := absurd rfl h
  parameters := by simp
  changes := ⟨id, by simp⟩

/-- The pending changes of a parameter that comes later are the ones from the start. -/
theorem Promoted.pendingChanges_eq {env : ConfigManagerEnv} {changedBy : String}
    {s w : ParameterStore} {done : List Uuid} (h : Promoted env changedBy s w done) {id : Uuid}
    (hnew : id ∉ done) :
    pendingChanges (env.changeOrder id) w id = pendingChanges (env.changeOrder id) s id := by
  obtain ⟨-, -, f, hf, hid, hparameter, hrest, -⟩ := h
  exact pendingChanges_congr hf hid hparameter (fun c hc => hrest c (hc ▸ hnew)) _

/-- The step lemma: promoting one more parameter. -/
theorem Promoted.step {env : ConfigManagerEnv} {changedBy : String} {s : ParameterStore}
    {done : List Uuid} {db db' : Db} {p : ConfigParameter} {now : Instant}
    (hactor : (varchar 120 changedBy).isSome) (hp : p ∈ s.parameters.rows) (hnew : p.id ∉ done)
    (h : Promoted env changedBy s db.parameters done)
    (happly : postgres.applyAll (promoteStatements now p
      (pendingChanges (env.changeOrder p.id) db.parameters p.id).head?) db = some db') :
    Promoted env changedBy s db'.parameters (done ++ [p.id]) := by
  have hsame := h.pendingChanges_eq hnew
  obtain ⟨-, hparameters, f, hf, hid, hparameter, hrest, hdone⟩ := h
  rw [promoteStatements, StatementSemantics.applyAll_append, Option.bind_eq_some_iff] at happly
  obtain ⟨mid, hsave, hsaves⟩ := happly
  have hmem : p ∈ db.parameters.parameters.rows := by
    rw [hparameters]
    exact List.mem_map.mpr ⟨p, hp, if_neg hnew⟩
  obtain ⟨hchanges, hrows⟩ := saveParameter_sound hsave hmem rfl
  generalize hfirst : (pendingChanges (env.changeOrder p.id) db.parameters p.id).head? = first
    at hsaves
  have hpicked : ∀ c ∈ first.toList, c ∈ changesOf db.parameters p.id := by
    intro c hc
    rw [Option.mem_toList, ← hfirst] at hc
    exact (mem_pendingChanges.mp (List.mem_of_mem_head? hc)).1
  obtain ⟨hkept, hrewritten⟩ := saveChanges_sound (fun _ => rfl) hsaves
    (fun c hc => hchanges ▸ List.mem_of_mem_filter (hpicked c hc)) (by cases first <;> simp)
  refine ⟨fun _ => hactor, ?_, fun c => rewriteLoaded first.toList (appliedChange now) (f c),
    ?_, fun c => ?_, fun c => ?_, fun c hc => ?_, fun id hmem' => ?_⟩
  · rw [hkept, hrows, hparameters, List.map_map]
    refine List.map_congr_left fun q hq => ?_
    simp only [Function.comp, List.mem_append, List.mem_singleton]
    by_cases hq' : q.id = p.id
    · obtain rfl : q = p := s.parameters.eq_of_key_eq hq hp hq'
      simp [hnew]
    · by_cases hqd : q.id ∈ done
      · simp [hqd, hq', promoted]
      · simp [hqd, hq']
  · rw [hrewritten, hchanges, hf, List.map_map]
    rfl
  · simp only [rewriteLoaded]
    split
    · exact hid c
    · exact hid c
  · simp only [rewriteLoaded]
    split
    · exact hparameter c
    · exact hparameter c
  · obtain ⟨hcd, hcp⟩ : c.parameterId ∉ done ∧ c.parameterId ≠ p.id := by simpa using hc
    simp only [hrest c hcd]
    refine if_neg fun hmem' => hcp ?_
    simpa using (List.mem_filter.mp (hpicked c hmem')).2
  · rcases List.mem_append.mp hmem' with hmem' | hmem'
    · obtain ⟨at_, hat⟩ := hdone id hmem'
      refine ⟨at_, fun c hc => ?_⟩
      rw [← hat c hc]
      refine if_neg fun hmem'' => hnew ?_
      have hfc : (f c).parameterId = p.id := by
        simpa using (List.mem_filter.mp (hpicked _ hmem'')).2
      rw [hparameter, hc] at hfc
      exact hfc ▸ hmem'
    · obtain rfl := List.mem_singleton.mp hmem'
      refine ⟨now, fun c hc => ?_⟩
      simp only [hrest c (hc ▸ hnew), ← hsame, hfirst]

/-- The parameters that the loop has still to promote: rows, each once, and none of `done`. -/
structure Remaining (s : ParameterStore) (done : List Uuid) (rest : List ConfigParameter) :
    Prop where
  rows : ∀ p ∈ rest, p ∈ s.parameters.rows
  nodup : (rest.map ConfigParameter.id).Nodup
  new : ∀ p ∈ rest, p.id ∉ done

/-- The first parameter joins the promoted ones. -/
theorem Remaining.tail {s : ParameterStore} {done : List Uuid} {p : ConfigParameter}
    {rest : List ConfigParameter} (h : Remaining s done (p :: rest)) :
    Remaining s (done ++ [p.id]) rest := by
  obtain ⟨hnot, hnodup⟩ := List.nodup_cons.mp h.nodup
  refine ⟨fun q hq => h.rows q (List.mem_cons_of_mem _ hq), hnodup, fun q hq hdone => ?_⟩
  rcases List.mem_append.mp hdone with hdone | hdone
  · exact h.new q (List.mem_cons_of_mem _ hq) hdone
  · exact hnot (List.mem_singleton.mp hdone ▸ List.mem_map_of_mem hq)

section

variable {crypto : AuditCrypto} {tables : CharacterTables} {db durable work : Db} {n : ℕ}

theorem applyParameters_wp (env : ConfigManagerEnv) (changedBy : String)
    (parameters : List ConfigParameter) {s : ParameterStore} {k : ℕ} {done : List Uuid}
    {post : Except ServiceError ℕ → Db → Db → ℕ → Prop} (hrest : Remaining s done parameters)
    (hwork : Promoted env changedBy s work.parameters done)
    (failed : ∀ error work' n', post (.error error) durable work' n')
    (applied : ∀ count work' n', Promoted env changedBy s work'.parameters
      (done ++ parameters.map ConfigParameter.id) → post (.ok count) durable work' n') :
    (applyParameters crypto tables env changedBy k parameters).wp postgres post durable work n := by
  induction parameters generalizing work k done n post with
  | nil => exact Request.wp_return (applied _ _ _ (by simpa using hwork))
  | cons p parameters ih =>
    refine (Request.wp_bind ..).mpr ?_
    rw [Request.wp_select]
    refine (Request.wp_bind ..).mpr (appendEntryInTransaction_wp (fun _ _ _ => failed _ _ _)
      fun sent row hsent happended _ => ?_)
    have hactor : (varchar 120 changedBy).isSome :=
      Option.isSome_iff_exists.mpr ⟨row.actor, happended.actor⟩
    have hstep : Promoted env changedBy s sent.parameters (done ++ [p.id]) :=
      .step hactor (hrest.rows p List.mem_cons_self) (hrest.new p List.mem_cons_self) hwork hsent
    refine (Request.wp_bind ..).mpr (ih hrest.tail hstep failed fun count work' n' hpromoted => ?_)
    rw [List.append_assoc] at hpromoted
    exact Request.wp_return (applied _ _ _ hpromoted)

/-- A parameter has been promoted if it has a staged value. -/
theorem Promoted.effect {env : ConfigManagerEnv} {changedBy : String} {s w : ParameterStore}
    (h : Promoted env changedBy s w
      ((stagedParameters env.parameterOrder s).map ConfigParameter.id)) :
    Effect tables (.apply env changedBy) s w := by
  obtain ⟨hactor, hparameters, f, hf, -, hparameter, hrest, hdone⟩ := h
  intro p' hp'
  rw [hparameters] at hp'
  obtain ⟨p, hp, rfl⟩ := List.mem_map.mp hp'
  have hchanges := changesOf_map hf hparameter p.id
  refine ⟨p, hp, ?_⟩
  split
  · next hstaged =>
    obtain ⟨q, hq, hid⟩ := List.mem_map.mp hstaged
    obtain ⟨hqrow, hpending⟩ := List.mem_filter.mp hq
    obtain rfl : q = p := s.parameters.eq_of_key_eq (Table.mem_scan.mp hqrow) hp hid
    obtain ⟨now, hnow⟩ := hdone q.id hstaged
    refine ⟨rfl, .promoted env changedBy now rfl (hactor (List.ne_nil_of_mem hstaged)) hpending
      (hchanges.trans ?_)⟩
    exact List.map_congr_left fun c hc => hnow c (by simpa using (List.mem_filter.mp hc).2)
  · next hstaged =>
    refine ⟨rfl, .unchanged (hchanges.trans ?_)⟩
    refine (List.map_congr_left fun c hc => hrest c ?_).trans (List.map_id' _)
    have hc' : c.parameterId = p.id := by simpa using (List.mem_filter.mp hc).2
    exact hc' ▸ hstaged

theorem stagedParameters_mem {before : Uuid → Uuid → Bool} {s : ParameterStore}
    {p : ConfigParameter} (h : p ∈ stagedParameters before s) : p ∈ s.parameters.rows :=
  Table.mem_scan.mp (List.mem_of_mem_filter h)

theorem stagedParameters_nodup (before : Uuid → Uuid → Bool) (s : ParameterStore) :
    ((stagedParameters before s).map ConfigParameter.id).Nodup :=
  (((s.parameters.scan_perm _).map ConfigParameter.id).nodup_iff.mpr s.parameters.nodup).sublist
    (List.filter_sublist.map _)

theorem Remaining.start (before : Uuid → Uuid → Bool) (s : ParameterStore) :
    Remaining s [] (stagedParameters before s) :=
  ⟨fun _ => stagedParameters_mem, stagedParameters_nodup before s, fun _ _ => List.not_mem_nil⟩

theorem applyPendingChanges_effect (env : ConfigManagerEnv) (changedBy : String) :
    (applyPendingChanges crypto tables env changedBy).wp postgres
      (Shows tables (.apply env changedBy) db) db db n := by
  refine (Request.wp_bind ..).mpr ?_
  rw [Request.wp_select]
  refine (Request.wp_bind ..).mpr (applyParameters_wp env changedBy _ (.start _ _)
    (.nil env changedBy db.parameters) (fun _ _ _ => Effect.refl _ _ _)
    fun count work' n' hpromoted => ?_)
  exact Request.wp_commitTransaction_bind (Request.wp_return hpromoted.effect)

/-- The step lemma of the service: a request has one effect on each parameter. -/
theorem exec_effect (s : Store Db) (r : ParameterRequest) :
    Effect tables r s.db.parameters
      (s.exec postgres (r.request crypto tables)).db.parameters := by
  refine Store.exec_sound (P := fun db _ => Effect tables r s.db.parameters db.parameters) s ?_
  cases r with
  | stage env id payload => exact Request.wp_answer (stageConfigChange_effect env id payload)
  | revert env id => exact Request.wp_answer (revertConfigChange_effect env id)
  | apply env changedBy => exact Request.wp_answer (applyPendingChanges_effect env changedBy)

end

def execAll (crypto : AuditCrypto) (tables : CharacterTables) (s : Store Db)
    (rs : List ParameterRequest) : Store Db :=
  s.execAll postgres (rs.map (·.request crypto tables))

end NexusEngine.ParameterLifecycle
