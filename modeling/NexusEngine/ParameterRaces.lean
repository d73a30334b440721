import NexusEngine.SafeServices
import NexusEngine.ParameterStaging

/-!
# Staged values under interference

Sessions stage, revert and apply values of the same parameters. Updates can overwrite each other,
but a value can only come from a staging: whatever the interleaving, a value that a parameter has,
live or staged, was there at the start or has the record of a staging that the validator accepted.
-/

namespace NexusEngine.ParameterRaces

open TransactionalRequests ReadCommittedSessions StoredColumns KeyedTables PythonText
  ParameterTables Database AuditService AuditAppends ParameterService ParameterLifecycle
  AuditedOperations QuietRequests SafeServices
open AuditVerification (sampleCrypto)
open ParameterStaging (sampleStore sampleStage)

/-! ## What never changes -/

/-- The columns of a parameter other than its values. -/
def definition (p : ConfigParameter) : ConfigParameter :=
  { p with activeValue := "", pendingValue := none }

/-- The columns of a change other than what became of it. -/
def record (c : ConfigChange) : ConfigChange := { c with status := .pending, appliedAt := none }

/-- The parameters are the same, and no change is taken away. -/
structure Continues (db db' : Db) : Prop where
  definitions : db'.parameters.parameters.rows.map definition =
    db.parameters.parameters.rows.map definition
  records : db.parameters.changes.rows.map record ⊆ db'.parameters.changes.rows.map record

/-- The parameter has the value, live or staged. -/
def Has (p : ConfigParameter) (v : String) : Prop := p.activeValue = v ∨ p.pendingValue = some v

/-- The value was there at the start, or its staging is on record. -/
def HasSource (s₀ s : ParameterStore) (id : Uuid) (v : String) : Prop :=
  (∃ q ∈ s₀.parameters.rows, q.id = id ∧ Has q v) ∨
    ∃ c ∈ s.changes.rows, c.parameterId = id ∧ c.newValue = v

/-- Every value has a source, and every staging that was not there at the start was accepted. -/
structure Traced (tables : CharacterTables) (s₀ s : ParameterStore) : Prop where
  values : ∀ p ∈ s.parameters.rows, ∀ v, Has p v → HasSource s₀ s p.id v
  changes : ∀ c ∈ s.changes.rows, record c ∈ s₀.changes.rows.map record ∨
    ∃ p ∈ s.parameters.rows, p.id = c.parameterId ∧ validateValue tables p c.newValue = none

/-- The validator looks at the definition of a parameter. -/
theorem validateValue_congr {tables : CharacterTables} {p q : ConfigParameter}
    (h : definition p = definition q) (v : String) :
    validateValue tables p v = validateValue tables q v := by
  have hp : validateValue tables p v = validateValue tables (definition p) v := rfl
  rw [hp, h]
  rfl

theorem id_of_definition {p q : ConfigParameter} (h : definition p = definition q) :
    p.id = q.id := by
  have hid : (definition p).id = (definition q).id := by rw [h]
  exact hid

/-- A change with the same record is about the same value. -/
theorem same_of_record {c d : ConfigChange} (h : record c = record d) :
    c.parameterId = d.parameterId ∧ c.newValue = d.newValue := by
  have hid : (record c).parameterId = (record d).parameterId := by rw [h]
  have hvalue : (record c).newValue = (record d).newValue := by rw [h]
  exact ⟨hid, hvalue⟩

/-! ## Statements -/

/-- The statements give the parameter a value. -/
def Sets (ws : List Statement) (id : Uuid) (v : String) : Prop :=
  ∃ patch, .parameter (.updateParameter id patch) ∈ ws ∧
    (patch.activeValue = some v ∨ patch.pendingValue = some (some v))

theorem patched_definition (patch : ConfigParameterPatch) (id : Uuid) (p : ConfigParameter) :
    definition (if p.id = id then patch.apply p else p) = definition p := by
  split
  · rfl
  · rfl

theorem patched_record (patch : ConfigChangePatch) (id : Uuid) (c : ConfigChange) :
    record (if c.id = id then patch.apply c else c) = record c := by
  split
  · rfl
  · rfl

/-- What one statement does to the tables of parameters. -/
inductive Writes (w : Statement) (s s' : ParameterStore) : Prop where
  | unchanged (same : s' = s) (noInsert : ∀ c, w ≠ .parameter (.insertChange c))
  | parameter (id : Uuid) (patch : ConfigParameterPatch)
      (isUpdate : w = .parameter (.updateParameter id patch)) (changes : s'.changes = s.changes)
      (rows : s'.parameters.rows =
        s.parameters.rows.map fun p => if p.id = id then patch.apply p else p)
  | inserted (c row : ConfigChange) (isInsert : w = .parameter (.insertChange c))
      (stored : row.parameterId = c.parameterId ∧ row.newValue = c.newValue)
      (parameters : s'.parameters = s.parameters) (rows : s'.changes.rows = s.changes.rows ++ [row])
  | change (id : Uuid) (patch : ConfigChangePatch)
      (isUpdate : w = .parameter (.updateChange id patch))
      (parameters : s'.parameters = s.parameters)
      (rows : s'.changes.rows = s.changes.rows.map fun c => if c.id = id then patch.apply c else c)

theorem apply_writes {w : Statement} {db db' : Db} (h : postgres.apply w db = some db') :
    Writes w db.parameters db'.parameters := by
  rcases (apply_frame h).parameters with ⟨statement, rfl, hst⟩ | hsame
  · cases statement with
    | updateParameter id patch =>
      obtain ⟨parameters, heq, hrows⟩ := updateParameter_eq_some hst
      rw [heq]
      exact .parameter id patch rfl rfl hrows
    | insertChange c =>
      obtain ⟨reason, changedBy, changes, -, -, -, heq, hrows⟩ := insertChange_eq_some hst
      rw [heq]
      exact .inserted c { c with reason := reason, changedBy := changedBy } rfl ⟨rfl, rfl⟩ rfl hrows
    | updateChange id patch =>
      obtain ⟨changes, heq, hrows⟩ := updateChange_eq_some hst
      rw [heq]
      exact .change id patch rfl rfl hrows
  · by_cases hinsert : ∃ c, w = .parameter (.insertChange c)
    · obtain ⟨c, rfl⟩ := hinsert
      obtain ⟨parameters, hst, rfl⟩ := apply_parameter.mp h
      obtain ⟨reason, changedBy, changes, -, -, -, rfl, hrows⟩ := insertChange_eq_some hst
      exact .inserted c { c with reason := reason, changedBy := changedBy } rfl ⟨rfl, rfl⟩ rfl hrows
    · exact .unchanged hsame fun c heq => hinsert ⟨c, heq⟩

theorem Writes.continues {w : Statement} {s s' : ParameterStore} (h : Writes w s s') :
    s'.parameters.rows.map definition = s.parameters.rows.map definition ∧
      s.changes.rows.map record ⊆ s'.changes.rows.map record := by
  cases h with
  | unchanged same => exact same ▸ ⟨rfl, List.Subset.refl _⟩
  | parameter id patch _ changes rows =>
    rw [rows, changes, List.map_map]
    refine ⟨List.map_congr_left fun p _ => ?_, List.Subset.refl _⟩
    exact patched_definition patch id p
  | inserted c row _ _ parameters rows =>
    rw [rows, parameters, List.map_append]
    exact ⟨rfl, List.subset_append_left _ _⟩
  | change id patch _ parameters rows =>
    have hrecords : s'.changes.rows.map record = s.changes.rows.map record := by
      rw [rows, List.map_map]
      exact List.map_congr_left fun c _ => patched_record patch id c
    rw [hrecords, parameters]
    exact ⟨rfl, List.Subset.refl _⟩

/-- A value after the statement is one from before, or the statement sets it. -/
theorem Writes.has {w : Statement} {s s' : ParameterStore} (h : Writes w s s')
    {p' : ConfigParameter} (hp' : p' ∈ s'.parameters.rows) {v : String} (hv : Has p' v) :
    (∃ p ∈ s.parameters.rows, p.id = p'.id ∧ Has p v) ∨ Sets [w] p'.id v := by
  cases h with
  | unchanged same => exact .inl ⟨p', same ▸ hp', rfl, hv⟩
  | inserted c row _ _ parameters => exact .inl ⟨p', parameters ▸ hp', rfl, hv⟩
  | change id patch _ parameters => exact .inl ⟨p', parameters ▸ hp', rfl, hv⟩
  | parameter id patch isUpdate _ rows =>
    rw [rows] at hp'
    obtain ⟨p, hp, rfl⟩ := List.mem_map.mp hp'
    by_cases hid : p.id = id
    · subst hid
      rw [if_pos rfl] at hv ⊢
      have hwrite : Statement.parameter (.updateParameter p.id patch) ∈ [w] := by
        simp [isUpdate]
      rcases hv with hactive | hpending
      · change patch.activeValue.getD p.activeValue = v at hactive
        cases hpatch : patch.activeValue with
        | none =>
          rw [hpatch] at hactive
          exact .inl ⟨p, hp, rfl, .inl hactive⟩
        | some value =>
          rw [hpatch] at hactive
          exact .inr ⟨patch, hwrite, .inl (hpatch.trans (congrArg some hactive))⟩
      · change patch.pendingValue.getD p.pendingValue = some v at hpending
        cases hpatch : patch.pendingValue with
        | none =>
          rw [hpatch] at hpending
          exact .inl ⟨p, hp, rfl, .inr hpending⟩
        | some value =>
          rw [hpatch] at hpending
          exact .inr ⟨patch, hwrite, .inr (hpatch.trans (congrArg some hpending))⟩
    · rw [if_neg hid] at hv ⊢
      exact .inl ⟨p, hp, rfl, hv⟩

/-- A change after the statement is one from before, or the statement inserts it. -/
theorem Writes.change_origin {w : Statement} {s s' : ParameterStore} (h : Writes w s s')
    {c' : ConfigChange} (hc' : c' ∈ s'.changes.rows) :
    (∃ c ∈ s.changes.rows, record c = record c') ∨ ∃ c, w = .parameter (.insertChange c) ∧
      c'.parameterId = c.parameterId ∧ c'.newValue = c.newValue := by
  cases h with
  | unchanged same => exact .inl ⟨c', same ▸ hc', rfl⟩
  | parameter id patch _ changes => exact .inl ⟨c', changes ▸ hc', rfl⟩
  | inserted c row isInsert stored _ rows =>
    rw [rows, List.mem_append, List.mem_singleton] at hc'
    rcases hc' with hc' | rfl
    · exact .inl ⟨c', hc', rfl⟩
    · exact .inr ⟨c, isInsert, stored⟩
  | change id patch _ _ rows =>
    rw [rows] at hc'
    obtain ⟨c, hc, rfl⟩ := List.mem_map.mp hc'
    exact .inl ⟨c, hc, (patched_record patch id c).symm⟩

/-- The record that is stored of an inserted change does not depend on the tables. -/
theorem insertChange_record {a b a' b' : ParameterStore} {c : ConfigChange}
    (ha : a.insertChange c = some a') (hb : b.insertChange c = some b') :
    ∃ row, a'.changes.rows = a.changes.rows ++ [row] ∧
      b'.changes.rows = b.changes.rows ++ [row] := by
  obtain ⟨reason, changedBy, changes, hreason, hchangedBy, -, rfl, hrows⟩ := insertChange_eq_some ha
  obtain ⟨reason', changedBy', changes', hreason', hchangedBy', -, rfl, hrows'⟩ :=
    insertChange_eq_some hb
  obtain rfl := Option.some.inj (hreason.symm.trans hreason')
  obtain rfl := Option.some.inj (hchangedBy.symm.trans hchangedBy')
  exact ⟨_, hrows, hrows'⟩

theorem apply_continues {w : Statement} {db db' : Db} (h : postgres.apply w db = some db') :
    Continues db db' := ⟨(apply_writes h).continues.1, (apply_writes h).continues.2⟩

theorem growth : Growth postgres Continues where
  refl _ := ⟨rfl, List.Subset.refl _⟩
  trans _ _ _ h h' := ⟨h'.definitions.trans h.definitions, List.Subset.trans h.records h'.records⟩
  grows _ _ _ h := apply_continues h
  mono w a b a' b' hab ha hb := by
    have hold := apply_continues ha
    have hnew := apply_continues hb
    refine ⟨?_, ?_⟩
    · rw [hnew.definitions, hab.definitions, hold.definitions]
    · intro r hr
      by_cases hinsert : ∃ c, w = .parameter (.insertChange c)
      · obtain ⟨c, rfl⟩ := hinsert
        obtain ⟨s, hs, rfl⟩ := apply_parameter.mp ha
        obtain ⟨s', hs', rfl⟩ := apply_parameter.mp hb
        obtain ⟨row, hrows, hrows'⟩ := insertChange_record hs hs'
        rw [hrows, List.map_append, List.mem_append] at hr
        rw [hrows', List.map_append, List.mem_append]
        exact hr.imp_left fun hr => hab.records hr
      · obtain ⟨c', hc', rfl⟩ := List.mem_map.mp hr
        rcases (apply_writes ha).change_origin hc' with ⟨c, hc, hrecord⟩ | ⟨c, heq, -⟩
        · rw [← hrecord]
          exact hnew.records (hab.records (List.mem_map_of_mem hc))
        · exact absurd ⟨c, heq⟩ hinsert

/-! ## Flushes -/

theorem HasSource.later {s₀ : ParameterStore} {db db' : Db} {id : Uuid} {v : String}
    (hr : Continues db db') (h : HasSource s₀ db.parameters id v) :
    HasSource s₀ db'.parameters id v := by
  rcases h with hstart | ⟨c, hc, hid, hvalue⟩
  · exact .inl hstart
  · obtain ⟨c', hc', hrecord⟩ := List.mem_map.mp (hr.records (List.mem_map_of_mem hc))
    obtain ⟨hid', hvalue'⟩ := same_of_record hrecord
    exact .inr ⟨c', hc', hid'.trans hid, hvalue'.trans hvalue⟩

/-- A parameter is still there, with its definition. -/
theorem Continues.parameter {db db' : Db} (h : Continues db db') {p : ConfigParameter}
    (hp : p ∈ db.parameters.parameters.rows) :
    ∃ q ∈ db'.parameters.parameters.rows, definition q = definition p := by
  have hmem : definition p ∈ db'.parameters.parameters.rows.map definition :=
    h.definitions ▸ List.mem_map_of_mem hp
  exact List.mem_map.mp hmem

theorem sets_cons {w : Statement} {ws : List Statement} {id : Uuid} {v : String} :
    Sets (w :: ws) id v ↔ Sets [w] id v ∨ Sets ws id v := by
  simp only [Sets, List.mem_cons, List.not_mem_nil, or_false, or_and_right, exists_or]

theorem applyAll_has {ws : List Statement} {mid after : Db}
    (h : postgres.applyAll ws mid = some after) {p' : ConfigParameter}
    (hp' : p' ∈ after.parameters.parameters.rows) {v : String} (hv : Has p' v) :
    (∃ p ∈ mid.parameters.parameters.rows, p.id = p'.id ∧ Has p v) ∨ Sets ws p'.id v := by
  induction ws generalizing mid with
  | nil =>
    cases h
    exact .inl ⟨p', hp', rfl, hv⟩
  | cons w ws ih =>
    obtain ⟨next, hw, hws⟩ := Option.bind_eq_some_iff.mp h
    rcases ih hws with ⟨q, hq, hid, hqv⟩ | hsets
    · rcases (apply_writes hw).has hq hqv with ⟨p, hp, hpid, hpv⟩ | hsets
      · exact .inl ⟨p, hp, hpid.trans hid, hpv⟩
      · exact .inr (sets_cons.mpr (.inl (hid ▸ hsets)))
    · exact .inr (sets_cons.mpr (.inr hsets))

theorem applyAll_change {ws : List Statement} {mid after : Db}
    (h : postgres.applyAll ws mid = some after) {c' : ConfigChange}
    (hc' : c' ∈ after.parameters.changes.rows) :
    (∃ c ∈ mid.parameters.changes.rows, record c = record c') ∨
      ∃ c, .parameter (.insertChange c) ∈ ws ∧ c'.parameterId = c.parameterId ∧
        c'.newValue = c.newValue := by
  induction ws generalizing mid with
  | nil =>
    cases h
    exact .inl ⟨c', hc', rfl⟩
  | cons w ws ih =>
    obtain ⟨next, hw, hws⟩ := Option.bind_eq_some_iff.mp h
    rcases ih hws with ⟨d, hd, hrecord⟩ | ⟨c, hc, hsame⟩
    · rcases (apply_writes hw).change_origin hd with ⟨c, hc, hrecord'⟩ | ⟨c, rfl, hid, hvalue⟩
      · exact .inl ⟨c, hc, hrecord'.trans hrecord⟩
      · obtain ⟨hid', hvalue'⟩ := same_of_record hrecord
        exact .inr ⟨c, List.mem_cons_self, hid'.symm.trans hid, hvalue'.symm.trans hvalue⟩
    · exact .inr ⟨c, List.mem_cons_of_mem _ hc, hsame⟩

/-- A change that is inserted is on record. -/
theorem applyAll_recorded {ws : List Statement} {mid after : Db}
    (h : postgres.applyAll ws mid = some after) {c : ConfigChange}
    (hc : .parameter (.insertChange c) ∈ ws) :
    ∃ c' ∈ after.parameters.changes.rows,
      c'.parameterId = c.parameterId ∧ c'.newValue = c.newValue := by
  induction ws generalizing mid with
  | nil => cases hc
  | cons w ws ih =>
    obtain ⟨next, hw, hws⟩ := Option.bind_eq_some_iff.mp h
    rcases List.mem_cons.mp hc with rfl | hc
    · obtain ⟨s, hs, rfl⟩ := apply_parameter.mp hw
      obtain ⟨reason, changedBy, changes, -, -, -, rfl, hrows⟩ := insertChange_eq_some hs
      have hrow : record { c with reason := reason, changedBy := changedBy } ∈
          after.parameters.changes.rows.map record :=
        (growth.applyAll hws).records (List.mem_map_of_mem (hrows ▸ List.mem_append_right _
          List.mem_cons_self))
      obtain ⟨c', hc', hrecord⟩ := List.mem_map.mp hrow
      exact ⟨c', hc', (same_of_record hrecord).1, (same_of_record hrecord).2⟩
    · exact ih hws hc

section

variable {crypto : AuditCrypto} {tables : CharacterTables} {s₀ : ParameterStore}

/-- Statements that set values with a source, and record stagings that were accepted. -/
theorem Traced.flush {ws : List Statement} {mid after : Db} (h : Traced tables s₀ mid.parameters)
    (happly : postgres.applyAll ws mid = some after)
    (sourced : ∀ id v, Sets ws id v → HasSource s₀ after.parameters id v)
    (accepted : ∀ c, .parameter (.insertChange c) ∈ ws → ∃ p ∈ mid.parameters.parameters.rows,
      p.id = c.parameterId ∧ validateValue tables p c.newValue = none) :
    Traced tables s₀ after.parameters := by
  have hgrown : Continues mid after := growth.applyAll happly
  constructor
  · intro p' hp' v hv
    rcases applyAll_has happly hp' hv with ⟨p, hp, hid, hpv⟩ | hsets
    · exact hid ▸ (h.values p hp v hpv).later hgrown
    · exact sourced p'.id v hsets
  · intro c' hc'
    have haccepted : ∀ c : ConfigChange, c'.parameterId = c.parameterId →
        c'.newValue = c.newValue → (∃ p ∈ mid.parameters.parameters.rows, p.id = c.parameterId ∧
          validateValue tables p c.newValue = none) →
        ∃ p ∈ after.parameters.parameters.rows, p.id = c'.parameterId ∧
          validateValue tables p c'.newValue = none := by
      rintro c hid hvalue ⟨p, hp, hpid, hvalid⟩
      obtain ⟨q, hq, hdefinition⟩ := hgrown.parameter hp
      refine ⟨q, hq, ?_, ?_⟩
      · rw [id_of_definition hdefinition, hpid, hid]
      · rw [validateValue_congr hdefinition, hvalue, hvalid]
    rcases applyAll_change happly hc' with ⟨c, hc, hrecord⟩ | ⟨c, hc, hid, hvalue⟩
    · obtain ⟨hid, hvalue⟩ := same_of_record hrecord
      rcases h.changes c hc with hstart | hvalid
      · exact .inl (hrecord ▸ hstart)
      · exact .inr (haccepted c hid.symm hvalue.symm hvalid)
    · exact .inr (haccepted c hid hvalue (accepted c hc))

/-- The statement sets no value and records no staging. -/
def Harmless (w : Statement) : Prop :=
  (∀ id v, ¬ Sets [w] id v) ∧ ∀ c, w ≠ .parameter (.insertChange c)

theorem traced_keeps (w : Statement) (before after : Db) (hw : Harmless w)
    (h : postgres.apply w before = some after) (htraced : Traced tables s₀ before.parameters) :
    Traced tables s₀ after.parameters := by
  have happly : postgres.applyAll [w] before = some after :=
    (StatementSemantics.applyAll_singleton ..).trans h
  apply htraced.flush happly
  · intro id v hsets
    exact absurd hsets (hw.1 id v)
  · intro c hc
    exact absurd (List.mem_singleton.mp hc).symm (hw.2 c)

/-! ## Requests -/

/-- The request keeps every value traced, whatever other sessions commit. -/
abbrev TracesSafely {α : Type} (tables : CharacterTables) (s₀ : ParameterStore) (K : Db → Prop)
    (p : Service α) (K' : α → Db → Prop) : Prop :=
  Safe postgres Continues (fun db => Traced tables s₀ db.parameters) K p K'

/-- The parameter that was read is there, with its definition, and its values have a source. -/
def Loaded (s₀ : ParameterStore) (p : ConfigParameter) (db : Db) : Prop :=
  (∃ q ∈ db.parameters.parameters.rows, definition q = definition p) ∧
    ∀ v, Has p v → HasSource s₀ db.parameters p.id v

theorem stable_loaded (p : ConfigParameter) : Stable Continues (Loaded s₀ p) := by
  rintro a b hab ⟨⟨q, hq, hdefinition⟩, hsource⟩
  obtain ⟨q', hq', hkept⟩ := hab.parameter hq
  exact ⟨⟨q', hq', hkept.trans hdefinition⟩, fun v hv => (hsource v hv).later hab⟩

theorem loaded_of_mem {view mid : Db} (htraced : Traced tables s₀ view.parameters)
    (hr : Continues view mid) {p : ConfigParameter} (hp : p ∈ view.parameters.parameters.rows) :
    Loaded s₀ p mid :=
  ⟨hr.parameter hp, fun v hv => (htraced.values p hp v hv).later hr⟩

theorem getParameter_traces (id : Uuid) (error : ServiceError) :
    TracesSafely tables s₀ (fun _ => True) (getParameter id error) (Loaded s₀) := by
  refine (Safe.select growth _).bind growth fun row => ?_
  apply (safe_found growth).mono (fun _ hk => hk)
  rintro p mid ⟨⟨view, htraced, -, hview, hread⟩, rfl⟩
  exact loaded_of_mem htraced hview (Table.find?_eq_some.mp hread).1

/-- A saved parameter is set to what its new state has. -/
theorem saveParameter_sets {old new : ConfigParameter} {id : Uuid} {v : String}
    (h : Sets (saveParameter old new) id v) : id = old.id ∧ Has new v := by
  obtain ⟨patch, hmem, hvalue⟩ := h
  unfold saveParameter at hmem
  split at hmem
  · cases hmem
  · cases List.mem_singleton.mp hmem
    refine ⟨rfl, ?_⟩
    simp only [ConfigParameter.diff, changed, Option.ite_none_left_eq_some,
      Option.some.injEq] at hvalue
    exact hvalue.imp And.right And.right

theorem saveParameter_inserts {old new : ConfigParameter} {c : ConfigChange} :
    Statement.parameter (.insertChange c) ∉ saveParameter old new := by
  unfold saveParameter
  split
  · exact List.not_mem_nil
  · simp

theorem harmless_saveChange {old new : ConfigChange} {w : Statement}
    (hw : w ∈ saveChange old new) : Harmless w := by
  unfold saveChange at hw
  split at hw
  · cases hw
  · rw [List.mem_singleton.mp hw]
    constructor
    · rintro id v ⟨patch, hmem, -⟩
      cases List.mem_singleton.mp hmem
    · intro c heq
      cases heq

theorem sets_append {ws ws' : List Statement} {id : Uuid} {v : String} :
    Sets (ws ++ ws') id v ↔ Sets ws id v ∨ Sets ws' id v := by
  simp only [Sets, List.mem_append, or_and_right, exists_or]

/-- Harmless statements set nothing. -/
theorem not_sets {ws : List Statement} (h : ∀ w ∈ ws, Harmless w) (id : Uuid) (v : String) :
    ¬ Sets ws id v := by
  rintro ⟨patch, hmem, hvalue⟩
  exact (h _ hmem).1 id v ⟨patch, List.mem_cons_self, hvalue⟩

theorem stage_traces (env : ConfigManagerEnv) {p : ConfigParameter} {payload : ConfigParameterStage}
    (valid : validateValue tables p payload.value = none) {mid after : Db}
    (hp : ∃ q ∈ mid.parameters.parameters.rows, definition q = definition p)
    (hsource : ∀ v, Has p v → HasSource s₀ after.parameters p.id v)
    (htraced : Traced tables s₀ mid.parameters)
    (happly : postgres.applyAll (stageStatements env p payload) mid = some after) :
    Traced tables s₀ after.parameters := by
  unfold stageStatements at happly
  split at happly
  · apply htraced.flush happly
    · intro id v hsets
      obtain ⟨rfl, hactive | hpending⟩ := saveParameter_sets hsets
      · exact hsource v (.inl hactive)
      · cases hpending
    · intro c hc
      exact absurd hc saveParameter_inserts
  · have hinsert : Statement.parameter (.insertChange (stagedChange env p payload)) ∈
        saveParameter p { p with pendingValue := some payload.value } ++
          [.parameter (.insertChange (stagedChange env p payload))] :=
      List.mem_append_right _ List.mem_cons_self
    apply htraced.flush happly
    · intro id v hsets
      rcases sets_append.mp hsets with hsets | ⟨patch, hmem, -⟩
      · obtain ⟨rfl, hactive | hpending⟩ := saveParameter_sets hsets
        · exact hsource v (.inl hactive)
        · obtain rfl := Option.some.inj hpending
          exact .inr (applyAll_recorded happly hinsert)
      · cases List.mem_singleton.mp hmem
    · intro c hc
      rcases List.mem_append.mp hc with hc | hc
      · exact absurd hc saveParameter_inserts
      · cases List.mem_singleton.mp hc
        obtain ⟨q, hq, hdefinition⟩ := hp
        exact ⟨q, hq, id_of_definition hdefinition, (validateValue_congr hdefinition _).trans valid⟩

theorem stageConfigChange_traces (env : ConfigManagerEnv) (parameterId : Uuid)
    (payload : ConfigParameterStage) :
    TracesSafely tables s₀ (fun _ => True) (stageConfigChange tables env parameterId payload)
      fun _ _ => True := by
  refine (getParameter_traces parameterId _).bind growth fun p => ?_
  refine (safe_ensure growth).bind growth fun _ => ?_
  have hknown : Stable Continues fun db => Loaded s₀ p db ∧
      validateValue tables p payload.value = none :=
    fun a b hab hk => ⟨stable_loaded p a b hab hk.1, hk.2⟩
  refine (Safe.send growth hknown ?_).bind growth fun _ => ?_
  · rintro mid after _ ⟨hloaded, valid⟩ htraced happly
    have hafter := stable_loaded p mid after (growth.applyAll happly) hloaded
    exact stage_traces env valid hloaded.1 hafter.2 htraced happly
  · refine (Safe.commit growth hknown).bind growth fun _ => ?_
    exact (Safe.of_readsOnly growth stable_true (getParameter_readsOnly _ _)).mono
      (fun _ _ => trivial) fun _ _ h => h

theorem revertConfigChange_traces (env : ConfigManagerEnv) (parameterId : Uuid) :
    TracesSafely tables s₀ (fun _ => True) (revertConfigChange env parameterId)
      fun _ _ => True := by
  refine (getParameter_traces parameterId _).bind growth fun p => ?_
  have hloaded : Stable Continues (Loaded s₀ p) := stable_loaded p
  refine (Safe.of_readsOnly growth hloaded (Request.readsOnly_select _)).bind growth
    fun changes => ?_
  have hharmless : ∀ w ∈ changes.flatMap fun c => saveChange c { c with status := .reverted },
      Harmless w := by
    intro w hw
    obtain ⟨c, -, hc⟩ := List.mem_flatMap.mp hw
    exact harmless_saveChange hc
  refine (Safe.send growth hloaded ?_).bind growth fun _ => ?_
  · intro mid after _ hk htraced happly
    have hafter := stable_loaded p mid after (growth.applyAll happly) hk
    apply htraced.flush happly
    · intro id v hsets
      rcases sets_append.mp hsets with hsets | hsets
      · obtain ⟨rfl, hactive | hpending⟩ := saveParameter_sets hsets
        · exact hafter.2 v (.inl hactive)
        · cases hpending
      · exact absurd hsets (not_sets hharmless id v)
    · intro c hc
      rcases List.mem_append.mp hc with hc | hc
      · exact absurd hc saveParameter_inserts
      · exact absurd rfl ((hharmless _ hc).2 c)
  · refine (Safe.commit growth hloaded).bind growth fun _ => ?_
    exact (Safe.of_readsOnly growth stable_true (getParameter_readsOnly _ _)).mono
      (fun _ _ => trivial) fun _ _ h => h

/-- The statements that make the staged value of a parameter the live one, with the entry. -/
theorem promote_traces {now : CalendarTime.Instant} {p : ConfigParameter}
    {change : Option ConfigChange} {entry : AuditLogTable.NewAuditLogEntry} {n : ℕ} {mid after : Db}
    (hloaded : Loaded s₀ p mid) (htraced : Traced tables s₀ mid.parameters)
    (happly : postgres.applyAll (promoteStatements now p change ++
      [.insertAuditLogEntry entry n]) mid = some after) :
    Traced tables s₀ after.parameters := by
  have hafter := stable_loaded p mid after (growth.applyAll happly) hloaded
  have hharmless : ∀ w ∈ change.toList.flatMap fun c => saveChange c (appliedChange now c),
      Harmless w := by
    intro w hw
    obtain ⟨c, -, hc⟩ := List.mem_flatMap.mp hw
    exact harmless_saveChange hc
  apply htraced.flush happly
  · intro id v hsets
    rcases sets_append.mp hsets with hsets | ⟨patch, hmem, -⟩
    · rcases sets_append.mp hsets with hsets | hsets
      · obtain ⟨rfl, hactive | hpending⟩ := saveParameter_sets hsets
        · -- the live value becomes the staged one, where there is one
          change p.pendingValue.getD p.activeValue = v at hactive
          cases hstaged : p.pendingValue with
          | none =>
            rw [hstaged] at hactive
            exact hafter.2 v (.inl hactive)
          | some staged =>
            rw [hstaged] at hactive
            exact hafter.2 v (.inr (hstaged.trans (congrArg some hactive)))
        · cases hpending
      · exact absurd hsets (not_sets hharmless id v)
    · cases List.mem_singleton.mp hmem
  · intro c hc
    rcases List.mem_append.mp hc with hc | hc
    · rcases List.mem_append.mp hc with hc | hc
      · exact absurd hc saveParameter_inserts
      · exact absurd rfl ((hharmless _ hc).2 c)
    · cases List.mem_singleton.mp hc

theorem applyParameters_traces (env : ConfigManagerEnv) (changedBy : String) (k : ℕ)
    (parameters : List ConfigParameter) :
    TracesSafely tables s₀ (fun db => ∀ p ∈ parameters, Loaded s₀ p db)
      (applyParameters crypto tables env changedBy k parameters) fun _ _ => True := by
  induction parameters generalizing k with
  | nil => exact Safe.done growth fun _ _ => trivial
  | cons p parameters ih =>
    have hknown : Stable Continues fun db => ∀ q ∈ p :: parameters, Loaded s₀ q db :=
      fun a b hab hk q hq => stable_loaded q a b hab (hk q hq)
    refine (Safe.of_readsOnly growth hknown (Request.readsOnly_select _)).bind growth
      fun changes => ?_
    refine (safe_append growth hknown ?_).bind growth fun _ => ?_
    · intro view mid after signature n hk _ htraced _ happly
      exact promote_traces (hk p List.mem_cons_self) htraced happly
    · refine Safe.bind growth ((ih (k + 1)).mono ?_ fun _ _ h => h) fun _ =>
        Safe.done growth fun _ _ => trivial
      exact fun db hk q hq => hk q (List.mem_cons_of_mem _ hq)

theorem applyPendingChanges_traces (env : ConfigManagerEnv) (changedBy : String) :
    TracesSafely tables s₀ (fun _ => True) (applyPendingChanges crypto tables env changedBy)
      fun _ _ => True := by
  refine Safe.bind growth ((Safe.select growth _).mono (fun _ hk => hk) ?_) fun parameters =>
    (applyParameters_traces env changedBy 0 parameters).bind growth fun _ =>
      (Safe.commit growth stable_true).bind growth fun _ => Safe.done growth fun _ h => h
  rintro parameters mid ⟨view, htraced, -, hview, rfl⟩ p hp
  exact loaded_of_mem htraced hview (stagedParameters_mem hp)

theorem request_traces (r : ParameterRequest) :
    TracesSafely tables s₀ (fun _ => True) (r.request crypto tables) fun _ _ => True := by
  cases r with
  | stage env id payload => exact safe_answer growth (stageConfigChange_traces env id payload)
  | revert env id => exact safe_answer growth (revertConfigChange_traces env id)
  | apply env changedBy => exact safe_answer growth (applyPendingChanges_traces env changedBy)

theorem traced_start (s₀ : ParameterStore) : Traced tables s₀ s₀ :=
  ⟨fun p hp _ hv => .inl ⟨p, hp, rfl, hv⟩, fun _ hc => .inl (List.mem_map_of_mem hc)⟩

/-- In every interleaving a value that a parameter has, live or staged, was there at the start, or a
staging of it is on record that was there at the start or that the validator accepted. Parameters
keep their definitions, and no record of a staging is taken away or changed but in its status. -/
theorem values_traced {db : Db} {n : ℕ} (rs : List ParameterRequest)
    {σ : Server Db Statement ServiceError Unit}
    (run : Server.Reaches postgres (fun _ _ => True)
      (start db n (rs.map (·.request crypto tables))) σ) :
    (∀ p ∈ σ.committed.parameters.parameters.rows, ∀ v, Has p v →
      (∃ q ∈ db.parameters.parameters.rows, q.id = p.id ∧ Has q v) ∨
        ∃ c ∈ σ.committed.parameters.changes.rows, c.parameterId = p.id ∧ c.newValue = v ∧
          (record c ∈ db.parameters.changes.rows.map record ∨ validateValue tables p v = none)) ∧
      Continues db σ.committed ∧
      ∀ σ', Server.Reaches postgres (fun _ _ => True) σ σ' →
        Continues σ.committed σ'.committed := by
  have hsafe : ∀ p ∈ rs.map (·.request crypto tables),
      TracesSafely tables db.parameters (fun _ => True) p fun _ _ => True := by
    intro p hp
    obtain ⟨r, -, rfl⟩ := List.mem_map.mp hp
    exact request_traces r
  have htraced : Traced tables db.parameters σ.committed.parameters :=
    Server.Reaches.safe growth (traced_start _) hsafe run
  refine ⟨?_, growth.reaches run, fun σ' => growth.reaches⟩
  intro p hp v hv
  refine (htraced.values p hp v hv).imp_right ?_
  rintro ⟨c, hc, hid, rfl⟩
  refine ⟨c, hc, hid, rfl, (htraced.changes c hc).imp_right ?_⟩
  rintro ⟨q, hq, hqid, hvalid⟩
  have hsame : q = p := σ.committed.parameters.parameters.eq_of_key_eq hq hp (hqid.trans hid)
  exact hsame ▸ hvalid

end

/-- Two values staged at once for one parameter: the second session overwrites the value of the
first one. -/
def sampleStagings : List ParameterRequest := [sampleStage 1 "b", sampleStage 2 "c"]

theorem values_traced_sample :
    ∃ σ, Server.run postgres (fun _ _ => true)
        (start sampleStore.db 1 (sampleStagings.map (·.request sampleCrypto asciiTables)))
        [.run 0, .run 1, .run 0, .run 0, .run 1, .run 1] = some σ ∧
      Continues sampleStore.db σ.committed := by
  have hrun : (Server.run postgres (fun _ _ => true)
      (start sampleStore.db 1 (sampleStagings.map (·.request sampleCrypto asciiTables)))
      [.run 0, .run 1, .run 0, .run 0, .run 1, .run 1]).isSome = true := by
    decide +kernel
  obtain ⟨σ, hσ⟩ := Option.isSome_iff_exists.mp hrun
  exact ⟨σ, hσ, (values_traced sampleStagings
    (Server.Reaches.of_run (fun _ _ _ => trivial) .refl hσ)).2.1⟩

end NexusEngine.ParameterRaces
