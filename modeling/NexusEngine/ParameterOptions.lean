import NexusEngine.ParameterStaging

/-!
# The values that a parameter offers

The screen shows the entries of the list of allowed values as they stand between the commas. A
value is checked against the entries without the white space around them. The two agree, for every
value but the live one, exactly where no entry has white space around it that matters.
-/

namespace NexusEngine.ParameterOptions

open TransactionalRequests TextEncodings StoredColumns PythonText KeyedTables ParameterTables
  Database AuditService ParameterService ParameterLifecycle
open ParameterStaging (sampleManagerEnv sampleParameter)

/-! ## Staging a value -/

/-- What the staging of a value relies on, beyond the value. -/
structure Stageable (env : ConfigManagerEnv) (reason : Option String) (changedBy : String)
    (p : ConfigParameter) (s : Store Db) : Prop where
  isParameter : p ∈ s.db.parameters.parameters.rows
  activeValue : text p.activeValue = some p.activeValue
  allowedValues : ∀ allowed, p.allowedValues = some allowed → text allowed = some allowed
  fresh : s.db.parameters.changes.find? env.uuid4 = none
  reason : (nullable (varchar 255) reason).isSome
  changedBy : (varchar 120 changedBy).isSome

section

variable {tables : CharacterTables} {env : ConfigManagerEnv} {reason : Option String}
  {changedBy value : String} {p : ConfigParameter} {s : Store Db}

theorem getParameter_answers {durable work : Db} {n : ℕ} {id : Uuid} {error : ServiceError}
    (hfind : work.parameters.parameters.find? id = some p)
    {post : Except ServiceError ConfigParameter → Db → Db → ℕ → Prop}
    (h : post (.ok p) durable work n) :
    (getParameter id error).wp postgres post durable work n := by
  simp only [getParameter, Request.wp_bind, Request.wp_select]
  exact wp_found_of_some hfind h

/-- A parameter that is there is saved with another staged value. -/
theorem saveParameter_accepts {db : Db} (hp : p ∈ db.parameters.parameters.rows)
    (pendingValue : Option String) (hvalue : nullable text pendingValue = some pendingValue) :
    ∃ parameters, postgres.applyAll (saveParameter p { p with pendingValue := pendingValue }) db =
        some { db with parameters := { db.parameters with parameters := parameters } } ∧
      (parameters.find? p.id).isSome := by
  unfold saveParameter
  split
  · refine ⟨db.parameters.parameters, rfl, ?_⟩
    rw [Table.find?_of_mem hp]
    rfl
  · have hactive : (p.diff { p with pendingValue := pendingValue }).activeValue = none := by
      simp [ConfigParameter.diff, changed]
    have hpending : (nullable text ((p.diff
        { p with pendingValue := pendingValue }).pendingValue.getD none)).isSome := by
      simp only [ConfigParameter.diff, changed]
      split
      · rfl
      · rw [Option.getD_some, hvalue]
        rfl
    obtain ⟨stored, hstored⟩ := Option.isSome_iff_exists.mp hpending
    obtain ⟨parameters, hupdate⟩ : ∃ parameters, db.parameters.parameters.update p.id
        (p.diff { p with pendingValue := pendingValue }).apply (fun _ => rfl) =
          some parameters := Table.update_isSome (Table.find?_of_mem hp)
    refine ⟨parameters, ?_, ?_⟩
    · rw [StatementSemantics.applyAll_singleton]
      apply apply_parameter.mpr
      refine ⟨{ db.parameters with parameters := parameters }, ?_, rfl⟩
      have hsame : nullable text none = some none := rfl
      simp only [ParameterStatement.apply, ParameterStore.updateParameter, hactive, hstored,
        hupdate, hsame, Option.bind_eq_bind, Option.bind_some]
      rfl
    · rw [Table.find?_update hupdate, Table.find?_of_mem hp]
      simp

/-- The statements of a staging go through where the value is a text. -/
theorem stageStatements_accepts (h : Stageable env reason changedBy p s)
    (hvalue : text value = some value) :
    ∃ work, postgres.applyAll (stageStatements env p ⟨value, reason, changedBy⟩) s.db =
      some work ∧ (work.parameters.parameters.find? p.id).isSome := by
  unfold stageStatements
  split
  · obtain ⟨parameters, hsaved, hfind⟩ := saveParameter_accepts h.isParameter none rfl
    exact ⟨_, hsaved, hfind⟩
  · have hpending : nullable text (some value) = some (some value) := by
      rw [nullable, hvalue]
      rfl
    obtain ⟨parameters, hsaved, hfind⟩ := saveParameter_accepts h.isParameter (some value) hpending
    obtain ⟨storedReason, hreason⟩ := Option.isSome_iff_exists.mp h.reason
    obtain ⟨actor, hactor⟩ := Option.isSome_iff_exists.mp h.changedBy
    obtain ⟨changes, hchanges⟩ : ∃ changes, s.db.parameters.changes.insert
        { stagedChange env p ⟨value, reason, changedBy⟩ with
          reason := storedReason, changedBy := actor } = some changes :=
      Table.insert_isSome h.fresh
    refine ⟨{ s.db with parameters := ⟨parameters, changes⟩ }, ?_, hfind⟩
    rw [StatementSemantics.applyAll_append, hsaved, Option.bind_some,
      StatementSemantics.applyAll_singleton]
    apply apply_parameter.mpr
    refine ⟨⟨parameters, changes⟩, ?_, rfl⟩
    have hprevious : text (stagedChange env p ⟨value, reason, changedBy⟩).previousValue =
        some p.activeValue := h.activeValue
    have hnew : text (stagedChange env p ⟨value, reason, changedBy⟩).newValue = some value := hvalue
    have hreason' : nullable (varchar 255) (stagedChange env p ⟨value, reason, changedBy⟩).reason =
        some storedReason := hreason
    have hactor' : varchar 120 (stagedChange env p ⟨value, reason, changedBy⟩).changedBy =
        some actor := hactor
    have hexists : (parameters.find? (stagedChange env p ⟨value, reason, changedBy⟩).parameterId)
        |>.isSome := hfind
    simp only [ParameterStatement.apply, ParameterStore.insertChange, hprevious, hnew, hreason',
      hactor', hexists, Option.bind_eq_bind, Option.bind_some, if_true]
    exact congrArg (Option.bind · _) hchanges

/-- A text is staged exactly where it is valid. -/
theorem stageConfigChange_answered_iff (h : Stageable env reason changedBy p s)
    (hvalue : validateValue tables p value = none → text value = some value) :
    Answered (stageConfigChange tables env p.id ⟨value, reason, changedBy⟩) s ↔
      validateValue tables p value = none := by
  constructor
  · rintro ⟨result, hresult⟩
    have hwp : (stageConfigChange tables env p.id ⟨value, reason, changedBy⟩).wp postgres
        (fun result _ _ _ => ∀ value', result = .ok value' →
          validateValue tables p value = none) s.db s.db s.sequence := by
      apply (Request.wp_bind ..).mpr
      apply getParameter_wp
      · intro value' hvalue'
        cases hvalue'
      · intro q hq hid
        obtain rfl := s.db.parameters.parameters.eq_of_key_eq hq h.isParameter hid
        apply (Request.wp_bind ..).mpr
        refine wp_ensure.mpr ⟨fun _ value' hvalue' => (nomatch hvalue'), fun hvalid => ?_⟩
        apply (Request.wp_bind ..).mpr
        refine Request.wp_send.mpr ⟨fun _ _ _ => hvalid, fun work hwork => ?_⟩
        apply Request.wp_commitTransaction_bind
        exact getParameter_wp (fun _ _ => hvalid) fun _ _ _ _ _ => hvalid
    exact (Request.serial_sound hwp).elim fun _ hvalid => hvalid result hresult
  · intro hvalid
    obtain ⟨work, hwork, hfind⟩ := stageStatements_accepts h (hvalue hvalid)
    apply answered_of_wp
    apply (Request.wp_bind ..).mpr
    apply getParameter_answers (Table.find?_of_mem h.isParameter)
    apply (Request.wp_bind ..).mpr
    apply ensure_answers hvalid
    apply (Request.wp_bind ..).mpr
    apply Request.wp_send_of_some hwork
    apply Request.wp_commitTransaction_bind
    obtain ⟨q, hq⟩ := Option.isSome_iff_exists.mp hfind
    exact getParameter_answers hq ⟨q, rfl⟩

end

/-! ## The two readings -/

/-- The entries of a list of allowed values, as they are shown. -/
def entries (allowed : String) : List (List Char) := (chars allowed).splitOn ','

section

variable {tables : CharacterTables} {p : ConfigParameter} {allowed value : String}

theorem shown_iff (hallowed : p.allowedValues = some allowed) (hne : allowed ≠ "") :
    (∃ shown, (ConfigParameterRead.fromModel p).allowedValues = some shown ∧ value ∈ shown) ↔
      value.toList ∈ entries allowed := by
  have hshown : (ConfigParameterRead.fromModel p).allowedValues =
      some ((entries allowed).map String.ofList) := by
    simp [ConfigParameterRead.fromModel, hallowed, hne, entries]
  rw [hshown]
  simp only [Option.some.injEq, exists_eq_left', List.mem_map]
  constructor
  · rintro ⟨entry, hentry, rfl⟩
    rwa [String.toList_ofList]
  · intro hmem
    exact ⟨_, hmem, String.ofList_toList⟩

theorem validateValue_eq_none_iff (henum : p.valueType = .enum)
    (hallowed : p.allowedValues = some allowed) (hne : allowed ≠ "") :
    validateValue tables p value = none ↔ value.toList ∈ (entries allowed).map strip := by
  simp [validateValue, henum, hallowed, hne, allowedTexts, entries]

/-- An entry is a part of the list. -/
theorem mem_of_mem_entries {entry : List Char} (h : entry ∈ entries allowed) {c : Char}
    (hc : c ∈ entry) : c ∈ allowed.toList := by
  rw [entries, chars_eq] at h
  have hparts : ∀ parts : List (List Char), entry ∈ parts → c ∈ [','].intercalate parts := by
    intro parts hmem
    induction parts with
    | nil => cases hmem
    | cons part parts ih =>
      rcases List.mem_cons.mp hmem with rfl | hmem
      · cases parts with
        | nil => simpa using hc
        | cons next parts => simp [List.intercalate_cons_cons, hc]
      · cases parts with
        | nil => cases hmem
        | cons next parts => simp [List.intercalate_cons_cons, ih hmem]
  have hmem := hparts _ h
  rwa [List.intercalate_splitOn] at hmem

/-- Stripping only drops characters. -/
theorem mem_of_mem_strip {s : List Char} {c : Char} (h : c ∈ strip s) : c ∈ s := by
  rw [strip, List.mem_reverse] at h
  exact (List.dropWhile_sublist _).subset
    (List.mem_reverse.mp ((List.dropWhile_sublist _).subset h))

/-- The two readings of a list agree on every value but the live one. -/
theorem readings_agree_iff (allowed active : String) :
    (∀ value : String, value ≠ active →
      (value.toList ∈ (entries allowed).map strip ↔ value.toList ∈ entries allowed)) ↔
    ∀ entry ∈ entries allowed, strip entry ≠ entry →
      entry = active.toList ∧ strip entry ∈ entries allowed := by
  constructor
  · intro h entry hentry hblank
    have hactive : entry = active.toList := by
      by_contra hother
      have hvalue : String.ofList entry ≠ active :=
        fun heq => hother (by rw [← heq, String.toList_ofList])
      have hiff := h _ hvalue
      rw [String.toList_ofList] at hiff
      obtain ⟨entry', -, hstrip⟩ := List.mem_map.mp (hiff.mpr hentry)
      exact hblank (by rw [← hstrip, strip_strip])
    have hvalue : String.ofList (strip entry) ≠ active := by
      rintro rfl
      rw [String.toList_ofList] at hactive
      exact hblank hactive.symm
    have hiff := h _ hvalue
    rw [String.toList_ofList] at hiff
    exact ⟨hactive, hiff.mp (List.mem_map_of_mem hentry)⟩
  · intro h value hvalue
    constructor
    · intro hmem
      obtain ⟨entry, hentry, hstrip⟩ := List.mem_map.mp hmem
      by_cases hblank : strip entry = entry
      · rwa [← hstrip, hblank]
      · rw [← hstrip]
        exact (h entry hentry hblank).2
    · intro hmem
      by_cases hblank : strip value.toList = value.toList
      · exact List.mem_map.mpr ⟨_, hmem, hblank⟩
      · exact absurd (String.toList_inj.mp (h _ hmem hblank).1) hvalue

end

/-! ## What is offered and what is accepted -/

section

variable {tables : CharacterTables} {env : ConfigManagerEnv} {reason : Option String}
  {changedBy : String} {p : ConfigParameter} {s : Store Db} {allowed : String}

/-- A value is staged for an enumeration exactly where it is an entry without the white space
around it. -/
theorem stageConfigChange_enum (h : Stageable env reason changedBy p s)
    (henum : p.valueType = .enum) (hallowed : p.allowedValues = some allowed) (hne : allowed ≠ "")
    (value : String) :
    Answered (stageConfigChange tables env p.id ⟨value, reason, changedBy⟩) s ↔
      value.toList ∈ (entries allowed).map strip := by
  have hvalid : validateValue tables p value = none ↔ value.toList ∈ (entries allowed).map strip :=
    validateValue_eq_none_iff henum hallowed hne
  rw [stageConfigChange_answered_iff h, hvalid]
  intro hnone
  obtain ⟨entry, hentry, hstrip⟩ := List.mem_map.mp (hvalid.mp hnone)
  apply text_iff.mpr
  intro hnul
  rw [← hstrip] at hnul
  exact text_iff.mp (h.allowedValues allowed hallowed)
    (mem_of_mem_entries hentry (mem_of_mem_strip hnul))

/-- Every value but the live one is accepted exactly where it is shown, if and only if each entry
with white space around it is the live value, and is listed without the white space as well. -/
theorem offered_accepted_iff (h : Stageable env reason changedBy p s)
    (henum : p.valueType = .enum) (hallowed : p.allowedValues = some allowed)
    (hne : allowed ≠ "") :
    (∀ value, value ≠ p.activeValue →
      (Answered (stageConfigChange tables env p.id ⟨value, reason, changedBy⟩) s ↔
        ∃ shown, (ConfigParameterRead.fromModel p).allowedValues = some shown ∧ value ∈ shown)) ↔
    ∀ entry ∈ (chars allowed).splitOn ',', strip entry ≠ entry →
      entry = p.activeValue.toList ∧ strip entry ∈ (chars allowed).splitOn ',' := by
  have hagree := readings_agree_iff allowed p.activeValue
  rw [entries] at hagree
  rw [← hagree]
  apply forall_congr'
  intro value
  apply imp_congr_right
  intro _
  rw [stageConfigChange_enum h henum hallowed hne, shown_iff hallowed hne, entries]

end

/-- A parameter that offers `allowed`. -/
def sampleOptions (allowed : String) : ConfigParameter :=
  { sampleParameter with valueType := .enum, allowedValues := some allowed }

def sampleOptionsStore (allowed : String) : Store Db :=
  ⟨{ emptyDb with parameters := ⟨⟨[sampleOptions allowed], by simp⟩, .empty⟩ }, 1⟩

theorem sampleOptions_stageable {allowed : String} (htext : text allowed = some allowed) :
    Stageable (sampleManagerEnv 1) none "admin@nexus" (sampleOptions allowed)
      (sampleOptionsStore allowed) where
  isParameter := List.mem_singleton.mpr rfl
  activeValue := by
    change text "a" = some "a"
    decide
  allowedValues := by
    intro allowed' heq
    obtain rfl := Option.some.inj heq
    exact htext
  fresh := rfl
  reason := rfl
  changedBy := by decide

/-- After a comma and a blank, what is offered is not accepted. -/
theorem offered_accepted_counterexample :
    ¬ ∀ value, value ≠ (sampleOptions "a, b").activeValue →
      (Answered (stageConfigChange asciiTables (sampleManagerEnv 1) (sampleOptions "a, b").id
          ⟨value, none, "admin@nexus"⟩) (sampleOptionsStore "a, b") ↔
        ∃ shown, (ConfigParameterRead.fromModel (sampleOptions "a, b")).allowedValues = some shown ∧
          value ∈ shown) := by
  intro h
  have hshown : ∃ shown, (ConfigParameterRead.fromModel
      (sampleOptions "a, b")).allowedValues = some shown ∧ " b" ∈ shown :=
    (shown_iff rfl (by decide)).mpr (by decide +kernel)
  have hvalue : " b" ≠ (sampleOptions "a, b").activeValue := by decide
  have haccepted := (stageConfigChange_enum (sampleOptions_stageable (by decide)) rfl rfl
    (by decide) " b").mp ((h " b" hvalue).mpr hshown)
  exact absurd haccepted (by decide +kernel)

/-- Without blanks every value is accepted where it is offered. -/
theorem offered_accepted_sample :
    Answered (stageConfigChange asciiTables (sampleManagerEnv 1) (sampleOptions "a,b").id
        ⟨"b", none, "admin@nexus"⟩) (sampleOptionsStore "a,b") := by
  have hplain : ∀ entry ∈ (chars "a,b").splitOn ',', strip entry ≠ entry →
      entry = (sampleOptions "a,b").activeValue.toList ∧ strip entry ∈ (chars "a,b").splitOn ',' := by
    decide +kernel
  have hshown : ∃ shown, (ConfigParameterRead.fromModel
      (sampleOptions "a,b")).allowedValues = some shown ∧ "b" ∈ shown :=
    (shown_iff rfl (by decide)).mpr (by decide +kernel)
  exact ((offered_accepted_iff (sampleOptions_stageable (by decide)) rfl rfl (by decide)).mpr hplain
    "b" (by decide)).mpr hshown

end NexusEngine.ParameterOptions
