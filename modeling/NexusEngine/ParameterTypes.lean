import NexusEngine.ParameterStaging
import NexusEngine.HsmService

/-!
# Well formed parameter values

A value is well formed when its parameter's type can read it. The validator accepts no other value
of an enumeration or a truth value. Of an integer it strips every leading minus sign, and takes
for a digit whatever the character tables call one, so that it also accepts texts that are no
integer. As long as no such text is staged, every live and every staged value is well formed.
-/

namespace NexusEngine.ParameterTypes

open TransactionalRequests TextEncodings StoredColumns KeyedTables ParameterTables Database
  PythonText AuditService ParameterService ParameterLifecycle
open HsmService (decimalDigit)
open AuditVerification (sha256Crypto)
open ParameterStaging (sampleManagerEnv sampleParameter sampleStage)

/-! ## Integers -/

/-- Digits that `int` reads, and not none. -/
def IsNatural (s : List Char) : Prop := s ≠ [] ∧ ∀ c ∈ s, (decimalDigit c).isSome = true

/-- At most one minus sign before them. -/
def IsInteger (s : List Char) : Prop := IsNatural s ∨ ∃ digits, s = '-' :: digits ∧ IsNatural digits

instance (s : List Char) : Decidable (IsNatural s) :=
  decidable_of_iff (s ≠ [] ∧ s.all (fun c => (decimalDigit c).isSome) = true) (by simp [IsNatural])

/-- The text has one minus sign in front at most, and no digit that `int` does not read. -/
structure PlainDigits (tables : CharacterTables) (s : List Char) : Prop where
  sign : ¬ ['-', '-'] <+: s
  digits : ∀ c ∈ s, tables.isDigit c = true → (decimalDigit c).isSome = true

theorem decimalDigit_minus : decimalDigit '-' = none := by decide +kernel

theorem IsNatural.no_minus {s : List Char} (h : IsNatural s) : '-' ∉ s := by
  intro hmem
  have hdigit := h.2 '-' hmem
  rw [decimalDigit_minus] at hdigit
  cases hdigit

/-- An integer is plain digits. -/
theorem IsInteger.plainDigits {tables : CharacterTables}
    (minus : tables.isDigit '-' = false) {s : List Char} (h : IsInteger s) :
    PlainDigits tables s := by
  have hsign : ∀ digits : List Char, IsNatural digits → ¬ ['-', '-'] <+: '-' :: digits := by
    intro digits hdigits hpre
    obtain ⟨rest, hrest⟩ := hpre
    have htail : '-' :: rest = digits := (List.cons.inj hrest).2
    exact hdigits.no_minus (htail ▸ List.mem_cons_self)
  rcases h with h | ⟨digits, rfl, h⟩
  · refine ⟨fun hpre => ?_, fun c hc _ => h.2 c hc⟩
    obtain ⟨rest, hrest⟩ := hpre
    exact h.no_minus (hrest ▸ List.mem_cons_self)
  · refine ⟨hsign digits h, fun c hc hdigit => ?_⟩
    rcases List.mem_cons.mp hc with rfl | hc
    · rw [minus] at hdigit
      cases hdigit
    · exact h.2 c hc

/-- What the validator takes for an integer is one where it is plain digits. -/
theorem PlainDigits.isInteger {tables : CharacterTables} {s : List Char} (h : PlainDigits tables s)
    (accepted : tables.isdigit (s.dropWhile (· = '-')) = true) : IsInteger s := by
  simp only [CharacterTables.isdigit, Bool.and_eq_true, Bool.not_eq_true', List.isEmpty_eq_false_iff,
    List.all_eq_true] at accepted
  obtain ⟨hne, hdigits⟩ := accepted
  cases s with
  | nil => exact absurd rfl hne
  | cons c s =>
    by_cases hc : c = '-'
    · subst hc
      cases s with
      | nil => exact absurd rfl hne
      | cons d s =>
        have hd : d ≠ '-' := by
          rintro rfl
          exact h.sign ⟨s, rfl⟩
        have hrest : ('-' :: d :: s).dropWhile (· = '-') = d :: s := by simp [hd]
        rw [hrest] at hdigits
        refine .inr ⟨d :: s, rfl, List.cons_ne_nil _ _, fun e he => ?_⟩
        exact h.digits e (List.mem_cons_of_mem _ he) (hdigits e he)
    · have hrest : (c :: s).dropWhile (· = '-') = c :: s := by simp [hc]
      rw [hrest] at hdigits
      exact .inl ⟨List.cons_ne_nil _ _, fun e he => h.digits e he (hdigits e he)⟩

/-! ## Values of a parameter -/

/-- The type of the parameter can read the value. -/
structure WellFormed (tables : CharacterTables) (p : ConfigParameter) (value : String) : Prop where
  integer : p.valueType = .integer → IsInteger (chars value)
  boolean : p.valueType = .boolean → tables.lower (chars value) ∈ [chars "true", chars "false"]
  enum : p.valueType = .enum → p.allowedValues.any (· ≠ "") = true → chars value ∈ allowedTexts p

/-- Where an integer is accepted it is plain digits. -/
def StagesPlainDigits (tables : CharacterTables) (s : ParameterStore) : ParameterRequest → Prop
  | .stage _ parameterId payload => ∀ p ∈ s.parameters.rows, p.id = parameterId →
      p.valueType = .integer → validateValue tables p payload.value = none →
      PlainDigits tables (chars payload.value)
  | _ => True

theorem isdigit_of_valid {tables : CharacterTables} {p : ConfigParameter} {value : String}
    (valid : validateValue tables p value = none) (htype : p.valueType = .integer) :
    tables.isdigit ((chars value).dropWhile (· = '-')) = true := by
  by_contra hrefused
  rw [Bool.not_eq_true] at hrefused
  have henum : p.valueType ≠ .enum := by
    rw [htype]
    decide
  rw [validateValue, if_neg (fun h => henum h.1), if_pos ⟨htype, hrefused⟩] at valid
  cases valid

theorem boolean_of_valid {tables : CharacterTables} {p : ConfigParameter} {value : String}
    (valid : validateValue tables p value = none) (htype : p.valueType = .boolean) :
    tables.lower (chars value) ∈ [chars "true", chars "false"] := by
  by_contra hrefused
  have henum : p.valueType ≠ .enum := by
    rw [htype]
    decide
  have hinteger : p.valueType ≠ .integer := by
    rw [htype]
    decide
  rw [validateValue, if_neg (fun h => henum h.1), if_neg (fun h => hinteger h.1),
    if_pos ⟨htype, hrefused⟩] at valid
  cases valid

theorem enum_of_valid {tables : CharacterTables} {p : ConfigParameter} {value : String}
    (valid : validateValue tables p value = none) (htype : p.valueType = .enum)
    (hallowed : p.allowedValues.any (· ≠ "") = true) : chars value ∈ allowedTexts p := by
  by_contra hrefused
  rw [validateValue, if_pos ⟨htype, hallowed, hrefused⟩] at valid
  cases valid

theorem wellFormed_of_valid {tables : CharacterTables} {p : ConfigParameter} {value : String}
    (valid : validateValue tables p value = none)
    (h : p.valueType = .integer → PlainDigits tables (chars value)) :
    WellFormed tables p value where
  integer htype := (h htype).isInteger (isdigit_of_valid valid htype)
  boolean := boolean_of_valid valid
  enum := enum_of_valid valid

/-- A value that the validator accepts is well formed exactly when, for an integer, it is plain
digits. -/
theorem wellFormed_iff {tables : CharacterTables} (minus : tables.isDigit '-' = false)
    {p : ConfigParameter} {value : String} (valid : validateValue tables p value = none) :
    WellFormed tables p value ↔
      (p.valueType = .integer → PlainDigits tables (chars value)) :=
  ⟨fun h htype => (h.integer htype).plainDigits minus, wellFormed_of_valid valid⟩

/-! ## Runs -/

/-- The live and the staged value of a parameter are well formed. -/
structure ValuesWellFormed (tables : CharacterTables) (p : ConfigParameter) : Prop where
  active : WellFormed tables p p.activeValue
  pending : ∀ v, p.pendingValue = some v → WellFormed tables p v

def AllWellFormed (tables : CharacterTables) (s : ParameterStore) : Prop :=
  ∀ p ∈ s.parameters.rows, ValuesWellFormed tables p

/-- Well formed is about the type and the allowed values of a parameter. -/
theorem WellFormed.of_same {tables : CharacterTables} {p p' : ConfigParameter} {value : String}
    (h : WellFormed tables p value) (htype : p'.valueType = p.valueType)
    (hallowed : p'.allowedValues = p.allowedValues) : WellFormed tables p' value := by
  have htexts : allowedTexts p' = allowedTexts p := by rw [allowedTexts, allowedTexts, hallowed]
  constructor
  · rw [htype]
    exact h.integer
  · rw [htype]
    exact h.boolean
  · rw [htype, hallowed, htexts]
    exact h.enum

/-- The step lemma: one case for each effect. -/
theorem ValuesWellFormed.step {tables : CharacterTables} {r : ParameterRequest}
    {s s' : ParameterStore} {p p' : ConfigParameter}
    (h : ValuesWellFormed tables p) (hp : p ∈ s.parameters.rows)
    (hcond : StagesPlainDigits tables s r) (effect : ParameterEffect tables r s s' p p') :
    ValuesWellFormed tables p' := by
  cases effect with
  | unchanged => exact h
  | cleared => exact ⟨h.active.of_same rfl rfl, fun v hv => nomatch hv⟩
  | staged env payload c request valid =>
    subst request
    refine ⟨h.active.of_same rfl rfl, fun v hv => ?_⟩
    obtain rfl := Option.some.inj hv
    have hvalue : WellFormed tables p payload.value :=
      wellFormed_of_valid valid fun htype => hcond p hp rfl htype valid
    exact hvalue.of_same rfl rfl
  | reverted => exact ⟨h.active.of_same rfl rfl, fun v hv => nomatch hv⟩
  | promoted env changedBy now request actor pending =>
    refine ⟨?_, fun v hv => nomatch hv⟩
    obtain ⟨v, hv⟩ := Option.isSome_iff_exists.mp pending
    have hvalue : (promoted p).activeValue = v := by simp [promoted, hv]
    rw [hvalue]
    exact (h.pending v hv).of_same rfl rfl

/-- The run lemma: every state of a run that stages only plain digits for integers has well
formed values, live and staged. -/
theorem values_wellFormed (crypto : AuditCrypto) {tables : CharacterTables} {s : Store Db}
    {rs : List ParameterRequest}
    (start : AllWellFormed tables s.db.parameters)
    (hcond : ∀ rs₁ r rs₂, rs = rs₁ ++ r :: rs₂ →
      StagesPlainDigits tables (execAll crypto tables s rs₁).db.parameters r) :
    AllWellFormed tables (execAll crypto tables s rs).db.parameters := by
  refine Store.execAll_preserves (P := fun s : Store Db => AllWellFormed tables s.db.parameters)
    (Q := fun s r => StagesPlainDigits tables s.db.parameters r) start hcond ?_
  intro s r hq hs p' hp'
  have heffect : Effect tables r s.db.parameters
      (s.exec postgres (r.request crypto tables)).db.parameters := exec_effect s r
  obtain ⟨p, hp, -, effect⟩ := heffect p' hp'
  exact (hs p hp).step hp hq effect

/-! ## Sample runs -/

def integerParameter : ConfigParameter :=
  { sampleParameter with parameterKey := "engine.workers", valueType := .integer, activeValue := "4" }

def integerStore : Store Db :=
  ⟨{ emptyDb with parameters := ⟨⟨[integerParameter], by decide⟩, .empty⟩ }, 1⟩

theorem integerStore_wellFormed : AllWellFormed asciiTables integerStore.db.parameters := by
  intro p hp
  obtain rfl := List.mem_singleton.mp hp
  have hfour : IsInteger (chars "4") := .inl (by decide +kernel)
  exact ⟨⟨fun _ => hfour, fun h => (nomatch h), fun h => (nomatch h)⟩, fun v hv => (nomatch hv)⟩

def stageAndApplyInteger (value : String) : List ParameterRequest :=
  [sampleStage 1 value, .apply (sampleManagerEnv 2) "admin@nexus"]

theorem stagesPlainDigits_sample {value : String} (h : PlainDigits asciiTables (chars value)) :
    ∀ rs₁ r rs₂, stageAndApplyInteger value = rs₁ ++ r :: rs₂ → StagesPlainDigits asciiTables
      (execAll sha256Crypto asciiTables integerStore rs₁).db.parameters r := by
  intro rs₁ r rs₂ heq
  rcases rs₁ with _ | ⟨r₁, _ | ⟨r₂, rs₁⟩⟩
  · obtain rfl := (List.cons.inj heq).1
    exact fun _ _ _ _ _ => h
  · obtain rfl := (List.cons.inj (List.cons.inj heq).2).1
    trivial
  · simp [stageAndApplyInteger] at heq

theorem values_wellFormed_sample :
    AllWellFormed asciiTables
      (execAll sha256Crypto asciiTables integerStore (stageAndApplyInteger "-8")).db.parameters := by
  have hall : (chars "-8").all (fun c => !asciiTables.isDigit c || (decimalDigit c).isSome) = true :=
    by decide +kernel
  refine values_wellFormed sha256Crypto integerStore_wellFormed
    (stagesPlainDigits_sample ⟨by decide +kernel, fun c hc hdigit => ?_⟩)
  have hc := List.all_eq_true.mp hall c hc
  simpa only [hdigit, Bool.not_true, Bool.false_or] using hc

/-- A second minus sign is staged and goes live. -/
theorem doubled_sign_goes_live :
    AllWellFormed asciiTables integerStore.db.parameters ∧
      ¬ AllWellFormed asciiTables
        (execAll sha256Crypto asciiTables integerStore
          (stageAndApplyInteger "--5")).db.parameters := by
  refine ⟨integerStore_wellFormed, fun h => ?_⟩
  have hfinal : { integerParameter with activeValue := "--5" } ∈
      (execAll sha256Crypto asciiTables integerStore
        (stageAndApplyInteger "--5")).db.parameters.parameters.rows := by
    decide +kernel
  have hinteger : IsInteger (chars "--5") := (h _ hfinal).active.integer rfl
  have hplain : PlainDigits asciiTables (chars "--5") := hinteger.plainDigits rfl
  exact hplain.sign (by decide +kernel)

end NexusEngine.ParameterTypes
