import NexusEngine.ComplianceService

/-!
# The score of an assessment

The score is the share of the applicable controls, a mapped one weighing one and a partially
mapped one a half, in percent and rounded. So it lies between 0 and 100, does not depend on the
order of the mappings, and never falls when a control gains.
-/

namespace NexusEngine.AssessmentScores

open TransactionalRequests KeyedTables StoredColumns CalendarTime Database WeightedShares
  ComplianceService
open ConfigurationTable (maxInteger)
open EngineService (roundTo)

/-! ## Rounding to decimals -/

theorem roundTo_eq_nearest (digits : ℕ) (x : ℚ) :
    roundTo digits x = (nearest (x * 10 ^ digits) : ℚ) / 10 ^ digits := by
  rw [roundTo, nearest]

theorem roundTo_mono (digits : ℕ) {x y : ℚ} (h : x ≤ y) : roundTo digits x ≤ roundTo digits y := by
  have hpow : (0 : ℚ) < 10 ^ digits := by positivity
  have hscaled : x * 10 ^ digits ≤ y * 10 ^ digits := mul_le_mul_of_nonneg_right h hpow.le
  have hnearest : (nearest (x * 10 ^ digits) : ℚ) ≤ nearest (y * 10 ^ digits) := by
    exact_mod_cast nearest_mono hscaled
  rw [roundTo_eq_nearest, roundTo_eq_nearest]
  exact div_le_div_of_nonneg_right hnearest hpow.le

/-- A whole number is not rounded. -/
theorem roundTo_natCast (digits n : ℕ) : roundTo digits n = n := by
  have hscaled : (n : ℚ) * 10 ^ digits = ((n * 10 ^ digits : ℤ) : ℚ) := by push_cast; rfl
  rw [roundTo_eq_nearest, hscaled, nearest_intCast]
  push_cast
  exact mul_div_cancel_right₀ _ (by positivity)

/-! ## The score as a share -/

def isApplicable (m : ControlMapping) : Bool := m.status ≠ .notApplicable

def controlWeight (m : ControlMapping) : ℚ :=
  match m.status with
  | .mapped => 1
  | .partiallyMapped => partialWeight
  | .gap => 0
  | .notApplicable => 0

theorem controlWeight_nonneg (m : ControlMapping) : 0 ≤ controlWeight m := by
  unfold controlWeight
  split <;> norm_num [partialWeight]

theorem controlWeight_le_one (m : ControlMapping) : controlWeight m ≤ 1 := by
  unfold controlWeight
  split <;> norm_num [partialWeight]

/-- The controls that are left out of the sum weigh nothing. -/
theorem weightedControls_eq (mappings : List ControlMapping) :
    weightedControls mappings = (mappings.map controlWeight).sum := by
  induction mappings with
  | nil => rfl
  | cons m mappings ih =>
    rw [List.map_cons, List.sum_cons, ← ih]
    cases hstatus : m.status <;> simp [weightedControls, controlWeight, hstatus]

theorem coveragePercent_eq (digits : ℕ) (mappings : List ControlMapping) :
    coveragePercent digits mappings =
      roundTo digits (share isApplicable controlWeight mappings * 100) := by
  have hfilter : applicableMappings mappings = mappings.filter isApplicable := rfl
  simp only [coveragePercent, hfilter, weightedControls_eq, share]
  split
  · next hempty =>
    have hzero := roundTo_natCast digits 0
    simp only [Nat.cast_zero] at hzero
    simp [List.isEmpty_iff.mp hempty, hzero]
  · rfl

/-- A larger share makes a larger percentage. -/
theorem coveragePercent_mono (digits : ℕ) {mappings mappings' : List ControlMapping}
    (h : share isApplicable controlWeight mappings ≤ share isApplicable controlWeight mappings') :
    coveragePercent digits mappings ≤ coveragePercent digits mappings' := by
  rw [coveragePercent_eq, coveragePercent_eq]
  exact roundTo_mono digits (by linarith)

theorem coveragePercent_congr (digits : ℕ) {mappings mappings' : List ControlMapping}
    (h : share isApplicable controlWeight mappings = share isApplicable controlWeight mappings') :
    coveragePercent digits mappings = coveragePercent digits mappings' := by
  rw [coveragePercent_eq, coveragePercent_eq, h]

theorem coveragePercent_nonneg (digits : ℕ) (mappings : List ControlMapping) :
    0 ≤ coveragePercent digits mappings := by
  have hshare : 0 ≤ share isApplicable controlWeight mappings :=
    share_nonneg controlWeight_nonneg mappings
  have hrounded := roundTo_mono digits
    (show ((0 : ℕ) : ℚ) ≤ share isApplicable controlWeight mappings * 100 by
      push_cast; linarith)
  rw [roundTo_natCast] at hrounded
  rw [coveragePercent_eq]
  exact_mod_cast hrounded

theorem coveragePercent_le (digits : ℕ) (mappings : List ControlMapping) :
    coveragePercent digits mappings ≤ 100 := by
  have hshare : share isApplicable controlWeight mappings ≤ 1 :=
    share_le_one controlWeight_le_one mappings
  have hrounded := roundTo_mono digits
    (show share isApplicable controlWeight mappings * 100 ≤ ((100 : ℕ) : ℚ) by
      push_cast; linarith)
  rw [roundTo_natCast] at hrounded
  rw [coveragePercent_eq]
  exact_mod_cast hrounded

theorem coveragePercent_full (digits : ℕ) {mappings : List ControlMapping}
    (hsome : ∃ m ∈ mappings, m.status ≠ .notApplicable)
    (h : ∀ m ∈ mappings, m.status ≠ .notApplicable → m.status = .mapped) :
    coveragePercent digits mappings = 100 := by
  have hshare : share isApplicable controlWeight mappings = 1 := by
    apply share_eq_one
    · obtain ⟨m, hm, happlicable⟩ := hsome
      exact ⟨m, hm, decide_eq_true happlicable⟩
    · intro m hm happlicable
      have hmapped := h m hm (of_decide_eq_true happlicable)
      simp [controlWeight, hmapped]
  have hround := roundTo_natCast digits 100
  rw [coveragePercent_eq, hshare]
  simpa using hround

/-- An applicable control gains: a gap is covered in part, or a part in full. -/
inductive Raised : ControlStatus → ControlStatus → Prop where
  | partly : Raised .gap .partiallyMapped
  | fully : Raised .partiallyMapped .mapped

theorem coveragePercent_raised (digits : ℕ) (front back : List ControlMapping) {m : ControlMapping}
    {status : ControlStatus} (h : Raised m.status status) :
    coveragePercent digits (front ++ m :: back) ≤
      coveragePercent digits (front ++ { m with status := status } :: back) := by
  apply coveragePercent_mono
  apply share_raise
  · cases hold : m.status <;> rw [hold] at h <;> cases h <;> simp [isApplicable, hold]
  · cases hold : m.status <;> rw [hold] at h <;> cases h <;>
      norm_num [controlWeight, hold, partialWeight]

/-- Every mapping has one of the four statuses. -/
theorem length_eq_countStatus (mappings : List ControlMapping) :
    mappings.length = countStatus .mapped mappings + countStatus .gap mappings +
      countStatus .partiallyMapped mappings + countStatus .notApplicable mappings := by
  induction mappings with
  | nil => rfl
  | cons m mappings ih =>
    simp only [countStatus, List.countP_cons, List.length_cons] at ih ⊢
    cases m.status <;> simp <;> omega

/-! ## What an assessment stores -/

/-- An assessment that can be completed: it is open, and its framework has no more mappings than
an `Integer` column counts. -/
structure Completable (s : ComplianceStore) (a : ComplianceAssessment)
    (framework : ComplianceFramework) : Prop where
  found : s.assessments.find? a.id = some a
  opened : a.status ≠ .completed
  foundFramework : s.frameworks.find? a.frameworkId = some framework
  counted : (s.controlMappings.rows.filter fun m => m.frameworkId = framework.id).length ≤ maxInteger

variable {before : Uuid → Uuid → Bool} {now : Instant}

theorem mappingsOf_perm (s : ComplianceStore) (before : Uuid → Uuid → Bool) (frameworkId : Uuid) :
    (s.mappingsOf before frameworkId).Perm
      (s.controlMappings.rows.filter fun m => m.frameworkId = frameworkId) :=
  (s.controlMappings.scan_perm before).filter _

theorem bound_eq_some {completion completion' : AssessmentCompletion} :
    completion.bound = some completion' ↔ (completion.totalControls ≤ maxInteger ∧
      completion.mappedControls ≤ maxInteger ∧ completion.gapControls ≤ maxInteger) ∧
        completion' = completion := by
  simp only [AssessmentCompletion.bound, Option.ite_none_left_eq_some, not_or, not_lt,
    Option.some.injEq]
  exact and_congr_right fun _ => eq_comm

theorem updateAssessment_eq_some {s s' : ComplianceStore} {id : Uuid}
    {completion : AssessmentCompletion} (h : updateAssessment s id completion = some s') :
    completion.bound = some completion ∧ ∃ assessments,
      s.assessments.update id completion.apply (fun _ => rfl) = some assessments ∧
        s' = { s with assessments := assessments } := by
  obtain ⟨bound, hbound, h⟩ := Option.bind_eq_some_iff.mp h
  obtain ⟨assessments, hupdate, hs'⟩ := Option.bind_eq_some_iff.mp h
  have hsame : bound = completion := (bound_eq_some.mp hbound).2
  rw [hsame] at hbound hupdate
  exact ⟨hbound, assessments, hupdate, (Option.some.inj hs').symm⟩

/-- The counts of a list are no larger than its length. -/
theorem assessmentCompletion_bound {mappings : List ControlMapping} :
    (assessmentCompletion now mappings).bound = some (assessmentCompletion now mappings) ↔
      mappings.length ≤ maxInteger := by
  have hmapped : countStatus .mapped mappings ≤ mappings.length := List.countP_le_length
  have hgap : countStatus .gap mappings ≤ mappings.length := List.countP_le_length
  rw [bound_eq_some]
  simp only [assessmentCompletion, and_true]
  omega

/-- A completion is accepted where its counts fit. -/
theorem updateAssessment_accepts {s : ComplianceStore} {a : ComplianceAssessment}
    {completion : AssessmentCompletion} (hbound : completion.bound = some completion)
    (hfound : s.assessments.find? a.id = some a) :
    ∃ s', updateAssessment s a.id completion = some s' := by
  have haccepts : ∃ assessments,
      s.assessments.update a.id completion.apply (fun _ => rfl) = some assessments :=
    Table.update_isSome hfound
  obtain ⟨assessments, hupdate⟩ := haccepts
  exact ⟨{ s with assessments := assessments }, by simp [updateAssessment, hbound, hupdate]⟩

/-- The row and the framework are read back. -/
theorem getAssessment_wp {S : StatementSemantics ComplianceStore ComplianceStatement ServiceError}
    {post : Except ServiceError AssessmentRead → ComplianceStore → ComplianceStore → ℕ → Prop}
    {durable work : ComplianceStore} {n : ℕ} {assessmentId : Uuid} {a : ComplianceAssessment}
    {framework : ComplianceFramework} (hfound : work.assessments.find? assessmentId = some a)
    (hframework : work.frameworks.find? a.frameworkId = some framework)
    (h : post (.ok (assessmentToRead framework a)) durable work n) :
    (getAssessment assessmentId).wp S post durable work n := by
  simp only [getAssessment, getAssessmentOrm, Request.wp_bind, Request.wp_select, Request.wp_found,
    hfound]
  constructor
  · intro hnone
    nomatch hnone
  · intro row hrow
    cases hrow
    simp only [hframework]
    constructor
    · intro hnone
      nomatch hnone
    · intro row hrow
      cases hrow
      exact Request.wp_return h

/-- What a call of `complete_assessment` ends with. -/
def Completes (before : Uuid → Uuid → Bool) (now : Instant) (assessmentId : Uuid)
    (s : ComplianceStore) (result : Except ServiceError AssessmentRead) (s' : ComplianceStore) :
    Prop :=
  match result with
  | .ok read => ∃ a framework, a.id = assessmentId ∧ Completable s a framework ∧
      let completion := assessmentCompletion now (s.mappingsOf before framework.id)
      read = assessmentToRead framework (completion.apply a) ∧
        (∀ id, s'.assessments.find? id =
          if id = assessmentId then some (completion.apply a) else s.assessments.find? id) ∧
        s'.controlMappings = s.controlMappings ∧ s'.frameworks = s.frameworks
  | .error _ => s' = s ∧ ∀ a framework, a.id = assessmentId → ¬ Completable s a framework

theorem completeAssessment_wp {s : ComplianceStore} {n : ℕ} {assessmentId : Uuid} :
    (completeAssessment before now assessmentId).wp complianceTables
      (fun result durable _ _ => Completes before now assessmentId s result durable) s s n := by
  have refused : ∀ error, (∀ a framework, a.id = assessmentId → ¬ Completable s a framework) →
      Completes before now assessmentId s (.error error) s := fun _ h => ⟨rfl, h⟩
  simp only [completeAssessment, getAssessmentOrm, getFrameworkOrm, Request.wp_bind,
    Request.wp_select, Request.wp_found, Request.wp_ensure, not_not]
  constructor
  · intro hnone
    apply refused
    rintro a framework rfl h
    rw [h.found] at hnone
    cases hnone
  intro a hfound
  obtain rfl : a.id = assessmentId := (Table.find?_eq_some.mp hfound).2
  have same : ∀ a', a'.id = a.id → s.assessments.find? a'.id = some a' → a' = a := by
    intro a' hid hfound'
    rw [hid, hfound] at hfound'
    exact (Option.some.inj hfound').symm
  constructor
  · intro hcompleted
    apply refused
    intro a' framework hid h
    rw [same a' hid h.found] at h
    exact h.opened hcompleted
  intro hopened
  constructor
  · intro hnone
    apply refused
    intro a' framework hid h
    rw [same a' hid h.found] at h
    rw [h.foundFramework] at hnone
    cases hnone
  intro framework hframework
  have hlength := (mappingsOf_perm s before framework.id).length_eq
  rw [Request.wp_send, StatementSemantics.applyAll_singleton]
  constructor
  · intro hrejected
    apply refused
    intro a' framework' hid h
    rw [same a' hid h.found] at h
    obtain rfl : framework' = framework :=
      Option.some.inj (h.foundFramework.symm.trans hframework)
    have hbound : (assessmentCompletion now (s.mappingsOf before framework'.id)).bound =
        some (assessmentCompletion now (s.mappingsOf before framework'.id)) :=
      assessmentCompletion_bound.mpr (hlength.trans_le h.counted)
    obtain ⟨s', hs'⟩ := updateAssessment_accepts hbound hfound
    cases hs'.symm.trans hrejected
  · intro s' hs'
    obtain ⟨hbound, assessments, hupdate, rfl⟩ := updateAssessment_eq_some hs'
    have hcounted := hlength.symm.trans_le (assessmentCompletion_bound.mp hbound)
    have hrows : ∀ id, assessments.find? id = if id = a.id then
        some ((assessmentCompletion now (s.mappingsOf before framework.id)).apply a)
        else s.assessments.find? id := by
      intro id
      exact Table.find?_update_of_find? hupdate hfound id
    have hrow := hrows a.id
    rw [if_pos rfl] at hrow
    apply Request.wp_commitTransaction
    refine getAssessment_wp hrow hframework ?_
    exact ⟨a, framework, rfl, ⟨hfound, hopened, hframework, hcounted⟩, rfl, hrows, rfl, rfl⟩

/-- The score that a completed assessment keeps is bounded, does not depend on the order of the
mappings or on those that are not applicable, never falls when a control gains, and is 100 where
all applicable controls are mapped. -/
theorem assessment_scores :
    (∀ (before : Uuid → Uuid → Bool) (now : Instant) (assessmentId : Uuid)
      (s : Store ComplianceStore),
      Completes before now assessmentId s.db
        ((completeAssessment before now assessmentId).serial complianceTables s.db s.db
          s.sequence).result
        (s.exec complianceTables (completeAssessment before now assessmentId)).db) ∧
    (∀ mappings, 0 ≤ assessmentScore mappings ∧ assessmentScore mappings ≤ 100) ∧
    (∀ mappings mappings' : List ControlMapping, mappings.Perm mappings' →
      assessmentScore mappings = assessmentScore mappings') ∧
    (∀ (front back : List ControlMapping) (m : ControlMapping) (status : ControlStatus),
      Raised m.status status →
      assessmentScore (front ++ m :: back) ≤
        assessmentScore (front ++ { m with status := status } :: back)) ∧
    (∀ (front back : List ControlMapping) (m : ControlMapping), m.status = .notApplicable →
      assessmentScore (front ++ m :: back) = assessmentScore (front ++ back)) ∧
    (∀ mappings : List ControlMapping, (∃ m ∈ mappings, m.status ≠ .notApplicable) →
      (∀ m ∈ mappings, m.status ≠ .notApplicable → m.status = .mapped) →
      assessmentScore mappings = 100) ∧
    ∀ (now : Instant) (mappings : List ControlMapping),
      (assessmentCompletion now mappings).score = assessmentScore mappings ∧
      (assessmentCompletion now mappings).totalControls =
        (assessmentCompletion now mappings).mappedControls +
          (assessmentCompletion now mappings).gapControls +
          countStatus .partiallyMapped mappings + countStatus .notApplicable mappings := by
  refine ⟨fun before now assessmentId s => ?_, fun mappings => ?_, fun mappings mappings' h => ?_,
    fun front back m status h => coveragePercent_raised 1 front back h,
    fun front back m h => ?_, fun mappings hsome h => coveragePercent_full 1 hsome h,
    fun now mappings => ⟨rfl, length_eq_countStatus mappings⟩⟩
  · exact (Request.serial_sound completeAssessment_wp).elim fun _ h => h
  · exact ⟨coveragePercent_nonneg 1 mappings, coveragePercent_le 1 mappings⟩
  · exact coveragePercent_congr 1 (share_perm h)
  · exact coveragePercent_congr 1 (share_skip (by simp [isApplicable, h]) front back)

/-- A control of the domain `domain`. -/
def sampleControl (id : Uuid) (domain : String) (status : ControlStatus) : ControlMapping :=
  ⟨id, 1, domain, "", "", status⟩

def sampleMappings : List ControlMapping :=
  [sampleControl 1 "access" .mapped, sampleControl 2 "audit" .partiallyMapped,
    sampleControl 3 "backup" .gap]

/-- An open assessment of three controls. -/
def sampleCompliance : ComplianceStore where
  frameworks := ⟨[⟨1, .soc2⟩], by decide⟩
  controlMappings := ⟨sampleMappings, by decide⟩
  assessments := ⟨[⟨9, 1, .inProgress, "eve", 5, none, none, none, none, none, none⟩], by decide⟩

theorem assessment_scores_sample :
    let store : Store ComplianceStore := ⟨sampleCompliance, 1⟩
    let call := completeAssessment (fun a b => a ≤ b) 7 9
    Completes (fun a b => a ≤ b) 7 9 store.db
        (call.serial complianceTables store.db store.db 1).result
        (store.exec complianceTables call).db ∧
      assessmentScore sampleMappings = 50 ∧
      assessmentScore sampleMappings.reverse = 50 ∧
      50 ≤ assessmentScore (sampleMappings.take 2 ++ [sampleControl 3 "backup" .partiallyMapped]) ∧
      assessmentScore (sampleMappings ++ [sampleControl 4 "cards" .notApplicable]) = 50 ∧
      assessmentScore (sampleMappings.take 1) = 100 := by
  intro store call
  obtain ⟨hcompletes, -, hperm, hraised, hskip, hfull, -⟩ := assessment_scores
  have hscore : assessmentScore sampleMappings = 50 := by decide +kernel
  refine ⟨hcompletes _ _ _ store, hscore, ?_, ?_, ?_, ?_⟩
  · rw [← hscore]
    exact (hperm _ _ sampleMappings.reverse_perm.symm).symm
  · rw [← hscore]
    exact hraised (sampleMappings.take 2) [] (sampleControl 3 "backup" .gap) _ .partly
  · rw [← hscore]
    exact hskip sampleMappings [] (sampleControl 4 "cards" .notApplicable) rfl
  · exact hfull _ ⟨_, List.mem_cons_self, by decide⟩ (by decide)

end NexusEngine.AssessmentScores
