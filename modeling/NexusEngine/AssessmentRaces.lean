import NexusEngine.SessionInvariants
import NexusEngine.AssessmentScores

/-!
# Assessments under interference

Two sessions can complete one assessment at once: both find it open, and the second overwrites the
date of the first. Nothing else depends on the race. The controls of a framework do not change while
the service runs, so that every completion stores the same counts and the same score.
-/

namespace NexusEngine.AssessmentRaces

open TransactionalRequests ReadCommittedSessions StoredColumns CalendarTime KeyedTables Database
  ComplianceService AssessmentScores

/-! ## What an assessment stores -/

/-- The controls of a framework. -/
def controlsOf (s : ComplianceStore) (frameworkId : Uuid) : List ControlMapping :=
  s.controlMappings.rows.filter fun m => m.frameworkId = frameworkId

/-- An assessment without results. -/
structure Unscored (a : ComplianceAssessment) : Prop where
  status : a.status = .inProgress
  completedAt : a.completedAt = none
  score : a.score = none
  totalControls : a.totalControls = none
  mappedControls : a.mappedControls = none
  gapControls : a.gapControls = none

/-- A completed assessment with the results of its framework. -/
structure Scored (s : ComplianceStore) (a : ComplianceAssessment) : Prop where
  status : a.status = .completed
  completedAt : a.completedAt.isSome = true
  score : a.score = some (assessmentScore (controlsOf s a.frameworkId))
  totalControls : a.totalControls = some (controlsOf s a.frameworkId).length
  mappedControls : a.mappedControls = some (countStatus .mapped (controlsOf s a.frameworkId))
  gapControls : a.gapControls = some (countStatus .gap (controlsOf s a.frameworkId))

/-- The frameworks and their controls are those of before, and every assessment is open or has the
results of its framework. -/
structure Consistent (s₀ s : ComplianceStore) : Prop where
  frameworks : s.frameworks = s₀.frameworks
  controlMappings : s.controlMappings = s₀.controlMappings
  assessments : ∀ a ∈ s.assessments.rows, Unscored a ∨ Scored s₀ a

/-- The same assessment, which may have been completed since. -/
structure Later (a a' : ComplianceAssessment) : Prop where
  id : a'.id = a.id
  frameworkId : a'.frameworkId = a.frameworkId
  startedBy : a'.startedBy = a.startedBy
  startedAt : a'.startedAt = a.startedAt
  notes : a'.notes = a.notes
  completed : a.status = .completed → a'.status = .completed

/-- No assessment vanishes, and none is opened again. -/
def Continues (s s' : ComplianceStore) : Prop :=
  ∀ a ∈ s.assessments.rows, ∃ a' ∈ s'.assessments.rows, Later a a'

/-! ## Statements -/

section

variable {s s' s₀ a b c : ComplianceStore}

/-- What a statement does to the assessments. -/
inductive Change (w : ComplianceStatement) (s s' : ComplianceStore) : Prop where
  | inserted (a : ComplianceAssessment) (startedBy : String) (isInsert : w = .insert a)
      (bound : varchar 255 a.startedBy = some startedBy)
      (rows : s'.assessments.rows = s.assessments.rows ++ [{ a with startedBy := startedBy }])
  | completed (id : Uuid) (completion : AssessmentCompletion)
      (isComplete : w = .complete id completion)
      (rows : s'.assessments.rows =
        s.assessments.rows.map fun a => if a.id = id then completion.apply a else a)

/-- The step lemma of the statements. -/
theorem apply_change {w : ComplianceStatement} (h : complianceTables.apply w s = some s') :
    s'.frameworks = s.frameworks ∧ s'.controlMappings = s.controlMappings ∧ Change w s s' := by
  cases w with
  | insert a =>
    obtain ⟨startedBy, hbound, h⟩ := Option.bind_eq_some_iff.mp h
    obtain ⟨_, -, h⟩ := Option.bind_eq_some_iff.mp h
    obtain ⟨assessments, hinsert, h⟩ := Option.bind_eq_some_iff.mp h
    cases h
    exact ⟨rfl, rfl, .inserted a startedBy rfl hbound (Table.insert_eq_some.mp hinsert).2⟩
  | complete id completion =>
    obtain ⟨-, assessments, hupdate, rfl⟩ := updateAssessment_eq_some h
    exact ⟨rfl, rfl, .completed id completion rfl (Table.update_eq_some.mp hupdate).2⟩

theorem Later.refl (a : ComplianceAssessment) : Later a a :=
  ⟨rfl, rfl, rfl, rfl, rfl, fun h => h⟩

theorem Later.trans {a b c : ComplianceAssessment} (h : Later a b) (h' : Later b c) :
    Later a c where
  id := h'.id.trans h.id
  frameworkId := h'.frameworkId.trans h.frameworkId
  startedBy := h'.startedBy.trans h.startedBy
  startedAt := h'.startedAt.trans h.startedAt
  notes := h'.notes.trans h.notes
  completed hcompleted := h'.completed (h.completed hcompleted)

theorem later_apply (completion : AssessmentCompletion) (a : ComplianceAssessment) :
    Later a (completion.apply a) := ⟨rfl, rfl, rfl, rfl, rfl, fun _ => rfl⟩

/-- A completion keeps the order of two rows of one assessment. -/
theorem Later.completed_mono {id : Uuid} {completion : AssessmentCompletion}
    {a b : ComplianceAssessment} (h : Later a b) :
    Later (if a.id = id then completion.apply a else a)
      (if b.id = id then completion.apply b else b) := by
  rw [h.id]
  split
  · exact ⟨h.id, h.frameworkId, h.startedBy, h.startedAt, h.notes, fun _ => rfl⟩
  · exact h

theorem Continues.trans (h : Continues a b) (h' : Continues b c) : Continues a c := by
  intro x hx
  obtain ⟨y, hy, hxy⟩ := h x hx
  obtain ⟨z, hz, hyz⟩ := h' y hy
  exact ⟨z, hz, hxy.trans hyz⟩

theorem Change.continues {w : ComplianceStatement} (h : Change w s s') : Continues s s' := by
  intro a ha
  cases h with
  | inserted _ _ _ _ rows => exact ⟨a, rows ▸ List.mem_append_left _ ha, Later.refl a⟩
  | completed id completion _ rows =>
    refine ⟨_, rows ▸ List.mem_map_of_mem ha, ?_⟩
    split
    · exact later_apply completion a
    · exact Later.refl a

theorem Change.mono {w : ComplianceStatement} {a b a' b' : ComplianceStore}
    (hab : Continues a b) (ha : Change w a a') (hb : Change w b b') : Continues a' b' := by
  intro x' hx'
  cases ha with
  | inserted r startedBy isInsert bound rows =>
    rw [rows] at hx'
    rcases List.mem_append.mp hx' with hx | hx
    · exact hab.trans hb.continues x' hx
    · cases List.mem_singleton.mp hx
      cases hb with
      | inserted r₂ startedBy₂ isInsert₂ bound₂ rows₂ =>
        cases isInsert.symm.trans isInsert₂
        cases bound.symm.trans bound₂
        exact ⟨_, rows₂ ▸ List.mem_append_right _ (List.mem_singleton_self _), Later.refl _⟩
      | completed _ _ isComplete _ => cases isInsert.symm.trans isComplete
  | completed id completion isComplete rows =>
    rw [rows] at hx'
    obtain ⟨x, hx, rfl⟩ := List.mem_map.mp hx'
    obtain ⟨y, hy, hxy⟩ := hab x hx
    cases hb with
    | inserted _ _ isInsert _ _ => cases isComplete.symm.trans isInsert
    | completed id₂ completion₂ isComplete₂ rows₂ =>
      cases isComplete.symm.trans isComplete₂
      exact ⟨_, rows₂ ▸ List.mem_map_of_mem hy, hxy.completed_mono⟩

theorem growth : Growth complianceTables Continues where
  refl _ a ha := ⟨a, ha, Later.refl a⟩
  trans _ _ _ := Continues.trans
  grows _ _ _ h := (apply_change h).2.2.continues
  mono _ _ _ _ _ hab ha hb := Change.mono hab (apply_change ha).2.2 (apply_change hb).2.2

/-! ## Completions -/

/-- The results do not depend on the order of the controls. -/
theorem scored_apply {mappings : List ControlMapping} {a : ComplianceAssessment} {now : Instant}
    (h : mappings.Perm (controlsOf s₀ a.frameworkId)) :
    Scored s₀ ((assessmentCompletion now mappings).apply a) where
  status := rfl
  completedAt := rfl
  score := congrArg some (coveragePercent_congr 1 (WeightedShares.share_perm h))
  totalControls := congrArg some h.length_eq
  mappedControls := congrArg some (h.countP_eq _)
  gapControls := congrArg some (h.countP_eq _)

theorem Consistent.insert {a : ComplianceAssessment} (h : Consistent s₀ s) (ha : Unscored a)
    (happly : complianceTables.apply (.insert a) s = some s') : Consistent s₀ s' := by
  obtain ⟨hframeworks, hmappings, hchange⟩ := apply_change happly
  refine ⟨hframeworks.trans h.frameworks, hmappings.trans h.controlMappings, ?_⟩
  intro row hrow
  cases hchange with
  | inserted r startedBy isInsert _ rows =>
    cases isInsert
    rw [rows] at hrow
    rcases List.mem_append.mp hrow with hrow | hrow
    · exact h.assessments row hrow
    · cases List.mem_singleton.mp hrow
      exact .inl ⟨ha.status, ha.completedAt, ha.score, ha.totalControls, ha.mappedControls,
        ha.gapControls⟩
  | completed _ _ isComplete _ => cases isComplete

/-- The assessment is in the table, for its framework. -/
def Known (a : ComplianceAssessment) (s : ComplianceStore) : Prop :=
  ∃ a' ∈ s.assessments.rows, a'.id = a.id ∧ a'.frameworkId = a.frameworkId

theorem stable_known (a : ComplianceAssessment) : Stable Continues (Known a) := by
  intro s s' hcontinues hknown
  obtain ⟨x, hx, hid, hframework⟩ := hknown
  obtain ⟨y, hy, hxy⟩ := hcontinues x hx
  exact ⟨y, hy, hxy.id.trans hid, hxy.frameworkId.trans hframework⟩

theorem Consistent.complete {a : ComplianceAssessment} {mappings : List ControlMapping}
    {now : Instant} (h : Consistent s₀ s) (hknown : Known a s)
    (hmappings : mappings.Perm (controlsOf s₀ a.frameworkId))
    (happly : complianceTables.apply (.complete a.id (assessmentCompletion now mappings)) s =
      some s') : Consistent s₀ s' := by
  obtain ⟨hframeworks, hcontrols, hchange⟩ := apply_change happly
  refine ⟨hframeworks.trans h.frameworks, hcontrols.trans h.controlMappings, ?_⟩
  intro row hrow
  cases hchange with
  | inserted _ _ isInsert _ _ => cases isInsert
  | completed id completion isComplete rows =>
    cases isComplete
    rw [rows] at hrow
    obtain ⟨x, hx, rfl⟩ := List.mem_map.mp hrow
    by_cases hid : x.id = a.id
    · -- the row that the update finds belongs to the framework that was read
      obtain ⟨y, hy, hyid, hframework⟩ := hknown
      obtain rfl : x = y := s.assessments.eq_of_key_eq hx hy (hid.trans hyid.symm)
      rw [if_pos hid]
      exact .inr (scored_apply (hframework ▸ hmappings))
    · rw [if_neg hid]
      exact h.assessments x hx

end

/-! ## Requests -/

inductive AssessmentRequest where
  | startAssessment (now : Instant) (newId frameworkId : Uuid) (startedBy : String)
  | completeAssessment (before : Uuid → Uuid → Bool) (now : Instant) (assessmentId : Uuid)
  | getAssessment (assessmentId : Uuid)

def AssessmentRequest.request : AssessmentRequest → ComplianceRequest AssessmentRead
  | startAssessment now newId frameworkId startedBy =>
    ComplianceService.startAssessment now newId frameworkId startedBy
  | completeAssessment before now assessmentId =>
    ComplianceService.completeAssessment before now assessmentId
  | getAssessment assessmentId => ComplianceService.getAssessment assessmentId

section

variable {s₀ : ComplianceStore} {K : ComplianceStore → Prop}

theorem getAssessment_consistent (hstable : Stable Continues K) (assessmentId : Uuid) :
    Safe complianceTables Continues (Consistent s₀) K (getAssessment assessmentId)
      fun _ _ => True := by
  have hread : ∀ {α : Type} (read : ComplianceStore → Option α) (error : ServiceError),
      Safe complianceTables Continues (Consistent s₀) K
        (Request.select read >>= fun row => Request.found row error) fun _ => K := by
    intro α read error
    apply (Safe.of_readsOnly growth hstable (Request.readsOnly_select read)).bind growth
    intro row
    exact (Safe.found growth).mono (fun _ hk => hk) fun _ _ hk => hk.1
  apply (hread _ _).bind growth
  intro assessment
  apply (Safe.of_readsOnly growth hstable (Request.readsOnly_select _)).bind growth
  intro row
  apply (Safe.found growth).bind growth
  intro framework
  exact Safe.done growth fun _ _ => trivial

theorem startAssessment_consistent (now : Instant) (newId frameworkId : Uuid)
    (startedBy : String) :
    Safe complianceTables Continues (Consistent s₀) (fun _ => True)
      (startAssessment now newId frameworkId startedBy) fun _ _ => True := by
  have hframework : Safe complianceTables Continues (Consistent s₀) (fun _ => True)
      (getFrameworkOrm frameworkId) fun _ _ => True := by
    apply (Safe.select growth _).bind growth
    intro row
    exact (Safe.found growth).mono (fun _ hk => hk) fun _ _ _ => trivial
  apply hframework.bind growth
  intro framework
  apply (Safe.send growth stable_true _).bind growth
  · intro _
    apply (Safe.commit growth stable_true).bind growth
    intro _
    exact getAssessment_consistent stable_true newId
  · intro mid after _ _ hmid happly
    rw [StatementSemantics.applyAll_singleton] at happly
    exact hmid.insert ⟨rfl, rfl, rfl, rfl, rfl, rfl⟩ happly

theorem completeAssessment_consistent (before : Uuid → Uuid → Bool) (now : Instant)
    (assessmentId : Uuid) :
    Safe complianceTables Continues (Consistent s₀) (fun _ => True)
      (completeAssessment before now assessmentId) fun _ _ => True := by
  have hassessment : Safe complianceTables Continues (Consistent s₀) (fun _ => True)
      (getAssessmentOrm assessmentId) fun a => Known a := by
    apply (Safe.select growth _).bind growth
    intro row
    apply (Safe.found growth).mono fun _ hk => hk
    intro a mid hread
    obtain ⟨⟨view, -, -, hcontinues, rfl⟩, hfound⟩ := hread
    obtain ⟨x, hx, hax⟩ := hcontinues a (Table.find?_eq_some.mp hfound).1
    exact ⟨x, hx, hax.id, hax.frameworkId⟩
  apply hassessment.bind growth
  intro a
  have hknown := stable_known a
  apply Safe.bind growth ((Safe.ensure growth).mono (fun _ hk => hk) fun _ _ hk => hk.1)
  intro _
  have hframework : Safe complianceTables Continues (Consistent s₀) (Known a)
      (getFrameworkOrm a.frameworkId) fun framework s =>
        Known a s ∧ framework.id = a.frameworkId := by
    apply (Safe.select growth _).bind growth
    intro row
    apply (Safe.found growth).mono fun _ hk => hk
    intro framework mid hread
    obtain ⟨⟨view, -, hk, hcontinues, rfl⟩, hfound⟩ := hread
    exact ⟨hknown view mid hcontinues hk, (Table.find?_eq_some.mp hfound).2⟩
  apply hframework.bind growth
  intro framework
  apply Safe.fact growth
  intro hid
  have hmappings : Safe complianceTables Continues (Consistent s₀) (Known a)
      (Request.select fun s : ComplianceStore => s.mappingsOf before framework.id)
      fun mappings s => Known a s ∧ mappings.Perm (controlsOf s₀ a.frameworkId) := by
    apply (Safe.select growth _).mono fun _ hk => hk
    intro mappings mid hread
    obtain ⟨view, hview, hk, hcontinues, rfl⟩ := hread
    have hperm := mappingsOf_perm view before framework.id
    rw [hview.controlMappings, hid] at hperm
    exact ⟨hknown view mid hcontinues hk, hid ▸ hperm⟩
  apply hmappings.bind growth
  intro mappings
  apply Safe.fact growth
  intro hperm
  apply (Safe.send growth hknown _).bind growth
  · intro _
    apply (Safe.commit growth hknown).bind growth
    intro _
    exact getAssessment_consistent hknown a.id
  · intro mid after _ hk hmid happly
    rw [StatementSemantics.applyAll_singleton] at happly
    exact hmid.complete hk hperm happly

end

/-! ## Interleavings -/

/-- In every interleaving the frameworks and their controls stay, every assessment is open without
results or completed with the results of its framework, and from one state to a later one no
assessment vanishes, changes its framework or its start, or is opened again: once it is completed
its counts and its score stay. -/
theorem assessments_scored_once {s₀ : ComplianceStore}
    (hstart : ∀ a ∈ s₀.assessments.rows, Unscored a ∨ Scored s₀ a) {n : ℕ}
    (rs : List AssessmentRequest)
    {σ : Server ComplianceStore ComplianceStatement ServiceError AssessmentRead}
    (run : Server.Reaches complianceTables (fun _ _ => True)
      (start s₀ n (rs.map AssessmentRequest.request)) σ) :
    Consistent s₀ σ.committed ∧ ∀ σ', Server.Reaches complianceTables (fun _ _ => True) σ σ' →
      ∀ a ∈ σ.committed.assessments.rows, ∃ a' ∈ σ'.committed.assessments.rows, Later a a' ∧
        (a.status = .completed → a'.score = a.score ∧ a'.totalControls = a.totalControls ∧
          a'.mappedControls = a.mappedControls ∧ a'.gapControls = a.gapControls) := by
  have hsafe : ∀ p ∈ rs.map AssessmentRequest.request,
      Safe complianceTables Continues (Consistent s₀) (fun _ => True) p fun _ _ => True := by
    intro p hp
    obtain ⟨r, -, rfl⟩ := List.mem_map.mp hp
    cases r with
    | startAssessment now newId frameworkId startedBy =>
      exact startAssessment_consistent now newId frameworkId startedBy
    | completeAssessment before now assessmentId =>
      exact completeAssessment_consistent before now assessmentId
    | getAssessment assessmentId => exact getAssessment_consistent stable_true assessmentId
  have hconsistent : ∀ {σ}, Server.Reaches complianceTables (fun _ _ => True)
      (start s₀ n (rs.map AssessmentRequest.request)) σ → Consistent s₀ σ.committed :=
    fun run => Server.Reaches.safe growth ⟨rfl, rfl, hstart⟩ hsafe run
  refine ⟨hconsistent run, ?_⟩
  intro σ' later a ha
  obtain ⟨a', ha', hlater⟩ := growth.reaches later a ha
  refine ⟨a', ha', hlater, ?_⟩
  intro hcompleted
  have hscored : ∀ {s x}, Consistent s₀ s → x ∈ s.assessments.rows → x.status = .completed →
      Scored s₀ x := by
    intro s x hs hx hstatus
    rcases hs.assessments x hx with hopen | hdone
    · cases hopen.status.symm.trans hstatus
    · exact hdone
  have hbefore := hscored (hconsistent run) ha hcompleted
  have hafter := hscored (hconsistent (run.trans later)) ha' (hlater.completed hcompleted)
  rw [hbefore.score, hbefore.totalControls, hbefore.mappedControls, hbefore.gapControls,
    hafter.score, hafter.totalControls, hafter.mappedControls, hafter.gapControls,
    hlater.frameworkId]
  exact ⟨rfl, rfl, rfl, rfl⟩

/-- Two sessions complete the one assessment: both have found it open. -/
def sampleCompletions : List AssessmentRequest :=
  [.completeAssessment (fun a b => a ≤ b) 7 9, .completeAssessment (fun a b => a ≤ b) 8 9]

def sampleSchedule : List Action :=
  [.run 0, .run 1] ++ List.replicate 6 (.run 0) ++ List.replicate 6 (.run 1)

theorem assessments_scored_once_sample :
    ∃ σ, Server.run complianceTables (fun _ _ => true)
        (start sampleCompliance 1 (sampleCompletions.map AssessmentRequest.request))
        sampleSchedule = some σ ∧ Consistent sampleCompliance σ.committed := by
  have hrun : (Server.run complianceTables (fun _ _ => true)
      (start sampleCompliance 1 (sampleCompletions.map AssessmentRequest.request))
      sampleSchedule).isSome = true := by
    decide +kernel
  have hopen : ∀ a ∈ sampleCompliance.assessments.rows,
      Unscored a ∨ Scored sampleCompliance a := by
    intro a ha
    cases List.mem_singleton.mp ha
    exact .inl ⟨rfl, rfl, rfl, rfl, rfl, rfl⟩
  obtain ⟨σ, hσ⟩ := Option.isSome_iff_exists.mp hrun
  exact ⟨σ, hσ, (assessments_scored_once hopen sampleCompletions
    (Server.Reaches.of_run (fun _ _ _ => trivial) .refl hσ)).1⟩

end NexusEngine.AssessmentRaces
