import NexusEngine.ParameterStaging

/-!
# The history of applied changes

Replaying the applied changes of a parameter leads from its initial to its live value, as long
as every apply closes the change of the value that it promotes. Which of several pending changes
it closes is up to the order in which a query returns them.
-/

namespace NexusEngine.ParameterHistory

open TransactionalRequests StoredColumns KeyedTables CalendarTime ParameterTables Database
  PythonText AuditService ParameterService ParameterLifecycle ParameterStaging
open AuditVerification (sha256Crypto)

/-- Each change starts from the value that the one before it led to. -/
def Replays : String → List ConfigChange → String → Prop
  | initial, [], final => final = initial
  | initial, c :: cs, final => c.previousValue = initial ∧ Replays c.newValue cs final

theorem Replays.append {initial mid final : String} {cs ds : List ConfigChange}
    (h : Replays initial cs mid) (h' : Replays mid ds final) : Replays initial (cs ++ ds) final := by
  induction cs generalizing initial with
  | nil =>
    obtain rfl : mid = initial := h
    exact h'
  | cons c cs ih => exact ⟨h.1, ih h.2⟩

theorem not_replays_single {initial final : String} {cs : List ConfigChange} {c : ConfigChange}
    (hcs : cs = [c]) (hne : final ≠ c.newValue) : ¬ Replays initial cs final := by
  rw [hcs]
  exact fun h => hne h.2

def appliedOf (s : ParameterStore) (id : Uuid) : List ConfigChange :=
  (changesOf s id).filter fun c => c.status = .applied

/-- The changes that a request has applied. -/
def appliedBy (s s' : ParameterStore) (id : Uuid) : List ConfigChange :=
  (appliedOf s' id).filter fun c => c ∉ appliedOf s id

/-- The applied changes of a parameter, in the order in which the run applies them. -/
def history (crypto : AuditCrypto) (tables : CharacterTables) (id : Uuid) :
    Store Db → List ParameterRequest → List ConfigChange
  | _, [] => []
  | s, r :: rs =>
    let next := s.exec postgres (r.request crypto tables)
    appliedBy s.db.parameters next.db.parameters id ++ history crypto tables id next rs

/-- An apply whose audit entries can be written finds, as the first pending change of every
parameter with a staged value, the one from the live to the staged value. -/
def AppliesStaged (s : ParameterStore) : ParameterRequest → Prop
  | .apply env changedBy => (varchar 120 changedBy).isSome → ∀ p ∈ s.parameters.rows, ∀ v,
      p.pendingValue = some v → ∃ c, (pendingChanges (env.changeOrder p.id) s p.id).head? = some c ∧
        c.previousValue = p.activeValue ∧ c.newValue = v
  | _ => True

section

variable {tables : CharacterTables} {r : ParameterRequest} {s s' : ParameterStore}
  {p p' : ConfigParameter}

/-- Rewriting changes that are not applied to others that are not keeps the applied ones. -/
theorem filter_applied_rewriteLoaded {loaded : List ConfigChange}
    {f : ConfigChange → ConfigChange} (hloaded : ∀ c ∈ loaded, c.status = .pending)
    (hf : ∀ c, (f c).status ≠ .applied) (cs : List ConfigChange) :
    ((cs.map (rewriteLoaded loaded f)).filter fun c => c.status = .applied) =
      cs.filter fun c => c.status = .applied := by
  induction cs with
  | nil => rfl
  | cons c cs ih =>
    rw [List.map_cons, List.filter_cons, List.filter_cons, ih]
    by_cases hc : c ∈ loaded
    · simp [rewriteLoaded, hc, hf, hloaded c hc]
    · simp only [rewriteLoaded, if_neg hc]

/-- Applying one pending change adds it to the applied ones. -/
theorem filter_applied_perm {c : ConfigChange} {now : Instant} (hc : c.status = .pending)
    {cs : List ConfigChange} (hmem : c ∈ cs) (hnodup : cs.Nodup) :
    ((cs.map (rewriteLoaded [c] (appliedChange now))).filter fun d => d.status = .applied).Perm
      ((cs.filter fun d => d.status = .applied) ++ [appliedChange now c]) := by
  obtain ⟨before, after, rfl⟩ := List.append_of_mem hmem
  have hnot : ∀ d ∈ before ++ after, d ≠ c := by
    rintro d hd rfl
    rw [List.nodup_middle, List.nodup_cons] at hnodup
    exact hnodup.1 hd
  have hkeep : ∀ ds : List ConfigChange, (∀ d ∈ ds, d ≠ c) →
      ds.map (rewriteLoaded [c] (appliedChange now)) = ds := fun ds hds =>
    (List.map_congr_left fun d hd => if_neg fun hmem => hds d hd (List.mem_singleton.mp hmem)).trans
      (List.map_id' _)
  rw [List.map_append, List.map_cons, hkeep before fun d hd => hnot d (List.mem_append_left _ hd),
    hkeep after fun d hd => hnot d (List.mem_append_right _ hd), List.filter_append,
    List.filter_append, List.filter_cons, List.filter_cons, rewriteLoaded,
    if_pos List.mem_cons_self, if_pos (by simp [appliedChange]), if_neg (by simp [hc]),
    List.append_assoc]
  exact (List.perm_append_singleton _ _).symm.append_left _

/-- Either the request leaves the live value and the applied changes, or it applies one change
from the live value to the new one. -/
inductive Applies (s s' : ParameterStore) (p p' : ConfigParameter) : Prop where
  | nothing (active : p'.activeValue = p.activeValue) (applied : appliedOf s' p.id = appliedOf s p.id)
  | one (c : ConfigChange) (previousValue : c.previousValue = p.activeValue)
      (newValue : c.newValue = p'.activeValue) (new : c ∉ appliedOf s p.id)
      (applied : (appliedOf s' p.id).Perm (appliedOf s p.id ++ [c]))

theorem applies_of_effect (hp : p ∈ s.parameters.rows) (hcond : AppliesStaged s r)
    (effect : ParameterEffect tables r s s' p p') : Applies s s' p p' := by
  cases effect with
  | unchanged changes => exact .nothing rfl (congrArg (List.filter _) changes)
  | cleared _ _ _ _ _ changes => exact .nothing rfl (congrArg (List.filter _) changes)
  | staged env payload c _ _ _ _ status _ _ changes =>
    refine .nothing rfl ?_
    rw [appliedOf, changes, List.filter_append, List.filter_singleton, status]
    exact List.append_nil _
  | reverted env _ changes =>
    refine .nothing rfl ?_
    rw [appliedOf, changes]
    have hreverted : ∀ c : ConfigChange,
        ({ c with status := .reverted } : ConfigChange).status ≠ .applied := by
      intro _ h
      cases h
    exact filter_applied_rewriteLoaded (fun c hc => (mem_pendingChanges.mp hc).2) hreverted _
  | promoted env changedBy now request actor pending changes =>
    subst request
    obtain ⟨v, hv⟩ := Option.isSome_iff_exists.mp pending
    obtain ⟨c, hfirst, hprevious, hnew⟩ := hcond actor p hp v hv
    obtain ⟨hmem, hpending⟩ := mem_pendingChanges.mp (List.mem_of_mem_head? hfirst)
    rw [hfirst] at changes
    refine .one (appliedChange now c) hprevious (hnew.trans ?_) (fun happlied => ?_) ?_
    · rw [promoted, hv]
      rfl
    · -- the row of the change is pending, so no applied row has its identifier
      have hrow : c = appliedChange now c := s.changes.eq_of_key_eq (List.mem_of_mem_filter hmem)
        (List.mem_of_mem_filter (List.mem_of_mem_filter happlied)) rfl
      rw [hrow] at hpending
      cases hpending
    · rw [appliedOf, changes]
      exact filter_applied_perm hpending hmem ((List.Nodup.of_map _ s.changes.nodup).filter _)

theorem Applies.replays (h : Applies s s' p p') :
    Replays p.activeValue (appliedBy s s' p.id) p'.activeValue ∧
      (appliedOf s' p.id).Perm (appliedOf s p.id ++ appliedBy s s' p.id) := by
  cases h with
  | nothing active applied =>
    have hnothing : appliedBy s s' p.id = [] := by
      rw [appliedBy, applied, List.filter_eq_nil_iff]
      simp
    rw [hnothing, applied, List.append_nil]
    exact ⟨active, .refl _⟩
  | one c previousValue newValue new applied =>
    have hone : appliedBy s s' p.id = [c] := by
      rw [appliedBy, ← List.perm_singleton]
      refine (applied.filter _).trans ?_
      have hold : (appliedOf s p.id).filter (fun c => c ∉ appliedOf s p.id) = [] := by
        rw [List.filter_eq_nil_iff]
        simp
      rw [List.filter_append, hold, List.nil_append, List.filter_singleton, decide_eq_true new]
      exact .refl _
    rw [hone]
    exact ⟨⟨previousValue, newValue.symm⟩, applied⟩

end

/-! ## Runs -/

section

variable {crypto : AuditCrypto} {tables : CharacterTables} {store : Store Db}

/-- Every parameter of a run was there before it. -/
theorem origin_run {rs : List ParameterRequest} {p' : ConfigParameter}
    (hp' : p' ∈ (execAll crypto tables store rs).db.parameters.parameters.rows) :
    ∃ p ∈ store.db.parameters.parameters.rows, p'.id = p.id := by
  have horigin : ∀ q ∈ (execAll crypto tables store rs).db.parameters.parameters.rows,
      ∃ p ∈ store.db.parameters.parameters.rows, q.id = p.id := by
    refine Store.execAll_preserves (Q := fun _ _ => True)
      (P := fun s : Store Db => ∀ q ∈ s.db.parameters.parameters.rows,
        ∃ p ∈ store.db.parameters.parameters.rows, q.id = p.id)
      (fun q hq => ⟨q, hq, rfl⟩) (fun _ _ _ _ => trivial) ?_
    intro s r _ horigin q hq
    have heffect : Effect tables r s.db.parameters
        (s.exec postgres (r.request crypto tables)).db.parameters := exec_effect s r
    obtain ⟨q₁, hq₁, hid₁, -⟩ := heffect q hq
    obtain ⟨p, hp, hid⟩ := horigin q₁ hq₁
    exact ⟨p, hp, hid₁.trans hid⟩
  exact horigin p' hp'

/-- The run lemma, from any changes. -/
theorem history_run {rs : List ParameterRequest} {p p' : ConfigParameter}
    (hcond : ∀ rs₁ r rs₂, rs = rs₁ ++ r :: rs₂ →
      AppliesStaged (execAll crypto tables store rs₁).db.parameters r)
    (hp : p ∈ store.db.parameters.parameters.rows)
    (hp' : p' ∈ (execAll crypto tables store rs).db.parameters.parameters.rows)
    (hid : p'.id = p.id) :
    Replays p.activeValue (history crypto tables p.id store rs) p'.activeValue ∧
      (appliedOf (execAll crypto tables store rs).db.parameters p.id).Perm
        (appliedOf store.db.parameters p.id ++ history crypto tables p.id store rs) := by
  induction rs generalizing store p with
  | nil =>
    obtain rfl : p' = p := store.db.parameters.parameters.eq_of_key_eq hp' hp hid
    exact ⟨rfl, by rw [history, List.append_nil]; exact .refl _⟩
  | cons r rs ih =>
    have heffect : Effect tables r store.db.parameters
        (store.exec postgres (r.request crypto tables)).db.parameters := exec_effect store r
    have horigin : ∃ q ∈ (store.exec postgres
        (r.request crypto tables)).db.parameters.parameters.rows, p'.id = q.id := origin_run hp'
    obtain ⟨q, hq, hqid⟩ := horigin
    obtain ⟨p₁, hp₁, hid₁, effect⟩ := heffect q hq
    obtain rfl : p₁ = p := store.db.parameters.parameters.eq_of_key_eq hp₁ hp
      (hid₁.symm.trans (hqid.symm.trans hid))
    obtain ⟨hfirst, hperm⟩ := (applies_of_effect hp (hcond [] r rs rfl) effect).replays
    obtain ⟨hrest, hperm'⟩ := ih (fun rs₁ r' rs₂ h => hcond (r :: rs₁) r' rs₂ (by rw [h]; rfl))
      hq hp' hqid
    rw [hid₁] at hrest hperm'
    refine ⟨hfirst.append hrest, hperm'.trans ?_⟩
    rw [history, ← List.append_assoc]
    exact hperm.append_right _

/-- In every run from a store without changes whose applies close the changes of the values
that they promote, the applied changes of every parameter, in the order in which they were
applied, lead from its initial to its live value. -/
theorem history_replays {rs : List ParameterRequest} {p p' : ConfigParameter}
    (hempty : store.db.parameters.changes.rows = [])
    (hcond : ∀ rs₁ r rs₂, rs = rs₁ ++ r :: rs₂ →
      AppliesStaged (execAll crypto tables store rs₁).db.parameters r)
    (hp : p ∈ store.db.parameters.parameters.rows)
    (hp' : p' ∈ (execAll crypto tables store rs).db.parameters.parameters.rows)
    (hid : p'.id = p.id) :
    (appliedOf (execAll crypto tables store rs).db.parameters p.id).Perm
        (history crypto tables p.id store rs) ∧
      Replays p.activeValue (history crypto tables p.id store rs) p'.activeValue := by
  obtain ⟨hreplays, hperm⟩ := history_run hcond hp hp' hid
  have hnothing : appliedOf store.db.parameters p.id = [] := by
    rw [appliedOf, changesOf, hempty]
    rfl
  rw [hnothing, List.nil_append] at hperm
  exact ⟨hperm, hreplays⟩

end

/-! ## Sample runs -/

theorem history_replays_sample :
    ∃ p' ∈ (execAll sha256Crypto asciiTables sampleStore
        stageAndApply).db.parameters.parameters.rows,
      p'.activeValue = "b" ∧
        (appliedOf (execAll sha256Crypto asciiTables sampleStore stageAndApply).db.parameters
          sampleParameter.id).Perm
            (history sha256Crypto asciiTables sampleParameter.id sampleStore stageAndApply) ∧
        Replays sampleParameter.activeValue
          (history sha256Crypto asciiTables sampleParameter.id sampleStore stageAndApply)
          p'.activeValue := by
  have hfinal : (execAll sha256Crypto asciiTables sampleStore
      stageAndApply).db.parameters.parameters.rows.map (fun p => (p.id, p.activeValue)) =
        [(1, "b")] := by decide +kernel
  obtain ⟨p', rest, hrows, hp', -⟩ := List.map_eq_cons_iff.mp hfinal
  obtain ⟨hid, hactive⟩ := Prod.mk.inj hp'
  have hcond : ∀ rs₁ r rs₂, stageAndApply = rs₁ ++ r :: rs₂ →
      AppliesStaged (execAll sha256Crypto asciiTables sampleStore rs₁).db.parameters r := by
    intro rs₁ r rs₂ h
    rcases rs₁ with _ | ⟨r₁, _ | ⟨r₂, rs₁⟩⟩
    · obtain rfl := (List.cons.inj h).1
      trivial
    · obtain ⟨rfl, htail⟩ := List.cons.inj h
      obtain rfl := (List.cons.inj htail).1
      intro _ p hp v hv
      have hstaged : (execAll sha256Crypto asciiTables sampleStore
          [sampleStage 1 "b"]).db.parameters.parameters.rows.all (fun p =>
            ((pendingChanges (fun a b => decide (a ≤ b)) (execAll sha256Crypto asciiTables
              sampleStore [sampleStage 1 "b"]).db.parameters p.id).head?.any fun c =>
                c.previousValue == p.activeValue && some c.newValue == p.pendingValue)) = true := by
        decide +kernel
      obtain ⟨c, hc, hmatch⟩ := (Option.any_eq_true _ _).mp (List.all_eq_true.mp hstaged p hp)
      rw [Bool.and_eq_true, beq_iff_eq, beq_iff_eq, hv] at hmatch
      exact ⟨c, hc, hmatch.1, Option.some.inj hmatch.2⟩
    · simp [stageAndApply] at h
  have hmem : p' ∈ (execAll sha256Crypto asciiTables sampleStore
      stageAndApply).db.parameters.parameters.rows := hrows ▸ List.mem_cons_self
  have hstart : sampleParameter ∈ sampleStore.db.parameters.parameters.rows :=
    List.mem_cons_self
  have hempty : sampleStore.db.parameters.changes.rows = [] := rfl
  have hid' : p'.id = sampleParameter.id := hid
  exact ⟨p', hmem, hactive, history_replays hempty hcond hstart hmem hid'⟩

/-- Two values are staged, one over the other, and applied. -/
def restageAndApply : List ParameterRequest :=
  [sampleStage 1 "b", sampleStage 2 "c", .apply (sampleManagerEnv 3) "admin@nexus"]

/-- The live value is the second one, and the applied change leads to the first. -/
theorem first_change_applied :
    ∃ p' ∈ (execAll sha256Crypto asciiTables sampleStore
        restageAndApply).db.parameters.parameters.rows, p'.id = sampleParameter.id ∧
      ¬ ((appliedOf (execAll sha256Crypto asciiTables sampleStore
          restageAndApply).db.parameters sampleParameter.id).Perm
            (history sha256Crypto asciiTables sampleParameter.id sampleStore restageAndApply) ∧
        Replays sampleParameter.activeValue
          (history sha256Crypto asciiTables sampleParameter.id sampleStore restageAndApply)
          p'.activeValue) := by
  have hfinal : (execAll sha256Crypto asciiTables sampleStore
      restageAndApply).db.parameters.parameters.rows.map (fun p => (p.id, p.activeValue)) =
        [(1, "c")] ∧
      (history sha256Crypto asciiTables sampleParameter.id sampleStore restageAndApply).map
        ConfigChange.newValue = ["b"] := by decide +kernel
  obtain ⟨p', rest, hrows, hp', -⟩ := List.map_eq_cons_iff.mp hfinal.1
  obtain ⟨hid, hactive⟩ := Prod.mk.inj hp'
  obtain ⟨c, rest', hhistory, hc, hnil⟩ := List.map_eq_cons_iff.mp hfinal.2
  obtain rfl := List.map_eq_nil_iff.mp hnil
  have hne : p'.activeValue ≠ c.newValue := by
    rw [hactive, hc]
    decide
  have hnot : ¬ Replays sampleParameter.activeValue
      (history sha256Crypto asciiTables sampleParameter.id sampleStore restageAndApply)
      p'.activeValue := not_replays_single hhistory hne
  exact ⟨p', hrows ▸ List.mem_cons_self, hid, mt And.right hnot⟩

end NexusEngine.ParameterHistory
