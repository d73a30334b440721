import NexusEngine.ParameterLifecycle

/-!
# Staged values and pending changes

The staged value of a parameter and its one pending change are written by different branches of
a staging. They stay in step as long as nothing is staged over a value that is staged already.
Staging the live value again takes the staged one back, and leaves the change pending.
-/

namespace NexusEngine.ParameterStaging

open TransactionalRequests StoredColumns KeyedTables ParameterTables Database PythonText
  AuditService ParameterService ParameterLifecycle
open AuditVerification (sampleEnv sha256Crypto)

/-- The pending changes of a parameter say what is staged for it. -/
structure Bookkeeping (s : ParameterStore) (p : ConfigParameter) : Prop where
  nothing : p.pendingValue = none → ∀ c ∈ changesOf s p.id, c.status ≠ .pending
  one : ∀ v, p.pendingValue = some v →
    ∃ c, ((changesOf s p.id).filter fun c => c.status = .pending) = [c] ∧ c.newValue = v ∧
      c.previousValue = p.activeValue

/-- A staging that goes through finds nothing staged. -/
def StagesOnce (tables : CharacterTables) (s : ParameterStore) : ParameterRequest → Prop
  | .stage _ parameterId payload => ∀ p ∈ s.parameters.rows, p.id = parameterId →
      validateValue tables p payload.value = none →
      (payload.value = p.activeValue ∨ Storable payload) → p.pendingValue = none
  | _ => True

variable {tables : CharacterTables} {r : ParameterRequest} {s s' : ParameterStore}
  {p p' : ConfigParameter}

/-- The same changes keep the books of the same staged and live values. -/
theorem Bookkeeping.of_same (h : Bookkeeping s p) (hid : p'.id = p.id)
    (hpending : p'.pendingValue = p.pendingValue) (hactive : p'.activeValue = p.activeValue)
    (hchanges : changesOf s' p.id = changesOf s p.id) : Bookkeeping s' p' := by
  constructor
  · rw [hpending, hid, hchanges]
    exact h.nothing
  · rw [hpending, hid, hchanges, hactive]
    exact h.one

/-- Nothing is staged and every change is closed. -/
theorem Bookkeeping.of_closed (hpending : p'.pendingValue = none) (hid : p'.id = p.id)
    {f : ConfigChange → ConfigChange} (hchanges : changesOf s' p.id = (changesOf s p.id).map f)
    (hclosed : ∀ c ∈ changesOf s p.id, (f c).status ≠ .pending) : Bookkeeping s' p' := by
  constructor
  · intro _ c hc
    rw [hid, hchanges] at hc
    obtain ⟨d, hd, rfl⟩ := List.mem_map.mp hc
    exact hclosed d hd
  · intro v hv
    rw [hpending] at hv
    cases hv

/-- The step lemma: one case for each effect. -/
theorem Bookkeeping.step (h : Bookkeeping s p) (hp : p ∈ s.parameters.rows)
    (hcond : StagesOnce tables s r) (effect : ParameterEffect tables r s s' p p') :
    Bookkeeping s' p' := by
  cases effect with
  | unchanged changes => exact h.of_same rfl rfl rfl changes
  | cleared env payload request valid value changes =>
    subst request
    exact h.of_same rfl (hcond p hp rfl valid (.inl value)).symm rfl changes
  | staged env payload c request valid value storable status previousValue newValue changes =>
    subst request
    have hnone := hcond p hp rfl valid (.inr storable)
    have hclosed : (changesOf s p.id).filter (fun c => c.status = .pending) = [] := by
      simpa using h.nothing hnone
    constructor
    · intro hsome
      cases hsome
    · intro v hv
      refine ⟨c, ?_, newValue.trans (Option.some.inj hv), previousValue⟩
      change ((changesOf s' p.id).filter fun c => c.status = .pending) = [c]
      rw [changes, List.filter_append, hclosed, List.nil_append, List.filter_singleton, status]
      rfl
  | reverted env request changes =>
    refine .of_closed (p := p) rfl rfl changes fun c hc => ?_
    rw [rewriteLoaded]
    split
    · intro hstatus
      cases hstatus
    · next hnot => exact fun hstatus => hnot (mem_pendingChanges.mpr ⟨hc, hstatus⟩)
  | promoted env changedBy now request actor pending changes =>
    obtain ⟨v, hv⟩ := Option.isSome_iff_exists.mp pending
    obtain ⟨c, hone, -, -⟩ := h.one v hv
    have hperm := pendingChanges_perm (env.changeOrder p.id) s p.id
    rw [hone] at hperm
    rw [List.perm_singleton.mp hperm] at changes
    refine .of_closed (p := p) rfl rfl changes fun d hd => ?_
    rw [rewriteLoaded]
    split
    · intro hstatus
      cases hstatus
    · next hnot =>
      intro hstatus
      have hmem : d ∈ (changesOf s p.id).filter fun c => c.status = .pending :=
        List.mem_filter.mpr ⟨hd, by simpa using hstatus⟩
      rw [hone] at hmem
      exact hnot (by simpa using hmem)

/-! ## Runs -/

section

variable {crypto : AuditCrypto} {store : Store Db}

/-- In every run whose stagings find nothing staged, the pending changes of every parameter say
what is staged for it. -/
theorem staging_books {rs : List ParameterRequest}
    (hnone : ∀ p ∈ store.db.parameters.parameters.rows, p.pendingValue = none)
    (hclosed : ∀ c ∈ store.db.parameters.changes.rows, c.status ≠ .pending)
    (hcond : ∀ rs₁ r rs₂, rs = rs₁ ++ r :: rs₂ →
      StagesOnce tables (execAll crypto tables store rs₁).db.parameters r)
    (hp : p ∈ (execAll crypto tables store rs).db.parameters.parameters.rows) :
    Bookkeeping (execAll crypto tables store rs).db.parameters p := by
  have hstart : ∀ q ∈ store.db.parameters.parameters.rows, Bookkeeping store.db.parameters q :=
    fun q hq => ⟨fun _ c hc => hclosed c (List.mem_of_mem_filter hc), fun v hv => by
      rw [hnone q hq] at hv
      cases hv⟩
  have hfinal : ∀ q ∈ (execAll crypto tables store rs).db.parameters.parameters.rows,
      Bookkeeping (execAll crypto tables store rs).db.parameters q := by
    refine Store.execAll_preserves (Q := fun (s : Store Db) r => StagesOnce tables s.db.parameters r)
      (P := fun s : Store Db => ∀ q ∈ s.db.parameters.parameters.rows, Bookkeeping s.db.parameters q)
      hstart hcond ?_
    intro s r hstages hbooks q' hq'
    have heffect : Effect tables r s.db.parameters
        (s.exec postgres (r.request crypto tables)).db.parameters := exec_effect s r
    obtain ⟨q, hq, -, effect⟩ := heffect q' hq'
    exact (hbooks q hq).step hq hstages effect
  exact hfinal p hp

end

/-! ## Sample runs -/

def sampleManagerEnv (k : ℕ) : ConfigManagerEnv where
  now i := 63839664000000000 + 10 * k + i
  uuid4 := 10 + k
  createdAt := 63839664000000000 + 10 * k
  audit i := sampleEnv (10 * k + i)
  parameterOrder a b := decide (a ≤ b)
  changeOrder _ a b := decide (a ≤ b)

def sampleParameter : ConfigParameter where
  id := 1
  parameterKey := "engine.mode"
  sectionName := "engine"
  tier := .critical
  valueType := .string
  activeValue := "a"
  pendingValue := none
  allowedValues := none
  isSensitive := false
  requiresRestart := false
  description := none

def sampleStore : Store Db :=
  ⟨{ emptyDb with parameters := ⟨⟨[sampleParameter], by decide⟩, .empty⟩ }, 1⟩

def sampleStage (k : ℕ) (value : String) : ParameterRequest :=
  .stage (sampleManagerEnv k) 1 ⟨value, none, "admin@nexus"⟩

/-- A value is staged and applied. -/
def stageAndApply : List ParameterRequest :=
  [sampleStage 1 "b", .apply (sampleManagerEnv 2) "admin@nexus"]

theorem staging_books_sample :
    Bookkeeping (execAll sha256Crypto asciiTables sampleStore stageAndApply).db.parameters
      { sampleParameter with activeValue := "b" } := by
  have hnone : ∀ p ∈ sampleStore.db.parameters.parameters.rows, p.pendingValue = none := by
    intro p hp
    rw [List.mem_singleton.mp hp]
    rfl
  have hclosed : ∀ c ∈ sampleStore.db.parameters.changes.rows, c.status ≠ .pending :=
    fun c hc => absurd hc List.not_mem_nil
  have hcond : ∀ rs₁ r rs₂, stageAndApply = rs₁ ++ r :: rs₂ →
      StagesOnce asciiTables (execAll sha256Crypto asciiTables sampleStore rs₁).db.parameters r := by
    intro rs₁ r rs₂ h
    rcases rs₁ with _ | ⟨r₁, _ | ⟨r₂, rs₁⟩⟩
    · obtain rfl := (List.cons.inj h).1
      exact fun p hp _ _ _ => hnone p hp
    · obtain rfl := (List.cons.inj (List.cons.inj h).2).1
      trivial
    · simp [stageAndApply] at h
  have hp : { sampleParameter with activeValue := "b" } ∈
      (execAll sha256Crypto asciiTables sampleStore stageAndApply).db.parameters.parameters.rows := by
    decide +kernel
  exact staging_books hnone hclosed hcond hp

/-- A value is staged, and then the live value again. -/
def stageAndUndo : List ParameterRequest := [sampleStage 1 "b", sampleStage 2 "a"]

/-- Nothing is staged, and the change stays pending. -/
theorem undone_change_pending :
    let final := (execAll sha256Crypto asciiTables sampleStore stageAndUndo).db.parameters
    ¬ ∀ p ∈ final.parameters.rows, Bookkeeping final p := by
  intro final hbooks
  have hfinal : final.parameters.rows.map ConfigParameter.pendingValue = [none] ∧
      final.parameters.rows.map ConfigParameter.id = [1] ∧
      (changesOf final 1).map ConfigChange.status = [.pending] := by decide +kernel
  obtain ⟨hpending, hid, hstatus⟩ := hfinal
  obtain ⟨p, rest, hrows, hp, -⟩ := List.map_eq_cons_iff.mp hpending
  obtain ⟨c, rest', hchanges, hc, -⟩ := List.map_eq_cons_iff.mp hstatus
  rw [hrows, List.map_cons, List.cons.injEq] at hid
  have hmem : p ∈ final.parameters.rows := hrows ▸ List.mem_cons_self
  refine (hbooks p hmem).nothing hp c ?_ hc
  rw [hid.1, hchanges]
  exact List.mem_cons_self

end NexusEngine.ParameterStaging
