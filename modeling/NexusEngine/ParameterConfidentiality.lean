import NexusEngine.ParameterStaging
import NexusEngine.RelatedLists

/-!
# Sensitive values in the overview

Two states are compared that differ in sensitive values only. Everything the overview says about
the parameters is a function of their masked reads, which agree. The pending changes are shown
as they are, so that the overviews agree where the pending changes do.
-/

namespace NexusEngine.ParameterConfidentiality

open TransactionalRequests StoredColumns KeyedTables CalendarTime ParameterTables Database
  PythonText AuditService ParameterService RelatedLists
open ParameterStaging (sampleManagerEnv sampleParameter)

/-! ## States that differ in sensitive values -/

/-- The parameters differ in the live and the staged value only, and only if they are sensitive.
The staged values are both null, both empty and both the live value, or neither is. -/
structure LowEqual (p p' : ConfigParameter) : Prop where
  rest : p' = { p with activeValue := p'.activeValue, pendingValue := p'.pendingValue }
  insensitive : p.isSensitive = false → p' = p
  isNull : p'.pendingValue = none ↔ p.pendingValue = none
  isEmpty : p'.pendingValue = some "" ↔ p.pendingValue = some ""
  isActive : p'.pendingValue = some p'.activeValue ↔ p.pendingValue = some p.activeValue

/-- The changes differ in their values only, and only if these are of a sensitive parameter. -/
structure LowEqualChange (sensitive : Uuid → Prop) (c c' : ConfigChange) : Prop where
  rest : c' = { c with previousValue := c'.previousValue, newValue := c'.newValue }
  insensitive : ¬ sensitive c.parameterId → c' = c

def Sensitive (s : ParameterStore) (id : Uuid) : Prop :=
  ∃ p ∈ s.parameters.rows, p.id = id ∧ p.isSensitive = true

structure LowEqualStore (s s' : ParameterStore) : Prop where
  parameters : List.Forall₂ LowEqual s.parameters.rows s'.parameters.rows
  changes : List.Forall₂ (LowEqualChange (Sensitive s)) s.changes.rows s'.changes.rows

/-- The pending changes of the two states show the same values. -/
def SamePending (s s' : ParameterStore) : Prop :=
  ∀ c ∈ s.changes.rows, ∀ c' ∈ s'.changes.rows, c'.id = c.id → c.status = .pending →
    c'.previousValue = c.previousValue ∧ c'.newValue = c.newValue

/-! ## Parameters -/

theorem LowEqual.hasPendingChange {p p' : ConfigParameter} (h : LowEqual p p') :
    p'.hasPendingChange = p.hasPendingChange := by
  have hiff : ∀ q : ConfigParameter, q.hasPendingChange = true ↔
      ¬ (q.pendingValue = none ∨ q.pendingValue = some q.activeValue) := by
    intro q
    unfold ConfigParameter.hasPendingChange
    cases q.pendingValue <;> simp
  rw [Bool.eq_iff_iff, hiff, hiff, h.isNull, h.isActive]

theorem maskedPending {v v' : Option String} (hnull : v' = none ↔ v = none)
    (hempty : v' = some "" ↔ v = some "") :
    (if v'.any (· ≠ "") then some valueMask else v') =
      if v.any (· ≠ "") then some valueMask else v := by
  cases v with
  | none => rw [hnull.mpr rfl]
  | some a =>
    cases v' with
    | none => exact absurd (hnull.mp rfl) (Option.some_ne_none a)
    | some b =>
      rw [Option.some.injEq, Option.some.injEq] at hempty
      by_cases ha : a = ""
      · rw [ha, hempty.mpr ha]
      · have hb : b ≠ "" := fun hb => ha (hempty.mp hb)
        simp [ha, hb]

/-- The masked reads agree. -/
theorem LowEqual.fromModel {p p' : ConfigParameter} (h : LowEqual p p') :
    ConfigParameterRead.fromModel p' = ConfigParameterRead.fromModel p := by
  cases hsensitive : p.isSensitive with
  | false => rw [h.insensitive hsensitive]
  | true =>
    have hmasked := maskedPending h.isNull h.isEmpty
    obtain ⟨a, v, rfl⟩ : ∃ a v, p' = { p with activeValue := a, pendingValue := v } :=
      ⟨_, _, h.rest⟩
    have hpending : v.any (· != a) = p.pendingValue.any (· != p.activeValue) := h.hasPendingChange
    simp only [ConfigParameterRead.fromModel, ConfigParameter.hasPendingChange, hpending,
      hsensitive, Bool.true_and, hmasked, if_true]

/-- The sections of a list of reads. -/
def readSections (reads : List ConfigParameterRead) : List (String × List ConfigParameterRead) :=
  (groupby ConfigParameterRead.sectionName reads).foldl (fun sections g =>
    dictSet sections g.1 g.2) []

def readTierCounts (reads : List ConfigParameterRead) : List (String × ℕ × ℕ) :=
  reads.foldl (fun counts p =>
    let (total, pending) := dictGet counts p.tier (0, 0)
    dictSet counts p.tier (total + 1, if p.hasPendingChange then pending + 1 else pending)) []

theorem sectionsOf_eq (parameters : List ConfigParameter) :
    sectionsOf parameters = readSections (parameters.map ConfigParameterRead.fromModel) := by
  rw [readSections, groupby_map, List.foldl_map]
  rfl

theorem tierCounts_eq (parameters : List ConfigParameter) :
    tierCounts parameters = readTierCounts (parameters.map ConfigParameterRead.fromModel) := by
  rw [readTierCounts, List.foldl_map]
  rfl

/-! ## Sorting -/

theorem LowEqual.id {p p' : ConfigParameter} (h : LowEqual p p') : p'.id = p.id := by rw [h.rest]

theorem LowEqual.sectionOrder {collate : String → String → Bool} {p p' q q' : ConfigParameter}
    (hp : LowEqual p p') (hq : LowEqual q q') :
    ParameterService.sectionOrder collate p q = ParameterService.sectionOrder collate p' q' := by
  rw [hp.rest, hq.rest]
  rfl

theorem forall₂_sortedParameters {s s' : ParameterStore} (h : LowEqualStore s s')
    (collate : String → String → Bool) (env : ConfigManagerEnv) :
    List.Forall₂ LowEqual (sortedParameters collate env s) (sortedParameters collate env s') := by
  have hscan : List.Forall₂ LowEqual (s.parameters.scan env.parameterOrder)
      (s'.parameters.scan env.parameterOrder) :=
    forall₂_insertionSort (fun a a' b b' ha hb => by rw [ha.id, hb.id]) h.parameters
  exact forall₂_insertionSort (fun a a' b b' ha hb => by rw [ha.sectionOrder hb]) hscan

/-- The masked reads of the sorted parameters agree. -/
theorem sortedReads_eq {s s' : ParameterStore} (h : LowEqualStore s s')
    (collate : String → String → Bool) (env : ConfigManagerEnv) :
    (sortedParameters collate env s').map ConfigParameterRead.fromModel =
      (sortedParameters collate env s).map ConfigParameterRead.fromModel := by
  exact map_eq_of_forall₂ (fun _ _ hp => hp.fromModel) (forall₂_sortedParameters h collate env)

/-! ## Changes -/

/-- Two changes in the same place, which agree if they are pending. -/
structure Partners (c c' : ConfigChange) : Prop where
  id : c'.id = c.id
  createdAt : c'.createdAt = c.createdAt
  status : c'.status = c.status
  shown : c.status = .pending → c' = c

theorem forall₂_partners {s s' : ParameterStore} (h : LowEqualStore s s') (hsame : SamePending s s') :
    List.Forall₂ Partners s.changes.rows s'.changes.rows := by
  refine (forall₂_and_mem h.changes).imp fun c c' ⟨hlow, hc, hc'⟩ => ?_
  have hid : c'.id = c.id := by rw [hlow.rest]
  refine ⟨hid, by rw [hlow.rest], by rw [hlow.rest], fun hpending => ?_⟩
  obtain ⟨hprevious, hnew⟩ := hsame c hc c' hc' hid hpending
  rw [hlow.rest, hprevious, hnew]

/-- The pending changes are the same ones. -/
theorem newestPendingChanges_eq {s s' : ParameterStore} (h : LowEqualStore s s')
    (hsame : SamePending s s') (before : Uuid → Uuid → Bool) :
    newestPendingChanges before s' = newestPendingChanges before s := by
  have hscan : List.Forall₂ Partners (s.changes.scan before) (s'.changes.scan before) :=
    forall₂_insertionSort (fun a a' b b' ha hb => by rw [ha.id, hb.id]) (forall₂_partners h hsame)
  have hfilter : ∀ {l l' : List ConfigChange}, List.Forall₂ Partners l l' →
      (l'.filter fun c => c.status = .pending) = l.filter fun c => c.status = .pending := by
    intro l l' hl
    induction hl with
    | nil => rfl
    | @cons c c' _ _ hc _ ih =>
      rw [List.filter_cons, List.filter_cons, hc.status, ih]
      split
      · next hpending => rw [hc.shown (by simpa using hpending)]
      · rfl
  rw [newestPendingChanges, newestPendingChanges, hfilter hscan]

/-- The keys of the parameters agree. -/
theorem parameterKey_eq {s s' : ParameterStore} (h : LowEqualStore s s') (id : Uuid) :
    (s'.parameters.find? id).map ConfigParameter.parameterKey =
      (s.parameters.find? id).map ConfigParameter.parameterKey := by
  have hfind : ∀ {l l' : List ConfigParameter}, List.Forall₂ LowEqual l l' →
      (l'.find? fun p => p.id = id).map ConfigParameter.parameterKey =
        (l.find? fun p => p.id = id).map ConfigParameter.parameterKey := by
    intro l l' hl
    induction hl with
    | nil => rfl
    | @cons p p' _ _ hp _ ih =>
      rw [List.find?_cons, List.find?_cons, hp.id]
      split
      · rw [Option.map_some, Option.map_some, hp.rest]
      · exact ih
  exact hfind h.parameters

/-! ## The overview -/

def readOf (s : ParameterStore) (c : ConfigChange) : ConfigChangeRead :=
  changeRead (s.parameters.find? c.parameterId) c

def overviewOf (collate : String → String → Bool) (env : ConfigManagerEnv)
    (before : Uuid → Uuid → Bool) (s : ParameterStore) : ConfigManagerOverview :=
  let parameters := sortedParameters collate env s
  { sections := sectionsOf parameters
    tierSummary := (tierCounts parameters).map fun e => ⟨e.1, e.2.1, e.2.2⟩
    pendingChanges := (newestPendingChanges before s).map (readOf s) }

section

variable {durable work : Db} {n : ℕ}

/-- A loaded parameter is the one that a query would find. -/
theorem parameterOf_wp {loaded : List ConfigParameter} {id : Uuid}
    {post : Except ServiceError (Option ConfigParameter) → Db → Db → ℕ → Prop}
    (hloaded : ∀ p ∈ loaded, p ∈ work.parameters.parameters.rows)
    (h : post (.ok (work.parameters.parameters.find? id)) durable work n) :
    (parameterOf loaded id).wp postgres post durable work n := by
  unfold parameterOf
  split
  · next p hp =>
    have hid : p.id = id := by simpa using List.find?_some hp
    have hfound := Table.find?_of_mem (hloaded p (List.mem_of_find?_eq_some hp))
    rw [hid] at hfound
    exact Request.wp_return (hfound ▸ h)
  · exact Request.wp_select (S := postgres) _ ▸ h

theorem changeReads_wp {loaded : List ConfigParameter}
    (hloaded : ∀ p ∈ loaded, p ∈ work.parameters.parameters.rows) (cs : List ConfigChange)
    {post : Except ServiceError (List ConfigChangeRead) → Db → Db → ℕ → Prop}
    (h : post (.ok (cs.map (readOf work.parameters))) durable work n) :
    (changeReads loaded cs).wp postgres post durable work n := by
  induction cs generalizing post with
  | nil => exact Request.wp_return h
  | cons c cs ih =>
    refine (Request.wp_bind ..).mpr (parameterOf_wp hloaded ?_)
    exact (Request.wp_bind ..).mpr (ih (Request.wp_return h))

theorem getConfigManagerOverview_result (collate : String → String → Bool) (env : ConfigManagerEnv)
    (before : Uuid → Uuid → Bool) (db : Db) (n : ℕ) :
    ((getConfigManagerOverview collate env before).serial postgres db db n).result =
      .ok (overviewOf collate env before db.parameters) := by
  have hwp : (getConfigManagerOverview collate env before).wp postgres (fun result _ _ _ =>
      result = .ok (overviewOf collate env before db.parameters)) db db n := by
    refine (Request.wp_bind ..).mpr ?_
    rw [Request.wp_select]
    refine (Request.wp_bind ..).mpr ?_
    rw [Request.wp_select]
    refine (Request.wp_bind ..).mpr (changeReads_wp (fun p hp => ?_) _ (Request.wp_return rfl))
    exact Table.mem_scan.mp ((List.mem_insertionSort _).mp hp)
  obtain ⟨_, hresult⟩ := Request.serial_sound hwp
  exact hresult

end

/-- The overview and all reads of parameters are the same in both states. -/
def SameResponses (collate : String → String → Bool) (env : ConfigManagerEnv)
    (before : Uuid → Uuid → Bool) (n n' : ℕ) (db db' : Db) : Prop :=
  ((getConfigManagerOverview collate env before).serial postgres db' db' n').result =
      ((getConfigManagerOverview collate env before).serial postgres db db n).result ∧
    db'.parameters.parameters.rows.map ConfigParameterRead.fromModel =
      db.parameters.parameters.rows.map ConfigParameterRead.fromModel

/-- States that differ in sensitive values only are shown alike if and only if their pending
changes are the same. -/
theorem same_responses_iff {db db' : Db} (h : LowEqualStore db.parameters db'.parameters)
    (collate : String → String → Bool) (env : ConfigManagerEnv) (before : Uuid → Uuid → Bool)
    (n n' : ℕ) :
    SameResponses collate env before n n' db db' ↔ SamePending db.parameters db'.parameters := by
  have hreads := map_eq_of_forall₂ (fun _ _ hp => hp.fromModel) h.parameters
  have hkeys : ∀ c, readOf db'.parameters c = readOf db.parameters c := by
    intro c
    rw [readOf, readOf, changeRead, changeRead, parameterKey_eq h]
  rw [SameResponses, and_iff_left hreads, getConfigManagerOverview_result,
    getConfigManagerOverview_result, Except.ok.injEq]
  constructor
  · intro heq c hc c' hc' hid hpending
    have hmap := congrArg ConfigManagerOverview.pendingChanges heq
    change (newestPendingChanges before db'.parameters).map (readOf db'.parameters) =
      (newestPendingChanges before db.parameters).map (readOf db.parameters) at hmap
    have hmem : c ∈ newestPendingChanges before db.parameters := by
      simp [newestPendingChanges, Table.mem_scan, hc, hpending]
    obtain ⟨d, hd, hread⟩ := List.mem_map.mp (hmap ▸ List.mem_map_of_mem hmem :
      readOf db.parameters c ∈ (newestPendingChanges before db'.parameters).map
        (readOf db'.parameters))
    have hrow : d ∈ db'.parameters.changes.rows := by
      simp only [newestPendingChanges, List.mem_insertionSort, List.mem_filter,
        Table.mem_scan] at hd
      exact hd.1
    have hdid : d.id = c.id := congrArg ConfigChangeRead.id hread
    obtain rfl : d = c' := db'.parameters.changes.eq_of_key_eq hrow hc' (hdid.trans hid.symm)
    exact ⟨congrArg ConfigChangeRead.previousValue hread, congrArg ConfigChangeRead.newValue hread⟩
  · intro hsame
    have hsorted := sortedReads_eq h collate env
    simp only [overviewOf, sectionsOf_eq, tierCounts_eq, hsorted,
      newestPendingChanges_eq h hsame before]
    congr 1
    exact List.map_congr_left fun c _ => hkeys c

/-! ## Two states with another secret -/

/-- A sensitive parameter with a staged value and its pending change. -/
def secretDb (live staged : String) : Db :=
  { emptyDb with
    parameters :=
      ⟨⟨[{ sampleParameter with
          activeValue := live, pendingValue := some staged, isSensitive := true }],
        List.nodup_singleton _⟩,
      ⟨[⟨2, 1, live, staged, none, "admin@nexus", .pending, 63839664000000000, none⟩],
        List.nodup_singleton _⟩⟩ }

theorem lowEqual_secretDb :
    LowEqualStore (secretDb "key-1" "key-2").parameters (secretDb "key-3" "key-4").parameters where
  parameters := by
    refine .cons ⟨rfl, fun h => Bool.noConfusion h, ?_, ?_, ?_⟩ .nil
    · simp
    · simp
    · simp
  changes := .cons ⟨rfl, fun h => absurd ⟨_, List.mem_cons_self, rfl, rfl⟩ h⟩ .nil

theorem same_responses_iff_sample :
    SameResponses (fun a b => decide (a ≤ b)) (sampleManagerEnv 1) (fun a b => decide (a ≤ b)) 1 1
        (secretDb "key-1" "key-2") (secretDb "key-3" "key-4") ↔
      SamePending (secretDb "key-1" "key-2").parameters (secretDb "key-3" "key-4").parameters :=
  same_responses_iff lowEqual_secretDb _ _ _ 1 1

/-- The overview tells two secrets apart. -/
theorem pending_secret_shown :
    LowEqualStore (secretDb "key-1" "key-2").parameters (secretDb "key-3" "key-4").parameters ∧
      ¬ SameResponses (fun a b => decide (a ≤ b)) (sampleManagerEnv 1)
        (fun a b => decide (a ≤ b)) 1 1 (secretDb "key-1" "key-2") (secretDb "key-3" "key-4") := by
  refine ⟨lowEqual_secretDb, fun h => ?_⟩
  have hresult := h.1
  rw [getConfigManagerOverview_result, getConfigManagerOverview_result, Except.ok.injEq] at hresult
  have hvalues := congrArg (fun o => o.pendingChanges.map ConfigChangeRead.newValue) hresult
  exact absurd hvalues (by decide +kernel)

end NexusEngine.ParameterConfidentiality
