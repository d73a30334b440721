import NexusEngine.AuditAdmissions
import NexusEngine.ParameterConfidentiality
import NexusEngine.ParameterTransactions
import NexusEngine.TenantAttribution

/-!
# What counts as pending

The dashboard and an apply count the parameters with a staged value, the overview those whose
staged value is not the live one. The counts agree because no operation leaves the live value
staged: staging it clears the staged one, and applying and reverting clear it too.
-/

namespace NexusEngine.ParameterPending

open TransactionalRequests JsonDocuments JsonEquality CalendarTime StoredColumns KeyedTables
  ParameterTables AnomalyTables AuditLogTable TenancyTables Database PythonText AuditService
  AuditAppends AuditedTransactions AuditAdmissions ParameterService ParameterLifecycle
  ParameterTransactions ParameterConfidentiality
open TenantAttribution (openAnomalyStatuses)
open AuditVerification (sha256Crypto)
open ParameterStaging (sampleStore sampleStage sampleManagerEnv)

/-! ## The summary of the dashboard -/

structure DashboardSummary where
  totalTenants : ℕ
  activeTenants : ℕ
  totalConfigurations : ℕ
  configurationsWithPendingChanges : ℕ
  auditEventsLast24h : ℕ
  criticalAuditEventsLast24h : ℕ
  openAnomalies : ℕ
  deriving DecidableEq, Repr

def getSummary (now : Instant) : Service DashboardSummary := do
  let since24h := now - 24 * 3600000000
  let totalTenants ← Request.select fun db => db.tenancy.tenants.rows.length
  let activeTenants ← Request.select fun db =>
    db.tenancy.tenants.rows.countP fun t => t.status = .active
  let totalConfigurations ← Request.select fun db => db.parameters.parameters.rows.length
  let configurationsWithPendingChanges ← Request.select fun db =>
    db.parameters.parameters.rows.countP fun p => p.pendingValue.isSome
  let auditEventsLast24h ← Request.select fun db =>
    db.auditLog.countP fun e => since24h ≤ e.occurredAt.utc
  let criticalAuditEventsLast24h ← Request.select fun db =>
    db.auditLog.countP fun e => since24h ≤ e.occurredAt.utc && e.severity = .critical
  let openAnomalies ← Request.select fun db =>
    db.anomalies.rows.countP fun e => e.status ∈ openAnomalyStatuses
  return {
    totalTenants := totalTenants
    activeTenants := activeTenants
    totalConfigurations := totalConfigurations
    configurationsWithPendingChanges := configurationsWithPendingChanges
    auditEventsLast24h := auditEventsLast24h
    criticalAuditEventsLast24h := criticalAuditEventsLast24h
    openAnomalies := openAnomalies }

/-! ## The invariant -/

/-- What is staged for a parameter is a text and not the live value. -/
def StagedApart (p : ConfigParameter) : Prop :=
  ∀ v, p.pendingValue = some v → v ≠ p.activeValue ∧ text v = some v

/-- Both ways of asking for a staged value agree. -/
theorem StagedApart.hasPendingChange {p : ConfigParameter} (h : StagedApart p) :
    p.hasPendingChange = p.pendingValue.isSome := by
  rw [ConfigParameter.hasPendingChange]
  cases hpending : p.pendingValue with
  | none => rfl
  | some v => simpa using (h v hpending).1

theorem stagedApart_of_none {p : ConfigParameter} (h : p.pendingValue = none) : StagedApart p := by
  intro v hv
  rw [h] at hv
  cases hv

/-- The step lemma: one case for each effect. -/
theorem StagedApart.step {tables : CharacterTables} {r : ParameterRequest} {s s' : ParameterStore}
    {p p' : ConfigParameter} (h : StagedApart p) (effect : ParameterEffect tables r s s' p p') :
    StagedApart p' := by
  cases effect with
  | unchanged changes => exact h
  | cleared env payload request valid value changes => exact stagedApart_of_none rfl
  | staged env payload c request valid value storable status previousValue newValue changes =>
    intro v hv
    obtain rfl : payload.value = v := Option.some.inj hv
    exact ⟨value, storable.1⟩
  | reverted env request changes => exact stagedApart_of_none rfl
  | promoted env changedBy now request actor pending changes => exact stagedApart_of_none rfl

section

variable {crypto : AuditCrypto} {tables : CharacterTables}

/-- The run lemma. -/
theorem stagedApart_execAll {store : Store Db}
    (hnone : ∀ p ∈ store.db.parameters.parameters.rows, p.pendingValue = none)
    (rs : List ParameterRequest) :
    ∀ p ∈ (execAll crypto tables store rs).db.parameters.parameters.rows, StagedApart p := by
  have hstart : ∀ p ∈ store.db.parameters.parameters.rows, StagedApart p :=
    fun p hp => stagedApart_of_none (hnone p hp)
  apply Store.execAll_preserves (Q := fun _ _ => True)
    (P := fun s : Store Db => ∀ p ∈ s.db.parameters.parameters.rows, StagedApart p) hstart
    (fun _ _ _ _ => trivial)
  intro s r _ hapart p' hp'
  have heffect : Effect tables r s.db.parameters
      (s.exec postgres (r.request crypto tables)).db.parameters := exec_effect s r
  obtain ⟨p, hp, -, effect⟩ := heffect p' hp'
  exact (hapart p hp).step effect

end

/-! ## The overview -/

/-- The order of a deterministic collation: it is total, and no two texts are equal in it. -/
structure Collation (collate : String → String → Bool) : Prop where
  total : ∀ a b, collate a b = true ∨ collate b a = true
  trans : ∀ a b c, collate a b = true → collate b c = true → collate a c = true
  antisymm : ∀ a b, collate a b = true → collate b a = true → a = b

theorem tierCounts_sum {d : List (String × ℕ × ℕ)} (hd : (d.map Prod.fst).Nodup)
    (parameters : List ConfigParameter) :
    ((parameters.foldl (fun counts p =>
        let (total, pending) := dictGet counts p.tier.value (0, 0)
        dictSet counts p.tier.value
          (total + 1, if p.hasPendingChange then pending + 1 else pending)) d).map
        fun e => e.2.2).sum =
      (d.map fun e => e.2.2).sum + parameters.countP ConfigParameter.hasPendingChange := by
  induction parameters generalizing d with
  | nil => rfl
  | cons p parameters ih =>
    rw [List.foldl_cons, ih (nodup_dictSet hd _ _), List.countP_cons]
    have hzero : Prod.snd ((0, 0) : ℕ × ℕ) = 0 := rfl
    have hsum := sum_dictSet Prod.snd hd p.tier.value
      ((dictGet d p.tier.value (0, 0)).1 + 1,
        if p.hasPendingChange then (dictGet d p.tier.value (0, 0)).2 + 1
        else (dictGet d p.tier.value (0, 0)).2) hzero
    split at hsum
    · next hpending =>
      simp only [hpending, if_true] at hsum ⊢
      omega
    · next hpending =>
      simp only [hpending, if_false, Bool.false_eq_true] at hsum ⊢
      omega

/-- The tiers together count the parameters whose staged value is not the live one. -/
theorem tierCounts_pending (parameters : List ConfigParameter) :
    ((tierCounts parameters).map fun e => e.2.2).sum =
      parameters.countP ConfigParameter.hasPendingChange := by
  have hempty : (([] : List (String × ℕ × ℕ)).map Prod.fst).Nodup := List.nodup_nil
  have hsum := tierCounts_sum hempty parameters
  rw [List.map_nil, List.sum_nil, Nat.zero_add] at hsum
  exact hsum

section

variable {collate : String → String → Bool}

theorem sectionOrder_collate {p q : ConfigParameter} (h : sectionOrder collate p q = true) :
    collate p.sectionName q.sectionName = true := by
  rw [sectionOrder] at h
  split at h
  · next hsame => exact (Bool.and_eq_true_iff.mp hsame).1
  · exact h

theorem Collation.sectionOrder_iff (h : Collation collate) {p q : ConfigParameter} :
    sectionOrder collate p q = true ↔ collate p.sectionName q.sectionName = true ∧
      (p.sectionName = q.sectionName → collate p.parameterKey q.parameterKey = true) := by
  by_cases hsection : p.sectionName = q.sectionName
  · have hself : collate q.sectionName q.sectionName = true := by
      rcases h.total q.sectionName q.sectionName with hself | hself
      · exact hself
      · exact hself
    simp [sectionOrder, hsection, hself]
  · have hone : (collate p.sectionName q.sectionName && collate q.sectionName p.sectionName) =
        false := by
      apply Bool.eq_false_iff.mpr
      intro hboth
      obtain ⟨hle, hge⟩ := Bool.and_eq_true_iff.mp hboth
      exact hsection (h.antisymm _ _ hle hge)
    simp [sectionOrder, hsection, hone]

/-- The sections come in order. -/
theorem Collation.sorted (h : Collation collate) (env : ConfigManagerEnv) (s : ParameterStore) :
    ((sortedParameters collate env s).map ConfigParameter.sectionName).Pairwise
      fun a b => collate a b = true := by
  have htotal : Std.Total fun p q : ConfigParameter => sectionOrder collate p q = true := by
    constructor
    intro p q
    rw [h.sectionOrder_iff, h.sectionOrder_iff]
    by_cases hsection : p.sectionName = q.sectionName
    · have hself := h.total q.sectionName q.sectionName
      have hkeys := h.total p.parameterKey q.parameterKey
      simp only [hsection, forall_const]
      tauto
    · have hsections := h.total p.sectionName q.sectionName
      have hsection' : ¬ q.sectionName = p.sectionName := fun heq => hsection heq.symm
      simp only [hsection, hsection', false_imp_iff, and_true]
      exact hsections
  have htrans : IsTrans ConfigParameter fun p q => sectionOrder collate p q = true := by
    constructor
    intro p q r hpq hqr
    rw [h.sectionOrder_iff] at hpq hqr ⊢
    refine ⟨h.trans _ _ _ hpq.1 hqr.1, fun hsame => ?_⟩
    have hback : collate q.sectionName p.sectionName = true := hsame ▸ hqr.1
    have hpq' := h.antisymm _ _ hpq.1 hback
    exact h.trans _ _ _ (hpq.2 hpq') (hqr.2 (hpq'.symm.trans hsame))
  rw [List.pairwise_map]
  exact (List.pairwise_insertionSort _ _).imp sectionOrder_collate

theorem sortedParameters_perm (env : ConfigManagerEnv) (s : ParameterStore) :
    (sortedParameters collate env s).Perm s.parameters.rows :=
  (List.perm_insertionSort _ _).trans (s.parameters.scan_perm _)

/-- The sections show every parameter once. -/
theorem Collation.sections_perm (h : Collation collate) (env : ConfigManagerEnv)
    (s : ParameterStore) :
    ((sectionsOf (sortedParameters collate env s)).flatMap Prod.snd).Perm
      (s.parameters.rows.map ConfigParameterRead.fromModel) := by
  have hkeys : ((groupby ConfigParameter.sectionName (sortedParameters collate env s)).map
      Prod.fst).Nodup := groupby_keys_nodup h.antisymm (h.sorted env s)
  have hsections : sectionsOf (sortedParameters collate env s) =
      (groupby ConfigParameter.sectionName (sortedParameters collate env s)).map fun g =>
        (g.1, g.2.map ConfigParameterRead.fromModel) := by
    apply foldl_dictSet Prod.fst (fun g : String × List ConfigParameter =>
      g.2.map ConfigParameterRead.fromModel)
    simpa using hkeys
  have hflat : (sectionsOf (sortedParameters collate env s)).flatMap Prod.snd =
      (sortedParameters collate env s).map ConfigParameterRead.fromModel := by
    rw [hsections, List.flatMap_map, ← List.map_flatMap, groupby_flatten]
  rw [hflat]
  exact (sortedParameters_perm env s).map _

end

/-! ## An immediate apply -/

/-- A parameter whose values are texts is saved. -/
theorem saveParameter_applies {old new : ConfigParameter} {db : Db}
    (hrow : old ∈ db.parameters.parameters.rows)
    (hactive : text new.activeValue = some new.activeValue)
    (hpending : nullable text new.pendingValue = some new.pendingValue) :
    ∃ db', postgres.applyAll (saveParameter old new) db = some db' := by
  have hactive' : ∃ stored,
      nullable text (changed old.activeValue new.activeValue) = some stored := by
    rw [changed]
    split
    · exact ⟨none, rfl⟩
    · exact ⟨some new.activeValue, by rw [nullable, hactive, Option.map_some]⟩
  have hpending' : ∃ stored,
      nullable text ((changed old.pendingValue new.pendingValue).getD none) = some stored := by
    rw [changed]
    split
    · exact ⟨none, rfl⟩
    · exact ⟨new.pendingValue, hpending⟩
  obtain ⟨active, hactive'⟩ := hactive'
  obtain ⟨pending, hpending'⟩ := hpending'
  obtain ⟨parameters, hupdate⟩ : ∃ parameters, db.parameters.parameters.update old.id
      (old.diff new).apply (fun _ => rfl) = some parameters :=
    Table.update_isSome (Table.find?_of_mem hrow)
  unfold saveParameter
  split
  · exact ⟨db, rfl⟩
  · refine ⟨{ db with parameters := { db.parameters with parameters := parameters } }, ?_⟩
    rw [StatementSemantics.applyAll_singleton]
    apply apply_parameter.mpr
    refine ⟨_, ?_, rfl⟩
    change db.parameters.updateParameter old.id (old.diff new) = _
    simp only [ParameterStore.updateParameter, ConfigParameter.diff, hactive', hpending',
      Option.bind_eq_bind, Option.bind_some]
    change (db.parameters.parameters.update old.id (old.diff new).apply _).bind _ = _
    rw [hupdate, Option.bind_some]
    rfl

theorem saveChange_applies {old : ConfigChange} {db : Db}
    (hrow : old ∈ db.parameters.changes.rows) (new : ConfigChange) :
    ∃ db', postgres.applyAll (saveChange old new) db = some db' := by
  obtain ⟨changes, hupdate⟩ : ∃ changes, db.parameters.changes.update old.id
      (old.diff new).apply (fun _ => rfl) = some changes :=
    Table.update_isSome (Table.find?_of_mem hrow)
  unfold saveChange
  split
  · exact ⟨db, rfl⟩
  · refine ⟨{ db with parameters := { db.parameters with changes := changes } }, ?_⟩
    rw [StatementSemantics.applyAll_singleton]
    apply apply_parameter.mpr
    refine ⟨_, ?_, rfl⟩
    change db.parameters.updateChange old.id (old.diff new) = _
    rw [ParameterStore.updateChange, hupdate, Option.map_some]

/-- A parameter is promoted where its staged value is a text. -/
theorem promoteStatements_apply {p : ConfigParameter} {db : Db}
    (hrow : p ∈ db.parameters.parameters.rows) (hapart : StagedApart p)
    (hstaged : p.pendingValue.isSome) {change : Option ConfigChange}
    (hchange : ∀ c, change = some c → c ∈ db.parameters.changes.rows) (now : Instant) :
    ∃ db', postgres.applyAll (promoteStatements now p change) db = some db' := by
  obtain ⟨v, hv⟩ := Option.isSome_iff_exists.mp hstaged
  have hactive : text (promoted p).activeValue = some (promoted p).activeValue := by
    rw [promoted, hv]
    exact (hapart v hv).2
  have hcleared : nullable text (promoted p).pendingValue = some (promoted p).pendingValue := rfl
  obtain ⟨mid, hsave⟩ := saveParameter_applies hrow hactive hcleared
  obtain ⟨hchanges, -⟩ := saveParameter_sound hsave hrow rfl
  rw [promoteStatements, StatementSemantics.applyAll_append, hsave, Option.bind_some]
  cases change with
  | none => exact ⟨mid, rfl⟩
  | some c =>
    have hmem : c ∈ mid.parameters.changes.rows := hchanges ▸ hchange c rfl
    simpa using saveChange_applies hmem (appliedChange now c)

theorem isStandard_entry {tables : CharacterTables} {changedBy : String} (p : ConfigParameter) :
    isStandard (.obj (parameterUpdatedEntry tables changedBy p).metadataJson) = true := by
  rw [isStandard_obj]
  intro kv hkv
  simp only [parameterUpdatedEntry, List.mem_cons, List.not_mem_nil, or_false] at hkv
  rcases hkv with rfl | rfl | rfl | rfl
  · rfl
  · rfl
  · rfl
  · rfl

/-- The entry of a promotion is acceptable where the name of the caller fits. -/
theorem parameterUpdatedEntry_acceptable {crypto : AuditCrypto} {tenants : List Tenant}
    {tables : CharacterTables} {changedBy : String} {p : ConfigParameter}
    (hkey : text p.parameterKey = some p.parameterKey) (hactor : (varchar 120 changedBy).isSome)
    (hsigningKey : (varchar 60 crypto.signingKeyId).isSome) :
    Acceptable crypto tenants (parameterUpdatedEntry tables changedBy p) where
  columns := {
    severity := rfl
    eventType := rfl
    eventSubtype := by
      change (varchar 60 "PARAMETER_UPDATED").isSome = true
      decide
    tenantSlug := rfl
    actor := hactor
    sourceIp := rfl
    description := by
      have hrepr : ∀ s, text (String.ofList (reprText tables.isPrintable s)) =
          some (String.ofList (reprText tables.isPrintable s)) := by
        intro s
        rw [text_iff, String.toList_ofList]
        exact reprText_no_nul _ _
      have hlead : text "Config parameter '" = some "Config parameter '" := by decide
      have hupdated : text "' updated: " = some "' updated: " := by decide
      have harrow : text " -> " = some " -> " := by decide
      have htext : ∀ previous new, ∃ stored, text ("Config parameter '" ++ p.parameterKey ++
          "' updated: " ++ String.ofList (reprText tables.isPrintable previous) ++ " -> " ++
          String.ofList (reprText tables.isPrintable new)) = some stored := by
        intro previous new
        exact ⟨_, text_append (text_append (text_append (text_append (text_append hlead hkey)
          hupdated) (hrepr previous)) harrow) (hrepr new)⟩
      exact Option.isSome_iff_exists.mpr (htext _ _)
    metadataJson := Option.isSome_iff_exists.mpr
      ⟨_, if_pos (isStandard_sanitizeMetadata (isStandard_entry p))⟩
    prevHash := rfl
    signingKeyId := hsigningKey }
  tenant := rfl

section

variable {crypto : AuditCrypto} {tables : CharacterTables} {durable work : Db} {n : ℕ}

/-- The rule of the loop, where the log takes the entries. -/
theorem applyParameters_admitted (hdigest : ∀ bs, (crypto.sha256 bs).length = 32)
    {env : ConfigManagerEnv} {changedBy : String} {s : ParameterStore}
    {parameters : List ConfigParameter} {done : List Uuid} {k : ℕ}
    {post : Except ServiceError ℕ → Db → Db → ℕ → Prop}
    (hrest : Remaining s done parameters)
    (hstaged : ∀ p ∈ parameters, StagedApart p ∧ p.pendingValue.isSome)
    (hactor : (varchar 120 changedBy).isSome)
    (hpromoted : Promoted env changedBy s work.parameters done)
    (h : Admissible crypto work.tenancy.tenants.rows work.auditLog n
      (applyAppends tables env changedBy k parameters))
    (applied : ∀ w m, post (.ok parameters.length) durable w m) :
    (applyParameters crypto tables env changedBy k parameters).wp postgres post durable work n := by
  induction parameters generalizing work k n done post with
  | nil => exact Request.wp_return (applied work n)
  | cons p parameters ih =>
    obtain ⟨hapart, hsome⟩ := hstaged p List.mem_cons_self
    have hid := hrest.new p List.mem_cons_self
    have hrow : p ∈ work.parameters.parameters.rows := by
      rw [hpromoted.parameters]
      exact List.mem_map.mpr ⟨p, hrest.rows p List.mem_cons_self, if_neg hid⟩
    have hchange : ∀ c, (pendingChanges (env.changeOrder p.id) work.parameters p.id).head? = some c →
        c ∈ work.parameters.changes.rows := by
      intro c hc
      exact List.mem_of_mem_filter (mem_pendingChanges.mp (List.mem_of_mem_head? hc)).1
    obtain ⟨sent, hsent⟩ := promoteStatements_apply hrow hapart hsome hchange (env.now k)
    have hsame := applyAll_sameLog domain_promoteStatements hsent
    have hstep := Promoted.step hactor (hrest.rows p List.mem_cons_self) hid hpromoted hsent
    apply (Request.wp_bind ..).mpr
    rw [Request.wp_select]
    apply (Request.wp_bind ..).mpr
    apply append_admitted hdigest h hsent hsame
    intro row happended hlog
    let next : Db := { sent with auditLog := sent.auditLog ++ [row] }
    have hnext : Promoted env changedBy s next.parameters (done ++ [p.id]) := hstep
    have hadmissible : Admissible crypto next.tenancy.tenants.rows next.auditLog (n + 1)
        (applyAppends tables env changedBy (k + 1) parameters) := by
      change Admissible crypto sent.tenancy.tenants.rows (sent.auditLog ++ [row]) (n + 1) _
      rw [hsame.tenancy, hsame.auditLog]
      exact hlog
    apply (Request.wp_bind ..).mpr
    exact ih hrest.tail (fun q hq => hstaged q (List.mem_cons_of_mem _ hq)) hnext hadmissible
      fun w m => Request.wp_return (applied w m)

theorem payload_applyAppends {P : AuditLogEntryCreate → Prop} {env : ConfigManagerEnv}
    {changedBy : String} {parameters : List ConfigParameter} {k : ℕ}
    (h : ∀ p ∈ parameters, P (parameterUpdatedEntry tables changedBy p)) :
    ∀ a ∈ applyAppends tables env changedBy k parameters, P a.2 := by
  induction parameters generalizing k with
  | nil => exact fun a ha => nomatch ha
  | cons p parameters ih =>
    intro a ha
    rcases List.mem_cons.mp ha with rfl | ha
    · exact h p List.mem_cons_self
    · exact ih (fun q hq => h q (List.mem_cons_of_mem _ hq)) a ha

theorem length_stagedParameters (before : Uuid → Uuid → Bool) (s : ParameterStore) :
    (stagedParameters before s).length =
      s.parameters.rows.countP fun p => p.pendingValue.isSome := by
  rw [stagedParameters, ← List.countP_eq_length_filter]
  exact (s.parameters.scan_perm before).countP_eq _

theorem applyPendingChanges_count (s : Store Db) (env : ConfigManagerEnv) (changedBy : String)
    {count : ℕ} (h : ((applyPendingChanges crypto tables env changedBy).serial postgres s.db s.db
      s.sequence).result = .ok count) :
    count = s.db.parameters.parameters.rows.countP fun p => p.pendingValue.isSome := by
  have hwp : (applyPendingChanges crypto tables env changedBy).wp postgres (fun result _ _ _ =>
      ∀ count, result = .ok count →
        count = s.db.parameters.parameters.rows.countP fun p => p.pendingValue.isSome)
      s.db s.db s.sequence := by
    apply (Request.wp_bind ..).mpr
    rw [Request.wp_select]
    apply (Request.wp_bind ..).mpr
    apply applyParameters_performs (.start _ _) (.nil env changedBy s.db.parameters)
      (.start crypto s.db s.sequence)
    · intro error w m _ count hcount
      nomatch hcount
    · intro w m _
      apply Request.wp_commitTransaction_bind
      apply Request.wp_return
      intro count hcount
      rw [← Except.ok.inj hcount, length_stagedParameters]
  exact (Request.serial_sound hwp).elim fun _ hcounts => hcounts count h

end

/-- What an apply relies on: a hash has 32 bytes, the names of the caller and of the key fit their
columns, the keys of the parameters are texts as their column holds them, and what is drawn and
computed for the entries is new. -/
structure Surroundings (crypto : AuditCrypto) (tables : CharacterTables) (env : ConfigManagerEnv)
    (changedBy : String) (s : Store Db) : Prop where
  sha256_length : ∀ bs, (crypto.sha256 bs).length = 32
  signingKeyId : (varchar 60 crypto.signingKeyId).isSome
  actor : (varchar 120 changedBy).isSome
  keys : ∀ p ∈ s.db.parameters.parameters.rows, text p.parameterKey = some p.parameterKey
  entries : Fresh crypto s.db.auditLog s.sequence
    (applyAppends tables env changedBy 0 (stagedParameters env.parameterOrder s.db.parameters))

section

variable {crypto : AuditCrypto} {tables : CharacterTables}

theorem applyPendingChanges_answered {s : Store Db} {env : ConfigManagerEnv} {changedBy : String}
    (h : Surroundings crypto tables env changedBy s)
    (hapart : ∀ p ∈ s.db.parameters.parameters.rows, StagedApart p) :
    ((applyPendingChanges crypto tables env changedBy).serial postgres s.db s.db
      s.sequence).result =
      .ok (s.db.parameters.parameters.rows.countP fun p => p.pendingValue.isSome) := by
  have hadmissible : Admissible crypto s.db.tenancy.tenants.rows s.db.auditLog s.sequence
      (applyAppends tables env changedBy 0
        (stagedParameters env.parameterOrder s.db.parameters)) :=
    { h.entries with
      payloads := payload_applyAppends fun p hp => parameterUpdatedEntry_acceptable
        (h.keys p (stagedParameters_mem hp)) h.actor h.signingKeyId }
  have hwp : (applyPendingChanges crypto tables env changedBy).wp postgres (fun result _ _ _ =>
      result = .ok (s.db.parameters.parameters.rows.countP fun p => p.pendingValue.isSome))
      s.db s.db s.sequence := by
    apply (Request.wp_bind ..).mpr
    rw [Request.wp_select]
    apply (Request.wp_bind ..).mpr
    apply applyParameters_admitted h.sha256_length (.start _ _) _ h.actor
      (.nil env changedBy s.db.parameters) hadmissible
    · intro w m
      apply Request.wp_commitTransaction_bind
      apply Request.wp_return
      rw [length_stagedParameters]
    · intro p hp
      exact ⟨hapart p (stagedParameters_mem hp), (List.mem_filter.mp hp).2⟩
  exact (Request.serial_sound hwp).elim fun _ hresult => hresult

/-! ## All counts -/

variable (crypto tables) in
/-- In every state that a run reaches from parameters with nothing staged, the dashboard, the tiers
of the overview and an immediate apply count the parameters that have a pending change, and the
sections show every parameter once. -/
theorem pending_counts_agree {store : Store Db}
    (hnone : ∀ p ∈ store.db.parameters.parameters.rows, p.pendingValue = none)
    (rs : List ParameterRequest) {collate : String → String → Bool} (hcollate : Collation collate)
    (now : Instant) (env : ConfigManagerEnv) (before : Uuid → Uuid → Bool) (changedBy : String) :
    let s := execAll crypto tables store rs
    let parameters := s.db.parameters.parameters.rows
    let pending := parameters.countP ConfigParameter.hasPendingChange
    (∃ summary, ((getSummary now).serial postgres s.db s.db s.sequence).result = .ok summary ∧
      summary.configurationsWithPendingChanges = pending) ∧
    (∃ overview, ((getConfigManagerOverview collate env before).serial postgres s.db s.db
        s.sequence).result = .ok overview ∧
      (overview.tierSummary.map ConfigTierSummary.pending).sum = pending ∧
      (overview.sections.flatMap Prod.snd).Perm (parameters.map ConfigParameterRead.fromModel)) ∧
    (∀ count, ((applyPendingChanges crypto tables env changedBy).serial postgres s.db s.db
        s.sequence).result = .ok count → count = pending) ∧
    (Surroundings crypto tables env changedBy s →
      ((applyPendingChanges crypto tables env changedBy).serial postgres s.db s.db
        s.sequence).result = .ok pending) := by
  intro s parameters pending
  have hapart : ∀ p ∈ parameters, StagedApart p := stagedApart_execAll hnone rs
  have hcounts : (parameters.countP fun p => p.pendingValue.isSome) = pending := by
    apply List.countP_congr
    intro p hp
    rw [(hapart p hp).hasPendingChange]
  refine ⟨⟨_, rfl, hcounts⟩, ⟨_, getConfigManagerOverview_result _ _ _ _ _, ?_, ?_⟩, ?_, ?_⟩
  · have htiers := tierCounts_pending (sortedParameters collate env s.db.parameters)
    rw [(sortedParameters_perm env s.db.parameters).countP_eq] at htiers
    rw [overviewOf, List.map_map]
    exact htiers
  · exact hcollate.sections_perm env s.db.parameters
  · intro count hcount
    rw [applyPendingChanges_count s env changedBy hcount]
    exact hcounts
  · intro hsurroundings
    rw [applyPendingChanges_answered hsurroundings hapart]
    exact congrArg Except.ok hcounts

end

theorem collation_codepoints : Collation fun a b => decide (a ≤ b) where
  total a b := by simpa using String.le_total a b
  trans a b c hab hbc := by
    rw [decide_eq_true_eq] at hab hbc ⊢
    exact String.le_trans hab hbc
  antisymm a b hab hba := by
    rw [decide_eq_true_eq] at hab hba
    exact String.le_antisymm hab hba

/-- One value is staged. -/
theorem pending_counts_agree_sample :
    let s := execAll sha256Crypto asciiTables sampleStore [sampleStage 1 "b"]
    (∃ summary, ((getSummary 63839664000000000).serial postgres s.db s.db s.sequence).result =
        .ok summary ∧ summary.configurationsWithPendingChanges = 1) ∧
      ((applyPendingChanges sha256Crypto asciiTables (sampleManagerEnv 2) "admin@nexus").serial
        postgres s.db s.db s.sequence).result = .ok 1 := by
  intro s
  have hnone : ∀ p ∈ sampleStore.db.parameters.parameters.rows, p.pendingValue = none := by
    intro p hp
    rw [List.mem_singleton.mp hp]
    rfl
  have hone : s.db.parameters.parameters.rows.countP ConfigParameter.hasPendingChange = 1 := by
    decide +kernel
  have hsurroundings : Surroundings sha256Crypto asciiTables (sampleManagerEnv 2) "admin@nexus"
      s := {
    sha256_length := Sha256.length_sha256
    signingKeyId := by decide
    actor := by decide
    keys := by decide +kernel
    entries := by decide +kernel }
  obtain ⟨hsummary, -, -, happly⟩ := pending_counts_agree sha256Crypto asciiTables hnone
    [sampleStage 1 "b"] collation_codepoints 63839664000000000 (sampleManagerEnv 2)
    (fun a b => decide (a ≤ b)) "admin@nexus"
  have hanswer := happly hsurroundings
  rw [hone] at hanswer hsummary
  exact ⟨hsummary, hanswer⟩

end NexusEngine.ParameterPending
