import NexusEngine.TenancyLifecycle
import NexusEngine.NotificationService

/-!
# Partial updates

An update of a tenant or of an alert rule assigns every field that the body contains, a `null`
too. It goes through exactly where no `null` meets a `NOT NULL` column and the changed texts fit,
and then it changes the given columns and no others.
-/

namespace NexusEngine.PartialUpdates

open TransactionalRequests KeyedTables StoredColumns CalendarTime TenancyTables Database
  TenancyService TenancyLifecycle NotificationTables NotificationService

/-! ## Columns -/

section

variable {α : Type}

/-- A `NOT NULL` column takes what is given: no `null`, and a value that it stores already or that
fits. -/
def Writable (column : α → Option α) (old : α) : Option (Option α) → Prop
  | none => True
  | some none => False
  | some (some a) => a = old ∨ (column a).isSome = true

def WritableNull (column : α → Option α) (old : Option α) : Option (Option α) → Prop
  | none => True
  | some none => True
  | some (some a) => some a = old ∨ (column a).isSome = true

/-- A column holds the given value, as it stores it, and keeps the old one where none is given. -/
def Holds (column : α → Option α) (given : Option (Option α)) (old new : α) : Prop :=
  match given with
  | none => new = old
  | some none => False
  | some (some a) => new = a ∨ column a = some new

def HoldsNull (column : α → Option α) (given : Option (Option α)) (old new : Option α) : Prop :=
  match given with
  | none => new = old
  | some none => new = none
  | some (some a) => new = some a ∨ ∃ b, column a = some b ∧ new = some b

/-- A column of flags or members takes everything but `null`. -/
theorem writable_some {old : α} {given : Option (Option α)} :
    Writable some old given ↔ given ≠ some none := by
  rcases given with _ | _ | a <;> simp [Writable]

variable [DecidableEq α] {column : α → Option α}

theorem notNull_assigned_isSome {old : α} {given : Option (Option α)} :
    (∃ v, notNull column (assigned (some old) given) = some v) ↔ Writable column old given := by
  rcases given with _ | _ | a
  · simp [assigned, notNull, Writable]
  · simp [assigned, changed, notNull, Writable]
  · by_cases h : old = a
    · simp [assigned, changed, notNull, Writable, h]
    · have hne : a ≠ old := Ne.symm h
      simp [assigned, changed, notNull, Writable, h, hne, Option.isSome_iff_exists]

theorem notNull_assigned_holds {old : α} {given v : Option (Option α)}
    (h : notNull column (assigned (some old) given) = some v) :
    Holds column given old ((v.getD none).getD old) := by
  rcases given with _ | _ | a
  · cases h
    rfl
  · simp [assigned, changed, notNull] at h
  · by_cases hsame : old = a
    · simp only [assigned, changed, hsame, if_true, notNull, Option.some.injEq] at h
      rw [← h, hsame]
      exact .inl rfl
    · simp only [assigned, changed, Option.some.injEq, hsame, if_false, notNull,
        Option.map_eq_some_iff] at h
      obtain ⟨b, hb, rfl⟩ := h
      exact .inr hb

theorem nullable_assigned_isSome {old : Option α} {given : Option (Option α)} :
    (∃ v, nullable (nullable column) (assigned old given) = some v) ↔
      WritableNull column old given := by
  rcases given with _ | _ | a
  · simp [assigned, nullable, WritableNull]
  · by_cases h : old = none <;> simp [assigned, changed, nullable, WritableNull, h]
  · by_cases h : old = some a
    · simp [assigned, changed, nullable, WritableNull, h]
    · have hne : some a ≠ old := Ne.symm h
      simp [assigned, changed, nullable, WritableNull, h, hne, Option.isSome_iff_exists]

theorem nullable_assigned_holds {old : Option α} {given v : Option (Option α)}
    (h : nullable (nullable column) (assigned old given) = some v) :
    HoldsNull column given old (v.getD old) := by
  rcases given with _ | _ | a
  · cases h
    rfl
  · by_cases hsame : old = none
    · simp only [assigned, changed, hsame, if_true, nullable, Option.some.injEq] at h
      rw [← h, hsame]
      rfl
    · simp only [assigned, changed, hsame, if_false, nullable, Option.map_some,
        Option.some.injEq] at h
      rw [← h]
      rfl
  · by_cases hsame : old = some a
    · simp only [assigned, changed, hsame, if_true, nullable, Option.some.injEq] at h
      rw [← h, hsame]
      exact .inl rfl
    · simp only [assigned, changed, hsame, if_false, nullable, Option.map_eq_some_iff] at h
      obtain ⟨_, ⟨b, hb, rfl⟩, rfl⟩ := h
      exact .inr ⟨b, hb, rfl⟩

end

/-! ## Tenants -/

/-- The tenant can be updated by the payload. -/
structure TenantWritable (payload : TenantUpdate) (tenant : Tenant) : Prop where
  displayName : Writable (varchar 120) tenant.displayName payload.displayName
  tier : payload.tier ≠ some none
  isolationMode : payload.isolationMode ≠ some none
  region : Writable (varchar 40) tenant.region payload.region
  networkCidr : WritableNull (varchar 40) tenant.networkCidr payload.networkCidr
  networkVpc : WritableNull (varchar 30) tenant.networkVpc payload.networkVpc
  networkShared : payload.networkShared ≠ some none
  dekLabel : WritableNull (varchar 60) tenant.dekLabel payload.dekLabel
  dbSchemaValid : payload.dbSchemaValid ≠ some none
  encryptionValid : payload.encryptionValid ≠ some none
  eventsPerSecond : payload.eventsPerSecond ≠ some none

/-- The row that an update by the payload leaves. -/
structure TenantHolds (payload : TenantUpdate) (tenant row : Tenant) : Prop where
  displayName : Holds (varchar 120) payload.displayName tenant.displayName row.displayName
  tier : Holds some payload.tier tenant.tier row.tier
  isolationMode : Holds some payload.isolationMode tenant.isolationMode row.isolationMode
  region : Holds (varchar 40) payload.region tenant.region row.region
  networkCidr : HoldsNull (varchar 40) payload.networkCidr tenant.networkCidr row.networkCidr
  networkVpc : HoldsNull (varchar 30) payload.networkVpc tenant.networkVpc row.networkVpc
  networkShared : Holds some payload.networkShared tenant.networkShared row.networkShared
  dekLabel : HoldsNull (varchar 60) payload.dekLabel tenant.dekLabel row.dekLabel
  dbSchemaValid : Holds some payload.dbSchemaValid tenant.dbSchemaValid row.dbSchemaValid
  encryptionValid : Holds some payload.encryptionValid tenant.encryptionValid row.encryptionValid
  eventsPerSecond : Holds some payload.eventsPerSecond tenant.eventsPerSecond row.eventsPerSecond
  others : row.id = tenant.id ∧ row.slug = tenant.slug ∧ row.orgId = tenant.orgId ∧
    row.status = tenant.status ∧ row.dbSchemaName = tenant.dbSchemaName

theorem tenant_bound_isSome {payload : TenantUpdate} {tenant : Tenant} :
    (∃ b, (payload.patch tenant).bound = some b) ↔ TenantWritable payload tenant := by
  constructor
  · rintro ⟨b, hb⟩
    obtain ⟨h₁, h₂, h₃, -, h₅, h₆, h₇, h₈, h₉, h₁₀, h₁₁, h₁₂⟩ := TenantPatch.bound_eq_some.mp hb
    exact
      { displayName := notNull_assigned_isSome.mp ⟨_, h₁⟩
        tier := writable_some.mp (notNull_assigned_isSome.mp ⟨_, h₂⟩)
        isolationMode := writable_some.mp (notNull_assigned_isSome.mp ⟨_, h₃⟩)
        region := notNull_assigned_isSome.mp ⟨_, h₅⟩
        networkCidr := nullable_assigned_isSome.mp ⟨_, h₇⟩
        networkVpc := nullable_assigned_isSome.mp ⟨_, h₈⟩
        networkShared := writable_some.mp (notNull_assigned_isSome.mp ⟨_, h₉⟩)
        dekLabel := nullable_assigned_isSome.mp ⟨_, h₁₀⟩
        dbSchemaValid := writable_some.mp (notNull_assigned_isSome.mp ⟨_, h₆⟩)
        encryptionValid := writable_some.mp (notNull_assigned_isSome.mp ⟨_, h₁₁⟩)
        eventsPerSecond := writable_some.mp (notNull_assigned_isSome.mp ⟨_, h₁₂⟩) }
  · intro h
    obtain ⟨b₁, h₁⟩ := notNull_assigned_isSome.mpr h.displayName
    obtain ⟨b₂, h₂⟩ := notNull_assigned_isSome.mpr (writable_some.mpr h.tier)
    obtain ⟨b₃, h₃⟩ := notNull_assigned_isSome.mpr (writable_some.mpr h.isolationMode)
    obtain ⟨b₅, h₅⟩ := notNull_assigned_isSome.mpr h.region
    obtain ⟨b₆, h₆⟩ := notNull_assigned_isSome.mpr (writable_some.mpr h.dbSchemaValid)
    obtain ⟨b₇, h₇⟩ := nullable_assigned_isSome.mpr h.networkCidr
    obtain ⟨b₈, h₈⟩ := nullable_assigned_isSome.mpr h.networkVpc
    obtain ⟨b₉, h₉⟩ := notNull_assigned_isSome.mpr (writable_some.mpr h.networkShared)
    obtain ⟨b₁₀, h₁₀⟩ := nullable_assigned_isSome.mpr h.dekLabel
    obtain ⟨b₁₁, h₁₁⟩ := notNull_assigned_isSome.mpr (writable_some.mpr h.encryptionValid)
    obtain ⟨b₁₂, h₁₂⟩ := notNull_assigned_isSome.mpr (writable_some.mpr h.eventsPerSecond)
    exact ⟨⟨b₁, b₂, b₃, none, b₅, b₆, b₇, b₈, b₉, b₁₀, b₁₁, b₁₂⟩,
      TenantPatch.bound_eq_some.mpr ⟨h₁, h₂, h₃, rfl, h₅, h₆, h₇, h₈, h₉, h₁₀, h₁₁, h₁₂⟩⟩

theorem tenant_bound_holds {payload : TenantUpdate} {tenant : Tenant} {b : TenantPatch}
    (hb : (payload.patch tenant).bound = some b) : TenantHolds payload tenant (b.apply tenant) := by
  obtain ⟨h₁, h₂, h₃, h₄, h₅, h₆, h₇, h₈, h₉, h₁₀, h₁₁, h₁₂⟩ := TenantPatch.bound_eq_some.mp hb
  have hstatus : b.status = none := (Option.some.inj h₄).symm
  exact
    { displayName := notNull_assigned_holds h₁
      tier := notNull_assigned_holds h₂
      isolationMode := notNull_assigned_holds h₃
      region := notNull_assigned_holds h₅
      networkCidr := nullable_assigned_holds h₇
      networkVpc := nullable_assigned_holds h₈
      networkShared := notNull_assigned_holds h₉
      dekLabel := nullable_assigned_holds h₁₀
      dbSchemaValid := notNull_assigned_holds h₆
      encryptionValid := notNull_assigned_holds h₁₁
      eventsPerSecond := notNull_assigned_holds h₁₂
      others := ⟨rfl, rfl, rfl, by simp [TenantPatch.apply, hstatus], rfl⟩ }

/-- The update is answered, and leaves the row as the payload says and everything else as it
was. -/
def TenantUpdated (s : Store Db) (tenantId : Uuid) (payload : TenantUpdate) (tenant : Tenant) :
    Prop :=
  Answered (updateTenant tenantId payload) s ∧
    ∃ tenants row, (s.exec postgres (updateTenant tenantId payload)).db = withTenants s.db tenants ∧
      TenantHolds payload tenant row ∧
      ∀ k, tenants.find? k = if k = tenantId then some row else s.db.tenancy.tenants.find? k

/-- How an update of a tenant that is there ends. -/
theorem updateTenant_ends {s : Store Db} {tenantId : Uuid} {payload : TenantUpdate}
    {tenant : Tenant} (hfind : s.db.tenancy.tenants.find? tenantId = some tenant) :
    (updateTenant tenantId payload).wp postgres
      (fun result durable _ _ =>
        match result with
        | .ok _ => TenantWritable payload tenant ∧ ∃ tenants row, durable = withTenants s.db tenants ∧
            TenantHolds payload tenant row ∧
            ∀ k, tenants.find? k = if k = tenantId then some row else s.db.tenancy.tenants.find? k
        | .error _ => ¬ TenantWritable payload tenant ∧ durable = s.db) s.db s.db s.sequence := by
  apply (Request.wp_bind ..).mpr
  apply getTenant_wp
  · intro hnone
    cases hfind.symm.trans hnone
  · intro tenant' htenant'
    cases hfind.symm.trans htenant'
    refine saveTenant_wp hfind (fun hnone => ⟨fun hwritable => ?_, rfl⟩)
      fun bound tenants row hbound hreplaces => ?_
    · obtain ⟨b, hb⟩ := tenant_bound_isSome.mpr hwritable
      cases hb.symm.trans hnone
    · refine ⟨tenant_bound_isSome.mp ⟨bound, hbound⟩, tenants, bound.apply tenant, rfl,
        tenant_bound_holds hbound, fun k => ?_⟩
      exact (hreplaces k).trans (Table.map_find? hfind k)

theorem tenantUpdated_iff {s : Store Db} {tenantId : Uuid} {payload : TenantUpdate}
    {tenant : Tenant} (hfind : s.db.tenancy.tenants.find? tenantId = some tenant) :
    TenantUpdated s tenantId payload tenant ↔ TenantWritable payload tenant := by
  have hwp : (updateTenant tenantId payload).wp postgres _ s.db s.db s.sequence :=
    updateTenant_ends hfind
  obtain ⟨_, hends⟩ := Request.serial_sound hwp
  unfold TenantUpdated Answered
  cases hresult : ((updateTenant tenantId payload).serial postgres s.db s.db s.sequence).result with
  | ok row =>
    rw [hresult] at hends
    obtain ⟨hwritable, hdurable⟩ := hends
    exact ⟨fun _ => hwritable, fun _ => ⟨⟨row, rfl⟩, hdurable⟩⟩
  | error error =>
    rw [hresult] at hends
    constructor
    · rintro ⟨⟨_, hok⟩, -⟩
      cases hok
    · intro hwritable
      exact absurd hwritable hends.1

/-! ## Alert rules -/

/-- A text that the database stores already or that has no NUL character. -/
def SendableText (old : String) (given : Option (Option String)) : Prop :=
  ∀ t, given = some (some t) → t = old ∨ (text t).isSome = true

/-- The rule can be updated by the payload. -/
structure AlertRuleWritable (payload : AlertRuleUpdate) (rule : AlertRule) : Prop where
  name : payload.name ≠ some none ∧ SendableText rule.name payload.name
  description : ∀ t, payload.description = some (some t) →
    some t = rule.description ∨ (text t).isSome = true
  source : payload.source ≠ some none ∧ SendableText rule.source payload.source
  condition : payload.condition ≠ some none ∧ SendableText rule.condition payload.condition
  thresholdSeverity : payload.thresholdSeverity ≠ some none
  channel : payload.channel ≠ some none
  target : payload.target ≠ some none ∧ SendableText rule.target payload.target
  isEnabled : payload.isEnabled ≠ some none

/-- The row that an update by the payload leaves. -/
structure AlertRuleHolds (payload : AlertRuleUpdate) (rule row : AlertRule) : Prop where
  name : Holds text payload.name rule.name row.name
  description : HoldsNull text payload.description rule.description row.description
  source : Holds text payload.source rule.source row.source
  condition : Holds text payload.condition rule.condition row.condition
  thresholdSeverity :
    Holds some payload.thresholdSeverity rule.thresholdSeverity row.thresholdSeverity
  channel : Holds some payload.channel rule.channel row.channel
  target : Holds text payload.target rule.target row.target
  isEnabled : Holds some payload.isEnabled rule.isEnabled row.isEnabled
  others : row.id = rule.id ∧ row.createdBy = rule.createdBy ∧
    row.lastTriggeredAt = rule.lastTriggeredAt ∧ row.triggerCount = rule.triggerCount ∧
    row.createdAt = rule.createdAt

/-- A text within the width is stored where it holds no NUL character. -/
theorem varchar_eq_text {n : ℕ} {t : String} (h : t.toList.length ≤ n) : varchar n t = text t := by
  cases ht : text t with
  | none => rw [varchar, ht, Option.bind_none]
  | some t' =>
    have hsame : t' = t := text_eq_some ht
    rw [hsame] at ht ⊢
    exact varchar_of_text ht h

theorem bounded_notNull {low high : ℕ} {old : String} {given : Option (Option String)}
    (h : Bounded low high given) :
    notNull (varchar high) (assigned (some old) given) =
      notNull text (assigned (some old) given) := by
  rcases given with _ | _ | t
  · rfl
  · rfl
  · have hvarchar : varchar high t = text t := varchar_eq_text (h t rfl).2
    by_cases hsame : old = t
    · simp [assigned, changed, hsame, notNull]
    · simp [assigned, changed, hsame, notNull, hvarchar]

theorem writable_text {old : String} {given : Option (Option String)} :
    Writable text old given ↔ given ≠ some none ∧ SendableText old given := by
  rcases given with _ | _ | t <;> simp [Writable, SendableText]

theorem writableNull_text {old : Option String} {given : Option (Option String)} :
    WritableNull text old given ↔
      ∀ t, given = some (some t) → some t = old ∨ (text t).isSome = true := by
  rcases given with _ | _ | t <;> simp [WritableNull]

theorem rule_bound_eq_some {p b : AlertRulePatch} :
    p.bound = some b ↔
      notNull (varchar 120) p.name = some b.name ∧
      nullable (nullable text) p.description = some b.description ∧
      notNull (varchar 40) p.source = some b.source ∧
      notNull (varchar 255) p.condition = some b.condition ∧
      notNull some p.thresholdSeverity = some b.thresholdSeverity ∧
      notNull some p.channel = some b.channel ∧ notNull (varchar 200) p.target = some b.target ∧
      notNull some p.isEnabled = some b.isEnabled := by
  constructor
  · intro h
    simp only [AlertRulePatch.bound, Option.bind_eq_bind, Option.bind_eq_some_iff] at h
    obtain ⟨_, h₁, _, h₂, _, h₃, _, h₄, _, h₅, _, h₆, _, h₇, _, h₈, hb⟩ := h
    cases hb
    exact ⟨h₁, h₂, h₃, h₄, h₅, h₆, h₇, h₈⟩
  · rintro ⟨h₁, h₂, h₃, h₄, h₅, h₆, h₇, h₈⟩
    simp [AlertRulePatch.bound, h₁, h₂, h₃, h₄, h₅, h₆, h₇, h₈]

theorem patch_bound_eq_some {payload : AlertRuleUpdate} {rule : AlertRule} {b : AlertRulePatch}
    (haccepted : payload.Accepted) :
    (payload.patch rule).bound = some b ↔
      notNull text (payload.patch rule).name = some b.name ∧
      nullable (nullable text) (payload.patch rule).description = some b.description ∧
      notNull text (payload.patch rule).source = some b.source ∧
      notNull text (payload.patch rule).condition = some b.condition ∧
      notNull some (payload.patch rule).thresholdSeverity = some b.thresholdSeverity ∧
      notNull some (payload.patch rule).channel = some b.channel ∧
      notNull text (payload.patch rule).target = some b.target ∧
      notNull some (payload.patch rule).isEnabled = some b.isEnabled := by
  rw [rule_bound_eq_some]
  simp only [AlertRuleUpdate.patch, bounded_notNull haccepted.name,
    bounded_notNull haccepted.source, bounded_notNull haccepted.condition,
    bounded_notNull haccepted.target]

theorem rule_bound_isSome {payload : AlertRuleUpdate} {rule : AlertRule}
    (haccepted : payload.Accepted) :
    (∃ b, (payload.patch rule).bound = some b) ↔ AlertRuleWritable payload rule := by
  constructor
  · rintro ⟨b, hb⟩
    obtain ⟨h₁, h₂, h₃, h₄, h₅, h₆, h₇, h₈⟩ := (patch_bound_eq_some haccepted).mp hb
    exact
      { name := writable_text.mp (notNull_assigned_isSome.mp ⟨_, h₁⟩)
        description := writableNull_text.mp (nullable_assigned_isSome.mp ⟨_, h₂⟩)
        source := writable_text.mp (notNull_assigned_isSome.mp ⟨_, h₃⟩)
        condition := writable_text.mp (notNull_assigned_isSome.mp ⟨_, h₄⟩)
        thresholdSeverity := writable_some.mp (notNull_assigned_isSome.mp ⟨_, h₅⟩)
        channel := writable_some.mp (notNull_assigned_isSome.mp ⟨_, h₆⟩)
        target := writable_text.mp (notNull_assigned_isSome.mp ⟨_, h₇⟩)
        isEnabled := writable_some.mp (notNull_assigned_isSome.mp ⟨_, h₈⟩) }
  · intro h
    obtain ⟨b₁, h₁⟩ := notNull_assigned_isSome.mpr (writable_text.mpr h.name)
    obtain ⟨b₂, h₂⟩ := nullable_assigned_isSome.mpr (writableNull_text.mpr h.description)
    obtain ⟨b₃, h₃⟩ := notNull_assigned_isSome.mpr (writable_text.mpr h.source)
    obtain ⟨b₄, h₄⟩ := notNull_assigned_isSome.mpr (writable_text.mpr h.condition)
    obtain ⟨b₅, h₅⟩ := notNull_assigned_isSome.mpr (writable_some.mpr h.thresholdSeverity)
    obtain ⟨b₆, h₆⟩ := notNull_assigned_isSome.mpr (writable_some.mpr h.channel)
    obtain ⟨b₇, h₇⟩ := notNull_assigned_isSome.mpr (writable_text.mpr h.target)
    obtain ⟨b₈, h₈⟩ := notNull_assigned_isSome.mpr (writable_some.mpr h.isEnabled)
    exact ⟨⟨b₁, b₂, b₃, b₄, b₅, b₆, b₇, b₈⟩,
      (patch_bound_eq_some haccepted).mpr ⟨h₁, h₂, h₃, h₄, h₅, h₆, h₇, h₈⟩⟩

theorem rule_bound_holds {payload : AlertRuleUpdate} {rule : AlertRule} {b : AlertRulePatch}
    (haccepted : payload.Accepted) (hb : (payload.patch rule).bound = some b) :
    AlertRuleHolds payload rule (b.apply rule) := by
  obtain ⟨h₁, h₂, h₃, h₄, h₅, h₆, h₇, h₈⟩ := (patch_bound_eq_some haccepted).mp hb
  exact
    { name := notNull_assigned_holds h₁
      description := nullable_assigned_holds h₂
      source := notNull_assigned_holds h₃
      condition := notNull_assigned_holds h₄
      thresholdSeverity := notNull_assigned_holds h₅
      channel := notNull_assigned_holds h₆
      target := notNull_assigned_holds h₇
      isEnabled := notNull_assigned_holds h₈
      others := ⟨rfl, rfl, rfl, rfl, rfl⟩ }

/-- No other rule has the name that is given. -/
def NameFree (s : NotificationStore) (ruleId : Uuid) (payload : AlertRuleUpdate) : Prop :=
  ∀ name, payload.name = some (some name) → ∀ r ∈ s.alertRules.rows, r.name = name → r.id = ruleId

section

variable {s : NotificationStore} {ruleId : Uuid} {payload : AlertRuleUpdate} {rule : AlertRule}
  {n : ℕ}

/-- The check of the name refuses only a text with a NUL character. -/
theorem assertNameFree_wp {post : Except ServiceError Unit → NotificationStore →
      NotificationStore → ℕ → Prop} (hid : rule.id = ruleId) (hfree : NameFree s ruleId payload)
    (refused : ¬ AlertRuleWritable payload rule → post (.error .rejected) s s n)
    (passed : post (.ok ()) s s n) :
    (assertNameFree rule (payload.name.getD none)).wp notificationTables post s s n := by
  unfold assertNameFree
  rcases hname : payload.name with _ | _ | name
  · exact Request.wp_return passed
  · exact Request.wp_return passed
  · simp only [Option.getD_some, Request.wp_ite, Request.wp_bind, Request.wp_ensure,
      Request.wp_select]
    refine ⟨fun _ => Request.wp_return passed, fun hchanged => ⟨fun hnul => ?_, fun _ => ?_⟩⟩
    · apply refused
      intro hwritable
      rcases hwritable.name.2 name hname with hsame | htext
      · exact hchanged hsame
      · exact hnul htext
    · refine ⟨fun hclash => absurd ?_ hclash, fun _ => passed⟩
      apply List.any_eq_false.mpr
      intro r hr hother
      simp only [Bool.and_eq_true, beq_iff_eq, bne_iff_ne, hid] at hother
      exact hother.2 (hfree name hname r hr hother.1)

/-- The rows after the update of a rule. -/
def ReplacesRule (s s' : NotificationStore) (ruleId : Uuid) (row : AlertRule) : Prop :=
  s'.notifications = s.notifications ∧
    ∀ k, s'.alertRules.find? k = if k = ruleId then some row else s.alertRules.find? k

/-- A name that is written is the given one. -/
theorem bound_name {b : AlertRulePatch} {name : String} (haccepted : payload.Accepted)
    (hb : (payload.patch rule).bound = some b) (hname : b.name = some (some name)) :
    payload.name = some (some name) := by
  have h := ((patch_bound_eq_some haccepted).mp hb).1
  rw [AlertRuleUpdate.patch, hname] at h
  rcases hgiven : payload.name with _ | _ | given
  · rw [hgiven] at h
    cases h
  · simp [hgiven, assigned, changed, notNull] at h
  · by_cases hsame : rule.name = given
    · simp [hgiven, assigned, changed, hsame, notNull] at h
    · simp only [hgiven, assigned, changed, Option.some.injEq, hsame, if_false, notNull,
        Option.map_eq_some_iff] at h
      obtain ⟨stored, hstored, heq⟩ := h
      rw [← heq, text_eq_some hstored]

theorem name_unclashed {b : AlertRulePatch} (haccepted : payload.Accepted)
    (hfree : NameFree s ruleId payload) (hb : (payload.patch rule).bound = some b) :
    (s.alertRules.rows.any fun r => r.id != ruleId && some (some r.name) == b.name) = false := by
  apply List.any_eq_false.mpr
  intro r hr hclash
  simp only [Bool.and_eq_true, bne_iff_ne, beq_iff_eq] at hclash
  exact hclash.1 (hfree r.name (bound_name haccepted hb hclash.2.symm) r hr rfl)

/-- The statements of an update whose name is free are accepted where its values are. -/
theorem applyAll_alertRuleStatements (hfind : s.alertRules.find? ruleId = some rule)
    (haccepted : payload.Accepted) (hfree : NameFree s ruleId payload) :
    (notificationTables.applyAll (alertRuleStatements ruleId (payload.patch rule)) s = none →
      (payload.patch rule).bound = none) ∧
    ∀ s', notificationTables.applyAll (alertRuleStatements ruleId (payload.patch rule)) s = some s' →
      ∃ b, (payload.patch rule).bound = some b ∧ ReplacesRule s s' ruleId (b.apply rule) := by
  unfold alertRuleStatements
  split
  · next hempty =>
    constructor
    · intro hnone
      cases hnone
    · intro s' hs'
      cases hs'
      refine ⟨{}, by rw [hempty]; rfl, rfl, fun k => ?_⟩
      by_cases hk : k = ruleId
      · rw [if_pos hk, hk, hfind]
        rfl
      · rw [if_neg hk]
  · rw [StatementSemantics.applyAll_singleton]
    constructor
    · intro hnone
      by_contra hbound
      obtain ⟨b, hb⟩ := Option.ne_none_iff_exists'.mp hbound
      have hupdate : ∃ rules, s.alertRules.update ruleId b.apply (fun _ => rfl) = some rules :=
        Table.update_isSome hfind
      obtain ⟨rules, hrules⟩ := hupdate
      have happly : s.updateAlertRule ruleId (payload.patch rule) =
          some { s with alertRules := rules } := by
        simp only [NotificationStore.updateAlertRule, hb, Option.bind_eq_bind, Option.bind_some,
          name_unclashed haccepted hfree hb, hrules, Bool.false_eq_true, if_false]
        rfl
      cases happly.symm.trans hnone
    · intro s' hs'
      obtain ⟨b, hb, hs'⟩ := Option.bind_eq_some_iff.mp hs'
      rw [name_unclashed haccepted hfree hb] at hs'
      obtain ⟨rules, hrules, hs'⟩ := Option.bind_eq_some_iff.mp hs'
      cases hs'
      refine ⟨b, hb, rfl, fun k => ?_⟩
      exact Table.find?_update_of_find? hrules hfind k

/-- How an update of a rule that is there ends, where the name is free. -/
theorem updateAlertRule_ends (hfind : s.alertRules.find? ruleId = some rule)
    (haccepted : payload.Accepted) (hfree : NameFree s ruleId payload) :
    (updateAlertRule ruleId payload).wp notificationTables
      (fun result durable _ _ =>
        match result with
        | .ok read => AlertRuleWritable payload rule ∧ ∃ row, read = alertRuleToRead row ∧
            AlertRuleHolds payload rule row ∧ ReplacesRule s durable ruleId row
        | .error _ => ¬ AlertRuleWritable payload rule ∧ durable = s) s s n := by
  obtain ⟨hrejected, hupdated⟩ := applyAll_alertRuleStatements hfind haccepted hfree
  simp only [updateAlertRule, getRuleOrm, Request.wp_bind, Request.wp_select, Request.wp_found,
    hfind]
  refine ⟨fun hnone => (nomatch hnone), fun found hfound => ?_⟩
  cases hfound
  apply assertNameFree_wp (Table.find?_eq_some.mp hfind).2 hfree
  · intro hwritable
    exact ⟨hwritable, rfl⟩
  apply Request.wp_send.mpr
  constructor
  · intro hnone
    refine ⟨fun hwritable => ?_, rfl⟩
    obtain ⟨b, hb⟩ := (rule_bound_isSome haccepted).mpr hwritable
    cases hb.symm.trans (hrejected hnone)
  · intro s' hs'
    obtain ⟨b, hb, hreplaces⟩ := hupdated s' hs'
    have hrow := hreplaces.2 ruleId
    rw [if_pos rfl] at hrow
    apply Request.wp_commitTransaction
    refine ⟨fun hnone => (nomatch hrow.symm.trans hnone), fun refreshed hrefreshed => ?_⟩
    cases hrow.symm.trans hrefreshed
    apply Request.wp_return
    exact ⟨(rule_bound_isSome haccepted).mp ⟨b, hb⟩, b.apply rule, rfl,
      rule_bound_holds haccepted hb, hreplaces⟩

end

/-- The update is answered, and leaves the row as the payload says and everything else as it
was. -/
def AlertRuleUpdated (s : Store NotificationStore) (ruleId : Uuid) (payload : AlertRuleUpdate)
    (rule : AlertRule) : Prop :=
  ∃ row,
    ((updateAlertRule ruleId payload).serial notificationTables s.db s.db s.sequence).result =
      .ok (alertRuleToRead row) ∧
    AlertRuleHolds payload rule row ∧
    ReplacesRule s.db (s.exec notificationTables (updateAlertRule ruleId payload)).db ruleId row

theorem alertRuleUpdated_iff {s : Store NotificationStore} {ruleId : Uuid}
    {payload : AlertRuleUpdate} {rule : AlertRule}
    (hfind : s.db.alertRules.find? ruleId = some rule) (haccepted : payload.Accepted)
    (hfree : NameFree s.db ruleId payload) :
    AlertRuleUpdated s ruleId payload rule ↔ AlertRuleWritable payload rule := by
  obtain ⟨_, hends⟩ :=
    Request.serial_sound (updateAlertRule_ends (n := s.sequence) hfind haccepted hfree)
  unfold AlertRuleUpdated
  cases hresult : ((updateAlertRule ruleId payload).serial notificationTables s.db s.db
    s.sequence).result with
  | ok read =>
    rw [hresult] at hends
    obtain ⟨hwritable, row, hread, hholds, hreplaces⟩ := hends
    exact ⟨fun _ => hwritable, fun _ => ⟨row, by rw [hread], hholds, hreplaces⟩⟩
  | error error =>
    rw [hresult] at hends
    constructor
    · rintro ⟨_, hok, -⟩
      cases hok
    · intro hwritable
      exact absurd hwritable hends.1

/-- An update goes through, changes the given columns and leaves the others, exactly where no
`NOT NULL` column is given as `null` and every changed text fits its column. The rows have no room
for a `null` in these columns: a statement that would write one is rejected. -/
theorem partial_updates_iff (tenants : Store Db) (rules : Store NotificationStore) :
    (∀ (tenantId : Uuid) (payload : TenantUpdate) (tenant : Tenant),
      tenants.db.tenancy.tenants.find? tenantId = some tenant →
      (TenantUpdated tenants tenantId payload tenant ↔ TenantWritable payload tenant)) ∧
    ∀ (ruleId : Uuid) (payload : AlertRuleUpdate) (rule : AlertRule),
      rules.db.alertRules.find? ruleId = some rule → payload.Accepted →
      NameFree rules.db ruleId payload →
      (AlertRuleUpdated rules ruleId payload rule ↔ AlertRuleWritable payload rule) :=
  ⟨fun _ _ _ hfind => tenantUpdated_iff hfind,
    fun _ _ _ hfind haccepted hfree => alertRuleUpdated_iff hfind haccepted hfree⟩

def sampleTenantRow : Tenant := newTenant ⟨7, 8⟩ sampleTenantCreate

def sampleTenants : Store Db where
  db := { emptyDb with tenancy :=
    { TenancyStore.empty with tenants := ⟨[sampleTenantRow], List.nodup_singleton _⟩ } }
  sequence := 1

def sampleRule : AlertRule :=
  ⟨5, "Key expiry", none, "hsm", "key.expires_in < 30d", .warning, .email, "ops@acme.test", true,
    "eve@acme.test", none, 0, 63839664000000000⟩

def sampleRules : Store NotificationStore where
  db := ⟨.empty, ⟨[sampleRule], List.nodup_singleton _⟩⟩
  sequence := 1

theorem sampleTenants_find? : sampleTenants.db.tenancy.tenants.find? 7 = some sampleTenantRow := rfl

theorem sampleRules_find? : sampleRules.db.alertRules.find? 5 = some sampleRule := rfl

theorem sampleRules_free (payload : AlertRuleUpdate) : NameFree sampleRules.db 5 payload := by
  intro name _ r hr _
  rw [List.mem_singleton.mp hr]
  rfl

/-- A payload without texts is accepted. -/
theorem accepted_of_no_text {payload : AlertRuleUpdate}
    (h : ∀ t, payload.name ≠ some (some t) ∧ payload.description ≠ some (some t) ∧
      payload.source ≠ some (some t) ∧ payload.condition ≠ some (some t) ∧
      payload.target ≠ some (some t)) : payload.Accepted where
  name t ht := absurd ht (h t).1
  description t ht := absurd ht (h t).2.1
  source t ht := absurd ht (h t).2.2.1
  condition t ht := absurd ht (h t).2.2.2.1
  target t ht := absurd ht (h t).2.2.2.2

/-- The region of a tenant is updated, and the rule is disabled while its description is
cleared. -/
theorem partial_updates_iff_sample :
    TenantUpdated sampleTenants 7 { region := some (some "eu-north-1"), dekLabel := some none }
        sampleTenantRow ∧
      AlertRuleUpdated sampleRules 5 { isEnabled := some (some false), description := some none }
        sampleRule := by
  constructor
  · apply ((partial_updates_iff sampleTenants sampleRules).1 7 _ _ sampleTenants_find?).mpr
    constructor <;> first | exact trivial | exact fun h => nomatch h | exact .inr (by decide)
  · apply ((partial_updates_iff sampleTenants sampleRules).2 5 _ _ sampleRules_find?
      (accepted_of_no_text fun t => by simp) (sampleRules_free _)).mpr
    constructor <;> simp [SendableText]

/-- The region of a tenant and the target of a rule are given as `null`: the schemas accept this,
and the database rejects it. -/
theorem null_updates_refused :
    ¬ TenantUpdated sampleTenants 7 { region := some none } sampleTenantRow ∧
      ({ target := some none } : AlertRuleUpdate).Accepted ∧
      ¬ AlertRuleUpdated sampleRules 5 { target := some none } sampleRule := by
  have haccepted : ({ target := some none } : AlertRuleUpdate).Accepted :=
    accepted_of_no_text fun t => by simp
  refine ⟨fun h => ?_, haccepted, fun h => ?_⟩
  · have hwritable := (tenantUpdated_iff sampleTenants_find?).mp h
    exact hwritable.region
  · have hwritable :=
      (alertRuleUpdated_iff sampleRules_find? haccepted (sampleRules_free _)).mp h
    exact hwritable.target.1 rfl

end NexusEngine.PartialUpdates
