import NexusEngine.AuditLogReads
import NexusEngine.MetadataSanitisation
import NexusEngine.Paging
import NexusEngine.TenancyService
import Mathlib.Data.String.Basic

/-!
# The pages of tenants and anomalies

Tenants are listed by their display names and anomalies by the time they occurred at. Neither is
unique, so that each query may return rows with one key in an order of its own. The pages are all
rows exactly where no two rows with one key stand at the two sides of a border.
-/

namespace NexusEngine.ListingPages

open TransactionalRequests JsonDocuments CalendarTime StoredColumns KeyedTables TenancyTables
  AnomalyTables Database DashboardActivity AuditLogReads MetadataSanitisation RankedRows Paging
  TenancyService

/-! ## A listing in pages -/

/-- The database takes a text without a NUL character. -/
def sendable (condition : Option String) : Bool := (nonempty condition).all fun t => (text t).isSome

section

variable {Row Item Rank : Type} [LinearOrder Rank] {id : Row → Uuid}

/-- Count the rows of a table that pass a test, and return one page of them from the largest rank
down. `before` is the order in which the database returns rows with one rank. -/
def listing (accepted : Bool) (table : Db → Table Row Uuid id) (passes : Row → Bool)
    (rank : Row → Rank) (read : Row → Item) (before : Uuid → Uuid → Bool) (page pageSize : ℤ) :
    Service (List Item × ℕ) := do
  ensure (accepted = true) .rejected
  let total ← Request.select fun db => ((table db).rows.filter passes).length
  ensure (isRowCount ((page - 1) * pageSize) = true ∧ isRowCount pageSize = true) .rejected
  let rows ← Request.select fun db =>
    ((fromLargest rank (((table db).scan before).filter passes)).drop
      ((page - 1) * pageSize).toNat).take pageSize.toNat
  return (rows.map read, total)

/-- The listing is fetched as a whole, each item once, whatever order each of its queries chooses
for rows with one rank. -/
def PagedInFull (fetch : (Uuid → Uuid → Bool) → ℕ → Option (List Item × ℕ)) (pageSize : ℕ)
    (items : List Item) : Prop :=
  ∀ orders : ℕ → Uuid → Uuid → Bool, ∃ pages,
    Fetched (fun page => fetch (orders page) page) pageSize items.length pages ∧
      pages.flatten.Perm items

/-- The database takes the page size and the offsets up to the first empty page. -/
def Counted (total pageSize : ℕ) : Prop :=
  pageSize < 2 ^ 63 ∧ pageCount total pageSize * pageSize < 2 ^ 63

instance (total pageSize : ℕ) : Decidable (Counted total pageSize) :=
  inferInstanceAs (Decidable (_ ∧ _))

variable {accepted : Bool} {table : Db → Table Row Uuid id} {passes : Row → Bool}
  {rank : Row → Rank} {read : Row → Item} {db : Db} {n pageSize : ℕ}

/-- The database takes a query at an offset. -/
def Accepts (accepted : Bool) (pageSize offset : ℕ) : Prop :=
  accepted = true ∧ isRowCount pageSize = true ∧ isRowCount offset = true

instance (accepted : Bool) (pageSize : ℕ) : DecidablePred (Accepts accepted pageSize) := fun _ =>
  inferInstanceAs (Decidable (_ ∧ _ ∧ _))

theorem Accepts.down {a b : ℕ} (hle : a ≤ b) (h : Accepts accepted pageSize b) :
    Accepts accepted pageSize a := by
  have hb := isRowCount_natCast.mp h.2.2
  exact ⟨h.1, h.2.1, isRowCount_natCast.mpr (by omega)⟩

theorem listing_succ (before : Uuid → Uuid → Bool) (k : ℕ) :
    ((listing accepted table passes rank read before (k + 1 : ℕ) pageSize).serial postgres db db
      n).result.toOption =
      if Accepts accepted pageSize (k * pageSize) then
        some ((page (fromLargest rank (((table db).scan before).filter passes)) pageSize k).map
          read, ((table db).rows.filter passes).length)
      else none := by
  have hanswer : (listing accepted table passes rank read before (k + 1 : ℕ) pageSize).wp postgres
      (fun result _ _ _ => result.toOption = if Accepts accepted pageSize (k * pageSize) then
        some ((page (fromLargest rank (((table db).scan before).filter passes)) pageSize k).map
          read, ((table db).rows.filter passes).length)
      else none) db db n := by
    apply (Request.wp_bind ..).mpr
    apply wp_ensure.mpr
    constructor
    · intro hrefused
      rw [if_neg fun haccepts : Accepts accepted pageSize (k * pageSize) => hrefused haccepts.1]
      rfl
    intro haccepted
    apply (Request.wp_bind ..).mpr
    rw [Request.wp_select]
    apply (Request.wp_bind ..).mpr
    apply wp_ensure.mpr
    rw [offset_succ]
    constructor
    · intro hrefused
      rw [if_neg fun haccepts : Accepts accepted pageSize (k * pageSize) =>
        hrefused ⟨haccepts.2.2, haccepts.2.1⟩]
      rfl
    intro hcounts
    apply (Request.wp_bind ..).mpr
    rw [Request.wp_select]
    apply Request.wp_return
    have haccepts : Accepts accepted pageSize (k * pageSize) :=
      ⟨haccepted, hcounts.2, hcounts.1⟩
    rw [if_pos haccepts]
    simp only [Int.toNat_natCast, Except.toOption]
    rfl
  exact (Request.serial_sound hanswer).elim fun _ h => h

theorem returned_scan (t : Table Row Uuid id) (before : Uuid → Uuid → Bool) :
    Returned rank (t.rows.filter passes) (fromLargest rank ((t.scan before).filter passes)) :=
  ⟨fromLargest_perm.trans ((t.scan_perm before).filter _), fromLargest_sorted⟩

/-- Whatever `ORDER BY` permits is what some order of the table gives. -/
theorem exists_order (t : Table Row Uuid id) {returned : List Row}
    (h : Returned rank (t.rows.filter passes) returned) :
    ∃ before, fromLargest rank ((t.scan before).filter passes) = returned := by
  have hpasses : ∀ r ∈ returned, passes r = true := fun r hr =>
    (List.mem_filter.mp (h.perm.mem_iff.mp hr)).2
  have hrest : (t.rows.filter fun r => !passes r).filter passes = [] := by
    apply List.filter_eq_nil_iff.mpr
    intro r hr
    simpa using (List.mem_filter.mp hr).2
  have hperm : (returned ++ t.rows.filter fun r => !passes r).Perm t.rows :=
    (h.perm.append_right _).trans (List.filter_append_perm passes t.rows)
  obtain ⟨before, hscan⟩ := t.exists_scan hperm
  refine ⟨before, ?_⟩
  rw [hscan, List.filter_append, List.filter_eq_self.mpr hpasses, hrest, List.append_nil]
  exact List.Pairwise.insertionSort_eq h.sorted

/-- The pages are all rows exactly where the database takes their queries and no two rows of one
rank stand at the two sides of a border. -/
theorem listing_pagedInFull_iff (hsize : 0 < pageSize)
    (hnodup : (((table db).rows.filter passes).map read).Nodup) :
    PagedInFull (fun before page => ((listing accepted table passes rank read before page
        pageSize).serial postgres db db n).result.toOption) pageSize
      (((table db).rows.filter passes).map read) ↔
    accepted = true ∧ Counted ((table db).rows.filter passes).length pageSize ∧
      BordersDistinct pageSize rank ((table db).rows.filter passes) := by
  generalize hrows : (table db).rows.filter passes = rows at *
  let queries : (ℕ → Uuid → Uuid → Bool) → ℕ → List Row := fun orders k =>
    fromLargest rank (((table db).scan (orders (k + 1))).filter passes)
  have hreturned : ∀ orders k, Returned rank rows (queries orders k) := fun orders k =>
    hrows ▸ returned_scan (table db) (orders (k + 1))
  -- the pages of one choice of orders are pages of what its queries return
  have hfetched : ∀ orders : ℕ → Uuid → Uuid → Bool,
      (∃ pages, Fetched (fun page => ((listing accepted table passes rank read (orders page) page
          pageSize).serial postgres db db n).result.toOption) pageSize (rows.map read).length
            pages ∧ pages.flatten.Perm (rows.map read)) ↔
        Accepts accepted pageSize (pageCount rows.length pageSize * pageSize) ∧
          ((List.range (pageCount rows.length pageSize)).map fun k =>
            (page (queries orders k) pageSize k).map read).flatten.Perm (rows.map read) := by
    intro orders
    rw [List.length_map]
    apply fetched_iff hsize (fun k => (hreturned orders k).perm.length_eq)
      (fun _ _ hle haccepts => haccepts.down hle) _ fun pages => pages.flatten.Perm (rows.map read)
    intro k
    rw [listing_succ, hrows]
  have hcounted : ∀ offset, Accepts accepted pageSize offset ↔
      accepted = true ∧ pageSize < 2 ^ 63 ∧ offset < 2 ^ 63 := by
    intro offset
    simp only [Accepts, isRowCount_natCast]
  constructor
  · intro hall
    have haccepts := ((hfetched fun _ _ _ => true).mp (hall _)).1
    obtain ⟨haccepted, hcounts⟩ := (hcounted _).mp haccepts
    refine ⟨haccepted, hcounts, (pages_perm_iff hsize hnodup).mp fun returned hquery => ?_⟩
    choose orders horders using fun k => exists_order (table db) (hrows ▸ hquery k)
    have hperm := ((hfetched fun page => orders (page - 1)).mp (hall _)).2
    simp only [queries, Nat.add_sub_cancel, horders] at hperm
    exact hperm
  · rintro ⟨haccepted, hcounts, hborders⟩ orders
    apply (hfetched orders).mpr
    refine ⟨(hcounted _).mpr ⟨haccepted, hcounts⟩, ?_⟩
    exact (pages_perm_iff hsize hnodup).mpr hborders (queries orders) (hreturned orders)

end

/-! ## Tenants -/

def tierValue : TenantTier → String
  | .enterprise => "enterprise"
  | .premium => "premium"
  | .standard => "standard"

def isolationModeValue : IsolationMode → String
  | .strict => "strict"
  | .standard => "standard"
  | .shared => "shared"

def tenantStatusValue : TenantStatus → String
  | .active => "active"
  | .provisioning => "provisioning"
  | .suspended => "suspended"
  | .decommissioned => "decommissioned"

structure TenantRead where
  id : Uuid
  slug : String
  orgId : String
  displayName : String
  tier : String
  isolationMode : String
  status : String
  region : String
  dbSchemaName : String
  dbSchemaValid : Bool
  networkCidr : Option String
  networkVpc : Option String
  networkShared : Bool
  dekLabel : Option String
  encryptionValid : Bool
  eventsPerSecond : Rat
  isolationScore : Rat
  isolationLevel : String
  deriving DecidableEq, Repr

def tenantToRead (tenant : Tenant) : TenantRead where
  id := tenant.id
  slug := tenant.slug
  orgId := tenant.orgId
  displayName := tenant.displayName
  tier := tierValue tenant.tier
  isolationMode := isolationModeValue tenant.isolationMode
  status := tenantStatusValue tenant.status
  region := tenant.region
  dbSchemaName := tenant.dbSchemaName
  dbSchemaValid := tenant.dbSchemaValid
  networkCidr := tenant.networkCidr
  networkVpc := tenant.networkVpc
  networkShared := tenant.networkShared
  dekLabel := tenant.dekLabel
  encryptionValid := tenant.encryptionValid
  eventsPerSecond := tenant.eventsPerSecond
  isolationScore := tenant.isolationScore
  isolationLevel := tenant.isolationLevel

structure TenantQuery where
  statusFilter : Option TenantStatus := none
  search : Option String := none

def TenantQuery.passes (ilike : String → String → Bool) (q : TenantQuery) (t : Tenant) : Bool :=
  (q.statusFilter.all fun s => t.status == s) &&
    (nonempty q.search).all fun s =>
      ilike t.displayName ("%" ++ s ++ "%") || ilike t.slug ("%" ++ s ++ "%")

section

variable {Collated : Type} [LinearOrder Collated]

/-- Display names are ordered as the database collates them. -/
def byName (collate : String → Collated) (t : Tenant) : Collatedᵒᵈ :=
  OrderDual.toDual (collate t.displayName)

def listTenants (collate : String → Collated) (ilike : String → String → Bool)
    (before : Uuid → Uuid → Bool) (q : TenantQuery) (page pageSize : ℤ) :
    Service (List TenantRead × ℕ) :=
  listing (sendable q.search) (fun db => db.tenancy.tenants) (q.passes ilike) (byName collate)
    tenantToRead before page pageSize

end

/-! ## Anomalies -/

structure AnomalyEventRead where
  id : Uuid
  category : String
  score : Float64
  severity : String
  status : String
  title : String
  description : String
  actor : Option String
  sourceIp : Option String
  baselineSigma : Option Float64
  metadataJson : List (String × Json)
  occurredAt : Instant
  deriving DecidableEq

def anomalyEventRead (e : AnomalyEvent) : AnomalyEventRead where
  id := e.id
  category := e.category
  score := e.score
  severity := e.severity.value
  status := e.status.value
  title := e.title
  description := e.description
  actor := e.actor
  sourceIp := e.sourceIp
  baselineSigma := e.baselineSigma
  metadataJson := AnomalySchema.redactMembers e.metadataJson
  occurredAt := e.occurredAt

structure AnomalyQuery where
  statusFilter : Option AnomalyStatus := none
  severityFilter : Option AnomalySeverity := none
  category : Option String := none
  tenantId : Option Uuid := none

def AnomalyQuery.passes (q : AnomalyQuery) (e : AnomalyEvent) : Bool :=
  (q.statusFilter.all fun s => e.status == s) && (q.severityFilter.all fun s => e.severity == s) &&
    ((nonempty q.category).all fun c => e.category == c) &&
    q.tenantId.all fun t => e.tenantId == some t

def listAnomalyEvents (before : Uuid → Uuid → Bool) (q : AnomalyQuery) (page pageSize : ℤ) :
    Service (List AnomalyEventRead × ℕ) :=
  listing (sendable q.category) (fun db => db.anomalies) q.passes AnomalyEvent.occurredAt
    anomalyEventRead before page pageSize

/-! ## Where they are read in full -/

section

variable {Collated : Type} [LinearOrder Collated]

def tenantsPage (collate : String → Collated) (ilike : String → String → Bool) (q : TenantQuery)
    (db : Db) (n pageSize : ℕ) (before : Uuid → Uuid → Bool) (page : ℕ) :
    Option (List TenantRead × ℕ) :=
  ((listTenants collate ilike before q page pageSize).serial postgres db db n).result.toOption

def anomaliesPage (q : AnomalyQuery) (db : Db) (n pageSize : ℕ) (before : Uuid → Uuid → Bool)
    (page : ℕ) : Option (List AnomalyEventRead × ℕ) :=
  ((listAnomalyEvents before q page pageSize).serial postgres db db n).result.toOption

def matchingTenants (ilike : String → String → Bool) (q : TenantQuery) (db : Db) : List Tenant :=
  db.tenancy.tenants.rows.filter (q.passes ilike)

def matchingAnomalies (q : AnomalyQuery) (db : Db) : List AnomalyEvent :=
  db.anomalies.rows.filter q.passes

theorem nodup_tenantReads (ilike : String → String → Bool) (q : TenantQuery) (db : Db) :
    ((matchingTenants ilike q db).map tenantToRead).Nodup := by
  apply List.Nodup.of_map TenantRead.id
  rw [List.map_map]
  exact (db.tenancy.tenants.filter (q.passes ilike)).nodup

theorem nodup_anomalyReads (q : AnomalyQuery) (db : Db) :
    ((matchingAnomalies q db).map anomalyEventRead).Nodup := by
  apply List.Nodup.of_map AnomalyEventRead.id
  rw [List.map_map]
  exact (db.anomalies.filter q.passes).nodup

/-- Tenants, and likewise anomalies, are read page by page in full, each of them once and whatever
ties the queries break, exactly where the database takes the queries and the sort keys at the two
sides of every border differ. -/
theorem tenants_and_anomalies_paged_iff (collate : String → Collated)
    (ilike : String → String → Bool) (db : Db) (n pageSize : ℕ) (hsize : 1 ≤ pageSize) :
    (∀ q : TenantQuery,
      PagedInFull (tenantsPage collate ilike q db n pageSize) pageSize
          ((matchingTenants ilike q db).map tenantToRead) ↔
        sendable q.search = true ∧ Counted (matchingTenants ilike q db).length pageSize ∧
          BordersDistinct pageSize (byName collate) (matchingTenants ilike q db)) ∧
    ∀ q : AnomalyQuery,
      PagedInFull (anomaliesPage q db n pageSize) pageSize
          ((matchingAnomalies q db).map anomalyEventRead) ↔
        sendable q.category = true ∧ Counted (matchingAnomalies q db).length pageSize ∧
          BordersDistinct pageSize AnomalyEvent.occurredAt (matchingAnomalies q db) := by
  constructor
  · intro q
    exact listing_pagedInFull_iff hsize (nodup_tenantReads ilike q db)
  · intro q
    exact listing_pagedInFull_iff hsize (nodup_anomalyReads q db)

end

/-! ## Two tenants of one name -/

def namesake (id : Uuid) (slug : String) : Tenant :=
  newTenant ⟨id, 0⟩
    { slug := slug
      orgId := slug
      displayName := "Acme"
      tier := .standard
      region := "eu"
      dbSchemaName := slug }

def namesakesDb : Db :=
  { emptyDb with
    tenancy := { TenancyStore.empty with
      tenants := ⟨[namesake 1 "acme-eu", namesake 2 "acme-us"], by decide⟩ } }

theorem tenants_and_anomalies_paged_sample :
    1 ≤ 2 ∧ PagedInFull (tenantsPage id (fun _ _ => true) {} namesakesDb 0 2) 2
        ((matchingTenants (fun _ _ => true) {} namesakesDb).map tenantToRead) ∧
      PagedInFull (anomaliesPage {} namesakesDb 0 2) 2
        ((matchingAnomalies {} namesakesDb).map anomalyEventRead) := by
  have hsize : 1 ≤ 2 := by decide
  obtain ⟨htenants, hanomalies⟩ :=
    tenants_and_anomalies_paged_iff id (fun _ _ => true) namesakesDb 0 2 hsize
  refine ⟨hsize, (htenants {}).mpr ⟨rfl, by decide, ?_⟩, (hanomalies {}).mpr ⟨rfl, by decide, ?_⟩⟩
  · intro k hpos hlt
    have htwo : (matchingTenants (fun _ _ => true) {} namesakesDb).length = 2 := by decide
    omega
  · intro k hpos hlt
    have hnone : (matchingAnomalies {} namesakesDb).length = 0 := by decide
    omega

/-- On pages of one, the queries may return one of the two twice and the other never. -/
theorem namesake_repeated :
    ¬ ∀ (ilike : String → String → Bool) (q : TenantQuery) (db : Db) (n pageSize : ℕ),
      1 ≤ pageSize → PagedInFull (tenantsPage (id : String → String) ilike q db n pageSize) pageSize
        ((matchingTenants ilike q db).map tenantToRead) := by
  intro h
  have hfull := h (fun _ _ => true) {} namesakesDb 0 1 le_rfl
  have hnodup := nodup_tenantReads (fun _ _ => true) {} namesakesDb
  have hborders := ((listing_pagedInFull_iff Nat.one_pos hnodup).mp hfull).2.2
  have hdistinct := hborders 1 (by decide) (by decide)
  exact hdistinct (by decide +kernel)

end NexusEngine.ListingPages
