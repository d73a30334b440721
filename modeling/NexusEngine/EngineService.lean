import NexusEngine.EngineTables
import NexusEngine.RankedRows
import Mathlib.Algebra.Order.Ring.Rat
import Mathlib.Data.Rat.Floor
import Mathlib.Algebra.BigOperators.Group.List.Basic

/-!
# The rates of the Command Center

The summary keeps the latest sample of every endpoint while it scans the newest twenty rows of
an instance. It is about every endpoint exactly where each has a row among these.
-/

namespace NexusEngine.EngineService

open StoredColumns CalendarTime EngineTables RankedRows

/-- `round(x, digits)`: ties go to the even neighbour. -/
def roundTo (digits : ℕ) (x : ℚ) : ℚ :=
  let scaled := x * 10 ^ digits
  let low := ⌊scaled⌋
  let rest := scaled - low
  (if rest < 1 / 2 ∨ rest = 1 / 2 ∧ low % 2 = 0 then low else low + 1 : ℤ) / 10 ^ digits

structure ApiEndpointBreakdown where
  endpointPath : String
  requestsPerSecond : ℚ
  percentOfTotal : ℚ
  deriving DecidableEq, Repr

structure ApiRateSummary where
  currentRate : ℚ
  peakRate : ℚ
  rateLimit : ℚ
  throttled : ℤ
  rejected : ℤ
  latencyP99Ms : ℚ
  endpoints : List ApiEndpointBreakdown
  deriving DecidableEq, Repr

/-- The largest of some values, `default=0.0`. -/
def maxOf (values : List ℚ) : ℚ := values.max?.getD 0

/-- The rows of the query, the newest first. -/
def newestStats (before : Uuid → Uuid → Bool) (s : EngineStore) (instanceId : Uuid) :
    List ApiEndpointStat :=
  (fromLargest ApiEndpointStat.recordedAt ((s.apiEndpointStats.scan before).filter fun r =>
    r.engineInstanceId = instanceId)).take 20

def latestPerEndpoint (samples : List ApiEndpointStat) : List ApiEndpointStat :=
  keepFirst ApiEndpointStat.endpointPath [] samples

/-- The figures of the latest samples, before they are rounded. -/
def apiRateFigures (latestPerEndpoint : List ApiEndpointStat) : ApiRateSummary :=
  let totalRate := (latestPerEndpoint.map ApiEndpointStat.requestsPerSecond).sum
  { currentRate := totalRate
    peakRate := maxOf (latestPerEndpoint.map ApiEndpointStat.requestsPerSecond)
    rateLimit := 1000
    throttled := (latestPerEndpoint.map ApiEndpointStat.throttledCount).sum
    rejected := (latestPerEndpoint.map ApiEndpointStat.rejectedCount).sum
    latencyP99Ms := maxOf (latestPerEndpoint.map ApiEndpointStat.latencyP99Ms)
    endpoints := (fromLargest ApiEndpointStat.requestsPerSecond latestPerEndpoint).map fun s =>
      { endpointPath := s.endpointPath
        requestsPerSecond := s.requestsPerSecond
        percentOfTotal :=
          if totalRate ≠ 0 then roundTo 1 (s.requestsPerSecond / totalRate * 100) else 0 } }

def ApiRateSummary.rounded (figures : ApiRateSummary) : ApiRateSummary :=
  { figures with
    currentRate := roundTo 1 figures.currentRate
    peakRate := roundTo 1 figures.peakRate
    latencyP99Ms := roundTo 2 figures.latencyP99Ms }

/-- `before` is the order in which the database returns rows that were recorded at once. -/
def buildApiRateSummary (before : Uuid → Uuid → Bool) (s : EngineStore) (instanceId : Uuid) :
    ApiRateSummary :=
  (apiRateFigures (latestPerEndpoint (newestStats before s instanceId))).rounded

/-- The most recent row of every endpoint. -/
def mostRecent (rows : List ApiEndpointStat) : List ApiEndpointStat :=
  latest ApiEndpointStat.endpointPath ApiEndpointStat.recordedAt rows

/-- The figures are about the most recent row of every endpoint, and list every endpoint once. -/
structure CoversEveryEndpoint (rows : List ApiEndpointStat) (figures : ApiRateSummary) : Prop where
  currentRate : figures.currentRate = ((mostRecent rows).map ApiEndpointStat.requestsPerSecond).sum
  throttled : figures.throttled = ((mostRecent rows).map ApiEndpointStat.throttledCount).sum
  rejected : figures.rejected = ((mostRecent rows).map ApiEndpointStat.rejectedCount).sum
  peakRate : figures.peakRate = maxOf ((mostRecent rows).map ApiEndpointStat.requestsPerSecond)
  latencyP99Ms : figures.latencyP99Ms = maxOf ((mostRecent rows).map ApiEndpointStat.latencyP99Ms)
  endpoints : (figures.endpoints.map ApiEndpointBreakdown.endpointPath).Perm
    (rows.map ApiEndpointStat.endpointPath).dedup

section

variable {before : Uuid → Uuid → Bool} {s : EngineStore} {instanceId : Uuid}

theorem maxOf_perm {values values' : List ℚ} (h : values.Perm values') :
    maxOf values = maxOf values' := by
  have hmax : values.max? = values'.max? := by
    cases hv : values.max? with
    | none =>
      rw [List.max?_eq_none_iff] at hv
      rw [hv, List.nil_perm] at h
      rw [h, List.max?_nil]
    | some m =>
      obtain ⟨hm, hle⟩ := List.max?_eq_some_iff.mp hv
      symm
      exact List.max?_eq_some_iff.mpr ⟨h.mem_iff.mp hm, fun b hb => hle b (h.mem_iff.mpr hb)⟩
  rw [maxOf, maxOf, hmax]

theorem map_endpoints (latestPerEndpoint : List ApiEndpointStat) :
    ((apiRateFigures latestPerEndpoint).endpoints.map ApiEndpointBreakdown.endpointPath).Perm
      (latestPerEndpoint.map ApiEndpointStat.endpointPath) := by
  rw [apiRateFigures, List.map_map]
  exact fromLargest_perm.map _

/-- The order in which the database returns the rows does not matter: no two were recorded at
once. -/
theorem newestStats_eq (hdistinct : ((s.statsOf instanceId).map ApiEndpointStat.recordedAt).Nodup) :
    newestStats before s instanceId =
      (fromLargest ApiEndpointStat.recordedAt (s.statsOf instanceId)).take 20 := by
  have hperm : ((s.apiEndpointStats.scan before).filter fun r =>
      r.engineInstanceId = instanceId).Perm (s.statsOf instanceId) :=
    (s.apiEndpointStats.scan_perm before).filter _
  rw [newestStats, fromLargest_eq_of_perm hperm.symm hdistinct]

/-- Figures of the most recent rows, in any order, cover every endpoint. -/
theorem covers_of_perm {rows latestRows : List ApiEndpointStat}
    (hdistinct : (rows.map ApiEndpointStat.recordedAt).Nodup)
    (h : latestRows.Perm (mostRecent rows)) :
    CoversEveryEndpoint rows (apiRateFigures latestRows) where
  currentRate := (h.map _).sum_eq
  throttled := (h.map _).sum_eq
  rejected := (h.map _).sum_eq
  peakRate := maxOf_perm (h.map _)
  latencyP99Ms := maxOf_perm (h.map _)
  endpoints := (map_endpoints latestRows).trans ((h.map _).trans (map_latest_perm hdistinct))

/-- The summary rounds figures that cover every endpoint exactly where fewer than twenty rows of
the instance are newer than the most recent row of any endpoint. -/
theorem rate_summary_covers_iff (before : Uuid → Uuid → Bool) (s : EngineStore) (instanceId : Uuid)
    (hdistinct : ((s.statsOf instanceId).map ApiEndpointStat.recordedAt).Nodup) :
    let figures := apiRateFigures (latestPerEndpoint (newestStats before s instanceId))
    buildApiRateSummary before s instanceId = figures.rounded ∧
      (CoversEveryEndpoint (s.statsOf instanceId) figures ↔
        ∀ r ∈ mostRecent (s.statsOf instanceId),
          (s.statsOf instanceId).countP (fun r' => r.recordedAt < r'.recordedAt) < 20) := by
  intro figures
  refine ⟨rfl, fun hcovers => ?_, fun hwithin => ?_⟩
  · apply within_of_keepFirst hdistinct
    intro r hr
    have hlisted : r.endpointPath ∈ figures.endpoints.map ApiEndpointBreakdown.endpointPath := by
      rw [hcovers.endpoints.mem_iff, List.mem_dedup]
      exact List.mem_map_of_mem hr
    rw [(map_endpoints _).mem_iff, latestPerEndpoint, newestStats_eq hdistinct] at hlisted
    exact hlisted
  · apply covers_of_perm hdistinct
    rw [latestPerEndpoint, newestStats_eq hdistinct]
    exact keepFirst_perm_latest hdistinct hwithin

end

/-! ## An endpoint that reports rarely -/

def sampleStat (id : Uuid) (path : String) (rate : ℚ) (recordedAt : Instant) : ApiEndpointStat where
  id := id
  engineInstanceId := 7
  endpointPath := path
  requestsPerSecond := rate
  throttledCount := 0
  rejectedCount := 0
  latencyP99Ms := 12
  recordedAt := recordedAt

def busyStats : List ApiEndpointStat :=
  sampleStat 0 "/rotate" 4 1 :: (List.range 20).map fun k => sampleStat (k + 1) "/keys" 30 (k + 2)

def busyStore : EngineStore where
  instances := ⟨[⟨7⟩], by decide⟩
  metricSamples := .empty
  apiEndpointStats := ⟨busyStats, by decide⟩
  sampled := by decide
  measured := by decide

theorem rate_summary_covers_busy :
    let rows := busyStore.statsOf 7
    (rows.map ApiEndpointStat.recordedAt).Nodup ∧
      (CoversEveryEndpoint rows
          (apiRateFigures (latestPerEndpoint (newestStats (fun _ _ => true) busyStore 7))) ↔
        ∀ r ∈ mostRecent rows,
          rows.countP (fun r' => r.recordedAt < r'.recordedAt) < 20) := by
  have hdistinct : ((busyStore.statsOf 7).map ApiEndpointStat.recordedAt).Nodup := by decide +kernel
  exact ⟨hdistinct, (rate_summary_covers_iff _ busyStore 7 hdistinct).2⟩

/-- Twenty newer samples of another endpoint hide the one sample of `/rotate`. -/
theorem quiet_endpoint_left_out :
    ¬ ∀ (before : Uuid → Uuid → Bool) (s : EngineStore) (instanceId : Uuid),
      ((s.statsOf instanceId).map ApiEndpointStat.recordedAt).Nodup →
        CoversEveryEndpoint (s.statsOf instanceId)
          (apiRateFigures (latestPerEndpoint (newestStats before s instanceId))) := by
  intro h
  have hcovers := h (fun _ _ => true) busyStore 7 (by decide +kernel)
  have hshown : (apiRateFigures (latestPerEndpoint
      (newestStats (fun _ _ => true) busyStore 7))).currentRate = 30 := by
    decide +kernel
  have hsum : ((mostRecent (busyStore.statsOf 7)).map ApiEndpointStat.requestsPerSecond).sum = 34 := by
    decide +kernel
  have heq := hcovers.currentRate
  rw [hshown, hsum] at heq
  exact absurd heq (by decide)

end NexusEngine.EngineService
