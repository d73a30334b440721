import NexusEngine.EngineService

/-!
# The metrics of operations

The summary shows the latest sample of every metric, but it adds up all samples of the API
endpoints, and ranks all of them. It agrees with the Command Center exactly where the samples
that a newer one supersedes add nothing and no endpoint ranks twice.
-/

namespace NexusEngine.OperationsService

open StoredColumns KeyedTables CalendarTime EngineTables RankedRows EngineService

structure MetricGauge where
  metricKey : String
  value : ℚ
  unit : String
  limitValue : Option ℚ
  percentOfLimit : Option ℚ
  deriving DecidableEq, Repr

structure EndpointThroughput where
  endpointPath : String
  requestsPerSecond : ℚ
  throttledCount : ℤ
  rejectedCount : ℤ
  latencyP99Ms : ℚ
  deriving DecidableEq, Repr

structure MetricsSummary where
  capturedAt : Option Instant
  gauges : List MetricGauge
  totalRequestsPerSecond : ℚ
  totalThrottled : ℤ
  totalRejected : ℤ
  maxLatencyP99Ms : ℚ
  topEndpoints : List EndpointThroughput
  deriving DecidableEq, Repr

def gauge (sample : SystemMetricSample) : MetricGauge where
  metricKey := sample.metricKey.value
  value := roundTo 2 sample.value
  unit := sample.unit
  limitValue := sample.limitValue
  percentOfLimit := (sample.limitValue.filter (· ≠ 0)).map fun limit =>
    roundTo 1 (min 100 (sample.value / limit * 100))

/-- The time of the latest of the samples. -/
def capturedAt (samples : List SystemMetricSample) : Option Instant :=
  samples.foldl (fun captured sample =>
    if captured.all (· < sample.recordedAt) then some sample.recordedAt else captured) none

def throughput (s : ApiEndpointStat) : EndpointThroughput where
  endpointPath := s.endpointPath
  requestsPerSecond := roundTo 2 s.requestsPerSecond
  throttledCount := s.throttledCount
  rejectedCount := s.rejectedCount
  latencyP99Ms := roundTo 2 s.latencyP99Ms

/-- The figures of the metrics and of the rows of the endpoints, before the totals are rounded. -/
def metricsFigures (samples : List SystemMetricSample) (stats : List ApiEndpointStat) :
    MetricsSummary :=
  let latestByKey := keepFirst SystemMetricSample.metricKey [] samples
  { capturedAt := capturedAt latestByKey
    gauges := (latestByKey.map gauge).insertionSort fun g g' => g.metricKey ≤ g'.metricKey
    totalRequestsPerSecond := (stats.map ApiEndpointStat.requestsPerSecond).sum
    totalThrottled := (stats.map ApiEndpointStat.throttledCount).sum
    totalRejected := (stats.map ApiEndpointStat.rejectedCount).sum
    maxLatencyP99Ms := maxOf (stats.map ApiEndpointStat.latencyP99Ms)
    topEndpoints := ((fromLargest ApiEndpointStat.requestsPerSecond stats).take 5).map throughput }

def MetricsSummary.rounded (figures : MetricsSummary) : MetricsSummary :=
  { figures with
    totalRequestsPerSecond := roundTo 2 figures.totalRequestsPerSecond
    maxLatencyP99Ms := roundTo 2 figures.maxLatencyP99Ms }

/-- The figures of all rows, which the database returns in the given orders. -/
def metricsOf (before before' : Uuid → Uuid → Bool) (s : EngineStore) : MetricsSummary :=
  metricsFigures (fromLargest SystemMetricSample.recordedAt (s.metricSamples.scan before))
    (s.apiEndpointStats.scan before')

def getMetricsSummary (before before' : Uuid → Uuid → Bool) (s : EngineStore) : MetricsSummary :=
  (metricsOf before before' s).rounded

/-- Both summaries say the same about the endpoints, and none of them ranks twice. -/
structure AgreesWithCommandCenter (metrics : MetricsSummary) (rates : ApiRateSummary) : Prop where
  totalRequestsPerSecond : metrics.totalRequestsPerSecond = rates.currentRate
  totalThrottled : metrics.totalThrottled = rates.throttled
  totalRejected : metrics.totalRejected = rates.rejected
  topEndpoints : (metrics.topEndpoints.map EndpointThroughput.endpointPath).Nodup

/-- The rows with a newer one of their endpoint. -/
def superseded (rows : List ApiEndpointStat) : List ApiEndpointStat :=
  rows.filter fun r => rows.any fun r' =>
    r'.endpointPath = r.endpointPath ∧ r.recordedAt < r'.recordedAt

/-- The superseded rows add nothing to the totals. -/
structure SupersededIdle (rows : List ApiEndpointStat) : Prop where
  requestsPerSecond : ((superseded rows).map ApiEndpointStat.requestsPerSecond).sum = 0
  throttledCount : ((superseded rows).map ApiEndpointStat.throttledCount).sum = 0
  rejectedCount : ((superseded rows).map ApiEndpointStat.rejectedCount).sum = 0

/-- Of two rows of one endpoint one has five rows ahead of it: with a larger rate, or with the same
rate and returned earlier. -/
def RankedOnce (rows : List ApiEndpointStat) : Prop :=
  ∀ r ∈ rows, ∀ r' ∈ rows, r.endpointPath = r'.endpointPath → r ≠ r' →
    5 ≤ rows.countP (fun a => Ahead ApiEndpointStat.requestsPerSecond rows a r) ∨
      5 ≤ rows.countP (fun a => Ahead ApiEndpointStat.requestsPerSecond rows a r')

section

variable {before before' : Uuid → Uuid → Bool} {s : EngineStore}

theorem mostRecent_append_superseded (rows : List ApiEndpointStat) :
    (mostRecent rows ++ superseded rows).Perm rows := by
  have hsuperseded : superseded rows = rows.filter fun r => !(rows.all fun r' =>
      r'.endpointPath ≠ r.endpointPath || r'.recordedAt ≤ r.recordedAt) := by
    apply List.filter_congr
    intro r _
    rw [List.not_all_eq_any_not]
    congr 1
    funext r'
    rw [Bool.eq_iff_iff]
    simp
  rw [hsuperseded]
  exact List.filter_append_perm _ _

theorem sum_superseded {M : Type} [AddCommGroup M] (f : ApiEndpointStat → M)
    (rows : List ApiEndpointStat) :
    (rows.map f).sum = ((mostRecent rows).map f).sum ↔ ((superseded rows).map f).sum = 0 := by
  rw [← ((mostRecent_append_superseded rows).map f).sum_eq, List.map_append, List.sum_append]
  exact add_eq_left

/-- The endpoints at the top are distinct where none of them ranks twice. -/
theorem nodup_topEndpoints {samples : List SystemMetricSample} {rows : List ApiEndpointStat}
    (h : rows.Nodup) :
    ((metricsFigures samples rows).topEndpoints.map EndpointThroughput.endpointPath).Nodup ↔
      RankedOnce rows := by
  have htop : (metricsFigures samples rows).topEndpoints.map EndpointThroughput.endpointPath =
      ((fromLargest ApiEndpointStat.requestsPerSecond rows).take 5).map
        ApiEndpointStat.endpointPath := by
    rw [metricsFigures, List.map_map]
    rfl
  have hnodup : ((fromLargest ApiEndpointStat.requestsPerSecond rows).take 5).Nodup :=
    (fromLargest_perm.nodup_iff.mpr h).sublist (List.take_sublist _ _)
  rw [htop, List.nodup_map_iff_inj_on hnodup]
  constructor
  · intro hinj r hr r' hr' hpath hne
    by_contra hboth
    rw [not_or, not_le, not_le] at hboth
    apply hne
    exact hinj r ((mem_take_ahead h).mpr ⟨hr, hboth.1⟩) r'
      ((mem_take_ahead h).mpr ⟨hr', hboth.2⟩) hpath
  · intro hranked r hr r' hr' hpath
    by_contra hne
    obtain ⟨hmem, hfew⟩ := (mem_take_ahead h).mp hr
    obtain ⟨hmem', hfew'⟩ := (mem_take_ahead h).mp hr'
    rcases hranked r hmem r' hmem' hpath hne with hfive | hfive
    · omega
    · omega

end

/-! ## Two samples of one endpoint -/

def twoSamples : EngineStore where
  instances := .singleton ⟨7⟩
  metricSamples := .empty
  apiEndpointStats := ⟨[sampleStat 0 "/keys" 30 1, sampleStat 1 "/keys" 40 2], by decide⟩
  sampled := by decide
  measured := by decide

end NexusEngine.OperationsService
