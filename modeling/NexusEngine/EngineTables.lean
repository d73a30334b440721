import NexusEngine.StoredColumns
import NexusEngine.KeyedTables
import Mathlib.Data.Rat.Defs

/-!
# The telemetry tables

Samples of system metrics and of the rates of API endpoints, taken again and again from the
engine instances. A sample belongs to an instance that is there.
-/

namespace NexusEngine.EngineTables

open StoredColumns KeyedTables CalendarTime

structure EngineInstance where
  id : Uuid
  deriving DecidableEq, Repr

inductive MetricKey where
  | cpuPercent | memoryPercent | diskIoMbps | networkMbps | goroutines | gcPauseMs | openFds
  deriving DecidableEq, Repr

def MetricKey.value : MetricKey → String
  | .cpuPercent => "cpu_percent"
  | .memoryPercent => "memory_percent"
  | .diskIoMbps => "disk_io_mbps"
  | .networkMbps => "network_mbps"
  | .goroutines => "goroutines"
  | .gcPauseMs => "gc_pause_ms"
  | .openFds => "open_fds"

structure SystemMetricSample where
  id : Uuid
  engineInstanceId : Uuid
  metricKey : MetricKey
  value : ℚ
  unit : String
  limitValue : Option ℚ
  recordedAt : Instant
  deriving DecidableEq, Repr

/-- A rolling sample of the rate of one endpoint. -/
structure ApiEndpointStat where
  id : Uuid
  engineInstanceId : Uuid
  endpointPath : String
  requestsPerSecond : ℚ
  throttledCount : ℤ
  rejectedCount : ℤ
  latencyP99Ms : ℚ
  recordedAt : Instant
  deriving DecidableEq, Repr

structure EngineStore where
  instances : Table EngineInstance Uuid EngineInstance.id
  metricSamples : Table SystemMetricSample Uuid SystemMetricSample.id
  apiEndpointStats : Table ApiEndpointStat Uuid ApiEndpointStat.id
  sampled : ∀ m ∈ metricSamples.rows, ∃ i ∈ instances.rows, i.id = m.engineInstanceId
  measured : ∀ r ∈ apiEndpointStats.rows, ∃ i ∈ instances.rows, i.id = r.engineInstanceId

/-- The rows of one instance. -/
def EngineStore.statsOf (s : EngineStore) (instanceId : Uuid) : List ApiEndpointStat :=
  s.apiEndpointStats.rows.filter fun r => r.engineInstanceId = instanceId

/-- With one instance all rows are its rows. -/
theorem EngineStore.statsOf_of_single {s : EngineStore} {i : EngineInstance}
    (h : s.instances.rows = [i]) : s.statsOf i.id = s.apiEndpointStats.rows := by
  apply List.filter_eq_self.mpr
  intro r hr
  obtain ⟨j, hj, hid⟩ := s.measured r hr
  rw [h, List.mem_singleton] at hj
  simp [← hid, hj]

end NexusEngine.EngineTables
