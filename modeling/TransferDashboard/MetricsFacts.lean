/-
Which reading each metric reports.

Every batch is one write of three points, whatever the platform reads
(`publishMetrics_requests`). Two of its metrics report their own readings; the
count of pending finalizations reports the number of threads, so it is right
where the two happen to be equal (`own_reading_iff`).
-/
import TransferDashboard.Metrics

namespace TransferDashboard

open Scala

namespace Metrics

inductive Metric where
  | heap | pendingFinalization | threads
  deriving DecidableEq, Repr

namespace Metric

def measurement : Metric → String
  | .heap => "heap"
  | .pendingFinalization => "pendingFinalization"
  | .threads => "threads"

/-- The field of its points. -/
def field : Metric → String
  | .heap => "bytes"
  | .pendingFinalization | .threads => "count"

/-- What the platform reads of it. -/
def reading (platform : Platform) : Metric → Int64
  | .heap => platform.heapMemoryUsed
  | .pendingFinalization => platform.objectPendingFinalizationCount.toInt64
  | .threads => platform.threadCount.toInt64

end Metric

/-- The client's point of a metric. -/
def clientMetric (metric : Metric) (value : Int64) : Point where
  measurement := metric.measurement
  timestamp := none
  tags := {("jvm", "Graph")}
  fields := {(metric.field, .long value)}

/-- A connection to a database that is there. -/
def connected : InfluxDBDriver := ⟨.ok ()⟩

/-- The points a publication writes. -/
def written (platform : Platform) : List Point :=
  match publishMetrics connected platform with
  | .ok insert => insert.requests.flatMap WriteRequest.points
  | .error _ => []

/-- One write of a point for each metric, with its reading. -/
def OwnReadings (platform : Platform) : Prop :=
  ∃ insert, publishMetrics connected platform = .ok insert ∧ insert.requests = [.bulkWrite
    [clientMetric .heap (Metric.heap.reading platform),
      clientMetric .pendingFinalization (Metric.pendingFinalization.reading platform),
      clientMetric .threads (Metric.threads.reading platform)] .milliseconds]

/-- Platforms that agree on a metric are written the same points of it. -/
def Independent (platform platform' : Platform) : Prop :=
  ∀ metric : Metric, metric.reading platform = metric.reading platform' →
    (written platform).filter (·.measurement = metric.measurement) =
      (written platform').filter (·.measurement = metric.measurement)

/-- The batch passes whatever the platform reads. -/
theorem publishMetrics_requests (platform : Platform) :
    ∃ insert, publishMetrics connected platform = .ok insert ∧ insert.requests = [.bulkWrite
      [clientMetric .heap platform.heapMemoryUsed, clientMetric .pendingFinalization platform.threadCount.toInt64,
        clientMetric .threads platform.threadCount.toInt64] .milliseconds] :=
  ⟨_, rfl, rfl⟩

theorem written_eq (platform : Platform) : written platform =
    [clientMetric .heap platform.heapMemoryUsed, clientMetric .pendingFinalization platform.threadCount.toInt64,
      clientMetric .threads platform.threadCount.toInt64] := rfl

theorem clientMetric_inj {metric : Metric} {v w : Int64} (h : clientMetric metric v = clientMetric metric w) :
    v = w := by
  have hfields : (metric.field, FieldValue.long v) = (metric.field, FieldValue.long w) :=
    Multiset.singleton_inj.1 (congrArg Point.fields h)
  rw [Prod.mk.injEq, FieldValue.long.injEq] at hfields
  exact hfields.2

theorem toInt64_inj {i j : Int32} (h : i.toInt64 = j.toInt64) : i = j := by
  have hint := congrArg Int64.toInt h
  rw [Int32.toInt_toInt64, Int32.toInt_toInt64] at hint
  exact Int32.toInt_inj.1 hint

/-- Where each metric has its own reading, the count of pending finalizations is the one reported. -/
theorem OwnReadings.pending_eq {platform : Platform} (h : OwnReadings platform) :
    platform.objectPendingFinalizationCount = platform.threadCount := by
  obtain ⟨insert, hinsert, hreq⟩ := h
  obtain ⟨insert', hinsert', hreq'⟩ := publishMetrics_requests platform
  rw [hinsert, Except.ok.injEq] at hinsert'
  rw [← hinsert', hreq] at hreq'
  simp only [List.cons.injEq, WriteRequest.bulkWrite.injEq, and_true] at hreq'
  exact toInt64_inj (clientMetric_inj hreq'.2.1)

/-- What a metric's point reports. -/
def reported (platform : Platform) : Metric → Int64
  | .heap => platform.heapMemoryUsed
  | .pendingFinalization | .threads => platform.threadCount.toInt64

/-- A batch has one point of a metric. -/
theorem written_filter (platform : Platform) (metric : Metric) :
    (written platform).filter (·.measurement = metric.measurement) =
      [clientMetric metric (reported platform metric)] := by
  rw [written_eq]
  cases metric <;> rfl

theorem independent_iff {platform platform' : Platform} : Independent platform platform' ↔
    ∀ metric : Metric, metric.reading platform = metric.reading platform' →
      reported platform metric = reported platform' metric := by
  unfold Independent
  simp only [written_filter, List.cons.injEq, and_true]
  exact forall₂_congr fun metric _ => ⟨clientMetric_inj, fun h => by rw [h]⟩

/-- **Which metric reports its own reading.** A batch is always one write of
three points, and each has its own reading exactly on the platforms with as
many objects pending finalization as threads. Two platforms that agree on a
metric get the same point of it, unless they agree on the pending
finalizations and differ in their threads. -/
theorem own_reading_iff (platform platform' : Platform) :
    (OwnReadings platform ↔ platform.objectPendingFinalizationCount = platform.threadCount) ∧
    (Independent platform platform' ↔
      (platform.objectPendingFinalizationCount = platform'.objectPendingFinalizationCount →
        platform.threadCount = platform'.threadCount)) ∧
    ∃ insert points, publishMetrics connected platform = .ok insert ∧
      insert.requests = [.bulkWrite points .milliseconds] ∧ points.length = 3 := by
  refine ⟨⟨OwnReadings.pending_eq, fun h => ?_⟩, ⟨fun h hpending => ?_, fun h => ?_⟩, ⟨_, _, rfl, rfl, rfl⟩⟩
  · obtain ⟨insert, hinsert, hreq⟩ := publishMetrics_requests platform
    refine ⟨insert, hinsert, ?_⟩
    rw [hreq]
    simp only [Metric.reading, h]
  · have hreading := congrArg Int32.toInt64 hpending
    exact toInt64_inj (independent_iff.1 h .pendingFinalization hreading)
  · refine independent_iff.2 fun metric hreading => ?_
    cases metric with
    | heap => exact hreading
    | pendingFinalization => exact congrArg Int32.toInt64 (h (toInt64_inj hreading))
    | threads => exact hreading

/-- Ten threads and nothing to finalize: ten objects are reported pending. -/
theorem threads_reported_pending :
    ¬ OwnReadings { threadCount := 10, heapMemoryUsed := 1024, objectPendingFinalizationCount := 0 } ∧
    ¬ Independent { threadCount := 10, heapMemoryUsed := 1024, objectPendingFinalizationCount := 0 }
      { threadCount := 11, heapMemoryUsed := 1024, objectPendingFinalizationCount := 0 } := by
  have heleven : (10 : Int32).toInt64 ≠ (11 : Int32).toInt64 := by decide
  refine ⟨fun h => ?_, fun h => heleven (independent_iff.1 h .pendingFinalization rfl)⟩
  have hzero : (0 : Int32) = 10 := h.pending_eq
  exact absurd hzero (by decide)

end Metrics

end TransferDashboard
