/-
The metrics of the consumer's JVM (`metrics/*.scala`): three readings of the
platform, a point for each, and their batch.
-/
import TransferDashboard.InfluxDBDriver

namespace TransferDashboard

open Scala

/-- What the MX beans read at one time. -/
structure Platform where
  threadCount : Int32
  heapMemoryUsed : Int64
  objectPendingFinalizationCount : Int32

namespace Platform

def getThreadCount (platform : Platform) : Option Int32 := some platform.threadCount
def getHeapMemory (platform : Platform) : Option Int64 := some platform.heapMemoryUsed
def getPendingFinalization (platform : Platform) : Option Int32 := some platform.objectPendingFinalizationCount

end Platform

namespace Metrics

/-- `Option.get`. -/
def get {α : Type} : Option α → Try α
  | some a => .ok a
  | none => .error (.exception "NoSuchElementException" "None.get")

/-- A point of one reading, stamped by the server. -/
def metricPoint (measurement field : String) (value : Int64) : TimeSeriesPoint where
  measurement := measurement
  tags := some [("jvm", .string "Graph")]
  fields := [(field, .long value)]
  timeStamp := none
  precision := .milliseconds

def getJvmHeapPoint (platform : Platform) : Try TimeSeriesPoint := do
  let bytes ← get platform.getHeapMemory
  .ok (metricPoint "heap" "bytes" bytes)

/-- It reads the thread count, as `getThreadCountPoint` does. -/
def getPendingFinalizationCountPoint (platform : Platform) : Try TimeSeriesPoint := do
  let count ← get platform.getThreadCount
  .ok (metricPoint "pendingFinalization" "count" count.toInt64)

def getThreadCountPoint (platform : Platform) : Try TimeSeriesPoint := do
  let count ← get platform.getThreadCount
  .ok (metricPoint "threads" "count" count.toInt64)

def publishMetrics (db : InfluxDBDriver) (platform : Platform) : Try (Future WriteRequest Bool) := do
  let heap ← getJvmHeapPoint platform
  let pendingFinalization ← getPendingFinalizationCountPoint platform
  let threads ← getThreadCountPoint platform
  .ok (db.insertPoints [heap, pendingFinalization, threads])

end Metrics

end TransferDashboard
