/-
Time-series points of an event (`model/EventPoint.scala`).

`EventPoint.random` is the state `σ` of a random source, threaded through
the functions that draw from it.
-/
import TransferDashboard.Event
import TransferDashboard.Lib.Random
import TransferDashboard.TimeSeriesPoint

namespace TransferDashboard

open Random

namespace EventPoint

def transferType (event : Event) : String :=
  match event.action, event.ackState with
  | .send, none => "send"
  | .receive, none => "receive"
  | .error, none => "error"
  | .send, some _ => "sendasync"
  | .receive, some _ => "receiveasync"
  | .error, some _ => "errorasync"

/-- `TimeUnit.NANOSECONDS.convert(millis, MILLISECONDS)`: saturates at the ends of `Long`. -/
def convertToNanos (millis : Int64) : Int64 := Int64.ofIntClamp (millis.toInt * 1000000)

variable {σ : Type} (R : RandomSource σ)

/-- `random.nextInt(100000)`. -/
def nextFuzz (random : σ) : Fin 100000 × σ := R.nextInt 100000 random

def fuzzMilliseconds (millis : Int64) (random : σ) : Int64 × σ :=
  let nanos := convertToNanos millis
  let (fuzz, random) := nextFuzz R random
  (nanos + Int64.ofNat fuzz, random)

/-- The series of one number of the event. -/
def buildTimeSeries (measurement field : String) (value : Event → Int32) (event : Event) (random : σ) :
    TimeSeriesPoint × σ :=
  let tags := [("partner", .string event.partner.name), ("type", .string (transferType event))]
  let fields := [(field, .long (value event).toInt64)]
  let (timeStamp, random) := fuzzMilliseconds R event.millis random
  ({ measurement, tags := some tags, fields, timeStamp := some timeStamp, precision := .nanoseconds }, random)

def buildSizeTimeSeries (event : Event) (random : σ) : TimeSeriesPoint × σ :=
  buildTimeSeries R "transferred_bytes" "filesize" Event.size event random

def buildSecondsTimeSeries (event : Event) (random : σ) : TimeSeriesPoint × σ :=
  buildTimeSeries R "transfer_seconds" "seconds" Event.seconds event random

def buildTimeSeriesPoints (event : Event) (random : σ) : List TimeSeriesPoint × σ :=
  let (size, random) := buildSizeTimeSeries R event random
  let (seconds, random) := buildSecondsTimeSeries R event random
  ([size, seconds], random)

end EventPoint

end TransferDashboard
