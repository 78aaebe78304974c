/-
The generic time-series point (`timeseries/TimeSeriesPoint.scala`) and the
database client's own point, precision and write requests.

Tag and field values are `Any` in the source: the driver finds out at run
time what they are, so their runtime types are the constructors here.
-/
import TransferDashboard.Lib.Future

namespace TransferDashboard

open Scala

/-- A JVM value by its runtime type, as far as a type test can tell. The
floating-point ones are their bit patterns: nothing computes with them. -/
inductive AnyVal where
  | string (s : String)
  | double (bits : UInt64)
  | long (l : Int64)
  | boolean (b : Bool)
  | int (i : Int32)
  | float (bits : UInt32)
  | null
  | seq (elements : List AnyVal)
  | other (className : String)

/-- `java.util.concurrent.TimeUnit`. -/
inductive TimeUnit where
  | nanoseconds | microseconds | milliseconds | seconds | minutes | hours | days
  deriving DecidableEq, Repr

/-- `ExplicitTimeSeriesPoint`, the implementation of `TimeSeriesPoint`. -/
structure TimeSeriesPoint where
  measurement : String
  tags : Option (List (String × AnyVal))
  fields : List (String × AnyVal)
  timeStamp : Option Int64
  precision : TimeUnit

/-! ## The client -/

/-- The client's `Precision`. -/
inductive Precision where
  | nanoseconds | microseconds | milliseconds | seconds | minutes | hours
  deriving DecidableEq, Repr

/-- Nanoseconds in one unit: how the server reads a timestamp sent at this precision. -/
def Precision.nanos : Precision → Int
  | .nanoseconds => 1
  | .microseconds => 1000
  | .milliseconds => 1000000
  | .seconds => 1000000000
  | .minutes => 60000000000
  | .hours => 3600000000000

/-- A field of a point, one constructor for each overload of `addField`. -/
inductive FieldValue where
  | string (s : String)
  | double (bits : UInt64)
  | long (l : Int64)
  | boolean (b : Bool)
  deriving DecidableEq, Repr

/-- The client's `Point`. Nothing is known of the order in which it keeps
its tags and fields, so they are multisets; `none` is its default for a
point without a timestamp. -/
structure Point where
  measurement : String
  timestamp : Option Int64
  tags : Multiset (String × String)
  fields : Multiset (String × FieldValue)
  deriving DecidableEq

/-- `Point(measurement, timestamp)`. -/
def Point.new (measurement : String) (timestamp : Option Int64) : Point := ⟨measurement, timestamp, 0, 0⟩

def Point.addTag (p : Point) (key value : String) : Point := { p with tags := (key, value) ::ₘ p.tags }

def Point.addField (p : Point) (key : String) (value : FieldValue) : Point :=
  { p with fields := (key, value) ::ₘ p.fields }

/-- A call of the client's database that changes it. -/
inductive WriteRequest where
  | write (point : Point) (precision : Precision)
  | bulkWrite (points : List Point) (precision : Precision)
  deriving DecidableEq

/-- The points a request asks to store. -/
def WriteRequest.points : WriteRequest → List Point
  | .write point _ => [point]
  | .bulkWrite points _ => points

def WriteRequest.precision : WriteRequest → Precision
  | .write _ precision | .bulkWrite _ precision => precision

end TransferDashboard
