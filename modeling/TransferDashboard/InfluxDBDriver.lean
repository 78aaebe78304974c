/-
The InfluxDB driver (`timeseries/InfluxDBDriver.scala`): a generic point
becomes the client's point and precision, and one or many of them one
request.

An exception thrown while a point is built is `Except.error`; the source's
`Try(..)` around such a call is then the call itself.
-/
import TransferDashboard.TimeSeriesPoint

namespace TransferDashboard

open Scala

namespace InfluxDBDriver

def wrongTypeForTag : Throwable := runtimeException "Wrong type for tag"
def wrongTypeForField : Throwable := runtimeException "Wrong type for field"
def unsupportedPrecision : Throwable := runtimeException "Unsupported precision"
def notAllPointsAreGood : Throwable := runtimeException "Not all points are good"
def precisionsMustBeTheSame : Throwable := runtimeException "All precisions must be the same"

/-- One step of the fold over the tags. -/
def addTag (p : Point) (tp : String × AnyVal) : Try Point :=
  match tp.2 with
  | .string s => .ok (p.addTag tp.1 s)
  | _ => .error wrongTypeForTag

/-- One step of the fold over the fields. -/
def addField (p : Point) (fp : String × AnyVal) : Try Point :=
  match fp.2 with
  | .string s => .ok (p.addField fp.1 (.string s))
  | .double d => .ok (p.addField fp.1 (.double d))
  | .long l => .ok (p.addField fp.1 (.long l))
  | .boolean b => .ok (p.addField fp.1 (.boolean b))
  | _ => .error wrongTypeForField

def buildPoint (tsPoint : TimeSeriesPoint) : Try Point := do
  let point := Point.new tsPoint.measurement tsPoint.timeStamp
  let pointWithTags ← match tsPoint.tags with
    | .some tags => tags.foldlM addTag point
    | .none => .ok point
  tsPoint.fields.foldlM addField pointWithTags

def buildPrecision (tsPoint : TimeSeriesPoint) : Try Precision :=
  match tsPoint.precision with
  | .hours => .ok .hours
  | .minutes => .ok .minutes
  | .seconds => .ok .seconds
  | .milliseconds => .ok .milliseconds
  | .microseconds => .ok .microseconds
  | .nanoseconds => .ok .nanoseconds
  | _ => .error unsupportedPrecision

end InfluxDBDriver

/-- A connection: `db_future`, the database checked for and created if it
was missing, or the failure of that. -/
structure InfluxDBDriver where
  dbFuture : Try Unit

namespace InfluxDBDriver

/-- `new InfluxDBDriver(..)`, where `db.exists()` and, if it is asked for,
`db.create()` end so. -/
def connect (existsAnswer : Try Bool) (createAnswer : Try Unit) : InfluxDBDriver where
  dbFuture := do
    let x ← existsAnswer
    if x then .ok () else createAnswer

variable (db : InfluxDBDriver)

/-- `db_future.map(call).flatMap(identity)`: the call is made once the
database is there, and not at all when it is not. -/
def onDb (r : WriteRequest) : Future WriteRequest Bool :=
  match db.dbFuture with
  | .ok _ => .request r
  | .error e => .failed e

def insertPoint (tsPoint : TimeSeriesPoint) : Future WriteRequest Bool :=
  match buildPoint tsPoint with
  | .error e => .failed e
  | .ok point =>
    match buildPrecision tsPoint with
    | .error e => .failed e
    | .ok precis => db.onDb (.write point precis)

/-- The override of `insertPoints` for two points and more, and for none. -/
def insertBatch (tsPoints : List TimeSeriesPoint) : Future WriteRequest Bool :=
  let points := tsPoints.map buildPoint
  let goodPoints := points.filterMap Try.success?
  if points.length != goodPoints.length then .failed notAllPointsAreGood
  else
    let precision := tsPoints.map buildPrecision
    let goodPrecis := precision.filterMap Try.success?
    -- `good_precis.toSet`
    match goodPrecis.dedup with
    | [precis] => db.onDb (.bulkWrite goodPoints precis)
    | _ => .failed precisionsMustBeTheSame

def insertPoints (tsPoints : List TimeSeriesPoint) : Future WriteRequest Bool :=
  match tsPoints with
  | [tsPoint] => db.insertPoint tsPoint
  | _ => db.insertBatch tsPoints

end InfluxDBDriver

end TransferDashboard
