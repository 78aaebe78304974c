/-
The generic database driver (`timeseries/DBDriver.scala`).

`insertPoints` has a default implementation over `insertPoint`, which a
driver may override; the driver for InfluxDB does.
-/
import TransferDashboard.InfluxDBDriver

namespace TransferDashboard

open Scala

/-- `_.reduce { _ && _ }`, which throws when there is nothing to reduce. -/
def reduceAnd : List Bool → Try Bool
  | [] => .error (.exception "UnsupportedOperationException" "empty.reduceLeft")
  | b :: bs => .ok (bs.foldl (· && ·) b)

/-- A driver whose inserts issue requests of type `ρ`. -/
structure DBDriver (ρ : Type) where
  insertPoint : TimeSeriesPoint → Future ρ Bool
  insertPoints : List TimeSeriesPoint → Future ρ Bool

namespace DBDriver

variable {ρ : Type}

/-- `insertPoints` as the trait has it. -/
def defaultInsertPoints (insertPoint : TimeSeriesPoint → Future ρ Bool) (timeSeriesPoints : List TimeSeriesPoint) :
    Future ρ Bool :=
  match timeSeriesPoints with
  | [timeSeriesPoint] => insertPoint timeSeriesPoint
  | _ => (Future.sequence (timeSeriesPoints.map insertPoint)).mapTry reduceAnd

/-- A driver that does not override it. -/
def ofInsertPoint (insertPoint : TimeSeriesPoint → Future ρ Bool) : DBDriver ρ :=
  ⟨insertPoint, defaultInsertPoints insertPoint⟩

end DBDriver

/-- The driver for InfluxDB overrides it. -/
def InfluxDBDriver.driver (db : InfluxDBDriver) : DBDriver WriteRequest := ⟨db.insertPoint, db.insertPoints⟩

end TransferDashboard
