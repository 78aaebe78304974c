/-
What the database keeps: one row for each measurement, tag set and
timestamp, overwritten when it is written again.

A timestamp is kept in nanoseconds, whatever the precision it was sent at.
-/
import TransferDashboard.Lib.Store
import TransferDashboard.TimeSeriesPoint

namespace TransferDashboard

open KeyedStore

structure RowKey where
  measurement : String
  tags : Multiset (String × String)
  nanos : Int
  deriving DecidableEq

/-- A row's fields. -/
abbrev Fields := Multiset (String × FieldValue)

/-- The database's rows. -/
abbrev Rows := Store RowKey Fields

/-- The row a point is stored as. A point without a timestamp is stamped by
the server, at a time nothing here depends on: it has no row of its own. -/
def Point.row? (precision : Precision) (p : Point) : Option (RowKey × Fields) :=
  p.timestamp.map fun t => (⟨p.measurement, p.tags, t.toInt * precision.nanos⟩, p.fields)

/-- The rows a request writes, in the order of its points. -/
def WriteRequest.rows (r : WriteRequest) : List (RowKey × Fields) := r.points.filterMap (Point.row? r.precision)

/-- The rows after some requests, all of them stored. -/
def Rows.store (rows : Rows) (requests : List WriteRequest) : Rows :=
  putAll rows (requests.flatMap WriteRequest.rows)

end TransferDashboard
