/-
A database that may refuse what it is asked to write.

It stores some points and not others and answers each request in its way; a
bulk write is to it the writes of its points, one by one.
-/
import TransferDashboard.Rows

namespace TransferDashboard

open Scala KeyedStore

structure Database where
  /-- Whether it stores a point sent at a precision. -/
  stores : Point → Precision → Bool
  answer : WriteRequest → Try Bool
  bulkWrite_fails : ∀ points precision, (∃ e, answer (.bulkWrite points precision) = .error e) ↔
    ∃ point ∈ points, ∃ e, answer (.write point precision) = .error e
  bulkWrite_true : ∀ points precision, answer (.bulkWrite points precision) = .ok true ↔
    ∀ point ∈ points, answer (.write point precision) = .ok true

namespace Database

variable (D : Database)

/-- The rows it stores of a request. -/
def rowsOf (r : WriteRequest) : List (RowKey × Fields) :=
  (r.points.filter fun point => D.stores point r.precision).filterMap (Point.row? r.precision)

/-- A request takes effect. -/
def write (rows : Rows) (r : WriteRequest) : Rows := putAll rows (D.rowsOf r)

/-- A database that stores whatever it is asked to. -/
def storing : Database where
  stores _ _ := true
  answer _ := .ok true
  bulkWrite_fails _ _ := by simp
  bulkWrite_true _ _ := by simp

theorem foldl_write (requests : List WriteRequest) (rows : Rows) :
    requests.foldl D.write rows = putAll rows (requests.flatMap D.rowsOf) := by
  induction requests generalizing rows with
  | nil => rfl
  | cons r requests ih => rw [List.foldl_cons, ih, List.flatMap_cons, putAll_append, write]

/-- The rows of a bulk write are those of its points. -/
theorem rowsOf_bulkWrite (points : List Point) (precision : Precision) :
    D.rowsOf (.bulkWrite points precision) = (points.map (.write · precision)).flatMap D.rowsOf := by
  induction points with
  | nil => rfl
  | cons point points ih =>
    rw [List.map_cons, List.flatMap_cons, ← ih]
    simp only [rowsOf, WriteRequest.points, WriteRequest.precision, ← List.filterMap_append, ← List.filter_append,
      List.singleton_append]

end Database

end TransferDashboard
