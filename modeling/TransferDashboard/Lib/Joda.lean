/-
Instants with a time zone, after Joda-Time.

A `DateTime` is an instant in milliseconds and the zone it is looked at in;
two of them for one instant in two zones are different values. The arithmetic
of instants is a parameter (`Chronology`), as are the zone rules and the ISO
text format (`IsoTime`), of which
`IsoTime.Documented` states what the documentation says: the text holds the
local fields and the offset of the zone at that instant, and is read back as
the same instant in the zone the reader is given.
-/
import Mathlib
import TransferDashboard.Lib.Future

namespace Joda

open Scala

structure DateTimeZone where
  id : String
  deriving DecidableEq, Repr

/-- An ISO-chronology `DateTime`. -/
structure DateTime where
  millis : Int64
  zone : DateTimeZone
  deriving DecidableEq, Repr

namespace DateTime

def isBefore (a b : DateTime) : Bool := a.millis < b.millis
def isAfter (a b : DateTime) : Bool := b.millis < a.millis

/-- `a.compareTo(b)`: by instant alone. -/
def compareTo (a b : DateTime) : Int := if a.millis < b.millis then -1 else if b.millis < a.millis then 1 else 0

theorem isBefore_iff {a b : DateTime} : a.isBefore b = true ↔ a.millis.toInt < b.millis.toInt := by
  rw [isBefore, decide_eq_true_eq, Int64.lt_iff_toInt_lt]

end DateTime

/-- A day in milliseconds, which no offset of a zone reaches. -/
def day : Int := 86400000

/-- The arithmetic of instants. A sum is so many seconds later, or throws; it
returns wherever it stays a day from the ends of a `Long`. -/
structure Chronology where
  plusSeconds : DateTime → Int → Try DateTime
  plusSeconds_millis : ∀ dt seconds dt', plusSeconds dt seconds = .ok dt' →
    dt'.millis.toInt = dt.millis.toInt + 1000 * seconds
  plusSeconds_returns : ∀ dt seconds, -2 ^ 63 + day ≤ dt.millis.toInt → 0 ≤ seconds →
    dt.millis.toInt + 1000 * seconds + day < 2 ^ 63 → ∃ dt', plusSeconds dt seconds = .ok dt'

/-- That of UTC, where no offset is added: the sum is checked. -/
def chronologyUTC : Chronology where
  plusSeconds dt seconds :=
    let millis := dt.millis.toInt + 1000 * seconds
    if (Int64.ofInt millis).toInt = millis then .ok { dt with millis := Int64.ofInt millis }
    else .error (.exception "ArithmeticException" "The calculation caused an overflow")
  plusSeconds_millis dt seconds dt' h := by
    simp only at h
    split at h
    next hfit =>
      rw [Except.ok.injEq] at h
      rw [← h]
      exact hfit
    · cases h
  plusSeconds_returns dt seconds hlow hpos hhigh := by
    have hfit : (Int64.ofInt (dt.millis.toInt + 1000 * seconds)).toInt = dt.millis.toInt + 1000 * seconds := by
      unfold day at hlow hhigh
      exact Int64.toInt_ofInt_of_le (by omega) (by omega)
    exact ⟨_, if_pos hfit⟩

/-- Time zones and the format `ISODateTimeFormat.dateTime`. -/
structure IsoTime where
  /-- Milliseconds to add to UTC in the zone at the instant. -/
  getOffset : DateTimeZone → Int64 → Int
  print : DateTime → String
  /-- Parsing in a process whose default zone is the given one. -/
  parseDateTime : DateTimeZone → String → Try DateTime

structure IsoTime.Documented (J : IsoTime) : Prop where
  parse_print : ∀ (d : DateTimeZone) (dt : DateTime), J.parseDateTime d (J.print dt) = .ok ⟨dt.millis, d⟩
  parse_zone : ∀ (d : DateTimeZone) (s : String) (dt : DateTime), J.parseDateTime d s = .ok dt → dt.zone = d
  /-- The text of an instant shows the offset, and depends on the zone through it alone. -/
  print_eq_iff : ∀ (t : Int64) (z z' : DateTimeZone),
    J.print ⟨t, z⟩ = J.print ⟨t, z'⟩ ↔ J.getOffset z t = J.getOffset z' t

end Joda
