/-
The event of a transfer (`model/Event.scala`) and its time stamp as text
(`model/Time.scala`).

A synchronous transfer has neither `ackState` nor `receiptFor`, an
asynchronous one an `ackState`, and a receipt names in `receiptFor` the
transfer it completes. The type does not enforce it, here or in the source.
-/
import TransferDashboard.Lib.Joda

namespace TransferDashboard

open Scala Joda

structure EventId where
  id : String
  deriving DecidableEq, Repr

structure Partner where
  name : String
  deriving DecidableEq, Repr

/-- A case class's `toString`. -/
def Partner.toString (p : Partner) : String := "Partner(" ++ p.name ++ ")"

structure TimeStamp where
  dt : DateTime
  deriving DecidableEq, Repr

inductive Action where
  | send | receive | error
  deriving DecidableEq, Repr

inductive AckState where
  | ackPending | ackReceived
  deriving DecidableEq, Repr

structure Event where
  eventId : EventId
  partner : Partner
  timestamp : TimeStamp
  action : Action
  size : Int32
  seconds : Int32
  ackState : Option AckState
  receiptFor : Option EventId
  deriving DecidableEq, Repr

/-- The event's instant, in epoch milliseconds (`timestamp.dt.toDate.getTime`). -/
def Event.millis (e : Event) : Int64 := e.timestamp.dt.millis

/-- The same event with its instant expressed in another zone. -/
def Event.inZone (e : Event) (zone : DateTimeZone) : Event :=
  { e with timestamp := ⟨{ e.timestamp.dt with zone }⟩ }

@[simp] theorem Event.inZone_millis (e : Event) (zone : DateTimeZone) : (e.inZone zone).millis = e.millis := rfl
@[simp] theorem Event.inZone_partner (e : Event) (zone : DateTimeZone) : (e.inZone zone).partner = e.partner := rfl
@[simp] theorem Event.inZone_zone (e : Event) (zone : DateTimeZone) :
    (e.inZone zone).timestamp.dt.zone = zone := rfl

theorem Event.inZone_self (e : Event) : e.inZone e.timestamp.dt.zone = e := rfl

/-- Later events are smaller. -/
def OrderingByTimeEvent.compare (x y : Event) : Int := -x.timestamp.dt.compareTo y.timestamp.dt

namespace Time

variable (J : IsoTime)

/-- `fmt.parseDateTime(str)`, in a process whose default zone is `zone`. -/
def stringToDateTime (zone : DateTimeZone) (str : String) : Try DateTime := J.parseDateTime zone str

def dateTimeToString (dt : DateTime) : String := J.print dt

end Time

end TransferDashboard
