/-
Events to JSON and back (`model/JsonCodex.scala`).

The formats of the source are a reader and a writer each; `Json.format` of a
case class is the reader and the writer over its fields, in order, with the
optional ones nullable.
-/
import TransferDashboard.Event
import TransferDashboard.Lib.PlayJson

namespace TransferDashboard

open Scala Joda Json

/-- The libraries the codec rests on. -/
structure Libs where
  json : PlayJson
  joda : IsoTime

structure Libs.Documented (L : Libs) : Prop where
  json : L.json.Documented
  joda : L.joda.Documented

namespace JsonCodex

variable (L : Libs) (zone : DateTimeZone)

/-- `e.getMessage`. -/
def getMessage : Throwable → String
  | .exception _ message | .caused _ message _ => message

namespace TimeStampFormat

def reads : Reads TimeStamp
  | .string str =>
    match Time.stringToDateTime L.joda zone str with
    | .ok dt => .success ⟨dt⟩
    | .error e => .error [([], "parse error: " ++ getMessage e)]
  | _ => .error [([], "cannot parse it")]

def writes (timestamp : TimeStamp) : JsValue := .string (Time.dateTimeToString L.joda timestamp.dt)

end TimeStampFormat

namespace AckFormat

def reads : Reads AckState
  | .string "AckPending" => .success .ackPending
  | .string "AckReceived" => .success .ackReceived
  | _ => .error [([], "cannot parse it")]

def writes : AckState → JsValue
  | .ackPending => .string "AckPending"
  | .ackReceived => .string "AckReceived"

end AckFormat

namespace ActionFormat

def reads : Reads Action
  | .string "Send" => .success .send
  | .string "Received" => .success .receive
  | .string "Error" => .success .error
  | _ => .error [([], "cannot parse it")]

def writes : Action → JsValue
  | .send => .string "Send"
  | .receive => .string "Received"
  | .error => .string "Error"

end ActionFormat

/-- `Json.format[EventId]`. -/
def eventIdReads : Reads EventId := fun json => EventId.mk <$> Reads.path "id" Reads.string json
def eventIdWrites (e : EventId) : JsValue := .object (write "id" (.string e.id))

/-- `Json.format[Partner]`. -/
def partnerReads : Reads Partner := fun json => Partner.mk <$> Reads.path "name" Reads.string json
def partnerWrites (p : Partner) : JsValue := .object (write "name" (.string p.name))

/-- `Json.format[Event]`. -/
def eventReads : Reads Event := fun json =>
  Event.mk <$> Reads.path "eventId" eventIdReads json
    <*> Reads.path "partner" partnerReads json
    <*> Reads.path "timestamp" (TimeStampFormat.reads L zone) json
    <*> Reads.path "action" ActionFormat.reads json
    <*> Reads.path "size" Reads.int json
    <*> Reads.path "seconds" Reads.int json
    <*> Reads.pathNullable "ackState" AckFormat.reads json
    <*> Reads.pathNullable "receiptFor" eventIdReads json

def eventWrites (e : Event) : JsValue :=
  .object (write "eventId" (eventIdWrites e.eventId)
    ++ write "partner" (partnerWrites e.partner)
    ++ write "timestamp" (TimeStampFormat.writes L e.timestamp)
    ++ write "action" (ActionFormat.writes e.action)
    ++ write "size" (.number (.ofInt e.size.toInt))
    ++ write "seconds" (.number (.ofInt e.seconds.toInt))
    ++ writeNullable "ackState" (e.ackState.map AckFormat.writes)
    ++ writeNullable "receiptFor" (e.receiptFor.map eventIdWrites))

def eventToJson (event : Event) : String := L.json.stringify (eventWrites L event)

/-- `Json.fromJson[Event](Json.parse(json)).asOpt`, in a process whose default
zone is `zone`. What `Json.parse` throws leaves through here. -/
def jsonToEvent (json : String) : Try (Option Event) := do
  let value ← L.json.parse json
  .ok (eventReads L zone value).asOpt

end JsonCodex

end TransferDashboard
