/-
The generator of sample events (`Generator.scala`, with the tests).

A run makes events from one instant to another, a few seconds apart, and for
each asynchronous one the receipt that completes it, which waits in a
priority queue until its time has come. What `f` was called with is
`emitted`; a run ends when its loops do, or in what `plusSeconds` throws.

The random source and `eventId` are the process's: a run leaves them to the
next one.
-/
import TransferDashboard.Event
import TransferDashboard.Lib.MaxQueue
import TransferDashboard.Lib.Random
import TransferDashboard.Lib.While

namespace TransferDashboard

open Scala Joda Random

namespace Generator

structure PartnerMetaInfo where
  partner : Partner
  percentSendVsReceive : Nat
  isSync : Bool

/-- `SamplePartners.getPartnerMetaInfo`. -/
def partners : List PartnerMetaInfo :=
  [⟨⟨"SEA"⟩, 50, true⟩, ⟨⟨"LAX"⟩, 50, false⟩, ⟨⟨"YYZ"⟩, 40, false⟩, ⟨⟨"CDG"⟩, 60, false⟩, ⟨⟨"LHR"⟩, 10, false⟩,
    ⟨⟨"JFK"⟩, 90, true⟩]

instance : NeZero partners.length := ⟨by decide⟩

/-- The variables of the process. -/
structure Vars (σ : Type) where
  random : σ
  eventId : Int32

/-- A process as it starts. -/
def Vars.start {σ : Type} (random : σ) : Vars σ := ⟨random, 1⟩

/-- A queue of events under `OrderingByTimeEvent`. -/
abbrev EventQueue := MaxQueue Event OrderingByTimeEvent.compare

section

variable {σ : Type} (R : RandomSource σ) (C : Chronology)

def getRandomPartnerMetaInfo (random : σ) : PartnerMetaInfo × σ :=
  let (i, random) := R.nextInt partners.length random
  (partners.get i, random)

def getRandomEvent (timeStamp : TimeStamp) (vars : Vars σ) : Event × Vars σ :=
  let (partnerInfo, random) := getRandomPartnerMetaInfo R vars.random
  let id := toString vars.eventId.toInt
  let (percent, random) := R.nextInt 101 random
  let sendOrReceive := if percent.val ≤ partnerInfo.percentSendVsReceive then Action.send else .receive
  let (size, random) := R.nextInt 200000 random
  let (seconds, random) := R.nextInt 25 random
  let ackState := if partnerInfo.isSync then none else some AckState.ackPending
  ({ eventId := ⟨id⟩
     partner := partnerInfo.partner
     timestamp := timeStamp
     action := sendOrReceive
     size := Int32.ofNat (1024 + size.val)
     seconds := Int32.ofNat (3 + seconds.val)
     ackState := ackState
     receiptFor := none }, { random, eventId := vars.eventId + 1 })

/-- The receipt of an event, so many seconds after it. -/
def ack (event : Event) (letter : String) (action : Action) (seconds : Int) : Try Event := do
  let newT ← C.plusSeconds event.timestamp.dt seconds
  .ok { eventId := ⟨letter ++ event.eventId.id⟩
        partner := event.partner
        timestamp := ⟨newT⟩
        action := action
        size := 100
        seconds := 10
        ackState := some .ackReceived
        receiptFor := some event.eventId }

/-- The receipt a new event calls for, if it does. -/
def receipt (event : Event) (random : σ) : Option (Try Event) × σ :=
  match event.action, event.ackState, event.receiptFor with
  | .send, some .ackPending, none =>
    let (delay, random) := R.nextInt 300 random
    (some (ack C event "r" .receive (5 + delay.val)), random)
  | .receive, some .ackPending, none =>
    let (delay, random) := R.nextInt 300 random
    (some (ack C event "s" .send (5 + delay.val)), random)
  | _, _, _ => (none, random)

variable (queue : EventQueue)

/-- The variables of a run. `drawn` counts its calls of `getRandomEvent`. -/
structure Run (σ : Type) (queue : EventQueue) where
  vars : Vars σ
  currentDt : DateTime
  pq : queue.Q
  emitted : List Event
  drawn : Nat

variable {queue}

/-- `f(pq.dequeue())`. -/
def emitHead (s : Run σ queue) : Run σ queue × Option Throwable :=
  match queue.dequeue s.pq with
  | some (event, pq) => ({ s with pq, emitted := s.emitted ++ [event] }, none)
  | none => (s, some (.exception "NoSuchElementException" "no element to remove from heap"))

/-- How many events wait. -/
def waiting (s : Run σ queue) : Nat := (queue.contents s.pq).card

/-- The head of the queue is there and not after the current time. -/
def headDue (s : Run σ queue) : Bool :=
  match queue.headOption s.pq with
  | some head => !head.timestamp.dt.isAfter s.currentDt
  | none => false

def headDefined (s : Run σ queue) : Bool := (queue.headOption s.pq).isSome

/-- The inner loop: what is due. -/
def emitDue (s : Run σ queue) : Run σ queue × Option Throwable := Loop.whileLoop waiting headDue emitHead s

/-- The loop after the main one: what is left. -/
def emitRest (s : Run σ queue) : Run σ queue × Option Throwable := Loop.whileLoop waiting headDefined emitHead s

/-- `f(event)`, and the time advanced. -/
def emitNew (event : Event) (s : Run σ queue) : Run σ queue × Option Throwable :=
  let s := { s with emitted := s.emitted ++ [event] }
  let (step, random) := R.nextInt 3 s.vars.random
  let s := { s with vars := { s.vars with random } }
  match C.plusSeconds s.currentDt (1 + step.val) with
  | .ok currentDt => ({ s with currentDt }, none)
  | .error e => (s, some e)

/-- A new event, with its receipt put to wait. -/
def newEvent (s : Run σ queue) : Run σ queue × Option Throwable :=
  let (event, vars) := getRandomEvent R ⟨s.currentDt⟩ s.vars
  let (acked, random) := receipt R C event vars.random
  let s := { s with vars := { vars with random }, drawn := s.drawn + 1 }
  match acked with
  | some (.ok ack) => emitNew R C event { s with pq := queue.enqueue s.pq ack }
  | some (.error e) => (s, some e)
  | none => emitNew R C event s

/-- The body of the main loop. -/
def iteration (s : Run σ queue) : Run σ queue × Option Throwable :=
  match emitDue s with
  | (s, some e) => (s, some e)
  | (s, none) => newEvent R C s

/-- The milliseconds left, the measure of the main loop. -/
def timeLeft (endDt : DateTime) (s : Run σ queue) : Nat := (endDt.millis.toInt - s.currentDt.millis.toInt).toNat

def generateEvents (queue : EventQueue) (start «end» : TimeStamp) (vars : Vars σ) : Run σ queue × Option Throwable :=
  let s : Run σ queue := ⟨vars, start.dt, queue.empty, [], 0⟩
  match Loop.whileLoop (timeLeft «end».dt) (fun s => s.currentDt.isBefore «end».dt) (iteration R C) s with
  | (s, some e) => (s, some e)
  | (s, none) => emitRest s

/-- Runs of one process, one after another. -/
def generateAll (queue : EventQueue) : List (TimeStamp × TimeStamp) → Vars σ → List (Run σ queue × Option Throwable)
  | [], _ => []
  | span :: spans, vars =>
    let run := generateEvents R C queue span.1 span.2 vars
    run :: generateAll queue spans run.1.vars

end

end Generator

end TransferDashboard
