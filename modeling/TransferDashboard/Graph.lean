/-
The consumer (`stream/Graph.scala`): messages of a topic are processed one
at a time, their offsets gathered, and the gathered offsets committed.

`processMessage` is the source's function. The stream around it is a machine
(`step`) over the broker, the database and the consumer's JVM, which a crash
loses and a restart begins anew from the committed positions. One action is
one thing that can happen next: a delivery, the database storing or
answering, a stage passing an element on, a commit taking effect or being
answered, a crash. A run is any list of actions that can happen one after
another, so every interleaving is a run.

`started`, `threw` and `succeeded` record what happened; no step reads them.
-/
import TransferDashboard.EventPoint
import TransferDashboard.InfluxDBDriver
import TransferDashboard.Lib.Machine
import TransferDashboard.Lib.Stage
import TransferDashboard.Loader
import TransferDashboard.Rows

namespace TransferDashboard

open Scala Joda Json Random Stage KeyedStore

namespace Graph

/-- `kafka_graph.topic`. -/
def topic : String := "loader.test"

/-- What a consumer runs with: its libraries, its JVM's default zone and
random source, its database, and the broker's choice of a partition for a
record's key. -/
structure Env (P σ : Type) where
  libs : Libs
  zone : DateTimeZone
  random : RandomSource σ
  /-- `EventPoint.random` as a fresh JVM has it. -/
  seed : σ
  db : InfluxDBDriver
  partitioner : String → P

variable {P σ : Type}

def cannotConvert : Throwable := runtimeException "cannot convert JSON to Event"
def dbInsertFailed (cause : Throwable) : Throwable := .caused "RuntimeException" "Db insert failed" cause

/-- The future of a payload, or what was thrown before there was one. -/
def processMessage (env : Env P σ) (payload : String) (random : σ) : Try (Future WriteRequest Unit) × σ :=
  match JsonCodex.jsonToEvent env.libs env.zone payload with
  | .error e => (.error e, random)
  | .ok none => (.ok (.failed cannotConvert), random)
  | .ok (some event) =>
    let (points, random) := EventPoint.buildTimeSeriesPoints env.random event random
    (.ok (((env.db.insertPoints points).map fun _ => ()).recover dbInsertFailed), random)

/-! ## The stream -/

/-- `CommittableOffset`: the offset of one message. -/
abbrev Offset (P : Type) := P × Nat

/-- `CommittableOffsetBatch`: an offset for each partition it knows. -/
abbrev CommittableOffsetBatch (P : Type) := P → Option Nat

namespace CommittableOffsetBatch

def empty : CommittableOffsetBatch P := fun _ => none

/-- The last offset given for a partition is kept. -/
def updated [DecidableEq P] (b : CommittableOffsetBatch P) (o : Offset P) : CommittableOffsetBatch P :=
  Function.update b o.1 (some o.2)

/-- The batch of some offsets, updated with one after another. -/
def of [DecidableEq P] (offsets : List (Offset P)) : CommittableOffsetBatch P := offsets.foldl updated empty

/-- The positions once the batch is committed: after its offsets. -/
def commit (b : CommittableOffsetBatch P) (committed : P → Option Nat) : P → Option Nat :=
  fun p => match b p with
    | some o => some (o + 1)
    | none => committed p

end CommittableOffsetBatch

/-- A message in `mapAsync(1)`: its insert, and whether the database has
stored it. -/
structure Delivery (P : Type) where
  offset : Offset P
  insert : Future WriteRequest Unit
  stored : Bool

/-- A batch in `mapAsync(3)`, and whether its commit has taken effect. -/
structure Commit (P : Type) where
  offsets : List (Offset P)
  applied : Bool

/-- A message that was handed to `processMessage`: its event, and the insert
that was its answer. -/
structure Started (P : Type) where
  offset : Offset P
  event : Option Event
  insert : Future WriteRequest Unit

/-- The consumer's process: where it is in each partition, `EventPoint.random`,
and the stages of `done`. -/
structure Jvm (P σ : Type) where
  position : P → Nat
  random : σ
  process : MapAsync 1 (Delivery P)
  batch : Batch 20 (Offset P)
  commits : MapAsync 3 (Commit P)
  failed : Bool
  started : List (Started P)
  /-- The message `processMessage` threw on, if it has: the stream failed with it. -/
  threw : Option (Offset P)

structure State (P σ : Type) where
  /-- The topic's partitions: a message's offset is its index. -/
  log : P → List String
  committed : P → Option Nat
  rows : Rows
  jvm : Jvm P σ
  /-- The offsets whose `processMessage` has completed successfully, in any JVM. -/
  succeeded : List (Offset P)

/-- A fresh process: at the committed positions, or at the earliest offset. -/
def Jvm.start (env : Env P σ) (committed : P → Option Nat) : Jvm P σ where
  position p := (committed p).getD 0
  random := env.seed
  process := .empty
  batch := .empty
  commits := .empty
  failed := false
  started := []
  threw := none

def State.init (env : Env P σ) (log : P → List String) : State P σ where
  log := log
  committed _ := none
  rows := KeyedStore.empty
  jvm := .start env fun _ => none
  succeeded := []

inductive Act (P : Type) where
  /-- A producer's record is appended to its partition. -/
  | send (r : ProducerRecord)
  /-- The source emits the next message of a partition and `mapAsync(1)` processes it. -/
  | deliver (p : P)
  /-- The database stores what the insert at `i` asks for. -/
  | store (i : Nat)
  /-- The insert at `i` is answered. -/
  | complete (i : Nat) (answers : List (Try Bool))
  /-- The oldest processed message's offset goes into the batch. -/
  | aggregate
  /-- The batch goes to `mapAsync(3)` and its commit is sent. -/
  | flush
  /-- The commit at `i` takes effect. -/
  | applyCommit (i : Nat)
  /-- The commit at `i` is answered. -/
  | completeCommit (i : Nat) (ok : Bool)
  /-- `Sink.ignore` takes the oldest commit's answer. -/
  | sink
  /-- The process is lost, and another one started. What the lost one had
  asked of the database and the broker has happened by then, or never will. -/
  | crash

/-- The record an action sends. -/
def Act.sent? : Act P → Option ProducerRecord
  | .send r => some r
  | _ => none

/-- The records a run sends, in order. -/
def sends (acts : List (Act P)) : List ProducerRecord := acts.filterMap Act.sent?

/-- The event of a payload, if it is one. -/
def eventOf (env : Env P σ) (payload : String) : Option Event :=
  match JsonCodex.jsonToEvent env.libs env.zone payload with
  | .ok o => o
  | .error _ => none

/-- An insert may be answered so: once for each request, and with `true` only
after the database has stored it. It may answer `false` at any time. -/
def Delivery.mayAnswer (d : Delivery P) (answers : List (Try Bool)) : Bool :=
  answers.length == d.insert.requests.length && (d.stored || answers.all fun a => a.success? != some true)

section

variable [DecidableEq P] (env : Env P σ)

/-- What one action does. A stream that has failed takes no more part; the
database and the broker may still carry out what it asked of them. -/
def step (s : State P σ) : Act P → Option (State P σ)
  | .send r =>
    if r.topic = topic then
      let p := env.partitioner r.key
      some { s with log := Function.update s.log p (s.log p ++ [r.value]) }
    else some s
  | .deliver p =>
    if s.jvm.failed ∨ 1 ≤ s.jvm.process.slots.length then none
    else
      match (s.log p)[s.jvm.position p]? with
      | none => none
      | some payload =>
        match processMessage env payload s.jvm.random with
        | (.error _, random) =>
          some { s with jvm := { s.jvm with random, failed := true, threw := some (p, s.jvm.position p) } }
        | (.ok insert, random) =>
          (s.jvm.process.push? ⟨(p, s.jvm.position p), insert, false⟩).map fun process =>
            { s with jvm := { s.jvm with
              position := Function.update s.jvm.position p (s.jvm.position p + 1)
              random
              process
              started := s.jvm.started ++ [⟨(p, s.jvm.position p), eventOf env payload, insert⟩] } }
  | .store i =>
    match s.jvm.process.running? i with
    | some d =>
      if d.stored then none
      else some { s with
        rows := s.rows.store d.insert.requests
        jvm := { s.jvm with process := s.jvm.process.set i (.running { d with stored := true }) } }
    | none => none
  | .complete i answers =>
    match s.jvm.process.running? i with
    | some d =>
      if s.jvm.failed ∨ ¬ d.mayAnswer answers then none
      else
        match d.insert.outcome answers with
        | .ok _ => some { s with
            jvm := { s.jvm with process := s.jvm.process.set i (.completed d) }
            succeeded := s.succeeded ++ [d.offset] }
        | .error _ => some { s with jvm := { s.jvm with failed := true } }
    | none => none
  | .aggregate =>
    if s.jvm.failed then none
    else
      match s.jvm.process.emit? with
      | some (d, process) =>
        (s.jvm.batch.push? d.offset).map fun batch => { s with jvm := { s.jvm with process, batch } }
      | none => none
  | .flush =>
    if s.jvm.failed then none
    else
      match s.jvm.batch.flush? with
      | some (offsets, batch) =>
        (s.jvm.commits.push? ⟨offsets, false⟩).map fun commits => { s with jvm := { s.jvm with batch, commits } }
      | none => none
  | .applyCommit i =>
    match s.jvm.commits.running? i with
    | some c =>
      if c.applied then none
      else some { s with
        committed := (CommittableOffsetBatch.of c.offsets).commit s.committed
        jvm := { s.jvm with commits := s.jvm.commits.set i (.running { c with applied := true }) } }
    | none => none
  | .completeCommit i ok =>
    match s.jvm.commits.running? i with
    | some c =>
      if s.jvm.failed then none
      else if ok then
        if c.applied then some { s with jvm := { s.jvm with commits := s.jvm.commits.set i (.completed c) } }
        else none
      else some { s with jvm := { s.jvm with failed := true } }
    | none => none
  | .sink =>
    if s.jvm.failed then none
    else s.jvm.commits.emit?.map fun (_, commits) => { s with jvm := { s.jvm with commits } }
  | .crash => some { s with jvm := .start env s.committed }

end

end Graph

end TransferDashboard
