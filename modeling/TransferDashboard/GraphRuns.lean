/-
What the stream does with a message when nothing goes wrong: it is inserted
and its offset gathered (`run_handle`), and what was gathered is committed
(`run_commitBatch`). One that cannot be read fails the stream (`run_throws`).
-/
import TransferDashboard.ProcessMessage

namespace TransferDashboard

open Scala Joda Json Random Stage EventPoint

namespace Graph

variable {P σ : Type} [DecidableEq P] {env : Env P σ}

/-- A message goes through `mapAsync(1)` into the batch. -/
def handle (p : P) : List (Act P) := [.deliver p, .store 0, .complete 0 [.ok true], .aggregate]

/-- The batch is committed. -/
def commitBatch : List (Act P) := [.flush, .applyCommit 0, .completeCommit 0 true, .sink]

/-- The state after an event at the position of a partition went through. -/
def State.handled (env : Env P σ) (s : State P σ) (p : P) (e : Event) (batch : Batch 20 (Offset P)) : State P σ :=
  { s with
    rows := s.rows.store [requestOf e (draws env.random s.jvm.random)]
    jvm := { s.jvm with
      position := Function.update s.jvm.position p (s.jvm.position p + 1)
      random := afterDraws env.random s.jvm.random
      batch
      started := s.jvm.started ++ [⟨(p, s.jvm.position p), some (e.inZone env.zone),
        insertOf env.db e (draws env.random s.jvm.random)⟩] }
    succeeded := s.succeeded ++ [(p, s.jvm.position p)] }

theorem run_handle (hL : env.libs.Documented) (hdb : env.db.dbFuture = .ok ()) {s : State P σ} {p : P} {e : Event}
    {batch : Batch 20 (Offset P)} (hf : s.jvm.failed = false) (hidle : s.jvm.process = .empty)
    (hlog : (s.log p)[s.jvm.position p]? = some (JsonCodex.eventToJson env.libs e))
    (hpush : s.jvm.batch.push? (p, s.jvm.position p) = some batch) :
    Machine.run (step env) s (handle p) = some (s.handled env p e batch) := by
  have hdec : eventOf env (JsonCodex.eventToJson env.libs e) = some (e.inZone env.zone) := eventOf_eventToJson hL e
  have hans : ∀ o : Offset P, (Delivery.mk o (insertOf env.db e (draws env.random s.jvm.random)) true).mayAnswer
      [.ok true] = true := by
    intro o
    rw [Delivery.mayAnswer, insertOf_requests hdb]
    rfl
  simp [handle, Machine.run, step, hf, hidle, hlog, hpush, processMessage_eventToJson hL, hdec, MapAsync.push?,
    MapAsync.running?, MapAsync.emit?, MapAsync.set, MapAsync.empty, insertOf_requests hdb, insertOf_outcome hdb, hans,
    State.handled]

/-- The state after the offsets gathered were committed. -/
def State.committedBatch (s : State P σ) (offsets : List (Offset P)) : State P σ :=
  { s with
    committed := (CommittableOffsetBatch.of offsets).commit s.committed
    jvm := { s.jvm with batch := .empty } }

theorem run_commitBatch {s : State P σ} {offsets : List (Offset P)} (hf : s.jvm.failed = false)
    (hcommits : s.jvm.commits = .empty) (hflush : s.jvm.batch.flush? = some (offsets, .empty)) :
    Machine.run (step env) s commitBatch = some (s.committedBatch offsets) := by
  simp [commitBatch, Machine.run, step, hf, hcommits, hflush, MapAsync.push?, MapAsync.running?, MapAsync.emit?,
    MapAsync.set, MapAsync.empty, State.committedBatch]

/-- The batch of one offset. -/
def batchOf (o : Offset P) : Batch 20 (Offset P) := ⟨[o], none, Nat.succ_le_succ (Nat.zero_le 19), fun h => absurd rfl h⟩

/-- The first message of a partition, processed and committed by a fresh process. -/
theorem run_first (hL : env.libs.Documented) (hdb : env.db.dbFuture = .ok ()) {log : P → List String} {p : P}
    {e : Event} (hlog : (log p)[0]? = some (JsonCodex.eventToJson env.libs e)) :
    Machine.run (step env) (State.init env log) (handle p ++ commitBatch) =
      some (((State.init env log).handled env p e (batchOf (p, 0))).committedBatch [(p, 0)]) :=
  Machine.run_append.2 ⟨_, run_handle hL hdb rfl rfl hlog rfl, run_commitBatch rfl rfl rfl⟩

/-- An event at the position of a partition is handed out. -/
theorem run_deliver (hL : env.libs.Documented) {s : State P σ} {p : P} {e : Event} (hf : s.jvm.failed = false)
    (hidle : s.jvm.process = .empty)
    (hlog : (s.log p)[s.jvm.position p]? = some (JsonCodex.eventToJson env.libs e)) :
    Machine.run (step env) s [.deliver p] = some { s with jvm := { s.jvm with
      position := Function.update s.jvm.position p (s.jvm.position p + 1)
      random := afterDraws env.random s.jvm.random
      process := ⟨[.running ⟨(p, s.jvm.position p), insertOf env.db e (draws env.random s.jvm.random), false⟩],
        Nat.le_refl 1⟩
      started := s.jvm.started ++ [⟨(p, s.jvm.position p), some (e.inZone env.zone),
        insertOf env.db e (draws env.random s.jvm.random)⟩] } } := by
  have hdec : eventOf env (JsonCodex.eventToJson env.libs e) = some (e.inZone env.zone) := eventOf_eventToJson hL e
  simp [Machine.run, step, hf, hidle, hlog, processMessage_eventToJson hL, hdec, MapAsync.push?, MapAsync.empty]

/-- A message that cannot be read is handed out, and the stream fails with it. -/
theorem run_throws {s : State P σ} {p : P} {payload : String} {e : Throwable} (hf : s.jvm.failed = false)
    (hidle : s.jvm.process = .empty) (hlog : (s.log p)[s.jvm.position p]? = some payload)
    (hthrows : JsonCodex.jsonToEvent env.libs env.zone payload = .error e) :
    Machine.run (step env) s [.deliver p] =
      some { s with jvm := { s.jvm with failed := true, threw := some (p, s.jvm.position p) } } := by
  simp [Machine.run, step, hf, hidle, hlog, processMessage_of_error hthrows, MapAsync.empty]

/-- The log of one partition with the codec's event. -/
def specLog : Unit → List String := fun _ => [JsonCodex.eventToJson textLibs JsonCodexSpec.event]

/-- The state after its message went through. -/
def specHandled : State Unit Java.Seed :=
  (State.init textEnv specLog).handled textEnv () JsonCodexSpec.event (batchOf ((), 0))

theorem run_specHandled : Machine.run (step textEnv) (State.init textEnv specLog) (handle ()) = some specHandled :=
  run_handle textLibs_documented rfl rfl rfl rfl rfl

/-- The state after it was committed as well. -/
def specCommitted : State Unit Java.Seed := specHandled.committedBatch [((), 0)]

theorem run_specCommitted : Machine.run (step textEnv) (State.init textEnv specLog) (handle () ++ commitBatch) =
    some specCommitted :=
  run_first textLibs_documented rfl rfl

/-- The same consumer of two partitions, one of a single partner and one of all others. -/
def pairEnv : Env Bool Java.Seed := { textEnv with partitioner := fun key => key == "Partner(B)" }

/-- The codec's event so many times, in each partition. -/
def repeated (n : Nat) : P → List String :=
  fun _ => List.replicate n (JsonCodex.eventToJson textLibs JsonCodexSpec.event)

/-- An event a second after the first. -/
def secondEvent : Event :=
  { JsonCodexSpec.event with eventId := ⟨"2"⟩, timestamp := ⟨⟨1483304401000, losAngeles⟩⟩ }

/-- An event of another partner. -/
def otherEvent : Event := { JsonCodexSpec.event with eventId := ⟨"3"⟩, partner := ⟨"B"⟩ }

def twoMessages : List String :=
  [JsonCodex.eventToJson textLibs JsonCodexSpec.event, JsonCodex.eventToJson textLibs secondEvent]

/-- Both go through a process that begins at the first. -/
theorem run_two {s : State Unit Java.Seed} (hjvm : s.jvm = .start textEnv s.committed) (hnone : s.committed () = none)
    (hlog : s.log () = twoMessages) : ∃ t, Machine.run (step textEnv) s (handle () ++ handle ()) = some t ∧
      t.log = s.log ∧ t.committed = s.committed ∧ t.jvm.position () = 2 ∧ t.jvm.failed = false ∧
      t.jvm.process = .empty ∧ t.jvm.commits = .empty ∧
      t.jvm.batch.flush? = some ([((), 0), ((), 1)], .empty) ∧ t.succeeded = s.succeeded ++ [((), 0), ((), 1)] := by
  have hL : textEnv.libs.Documented := textLibs_documented
  have hposition : s.jvm.position () = 0 := by rw [hjvm]; simp only [Jvm.start, hnone, Option.getD_none]
  have hfirst : Machine.run (step textEnv) s (handle ()) =
      some (s.handled textEnv () JsonCodexSpec.event (batchOf ((), 0))) :=
    run_handle hL rfl (by rw [hjvm]; rfl) (by rw [hjvm]; rfl) (by rw [hlog, hposition]; rfl)
      (by rw [hposition, hjvm]; rfl)
  have hposition' : (s.handled textEnv () JsonCodexSpec.event (batchOf ((), 0))).jvm.position () = 1 := by
    simp only [State.handled, Function.update_self, hposition]
  have hsecond : Machine.run (step textEnv) (s.handled textEnv () JsonCodexSpec.event (batchOf ((), 0))) (handle ()) =
      some ((s.handled textEnv () JsonCodexSpec.event (batchOf ((), 0))).handled textEnv () secondEvent
        ⟨[((), 0), ((), 1)], none, Nat.le_add_left 2 18, fun h => absurd rfl h⟩) :=
    run_handle hL rfl (by simp only [State.handled, hjvm]; rfl) (by simp only [State.handled, hjvm]; rfl)
      (by rw [hposition']; simp only [State.handled, hlog]; rfl) (by rw [hposition']; rfl)
  refine ⟨_, Machine.run_append.2 ⟨_, hfirst, hsecond⟩, rfl, rfl, ?_, ?_, ?_, ?_, rfl, ?_⟩
  · simp only [State.handled, Function.update_self, hposition]
  · simp only [State.handled, hjvm]; rfl
  · simp only [State.handled, hjvm]; rfl
  · simp only [State.handled, hjvm]; rfl
  · simp [State.handled, hposition]

/-- The first of two messages is lost in a crash, and both are processed and committed after it. -/
def takenAgain : List (Act Unit) := handle () ++ .crash :: ((handle () ++ handle ()) ++ commitBatch)

theorem run_takenAgain : ∃ s, Machine.run (step textEnv) (State.init textEnv fun _ => twoMessages) takenAgain = some s ∧
    s.log () = twoMessages ∧ s.committed () = some 2 ∧ s.succeeded = [((), 0), ((), 0), ((), 1)] := by
  have hfirst : Machine.run (step textEnv) (State.init textEnv fun _ => twoMessages) (handle ()) =
      some ((State.init textEnv fun _ => twoMessages).handled textEnv () JsonCodexSpec.event (batchOf ((), 0))) :=
    run_handle textLibs_documented rfl rfl rfl rfl rfl
  obtain ⟨t, htwo, hlog, -, -, hf, -, hcommits, hflush, hsucceeded⟩ :=
    run_two (s := { (State.init textEnv fun _ => twoMessages).handled textEnv () JsonCodexSpec.event (batchOf ((), 0)) with
      jvm := .start textEnv fun _ => none }) rfl rfl rfl
  exact ⟨_, Machine.run_append.2 ⟨_, hfirst, Machine.run_cons.2 ⟨_, rfl, Machine.run_append.2
    ⟨t, htwo, run_commitBatch hf hcommits hflush⟩⟩⟩, congrFun hlog (), rfl, hsucceeded⟩

end Graph

end TransferDashboard
