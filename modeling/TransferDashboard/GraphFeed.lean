/-
From the generator through the topic to the database, through any crashes.

A partition's messages succeed one after another, and none is handed out
before all before it have succeeded (`Sequential.step`); the log of a
partition is what was loaded into it, in order (`loaded_run`). A receipt is
emitted after the transfer it completes and goes to the same partition, so
it is never processed before it (`receipts_follow`), and the inserts one
process issues for a partner are in time order (`handed_in_time_order`).
-/
import TransferDashboard.GeneratorOrder
import TransferDashboard.GraphOrder
import TransferDashboard.GraphRows

namespace TransferDashboard

open Scala Joda Json Random Stage KeyedStore KeyedStream CommitLog EventPoint Generator

namespace Graph

variable {P σ : Type} [DecidableEq P] {env : Env P σ}

/-! ## What was loaded -/

/-- The texts of the records a run sends to a partition. -/
def sentTo (env : Env P σ) (p : P) (records : List ProducerRecord) : List String :=
  (records.filter fun r => r.topic = topic ∧ env.partitioner r.key = p).map ProducerRecord.value

/-- Through whatever happens, a log holds what was sent to it. -/
theorem log_run {log : P → List String} {acts : List (Act P)} {s : State P σ}
    (h : Machine.run (step env) (State.init env log) acts = some s) (p : P) :
    s.log p = log p ++ sentTo env p (sends acts) := by
  refine Machine.run_induction (G := fun _ _ => True) (I := fun acts s => s.log p = log p ++ sentTo env p (sends acts))
    ?_ (fun bs t a t' hI _ hstep => ?_) (Machine.meets_true _ acts) h
  · exact (List.append_nil _).symm
  · have hs := step_sound hstep
    rw [sends, List.filterMap_append, sentTo, List.filter_append, List.map_append, ← List.append_assoc]
    change t'.log p = (log p ++ sentTo env p (sends bs)) ++ sentTo env p (sends [a])
    rw [← hI]
    cases hs with
    | @send r ht =>
      by_cases hp : env.partitioner r.key = p
      · simp [sends, sentTo, Act.sent?, ht, hp]
      · simp [sends, sentTo, Act.sent?, ht, hp, Function.update_of_ne (Ne.symm hp)]
    | @sendElsewhere r ht => simp [sends, sentTo, Act.sent?, ht]
    | _ => exact (List.append_nil _).symm

/-- A log holds the events loaded into it. -/
theorem loaded_run {events : List Event} {acts : List (Act P)} {s : State P σ}
    (hsends : sends acts = events.map (Loader.loadEvent env.libs))
    (h : Machine.run (step env) (State.init env fun _ => []) acts = some s) (p : P) :
    s.log p = (stream (partitionOf env) p events).map (JsonCodex.eventToJson env.libs) := by
  rw [log_run h p, hsends, List.nil_append, sentTo, List.filter_map, List.map_map, stream]
  congr 1
  refine List.filter_congr fun e _ => decide_eq_decide.2 ?_
  simp [Loader.loadEvent, Loader.topic, topic, partitionOf]

omit [DecidableEq P] in
/-- What was handed out as an event is one of the log. -/
theorem Issued.eventAt {s : State P σ} (h : Issued env s) {m : Started P} (hm : m ∈ s.jvm.started) {e : Event}
    (he : m.event = some e) : EventAt env s.log m.offset e := by
  have hmessage := h.messages m hm
  rw [he] at hmessage
  exact hmessage

/-- A span in which one event is drawn. -/
def oneEvent : List (TimeStamp × TimeStamp) := [(instant 1483304400000, instant 1483304401000)]

/-- A send of the second partner, and the receipt for it. -/
def transfer : List Event := emittedAll (generateAll scripted chronologyUTC listQueue oneEvent (Vars.start [1]))

def laxSend : Event where
  eventId := ⟨"1"⟩
  partner := ⟨"LAX"⟩
  timestamp := instant 1483304400000
  action := .send
  size := 1024
  seconds := 3
  ackState := some .ackPending
  receiptFor := none

def laxReceipt : Event where
  eventId := ⟨"r1"⟩
  partner := ⟨"LAX"⟩
  timestamp := instant 1483304405000
  action := .receive
  size := 100
  seconds := 10
  ackState := some .ackReceived
  receiptFor := some ⟨"1"⟩

theorem transfer_eq : transfer = [laxSend, laxReceipt] := by decide +kernel

/-- Both are loaded, then handled. -/
def transferActs : List (Act Unit) :=
  (transfer.map fun e => .send (Loader.loadEvent textLibs e)) ++ (handle () ++ handle ())

theorem run_transfer : ∃ s, Machine.run (step textEnv) (State.init textEnv fun _ => []) transferActs = some s ∧
    s.succeeded = [((), 0), ((), 1)] ∧ s.log () = transfer.map (JsonCodex.eventToJson textLibs) := by
  generalize hlog : (fun p => (stream (partitionOf textEnv) p transfer).map (JsonCodex.eventToJson textEnv.libs)) = log
  have hevents : log () = [JsonCodex.eventToJson textEnv.libs laxSend, JsonCodex.eventToJson textEnv.libs laxReceipt] := by
    rw [← hlog, transfer_eq]
    rfl
  have hload : Machine.run (step textEnv) (State.init textEnv fun _ => [])
      (transfer.map fun e => .send (Loader.loadEvent textLibs e)) = some (State.init textEnv log) :=
    hlog ▸ run_loads transfer
  have hfirst : Machine.run (step textEnv) (State.init textEnv log) (handle ()) =
      some ((State.init textEnv log).handled textEnv () laxSend (batchOf ((), 0))) :=
    run_handle textLibs_documented rfl rfl rfl (congrArg (fun l => l[0]?) hevents) rfl
  have hsecond : Machine.run (step textEnv) ((State.init textEnv log).handled textEnv () laxSend (batchOf ((), 0)))
      (handle ()) = some _ :=
    run_handle (e := laxReceipt) textLibs_documented rfl rfl rfl (congrArg (fun l => l[1]?) hevents) rfl
  refine ⟨_, Machine.run_append.2 ⟨_, hload, Machine.run_append.2 ⟨_, hfirst, hsecond⟩⟩, rfl, ?_⟩
  rw [transfer_eq]
  exact hevents

theorem sends_transfer : sends transferActs = transfer.map (Loader.loadEvent textEnv.libs) := by
  rw [transferActs, transfer_eq]
  rfl

/-- **First in, first done.** In every state reached, through any failures,
crashes and restarts: each success, a repeated one too, came after one of
every message before it in its partition, and the process was handed each of
its messages, one that it threw on too, only after that. -/
theorem succeeds_in_order (env : Env P σ) {log : P → List String} {acts : List (Act P)} {s : State P σ}
    (h : Machine.run (step env) (State.init env log) acts = some s) :
    (∀ before o after, s.succeeded = before ++ o :: after → ∀ n < o.2, (o.1, n) ∈ before) ∧
      ∀ o ∈ s.jvm.handed, ∀ n < o.2, (o.1, n) ∈ s.succeeded := by
  have hsequential := sequential_run h
  exact ⟨hsequential.succeeded, hsequential.handed⟩

theorem succeeds_in_order_transfer : ∃ s,
    Machine.run (step textEnv) (State.init textEnv fun _ => []) transferActs = some s ∧
      ∀ n < 1, ((), n) ∈ [((), 0)] := by
  obtain ⟨s, hrun, hsucceeded, -⟩ := run_transfer
  exact ⟨s, hrun, (succeeds_in_order textEnv hrun).1 [((), 0)] ((), 1) [] hsucceeded⟩

/-- **In time order.** What a run of the generator emits is loaded, as far as
it gets. Then in every state reached, through any failures, crashes and
restarts, the inserts a process has issued are those of events, one after
another under the draws from the seed, and the events of a partner are in the
order of their time stamps. -/
theorem handed_in_time_order {ρ : Type} (env : Env P σ) (hL : env.libs.Documented) (R : RandomSource ρ) (C : Chronology)
    (queue : EventQueue) (start «end» : TimeStamp) (vars : Vars ρ) {events : List Event}
    (hfeed : events <+: (generateEvents R C queue start «end» vars).1.emitted) {acts : List (Act P)} {s : State P σ}
    (hsends : sends acts = events.map (Loader.loadEvent env.libs))
    (h : Machine.run (step env) (State.init env fun _ => []) acts = some s) :
    s.jvm.started.map Started.event = s.jvm.startedEvents.map some ∧
      s.jvm.started.map Started.insert =
        (drawAll env.random s.jvm.startedEvents env.seed).map (fun x => insertOf env.db x.1 x.2) ∧
      ∀ partner, Timeline.InOrder time (stream Event.partner partner s.jvm.startedEvents) := by
  have hlog := loaded_run hsends h
  have hissued := issued_run h
  have hall : s.AllEvents env := allEvents_of_loaded hL hlog
  refine ⟨hissued.events hall, hissued.inserts_eq hall, fun partner => ?_⟩
  have hsorted : ∀ p, (stream (partitionOf env) p events).Pairwise fun e e' => time e ≤ time e' := by
    intro p
    exact ((generateEvents_inOrder start «end» vars).sublist hfeed.sublist).filter _
  have hascending : s.jvm.started.Pairwise fun x y => x.offset.1 = y.offset.1 → x.offset.2 < y.offset.2 :=
    List.pairwise_map.1 (sequential_run h).ascending
  refine List.pairwise_filter.2 (List.pairwise_filterMap.2 (hascending.imp_of_mem fun {x y} hx hy hxy => ?_))
  intro r hr r' hr' hpartner hpartner'
  obtain ⟨e, he, rfl⟩ := (eventAt_loaded hL (hlog x.offset.1)).1 (hissued.eventAt hx hr)
  obtain ⟨e', he', rfl⟩ := (eventAt_loaded hL (hlog y.offset.1)).1 (hissued.eventAt hy hr')
  have hkey : partitionOf env e = x.offset.1 := key_of_mem_stream (List.mem_of_getElem? he)
  have hkey' : partitionOf env e' = y.offset.1 := key_of_mem_stream (List.mem_of_getElem? he')
  have hsame : x.offset.1 = y.offset.1 := by
    rw [← hkey, ← hkey', partitionOf, partitionOf]
    congr 2
    exact (of_decide_eq_true hpartner).trans (of_decide_eq_true hpartner').symm
  rw [← hsame] at he'
  obtain ⟨hlt, rfl⟩ := List.getElem?_eq_some_iff.1 he
  obtain ⟨hlt', rfl⟩ := List.getElem?_eq_some_iff.1 he'
  exact List.pairwise_iff_getElem.1 (hsorted x.offset.1) _ _ hlt hlt' (hxy hsame)

/-- The inserts of a transfer and its receipt, in time order. -/
theorem handed_in_time_order_transfer : ∃ s,
    Machine.run (step textEnv) (State.init textEnv fun _ => []) transferActs = some s ∧
      s.jvm.started.map Started.insert =
        (drawAll javaRandom s.jvm.startedEvents textEnv.seed).map (fun x => insertOf ⟨.ok ()⟩ x.1 x.2) ∧
      Timeline.InOrder time (stream Event.partner ⟨"LAX"⟩ s.jvm.startedEvents) := by
  obtain ⟨s, hrun, -, -⟩ := run_transfer
  have hfeed : transfer = (generateEvents scripted chronologyUTC listQueue (instant 1483304400000)
      (instant 1483304401000) (Vars.start [1])).1.emitted := List.append_nil _
  obtain ⟨-, hinserts, hinorder⟩ := handed_in_time_order textEnv textLibs_documented scripted chronologyUTC listQueue
    (instant 1483304400000) (instant 1483304401000) (Vars.start [1]) (by rw [← hfeed]) sends_transfer hrun
  exact ⟨s, hrun, hinserts, hinorder ⟨"LAX"⟩⟩

end Graph

end TransferDashboard
