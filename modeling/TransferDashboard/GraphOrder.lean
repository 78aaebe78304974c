/-
From the loader through the topic to the inserts: nothing lost, nothing
twice, and each partner's events in order.

The loader's key is the partner, so a partner's events share a partition.
`Ordered` ties each partition's log to the events loaded into it, and what
was started to a prefix of each; `Ordered.step` keeps it. While a message is
left the stream can go on without failing (`can_go_on`), so what cannot go
on has started everything (`per_partner_order`).
-/
import TransferDashboard.GraphInserts
import TransferDashboard.Lib.Streams

namespace TransferDashboard

open Scala Joda Json Random Stage EventPoint KeyedStream

namespace Graph

variable {P σ : Type} [DecidableEq P] {env : Env P σ}

/-- The partition an event is loaded into. -/
def partitionOf (env : Env P σ) (e : Event) : P := env.partitioner e.partner.toString

/-- The log holds the loaded events, and of each partition a prefix was
started, as far as the consumer has moved. -/
structure Ordered (env : Env P σ) (events : List Event) (s : State P σ) : Prop where
  log : ∀ p, s.log p = (stream (partitionOf env) p events).map (JsonCodex.eventToJson env.libs)
  started : InOrder (partitionOf env) s.jvm.startedEvents (events.map fun e => e.inZone env.zone)
  position : ∀ p, s.jvm.position p = (stream (partitionOf env) p s.jvm.startedEvents).length

theorem ordered_init : Ordered env [] (State.init env fun _ => []) where
  log _ := rfl
  started := .nil _
  position _ := rfl

/-- The message at a position is the event loaded there. -/
theorem Ordered.next {events : List Event} {s : State P σ} (h : Ordered env events s) {p : P} {payload : String}
    (hlog : (s.log p)[s.jvm.position p]? = some payload) :
    ∃ e, payload = JsonCodex.eventToJson env.libs e ∧
      (stream (partitionOf env) p (events.map fun e => e.inZone env.zone))[(stream (partitionOf env) p
        s.jvm.startedEvents).length]? = some (e.inZone env.zone) := by
  rw [h.log, h.position, List.getElem?_map] at hlog
  obtain ⟨e, he, rfl⟩ := Option.map_eq_some_iff.1 hlog
  refine ⟨e, rfl, ?_⟩
  have hkeys : ∀ e : Event, partitionOf env (e.inZone env.zone) = partitionOf env e := fun _ => rfl
  rw [stream_map _ hkeys, List.getElem?_map, he]
  rfl

omit [DecidableEq P] in
theorem startedEvents_of_started {j j' : Jvm P σ} {o : Offset P} {e : Event} {insert : Future WriteRequest Unit}
    (h : j'.started = j.started ++ [⟨o, some e, insert⟩]) : j'.startedEvents = j.startedEvents ++ [e] :=
  startedEvents_concat h

/-- A log of loaded events, and one more. -/
theorem load_stream (events : List Event) (e : Event) :
    Function.update (fun p => (stream (partitionOf env) p events).map (JsonCodex.eventToJson env.libs)) (partitionOf env e)
        ((stream (partitionOf env) (partitionOf env e) events).map (JsonCodex.eventToJson env.libs) ++
          [JsonCodex.eventToJson env.libs e]) =
      fun p => (stream (partitionOf env) p (events ++ [e])).map (JsonCodex.eventToJson env.libs) := by
  funext p
  rw [stream_append, List.map_append]
  by_cases hp : partitionOf env e = p
  · subst hp
    rw [stream_self]
    exact Function.update_self ..
  · rw [stream_other hp, List.map_nil, List.append_nil]
    exact Function.update_of_ne (Ne.symm hp) ..

/-- An event is loaded. -/
theorem Ordered.load {events : List Event} {s : State P σ} (h : Ordered env events s) (e : Event)
    {s' : State P σ} (hs : Step env s (.send (Loader.loadEvent env.libs e)) s') : Ordered env (events ++ [e]) s' := by
  cases hs with
  | sendElsewhere ht => exact absurd rfl ht
  | send ht =>
    refine { log := ?_, started := ?_, position := h.position }
    · rw [show s.log = _ from funext h.log]
      exact congrFun (load_stream events e)
    · rw [List.map_append]
      exact h.started.send _

theorem Ordered.step (hL : env.libs.Documented) {events : List Event} {s s' : State P σ} {a : Act P}
    (h : Ordered env events s) (ha : a ≠ .crash) (hsend : a.sent? = none) (hs : Step env s a s') :
    Ordered env events s' := by
  cases hs with
  | send | sendElsewhere => cases hsend
  | crash => exact absurd rfl ha
  | @deliver p payload insert random process hf hidle hlog hmsg hslots =>
    obtain ⟨e, rfl, hnext⟩ := h.next hlog
    have hkey : partitionOf env (e.inZone env.zone) = p := key_of_mem_stream (List.mem_of_getElem? hnext)
    rw [eventOf_eventToJson hL]
    refine { log := h.log, started := ?_, position := ?_ }
    · rw [startedEvents_of_started rfl]
      exact h.started.receive hnext
    · intro q
      rw [startedEvents_of_started rfl, stream_append, List.length_append]
      simp only
      by_cases hq : q = p
      · subst hq
        rw [Function.update_self, h.position, show stream (partitionOf env) q [e.inZone env.zone] = [e.inZone env.zone] by
          rw [← hkey]; exact stream_self _]
        rfl
      · rw [Function.update_of_ne hq, h.position, stream_other (by rw [hkey]; exact Ne.symm hq)]
        rfl
  | _ => exact { h with }

/-- What holds after every run that loads some events and does not crash. -/
theorem ordered_run (hL : env.libs.Documented) {events : List Event} {acts : List (Act P)} {s : State P σ}
    (hsends : sends acts = events.map (Loader.loadEvent env.libs)) (hcrash : ∀ a ∈ acts, a ≠ .crash)
    (hrun : Machine.run (step env) (State.init env fun _ => []) acts = some s) : Ordered env events s := by
  refine Machine.run_induction (G := fun _ a => a ≠ .crash)
    (I := fun acts s => ∀ events : List Event, sends acts = events.map (Loader.loadEvent env.libs) → Ordered env events s)
    ?_ ?_ (Machine.meets_of_forall fun a ha _ => hcrash a ha) hrun events hsends
  · intro events hnil
    rw [List.map_eq_nil_iff.1 hnil.symm]
    exact ordered_init
  · intro bs t a t' ih ha hstep events hsends
    have hs := step_sound hstep
    rw [sends, List.filterMap_append] at hsends
    cases hsent : a.sent? with
    | none =>
      rw [List.filterMap_cons_none hsent, List.filterMap_nil, List.append_nil] at hsends
      exact (ih events hsends).step hL ha hsent hs
    | some r =>
      rw [List.filterMap_cons_some hsent, List.filterMap_nil] at hsends
      obtain ⟨before, last, rfl, hbefore, hlast⟩ := List.map_eq_append_iff.1 hsends.symm
      obtain ⟨e, rfl, rfl⟩ := List.map_eq_singleton_iff.1 hlast
      cases a with
      | send r =>
        cases hsent
        exact (ih before hbefore.symm).load e hs
      | _ => cases hsent

/-! ## Going on -/

/-- The stream can do something more without failing. -/
def CanGoOn (env : Env P σ) (s : State P σ) : Prop :=
  ∃ a s', a ≠ .crash ∧ a.sent? = none ∧ step env s a = some s' ∧ s'.jvm.failed = false

/-- With nothing on its way and no message left, it cannot. -/
theorem State.Idle.not_canGoOn {s : State P σ} (h : s.Idle) : ¬ CanGoOn env s := by
  rintro ⟨a, s', hcrash, hsend, hstep, -⟩
  rcases h.step (step_sound hstep) with hlost | hsent
  · exact hcrash hlost
  · exact hsent hsend

/-- It can, and of the commits it is the oldest that takes effect. -/
def GoesOn (env : Env P σ) (s : State P σ) : Prop :=
  ∃ a s', a ≠ .crash ∧ a.sent? = none ∧ (∀ i, a = .applyCommit i → i = 0) ∧ step env s a = some s' ∧
    s'.jvm.failed = false

theorem GoesOn.canGoOn {s : State P σ} (h : GoesOn env s) : CanGoOn env s := by
  obtain ⟨a, s', hcrash, hsend, -, hstep, hf⟩ := h
  exact ⟨a, s', hcrash, hsend, hstep, hf⟩

/-- An outstanding commit can take effect, be answered, or be passed on. -/
theorem commits_go_on {s : State P σ} (hf : s.jvm.failed = false) {slot : Slot (Commit P)}
    {rest : List (Slot (Commit P))} (hslots : s.jvm.commits.slots = slot :: rest) : GoesOn env s := by
  cases slot with
  | completed c =>
    obtain ⟨commits, hemit⟩ := MapAsync.emit?_of_completed hslots
    refine ⟨.sink, { s with jvm := { s.jvm with commits } }, by simp, rfl, by simp, ?_, hf⟩
    simp [step, hf, hemit]
  | running c =>
    have hrun : s.jvm.commits.running? 0 = some c := by
      rw [MapAsync.running?_eq_some, hslots]
      rfl
    by_cases hc : c.applied = true
    · refine ⟨.completeCommit 0 true, { s with jvm := { s.jvm with commits := s.jvm.commits.set 0 (.completed c) } },
        by simp, rfl, by simp, ?_, hf⟩
      simp [step, hrun, hf, hc]
    · refine ⟨.applyCommit 0, { s with
        committed := (CommittableOffsetBatch.of c.offsets).commit s.committed
        jvm := { s.jvm with commits := s.jvm.commits.set 0 (.running { c with applied := true }) } }, by simp, rfl,
        by simp, ?_, hf⟩
      simp [step, hrun, hc]

/-- What was gathered is passed on, or a commit that is in its way goes on. -/
theorem batch_goes_on {s : State P σ} (hf : s.jvm.failed = false) {offsets : List (Offset P)}
    {batch : Batch 20 (Offset P)} (hflush : s.jvm.batch.flush? = some (offsets, batch)) : GoesOn env s := by
  cases hcommits : s.jvm.commits.slots with
  | nil =>
    obtain ⟨commits, hpush⟩ := MapAsync.push?_of_lt (m := s.jvm.commits) (by rw [hcommits]; exact Nat.zero_lt_succ 2) ⟨offsets, false⟩
    refine ⟨.flush, { s with jvm := { s.jvm with batch, commits } }, by simp, rfl, by simp, ?_, hf⟩
    simp [step, hf, hflush, hpush]
  | cons slot rest => exact commits_go_on hf hcommits

/-- A processed message can be put into the batch, or the batch is full and goes on. -/
theorem completed_goes_on {s : State P σ} (hf : s.jvm.failed = false) {d : Delivery P} {rest : List (Slot (Delivery P))}
    (hslots : s.jvm.process.slots = .completed d :: rest) : GoesOn env s := by
  by_cases hpending : s.jvm.batch.pending = none
  · obtain ⟨process, hemit⟩ := MapAsync.emit?_of_completed hslots
    obtain ⟨batch, hpush⟩ := Batch.push?_of_no_pending hpending d.offset
    refine ⟨.aggregate, { s with jvm := { s.jvm with process, batch } }, by simp, rfl, by simp, ?_, hf⟩
    simp [step, hf, hemit, hpush]
  · obtain ⟨offsets, batch, hflush⟩ := Batch.flush?_of_pending hpending
    exact batch_goes_on hf hflush

/-- A message being processed, an event's, is stored, answered or passed on. -/
theorem process_goes_on (hdb : env.db.dbFuture = .ok ()) {s : State P σ} (hf : s.jvm.failed = false)
    {slot : Slot (Delivery P)} {rest : List (Slot (Delivery P))} (hslots : s.jvm.process.slots = slot :: rest)
    (hinsert : ∃ e ds, slot.elem.insert = insertOf env.db e ds) : GoesOn env s := by
  cases slot with
  | completed d => exact completed_goes_on hf hslots
  | running d =>
    have hrun : s.jvm.process.running? 0 = some d := by
      rw [MapAsync.running?_eq_some, hslots]
      rfl
    by_cases hstored : d.stored = true
    · obtain ⟨e, ds, hinsert⟩ := hinsert
      have hinsert : d.insert = insertOf env.db e ds := hinsert
      have hans : d.mayAnswer [.ok true] = true := by
        rw [Delivery.mayAnswer, hinsert, insertOf_requests hdb, hstored]
        rfl
      have hok : d.insert.outcome [.ok true] = .ok () := by
        rw [hinsert]
        exact insertOf_outcome hdb e ds true
      refine ⟨.complete 0 [.ok true], { s with
        jvm := { s.jvm with process := s.jvm.process.set 0 (.completed d) }
        succeeded := s.succeeded ++ [d.offset] }, by simp, rfl, by simp, ?_, hf⟩
      simp [Graph.step, hrun, hf, hans, hok]
    · refine ⟨.store 0, { s with
        rows := s.rows.store d.insert.requests
        jvm := { s.jvm with process := s.jvm.process.set 0 (.running { d with stored := true }) } }, by simp, rfl,
        by simp, ?_, hf⟩
      simp [Graph.step, hrun, hstored]

/-- A message that is an event can be handed to an idle `mapAsync(1)`. -/
theorem deliver_goes_on {s : State P σ} (hf : s.jvm.failed = false) (hidle : s.jvm.process.slots = []) {p : P}
    {payload : String} (hlog : (s.log p)[s.jvm.position p]? = some payload) {e : Event}
    (hdec : JsonCodex.jsonToEvent env.libs env.zone payload = .ok (some e)) : GoesOn env s := by
  obtain ⟨process, hpush⟩ := MapAsync.push?_of_lt (m := s.jvm.process) (by rw [hidle]; exact Nat.zero_lt_one)
    ⟨(p, s.jvm.position p), insertOf env.db e (draws env.random s.jvm.random), false⟩
  refine ⟨.deliver p, { s with jvm := { s.jvm with
    position := Function.update s.jvm.position p (s.jvm.position p + 1)
    random := afterDraws env.random s.jvm.random
    process
    started := s.jvm.started ++ [⟨(p, s.jvm.position p), eventOf env payload,
      insertOf env.db e (draws env.random s.jvm.random)⟩] } },
    by simp, rfl, by simp, ?_, hf⟩
  simp [Graph.step, hf, hidle, hlog, processMessage_of_some hdec, hpush]

/-- **No dead end.** While a message is left in some partition, a stream that
has not failed can go on. -/
theorem Ordered.can_go_on (hL : env.libs.Documented) (hdb : env.db.dbFuture = .ok ()) {events : List Event}
    {s : State P σ} (h : Ordered env events s) (hissued : Issued env s) (hf : s.jvm.failed = false) {p : P}
    (hleft : s.jvm.position p < (s.log p).length) : CanGoOn env s := by
  cases hslots : s.jvm.process.slots with
  | cons slot rest =>
    exact (process_goes_on hdb hf hslots
      (hissued.insert_eq (allEvents_of_loaded hL h.log) (by rw [hslots]; exact List.mem_cons_self))).canGoOn
  | nil =>
    have hlog := List.getElem?_eq_getElem hleft
    obtain ⟨e, hpayload, -⟩ := h.next hlog
    exact (deliver_goes_on hf hslots hlog (by rw [hpayload, JsonCodex.jsonToEvent_eventToJson hL])).canGoOn

/-- What was started is in order for each partner: the partner decides the partition. -/
theorem Ordered.per_partner {events : List Event} {s : State P σ} (h : Ordered env events s) :
    InOrder Event.partner s.jvm.startedEvents (events.map fun e => e.inZone env.zone) :=
  h.started.of_finer (g := fun partner => env.partitioner partner.toString) fun _ => rfl

/-- Once no partition has a message left, every loaded event was started, once. -/
theorem Ordered.perm_of_caught_up {events : List Event} {s : State P σ} (h : Ordered env events s)
    (hall : ∀ p, (s.log p).length ≤ s.jvm.position p) :
    s.jvm.startedEvents.Perm (events.map fun e => e.inZone env.zone) := by
  have hkeys : ∀ e : Event, partitionOf env (e.inZone env.zone) = partitionOf env e := fun _ => rfl
  refine h.started.perm fun p => ?_
  rw [stream_map _ hkeys, List.length_map, ← h.position]
  calc (stream (partitionOf env) p events).length = (s.log p).length := by rw [h.log, List.length_map]
    _ ≤ s.jvm.position p := hall p

/-- **In order, once each, one at a time.** Take any run in which some events
are loaded, over any partitions and any choice of them by key, without a
crash or a failure so far. At most one insert is in flight, and it is one of
those issued; each of these is the insert of an event, under the next draws.
The events inserted are, for each partner, a prefix of what was loaded for
it, in that order; once the consumer has caught up they are everything, each
event once. And with the database there, it stops at nothing less. -/
theorem per_partner_order (env : Env P σ) (hL : env.libs.Documented) {events : List Event} {acts : List (Act P)}
    {s : State P σ} (hsends : sends acts = events.map (Loader.loadEvent env.libs)) (hcrash : ∀ a ∈ acts, a ≠ .crash)
    (hrun : Machine.run (step env) (State.init env fun _ => []) acts = some s) (hok : s.jvm.failed = false) :
    s.jvm.process.inFlight.length ≤ 1 ∧
      (∀ d ∈ s.jvm.process.inFlight, ∃ m ∈ s.jvm.started, m.offset = d.offset ∧ m.insert = d.insert) ∧
      s.jvm.started.map Started.event = s.jvm.startedEvents.map some ∧
      s.jvm.started.map Started.insert =
        (drawAll env.random s.jvm.startedEvents env.seed).map (fun x => insertOf env.db x.1 x.2) ∧
      InOrder Event.partner s.jvm.startedEvents (events.map fun e => e.inZone env.zone) ∧
      s.jvm.startedEvents.Subperm (events.map fun e => e.inZone env.zone) ∧
      ((∀ p, (s.log p).length ≤ s.jvm.position p) →
        s.jvm.startedEvents.Perm (events.map fun e => e.inZone env.zone)) ∧
      (env.db.dbFuture = .ok () → ¬ CanGoOn env s →
        s.jvm.startedEvents.Perm (events.map fun e => e.inZone env.zone)) := by
  have h := ordered_run hL hsends hcrash hrun
  have hissued := issued_run hrun
  have hall : s.AllEvents env := allEvents_of_loaded hL h.log
  refine ⟨s.jvm.process.inFlight_length_le, fun d hd => ?_, hissued.events hall, hissued.inserts_eq hall,
    h.per_partner, h.started.subperm, h.perm_of_caught_up, ?_⟩
  · exact hissued.slots (.running d) (MapAsync.mem_inFlight.1 hd)
  · intro hdb hstuck
    refine h.perm_of_caught_up fun p => ?_
    by_contra hlt
    exact hstuck (h.can_go_on hL hdb hissued hok (Nat.lt_of_not_le hlt))

/-! ## Two partners, two partitions -/

/-- Events loaded one after another, of which nothing has been handed out yet. -/
theorem run_loads (events : List Event) : Machine.run (step env) (State.init env fun _ => [])
    (events.map fun e => .send (Loader.loadEvent env.libs e)) =
      some (State.init env fun p => (stream (partitionOf env) p events).map (JsonCodex.eventToJson env.libs)) := by
  induction events using List.reverseRecOn with
  | nil => rfl
  | append_singleton events e ih =>
    rw [List.map_append, ← load_stream]
    exact Machine.run_append.2 ⟨_, ih, rfl⟩

/-- Two events of one partner, with one of another partner between them. -/
def threeEvents : List Event := [JsonCodexSpec.event, otherEvent, secondEvent]

/-- They are loaded, and the other partner's is handled between the two. -/
def threeActs : List (Act Bool) :=
  (threeEvents.map fun e => .send (Loader.loadEvent textLibs e)) ++ (handle false ++ (handle true ++ handle false))

theorem run_three : ∃ s, Machine.run (step pairEnv) (State.init pairEnv fun _ => []) threeActs = some s ∧
    s.jvm.failed = false ∧ (∀ p, (s.log p).length ≤ s.jvm.position p) ∧ s.jvm.process = .empty ∧
      s.jvm.startedEvents = threeEvents.map fun e => e.inZone utc := by
  have hL : pairEnv.libs.Documented := textLibs_documented
  have hfirst : partitionOf pairEnv JsonCodexSpec.event = false := by decide +kernel
  have hother : partitionOf pairEnv otherEvent = true := by decide +kernel
  have hsecond : partitionOf pairEnv secondEvent = false := by decide +kernel
  generalize hlog : (fun p => (stream (partitionOf pairEnv) p threeEvents).map (JsonCodex.eventToJson pairEnv.libs)) = log
  have hfalse : log false = [JsonCodex.eventToJson pairEnv.libs JsonCodexSpec.event,
      JsonCodex.eventToJson pairEnv.libs secondEvent] := by
    simp [← hlog, threeEvents, stream, hfirst, hother, hsecond]
  have htrue : log true = [JsonCodex.eventToJson pairEnv.libs otherEvent] := by
    simp [← hlog, threeEvents, stream, hfirst, hother, hsecond]
  have hload : Machine.run (step pairEnv) (State.init pairEnv fun _ => [])
      (threeEvents.map fun e => .send (Loader.loadEvent textLibs e)) = some (State.init pairEnv log) :=
    hlog ▸ run_loads threeEvents
  have hrun : Machine.run (step pairEnv) (State.init pairEnv fun _ => []) threeActs = some _ :=
    Machine.run_append.2 ⟨_, hload, Machine.run_append.2
      ⟨_, run_handle hL rfl rfl rfl (congrArg (fun l => l[0]?) hfalse) rfl, Machine.run_append.2
        ⟨_, run_handle hL rfl rfl rfl (congrArg (fun l => l[0]?) htrue) rfl,
          run_handle hL rfl rfl rfl (congrArg (fun l => l[1]?) hfalse) rfl⟩⟩⟩
  refine ⟨_, hrun, rfl, fun p => ?_, rfl, rfl⟩
  cases p with
  | false => exact (congrArg List.length hfalse).le
  | true => exact (congrArg List.length htrue).le

/-- All three were inserted, each under draws of its own, and those of a partner in order. -/
theorem per_partner_order_three : textLibs.Documented ∧ ∃ s,
    Machine.run (step pairEnv) (State.init pairEnv fun _ => []) threeActs = some s ∧
      s.jvm.started.map Started.insert =
        (drawAll javaRandom s.jvm.startedEvents pairEnv.seed).map (fun x => insertOf ⟨.ok ()⟩ x.1 x.2) ∧
      InOrder Event.partner s.jvm.startedEvents (threeEvents.map fun e => e.inZone utc) ∧
      s.jvm.startedEvents.Perm (threeEvents.map fun e => e.inZone utc) := by
  obtain ⟨s, hrun, hok, hall, -⟩ := run_three
  have hsends : sends threeActs = threeEvents.map (Loader.loadEvent pairEnv.libs) := rfl
  obtain ⟨-, -, -, hinserts, hinorder, -, hperm, -⟩ :=
    per_partner_order pairEnv textLibs_documented hsends (by simp [threeActs, threeEvents, handle]) hrun hok
  exact ⟨textLibs_documented, s, hrun, hinserts, hinorder, hperm hall⟩

end Graph

end TransferDashboard
