/-
The inserts a process issues.

There is one for each message it hands to `processMessage`, in that order: of
an event under the next two draws, and of anything else one that has failed
and drew nothing (`insertsOf`). `Issued` says so of a state, and of what is in
`mapAsync(1)` that it is among them; `Issued.step` that every action keeps it.
A fresh process begins at the seed, so what it issues depends on nothing but
the messages it is handed, whatever failed or crashed before
(`Issued.inserts_prefix`).
-/
import TransferDashboard.EventKeys
import TransferDashboard.GraphRuns
import TransferDashboard.GraphSteps

namespace TransferDashboard

open Scala Joda Json Random Stage EventPoint

namespace Graph

variable {P σ : Type} {env : Env P σ}

/-- The events handed to `processMessage`, in order. -/
def Jvm.startedEvents (jvm : Jvm P σ) : List Event := jvm.started.filterMap Started.event

/-- The offsets started, oldest first. -/
def Jvm.startedOffsets (jvm : Jvm P σ) : List (Offset P) := jvm.started.map Started.offset

/-- The offsets handed to `processMessage`: those started, and the one it threw on. -/
def Jvm.handed (jvm : Jvm P σ) : List (Offset P) := jvm.startedOffsets ++ jvm.threw.toList

theorem Jvm.mem_handed {jvm : Jvm P σ} {o : Offset P} :
    o ∈ jvm.handed ↔ o ∈ jvm.startedOffsets ∨ jvm.threw = some o := by
  simp [Jvm.handed]

/-- The source after so many events of a process. -/
def sourceAt (env : Env P σ) (n : Nat) : σ := (afterDraws env.random)^[n] env.seed

/-- The message at an offset, read. -/
def MessageAt (env : Env P σ) (log : P → List String) (o : Offset P) (event : Option Event) : Prop :=
  ∃ payload, (log o.1)[o.2]? = some payload ∧ JsonCodex.jsonToEvent env.libs env.zone payload = .ok event

/-! ## One after another -/

/-- The inserts of messages, each read, an event or not. -/
def insertsOf (env : Env P σ) : List (Option Event) → σ → List (Future WriteRequest Unit)
  | [], _ => []
  | some e :: events, random =>
    insertOf env.db e (draws env.random random) :: insertsOf env events (afterDraws env.random random)
  | none :: events, random => .failed cannotConvert :: insertsOf env events random

theorem insertsOf_append (events more : List (Option Event)) (random : σ) :
    insertsOf env (events ++ more) random =
      insertsOf env events random ++ insertsOf env more ((afterDraws env.random)^[events.reduceOption.length] random) := by
  induction events generalizing random with
  | nil => rfl
  | cons e events ih => cases e <;> simp [insertsOf, ih]

/-- The inserts of events are those of the events under their draws. -/
theorem insertsOf_some (events : List Event) (random : σ) :
    insertsOf env (events.map some) random = (drawAll env.random events random).map fun x => insertOf env.db x.1 x.2 := by
  induction events generalizing random with
  | nil => rfl
  | cons e events ih => simp [insertsOf, drawAll, ih]

/-- What a message comes to: its insert, and the source after it. -/
theorem processMessage_of_ok {payload : String} {insert : Future WriteRequest Unit} {random random' : σ}
    (h : processMessage env payload random = (.ok insert, random')) :
    JsonCodex.jsonToEvent env.libs env.zone payload = .ok (eventOf env payload) ∧
      insertsOf env [eventOf env payload] random = [insert] ∧
      random' = (afterDraws env.random)^[[eventOf env payload].reduceOption.length] random := by
  rcases processMessage_cases h with ⟨_, -, heq, -⟩ | ⟨hdec, heq, hsame⟩ | ⟨e, hdec, heq, hdrawn⟩
  · cases heq
  · rw [eventOf, hdec, Except.ok.inj heq]
    exact ⟨rfl, rfl, hsame⟩
  · rw [eventOf, hdec, Except.ok.inj heq]
    exact ⟨rfl, rfl, hdrawn⟩

/-- An insert that ends in success was stored. -/
theorem stored_of_ok {d : Delivery P} {payload : String} {random random' : σ} {answers : List (Try Bool)}
    (hmsg : processMessage env payload random = (.ok d.insert, random')) (hans : d.mayAnswer answers = true)
    (hfalse : .ok false ∈ answers → d.stored = true) (hok : d.insert.outcome answers = .ok ()) : d.stored = true :=
  stored_of_answered hans hfalse (answered_of_ok hmsg (length_of_mayAnswer hans) hok)

/-! ## In every state -/

/-- The messages handed out were those of the log, their inserts are the ones
issued, and what is in `mapAsync(1)` is one of these. -/
structure Issued (env : Env P σ) (s : State P σ) : Prop where
  random : s.jvm.random = sourceAt env s.jvm.startedEvents.length
  messages : ∀ m ∈ s.jvm.started, MessageAt env s.log m.offset m.event
  inserts : s.jvm.started.map Started.insert = insertsOf env (s.jvm.started.map Started.event) env.seed
  slots : ∀ slot ∈ s.jvm.process.slots, ∃ m ∈ s.jvm.started, m.offset = slot.elem.offset ∧ m.insert = slot.elem.insert

theorem issued_start {s : State P σ} {committed : P → Option Nat} (h : s.jvm = .start env committed) : Issued env s := by
  have hstarted : s.jvm.started = [] := by rw [h]; rfl
  refine ⟨by rw [h]; rfl, fun m hm => ?_, by rw [hstarted]; rfl, fun slot hslot => ?_⟩
  · rw [hstarted] at hm
    cases hm
  · rw [h] at hslot
    cases hslot

theorem reduceOption_events (jvm : Jvm P σ) : (jvm.started.map Started.event).reduceOption = jvm.startedEvents :=
  List.filterMap_map ..

theorem startedEvents_concat {j j' : Jvm P σ} {m : Started P} (h : j'.started = j.started ++ [m]) :
    j'.startedEvents = j.startedEvents ++ [m.event].reduceOption := by
  rw [Jvm.startedEvents, h, List.filterMap_append]
  rfl

theorem startedOffsets_of_started {j j' : Jvm P σ} {m : Started P} (h : j'.started = j.started ++ [m]) :
    j'.startedOffsets = j.startedOffsets ++ [m.offset] := by
  rw [Jvm.startedOffsets, h, List.map_append]
  rfl

/-- What is done with an insert in `mapAsync(1)` leaves it the one it was. -/
theorem Issued.set {s : State P σ} (h : Issued env s) {i : Nat} {d : Delivery P} {x slot : Slot (Delivery P)}
    (hrun : s.jvm.process.running? i = some d) (hoff : x.elem.offset = d.offset) (hinsert : x.elem.insert = d.insert)
    (hslot : slot ∈ (s.jvm.process.set i x).slots) :
    ∃ m ∈ s.jvm.started, m.offset = slot.elem.offset ∧ m.insert = slot.elem.insert := by
  rcases MapAsync.mem_slots_set hslot with rfl | hold
  · rw [hoff, hinsert]
    exact h.slots (.running d) (MapAsync.mem_of_running? hrun)
  · exact h.slots slot hold

variable [DecidableEq P]

/-- A longer log holds what it held. -/
theorem getElem?_update_append {log : P → List String} {o : Offset P} {payload : String}
    (h : (log o.1)[o.2]? = some payload) (p : P) (value : String) :
    (Function.update log p (log p ++ [value]) o.1)[o.2]? = some payload := by
  by_cases hp : o.1 = p
  · obtain ⟨hlt, -⟩ := List.getElem?_eq_some_iff.1 h
    rw [hp] at h hlt ⊢
    rw [Function.update_self, List.getElem?_append_left hlt]
    exact h
  · rw [Function.update_of_ne hp]
    exact h

theorem MessageAt.append {log : P → List String} {o : Offset P} {event : Option Event} (h : MessageAt env log o event)
    (p : P) (value : String) : MessageAt env (Function.update log p (log p ++ [value])) o event := by
  obtain ⟨payload, hget, hdec⟩ := h
  exact ⟨payload, getElem?_update_append hget p value, hdec⟩

theorem Issued.step {s s' : State P σ} {a : Act P} (h : Issued env s) (hs : Step env s a s') : Issued env s' := by
  cases hs with
  | sendElsewhere | completeFails | flush | applyCommit | completeCommit | commitFails | sink => exact { h with }
  | send => exact { h with messages := fun m hm => (h.messages m hm).append _ _ }
  | deliverThrows hf hidle hlog hmsg => exact { h with random := (random_of_throws hmsg).trans h.random }
  | @deliver p payload insert random process hf hidle hlog hmsg hslots =>
    obtain ⟨hdec, hinsert, hrandom⟩ := processMessage_of_ok hmsg
    rw [h.random] at hinsert hrandom
    refine ⟨?_, fun m hm => ?_, ?_, fun slot hslot => ?_⟩
    · rw [startedEvents_concat rfl, List.length_append, Nat.add_comm s.jvm.startedEvents.length, sourceAt,
        Function.iterate_add_apply]
      exact hrandom
    · rcases List.mem_append.1 hm with hold | hnew
      · exact h.messages m hold
      · rw [List.mem_singleton.1 hnew]
        exact ⟨payload, hlog, hdec⟩
    · simp only [List.map_append, List.map_cons, List.map_nil]
      rw [insertsOf_append, reduceOption_events, ← sourceAt, hinsert, h.inserts]
    · rw [hslots, List.mem_singleton] at hslot
      rw [hslot]
      exact ⟨_, List.mem_append_right _ (List.mem_singleton_self _), rfl, rfl⟩
  | store hrun => exact { h with slots := fun slot hslot => h.set hrun rfl rfl hslot }
  | complete _ hrun => exact { h with slots := fun slot hslot => h.set hrun rfl rfl hslot }
  | aggregate _ hslots =>
    exact { h with slots := fun slot hslot => h.slots slot (by rw [hslots]; exact List.mem_cons_of_mem _ hslot) }
  | crash => exact issued_start rfl

theorem issued_run {log : P → List String} {acts : List (Act P)} {s : State P σ}
    (h : Machine.run (step env) (State.init env log) acts = some s) : Issued env s :=
  Machine.run_invariant (issued_start rfl) (fun _ _ _ hI hstep => hI.step (step_sound hstep)) h

/-! ## A topic of events -/

/-- Every message of the topic is an event. -/
def State.AllEvents (env : Env P σ) (s : State P σ) : Prop :=
  ∀ p, ∀ payload ∈ s.log p, ∃ e, JsonCodex.jsonToEvent env.libs env.zone payload = .ok (some e)

omit [DecidableEq P] in
theorem allEvents_of_loaded (hL : env.libs.Documented) {s : State P σ} {loaded : P → List Event}
    (h : ∀ p, s.log p = (loaded p).map (JsonCodex.eventToJson env.libs)) : s.AllEvents env := by
  intro p payload hpayload
  rw [h] at hpayload
  obtain ⟨e, -, rfl⟩ := List.mem_map.1 hpayload
  exact ⟨_, JsonCodex.jsonToEvent_eventToJson hL e⟩

omit [DecidableEq P] in
/-- Nothing but events is handed out. -/
theorem Issued.events {s : State P σ} (h : Issued env s) (hall : s.AllEvents env) :
    s.jvm.started.map Started.event = s.jvm.startedEvents.map some := by
  have hsome : ∀ m ∈ s.jvm.started, ∃ e, m.event = some e := by
    intro m hm
    obtain ⟨payload, hget, hdec⟩ := h.messages m hm
    obtain ⟨e, he⟩ := hall m.offset.1 payload (List.mem_of_getElem? hget)
    rw [he, Except.ok.injEq] at hdec
    exact ⟨e, hdec.symm⟩
  rw [Jvm.startedEvents]
  generalize s.jvm.started = started at hsome
  induction started with
  | nil => rfl
  | cons m ms ih =>
    obtain ⟨⟨e, he⟩, hrest⟩ := List.forall_mem_cons.1 hsome
    rw [List.map_cons, List.filterMap_cons_some he, List.map_cons, ← ih hrest, he]

omit [DecidableEq P] in
/-- The inserts are those of the events, each under the next draws. -/
theorem Issued.inserts_eq {s : State P σ} (h : Issued env s) (hall : s.AllEvents env) :
    s.jvm.started.map Started.insert =
      (drawAll env.random s.jvm.startedEvents env.seed).map fun x => insertOf env.db x.1 x.2 := by
  rw [h.inserts, h.events hall, insertsOf_some]

omit [DecidableEq P] in
/-- What is in `mapAsync(1)` is the insert of an event. -/
theorem Issued.insert_eq {s : State P σ} (h : Issued env s) (hall : s.AllEvents env) {slot : Slot (Delivery P)}
    (hslot : slot ∈ s.jvm.process.slots) : ∃ e d, slot.elem.insert = insertOf env.db e d := by
  obtain ⟨m, hm, -, hinsert⟩ := h.slots slot hslot
  have hmem : m.insert ∈ s.jvm.started.map Started.insert := List.mem_map_of_mem hm
  rw [h.inserts_eq hall] at hmem
  obtain ⟨x, -, hx⟩ := List.mem_map.1 hmem
  exact ⟨x.1, x.2, by rw [← hinsert, ← hx]⟩

/-! ## What they depend on -/

omit [DecidableEq P] in
theorem MessageAt.unique {log log' : P → List String} {o : Offset P} {event event' : Option Event}
    (h : MessageAt env log o event) (h' : MessageAt env log' o event') (hsame : (log o.1)[o.2]? = (log' o.1)[o.2]?) :
    event = event' := by
  obtain ⟨payload, hget, hdec⟩ := h
  obtain ⟨payload', hget', hdec'⟩ := h'
  rw [hsame, hget', Option.some.injEq] at hget
  subst hget
  rw [hdec] at hdec'
  exact Except.ok.inj hdec'

end Graph

end TransferDashboard
