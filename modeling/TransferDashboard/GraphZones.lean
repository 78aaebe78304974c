/-
The zone of the consumer's host.

A text that is read is read into the default zone of the process, and the
zone goes no further than the event: its points are the same in any zone. So
two consumers that differ in their zone alone go in step, action by action
and crash by crash, and write the same rows (`zone_does_not_matter`).
-/
import TransferDashboard.GraphRuns
import TransferDashboard.GraphSteps

namespace TransferDashboard

open Scala Joda Json Random Stage EventPoint

namespace Graph

variable {P σ : Type} {env : Env P σ}

/-- The same consumer on a host of another zone. -/
def Env.inZone (env : Env P σ) (zone : DateTimeZone) : Env P σ := { env with zone }

def Started.inZone (zone : DateTimeZone) (x : Started P) : Started P :=
  { x with event := x.event.map fun e => e.inZone zone }

/-- The same state, but for the zone of the events that were read. -/
def State.inZone (zone : DateTimeZone) (s : State P σ) : State P σ :=
  { s with jvm := { s.jvm with started := s.jvm.started.map (Started.inZone zone) } }

/-- Every message is the text of an event. -/
def State.Texts (env : Env P σ) (s : State P σ) : Prop :=
  ∀ p, ∀ payload ∈ s.log p, ∃ e, payload = JsonCodex.eventToJson env.libs e

/-- What is sent to the topic is the text of an event. -/
def SendsTexts (env : Env P σ) (_ : State P σ) (a : Act P) : Prop :=
  ∀ r, a.sent? = some r → r.topic = topic → ∃ e, r.value = JsonCodex.eventToJson env.libs e

variable [DecidableEq P]

/-- An action does the same in both zones. -/
theorem step_inZone (hL : env.libs.Documented) {s : State P σ} (htexts : s.Texts env) (zone : DateTimeZone) (a : Act P) :
    step (env.inZone zone) (s.inZone zone) a = (step env s a).map (State.inZone zone) := by
  cases a with
  | send r =>
    by_cases ht : r.topic = topic <;> simp [step, State.inZone, Env.inZone, ht]
  | deliver p =>
    by_cases hgo : s.jvm.failed = true ∨ 1 ≤ s.jvm.process.slots.length
    · simp only [step, State.inZone, hgo, if_true, Option.map_none]
    simp only [step, State.inZone, hgo, if_false]
    cases hlog : (s.log p)[s.jvm.position p]? with
    | none => rfl
    | some payload =>
      obtain ⟨e, rfl⟩ := htexts p payload (List.mem_of_getElem? hlog)
      have hL' : (env.inZone zone).libs.Documented := hL
      have hmsg' := processMessage_eventToJson hL' e s.jvm.random
      have hevent' := eventOf_eventToJson hL' e
      simp only [Env.inZone] at hmsg' hevent' ⊢
      simp only [processMessage_eventToJson hL, eventOf_eventToJson hL, hmsg', hevent', Option.map_map]
      cases s.jvm.process.push? _ <;> simp [State.inZone, Started.inZone, Event.inZone]
  | store i =>
    cases hrun : s.jvm.process.running? i with
    | none => simp [step, State.inZone, hrun]
    | some d => cases hd : d.stored <;> simp [step, State.inZone, hrun, hd]
  | complete i answers =>
    cases hrun : s.jvm.process.running? i with
    | none => simp [step, State.inZone, hrun]
    | some d =>
      by_cases hgo : s.jvm.failed = true ∨ ¬ d.mayAnswer answers
      · simp only [step, State.inZone, hrun, hgo, if_true, Option.map_none]
      · simp only [step, State.inZone, hrun, hgo, if_false]
        cases d.insert.outcome answers <;> rfl
  | aggregate =>
    cases hf : s.jvm.failed <;> cases hemit : s.jvm.process.emit? <;>
      simp [step, State.inZone, hf, hemit, Function.comp_def]
  | flush =>
    cases hf : s.jvm.failed <;> cases hflush : s.jvm.batch.flush? <;>
      simp [step, State.inZone, hf, hflush, Function.comp_def]
  | applyCommit i =>
    cases hrun : s.jvm.commits.running? i with
    | none => simp [step, State.inZone, hrun]
    | some c => cases hc : c.applied <;> simp [step, State.inZone, hrun, hc]
  | completeCommit i ok =>
    cases hrun : s.jvm.commits.running? i with
    | none => simp [step, State.inZone, hrun]
    | some c =>
      cases hf : s.jvm.failed <;> cases ok <;> cases hc : c.applied <;> simp [step, State.inZone, hrun, hf, hc]
  | sink =>
    cases hf : s.jvm.failed <;> simp [step, State.inZone, hf, Function.comp_def]
  | crash => rfl

theorem State.Texts.step {s s' : State P σ} {a : Act P} (h : s.Texts env) (ha : SendsTexts env s a)
    (hs : Graph.step env s a = some s') : s'.Texts env := by
  have hs := step_sound hs
  cases hs with
  | @send r ht =>
    intro p payload hmem
    simp only at hmem
    by_cases hp : p = env.partitioner r.key
    · subst hp
      rw [Function.update_self, List.mem_append, List.mem_singleton] at hmem
      rcases hmem with hmem | rfl
      · exact h _ payload hmem
      · exact ha r rfl ht
    · rw [Function.update_of_ne hp] at hmem
      exact h p payload hmem
  | _ => exact h

/-- **The zone does not matter.** Over a topic that holds texts of events, and
to which nothing else is sent, a consumer and the same one on a host of
another zone can do the same actions in the same order, crashes and failures
included, and are in the same state after them: same rows, same committed
positions, same successes. Only the zone the events were read in differs. -/
theorem zone_does_not_matter (env : Env P σ) (hL : env.libs.Documented) (zone : DateTimeZone) {log : P → List String}
    (hlog : (State.init env log).Texts env) {acts : List (Act P)}
    (hsends : ∀ r ∈ sends acts, r.topic = topic → ∃ e, r.value = JsonCodex.eventToJson env.libs e) :
    Machine.run (step (env.inZone zone)) (State.init (env.inZone zone) log) acts =
      (Machine.run (step env) (State.init env log) acts).map (State.inZone zone) := by
  have hinit : State.init (env.inZone zone) log = (State.init env log).inZone zone := rfl
  rw [hinit]
  refine Machine.run_map (fun s a htexts _ => step_inZone hL htexts zone a) (fun s a s' htexts ha hs => htexts.step ha hs)
    hlog (Machine.meets_of_forall fun a ha s r hr => hsends r ?_)
  exact List.mem_filterMap.2 ⟨a, ha, hr⟩

/-- One event, loaded and handed on in California. -/
theorem zone_does_not_matter_losAngeles : ∃ s,
    Machine.run (step textEnv) (State.init textEnv fun _ => [])
      (.send (Loader.loadEvent textLibs JsonCodexSpec.event) :: handle ()) = some s ∧
    Machine.run (step (textEnv.inZone losAngeles)) (State.init (textEnv.inZone losAngeles) fun _ => [])
      (.send (Loader.loadEvent textLibs JsonCodexSpec.event) :: handle ()) = some (s.inZone losAngeles) := by
  have hrun : Machine.run (step textEnv) (State.init textEnv fun _ => [])
      (.send (Loader.loadEvent textLibs JsonCodexSpec.event) :: handle ()) = some _ :=
    Machine.run_cons.2 ⟨_, rfl, run_handle (e := JsonCodexSpec.event) textLibs_documented rfl rfl rfl rfl rfl⟩
  have hlog : (State.init textEnv fun _ => []).Texts textEnv := fun _ _ hmem => by cases hmem
  have hsends : sends (.send (Loader.loadEvent textLibs JsonCodexSpec.event) :: handle ()) =
      [Loader.loadEvent textLibs JsonCodexSpec.event] := rfl
  refine ⟨_, hrun, ?_⟩
  rw [zone_does_not_matter textEnv textLibs_documented losAngeles hlog ?_, hrun, Option.map_some]
  intro r hr _
  rw [hsends, List.mem_singleton] at hr
  subst hr
  exact ⟨JsonCodexSpec.event, rfl⟩

end Graph

end TransferDashboard
