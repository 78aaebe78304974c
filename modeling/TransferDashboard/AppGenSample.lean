/-
The sample feed (`AppGenSample.scala`, with the tests): the generator's
events, each loaded into the topic before the next is made.

`loadSync` waits for the broker. `Await.result` throws what the insert
failed with, or that it was not done in time, so the two messages after it
are never printed, and the first record that is not acknowledged is the last
one sent (`loads_in_order`).
-/
import TransferDashboard.GeneratorCalls
import TransferDashboard.Loader

namespace TransferDashboard

open Scala Joda Random Loop Generator

/-- An exception's `toString`. -/
def describe : Throwable → String
  | .exception className message | .caused className message _ => className ++ ": " ++ message

namespace AppGenSample

/-- What the app has asked the producer to send, and what it has printed of it. -/
structure Output where
  sent : List ProducerRecord
  printed : List String

/-- `Await.result(insert, 10 second)`, of what the insert has ended in by then. -/
def await (insert : Option (Try Unit)) : Try Unit :=
  insert.getD (.error (.exception "TimeoutException" "Futures timed out after [10 seconds]"))

/-- `answer n` is what the `n`th record sent, from nought, has come to after
ten seconds. -/
def loadSync (L : Libs) (answer : Nat → Option (Try Unit)) (event : Event) (output : Output) :
    Output × Option Throwable :=
  let insert := answer output.sent.length
  let output := { output with sent := output.sent ++ [Loader.loadEvent L event] }
  match await insert with
  | .error e => (output, some e)
  | .ok _ =>
    match insert with
    | some (.ok _) => (output, none)
    | some (.error e) =>
      ({ output with printed := output.printed ++ ["Insert into kafka failed: " ++ describe e] }, none)
    | none => ({ output with printed := output.printed ++ ["Future not done"] }, none)

section

variable {σ : Type} (R : RandomSource σ)

/-- The events that are only printed, made at some instants. -/
def samples : List TimeStamp → Vars σ → List Event × Vars σ
  | [], vars => ([], vars)
  | now :: nows, vars =>
    let (event, vars) := getRandomEvent R now vars
    let (events, vars) := samples nows vars
    (event :: events, vars)

/-- The variables once a partner and six events were made to be printed. -/
def sampled (nows : Fin 6 → TimeStamp) (vars : Vars σ) : Vars σ :=
  let (_, random) := getRandomPartnerMetaInfo R vars.random
  (samples R (List.ofFn nows) { vars with random }).2

/-- The app. -/
def main (C : Chronology) (queue : EventQueue) (L : Libs) (answer : Nat → Option (Try Unit)) (nows : Fin 6 → TimeStamp)
    (start «end» : TimeStamp) (vars : Vars σ) : (Run σ queue × Output) × Option Throwable :=
  generateEventsWith R C (loadSync L answer) queue start «end» (sampled R nows vars) ⟨[], []⟩

end

variable {L : Libs} {answer : Nat → Option (Try Unit)}

/-- An insert that does not throw was acknowledged. -/
theorem await_eq_ok {insert : Option (Try Unit)} {u : Unit} (h : await insert = .ok u) : insert = some (.ok ()) := by
  cases insert with
  | none => cases h
  | some r =>
    rw [← h]
    rfl

/-- A record is sent in any case; the app goes on when it was acknowledged. -/
theorem loadSync_cases (L : Libs) (answer : Nat → Option (Try Unit)) (event : Event) (output : Output) :
    (answer output.sent.length = some (.ok ()) ∧ loadSync L answer event output =
      ({ output with sent := output.sent ++ [Loader.loadEvent L event] }, none)) ∨
    ∃ e, await (answer output.sent.length) = .error e ∧ loadSync L answer event output =
      ({ output with sent := output.sent ++ [Loader.loadEvent L event] }, some e) := by
  cases hawait : await (answer output.sent.length) with
  | error e => exact .inr ⟨e, rfl, by simp only [loadSync, hawait]⟩
  | ok u =>
    have hacked := await_eq_ok hawait
    exact .inl ⟨hacked, by simp [loadSync, hacked, await]⟩

/-- Calls that all return were all acknowledged, and sent what they were to send. -/
theorem loaded_of_returned {events : List Event} {output : Output}
    (h : (callAll (loadSync L answer) events output).2 = none) :
    (∀ i < events.length, answer (output.sent.length + i) = some (.ok ())) ∧
      (callAll (loadSync L answer) events output).1 =
        { output with sent := output.sent ++ events.map (Loader.loadEvent L) } := by
  induction events generalizing output with
  | nil => simp [callAll]
  | cons event events ih =>
    rw [callAll] at h ⊢
    rcases loadSync_cases L answer event output with ⟨hacked, heq⟩ | ⟨e, -, heq⟩
    · simp only [heq] at h ⊢
      obtain ⟨hrest, hsent⟩ := ih h
      refine ⟨fun i hi => ?_, by simp [hsent]⟩
      cases i with
      | zero => exact hacked
      | succ i =>
        have hnext := hrest i (by simpa using hi)
        simp only [List.length_append, List.length_singleton] at hnext
        rw [← hnext]
        congr 1
        omega
    · simp only [heq] at h
      cases h

/-- What is sent and how the app ends, beside a run of the generator: all its
events were loaded, or all up to one that was not acknowledged. -/
inductive Loads {σ : Type} {queue : EventQueue} (L : Libs) (answer : Nat → Option (Try Unit))
    (run : Run σ queue × Option Throwable) : Output × Option Throwable → Prop
  | all (hacked : ∀ i < run.1.emitted.length, answer i = some (.ok ())) :
      Loads L answer run (⟨run.1.emitted.map (Loader.loadEvent L), []⟩, run.2)
  | upTo (n : Nat) (e : Throwable) (hn : n < run.1.emitted.length) (hacked : ∀ i < n, answer i = some (.ok ()))
      (hfailed : await (answer n) = .error e) :
      Loads L answer run (⟨(run.1.emitted.take (n + 1)).map (Loader.loadEvent L), []⟩, some e)

/-- **One after another, up to the first that fails.** Whatever the broker
answers and when, nothing is ever printed of an insert, and the records sent
are those of the generator's events, in its order: all of them, if each is
acknowledged in time, and the app then ends as the generator does; else up to
and with the first that is not, and the app ends in what `Await.result` threw. -/
theorem loads_in_order {σ : Type} (R : RandomSource σ) (C : Chronology) (queue : EventQueue) (L : Libs)
    (answer : Nat → Option (Try Unit)) (nows : Fin 6 → TimeStamp) (start «end» : TimeStamp) (vars : Vars σ) :
    Loads L answer (generateEvents R C queue start «end» (sampled R nows vars))
      ((main R C queue L answer nows start «end» vars).1.2, (main R C queue L answer nows start «end» vars).2) := by
  have hagree : Agrees (loadSync L answer) Run.emitted (Run.start queue start (sampled R nows vars)) (⟨[], []⟩ : Output)
      (generateEvents R C queue start «end» (sampled R nows vars)) (main R C queue L answer nows start «end» vars) :=
    agrees_generateEvents start «end» (sampled R nows vars) (⟨[], []⟩ : Output)
  obtain ⟨hworld, hreturned, hthrew⟩ := hagree.calls rfl
  generalize main R C queue L answer nows start «end» vars = app at *
  generalize generateEvents R C queue start «end» (sampled R nows vars) = run at *
  rw [hworld]
  rcases callAll_cases (loadSync L answer) run.1.emitted (⟨[], []⟩ : Output) with
    hnone | ⟨before, event, after, e, hsplit, hbefore, hcall, he⟩
  · obtain ⟨hacked, hsent⟩ := loaded_of_returned hnone
    rw [hsent, (hreturned hnone).2, List.nil_append]
    exact .all fun i hi => by simpa using hacked i hi
  · obtain ⟨hacked, hsent⟩ := loaded_of_returned hbefore
    rw [hthrew e (by rw [hcall]; exact he), hcall]
    rw [hsent] at he ⊢
    rcases loadSync_cases L answer event ⟨[] ++ before.map (Loader.loadEvent L), []⟩ with
      ⟨-, heq⟩ | ⟨e', hfailed, heq⟩
    · rw [heq] at he
      cases he
    · rw [heq] at he ⊢
      obtain rfl : e' = e := Option.some.inj he
      have htake : run.1.emitted.take (before.length + 1) = before ++ [event] := by
        rw [hsplit, List.take_length_add_append]
        rfl
      have hlt : before.length < run.1.emitted.length := by
        rw [hsplit]
        simp
      have hcut := Loads.upTo (L := L) before.length e' hlt (fun i hi => by simpa using hacked i hi)
        (by simpa using hfailed)
      rw [htake] at hcut
      simpa using hcut

end AppGenSample

end TransferDashboard
