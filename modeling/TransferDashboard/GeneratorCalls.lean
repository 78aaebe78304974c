/-
`generateEvents` with the function it is given, which acts on a world and
may throw.

`Generator` notes down what `f` is called with. Here `f` is called, in the
places where the source calls it: each step agrees with the one that only
notes (`agrees_iteration`), so whatever `f` does, it is called with the
events noted, one after another, until it throws (`generateEventsWith_calls`).
-/
import TransferDashboard.GeneratorFacts
import TransferDashboard.Lib.Calls

namespace TransferDashboard

open Scala Joda Random Loop

namespace Generator

/-- `f : Event => Unit`, over the world it acts on. -/
abbrev Callback (τ : Type) := Event → τ → τ × Option Throwable

section

variable {σ τ : Type} (R : RandomSource σ) (C : Chronology) (f : Callback τ) {queue : EventQueue}

/-- `f(pq.dequeue())`. -/
def emitHeadWith (x : Run σ queue × τ) : (Run σ queue × τ) × Option Throwable :=
  match queue.dequeue x.1.pq with
  | some (event, pq) =>
    let (t, e) := f event x.2
    (({ x.1 with pq, emitted := x.1.emitted ++ [event] }, t), e)
  | none => (x, some (.exception "NoSuchElementException" "no element to remove from heap"))

def emitDueWith (x : Run σ queue × τ) : (Run σ queue × τ) × Option Throwable :=
  whileLoop (fun x => waiting x.1) (fun x => headDue x.1) (emitHeadWith f) x

def emitRestWith (x : Run σ queue × τ) : (Run σ queue × τ) × Option Throwable :=
  whileLoop (fun x => waiting x.1) (fun x => headDefined x.1) (emitHeadWith f) x

/-- `f(event)`, and the time advanced if it returns. -/
def emitNewWith (event : Event) (x : Run σ queue × τ) : (Run σ queue × τ) × Option Throwable :=
  let (t, thrown) := f event x.2
  match thrown with
  | some e => (({ x.1 with emitted := x.1.emitted ++ [event] }, t), some e)
  | none =>
    let (s, thrown) := emitNew R C event x.1
    ((s, t), thrown)

def newEventWith (x : Run σ queue × τ) : (Run σ queue × τ) × Option Throwable :=
  let (event, vars) := getRandomEvent R ⟨x.1.currentDt⟩ x.1.vars
  let (acked, random) := receipt R C event vars.random
  let s := { x.1 with vars := { vars with random }, drawn := x.1.drawn + 1 }
  match acked with
  | some (.ok ack) => emitNewWith R C f event ({ s with pq := queue.enqueue s.pq ack }, x.2)
  | some (.error e) => ((s, x.2), some e)
  | none => emitNewWith R C f event (s, x.2)

def iterationWith (x : Run σ queue × τ) : (Run σ queue × τ) × Option Throwable :=
  match emitDueWith f x with
  | (x, some e) => (x, some e)
  | (x, none) => newEventWith R C f x

/-- `generateEvents(start, end)(f)`. -/
def generateEventsWith (queue : EventQueue) (start «end» : TimeStamp) (vars : Vars σ) (world : τ) :
    (Run σ queue × τ) × Option Throwable :=
  let s : Run σ queue := ⟨vars, start.dt, queue.empty, [], 0⟩
  match whileLoop (fun x : Run σ queue × τ => timeLeft «end».dt x.1) (fun x => x.1.currentDt.isBefore «end».dt)
      (iterationWith R C f) (s, world) with
  | (x, some e) => (x, some e)
  | (x, none) => emitRestWith f x

end

variable {σ τ : Type} {R : RandomSource σ} {C : Chronology} {f : Callback τ} {queue : EventQueue}

/-! ## Steps -/

theorem agrees_emitHead (s : Run σ queue) (t : τ) :
    Agrees f Run.emitted s t (emitHead s) (emitHeadWith f (s, t)) := by
  cases hq : queue.dequeue s.pq with
  | none =>
    simp only [emitHead, emitHeadWith, hq]
    exact .silent rfl t
  | some x =>
    rw [emitHead_eq hq]
    simp only [emitHeadWith, hq]
    exact .call rfl rfl fun _ => rfl

theorem agrees_emitNew (event : Event) (s : Run σ queue) (t : τ) :
    Agrees f Run.emitted s t (emitNew R C event s) (emitNewWith R C f event (s, t)) := by
  have hnoted := (emitNew_spec (R := R) (C := C) event s).1
  cases hf : f event t with
  | mk t' o =>
    cases o with
    | some e =>
      simp only [emitNewWith, hf]
      exact .threw hnoted (by rw [callAll, hf])
    | none =>
      have hcalls : callAll f [event] t = (t', none) := by rw [callAll, hf, callAll]
      simp only [emitNewWith, hf]
      exact .returned hnoted hcalls

theorem newEventWith_eq (s : Run σ queue) (t : τ) : newEventWith R C f (s, t) =
    match (receipt R C (s.next R) (getRandomEvent R ⟨s.currentDt⟩ s.vars).2.random).1 with
    | some (.ok ack) => emitNewWith R C f (s.next R) ({ s.afterDraw R C with pq := queue.enqueue s.pq ack }, t)
    | some (.error e) => ((s.afterDraw R C, t), some e)
    | none => emitNewWith R C f (s.next R) (s.afterDraw R C, t) := rfl

theorem agrees_newEvent (s : Run σ queue) (t : τ) :
    Agrees f Run.emitted s t (newEvent R C s) (newEventWith R C f (s, t)) := by
  have hnote : (s.afterDraw R C).emitted = s.emitted := rfl
  rw [newEvent_eq, newEventWith_eq]
  cases (receipt R C (s.next R) (getRandomEvent R ⟨s.currentDt⟩ s.vars).2.random).1 with
  | none => exact (agrees_emitNew (s.next R) (s.afterDraw R C) t).of_note hnote
  | some acked =>
    cases acked with
    | error e => exact .silent hnote t
    | ok ack =>
      have hnote : ({ s.afterDraw R C with pq := queue.enqueue s.pq ack } : Run σ queue).emitted = s.emitted := rfl
      exact (agrees_emitNew (s.next R) _ t).of_note hnote

theorem agrees_emitDue (s : Run σ queue) (t : τ) : Agrees f Run.emitted s t (emitDue s) (emitDueWith f (s, t)) :=
  agrees_whileLoop (emitHead_decreases headDue) (fun s t _ => agrees_emitHead s t) s t

theorem agrees_emitRest (s : Run σ queue) (t : τ) : Agrees f Run.emitted s t (emitRest s) (emitRestWith f (s, t)) :=
  agrees_whileLoop (emitHead_decreases headDefined) (fun s t _ => agrees_emitHead s t) s t

theorem agrees_iteration (s : Run σ queue) (t : τ) :
    Agrees f Run.emitted s t (iteration R C s) (iterationWith R C f (s, t)) := by
  obtain ⟨s', hdue, -⟩ := emitDue_keeps s
  have hagree := agrees_emitDue (f := f) s t
  rw [hdue] at hagree
  have hthen := hagree.andThen (agrees_newEvent (R := R) (C := C) (f := f) s' t).grows fun t' => agrees_newEvent s' t'
  rw [iteration_eq hdue, iterationWith]
  cases h : emitDueWith f (s, t) with
  | mk x o =>
    rw [h] at hthen
    cases o <;> exact hthen

/-! ## Runs -/

theorem agrees_generateEvents (start «end» : TimeStamp) (vars : Vars σ) (world : τ) :
    Agrees f Run.emitted (Run.start queue start vars) world (generateEvents R C queue start «end» vars)
      (generateEventsWith R C f queue start «end» vars world) := by
  have hiteration : ∀ (s : Run σ queue) t, s.currentDt.isBefore «end».dt = true →
      Agrees f Run.emitted s t (iteration R C s) (iterationWith R C f (s, t)) := fun s t _ => agrees_iteration s t
  have hagree := agrees_whileLoop (iteration_decreases «end».dt) hiteration (Run.start queue start vars) world
  have hrest : ∀ (s : Run σ queue) t, Agrees f Run.emitted s t (emitRest s) (emitRestWith f (s, t)) := agrees_emitRest
  simp only [Run.start, generateEvents, generateEventsWith] at hagree ⊢
  generalize whileLoop _ _ (iteration R C) _ = q at hagree ⊢
  generalize whileLoop _ _ (iterationWith R C f) _ = r at hagree ⊢
  obtain ⟨s, o⟩ := q
  cases o with
  | some e =>
    cases hagree with
    | returned hes hcalls => exact .returned hes hcalls
    | threw hes hcalls => exact .threw hes hcalls
  | none =>
    have hthen := hagree.andThen (hrest s world).grows fun t => hrest s t
    obtain ⟨x, o⟩ := r
    cases o <;> exact hthen

/-- **Calling and noting.** Whatever world `f` acts on and wherever it throws:
with the events a run notes, `f` is called one after another, up to the first
call that throws, in which the run then ends; and where none does, the run
comes to what it notes. -/
theorem generateEventsWith_calls (R : RandomSource σ) (C : Chronology) (f : Callback τ) (queue : EventQueue)
    (start «end» : TimeStamp) (vars : Vars σ) (world : τ) :
    (generateEventsWith R C f queue start «end» vars world).1.2 =
      (callAll f (generateEvents R C queue start «end» vars).1.emitted world).1 ∧
    ((callAll f (generateEvents R C queue start «end» vars).1.emitted world).2 = none →
      (generateEventsWith R C f queue start «end» vars world).1.1 = (generateEvents R C queue start «end» vars).1 ∧
        (generateEventsWith R C f queue start «end» vars world).2 = (generateEvents R C queue start «end» vars).2) ∧
    ∀ e, (callAll f (generateEvents R C queue start «end» vars).1.emitted world).2 = some e →
      (generateEventsWith R C f queue start «end» vars world).2 = some e :=
  (agrees_generateEvents start «end» vars world).calls rfl

end Generator

end TransferDashboard
