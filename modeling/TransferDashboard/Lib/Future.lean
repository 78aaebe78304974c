/-
Exceptions, `Try` and futures, as far as an asynchronous client needs them.

A `Future ρ α` is a computation that has issued some requests of type `ρ`
and ends in a `Try α` once each of them is answered. The answers come from
outside, in any way; a future says only what it makes of them. So whether a
request was sent (`requests`) and what the caller sees (`outcome`) are two
separate facts about one value.
-/
import TransferDashboard.Lib.Fallible

namespace Scala

open Fallible

/-- A thrown exception: its class, its message, what it was caused by. -/
inductive Throwable where
  | exception (className message : String)
  | caused (className message : String) (cause : Throwable)
  deriving DecidableEq, Repr

/-- `new RuntimeException(message)`. -/
def runtimeException (message : String) : Throwable := .exception "RuntimeException" message

/-- What a call leaves behind: its value, or the exception it threw. -/
abbrev Try (α : Type) := Except Throwable α

/-- The value of a successful call, `collect { case Success(a) => a }` on one element. -/
def Try.success? {α : Type} : Try α → Option α
  | .ok a => .some a
  | .error _ => .none

@[simp] theorem Try.success?_ok {α : Type} (a : α) : Try.success? (.ok a : Try α) = .some a := rfl
@[simp] theorem Try.success?_error {α : Type} (e : Throwable) : Try.success? (.error e : Try α) = .none := rfl

theorem Try.success?_eq_some {α : Type} {x : Try α} {a : α} : x.success? = .some a ↔ x = .ok a := by
  cases x <;> simp [Try.success?]

/-- The values of calls made one after another, or the first failure among them. -/
def Try.sequence {α : Type} : List (Try α) → Try (List α)
  | [] => .ok []
  | x :: xs => do
    let a ← x
    let as ← Try.sequence xs
    .ok (a :: as)

theorem Try.sequence_eq_ok {α : Type} {xs : List (Try α)} {as : List α} :
    Try.sequence xs = .ok as ↔ xs = as.map .ok := by
  induction xs generalizing as with
  | nil => cases as <;> simp [Try.sequence]
  | cons x xs ih =>
    simp only [Try.sequence, bind_eq_ok, Except.ok.injEq, ih]
    cases as with
    | nil => simp
    | cons a as => simp

theorem Try.sequence_fails {α : Type} {xs : List (Try α)} :
    (∃ e, Try.sequence xs = .error e) ↔ ∃ x ∈ xs, ∃ e, x = .error e := by
  induction xs with
  | nil => simp [Try.sequence]
  | cons x xs ih =>
    cases x with
    | error e => simp [Try.sequence, bind, Except.bind]
    | ok a =>
      simp only [List.mem_cons, exists_eq_or_imp, reduceCtorEq, exists_false, false_or, ← ih]
      cases h : Try.sequence xs <;> simp [Try.sequence, bind, Except.bind, h]

/-- Collecting the successes drops nothing exactly when every call succeeded. -/
theorem filterMap_success?_length {α β : Type} (f : α → Try β) (l : List α) :
    ((l.map f).filterMap Try.success?).length = (l.map f).length ↔ ∀ a ∈ l, ∃ b, f a = .ok b := by
  induction l with
  | nil => simp
  | cons a l ih =>
    have hle := List.length_filterMap_le Try.success? (l.map f)
    cases hfa : f a with
    | ok b =>
      simp only [List.map_cons, hfa, List.filterMap_cons, Try.success?_ok, List.length_cons,
        Nat.add_right_cancel_iff, ih, List.forall_mem_cons, Except.ok.injEq, exists_eq', true_and]
    | error e =>
      simp only [List.map_cons, hfa, List.filterMap_cons, Try.success?_error, List.length_cons,
        List.forall_mem_cons, reduceCtorEq, exists_false, false_and, iff_false]
      omega

/-- A computation that has issued `requests` and ends in `outcome` of their
answers, given in the same order. -/
structure Future (ρ α : Type) where
  requests : List ρ
  outcome : List (Try Bool) → Try α

namespace Future

variable {ρ α β : Type}

/-- `Future.failed(e)`: failed already, nothing asked of anyone. -/
def failed (e : Throwable) : Future ρ α := ⟨[], fun _ => .error e⟩

/-- A call of the client: one request, the answer is the outcome. -/
def request (r : ρ) : Future ρ Bool :=
  ⟨[r], fun answers => answers.headD (.error (runtimeException "no answer"))⟩

/-- `Future.map`. -/
def map (f : α → β) (x : Future ρ α) : Future ρ β := ⟨x.requests, fun answers => (x.outcome answers).map f⟩

/-- `Future.map` with a function that may throw. -/
def mapTry (f : α → Try β) (x : Future ρ α) : Future ρ β := ⟨x.requests, fun answers => x.outcome answers >>= f⟩

/-- What each of some futures ends in, their answers given one after another. -/
def outcomes : List (Future ρ α) → List (Try Bool) → List (Try α)
  | [], _ => []
  | x :: xs, answers => x.outcome (answers.take x.requests.length) :: outcomes xs (answers.drop x.requests.length)

/-- `Future.sequence`: the requests of all, and the first failure if there is one. -/
def sequence (xs : List (Future ρ α)) : Future ρ (List α) :=
  ⟨xs.flatMap requests, fun answers => Try.sequence (outcomes xs answers)⟩

/-- `Future.recover` with a partial function that always throws `f cause`. -/
def recover (f : Throwable → Throwable) (x : Future ρ α) : Future ρ α :=
  ⟨x.requests, fun answers => (x.outcome answers).mapError f⟩

/-- It ends in a failure, whatever its requests are answered. -/
def Fails (x : Future ρ α) : Prop := ∀ answers, ∃ e, x.outcome answers = .error e

@[simp] theorem requests_failed (e : Throwable) : (failed e : Future ρ α).requests = [] := rfl
@[simp] theorem requests_request (r : ρ) : (request r).requests = [r] := rfl
@[simp] theorem requests_map (f : α → β) (x : Future ρ α) : (x.map f).requests = x.requests := rfl
@[simp] theorem requests_mapTry (f : α → Try β) (x : Future ρ α) : (x.mapTry f).requests = x.requests := rfl
@[simp] theorem requests_sequence (xs : List (Future ρ α)) : (sequence xs).requests = xs.flatMap requests := rfl
@[simp] theorem requests_recover (f : Throwable → Throwable) (x : Future ρ α) :
    (x.recover f).requests = x.requests := rfl

@[simp] theorem outcome_failed (e : Throwable) (answers : List (Try Bool)) :
    (failed e : Future ρ α).outcome answers = .error e := rfl
@[simp] theorem outcome_request (r : ρ) (a : Try Bool) : (request r).outcome [a] = a := rfl

/-- Calls of the client end in their answers. -/
theorem outcomes_requests (rs : List ρ) (f : ρ → Try Bool) : outcomes (rs.map request) (rs.map f) = rs.map f := by
  induction rs with
  | nil => rfl
  | cons r rs ih => simp [outcomes, ih]

theorem failed_inj {e e' : Throwable} : (failed e : Future ρ α) = failed e' ↔ e = e' := by
  refine ⟨fun h => ?_, fun h => by rw [h]⟩
  have houtcome := congrArg (fun x : Future ρ α => x.outcome []) h
  exact Except.error.inj houtcome

/-- Something is asked for, or the call has failed. -/
theorem request_ne_failed (r : ρ) (e : Throwable) : request r ≠ failed e := by
  intro h
  have hrequests := congrArg requests h
  cases hrequests

theorem failed_fails (e : Throwable) : (failed e : Future ρ α).Fails := fun _ => ⟨e, rfl⟩

/-- `map` and a rethrowing `recover` succeed exactly when the future does. -/
theorem outcome_map_recover {f : α → β} {g : Throwable → Throwable} {x : Future ρ α}
    {answers : List (Try Bool)} {b : β} :
    ((x.map f).recover g).outcome answers = .ok b ↔ ∃ a, x.outcome answers = .ok a ∧ f a = b := by
  simp only [recover, map]
  cases x.outcome answers <;> simp [Except.map, Except.mapError]

end Future

end Scala
