/-
How the stream ends, and what is logged then.

Kafka's source does not complete, so `done` can only fail: with what its
first failing stage failed with. `stepDone` keeps that beside the state.
Where a process has failed, what `terminateWhenDone` logs names the message
the process stands at, or the commit of its own that was refused
(`logs_why_it_failed`).
-/
import TransferDashboard.GraphHalts
import TransferDashboard.GraphRows

namespace TransferDashboard

open Scala Joda Json Random Stage
open JsonCodex (getMessage)

namespace Graph

/-- What is logged as an error before the system is terminated: the
exception and its message. -/
def terminateWhenDone : Try Unit → List (Throwable × String)
  | .error e => [(e, getMessage e)]
  | .ok _ => []

variable {P σ : Type} {env : Env P σ}

/-- An action, and the exception a commit is refused with if it refuses one. -/
abbrev Answered (P : Type) := Act P × Throwable

/-- What an action fails the stream with. -/
def failsWith (env : Env P σ) (s : State P σ) : Answered P → Option Throwable
  | (.deliver p, _) =>
    match (s.log p)[s.jvm.position p]? with
    | some payload =>
      match (processMessage env payload s.jvm.random).1 with
      | .error e => some e
      | .ok _ => none
    | none => none
  | (.complete i answers, _) =>
    match s.jvm.process.running? i with
    | some d =>
      match d.insert.outcome answers with
      | .error e => some e
      | .ok _ => none
    | none => none
  | (.completeCommit _ false, refusal) => some refusal
  | _ => none

/-- What is logged of a process whose `done` has failed, or has not. -/
def logged : Option Throwable → List (Throwable × String)
  | some e => terminateWhenDone (.error e)
  | none => []

section

variable [DecidableEq P]

/-- A run took an action in a state, and its process is still the same. -/
def Took (env : Env P σ) (log : P → List String) (acts : List (Answered P)) (a : Answered P) (t : State P σ) : Prop :=
  ∃ before after, acts = before ++ a :: after ∧ (∀ b ∈ after, b.1 ≠ .crash) ∧
    Machine.run (step env) (State.init env log) (before.map Prod.fst) = some t

theorem Took.concat {log : P → List String} {acts : List (Answered P)} {a b : Answered P} {t : State P σ}
    (h : Took env log acts a t) (hb : b.1 ≠ .crash) : Took env log (acts ++ [b]) a t := by
  obtain ⟨before, after, rfl, hafter, hrun⟩ := h
  refine ⟨before, after ++ [b], by simp, fun x hx => ?_, hrun⟩
  rcases List.mem_append.1 hx with hold | hnew
  · exact hafter x hold
  · rw [List.mem_singleton.1 hnew]
    exact hb

theorem took_last {log : P → List String} {acts : List (Answered P)} {t : State P σ}
    (h : Machine.run (step env) (State.init env log) (acts.map Prod.fst) = some t) (a : Answered P) :
    Took env log (acts ++ [a]) a t :=
  ⟨acts, [], rfl, fun _ hb => absurd hb List.not_mem_nil, h⟩

/-- Why a line was logged, after some actions. -/
inductive Culprit (env : Env P σ) (log : P → List String) (acts : List (Answered P)) (s : State P σ) :
    Throwable × String → Prop
  /-- The process stands before a text that cannot be read. -/
  | unreadable {p : P} {payload : String} {e : Throwable} (hlog : (s.log p)[s.jvm.position p]? = some payload)
      (hdec : JsonCodex.jsonToEvent env.libs env.zone payload = .error e) : Culprit env log acts s (e, getMessage e)
  /-- It has just taken a text that is no event. -/
  | noEvent {p : P} {o : Nat} {payload : String} (hpos : s.jvm.position p = o + 1) (hlog : (s.log p)[o]? = some payload)
      (hdec : JsonCodex.jsonToEvent env.libs env.zone payload = .ok none) :
      Culprit env log acts s (cannotConvert, "cannot convert JSON to Event")
  /-- It has just taken an event, and the connection to the database had
  failed, or this process was given the cause as an answer to its insert. -/
  | refused {p : P} {o : Nat} {payload : String} {e : Event} {cause : Throwable} (hpos : s.jvm.position p = o + 1)
      (hlog : (s.log p)[o]? = some payload) (hdec : JsonCodex.jsonToEvent env.libs env.zone payload = .ok (some e))
      (hcause : env.db.dbFuture = .error cause ∨ ∃ i answers refusal t d,
        Took env log acts (.complete i answers, refusal) t ∧ t.jvm.process.running? i = some d ∧ d.offset = (p, o) ∧
          .error cause ∈ answers) :
      Culprit env log acts s (dbInsertFailed cause, "Db insert failed")
  /-- A commit this process had sent was refused. -/
  | commit {i : Nat} {refusal : Throwable} {t : State P σ} {c : Commit P}
      (htook : Took env log acts (.completeCommit i false, refusal) t) (hrun : t.jvm.commits.running? i = some c) :
      Culprit env log acts s (refusal, getMessage refusal)

end

/-- The failure of an insert is the database's, wrapped. -/
theorem insertOf_error {db : InfluxDBDriver} {event : Event} {d : Fin 100000 × Fin 100000} {answers : List (Try Bool)}
    {e : Throwable} (hlen : answers.length = (insertOf db event d).requests.length)
    (herr : (insertOf db event d).outcome answers = .error e) :
    ∃ cause, e = dbInsertFailed cause ∧ (db.dbFuture = .error cause ∨ .error cause ∈ answers) := by
  simp only [insertOf, Future.requests_recover, Future.requests_map] at hlen
  simp only [insertOf, Future.recover, Future.map] at herr
  unfold InfluxDBDriver.onDb at hlen herr
  split at herr
  next hdb =>
    rw [hdb, Future.requests_request] at hlen
    obtain ⟨a, rfl⟩ := List.length_eq_one_iff.1 hlen
    rw [Future.outcome_request] at herr
    cases a with
    | ok b => cases herr
    | error cause =>
      cases herr
      exact ⟨cause, rfl, .inr (List.mem_singleton_self _)⟩
  next cause hdb =>
    cases herr
    exact ⟨cause, rfl, .inl hdb⟩

variable [DecidableEq P]

/-- One action of the consumer, with what its `done` has failed with so far. A new process has a new `done`. -/
def stepDone (env : Env P σ) (x : State P σ × Option Throwable) (a : Answered P) :
    Option (State P σ × Option Throwable) :=
  (step env x.1 a.1).map fun s =>
    (s, if a.1.isCrash then none else x.2.or (failsWith env x.1 a))

/-- What an action leaves of what was found. -/
theorem Culprit.step {log : P → List String} {acts : List (Answered P)} {s s' : State P σ} {a : Answered P}
    {line : Throwable × String} (h : Culprit env log acts s line) (hf : s.jvm.failed = true) (ha : a.1 ≠ .crash)
    (hs : Step env s a.1 s') : Culprit env log (acts ++ [a]) s' line := by
  have hpos : s'.jvm.position = s.jvm.position := ((Aftermath.refl hf).step ha hs).position
  have hlog : ∀ (p : P) (o : Nat) (payload : String), (s.log p)[o]? = some payload → (s'.log p)[o]? = some payload := by
    intro p o payload hget
    generalize a.1 = act at hs
    cases hs with
    | send ht => exact getElem?_update_append (o := (p, o)) hget _ _
    | _ => exact hget
  cases h with
  | unreadable hget hdec => exact .unreadable (hlog _ _ _ (hpos ▸ hget)) hdec
  | noEvent hat hget hdec => exact .noEvent (hpos ▸ hat) (hlog _ _ _ hget) hdec
  | refused hat hget hdec hcause =>
    refine .refused (hpos ▸ hat) (hlog _ _ _ hget) hdec (hcause.imp_right fun hanswered => ?_)
    obtain ⟨i, answers, refusal, t, d, htook, hrest⟩ := hanswered
    exact ⟨i, answers, refusal, t, d, htook.concat ha, hrest⟩
  | commit htook hrun => exact .commit (htook.concat ha) hrun

/-- The process is just past what it has in hand. -/
def AtHand (s : State P σ) : Prop :=
  ∀ slot ∈ s.jvm.process.slots, s.jvm.position slot.elem.offset.1 = slot.elem.offset.2 + 1

theorem AtHand.step {s s' : State P σ} {a : Act P} (h : AtHand s) (hs : Step env s a s') : AtHand s' := by
  cases hs with
  | deliver hf hidle hlog hmsg hslots =>
    intro slot hslot
    rw [hslots, List.mem_singleton] at hslot
    rw [hslot]
    exact Function.update_self ..
  | store hrun | complete _ hrun =>
    intro slot hslot
    rcases MapAsync.mem_slots_set hslot with rfl | hold
    · have hpos := h _ (MapAsync.mem_of_running? hrun)
      exact hpos
    · exact h slot hold
  | aggregate hf hslots => exact fun slot hslot => h slot (by rw [hslots]; exact List.mem_cons_of_mem _ hslot)
  | crash =>
    intro slot hslot
    cases hslot
  | _ => exact h

/-- `done` has failed where the stream has, and with a reason. -/
structure Explained (env : Env P σ) (log : P → List String) (acts : List (Answered P)) (s : State P σ)
    (done : Option Throwable) : Prop where
  reached : Machine.run (step env) (State.init env log) (acts.map Prod.fst) = some s
  genuine : Genuine env s
  atHand : AtHand s
  failed : s.jvm.failed = done.isSome
  culprit : ∀ e, done = some e → Culprit env log acts s (e, getMessage e)

theorem explained_init (env : Env P σ) (log : P → List String) : Explained env log [] (State.init env log) none where
  reached := rfl
  genuine := genuine_init log
  atHand slot h := by cases h
  failed := rfl
  culprit e h := by cases h

/-- An insert that fails has failed for its message. -/
theorem culprit_of_failed {log : P → List String} {acts : List (Answered P)} {s s' : State P σ} {i : Nat}
    {answers : List (Try Bool)} {refusal e : Throwable} {d : Delivery P}
    (htook : Took env log (acts ++ [(.complete i answers, refusal)]) (.complete i answers, refusal) s)
    (hrun : s.jvm.process.running? i = some d) (hhanded : Handed env s.log d)
    (hpos : s.jvm.position d.offset.1 = d.offset.2 + 1) (hans : d.mayAnswer answers = true)
    (herr : d.insert.outcome answers = .error e) (hlog : s'.log = s.log) (hposition : s'.jvm.position = s.jvm.position) :
    Culprit env log (acts ++ [(.complete i answers, refusal)]) s' (e, getMessage e) := by
  obtain ⟨payload, random, hget, hmsg⟩ := hhanded
  rw [← hlog] at hget
  rw [← hposition] at hpos
  rcases processMessage_cases (Prod.ext hmsg rfl) with ⟨_, -, heq, -⟩ | ⟨hdec, heq, -⟩ | ⟨event, hdec, heq, -⟩
  · cases heq
  · rw [Except.ok.injEq] at heq
    rw [heq] at herr
    cases herr
    exact .noEvent hpos hget hdec
  · have hlen := length_of_mayAnswer hans
    rw [Except.ok.inj heq] at hlen herr
    obtain ⟨cause, rfl, hcause⟩ := insertOf_error hlen herr
    exact .refused hpos hget hdec (hcause.imp_right fun hmem => ⟨i, answers, refusal, s, d, htook, hrun, rfl, hmem⟩)

omit [DecidableEq P] in
/-- What is thrown was thrown by the decoder. -/
theorem unreadable_of_throws {payload : String} {random random' : σ} {e : Throwable}
    (h : processMessage env payload random = (.error e, random')) :
    JsonCodex.jsonToEvent env.libs env.zone payload = .error e := by
  rcases processMessage_cases h with ⟨_, hdec, heq, -⟩ | ⟨-, heq, -⟩ | ⟨_, -, heq, -⟩ <;> cases heq
  exact hdec

/-- An action that fails the stream fails it with something, for a reason; no other does. -/
theorem failsWith_step {log : P → List String} {acts : List (Answered P)} (refusal : Throwable) {s s' : State P σ}
    {a : Act P} (h : Explained env log acts s none) (hs : Step env s a s') :
    s'.jvm.failed = (failsWith env s (a, refusal)).isSome ∧
      ∀ e, failsWith env s (a, refusal) = some e → Culprit env log (acts ++ [(a, refusal)]) s' (e, getMessage e) := by
  have hf : s.jvm.failed = false := h.failed
  have htook := took_last h.reached (a, refusal)
  cases hs with
  | deliver hf' hidle hlog hmsg => simp [failsWith, hlog, hmsg, hf]
  | @deliverThrows p payload e random hf' hidle hlog hmsg =>
    refine ⟨by simp [failsWith, hlog, hmsg], fun e' he' => ?_⟩
    simp only [failsWith, hlog, hmsg, Option.some.injEq] at he'
    subst he'
    exact .unreadable hlog (unreadable_of_throws hmsg)
  | complete hf' hrun hans hok => simp [failsWith, hrun, hok, hf]
  | @completeFails i answers d e hf' hrun hans herr =>
    refine ⟨by simp [failsWith, hrun, herr], fun e' he' => ?_⟩
    simp only [failsWith, hrun, herr, Option.some.injEq] at he'
    subst he'
    have hmem := MapAsync.mem_of_running? hrun
    exact culprit_of_failed htook hrun (h.genuine.slots _ hmem) (h.atHand _ hmem) hans herr rfl rfl
  | @commitFails i c hf' hrun =>
    refine ⟨rfl, fun e' he' => ?_⟩
    cases he'
    exact .commit htook hrun
  | _ => simp [failsWith, hf, Jvm.start]

theorem Explained.step {log : P → List String} {acts : List (Answered P)} {s s' : State P σ} {done : Option Throwable}
    {a : Answered P} (h : Explained env log acts s done) (hstep : Graph.step env s a.1 = some s') :
    Explained env log (acts ++ [a]) s' (if a.1.isCrash then none else done.or (failsWith env s a)) := by
  have hs := step_sound hstep
  have hreached : Machine.run (Graph.step env) (State.init env log) ((acts ++ [a]).map Prod.fst) = some s' := by
    rw [List.map_append]
    exact Machine.run_append.2 ⟨s, h.reached, Machine.run_cons.2 ⟨s', hstep, rfl⟩⟩
  have hgenuine := h.genuine.step hs
  have hhand := h.atHand.step hs
  obtain ⟨act, refusal⟩ := a
  by_cases hcrash : act = .crash
  · subst hcrash
    exact ⟨hreached, hgenuine, hhand, by cases hs; rfl, fun e he => by cases he⟩
  have hact : act.isCrash = false := by cases act <;> first | rfl | exact absurd rfl hcrash
  simp only [hact, Bool.false_eq_true, if_false]
  cases done with
  | none =>
    obtain ⟨hfails, hwhy⟩ := failsWith_step refusal h hs
    exact ⟨hreached, hgenuine, hhand, by simpa using hfails, fun e he => hwhy e (by simpa using he)⟩
  | some e =>
    have haft := (Aftermath.refl h.failed).step hcrash hs
    refine ⟨hreached, hgenuine, hhand, haft.failed, fun e' he' => ?_⟩
    simp only [Option.some_or, Option.some.injEq] at he'
    subst he'
    exact (h.culprit e rfl).step h.failed hcrash hs

/-- **What is logged says why.** In every run, whatever is delivered, answered
and refused in whatever order and through any restarts: a process whose
stream has failed logs one line and one that runs logs none, and the line
says which text could not be read or was no event, which event the database
refused this process and with what exception, or that it refused a commit of
this process. -/
theorem logs_why_it_failed (env : Env P σ) {log : P → List String} {acts : List (Answered P)} {s : State P σ}
    (h : Machine.run (step env) (State.init env log) (acts.map Prod.fst) = some s) :
    ∃ done, Machine.run (stepDone env) (State.init env log, none) acts = some (s, done) ∧
      (logged done).length = (if s.jvm.failed then 1 else 0) ∧ ∀ line ∈ logged done, Culprit env log acts s line := by
  have hlift : ∀ (x : State P σ × Option Throwable) (a : Answered P) (t : State P σ), step env x.1 a.1 = some t →
      ∃ y, stepDone env x a = some y ∧ y.1 = t := by
    intro x a t ht
    exact ⟨_, by rw [stepDone, ht, Option.map_some], rfl⟩
  obtain ⟨⟨s', done⟩, hrun, rfl⟩ := Machine.run_lift hlift (x := (State.init env log, none)) h
  have hexplained : Explained env log acts s' done := by
    refine Machine.run_induction (I := fun acts x => Explained env log acts x.1 x.2) (explained_init env log) ?_
      (Machine.meets_true _ acts) hrun
    intro bs x a y hI _ hstep
    obtain ⟨t, ht, rfl⟩ := Option.map_eq_some_iff.1 hstep
    exact hI.step ht
  refine ⟨done, hrun, ?_, ?_⟩
  · rw [hexplained.failed]
    cases done <;> rfl
  · intro line hline
    cases done with
    | none => cases hline
    | some e =>
      rw [logged, terminateWhenDone, List.mem_singleton] at hline
      rw [hline]
      exact hexplained.culprit e rfl

/-- An event is refused, and taken again by another process, for which it is refused for another reason. -/
def refusedTwice : List (Answered Unit) :=
  [(.deliver (), cannotConvert), (.complete 0 [.error (runtimeException "timeout")], cannotConvert), (.crash, cannotConvert),
    (.deliver (), cannotConvert), (.complete 0 [.error (runtimeException "full")], cannotConvert)]

/-- The line is one of the second process. -/
theorem logs_why_it_failed_refused : ∃ s done,
    Machine.run (stepDone textEnv) (State.init textEnv specLog, none) refusedTwice = some (s, done) ∧
      (logged done).length = 1 ∧ ∀ line ∈ logged done, Culprit textEnv specLog refusedTwice s line := by
  have hL : textEnv.libs.Documented := textLibs_documented
  have hacts : refusedTwice.map Prod.fst = [.deliver ()] ++ ([.complete 0 [.error (runtimeException "timeout")], .crash] ++
      ([.deliver ()] ++ [.complete 0 [.error (runtimeException "full")]])) := rfl
  obtain ⟨s, hrun, hfailed⟩ : ∃ s, Machine.run (step textEnv) (State.init textEnv specLog) (refusedTwice.map Prod.fst) =
      some s ∧ s.jvm.failed = true := by
    rw [hacts]
    exact ⟨_, Machine.run_append.2 ⟨_, run_deliver (e := JsonCodexSpec.event) hL rfl rfl rfl, Machine.run_append.2 ⟨_, rfl,
      Machine.run_append.2 ⟨_, run_deliver (e := JsonCodexSpec.event) hL rfl rfl rfl, rfl⟩⟩⟩, rfl⟩
  obtain ⟨done, hdone, hlines, hwhy⟩ := logs_why_it_failed textEnv hrun
  rw [hfailed, if_pos rfl] at hlines
  exact ⟨s, done, hdone, hlines, hwhy⟩

end Graph

end TransferDashboard
