/-
What one action of the stream can do, said once (`Step`, `step_sound`):
every invariant of runs is a case analysis of it.
-/
import TransferDashboard.Graph

namespace TransferDashboard

open Scala Joda Json Random Stage KeyedStore

namespace Graph

variable {P σ : Type} [DecidableEq P] {env : Env P σ}

/-- The outcomes of an action, each with what it takes to happen. -/
inductive Step (env : Env P σ) (s : State P σ) : Act P → State P σ → Prop
  | send {r : ProducerRecord} (ht : r.topic = topic) : Step env s (.send r)
      { s with log := Function.update s.log (env.partitioner r.key) (s.log (env.partitioner r.key) ++ [r.value]) }
  | sendElsewhere {r : ProducerRecord} (ht : r.topic ≠ topic) : Step env s (.send r) s
  | deliver {p : P} {payload : String} {insert : Future WriteRequest Unit} {random : σ}
      {process : MapAsync 1 (Delivery P)} (hf : s.jvm.failed = false) (hidle : s.jvm.process.slots = [])
      (hlog : (s.log p)[s.jvm.position p]? = some payload)
      (hmsg : processMessage env payload s.jvm.random = (.ok insert, random))
      (hslots : process.slots = [.running ⟨(p, s.jvm.position p), insert, false⟩]) : Step env s (.deliver p)
      { s with jvm := { s.jvm with
        position := Function.update s.jvm.position p (s.jvm.position p + 1)
        random
        process
        started := s.jvm.started ++ [⟨(p, s.jvm.position p), eventOf env payload, insert⟩] } }
  | deliverThrows {p : P} {payload : String} {e : Throwable} {random : σ} (hf : s.jvm.failed = false)
      (hidle : s.jvm.process.slots = []) (hlog : (s.log p)[s.jvm.position p]? = some payload)
      (hmsg : processMessage env payload s.jvm.random = (.error e, random)) :
      Step env s (.deliver p)
        { s with jvm := { s.jvm with random, failed := true, threw := some (p, s.jvm.position p) } }
  | store {i : Nat} {d : Delivery P} (hrun : s.jvm.process.running? i = some d) (hd : d.stored = false) :
      Step env s (.store i) { s with
        rows := s.rows.store d.insert.requests
        jvm := { s.jvm with process := s.jvm.process.set i (.running { d with stored := true }) } }
  | complete {i : Nat} {answers : List (Try Bool)} {d : Delivery P} (hf : s.jvm.failed = false)
      (hrun : s.jvm.process.running? i = some d) (hans : d.mayAnswer answers = true)
      (hok : d.insert.outcome answers = .ok ()) : Step env s (.complete i answers) { s with
        jvm := { s.jvm with process := s.jvm.process.set i (.completed d) }
        succeeded := s.succeeded ++ [d.offset] }
  | completeFails {i : Nat} {answers : List (Try Bool)} {d : Delivery P} {e : Throwable}
      (hf : s.jvm.failed = false) (hrun : s.jvm.process.running? i = some d) (hans : d.mayAnswer answers = true)
      (herr : d.insert.outcome answers = .error e) :
      Step env s (.complete i answers) { s with jvm := { s.jvm with failed := true } }
  | aggregate {d : Delivery P} {process : MapAsync 1 (Delivery P)} {batch : Batch 20 (Offset P)}
      (hf : s.jvm.failed = false) (hslots : s.jvm.process.slots = .completed d :: process.slots)
      (hpush : s.jvm.batch.push? d.offset = some batch) :
      Step env s .aggregate { s with jvm := { s.jvm with process, batch } }
  | flush {offsets : List (Offset P)} {batch : Batch 20 (Offset P)} {commits : MapAsync 3 (Commit P)}
      (hf : s.jvm.failed = false) (hflush : s.jvm.batch.flush? = some (offsets, batch))
      (hslots : commits.slots = s.jvm.commits.slots ++ [.running ⟨offsets, false⟩]) :
      Step env s .flush { s with jvm := { s.jvm with batch, commits } }
  | applyCommit {i : Nat} {c : Commit P} (hrun : s.jvm.commits.running? i = some c) (hc : c.applied = false) :
      Step env s (.applyCommit i) { s with
        committed := (CommittableOffsetBatch.of c.offsets).commit s.committed
        jvm := { s.jvm with commits := s.jvm.commits.set i (.running { c with applied := true }) } }
  | completeCommit {i : Nat} {c : Commit P} (hf : s.jvm.failed = false)
      (hrun : s.jvm.commits.running? i = some c) (hc : c.applied = true) : Step env s (.completeCommit i true)
        { s with jvm := { s.jvm with commits := s.jvm.commits.set i (.completed c) } }
  | commitFails {i : Nat} {c : Commit P} (hf : s.jvm.failed = false)
      (hrun : s.jvm.commits.running? i = some c) :
      Step env s (.completeCommit i false) { s with jvm := { s.jvm with failed := true } }
  | sink {c : Commit P} {commits : MapAsync 3 (Commit P)} (hf : s.jvm.failed = false)
      (hslots : s.jvm.commits.slots = .completed c :: commits.slots) :
      Step env s .sink { s with jvm := { s.jvm with commits } }
  | crash : Step env s .crash { s with jvm := .start env s.committed }

theorem step_sound {s s' : State P σ} {a : Act P} (h : step env s a = some s') : Step env s a s' := by
  cases a with
  | send r =>
    simp only [step] at h
    split at h
    next ht => simp only [Option.some.injEq] at h; subst h; exact .send ht
    next ht => simp only [Option.some.injEq] at h; subst h; exact .sendElsewhere ht
  | deliver p =>
    simp only [step] at h
    split at h
    · cases h
    next hidle =>
    rw [not_or, Bool.not_eq_true, Nat.not_le, Nat.lt_one_iff, List.length_eq_zero_iff] at hidle
    split at h
    · cases h
    next payload hlog =>
    split at h
    next e random hmsg => simp only [Option.some.injEq] at h; subst h; exact .deliverThrows hidle.1 hidle.2 hlog hmsg
    next insert random hmsg =>
    obtain ⟨process, hpush, rfl⟩ := Option.map_eq_some_iff.1 h
    have hslots := (MapAsync.push?_eq_some hpush).2
    rw [hidle.2] at hslots
    exact .deliver hidle.1 hidle.2 hlog hmsg hslots
  | store i =>
    simp only [step] at h
    split at h
    next d hrun =>
      split at h
      · cases h
      next hd => simp only [Option.some.injEq] at h; subst h; exact .store hrun (Bool.eq_false_iff.2 hd)
    · cases h
  | complete i answers =>
    simp only [step] at h
    split at h
    next d hrun =>
      split at h
      · cases h
      next hgo =>
      rw [not_or, Bool.not_eq_true, not_not] at hgo
      split at h
      next hok => simp only [Option.some.injEq] at h; subst h; exact .complete hgo.1 hrun hgo.2 hok
      next herr => simp only [Option.some.injEq] at h; subst h; exact .completeFails hgo.1 hrun hgo.2 herr
    · cases h
  | aggregate =>
    simp only [step] at h
    split at h
    · cases h
    next hf =>
    split at h
    next d process hemit =>
      obtain ⟨batch, hpush, rfl⟩ := Option.map_eq_some_iff.1 h
      exact .aggregate (Bool.eq_false_iff.2 hf) (MapAsync.emit?_eq_some.1 hemit) hpush
    · cases h
  | flush =>
    simp only [step] at h
    split at h
    · cases h
    next hf =>
    split at h
    next offsets batch hflush =>
      obtain ⟨commits, hpush, rfl⟩ := Option.map_eq_some_iff.1 h
      exact .flush (Bool.eq_false_iff.2 hf) hflush (MapAsync.push?_eq_some hpush).2
    · cases h
  | applyCommit i =>
    simp only [step] at h
    split at h
    next c hrun =>
      split at h
      · cases h
      next hc => simp only [Option.some.injEq] at h; subst h; exact .applyCommit hrun (Bool.eq_false_iff.2 hc)
    · cases h
  | completeCommit i ok =>
    simp only [step] at h
    split at h
    next c hrun =>
      split at h
      · cases h
      next hf =>
      have hf := Bool.eq_false_iff.2 hf
      cases ok with
      | true =>
        simp only [if_true] at h
        split at h
        next hc => simp only [Option.some.injEq] at h; subst h; exact .completeCommit hf hrun hc
        · cases h
      | false =>
        simp only [Bool.false_eq_true, if_false, Option.some.injEq] at h
        subst h
        exact .commitFails hf hrun
    · cases h
  | sink =>
    simp only [step] at h
    split at h
    · cases h
    next hf =>
    obtain ⟨⟨c, commits⟩, hemit, rfl⟩ := Option.map_eq_some_iff.1 h
    exact .sink (Bool.eq_false_iff.2 hf) (MapAsync.emit?_eq_some.1 hemit)
  | crash =>
    simp only [step, Option.some.injEq] at h
    subst h
    exact .crash

/-! ## Nothing to do -/

/-- Nothing is on its way, and no message is left. -/
structure State.Idle (s : State P σ) : Prop where
  process : s.jvm.process.slots = []
  batch : s.jvm.batch.elems = []
  commits : s.jvm.commits.slots = []
  caughtUp : ∀ p, (s.log p).length ≤ s.jvm.position p

/-- All that can happen then is that something is sent, or the process is lost. -/
theorem State.Idle.step {s s' : State P σ} {a : Act P} (h : s.Idle) (hs : Step env s a s') :
    a = .crash ∨ a.sent? ≠ none := by
  have hprocess : ∀ i, s.jvm.process.running? i = none := by
    intro i
    rw [MapAsync.running?, h.process]
    rfl
  have hcommits : ∀ i, s.jvm.commits.running? i = none := by
    intro i
    rw [MapAsync.running?, h.commits]
    rfl
  cases hs with
  | send | sendElsewhere => exact .inr (Option.some_ne_none _)
  | crash => exact .inl rfl
  | @deliver p _ _ _ _ _ _ hlog | @deliverThrows p _ _ _ _ _ hlog =>
    rw [List.getElem?_eq_none (h.caughtUp p)] at hlog
    cases hlog
  | store hrun | complete _ hrun | completeFails _ hrun => rw [hprocess] at hrun; cases hrun
  | aggregate _ hslots => rw [h.process] at hslots; cases hslots
  | flush _ hflush => rw [Batch.flush?, if_pos h.batch] at hflush; cases hflush
  | applyCommit hrun | completeCommit _ hrun | commitFails _ hrun => rw [hcommits] at hrun; cases hrun
  | sink _ hslots => rw [h.commits] at hslots; cases hslots

/-! ## Answers -/

/-- An insert is answered `false` only where it was stored all the same. No
step asks it: it is an assumption on the database, for what is said of rows. -/
def FalseIsStored (s : State P σ) : Act P → Prop
  | .complete i answers => ∀ d, s.jvm.process.running? i = some d → .ok false ∈ answers → d.stored = true
  | _ => True

/-- Where no insert is answered `false`, nothing is assumed. -/
theorem falseIsStored_of_true {s : State P σ} {acts : List (Act P)}
    (h : ∀ a ∈ acts, ∀ i answers, a = .complete i answers → .ok false ∉ answers) :
    Machine.Meets (step env) FalseIsStored s acts := by
  refine Machine.meets_of_forall fun a ha s => ?_
  cases a with
  | complete i answers => exact fun d _ hfalse => absurd hfalse (h _ ha i answers rfl)
  | _ => trivial

omit [DecidableEq P]

theorem length_of_mayAnswer {d : Delivery P} {answers : List (Try Bool)} (hans : d.mayAnswer answers = true) :
    answers.length = d.insert.requests.length := by
  simp only [Delivery.mayAnswer, Bool.and_eq_true, beq_iff_eq] at hans
  exact hans.1

/-- An answer that is a Boolean then came after the database had stored the insert. -/
theorem stored_of_answered {d : Delivery P} {answers : List (Try Bool)} (hans : d.mayAnswer answers = true)
    (hfalse : .ok false ∈ answers → d.stored = true) (h : ∃ a ∈ answers, (Try.success? a).isSome = true) :
    d.stored = true := by
  obtain ⟨a, ha, hsome⟩ := h
  rcases a with _ | _ | _
  · cases hsome
  · exact hfalse ha
  · by_contra hnot
    rw [Bool.not_eq_true] at hnot
    simp only [Delivery.mayAnswer, hnot, Bool.false_or, Bool.and_eq_true, List.all_eq_true] at hans
    have htrue := hans.2 _ ha
    simp at htrue

end Graph

end TransferDashboard
