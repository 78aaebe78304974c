/-
At-least-once: no position is committed past a message that has not been
processed.

An offset is in one of four places on its way to a commit: being processed,
in the batch, in an outstanding commit, committed. `Safe` says of each place
that everything before an offset there is done, and `Safe.step` that every
action keeps it, failures and crashes included; `Genuine` says what being
done means. Every step is then a step of the abstract commit log
(`step_refines`), where safety is immediate.
-/
import TransferDashboard.GraphCommits
import TransferDashboard.GraphInserts
import TransferDashboard.Lib.CommitLog

namespace TransferDashboard

open Scala Joda Json Random Stage KeyedStore CommitLog

namespace Graph

variable {P σ : Type} [DecidableEq P] {env : Env P σ}

/-- The messages processed so far, in any JVM. -/
def State.done (s : State P σ) : Set (Offset P) := {o | o ∈ s.succeeded}

/-- Where an offset is on its way to a commit, everything before it is done;
and from the batch on, it is done itself. -/
structure Safe (s : State P σ) : Prop where
  commits : CommitsWithin (Prefix s.done) s
  process : ∀ slot ∈ s.jvm.process.slots, Prefix s.done slot.elem.offset.1 slot.elem.offset.2
  completed : ∀ d, .completed d ∈ s.jvm.process.slots → d.offset ∈ s.succeeded
  /-- What the consumer has moved past is done, or still being processed. -/
  position : ∀ p, ∀ o < s.jvm.position p, (p, o) ∈ s.succeeded ∨ ∃ slot ∈ s.jvm.process.slots, slot.elem.offset = (p, o)

omit [DecidableEq P] in
theorem safe_init (log : P → List String) : Safe (State.init env log) where
  commits := .init log
  process slot h := by cases h
  completed d h := by cases h
  position p o h := absurd h (Nat.not_lt_zero o)

omit [DecidableEq P] in
theorem State.done_complete (s : State P σ) (o : Offset P) :
    ({x | x ∈ s.succeeded ++ [o]} : Set (Offset P)) = insert o s.done := by
  ext x
  simp only [State.done, List.mem_append, List.mem_singleton, Set.mem_insert_iff, Set.mem_ofPred_eq]
  exact or_comm

omit [DecidableEq P] in
/-- A completed message and all before it are done. -/
theorem Safe.completed_prefix {s : State P σ} (h : Safe s) (d : Delivery P) (hd : .completed d ∈ s.jvm.process.slots) :
    Prefix s.done d.offset.1 (d.offset.2 + 1) :=
  Prefix.succ (h.process (.completed d) hd) (h.completed d hd)

omit [DecidableEq P] in
/-- With nothing in hand, all that the consumer has moved past is done. -/
theorem Safe.prefix_of_idle {s : State P σ} (h : Safe s) (hidle : s.jvm.process.slots = []) (p : P) :
    Prefix s.done p (s.jvm.position p) := by
  intro o ho
  rcases h.position p o ho with hdone | ⟨slot, hslot, -⟩
  · exact hdone
  · rw [hidle] at hslot; cases hslot

theorem Safe.step {s s' : State P σ} {a : Act P} (h : Safe s) (hs : Step env s a s') : Safe s' := by
  have hcommits : CommitsWithin (Prefix s.done) s' := h.commits.step hs h.completed_prefix
  cases hs with
  | send | sendElsewhere | deliverThrows | completeFails | commitFails | flush | applyCommit | completeCommit | sink =>
    exact { h with commits := hcommits }
  | @deliver p payload insert random process hf hidle hlog hmsg hslots =>
    have hpos : Prefix s.done p (s.jvm.position p) := h.prefix_of_idle hidle p
    have hmem : ∀ slot, slot ∈ process.slots ↔ slot = .running ⟨(p, s.jvm.position p), insert, false⟩ := by
      intro slot; rw [hslots, List.mem_singleton]
    refine { commits := hcommits, process := ?_, completed := ?_, position := ?_ }
    · intro slot hslot
      rw [(hmem slot).1 hslot]
      exact hpos
    · intro d hd
      cases (hmem _).1 hd
    · intro q o ho
      by_cases hq : q = p
      · subst hq
        simp only [Function.update_self] at ho
        rcases Nat.lt_succ_iff_lt_or_eq.1 ho with hlt | rfl
        · exact .inl (hpos o hlt)
        · exact .inr ⟨_, (hmem _).2 rfl, rfl⟩
      · simp only [Function.update_of_ne hq] at ho
        exact .inl (h.prefix_of_idle hidle q o ho)
  | @store i d hrun hd =>
    obtain ⟨rfl, hslots⟩ := MapAsync.slots_of_running? hrun
    have hrunning := MapAsync.mem_of_running? hrun
    refine { commits := hcommits, process := ?_, completed := ?_, position := ?_ }
    · intro slot hslot
      rcases MapAsync.mem_slots_set hslot with rfl | hold
      · exact h.process (.running d) hrunning
      · exact h.process slot hold
    · intro d' hd'
      rcases MapAsync.mem_slots_set hd' with heq | hold
      · cases heq
      · exact h.completed d' hold
    · intro p o ho
      rcases h.position p o ho with hdone | ⟨slot, hslot, hoff⟩
      · exact .inl hdone
      · rw [hslots, List.mem_singleton] at hslot
        exact .inr ⟨_, List.mem_set (by rw [hslots]; exact Nat.zero_lt_one) _, by rw [← hoff, hslot]; rfl⟩
  | @complete i answers d hf hrun hans hok =>
    obtain ⟨rfl, hslots⟩ := MapAsync.slots_of_running? hrun
    have hsub : s.done ⊆ insert d.offset s.done := Set.subset_insert _ _
    have honly : ∀ slot, slot ∈ (s.jvm.process.set 0 (.completed d)).slots → slot = .completed d := by
      intro slot hslot
      rw [MapAsync.slots_set, hslots] at hslot
      exact List.mem_singleton.1 hslot
    rw [← State.done_complete] at hsub
    refine { commits := hcommits.mono fun _ _ hp => hp.mono hsub, process := ?_, completed := ?_, position := ?_ }
    · intro slot hslot
      rw [honly slot hslot]
      exact (h.process (.running d) (MapAsync.mem_of_running? hrun)).mono hsub
    · intro d' hd'
      cases honly _ hd'
      exact List.mem_append_right _ (List.mem_singleton_self _)
    · intro p o ho
      left
      rcases h.position p o ho with hdone | ⟨slot, hslot, hoff⟩
      · exact List.mem_append_left _ hdone
      · rw [hslots, List.mem_singleton] at hslot
        exact List.mem_append_right _ (by rw [← hoff, hslot]; exact List.mem_singleton_self _)
  | @aggregate d process batch hf hslots hpush =>
    -- The slot that leaves was completed: its offset is done.
    have hd : d.offset ∈ s.succeeded := h.completed d (by rw [hslots]; exact List.mem_cons_self)
    refine { commits := hcommits, process := ?_, completed := ?_, position := ?_ }
    · intro slot hslot
      exact h.process slot (by rw [hslots]; exact List.mem_cons_of_mem _ hslot)
    · intro d' hd'
      exact h.completed d' (by rw [hslots]; exact List.mem_cons_of_mem _ hd')
    · intro p o ho
      rcases h.position p o ho with hdone | ⟨slot, hslot, hoff⟩
      · exact .inl hdone
      · rw [hslots] at hslot
        rcases List.mem_cons.1 hslot with rfl | hrest
        · exact .inl (by rw [← hoff]; exact hd)
        · exact .inr ⟨slot, hrest, hoff⟩
  | crash =>
    -- A restart keeps what is committed and forgets the rest.
    refine { commits := hcommits, process := ?_, completed := ?_, position := ?_ }
    · intro slot hslot
      cases hslot
    · intro d hd
      cases hd
    · intro p o ho
      left
      simp only [Jvm.start] at ho
      cases hc : s.committed p with
      | none => rw [hc] at ho; exact absurd ho (Nat.not_lt_zero o)
      | some n => rw [hc] at ho; exact h.commits.committed p n hc o ho

/-! ## What succeeded -/

/-- A message of the log, handed to `processMessage`. -/
def Handed (env : Env P σ) (log : P → List String) (d : Delivery P) : Prop :=
  ∃ payload random, (log d.offset.1)[d.offset.2]? = some payload ∧ (processMessage env payload random).1 = .ok d.insert

/-- The message at the offset was handed to `processMessage`, and its insert succeeded. -/
def Processed (env : Env P σ) (log : P → List String) (o : Offset P) : Prop :=
  ∃ d : Delivery P, d.offset = o ∧ Handed env log d ∧ ∃ answers, d.insert.outcome answers = .ok ()

/-- What is being processed are messages of the log, and so were those that succeeded. -/
structure Genuine (env : Env P σ) (s : State P σ) : Prop where
  slots : ∀ slot ∈ s.jvm.process.slots, Handed env s.log slot.elem
  succeeded : ∀ o ∈ s.succeeded, Processed env s.log o

omit [DecidableEq P] in
theorem genuine_init (log : P → List String) : Genuine env (State.init env log) where
  slots slot h := by cases h
  succeeded o h := by cases h

/-- A longer log holds what it held. -/
theorem Handed.append {log : P → List String} {d : Delivery P} (h : Handed env log d) (p : P) (value : String) :
    Handed env (Function.update log p (log p ++ [value])) d := by
  obtain ⟨payload, random, hget, hmsg⟩ := h
  exact ⟨payload, random, getElem?_update_append hget p value, hmsg⟩

theorem Genuine.step {s s' : State P σ} {a : Act P} (h : Genuine env s) (hs : Step env s a s') : Genuine env s' := by
  cases hs with
  | sendElsewhere | deliverThrows | completeFails | commitFails | flush | applyCommit | completeCommit | sink =>
    exact { h with }
  | @send r ht =>
    refine { slots := fun slot hslot => (h.slots slot hslot).append _ _, succeeded := fun o ho => ?_ }
    obtain ⟨d, hd, hhanded, hanswers⟩ := h.succeeded o ho
    exact ⟨d, hd, hhanded.append _ _, hanswers⟩
  | @deliver p payload insert random process hf hidle hlog hmsg hslots =>
    refine { h with slots := fun slot hslot => ?_ }
    rw [hslots, List.mem_singleton] at hslot
    rw [hslot]
    exact ⟨payload, s.jvm.random, hlog, by rw [hmsg]; rfl⟩
  | @store i d hrun hd =>
    refine { h with slots := fun slot hslot => ?_ }
    rcases MapAsync.mem_slots_set hslot with rfl | hold
    · exact h.slots (.running d) (MapAsync.mem_of_running? hrun)
    · exact h.slots slot hold
  | @complete i answers d hf hrun hans hok =>
    have hhanded : Handed env s.log d := h.slots (.running d) (MapAsync.mem_of_running? hrun)
    refine { slots := fun slot hslot => ?_, succeeded := fun o ho => ?_ }
    · rcases MapAsync.mem_slots_set hslot with rfl | hold
      · exact hhanded
      · exact h.slots slot hold
    · rcases List.mem_append.1 ho with hold | hnew
      · exact h.succeeded o hold
      · rw [List.mem_singleton.1 hnew]
        exact ⟨d, rfl, hhanded, answers, hok⟩
  | @aggregate d process batch hf hslots hpush =>
    exact { h with slots := fun slot hslot => h.slots slot (by rw [hslots]; exact List.mem_cons_of_mem _ hslot) }
  | crash =>
    refine { h with slots := fun slot hslot => ?_ }
    cases hslot

/-! ## The abstract log -/

/-- A state as the commit log sees it: a partition never committed is at its beginning. -/
def State.abs (s : State P σ) : CommitLog.State P where
  done := s.done
  committed p := (s.committed p).getD 0

/-- Every action is a step of the commit log: an insert that succeeds is an
item done, a commit that takes effect moves positions, nothing else shows. -/
theorem step_refines {s s' : State P σ} {a : Act P} (h : Safe s) (hs : Step env s a s') :
    CommitLog.Step s.abs s'.abs := by
  cases hs with
  | @complete i answers d hf hrun hans hok =>
    have hstep := CommitLog.Step.process s.abs d.offset
    simp only [State.abs, ← State.done_complete] at hstep
    exact hstep
  | @applyCommit i c hrun hc =>
    refine CommitLog.Step.commit s.abs (fun p => ((CommittableOffsetBatch.of c.offsets).commit s.committed p).getD 0) ?_
    intro p
    rcases CommittableOffsetBatch.commit_cases c.offsets s.committed p with hsame | ⟨o, ho, hnew⟩
    · exact .inl (by rw [hsame]; rfl)
    · right
      rw [hnew]
      exact h.commits.commits (.running c) (MapAsync.mem_of_running? hrun) (p, o) ho
  | _ => exact CommitLog.Step.idle s.abs

/-- What holds in every reachable state. -/
theorem safe_run {log : P → List String} {acts : List (Act P)} {s : State P σ}
    (h : Machine.run (step env) (State.init env log) acts = some s) : Safe s ∧ Genuine env s ∧ Covered s.abs := by
  refine Machine.run_invariant (I := fun s => Safe s ∧ Genuine env s ∧ Covered s.abs) ?_ ?_ h
  · exact ⟨safe_init log, genuine_init log, fun p => Prefix.zero _ p⟩
  · intro t a t' ⟨hsafe, hgenuine, hcovered⟩ hstep
    have hs := step_sound hstep
    exact ⟨hsafe.step hs, hgenuine.step hs, hcovered.step (step_refines hsafe hs)⟩

/-- **At least once.** In every state reached, by any run over any
partitions: whatever lies below a committed position was processed
successfully, and an offset that is in the batch or in a commit still out is
there only with every message up to it processed successfully. What counts
as that is a message of the log whose insert succeeded. -/
theorem at_least_once (env : Env P σ) {log : P → List String} {acts : List (Act P)} {s : State P σ}
    (h : Machine.run (step env) (State.init env log) acts = some s) (p : P) :
    (∀ n, s.committed p = some n → ∀ o < n, (p, o) ∈ s.succeeded) ∧
      (∀ slot ∈ s.jvm.commits.slots, ∀ o', (p, o') ∈ slot.elem.offsets → ∀ o ≤ o', (p, o) ∈ s.succeeded) ∧
      (∀ o', (p, o') ∈ s.jvm.batch.held → ∀ o ≤ o', (p, o) ∈ s.succeeded) ∧
      ∀ o, (p, o) ∈ s.succeeded → Processed env s.log (p, o) := by
  obtain ⟨hsafe, hgenuine, hcovered⟩ := safe_run h
  refine ⟨?_, ?_, ?_, fun o ho => hgenuine.succeeded (p, o) ho⟩
  · intro n hn o ho
    refine hcovered p o ?_
    simp only [State.abs, hn, Option.getD_some]
    exact ho
  · intro slot hslot o' ho' o ho
    exact hsafe.commits.commits slot hslot (p, o') ho' o (Nat.lt_succ_of_le ho)
  · intro o' ho' o ho
    exact hsafe.commits.batch (p, o') ho' o (Nat.lt_succ_of_le ho)

/-- One partition is committed. The commit of the other is refused, and after
a restart its message is taken again and sent to be committed. -/
def troubled : List (Act Bool) :=
  handle true ++ (commitBatch ++ (handle false ++ .flush :: .completeCommit 0 false :: .crash ::
    (handle false ++ .flush :: handle true)))

theorem run_troubled : ∃ s, Machine.run (step pairEnv) (State.init pairEnv (repeated 2)) troubled = some s ∧
    s.committed true = some 1 ∧ .running ⟨[(false, 0)], false⟩ ∈ s.jvm.commits.slots ∧
      (true, 1) ∈ s.jvm.batch.held := by
  have hL : pairEnv.libs.Documented := textLibs_documented
  have hrun : Machine.run (step pairEnv) (State.init pairEnv (repeated 2)) troubled = some _ :=
    Machine.run_append.2 ⟨_, run_handle (e := JsonCodexSpec.event) hL rfl rfl rfl rfl rfl, Machine.run_append.2
      ⟨_, run_commitBatch rfl rfl rfl, Machine.run_append.2 ⟨_, run_handle (e := JsonCodexSpec.event) hL rfl rfl rfl rfl rfl,
        Machine.run_cons.2 ⟨_, rfl, Machine.run_cons.2 ⟨_, rfl, Machine.run_cons.2 ⟨_, rfl, Machine.run_append.2
          ⟨_, run_handle (e := JsonCodexSpec.event) hL rfl rfl rfl rfl rfl, Machine.run_cons.2
            ⟨_, rfl, run_handle (e := JsonCodexSpec.event) hL rfl rfl rfl rfl rfl⟩⟩⟩⟩⟩⟩⟩⟩
  exact ⟨_, hrun, rfl, List.mem_singleton.2 rfl, List.mem_singleton.2 rfl⟩

/-- What is committed, in a commit or in the batch was processed, before the crash or after it. -/
theorem at_least_once_troubled : ∃ s, Machine.run (step pairEnv) (State.init pairEnv (repeated 2)) troubled = some s ∧
    (true, 0) ∈ s.succeeded ∧ (false, 0) ∈ s.succeeded ∧ (true, 1) ∈ s.succeeded ∧
      Processed pairEnv s.log (true, 1) := by
  obtain ⟨s, hrun, hcommitted, hout, hbatch⟩ := run_troubled
  obtain ⟨hbelow, -, hheld, hprocessed⟩ := at_least_once pairEnv hrun true
  obtain ⟨-, hcommits, -, -⟩ := at_least_once pairEnv hrun false
  have hlast : (true, 1) ∈ s.succeeded := hheld 1 hbatch 1 (Nat.le_refl 1)
  exact ⟨s, hrun, hbelow 1 hcommitted 0 Nat.zero_lt_one,
    hcommits _ hout 0 (List.mem_singleton.2 rfl) 0 (Nat.le_refl 0), hlast, hprocessed 1 hlast⟩

end Graph

end TransferDashboard
