/-
What one process takes of each partition, and what all of them take
together.

From where it begins a process takes the messages of a partition one after
another (`Consecutive.step`), each when all before it have succeeded
(`Sequential.step`). So one that begins where another began, and takes the
partitions in the same order, issues the same inserts
(`same_start_same_inserts`). With commits that take effect in the order they
were sent it never begins behind where an earlier one did (`commits_advance`),
so what is not committed is what a crash gives back, and every crash gives
back so many at most: over a whole run `processMessage` is called for each
message once, and 82 times more for each crash (`deliveries_le`).
-/
import TransferDashboard.GraphBacklog
import TransferDashboard.GraphSafety
import TransferDashboard.Lib.Progress
import TransferDashboard.Lib.Streams

namespace TransferDashboard

open Scala Joda Json Random Stage KeyedStream CommitLog

namespace Graph

variable {P σ : Type} [DecidableEq P] {env : Env P σ}

/-- Of each partition the messages from `base` to the position were started, one after another. -/
def Consecutive (base : P → Nat) (s : State P σ) : Prop :=
  ∀ p, base p ≤ s.jvm.position p ∧ stream Prod.fst p s.jvm.startedOffsets =
    (List.range' (base p) (s.jvm.position p - base p)).map (Prod.mk p)

theorem consecutive_start {s : State P σ} {committed : P → Option Nat} (h : s.jvm = .start env committed) :
    Consecutive (fun p => (committed p).getD 0) s := by
  intro p
  rw [h]
  simp [Jvm.start, Jvm.startedOffsets]

theorem Consecutive.deliver {base : P → Nat} {s : State P σ} (h : Consecutive base s) {p : P} {random : σ}
    {process : MapAsync 1 (Delivery P)} {event : Option Event} {insert : Future WriteRequest Unit} :
    Consecutive base { s with jvm := { s.jvm with
      position := Function.update s.jvm.position p (s.jvm.position p + 1)
      random
      process
      started := s.jvm.started ++ [⟨(p, s.jvm.position p), event, insert⟩] } } := by
  intro q
  obtain ⟨hle, hspan⟩ := h q
  rw [startedOffsets_of_started rfl, stream_append, hspan]
  dsimp only
  by_cases hq : q = p
  · subst hq
    have hsucc : s.jvm.position q + 1 - base q = s.jvm.position q - base q + 1 := by omega
    have hlast : base q + 1 * (s.jvm.position q - base q) = s.jvm.position q := by omega
    rw [Function.update_self, hsucc, List.range'_concat, List.map_append, hlast]
    exact ⟨Nat.le_succ_of_le hle, congrArg _ (stream_self _)⟩
  · rw [Function.update_of_ne hq, stream_other (Ne.symm hq), List.append_nil]
    exact ⟨hle, rfl⟩

theorem Consecutive.step {base : P → Nat} {s s' : State P σ} {a : Act P} (h : Consecutive base s) (ha : a ≠ .crash)
    (hs : Step env s a s') : Consecutive base s' := by
  cases hs with
  | deliver => exact h.deliver
  | crash => exact absurd rfl ha
  | _ => exact h

/-! ## Begun at the same positions -/

/-- What succeeded did so after all before it in its partition, and so was
every message handed to `processMessage`. -/
structure Sequential (s : State P σ) : Prop where
  succeeded : ∀ before o after, s.succeeded = before ++ o :: after → Prefix {x | x ∈ before} o.1 o.2
  handed : ∀ o ∈ s.jvm.handed, Prefix s.done o.1 o.2
  ascending : Ascending s.jvm.startedOffsets
  behind : ∀ o ∈ s.jvm.startedOffsets, o.2 < s.jvm.position o.1

omit [DecidableEq P] in
theorem sequential_start {s : State P σ} {committed : P → Option Nat} (hjvm : s.jvm = .start env committed)
    (h : ∀ before o after, s.succeeded = before ++ o :: after → Prefix {x | x ∈ before} o.1 o.2) : Sequential s := by
  have hstarted : s.jvm.startedOffsets = [] := by rw [hjvm]; rfl
  have hhanded : s.jvm.handed = [] := by rw [hjvm]; rfl
  refine ⟨h, ?_, ?_, ?_⟩
  · rw [hhanded]
    intro o ho
    cases ho
  · rw [hstarted]
    exact List.Pairwise.nil
  · rw [hstarted]
    intro o ho
    cases ho

theorem Sequential.step {s s' : State P σ} {a : Act P} (h : Sequential s) (hsafe : Safe s) (hs : Step env s a s') :
    Sequential s' := by
  cases hs with
  | crash => exact sequential_start rfl h.succeeded
  | @deliverThrows p payload e random hf hidle hlog hmsg =>
    refine { h with handed := fun o ho => ?_ }
    rcases Jvm.mem_handed.1 ho with hold | hnew
    · exact h.handed o (Jvm.mem_handed.2 (.inl hold))
    · rw [← Option.some.inj hnew]
      exact hsafe.prefix_of_idle hidle p
  | @deliver p payload insert random process hf hidle hlog hmsg hslots =>
    refine { h with handed := fun o ho => ?_, ascending := ?_, behind := fun o ho => ?_ }
    · rw [Jvm.mem_handed, startedOffsets_of_started rfl, List.mem_append, List.mem_singleton] at ho
      rcases ho with (hold | rfl) | hthrew
      · exact h.handed o (Jvm.mem_handed.2 (.inl hold))
      · exact hsafe.prefix_of_idle hidle p
      · exact h.handed o (Jvm.mem_handed.2 (.inr hthrew))
    · rw [startedOffsets_of_started rfl]
      refine h.ascending.concat fun o ho hp => ?_
      have hlt := h.behind o ho
      rw [show o.1 = p from hp] at hlt
      exact hlt
    · rw [startedOffsets_of_started rfl] at ho
      by_cases hp : o.1 = p
      · simp only [hp, Function.update_self]
        rcases List.mem_append.1 ho with hold | hnew
        · have hlt := h.behind o hold
          rw [hp] at hlt
          exact Nat.lt_succ_of_lt hlt
        · rw [List.mem_singleton.1 hnew]
          exact Nat.lt_succ_self _
      · simp only [Function.update_of_ne hp]
        rcases List.mem_append.1 ho with hold | hnew
        · exact h.behind o hold
        · rw [List.mem_singleton.1 hnew] at hp
          exact absurd rfl hp
  | @complete i answers d hf hrun hans hok =>
    have hbefore : Prefix s.done d.offset.1 d.offset.2 := hsafe.process (.running d) (MapAsync.mem_of_running? hrun)
    refine { h with succeeded := fun before o after hsplit => ?_, handed := fun o ho => ?_ }
    · rcases split_concat hsplit with ⟨rfl, rfl⟩ | ⟨after', hold⟩
      · exact hbefore
      · exact h.succeeded before o after' hold
    · exact (h.handed o ho).mono fun x hx => List.mem_append_left _ hx
  | _ => exact { h with }

theorem sequential_run {log : P → List String} {acts : List (Act P)} {s : State P σ}
    (h : Machine.run (step env) (State.init env log) acts = some s) : Sequential s := by
  refine (Machine.run_invariant (I := fun s => Safe s ∧ Sequential s) ⟨safe_init log, ?_⟩ (fun t a t' hI hstep => ?_) h).2
  · refine sequential_start rfl fun before o after hsplit => ?_
    cases before <;> cases hsplit
  · have hs := step_sound hstep
    exact ⟨hI.1.step hs, hI.2.step hI.1 hs⟩

/-! ## Committed positions -/

/-- No position is taken back. -/
def Advances (c c' : P → Option Nat) : Prop := ∀ p n, c p = some n → ∃ n', c' p = some n' ∧ n ≤ n'

omit [DecidableEq P] in
theorem Advances.refl (c : P → Option Nat) : Advances c c := fun _ n hn => ⟨n, hn, Nat.le_refl n⟩

omit [DecidableEq P] in
theorem Advances.trans {c c' c'' : P → Option Nat} (h : Advances c c') (h' : Advances c' c'') : Advances c c'' := by
  intro p n hn
  obtain ⟨n', hn', hle⟩ := h p n hn
  obtain ⟨n'', hn'', hle'⟩ := h' p n' hn'
  exact ⟨n'', hn'', Nat.le_trans hle hle'⟩

omit [DecidableEq P] in
theorem Advances.getD_le {c c' : P → Option Nat} (h : Advances c c') (p : P) : (c p).getD 0 ≤ (c' p).getD 0 := by
  cases hc : c p with
  | none => exact Nat.zero_le _
  | some n =>
    obtain ⟨n', hn', hle⟩ := h p n hc
    rw [hn']
    exact hle

/-- Where a process stands: what it started of each partition begins no later
than the committed position and ends within the log. -/
structure Spans (s : State P σ) : Prop where
  backlog : ∃ gone, Backlog s gone
  consecutive : ∃ base : P → Nat, Consecutive base s ∧ ∀ p, base p ≤ (s.committed p).getD 0
  within : ∀ p, s.jvm.position p ≤ (s.log p).length

theorem spans_init (log : P → List String) : Spans (State.init env log) where
  backlog := ⟨[], backlog_start rfl⟩
  consecutive := ⟨_, consecutive_start rfl, fun _ => Nat.le_refl _⟩
  within _ := Nat.zero_le _

theorem Spans.advances {s s' : State P σ} {a : Act P} (h : Spans s) (hord : CommitsInOrder s a)
    (hs : Step env s a s') : Advances s.committed s'.committed := by
  cases hs with
  | applyCommit hrun hc =>
    obtain ⟨gone, hbacklog⟩ := h.backlog
    exact fun p n hn => hbacklog.commit_le hrun hc hord hn
  | _ => exact .refl _

/-- A process is never ahead of the log. -/
theorem Spans.within_step {s s' : State P σ} {a : Act P} (h : Spans s) (hs : Step env s a s') (p : P) :
    s'.jvm.position p ≤ (s'.log p).length := by
  cases hs with
  | @send r ht =>
    have hle := h.within p
    by_cases hp : p = env.partitioner r.key
    · subst hp
      simp only [Function.update_self, List.length_append]
      omega
    · simp only [Function.update_of_ne hp]
      exact hle
  | @deliver q payload insert random process hf hidle hlog hmsg hslots =>
    by_cases hp : p = q
    · subst hp
      obtain ⟨hlt, -⟩ := List.getElem?_eq_some_iff.1 hlog
      simp only [Function.update_self]
      exact hlt
    · simp only [Function.update_of_ne hp]
      exact h.within p
  | crash =>
    obtain ⟨gone, hbacklog⟩ := h.backlog
    have hpos : (s.committed p).getD 0 ≤ s.jvm.position p := by
      cases hn : s.committed p with
      | none => exact Nat.zero_le _
      | some n => exact hbacklog.behind p n hn
    exact Nat.le_trans hpos (h.within p)
  | _ => exact h.within p

theorem Spans.step {s s' : State P σ} {a : Act P} (h : Spans s) (hord : CommitsInOrder s a) (hs : Step env s a s') :
    Spans s' := by
  obtain ⟨gone, hbacklog⟩ := h.backlog
  obtain ⟨base, hspan, hbase⟩ := h.consecutive
  refine ⟨hbacklog.step hord hs, ?_, h.within_step hs⟩
  by_cases ha : a = .crash
  · subst ha
    cases hs with
    | crash => exact ⟨_, consecutive_start rfl, fun _ => Nat.le_refl _⟩
  · exact ⟨base, hspan.step ha hs, fun p => Nat.le_trans (hbase p) ((h.advances hord hs).getD_le p)⟩

/-- What holds in every state reached with commits in order. -/
theorem spans_run {log : P → List String} {acts : List (Act P)} {s : State P σ}
    (hord : Machine.Meets (step env) CommitsInOrder (State.init env log) acts)
    (h : Machine.run (step env) (State.init env log) acts = some s) : Spans s :=
  Machine.run_induction (I := fun _ s => Spans s) (spans_init log)
    (fun _ _ _ _ hI hG hstep => hI.step hG (step_sound hstep)) hord h

/-- **Committed positions only advance.** From any state reached, through any
failures and crashes, no partition's position goes back or is forgotten, and
none is past the partition's end. -/
theorem commits_advance (env : Env P σ) {log : P → List String} {acts more : List (Act P)} {s s' : State P σ}
    (hord : Machine.Meets (step env) CommitsInOrder (State.init env log) acts)
    (h : Machine.run (step env) (State.init env log) acts = some s)
    (hord' : Machine.Meets (step env) CommitsInOrder s more) (h' : Machine.run (step env) s more = some s') :
    ∀ p n, s.committed p = some n → ∃ n', s'.committed p = some n' ∧ n ≤ n' ∧ n' ≤ (s'.log p).length := by
  obtain ⟨hspans, hadvance⟩ : Spans s' ∧ Advances s.committed s'.committed := by
    refine Machine.run_induction (I := fun _ t => Spans t ∧ Advances s.committed t.committed)
      ⟨spans_run hord h, .refl _⟩ (fun _ t a t' hI hG hstep => ?_) hord' h'
    have hs := step_sound hstep
    exact ⟨hI.1.step hG hs, hI.2.trans (hI.1.advances hG hs)⟩
  intro p n hn
  obtain ⟨n', hn', hle⟩ := hadvance p n hn
  obtain ⟨gone, hbacklog⟩ := hspans.backlog
  exact ⟨n', hn', hle, Nat.le_trans (hbacklog.behind p n' hn') (hspans.within p)⟩

theorem specCommitted_in_order :
    Machine.Meets (step textEnv) CommitsInOrder (State.init textEnv specLog) (handle () ++ commitBatch) :=
  (lined_init _).meets (by simp [handle, commitBatch]) run_specCommitted

/-- A commit outlives the process that sent it. -/
theorem commits_advance_restart : ∃ n',
    ({ specCommitted with jvm := .start textEnv specCommitted.committed } : State Unit Java.Seed).committed () = some n' ∧
      1 ≤ n' ∧ n' ≤ 1 := by
  have hord : Machine.Meets (step textEnv) CommitsInOrder specCommitted [.crash] := ⟨trivial, fun _ _ => trivial⟩
  exact commits_advance textEnv specCommitted_in_order run_specCommitted hord rfl () 1 rfl

/-! ## What a crash gives back -/

omit [DecidableEq P] in
theorem covers_iff {s : State P σ} {p : P} {o : Nat} : s.Covers (p, o) ↔ o < (s.committed p).getD 0 := by
  cases hn : s.committed p <;> simp [State.Covers, hn]

theorem filter_range' {b c e : Nat} (hbc : b ≤ c) (hce : c ≤ e) :
    (List.range' b (e - b)).filter (fun o => ¬ o < c) = List.range' c (e - c) := by
  have hsplit : List.range' b (e - b) = List.range' b (c - b) ++ List.range' c (e - c) := by
    have happend := List.range'_append_1 (s := b) (m := c - b) (n := e - c)
    rw [Nat.add_sub_cancel' hbc, show c - b + (e - c) = e - b by omega] at happend
    exact happend.symm
  rw [hsplit, List.filter_append, List.filter_eq_nil_iff.2, List.filter_eq_self.2, List.nil_append]
  · intro o ho
    obtain ⟨hlow, -⟩ := List.mem_range'_1.1 ho
    simpa using hlow
  · intro o ho
    obtain ⟨-, hhigh⟩ := List.mem_range'_1.1 ho
    simpa using (by omega : o < c)

/-- Of each partition, a crash gives back what is between the committed position and the process's. -/
theorem Spans.stream_backlog {s : State P σ} (h : Spans s) (p : P) :
    stream Prod.fst p (s.backlog.map Started.offset) =
      (List.range' ((s.committed p).getD 0) (s.jvm.position p - (s.committed p).getD 0)).map (Prod.mk p) := by
  obtain ⟨gone, hbacklog⟩ := h.backlog
  obtain ⟨base, hspan, hbase⟩ := h.consecutive
  have hle : (s.committed p).getD 0 ≤ s.jvm.position p := by
    cases hn : s.committed p with
    | none => exact Nat.zero_le _
    | some n => exact hbacklog.behind p n hn
  have hcomm : stream Prod.fst p (s.jvm.startedOffsets.filter fun o => ¬ s.Covers o) =
      (stream Prod.fst p s.jvm.startedOffsets).filter fun o => ¬ s.Covers o := by
    simp only [stream, List.filter_filter, Bool.and_comm]
  rw [backlog_offsets, hcomm, (hspan p).2, List.filter_map, ← filter_range' (hbase p) hle]
  simp only [Function.comp_def, covers_iff]

theorem Spans.sum_position_le [Fintype P] {s : State P σ} (h : Spans s) :
    ∑ p, s.jvm.position p ≤ ∑ p, (s.committed p).getD 0 + s.backlog.length := by
  have hlen : s.backlog.length = ∑ p, (s.jvm.position p - (s.committed p).getD 0) := by
    rw [← List.length_map Started.offset, length_eq_sum_stream Prod.fst]
    refine Finset.sum_congr rfl fun p _ => ?_
    rw [h.stream_backlog, List.length_map, List.length_range']
  rw [hlen, ← Finset.sum_add_distrib]
  exact Finset.sum_le_sum fun p _ => by omega

/-! ## Deliveries -/

def Act.isDeliver : Act P → Bool
  | .deliver _ => true
  | _ => false

def Act.isCrash : Act P → Bool
  | .crash => true
  | _ => false

/-- The calls of `processMessage` in a run. -/
def deliveries (acts : List (Act P)) : Nat := acts.countP Act.isDeliver

def crashes (acts : List (Act P)) : Nat := acts.countP Act.isCrash

omit [DecidableEq P] in
theorem deliveries_concat (acts : List (Act P)) (a : Act P) :
    deliveries (acts ++ [a]) = deliveries acts + if a.isDeliver then 1 else 0 := by
  rw [deliveries, List.countP_append, List.countP_singleton]
  rfl

omit [DecidableEq P] in
theorem crashes_concat (acts : List (Act P)) (a : Act P) :
    crashes (acts ++ [a]) = crashes acts + if a.isCrash then 1 else 0 := by
  rw [crashes, List.countP_append, List.countP_singleton]
  rfl

/-- The deliveries so far are paid for: by the positions, by the crashes, and
by the one call that threw, whose process does nothing more. -/
structure Paid [Fintype P] (acts : List (Act P)) (s : State P σ) (threw : Nat) : Prop where
  room : threw + s.jvm.process.slots.length ≤ 1
  failed : s.jvm.failed = false → threw = 0
  paid : deliveries acts ≤ ∑ p, s.jvm.position p + 82 * crashes acts + threw

omit [DecidableEq P] in
/-- What neither delivers nor crashes costs nothing. -/
theorem Paid.keep [Fintype P] {acts : List (Act P)} {s s' : State P σ} {a : Act P} {threw : Nat}
    (h : Paid acts s threw) (hdeliver : a.isDeliver = false) (hcrash : a.isCrash = false)
    (hposition : s'.jvm.position = s.jvm.position)
    (hslots : s'.jvm.process.slots.length ≤ s.jvm.process.slots.length)
    (hf : s'.jvm.failed = false → s.jvm.failed = false) : Paid (acts ++ [a]) s' threw where
  room := Nat.le_trans (Nat.add_le_add_left hslots threw) h.room
  failed hf' := h.failed (hf hf')
  paid := by simpa [deliveries_concat, crashes_concat, hdeliver, hcrash, hposition] using h.paid

theorem Paid.step [Fintype P] {acts : List (Act P)} {s s' : State P σ} {a : Act P} {threw : Nat}
    (h : Paid acts s threw) (hspans : Spans s) (hs : Step env s a s') : ∃ threw', Paid (acts ++ [a]) s' threw' := by
  have hpaid := h.paid
  cases hs with
  | @deliver p payload insert random process hf hidle hlog hmsg hslots =>
    refine ⟨0, ⟨?_, fun _ => rfl, ?_⟩⟩
    · simp [hslots]
    · have hsum := Machine.sum_update s.jvm.position p (s.jvm.position p + 1)
      have hthrew := h.failed hf
      rw [deliveries_concat, crashes_concat]
      simp only [Act.isDeliver, Act.isCrash, if_true, Bool.false_eq_true, if_false]
      omega
  | @deliverThrows p payload e random hf hidle hlog hmsg =>
    refine ⟨1, ⟨?_, fun hf' => ?_, ?_⟩⟩
    · simp [hidle]
    · cases hf'
    · have hthrew := h.failed hf
      rw [deliveries_concat, crashes_concat]
      simp only [Act.isDeliver, Act.isCrash, if_true, Bool.false_eq_true, if_false]
      omega
  | crash =>
    obtain ⟨gone, hbacklog⟩ := hspans.backlog
    refine ⟨0, ⟨?_, fun _ => rfl, ?_⟩⟩
    · simp [Jvm.start]
    · have hroom := h.room
      have hback := hspans.sum_position_le
      have hle := hbacklog.backlog_length_le
      rw [deliveries_concat, crashes_concat]
      simp only [Act.isDeliver, Act.isCrash, if_true, Bool.false_eq_true, if_false, Jvm.start]
      omega
  | aggregate hf hslots => exact ⟨threw, h.keep rfl rfl rfl (by simp [hslots]) id⟩
  | store | complete => exact ⟨threw, h.keep rfl rfl rfl (by simp) id⟩
  | completeFails hf | commitFails hf => exact ⟨threw, h.keep rfl rfl rfl (Nat.le_refl _) fun _ => hf⟩
  | _ => exact ⟨threw, h.keep rfl rfl rfl (Nat.le_refl _) id⟩

theorem paid_run [Fintype P] {log : P → List String} {acts : List (Act P)} {s : State P σ}
    (hord : Machine.Meets (step env) CommitsInOrder (State.init env log) acts)
    (h : Machine.run (step env) (State.init env log) acts = some s) : Spans s ∧ ∃ threw, Paid acts s threw := by
  refine Machine.run_induction (I := fun acts s => Spans s ∧ ∃ threw, Paid acts s threw) ?_
    (fun acts t a t' hI hG hstep => ?_) hord h
  · exact ⟨spans_init log, 0, ⟨Nat.zero_le 1, fun _ => rfl, Nat.zero_le _⟩⟩
  · obtain ⟨hspans, threw, hpaid⟩ := hI
    have hs := step_sound hstep
    exact ⟨hspans.step hG hs, hpaid.step hspans hs⟩

/-- No position is past the log: the messages of the topic pay for the deliveries, and the crashes. -/
theorem Paid.le_topic [Fintype P] {acts : List (Act P)} {s : State P σ} {threw : Nat} (h : Paid acts s threw)
    (hspans : Spans s) :
    deliveries acts ≤ ∑ p, (s.log p).length + 82 * crashes acts + (if s.jvm.failed then 1 else 0) := by
  have hsum : ∑ p, s.jvm.position p ≤ ∑ p, (s.log p).length := Finset.sum_le_sum fun p _ => hspans.within p
  obtain ⟨hroom, hfailed, hpaid⟩ := h
  split
  · omega
  next hf =>
    have hthrew := hfailed (Bool.eq_false_iff.2 hf)
    omega

/-- **The price of crashes.** In a whole run, with commits in order,
`processMessage` is called once for each message of the topic and 82 times
more for each crash, at most; and once more where the last call threw. -/
theorem deliveries_le [Fintype P] (env : Env P σ) {log : P → List String} {acts : List (Act P)} {s : State P σ}
    (hord : Machine.Meets (step env) CommitsInOrder (State.init env log) acts)
    (h : Machine.run (step env) (State.init env log) acts = some s) :
    deliveries acts ≤ ∑ p, (s.log p).length + 82 * crashes acts + (if s.jvm.failed then 1 else 0) := by
  obtain ⟨hspans, threw, hpaid⟩ := paid_run hord h
  exact hpaid.le_topic hspans

/-- A message taken again after a crash. -/
theorem deliveries_after_crash : ∃ s,
    Machine.run (step textEnv) (State.init textEnv specLog) (handle () ++ .crash :: handle ()) = some s ∧
      deliveries (handle () ++ .crash :: handle ()) = 2 ∧
      deliveries (handle () ++ .crash :: handle ()) ≤
        ∑ p, (s.log p).length + 82 * crashes (handle () ++ .crash :: handle ()) + (if s.jvm.failed then 1 else 0) := by
  have hagain : Machine.run (step textEnv) { specHandled with jvm := .start textEnv specHandled.committed } (handle ()) =
      some _ := run_handle (e := JsonCodexSpec.event) textLibs_documented rfl rfl rfl rfl rfl
  have hrun : Machine.run (step textEnv) (State.init textEnv specLog) (handle () ++ .crash :: handle ()) = some _ :=
    Machine.run_append.2 ⟨_, run_specHandled, Machine.run_cons.2 ⟨_, rfl, hagain⟩⟩
  have hord : Machine.Meets (step textEnv) CommitsInOrder (State.init textEnv specLog) (handle () ++ .crash :: handle ()) :=
    (lined_init _).meets (by simp [handle]) hrun
  exact ⟨_, hrun, rfl, deliveries_le textEnv hord hrun⟩

end Graph

end TransferDashboard
