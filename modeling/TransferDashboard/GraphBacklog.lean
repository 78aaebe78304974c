/-
Bounded redelivery: what a restart processes again.

Of what a process has started, the older part is committed, and the rest is
on its way: in a commit that is out, in the batch, or being processed, where
each stage has room for so many (`Backlog.rest_length_le`). Commits that take
effect in the order they were sent never take a position back, so what was
covered stays covered, and `Backlog.step` keeps the three parts apart.
-/
import TransferDashboard.GraphCommits
import TransferDashboard.GraphInserts

namespace TransferDashboard

open Scala Joda Json Random Stage

namespace Graph

variable {P σ : Type} [DecidableEq P] {env : Env P σ}

/-- A commit has taken effect that is past the offset. -/
def State.Covers (s : State P σ) (o : Offset P) : Prop := ∃ n, s.committed o.1 = some n ∧ o.2 < n

instance (s : State P σ) (o : Offset P) : Decidable (s.Covers o) :=
  match h : s.committed o.1 with
  | none => isFalse fun ⟨_, hn, _⟩ => by rw [h] at hn; cases hn
  | some n => decidable_of_iff (o.2 < n) (by simp [State.Covers, h])

/-- What this process has started and no commit covers. -/
def State.backlog (s : State P σ) : List (Started P) := s.jvm.started.filter fun m => ¬ s.Covers m.offset

/-- Commits take effect in the order they were sent: none does once a later one has. -/
def CommitsInOrder (s : State P σ) : Act P → Prop
  | .applyCommit i => ∀ c ∈ s.jvm.commits.elems.drop (i + 1), c.applied = false
  | _ => True

/-! ## The oldest first -/

/-- The commits that have taken effect are the older ones. -/
def Lined (s : State P σ) : Prop :=
  s.jvm.commits.elems.Pairwise fun c c' => c'.applied = true → c.applied = true

omit [DecidableEq P] in
theorem lined_init (log : P → List String) : Lined (State.init env log) := List.Pairwise.nil

omit [DecidableEq P] in
/-- The oldest commit may then take effect. -/
theorem Lined.in_order {s : State P σ} (h : Lined s) {c : Commit P} (hrun : s.jvm.commits.running? 0 = some c)
    (hc : c.applied = false) : CommitsInOrder s (.applyCommit 0) := by
  obtain ⟨rest, hslots⟩ := MapAsync.slots_of_running?_zero hrun
  have helems : s.jvm.commits.elems = c :: rest.map Slot.elem := by rw [MapAsync.elems, hslots]; rfl
  rw [Lined, helems] at h
  intro c' hc'
  rw [helems] at hc'
  by_contra happlied
  have hfirst := (List.pairwise_cons.1 h).1 c' hc' (Bool.eq_true_of_not_eq_false happlied)
  rw [hc] at hfirst
  cases hfirst

theorem Lined.step {s s' : State P σ} {a : Act P} (h : Lined s) (hfirst : ∀ i, a = .applyCommit i → i = 0)
    (hs : Step env s a s') : Lined s' := by
  cases hs with
  | @flush offsets batch commits hf hflush hslots =>
    have helems : commits.elems = s.jvm.commits.elems ++ [⟨offsets, false⟩] := by
      rw [MapAsync.elems, hslots, List.map_append]
      rfl
    simp only [Lined, helems]
    refine List.pairwise_append.2 ⟨h, List.pairwise_singleton .., fun c _ c' hc' happlied => ?_⟩
    rw [List.mem_singleton.1 hc'] at happlied
    cases happlied
  | @applyCommit i c hrun hc =>
    obtain rfl := hfirst i rfl
    obtain ⟨rest, hslots⟩ := MapAsync.slots_of_running?_zero hrun
    simp only [Lined, MapAsync.elems, hslots, List.map_cons] at h
    simp only [Lined, MapAsync.elems, MapAsync.slots_set, hslots, List.set_cons_zero, List.map_cons]
    exact List.pairwise_cons.2 ⟨fun _ _ _ => rfl, (List.pairwise_cons.1 h).2⟩
  | @completeCommit i c hf hrun hc =>
    have helems : (s.jvm.commits.set i (.completed c)).elems = s.jvm.commits.elems := MapAsync.elems_set hrun rfl
    simp only [Lined, helems]
    exact h
  | @sink c commits hf hslots =>
    have helems : s.jvm.commits.elems = c :: commits.elems := by
      rw [MapAsync.elems, hslots]
      rfl
    rw [Lined, helems] at h
    exact (List.pairwise_cons.1 h).2
  | crash => exact List.Pairwise.nil
  | _ => exact h

/-- Where it is always the oldest commit that takes effect, they do in order. -/
theorem Lined.ok {s s' : State P σ} {a : Act P} (h : Lined s) (hfirst : ∀ i, a = .applyCommit i → i = 0)
    (hs : Step env s a s') : CommitsInOrder s a := by
  cases hs with
  | applyCommit hrun hc =>
    obtain rfl := hfirst _ rfl
    exact h.in_order hrun hc
  | _ => trivial

theorem Lined.meets {s s' : State P σ} {acts : List (Act P)} (h : Lined s)
    (hfirst : ∀ a ∈ acts, ∀ i, a = .applyCommit i → i = 0) (hrun : Machine.run (Graph.step env) s acts = some s') :
    Machine.Meets (Graph.step env) CommitsInOrder s acts := by
  induction acts generalizing s with
  | nil => trivial
  | cons a acts ih =>
    obtain ⟨t, ht, hrest⟩ := Machine.run_cons.1 hrun
    have hs := step_sound ht
    have ha := hfirst a List.mem_cons_self
    refine ⟨h.ok ha hs, fun t' ht' => ?_⟩
    rw [ht, Option.some.injEq] at ht'
    subst ht'
    exact ih (h.step ha hs) (fun a ha => hfirst a (List.mem_cons_of_mem _ ha)) hrest

/-! ## Ascending offsets -/

/-- The offsets of each partition ascend. -/
def Ascending (offsets : List (Offset P)) : Prop := offsets.Pairwise fun o o' => o.1 = o'.1 → o.2 < o'.2

omit [DecidableEq P] in
theorem Ascending.concat {l : List (Offset P)} {o : Offset P} (h : Ascending l)
    (ho : ∀ o' ∈ l, o'.1 = o.1 → o'.2 < o.2) : Ascending (l ++ [o]) := by
  refine List.pairwise_append.2 ⟨h, List.pairwise_singleton _ o, fun o' ho' o'' ho'' => ?_⟩
  rw [List.mem_singleton.1 ho'']
  exact ho o' ho'

/-- A batch of ascending offsets holds the last of each partition. -/
theorem CommittableOffsetBatch.le_of {offsets : List (Offset P)} (h : Ascending offsets) {o : Offset P}
    (ho : o ∈ offsets) : ∃ m, CommittableOffsetBatch.of offsets o.1 = some m ∧ o.2 ≤ m := by
  induction offsets using List.reverseRecOn with
  | nil => cases ho
  | append_singleton l a ih =>
    obtain ⟨hl, -, hla⟩ := List.pairwise_append.1 h
    rw [CommittableOffsetBatch.of_concat]
    by_cases hp : o.1 = a.1
    · refine ⟨a.2, by rw [hp]; exact Function.update_self .., ?_⟩
      rcases List.mem_append.1 ho with hold | hnew
      · exact Nat.le_of_lt (hla o hold a (List.mem_singleton_self a) hp)
      · rw [List.mem_singleton.1 hnew]
    · rcases List.mem_append.1 ho with hold | hnew
      · obtain ⟨m, hm, hle⟩ := ih hl hold
        exact ⟨m, by rw [← hm]; exact Function.update_of_ne hp .., hle⟩
      · exact absurd (by rw [List.mem_singleton.1 hnew]) hp

/-! ## Where what was started is -/

/-- The offsets in the stages, oldest first. -/
def Jvm.outstanding (jvm : Jvm P σ) : List (Offset P) :=
  jvm.commits.elems.flatMap Commit.offsets ++ jvm.batch.held ++ jvm.process.elems.map Delivery.offset

/-- An offset of a commit that has taken effect. -/
def State.Committed (s : State P σ) (gone : List (Offset P)) (o : Offset P) : Prop :=
  o ∈ gone ∨ ∃ c ∈ s.jvm.commits.elems, c.applied = true ∧ o ∈ c.offsets

/-- `gone` has left the stages, the rest is in them. A position stands just
after an offset that was committed, or before all that was started. -/
structure Backlog (s : State P σ) (gone : List (Offset P)) : Prop where
  started : s.jvm.startedOffsets = gone ++ s.jvm.outstanding
  ascending : Ascending s.jvm.startedOffsets
  position : ∀ o ∈ s.jvm.startedOffsets, o.2 < s.jvm.position o.1
  size : ∀ c ∈ s.jvm.commits.elems, c.offsets.length ≤ 20
  completed : ∀ c, .completed c ∈ s.jvm.commits.slots → c.applied = true
  covered : ∀ o, s.Committed gone o → s.Covers o
  behind : ∀ p n, s.committed p = some n → n ≤ s.jvm.position p
  committed : ∀ p n, s.committed p = some n →
    (∀ o, (p, o) ∈ s.jvm.startedOffsets → n ≤ o) ∨ ∃ o, n = o + 1 ∧ s.Committed gone (p, o)

omit [DecidableEq P] in
theorem backlog_start {s : State P σ} (h : s.jvm = .start env s.committed) : Backlog s [] := by
  have hstarted : s.jvm.startedOffsets = [] := by rw [h]; rfl
  have hcommits : s.jvm.commits = .empty := by rw [h]; rfl
  have hnone : ∀ o, ¬ s.Committed [] o := by
    intro o ho
    rcases ho with ho | ⟨c, hmem, -⟩
    · cases ho
    · rw [hcommits] at hmem; cases hmem
  refine ⟨?_, ?_, ?_, ?_, ?_, fun o ho => absurd ho (hnone o), ?_, ?_⟩
  · rw [h]; rfl
  · rw [hstarted]; exact List.Pairwise.nil
  · rw [hstarted]; intro o ho; cases ho
  · rw [hcommits]; intro c hc; cases hc
  · rw [hcommits]; intro c hc; cases hc
  · intro p n hn
    rw [h]
    simp [Jvm.start, hn]
  · intro p n hn
    left
    rw [hstarted]
    intro o ho
    cases ho

/-! ## Commits in order -/

section

variable {s : State P σ} {gone : List (Offset P)} {i : Nat} {c : Commit P} {p : P}

omit [DecidableEq P]

theorem Backlog.mem_started (h : Backlog s gone) (hc : c ∈ s.jvm.commits.elems) {o : Offset P}
    (ho : o ∈ c.offsets) : o ∈ s.jvm.startedOffsets := by
  have hout : o ∈ s.jvm.commits.elems.flatMap Commit.offsets := List.mem_flatMap.2 ⟨c, hc, ho⟩
  rw [h.started, Jvm.outstanding]
  exact List.mem_append_right _ (List.mem_append_left _ (List.mem_append_left _ hout))

theorem Backlog.ascending_offsets (h : Backlog s gone) (hc : c ∈ s.jvm.commits.elems) : Ascending c.offsets := by
  have hsub : c.offsets.Sublist (s.jvm.commits.elems.flatMap Commit.offsets) :=
    List.sublist_flatten_of_mem (List.mem_map_of_mem hc)
  have hasc := h.ascending
  rw [h.started, Jvm.outstanding, List.append_assoc] at hasc
  exact (List.pairwise_append.1 (List.pairwise_append.1 hasc).2.1).1.sublist hsub

/-- A commit that takes effect in its turn is past every one that has. -/
theorem Backlog.lt_of_committed (h : Backlog s gone) (hrun : s.jvm.commits.running? i = some c)
    (hc : c.applied = false) (hord : CommitsInOrder s (.applyCommit i)) {x o : Nat} (hx : s.Committed gone (p, x))
    (ho : (p, o) ∈ c.offsets) : x < o := by
  obtain ⟨pre, post, helems, hpost, -⟩ := MapAsync.elems_split hrun
  have hearlier : (p, x) ∈ gone ++ pre.flatMap Commit.offsets := by
    rcases hx with hgone | ⟨c', hc', happlied, hmem⟩
    · exact List.mem_append_left _ hgone
    · rw [helems, List.mem_append, List.mem_cons] at hc'
      rcases hc' with hpre | rfl | hlater
      · exact List.mem_append_right _ (List.mem_flatMap.2 ⟨c', hpre, hmem⟩)
      · rw [hc] at happlied; cases happlied
      · rw [hord c' (by rw [hpost]; exact hlater)] at happlied; cases happlied
  have hasc := h.ascending
  rw [h.started, Jvm.outstanding, helems, List.flatMap_append, List.flatMap_cons] at hasc
  simp only [List.append_assoc] at hasc
  rw [← List.append_assoc gone] at hasc
  exact (List.pairwise_append.1 hasc).2.2 (p, x) hearlier (p, o) (List.mem_append_left _ ho) rfl

end

/-- No position is taken back. -/
theorem Backlog.commit_le {s : State P σ} {gone : List (Offset P)} (h : Backlog s gone) {i : Nat} {c : Commit P}
    (hrun : s.jvm.commits.running? i = some c) (hc : c.applied = false) (hord : CommitsInOrder s (.applyCommit i))
    {p : P} {n : Nat} (hn : s.committed p = some n) :
    ∃ n', (CommittableOffsetBatch.of c.offsets).commit s.committed p = some n' ∧ n ≤ n' := by
  rcases CommittableOffsetBatch.commit_cases c.offsets s.committed p with hsame | ⟨o, ho, hnew⟩
  · exact ⟨n, by rw [hsame, hn], le_refl n⟩
  · refine ⟨o + 1, hnew, ?_⟩
    rcases h.committed p n hn with hbefore | ⟨x, rfl, hx⟩
    · exact Nat.le_succ_of_le (hbefore o (h.mem_started (MapAsync.mem_elems hrun) ho))
    · exact Nat.succ_le_succ (Nat.le_of_lt (h.lt_of_committed hrun hc hord hx ho))

omit [DecidableEq P] in
/-- When a commit takes effect, its offsets are committed with those that were. -/
theorem committed_applied {s : State P σ} (gone : List (Offset P)) {i : Nat} {c : Commit P}
    (hrun : s.jvm.commits.running? i = some c) (hc : c.applied = false) (o : Offset P) :
    (o ∈ gone ∨ ∃ c' ∈ (s.jvm.commits.set i (.running { c with applied := true })).elems,
      c'.applied = true ∧ o ∈ c'.offsets) ↔ s.Committed gone o ∨ o ∈ c.offsets := by
  refine ⟨fun h => ?_, fun h => ?_⟩
  · rcases h with hgone | ⟨c', hc', happlied, ho⟩
    · exact .inl (.inl hgone)
    · rcases MapAsync.mem_elems_set hrun hc' with rfl | hold
      · exact .inr ho
      · exact .inl (.inr ⟨c', hold, happlied, ho⟩)
  · rcases h with (hgone | ⟨c', hc', happlied, ho⟩) | hnew
    · exact .inl hgone
    · rcases MapAsync.mem_elems_of_mem hrun _ hc' with rfl | hin
      · rw [hc] at happlied; cases happlied
      · exact .inr ⟨c', hin, happlied, ho⟩
    · exact .inr ⟨{ c with applied := true }, MapAsync.elem_mem_elems_set hrun _, rfl, hnew⟩

theorem Backlog.applyCommit {s : State P σ} {gone : List (Offset P)} (h : Backlog s gone) {i : Nat} {c : Commit P}
    (hrun : s.jvm.commits.running? i = some c) (hc : c.applied = false)
    (hord : CommitsInOrder s (.applyCommit i)) : Backlog { s with
      committed := (CommittableOffsetBatch.of c.offsets).commit s.committed
      jvm := { s.jvm with commits := s.jvm.commits.set i (.running { c with applied := true }) } } gone := by
  have hmem : c ∈ s.jvm.commits.elems := MapAsync.mem_elems hrun
  have hnew := committed_applied gone hrun hc
  refine { h with started := ?_, size := ?_, completed := ?_, covered := ?_, behind := ?_, committed := ?_ }
  · obtain ⟨pre, post, helems, -, hset⟩ := MapAsync.elems_split hrun
    refine h.started.trans (congrArg (gone ++ ·) ?_)
    simp [Jvm.outstanding, hset, helems]
  · intro c' hc'
    rcases MapAsync.mem_elems_set hrun hc' with rfl | hold
    · exact h.size c hmem
    · exact h.size c' hold
  · intro c' hc'
    rcases MapAsync.mem_slots_set hc' with heq | hold
    · cases heq
    · exact h.completed c' hold
  · intro o ho
    rcases (hnew o).1 ho with hold | hin
    · obtain ⟨n, hn, hlt⟩ := h.covered o hold
      obtain ⟨n', hn', hle⟩ := h.commit_le hrun hc hord hn
      exact ⟨n', hn', Nat.lt_of_lt_of_le hlt hle⟩
    · obtain ⟨m, hm, hle⟩ := CommittableOffsetBatch.le_of (h.ascending_offsets hmem) hin
      exact ⟨m + 1, by simp only [CommittableOffsetBatch.commit, hm], Nat.lt_succ_of_le hle⟩
  · intro p n hn
    rcases CommittableOffsetBatch.commit_cases c.offsets s.committed p with hsame | ⟨o, ho, hcommit⟩
    · exact h.behind p n (by rw [← hsame]; exact hn)
    · simp only [hcommit, Option.some.injEq] at hn
      rw [← hn]
      exact h.position (p, o) (h.mem_started hmem ho)
  · intro p n hn
    rcases CommittableOffsetBatch.commit_cases c.offsets s.committed p with hsame | ⟨o, ho, hcommit⟩
    · refine (h.committed p n (by rw [← hsame]; exact hn)).imp_right fun hafter => ?_
      obtain ⟨o, hno, ho⟩ := hafter
      exact ⟨o, hno, (hnew (p, o)).2 (.inl ho)⟩
    · simp only [hcommit, Option.some.injEq] at hn
      exact .inr ⟨o, hn.symm, (hnew (p, o)).2 (.inr ho)⟩

/-! ## The other steps -/

omit [DecidableEq P] in
/-- What moves between the batch, the commits and what is gone stays started
and committed, or not. -/
theorem Backlog.of_commits {s : State P σ} {gone gone' : List (Offset P)} (h : Backlog s gone)
    {batch : Batch 20 (Offset P)} {commits : MapAsync 3 (Commit P)}
    (hout : gone' ++ (commits.elems.flatMap Commit.offsets ++ batch.held) =
      gone ++ (s.jvm.commits.elems.flatMap Commit.offsets ++ s.jvm.batch.held))
    (hsize : ∀ c ∈ commits.elems, c.offsets.length ≤ 20)
    (hcompleted : ∀ c, .completed c ∈ commits.slots → c.applied = true)
    (hcommitted : ∀ o, (o ∈ gone' ∨ ∃ c ∈ commits.elems, c.applied = true ∧ o ∈ c.offsets) ↔ s.Committed gone o) :
    Backlog { s with jvm := { s.jvm with batch, commits } } gone' := by
  refine { h with started := ?_, size := hsize, completed := hcompleted, covered := ?_, committed := ?_ }
  · refine h.started.trans ?_
    rw [Jvm.outstanding, Jvm.outstanding, ← List.append_assoc, ← hout, List.append_assoc]
  · exact fun o ho => h.covered o ((hcommitted o).1 ho)
  · intro p n hn
    refine (h.committed p n hn).imp_right fun hafter => ?_
    obtain ⟨o, hno, ho⟩ := hafter
    exact ⟨o, hno, (hcommitted (p, o)).2 ho⟩

/-- The message at the position of a partition is started. -/
theorem Backlog.deliver {s : State P σ} {gone : List (Offset P)} (h : Backlog s gone) {p : P} {d : Delivery P}
    {process : MapAsync 1 (Delivery P)} {random : σ} {event : Option Event} {insert : Future WriteRequest Unit}
    (hidle : s.jvm.process.slots = [])
    (hslots : process.slots = [.running d]) (hd : d.offset = (p, s.jvm.position p)) :
    Backlog { s with jvm := { s.jvm with
      position := Function.update s.jvm.position p (s.jvm.position p + 1)
      random
      process
      started := s.jvm.started ++ [⟨(p, s.jvm.position p), event, insert⟩] } } gone := by
  have hposition : ∀ q, s.jvm.position q ≤ Function.update s.jvm.position p (s.jvm.position p + 1) q := by
    intro q
    by_cases hq : q = p
    · subst hq
      rw [Function.update_self]
      exact Nat.le_succ _
    · rw [Function.update_of_ne hq]
  refine { h with started := ?_, ascending := ?_, position := ?_, behind := ?_, committed := ?_ }
  · rw [startedOffsets_of_started rfl, h.started]
    simp [Jvm.outstanding, MapAsync.elems, hidle, hslots, hd]
  · rw [startedOffsets_of_started rfl]
    refine h.ascending.concat fun o ho hp => ?_
    have hlt := h.position o ho
    rw [hp] at hlt
    exact hlt
  · intro o ho
    rw [startedOffsets_of_started rfl, List.mem_append, List.mem_singleton] at ho
    rcases ho with hold | rfl
    · exact Nat.lt_of_lt_of_le (h.position o hold) (hposition o.1)
    · simp
  · exact fun q n hn => Nat.le_trans (h.behind q n hn) (hposition q)
  · intro q n hn
    refine (h.committed q n hn).imp_left fun hbefore o ho => ?_
    rw [startedOffsets_of_started rfl, List.mem_append, List.mem_singleton, Prod.mk.injEq] at ho
    rcases ho with hold | ⟨rfl, rfl⟩
    · exact hbefore o hold
    · exact h.behind q n hn

theorem Backlog.step {s s' : State P σ} {a : Act P} {gone : List (Offset P)} (h : Backlog s gone)
    (hord : CommitsInOrder s a) (hs : Step env s a s') : ∃ gone', Backlog s' gone' := by
  cases hs with
  | send | sendElsewhere | deliverThrows | completeFails | commitFails => exact ⟨gone, { h with }⟩
  | deliver hf hidle hlog hmsg hslots => exact ⟨gone, h.deliver hidle hslots rfl⟩
  | @store i d hrun hd =>
    obtain ⟨rfl, hslots⟩ := MapAsync.slots_of_running? hrun
    refine ⟨gone, { h with started := h.started.trans (congrArg (gone ++ ·) ?_) }⟩
    simp [Jvm.outstanding, MapAsync.elems, hslots]
  | @complete i answers d hf hrun hans hok =>
    obtain ⟨rfl, hslots⟩ := MapAsync.slots_of_running? hrun
    refine ⟨gone, { h with started := h.started.trans (congrArg (gone ++ ·) ?_) }⟩
    simp [Jvm.outstanding, MapAsync.elems, hslots]
  | @aggregate d process batch hf hslots hpush =>
    refine ⟨gone, { h with started := h.started.trans (congrArg (gone ++ ·) ?_) }⟩
    simp [Jvm.outstanding, MapAsync.elems, hslots, Batch.push?_held hpush]
  | @flush offsets batch commits hf hflush hslots =>
    have helems : commits.elems = s.jvm.commits.elems ++ [⟨offsets, false⟩] := by
      rw [MapAsync.elems, hslots, List.map_append]
      rfl
    refine ⟨gone, h.of_commits ?_ ?_ ?_ ?_⟩
    · simp [helems, ← (Batch.flush?_held hflush).1]
    · intro c hc
      rw [helems, List.mem_append, List.mem_singleton] at hc
      rcases hc with hold | rfl
      · exact h.size c hold
      · exact Batch.flush?_length_le hflush
    · intro c hc
      rw [hslots, List.mem_append, List.mem_singleton] at hc
      rcases hc with hold | heq
      · exact h.completed c hold
      · cases heq
    · intro o
      simp [State.Committed, helems, or_and_right, exists_or]
  | applyCommit hrun hc => exact ⟨gone, h.applyCommit hrun hc hord⟩
  | @completeCommit i c hf hrun hc =>
    have helems : (s.jvm.commits.set i (.completed c)).elems = s.jvm.commits.elems := MapAsync.elems_set hrun rfl
    refine ⟨gone, h.of_commits ?_ ?_ ?_ ?_⟩
    · rw [helems]
    · rw [helems]
      exact h.size
    · intro c' hc'
      rcases MapAsync.mem_slots_set hc' with heq | hold
      · cases heq
        exact hc
      · exact h.completed c' hold
    · intro o
      rw [helems]
      rfl
  | @sink c commits hf hslots =>
    have helems : s.jvm.commits.elems = c :: commits.elems := by
      rw [MapAsync.elems, hslots]
      rfl
    -- What the sink takes was completed: its commit has taken effect.
    have hc : c.applied = true := h.completed c (by rw [hslots]; exact List.mem_cons_self)
    refine ⟨gone ++ c.offsets, h.of_commits ?_ ?_ ?_ ?_⟩
    · simp [helems]
    · exact fun c' hc' => h.size c' (by rw [helems]; exact List.mem_cons_of_mem _ hc')
    · exact fun c' hc' => h.completed c' (by rw [hslots]; exact List.mem_cons_of_mem _ hc')
    · intro o
      simp [State.Committed, helems, hc, or_assoc]
  | crash => exact ⟨[], backlog_start rfl⟩

/-! ## Bounded redelivery -/

omit [DecidableEq P] in
/-- The stages hold no more than they have room for. -/
theorem Backlog.outstanding_length_le {s : State P σ} {gone : List (Offset P)} (h : Backlog s gone) :
    s.jvm.outstanding.length ≤ s.jvm.process.slots.length + (20 + 1) + 3 * 20 := by
  have hcommits : (s.jvm.commits.elems.flatMap Commit.offsets).length ≤ s.jvm.commits.elems.length * 20 := by
    have hsum := List.sum_le_card_nsmul (s.jvm.commits.elems.map fun c => c.offsets.length) 20 (by simpa using h.size)
    rw [List.length_map, smul_eq_mul] at hsum
    rw [List.length_flatMap]
    exact hsum
  have hslots := s.jvm.commits.elems_length_le
  have hbatch := s.jvm.batch.held_length_le
  have hprocess : s.jvm.process.elems.length = s.jvm.process.slots.length := List.length_map ..
  rw [Jvm.outstanding, List.length_append, List.length_append, List.length_map]
  omega

omit [DecidableEq P] in
theorem backlog_offsets (s : State P σ) :
    s.backlog.map Started.offset = s.jvm.startedOffsets.filter fun o => ¬ s.Covers o := by
  rw [State.backlog, Jvm.startedOffsets, List.filter_map]
  rfl

omit [DecidableEq P] in
/-- What a crash gives back is in the stages. -/
theorem Backlog.backlog_eq {s : State P σ} {gone : List (Offset P)} (h : Backlog s gone) :
    s.backlog.map Started.offset = s.jvm.outstanding.filter fun o => ¬ s.Covers o := by
  have hgone : gone.filter (fun o => ¬ s.Covers o) = [] := by
    rw [List.filter_eq_nil_iff]
    intro o ho
    simpa using h.covered o (.inl ho)
  rw [backlog_offsets, h.started, List.filter_append, hgone, List.nil_append]

omit [DecidableEq P] in
theorem Backlog.backlog_length_le {s : State P σ} {gone : List (Offset P)} (h : Backlog s gone) :
    s.backlog.length ≤ s.jvm.process.slots.length + (20 + 1) + 3 * 20 := by
  rw [← List.length_map Started.offset, h.backlog_eq]
  exact Nat.le_trans (List.length_filter_le ..) h.outstanding_length_le

omit [DecidableEq P] in
/-- A restart begins at or before an offset when no commit covers it. -/
theorem start_position_le_iff {s : State P σ} {o : Offset P} :
    (Jvm.start env s.committed).position o.1 ≤ o.2 ↔ ¬ s.Covers o := by
  cases hn : s.committed o.1 <;> simp [Jvm.start, State.Covers, hn]

/-- What a crash now would have processed again. -/
def State.again (env : Env P σ) (s : State P σ) : List (Started P) :=
  s.jvm.started.filter fun m => (Jvm.start env s.committed).position m.offset.1 ≤ m.offset.2

omit [DecidableEq P] in
theorem again_eq_backlog (s : State P σ) : s.again env = s.backlog := by
  rw [State.again, State.backlog]
  exact List.filter_congr fun m _ => decide_eq_decide.2 start_position_le_iff

/-- **Bounded redelivery.** In every state reached, over any partitions and by
any run in which commits take effect in the order they were sent, at most 82
of the messages this process has started are not covered by a commit, and at
most so many are processed again if it is lost. -/
theorem bounded_redelivery (env : Env P σ) {log : P → List String} {acts : List (Act P)} {s : State P σ}
    (hord : Machine.Meets (step env) CommitsInOrder (State.init env log) acts)
    (h : Machine.run (step env) (State.init env log) acts = some s) :
    s.backlog.length ≤ 1 + (20 + 1) + 3 * 20 ∧ (s.again env).length ≤ 82 := by
  obtain ⟨gone, hbacklog⟩ : ∃ gone, Backlog s gone := by
    refine Machine.run_induction (I := fun _ s => ∃ gone, Backlog s gone) ?_ ?_ hord h
    · exact ⟨[], backlog_start rfl⟩
    · intro bs t a t' hI hG hstep
      obtain ⟨gone, hI⟩ := hI
      exact hI.step hG (step_sound hstep)
  have hle : s.backlog.length ≤ 1 + (20 + 1) + 3 * 20 := by
    have hstages := hbacklog.backlog_length_le
    have hone := s.jvm.process.bound
    omega
  exact ⟨hle, by rw [again_eq_backlog]; exact hle⟩

/-- Two messages are sent to be committed, each by itself, and the first is; two more are handed out. -/
def busy : List (Act Unit) :=
  handle () ++ .flush :: (handle () ++ .flush :: .applyCommit 0 :: (handle () ++ [.deliver ()]))

theorem run_busy : ∃ s, Machine.run (step textEnv) (State.init textEnv (repeated 4)) busy = some s ∧
    s.jvm.startedOffsets = [((), 0), ((), 1), ((), 2), ((), 3)] ∧ s.committed () = some 1 := by
  have hL : textEnv.libs.Documented := textLibs_documented
  have hrun : Machine.run (step textEnv) (State.init textEnv (repeated 4)) busy = some _ :=
    Machine.run_append.2 ⟨_, run_handle (e := JsonCodexSpec.event) hL rfl rfl rfl rfl rfl, Machine.run_cons.2 ⟨_, rfl,
      Machine.run_append.2 ⟨_, run_handle (e := JsonCodexSpec.event) hL rfl rfl rfl rfl rfl, Machine.run_cons.2 ⟨_, rfl,
        Machine.run_cons.2 ⟨_, rfl, Machine.run_append.2
          ⟨_, run_handle (e := JsonCodexSpec.event) hL rfl rfl rfl rfl rfl,
            run_deliver (e := JsonCodexSpec.event) hL rfl rfl rfl⟩⟩⟩⟩⟩⟩
  exact ⟨_, hrun, rfl, rfl⟩

/-- The first message is committed. Of the others one is in a commit, one in the batch and one in `mapAsync(1)`. -/
theorem bounded_redelivery_busy : ∃ s, Machine.run (step textEnv) (State.init textEnv (repeated 4)) busy = some s ∧
    s.backlog.length = 3 ∧ s.backlog.length ≤ 1 + (20 + 1) + 3 * 20 ∧ (s.again textEnv).length ≤ 82 := by
  obtain ⟨s, hrun, hstarted, hcommitted⟩ := run_busy
  have hord : Machine.Meets (step textEnv) CommitsInOrder (State.init textEnv (repeated 4)) busy :=
    (lined_init _).meets (by simp [busy, handle]) hrun
  obtain ⟨hle, hagain⟩ := bounded_redelivery textEnv hord hrun
  refine ⟨s, hrun, ?_, hle, hagain⟩
  rw [← List.length_map Started.offset, backlog_offsets, hstarted]
  simp [State.Covers, hcommitted]

end Graph

end TransferDashboard
