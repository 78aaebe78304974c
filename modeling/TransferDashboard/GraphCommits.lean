/-
Offsets on their way to a commit.

From `mapAsync(1)` on an offset is in the batch, in an outstanding commit, or
below a committed position. `CommitsWithin Q` says that only positions `Q`
allows are reached or on their way; a step can break it at one place only,
where an offset enters the batch (`CommitsWithin.step`).
-/
import TransferDashboard.GraphSteps

namespace TransferDashboard

open Stage

namespace Graph

variable {P σ : Type} [DecidableEq P] {env : Env P σ} {Q Q' : P → Nat → Prop}

theorem CommittableOffsetBatch.of_concat (offsets : List (Offset P)) (o : Offset P) :
    CommittableOffsetBatch.of (offsets ++ [o]) = (CommittableOffsetBatch.of offsets).updated o := by
  rw [CommittableOffsetBatch.of, List.foldl_append]
  rfl

/-- A batch holds for a partition only an offset it was given. -/
theorem CommittableOffsetBatch.of_eq_some {offsets : List (Offset P)} {p : P} {o : Nat}
    (h : CommittableOffsetBatch.of offsets p = some o) : (p, o) ∈ offsets := by
  induction offsets using List.reverseRecOn with
  | nil => cases h
  | append_singleton l a ih =>
    rw [CommittableOffsetBatch.of_concat] at h
    by_cases hp : p = a.1
    · have hval : a.2 = o := by simpa [CommittableOffsetBatch.updated, hp] using h
      rw [hp, ← hval]
      exact List.mem_append_right l (List.mem_singleton_self a)
    · exact List.mem_append_left _ (ih (by simpa [CommittableOffsetBatch.updated, hp] using h))

/-- A commit moves each position to just after an offset of its batch, or not at all. -/
theorem CommittableOffsetBatch.commit_cases (offsets : List (Offset P)) (committed : P → Option Nat) (p : P) :
    (CommittableOffsetBatch.of offsets).commit committed p = committed p ∨
      ∃ o, (p, o) ∈ offsets ∧ (CommittableOffsetBatch.of offsets).commit committed p = some (o + 1) := by
  unfold CommittableOffsetBatch.commit
  cases ho : CommittableOffsetBatch.of offsets p with
  | none => exact .inl rfl
  | some o => exact .inr ⟨o, CommittableOffsetBatch.of_eq_some ho, rfl⟩

/-- Every position that is committed, or will be, is one `Q` allows. -/
structure CommitsWithin (Q : P → Nat → Prop) (s : State P σ) : Prop where
  batch : ∀ o ∈ s.jvm.batch.held, Q o.1 (o.2 + 1)
  commits : ∀ slot ∈ s.jvm.commits.slots, ∀ o ∈ slot.elem.offsets, Q o.1 (o.2 + 1)
  committed : ∀ p n, s.committed p = some n → Q p n

namespace CommitsWithin

omit [DecidableEq P] in
theorem init (log : P → List String) : CommitsWithin Q (State.init env log) where
  batch o h := by cases h
  commits slot h := by cases h
  committed p n h := by cases h

omit [DecidableEq P] in
theorem mono {s : State P σ} (hQ : ∀ p n, Q p n → Q' p n) (h : CommitsWithin Q s) : CommitsWithin Q' s where
  batch o ho := hQ _ _ (h.batch o ho)
  commits slot hslot o ho := hQ _ _ (h.commits slot hslot o ho)
  committed p n hn := hQ p n (h.committed p n hn)

theorem step {s s' : State P σ} {a : Act P} (h : CommitsWithin Q s) (hs : Step env s a s')
    (hdone : ∀ d, .completed d ∈ s.jvm.process.slots → Q d.offset.1 (d.offset.2 + 1)) : CommitsWithin Q s' := by
  cases hs with
  | @aggregate d process batch hf hslots hpush =>
    refine { h with batch := ?_ }
    intro o ho
    have hheld : o ∈ s.jvm.batch.held ++ [d.offset] := by rw [← Batch.push?_held hpush]; exact ho
    rcases List.mem_append.1 hheld with hold | hnew
    · exact h.batch o hold
    · rw [List.mem_singleton.1 hnew]
      exact hdone d (by rw [hslots]; exact List.mem_cons_self)
  | @flush offsets batch commits hf hflush hslots =>
    obtain ⟨hheld, -⟩ := Batch.flush?_held hflush
    refine { h with batch := ?_, commits := ?_ }
    · intro o ho
      exact h.batch o (by rw [← hheld]; exact List.mem_append_right _ ho)
    · intro slot hslot o ho
      rw [hslots] at hslot
      rcases List.mem_append.1 hslot with hold | hnew
      · exact h.commits slot hold o ho
      · rw [List.mem_singleton.1 hnew] at ho
        exact h.batch o (by rw [← hheld]; exact List.mem_append_left _ ho)
  | @applyCommit i c hrun hc =>
    have hcommit := h.commits (.running c) (MapAsync.mem_of_running? hrun)
    refine { h with commits := ?_, committed := ?_ }
    · intro slot hslot o ho
      rcases MapAsync.mem_slots_set hslot with rfl | hold
      · exact hcommit o ho
      · exact h.commits slot hold o ho
    · intro p n hn
      rcases CommittableOffsetBatch.commit_cases c.offsets s.committed p with hsame | ⟨o, ho, hnew⟩
      · exact h.committed p n (hsame ▸ hn)
      · simp only [hnew, Option.some.injEq] at hn
        rw [← hn]
        exact hcommit (p, o) ho
  | @completeCommit i c hf hrun hc =>
    refine { h with commits := ?_ }
    intro slot hslot o ho
    rcases MapAsync.mem_slots_set hslot with rfl | hold
    · exact h.commits (.running c) (MapAsync.mem_of_running? hrun) o ho
    · exact h.commits slot hold o ho
  | @sink c commits hf hslots =>
    refine { h with commits := ?_ }
    intro slot hslot
    exact h.commits slot (by rw [hslots]; exact List.mem_cons_of_mem _ hslot)
  | crash =>
    refine { h with batch := ?_, commits := ?_ }
    · intro o ho
      cases ho
    · intro slot hslot
      cases hslot
  | _ => exact { h with }

end CommitsWithin

end Graph

end TransferDashboard
