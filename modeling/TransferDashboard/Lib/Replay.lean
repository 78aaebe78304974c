/-
A log of messages processed again from its beginning.

A processor reads the messages one after another, carries a state, and
writes rows to a store that overwrites. `Replayed k` is that the store is
what `k` messages write over rows that only earlier passes over the same
log, from the same state, can have left. A pass that begins anew keeps it
(`Replayed.restart`), and one that reaches the end has left what a single
pass leaves (`Replayed.complete`).
-/
import TransferDashboard.Lib.Store

namespace Replay

open KeyedStore

variable {σ M κ ν : Type} [DecidableEq κ]

structure Processor (σ M κ ν : Type) where
  /-- The rows a message writes. -/
  rows : σ → M → List (κ × ν)
  /-- The state after a message. -/
  next : σ → M → σ

variable (π : Processor σ M κ ν)

namespace Processor

def after (s : σ) (ms : List M) : σ := ms.foldl π.next s

/-- The rows a list of messages writes, in order. -/
def writes : σ → List M → List (κ × ν)
  | _, [] => []
  | s, m :: ms => π.rows s m ++ writes (π.next s m) ms

variable {π}

omit [DecidableEq κ] in
theorem writes_append (s : σ) (ms ms' : List M) :
    π.writes s (ms ++ ms') = π.writes s ms ++ π.writes (π.after s ms) ms' := by
  induction ms generalizing s with
  | nil => rfl
  | cons m ms ih =>
    simp only [List.cons_append, writes, ih, List.append_assoc]
    rfl

omit [DecidableEq κ] in
theorem writes_take_succ (s : σ) {ms : List M} {k : Nat} {m : M} (hm : ms[k]? = some m) :
    π.writes s (ms.take (k + 1)) = π.writes s (ms.take k) ++ π.rows (π.after s (ms.take k)) m := by
  rw [List.take_add_one, hm, writes_append]
  simp [writes]

omit [DecidableEq κ] in
theorem after_take_succ (s : σ) {ms : List M} {k : Nat} {m : M} (hm : ms[k]? = some m) :
    π.after s (ms.take (k + 1)) = π.next (π.after s (ms.take k)) m := by
  rw [List.take_add_one, hm, after, List.foldl_append]
  rfl

omit [DecidableEq κ] in
theorem keys_take_subset (s : σ) (ms : List M) (k : Nat) :
    ∀ x ∈ keys (π.writes s (ms.take k)), x ∈ keys (π.writes s ms) := by
  intro x hx
  have hsplit : π.writes s ms = π.writes s (ms.take k) ++ π.writes (π.after s (ms.take k)) (ms.drop k) := by
    rw [← writes_append, List.take_append_drop]
  rw [hsplit, keys_append]
  exact List.mem_append_left _ hx

end Processor

/-- The store holds what the first `k` messages write, over rows of the log's own keys. -/
def Replayed (s : σ) (ms : List M) (store : Store κ ν) (k : Nat) : Prop :=
  ∃ base, SupportedBy base (keys (π.writes s ms)) ∧ store = putAll base (π.writes s (ms.take k))

namespace Replayed

variable {π} {s : σ} {ms : List M} {store : Store κ ν} {k : Nat}

theorem init (s : σ) (ms : List M) : Replayed π s ms empty 0 := ⟨empty, empty_supportedBy _, rfl⟩

theorem write (h : Replayed π s ms store k) {m : M} (hm : ms[k]? = some m) :
    Replayed π s ms (putAll store (π.rows (π.after s (ms.take k)) m)) (k + 1) := by
  obtain ⟨base, hbase, rfl⟩ := h
  refine ⟨base, hbase, ?_⟩
  rw [Processor.writes_take_succ s hm, putAll_append]

/-- Everything so far becomes what the next pass writes over. -/
theorem restart (h : Replayed π s ms store k) : Replayed π s ms store 0 := by
  obtain ⟨base, hbase, rfl⟩ := h
  exact ⟨_, hbase.putAll (Processor.keys_take_subset s ms k), rfl⟩

/-- **A pass that reaches the end** leaves what it leaves alone. -/
theorem complete (h : Replayed π s ms store k) (hk : ms.length ≤ k) : store = putAll empty (π.writes s ms) := by
  obtain ⟨base, hbase, rfl⟩ := h
  rw [List.take_of_length_le hk]
  exact putAll_eq_of_supported hbase

end Replayed

end Replay
