/-
What a consumer with commits is for: each partition has a committed
position, and nothing below it is left to do.

The machine here knows no streams, batches or crashes. An item is done, or
the positions are moved, each to a prefix of its partition that is done;
going back to an earlier position is always allowed. That suffices: whatever
the schedule, every item below a committed position is done.
-/
import Mathlib

namespace CommitLog

variable {P : Type}

/-- The items done, by partition and offset, and the committed positions. -/
structure State (P : Type) where
  done : Set (P × Nat)
  committed : P → Nat

/-- Everything below `n` in the partition is done. -/
def Prefix (done : Set (P × Nat)) (p : P) (n : Nat) : Prop := ∀ o < n, (p, o) ∈ done

theorem Prefix.zero (done : Set (P × Nat)) (p : P) : Prefix done p 0 := by
  intro o ho
  exact absurd ho (Nat.not_lt_zero o)

theorem Prefix.mono {done done' : Set (P × Nat)} {p : P} {n : Nat} (hd : done ⊆ done') (h : Prefix done p n) :
    Prefix done' p n := by
  intro o ho
  exact hd (h o ho)

theorem Prefix.succ {done : Set (P × Nat)} {p : P} {n : Nat} (h : Prefix done p n) (hn : (p, n) ∈ done) :
    Prefix done p (n + 1) := by
  intro o ho
  rcases Nat.lt_succ_iff_lt_or_eq.1 ho with hlt | rfl
  · exact h o hlt
  · exact hn

inductive Step : State P → State P → Prop
  | idle (s : State P) : Step s s
  | process (s : State P) (o : P × Nat) : Step s { s with done := insert o s.done }
  | commit (s : State P) (next : P → Nat) (h : ∀ p, next p = s.committed p ∨ Prefix s.done p (next p)) :
      Step s { s with committed := next }

/-- Every committed position is a prefix that is done. -/
def Covered (s : State P) : Prop := ∀ p, Prefix s.done p (s.committed p)

theorem Covered.step {s s' : State P} (hc : Covered s) (h : Step s s') : Covered s' := by
  cases h with
  | idle => exact hc
  | process o => exact fun p => (hc p).mono (Set.subset_insert o s.done)
  | commit next h =>
    intro p
    rcases h p with heq | hp
    · show Prefix s.done p (next p)
      rw [heq]
      exact hc p
    · exact hp

end CommitLog
