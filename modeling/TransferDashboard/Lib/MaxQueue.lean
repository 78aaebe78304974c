/-
Priority queues that give a maximum under an ordering, after
`scala.collection.mutable.PriorityQueue`.

A queue is any implementation that keeps what was put into it (`contents`)
and gives, of elements the ordering does not tell apart, any.
-/
import Mathlib

/-- A queue of `α`, ordered by `compare`: positive where the first is larger. -/
structure MaxQueue (α : Type) (compare : α → α → Int) where
  Q : Type
  empty : Q
  enqueue : Q → α → Q
  /-- The element `dequeue` gives next. -/
  headOption : Q → Option α
  dequeue : Q → Option (α × Q)
  contents : Q → Multiset α
  contents_empty : contents empty = 0
  contents_enqueue : ∀ q a, contents (enqueue q a) = a ::ₘ contents q
  head_dequeue : ∀ q, headOption q = (dequeue q).map Prod.fst
  dequeue_none : ∀ q, dequeue q = none → contents q = 0
  dequeue_some : ∀ q a q', dequeue q = some (a, q') → contents q = a ::ₘ contents q'
  dequeue_max : ∀ q a q', dequeue q = some (a, q') → ∀ b ∈ contents q, compare b a ≤ 0

namespace MaxQueue

variable {α : Type} {compare : α → α → Int}

theorem contents_of_head_none {queue : MaxQueue α compare} {q : queue.Q} (h : queue.headOption q = none) :
    queue.contents q = 0 := by
  rw [queue.head_dequeue, Option.map_eq_none_iff] at h
  exact queue.dequeue_none q h

theorem dequeue_of_head_some {queue : MaxQueue α compare} {q : queue.Q} {a : α} (h : queue.headOption q = some a) :
    ∃ q', queue.dequeue q = some (a, q') := by
  rw [queue.head_dequeue, Option.map_eq_some_iff] at h
  obtain ⟨⟨b, q'⟩, hq, rfl⟩ := h
  exact ⟨q', hq⟩

/-! ## Lists as queues -/

/-- An element of the highest rank. -/
def best (rank : α → Int) : List α → Option α
  | [] => none
  | a :: l =>
    match best rank l with
    | none => some a
    | some b => if rank b ≤ rank a then some a else some b

theorem best_eq_none {rank : α → Int} {l : List α} (h : best rank l = none) : l = [] := by
  cases l with
  | nil => rfl
  | cons a l =>
    simp only [best] at h
    split at h
    · cases h
    · split at h <;> cases h

theorem best_spec {rank : α → Int} {l : List α} {a : α} (h : best rank l = some a) :
    a ∈ l ∧ ∀ b ∈ l, rank b ≤ rank a := by
  induction l generalizing a with
  | nil => cases h
  | cons c l ih =>
    simp only [best] at h
    split at h
    next hnone =>
      rw [Option.some.injEq] at h
      rw [best_eq_none hnone, ← h]
      exact ⟨List.mem_singleton_self c, fun b hb => by rw [List.mem_singleton.1 hb]⟩
    next b hb =>
      obtain ⟨hmem, hmax⟩ := ih hb
      split at h
      next hle =>
        rw [Option.some.injEq] at h
        rw [← h]
        refine ⟨List.mem_cons_self, fun d hd => ?_⟩
        rcases List.mem_cons.1 hd with rfl | hd
        · exact Int.le_refl _
        · exact Int.le_trans (hmax d hd) hle
      next hlt =>
        rw [Option.some.injEq] at h
        rw [← h]
        refine ⟨List.mem_cons_of_mem c hmem, fun d hd => ?_⟩
        rcases List.mem_cons.1 hd with rfl | hd
        · exact Int.le_of_lt (Int.lt_of_not_ge hlt)
        · exact hmax d hd

/-- A list, searched for an element of the highest rank. -/
def ofList [DecidableEq α] (rank : α → Int) (hrank : ∀ a b, rank a ≤ rank b → compare a b ≤ 0) :
    MaxQueue α compare where
  Q := List α
  empty := []
  enqueue q a := a :: q
  headOption q := best rank q
  dequeue q := (best rank q).map fun a => (a, q.erase a)
  contents q := q
  contents_empty := rfl
  contents_enqueue q a := rfl
  head_dequeue q := by cases best rank q <;> rfl
  dequeue_none q h := by
    rw [best_eq_none (Option.map_eq_none_iff.1 h)]
    rfl
  dequeue_some q a q' h := by
    obtain ⟨b, hb, heq⟩ := Option.map_eq_some_iff.1 h
    rw [Prod.mk.injEq] at heq
    obtain ⟨rfl, rfl⟩ := heq
    rw [Multiset.cons_coe]
    exact Multiset.coe_eq_coe.2 (List.perm_cons_erase (best_spec hb).1)
  dequeue_max q a q' h b hb := by
    obtain ⟨c, hc, heq⟩ := Option.map_eq_some_iff.1 h
    rw [Prod.mk.injEq] at heq
    rw [← heq.1]
    exact hrank b c ((best_spec hc).2 b (Multiset.mem_coe.1 hb))

end MaxQueue
