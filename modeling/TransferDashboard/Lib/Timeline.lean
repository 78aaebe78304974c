/-
Items handed out in the order of their times while others wait, and how
many wait.

`Timely time done waiting`: what is done is in order, and nothing that waits
is before any of it. So the earliest that waits may be done next
(`Timely.emit`), and a new item as well when it is not before what is done
nor after what waits (`Timely.arrive`). Items that come `gap` apart and wait
no longer than `span` are fewer than `span / gap` (`Spaced.length_lt`).
-/
import Mathlib

namespace Timeline

variable {α τ : Type} [Preorder τ] {time : α → τ} {done : List α} {waiting : Multiset α}

/-- Each item is no later than those after it. -/
def InOrder (time : α → τ) (items : List α) : Prop := items.Pairwise fun a b => time a ≤ time b

structure Timely (time : α → τ) (done : List α) (waiting : Multiset α) : Prop where
  sorted : InOrder time done
  before : ∀ a ∈ done, ∀ b ∈ waiting, time a ≤ time b

theorem InOrder.concat {a : α} (h : InOrder time done) (hlast : ∀ b ∈ done, time b ≤ time a) :
    InOrder time (done ++ [a]) := by
  refine List.pairwise_append.2 ⟨h, List.pairwise_singleton _ a, fun b hb c hc => ?_⟩
  rw [List.mem_singleton.1 hc]
  exact hlast b hb

namespace Timely

theorem nil : Timely time [] 0 where
  sorted := List.Pairwise.nil
  before a h := by cases h

/-- An item that came just now. -/
theorem arrive {a : α} (h : Timely time done waiting) (hdone : ∀ b ∈ done, time b ≤ time a)
    (hwaiting : ∀ b ∈ waiting, time a ≤ time b) : Timely time (done ++ [a]) waiting where
  sorted := h.sorted.concat hdone
  before b hb c hc := by
    rcases List.mem_append.1 hb with hold | hnew
    · exact h.before b hold c hc
    · rw [List.mem_singleton.1 hnew]
      exact hwaiting c hc

/-- The earliest item that waits. -/
theorem emit {a : α} (h : Timely time done (a ::ₘ waiting)) (hmin : ∀ b ∈ waiting, time a ≤ time b) :
    Timely time (done ++ [a]) waiting := by
  have hrest : Timely time done waiting :=
    { h with before := fun b hb c hc => h.before b hb c (Multiset.mem_cons_of_mem hc) }
  exact hrest.arrive (fun b hb => h.before b hb a (Multiset.mem_cons_self a waiting)) hmin

/-- One more waits. -/
theorem wait {a : α} (h : Timely time done waiting) (hdone : ∀ b ∈ done, time b ≤ time a) :
    Timely time done (a ::ₘ waiting) where
  sorted := h.sorted
  before b hb c hc := by
    rcases Multiset.mem_cons.1 hc with rfl | hold
    · exact hdone b hb
    · exact h.before b hb c hold

end Timely

/-! ## How many wait -/

/-- Items that wait, newest first, each with the time it came: `gap` apart,
the last of them before now, and due `span` later at most. -/
structure Spaced (gap span : Int) (time : α → Int) (now : Int) (came : List (Int × α)) : Prop where
  apart : came.Pairwise fun x y => y.1 + gap ≤ x.1
  before : ∀ x ∈ came, x.1 + gap ≤ now
  within : ∀ x ∈ came, time x.2 ≤ x.1 + span

namespace Spaced

variable {gap span now : Int} {time : α → Int} {came : List (Int × α)}

theorem nil : Spaced gap span time now ([] : List (Int × α)) where
  apart := List.Pairwise.nil
  before x h := by cases h
  within x h := by cases h

theorem sublist {came' : List (Int × α)} (h : Spaced gap span time now came) (hsub : came'.Sublist came) :
    Spaced gap span time now came' where
  apart := h.apart.sublist hsub
  before x hx := h.before x (hsub.subset hx)
  within x hx := h.within x (hsub.subset hx)

theorem later {now' : Int} (h : Spaced gap span time now came) (hnow : now ≤ now') : Spaced gap span time now' came :=
  { h with before := fun x hx => Int.le_trans (h.before x hx) hnow }

/-- One more comes now, and time goes on. -/
theorem arrive {now' : Int} {a : α} (h : Spaced gap span time now came) (hspan : time a ≤ now + span)
    (hnow : now + gap ≤ now') (hgap : 0 ≤ gap) : Spaced gap span time now' ((now, a) :: came) where
  apart := List.pairwise_cons.2 ⟨h.before, h.apart⟩
  before x hx := by
    rcases List.mem_cons.1 hx with rfl | hold
    · exact hnow
    · have hle := h.before x hold
      omega
  within x hx := by
    rcases List.mem_cons.1 hx with rfl | hold
    · exact hspan
    · exact h.within x hold

/-- The oldest came as many gaps ago as there are items. -/
theorem exists_oldest (h : Spaced gap span time now came) (hne : came ≠ []) :
    ∃ x ∈ came, x.1 + gap * came.length ≤ now := by
  induction came generalizing now with
  | nil => exact absurd rfl hne
  | cons x rest ih =>
    have hx := h.before x List.mem_cons_self
    by_cases hrest : rest = []
    · subst hrest
      exact ⟨x, List.mem_cons_self, by simpa using hx⟩
    · have hspaced : Spaced gap span time x.1 rest :=
        { apart := (List.pairwise_cons.1 h.apart).2
          before := (List.pairwise_cons.1 h.apart).1
          within := fun y hy => h.within y (List.mem_cons_of_mem x hy) }
      obtain ⟨y, hy, hle⟩ := ih hspaced hrest
      refine ⟨y, List.mem_cons_of_mem x hy, ?_⟩
      have hsucc : gap * ((x :: rest).length : Int) = gap * rest.length + gap := by
        rw [List.length_cons, Nat.cast_succ, mul_add, mul_one]
      omega

/-- Once nothing is due, few wait. -/
theorem length_lt (h : Spaced gap span time now came) (hdue : ∀ x ∈ came, now < time x.2) (hspan : 0 < span) :
    gap * came.length < span := by
  by_cases hne : came = []
  · rw [hne, List.length_nil, Nat.cast_zero, mul_zero]
    exact hspan
  · obtain ⟨x, hx, hle⟩ := h.exists_oldest hne
    have hlate := hdue x hx
    have hwithin := h.within x hx
    omega

end Spaced

end Timeline
