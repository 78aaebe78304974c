/-
Computations that return a value or throw, one after another.

A fold over a list of which each step converts an element and adds what it
is converted to, or throws where there is no conversion: it returns when
every element converts (`foldlM_returns_iff`), and then it is the fold over
the conversions (`foldlM_eq_ok`).
-/
import Mathlib

namespace Fallible

theorem bind_eq_ok {ε α β : Type} {x : Except ε α} {f : α → Except ε β} {b : β} :
    (x >>= f) = .ok b ↔ ∃ a, x = .ok a ∧ f a = .ok b := by
  cases x <;> simp [bind, Except.bind]

/-- A fold whose steps convert an element and add it, or throw, is a fold
over the conversions when all of them succeed. -/
theorem foldlM_eq_ok {ε α β γ : Type} {f : β → α → Except ε β} {conv : α → Option γ} {add : β → γ → β}
    (hf : ∀ b a b', f b a = .ok b' ↔ ∃ c, conv a = some c ∧ b' = add b c) {l : List α} {b b' : β} :
    l.foldlM f b = .ok b' ↔ ∃ cs : List γ, l.map conv = cs.map some ∧ b' = cs.foldl add b := by
  induction l generalizing b with
  | nil =>
    rw [List.foldlM_nil, List.map_nil]
    refine ⟨fun h => ⟨[], rfl, (Except.ok.inj h).symm⟩, fun ⟨cs, hnil, hb⟩ => ?_⟩
    obtain rfl : cs = [] := by simpa using hnil.symm
    rw [hb]
    rfl
  | cons a l ih =>
    rw [List.foldlM_cons, bind_eq_ok]
    refine ⟨fun h => ?_, fun h => ?_⟩
    · obtain ⟨b₁, hb₁, hrest⟩ := h
      obtain ⟨c, hc, rfl⟩ := (hf b a b₁).1 hb₁
      obtain ⟨cs, hcs, hb'⟩ := ih.1 hrest
      exact ⟨c :: cs, by simp [hc, hcs], hb'⟩
    · obtain ⟨cs, hcs, hb'⟩ := h
      cases cs with
      | nil => simp at hcs
      | cons c cs =>
        simp only [List.map_cons, List.cons.injEq] at hcs
        exact ⟨add b c, (hf b a _).2 ⟨c, hcs.1, rfl⟩, ih.2 ⟨cs, hcs.2, hb'⟩⟩

/-- When all that a step throws is one exception, so is all that the fold throws. -/
theorem foldlM_eq_error {ε α β : Type} {f : β → α → Except ε β} {e₀ : ε} (hf : ∀ b a e, f b a = .error e → e = e₀)
    {l : List α} {b : β} {e : ε} (h : l.foldlM f b = .error e) : e = e₀ := by
  induction l generalizing b with
  | nil => cases h
  | cons a l ih =>
    rw [List.foldlM_cons] at h
    cases hstep : f b a with
    | error e' =>
      rw [hstep] at h
      cases h
      exact hf b a e hstep
    | ok b' =>
      rw [hstep] at h
      exact ih h

/-- A list converts when each of its elements does. -/
theorem exists_map_eq_some {α β : Type} {f : α → Option β} {g : β → α} (hf : ∀ a b, f a = some b ↔ a = g b)
    (l : List α) : (∃ bs : List β, l.map f = bs.map some) ↔ ∀ a ∈ l, ∃ b, a = g b := by
  induction l with
  | nil => exact ⟨fun _ a ha => absurd ha List.not_mem_nil, fun _ => ⟨[], rfl⟩⟩
  | cons a l ih =>
    rw [List.forall_mem_cons, ← ih]
    refine ⟨fun h => ?_, fun h => ?_⟩
    · obtain ⟨bs, hbs⟩ := h
      cases bs with
      | nil => cases hbs
      | cons b bs =>
        rw [List.map_cons, List.map_cons, List.cons.injEq] at hbs
        exact ⟨⟨b, (hf a b).1 hbs.1⟩, bs, hbs.2⟩
    · obtain ⟨⟨b, hb⟩, bs, hbs⟩ := h
      exact ⟨b :: bs, by rw [List.map_cons, List.map_cons, (hf a b).2 hb, hbs]⟩

/-- The fold returns when each of its elements converts. -/
theorem foldlM_returns_iff {ε α β γ : Type} {f : β → α → Except ε β} {conv : α → Option γ} {g : γ → α} {add : β → γ → β}
    (hf : ∀ b a b', f b a = .ok b' ↔ ∃ c, conv a = some c ∧ b' = add b c) (hconv : ∀ a c, conv a = some c ↔ a = g c)
    {l : List α} {b : β} : (∃ b', l.foldlM f b = .ok b') ↔ ∀ a ∈ l, ∃ c, a = g c := by
  rw [← exists_map_eq_some hconv]
  simp only [foldlM_eq_ok hf]
  exact ⟨fun ⟨_, cs, hcs, _⟩ => ⟨cs, hcs⟩, fun ⟨cs, hcs⟩ => ⟨_, cs, hcs, rfl⟩⟩

/-- Its conversion holds the elements given. -/
theorem map_of_map_eq_some {α β : Type} {f : α → Option β} {g : β → α} (hf : ∀ a b, f a = some b ↔ a = g b)
    {l : List α} {bs : List β} (h : l.map f = bs.map some) : bs.map g = l := by
  induction l generalizing bs with
  | nil => cases bs with
    | nil => rfl
    | cons b bs => cases h
  | cons a l ih => cases bs with
    | nil => cases h
    | cons b bs =>
      rw [List.map_cons, List.map_cons, List.cons.injEq] at h
      rw [List.map_cons, ih h.2, (hf a b).1 h.1]

end Fallible
