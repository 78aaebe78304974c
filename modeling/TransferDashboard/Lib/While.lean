/-
While loops whose body may throw.

A loop runs its body as long as its condition holds; what the body did
before it threw stays done, so a loop ends in a state and, if it was thrown
out of, the exception. A loop is given a measure, and `whileLoop_eq` is that
it is the loop it says it is as soon as its body decreases the measure: no
bound on its iterations is left to see. `whileLoop_spec` is the rule for
invariants.
-/
import Mathlib

namespace Loop

variable {S ε : Type}

/-- At most `fuel` iterations: `none` if they are not enough. -/
def iterate (cond : S → Bool) (body : S → S × Option ε) : Nat → S → Option (S × Option ε)
  | 0, _ => none
  | fuel + 1, s =>
    if cond s then
      match (body s).2 with
      | none => iterate cond body fuel (body s).1
      | some e => some ((body s).1, some e)
    else some (s, none)

/-- `while (cond) body`, in as many iterations as the measure of the state. -/
def whileLoop (measure : S → Nat) (cond : S → Bool) (body : S → S × Option ε) (s : S) : S × Option ε :=
  (iterate cond body (measure s + 1) s).getD (s, none)

/-- An iteration that does not throw decreases the measure. -/
def Decreases (measure : S → Nat) (cond : S → Bool) (body : S → S × Option ε) : Prop :=
  ∀ s, cond s = true → (body s).2 = none → measure (body s).1 < measure s

variable {measure : S → Nat} {cond : S → Bool} {body : S → S × Option ε}

theorem iterate_mono {n m : Nat} (hnm : n ≤ m) {s : S} {r : S × Option ε} (h : iterate cond body n s = some r) :
    iterate cond body m s = some r := by
  induction n generalizing m s with
  | zero => cases h
  | succ n ih =>
    obtain ⟨m, rfl⟩ : ∃ k, m = k + 1 := ⟨m - 1, by omega⟩
    simp only [iterate] at h ⊢
    split at h
    next hc =>
      rw [if_pos hc]
      cases hb : (body s).2 with
      | none =>
        rw [hb] at h
        exact ih (Nat.le_of_succ_le_succ hnm) h
      | some e =>
        rw [hb] at h
        exact h
    next hc =>
      rw [if_neg hc]
      exact h

/-- Fuel above the measure is enough. -/
theorem exists_iterate (hdec : Decreases measure cond body) {fuel : Nat} {s : S} (hs : measure s < fuel) :
    ∃ r, iterate cond body fuel s = some r := by
  induction fuel generalizing s with
  | zero => exact absurd hs (Nat.not_lt_zero _)
  | succ fuel ih =>
    simp only [iterate]
    by_cases hc : cond s = true
    · rw [if_pos hc]
      cases hb : (body s).2 with
      | none => exact ih (Nat.lt_of_lt_of_le (hdec s hc hb) (Nat.le_of_lt_succ hs))
      | some e => exact ⟨_, rfl⟩
    · rw [if_neg hc]
      exact ⟨_, rfl⟩

theorem whileLoop_of_iterate {fuel : Nat} {s : S} {r : S × Option ε} (hs : measure s < fuel)
    (hdec : Decreases measure cond body) (h : iterate cond body fuel s = some r) :
    whileLoop measure cond body s = r := by
  obtain ⟨r', hr'⟩ := exists_iterate hdec (Nat.lt_succ_self (measure s))
  have hsame := iterate_mono hs hr'
  rw [h, Option.some.injEq] at hsame
  rw [whileLoop, hr', Option.getD_some, hsame]

/-- After some number of iterations the loop ends, in `r`. -/
def Ends (cond : S → Bool) (body : S → S × Option ε) (s : S) (r : S × Option ε) : Prop :=
  ∃ fuel, iterate cond body fuel s = some r

theorem whileLoop_ends (hdec : Decreases measure cond body) (s : S) :
    Ends cond body s (whileLoop measure cond body s) := by
  obtain ⟨r, hr⟩ := exists_iterate hdec (Nat.lt_succ_self (measure s))
  rw [whileLoop_of_iterate (Nat.lt_succ_self _) hdec hr]
  exact ⟨_, hr⟩

/-- **The loop it says it is.** -/
theorem whileLoop_eq (hdec : Decreases measure cond body) (s : S) : whileLoop measure cond body s =
    if cond s then
      match (body s).2 with
      | none => whileLoop measure cond body (body s).1
      | some e => ((body s).1, some e)
    else (s, none) := by
  obtain ⟨r, hr⟩ := exists_iterate hdec (Nat.lt_succ_self (measure s))
  rw [whileLoop_of_iterate (Nat.lt_succ_self _) hdec hr]
  simp only [iterate] at hr
  split at hr
  next hc =>
    rw [if_pos hc]
    cases hb : (body s).2 with
    | none =>
      rw [hb] at hr
      exact (whileLoop_of_iterate (hdec s hc hb) hdec hr).symm
    | some e =>
      rw [hb] at hr
      exact (Option.some.inj hr).symm
  next hc =>
    rw [if_neg hc]
    exact (Option.some.inj hr).symm

/-- The states the condition is tested in. -/
inductive Visited (cond : S → Bool) (body : S → S × Option ε) (s₀ : S) : S → Prop
  | start : Visited cond body s₀ s₀
  | next {s : S} (h : Visited cond body s₀ s) (hc : cond s = true) (hb : (body s).2 = none) :
      Visited cond body s₀ (body s).1

theorem Visited.trans {s₀ s s' : S} (h : Visited cond body s₀ s) (h' : Visited cond body s s') :
    Visited cond body s₀ s' := by
  induction h' with
  | start => exact h
  | next _ hc hb ih => exact ih.next hc hb

/-- From a state it comes to, the loop goes on as it does. -/
theorem Visited.whileLoop_eq (hdec : Decreases measure cond body) {s₀ s : S} (h : Visited cond body s₀ s) :
    whileLoop measure cond body s₀ = whileLoop measure cond body s := by
  induction h with
  | start => rfl
  | next _ hc hb ih => rw [ih, Loop.whileLoop_eq hdec, if_pos hc, hb]

/-- Out of the loop one comes with its condition false, or by an exception. -/
inductive Leaves (I J : S → Prop) (cond : S → Bool) : S × Option ε → Prop
  | done {s : S} (hI : I s) (hc : cond s = false) : Leaves I J cond (s, none)
  | thrown {s : S} (e : ε) (hJ : J s) : Leaves I J cond (s, some e)

/-- **The invariant rule.** What an iteration keeps holds when the loop is
done; where it throws, what it leaves is `J`. -/
theorem whileLoop_spec_visited (hdec : Decreases measure cond body) {I J : S → Prop} {s₀ : S}
    (hbody : ∀ s, Visited cond body s₀ s → I s → cond s = true →
      ((body s).2 = none → I (body s).1) ∧ ((body s).2 ≠ none → J (body s).1))
    (hs₀ : I s₀) : Leaves I J cond (whileLoop measure cond body s₀) := by
  suffices H : ∀ m s, measure s = m → Visited cond body s₀ s → I s →
      Leaves I J cond (whileLoop measure cond body s) from H _ s₀ rfl .start hs₀
  intro m
  induction m using Nat.strong_induction_on with
  | h m ih =>
    intro s hm hv hs
    rw [whileLoop_eq hdec]
    by_cases hc : cond s = true
    · obtain ⟨hkeep, hthrow⟩ := hbody s hv hs hc
      rw [if_pos hc]
      cases hb : (body s).2 with
      | none => exact ih _ (hm ▸ hdec s hc hb) _ rfl (hv.next hc hb) (hkeep hb)
      | some e => exact .thrown e (hthrow (by rw [hb]; exact Option.some_ne_none e))
    · rw [if_neg hc]
      exact .done hs (Bool.eq_false_iff.2 hc)

/-- The rule, where the states visited do not matter. -/
theorem whileLoop_spec (hdec : Decreases measure cond body) {I J : S → Prop}
    (hbody : ∀ s, I s → cond s = true → ((body s).2 = none → I (body s).1) ∧ ((body s).2 ≠ none → J (body s).1))
    {s : S} (hs : I s) : Leaves I J cond (whileLoop measure cond body s) :=
  whileLoop_spec_visited hdec (fun s _ => hbody s) hs

end Loop
