/-
How long a machine can go on, and where it has to end.

A measure that every action lowers, but for what some actions are allowed to
add to it, bounds the length of every run (`run_length_le`). When a state
that is not yet `Done` always has an action that lowers it, some run leads to
one that is (`exists_run_to`); and a run that cannot be extended ends in one.
-/
import TransferDashboard.Lib.Machine

namespace Machine

variable {S A : Type} {step : S → A → Option S} {I : S → Prop} {ok : S → A → Prop} {μ : S → Nat}

/-- Each action takes at least one from the measure; those that are `paid`
may put `n` to it. -/
theorem run_length_le (I : S → Prop) (ok : S → A → Prop) (μ : S → Nat) (paid : A → Bool) (n : Nat)
    (hI : ∀ s a s', I s → ok s a → step s a = some s' → I s')
    (hμ : ∀ s a s', I s → ok s a → step s a = some s' → μ s' + 1 ≤ μ s + if paid a then n else 0) {s s' : S}
    {as : List A} (hs : I s) (hok : Meets step ok s as) (h : run step s as = some s') :
    as.length + μ s' ≤ μ s + n * as.countP paid := by
  induction as generalizing s with
  | nil =>
    rw [run_nil, Option.some.injEq] at h
    subst h
    simp
  | cons a as ih =>
    obtain ⟨t, ht, hrest⟩ := run_cons.1 h
    have hlater := ih (hI s a t hs hok.1 ht) (hok.2 t ht) hrest
    have hnow := hμ s a t hs hok.1 ht
    have hpaid : n * (a :: as).countP paid = n * as.countP paid + if paid a then n else 0 := by
      rw [List.countP_cons, Nat.mul_add]
      split <;> simp
    rw [List.length_cons, hpaid]
    omega

/-- **Getting there.** While it is not done, a good state has an action to a
good state that lowers the measure. -/
theorem exists_run_to {Done : S → Prop}
    (hgo : ∀ s, I s → ¬ Done s → ∃ a s', ok s a ∧ step s a = some s' ∧ I s' ∧ μ s' < μ s) {s : S} (hs : I s) :
    ∃ as s', Meets step ok s as ∧ run step s as = some s' ∧ I s' ∧ Done s' := by
  induction hn : μ s using Nat.strong_induction_on generalizing s with
  | _ n ih =>
    by_cases hd : Done s
    · exact ⟨[], s, trivial, rfl, hs, hd⟩
    · obtain ⟨a, t, ha, ht, hIt, hlt⟩ := hgo s hs hd
      obtain ⟨as, s', hmeets, hrun, hI', hd'⟩ := ih (μ t) (hn ▸ hlt) hIt rfl
      refine ⟨a :: as, s', ⟨ha, fun t' ht' => ?_⟩, run_cons.2 ⟨t, ht, hrun⟩, hI', hd'⟩
      rw [ht, Option.some.injEq] at ht'
      exact ht' ▸ hmeets

/-! ## Counters, one for each of finitely many keys -/

/-- Only one counter changes. -/
theorem sum_of_agree {K : Type} [Fintype K] [DecidableEq K] {f g : K → Nat} (k : K) (h : ∀ j, j ≠ k → g j = f j) :
    ∑ j, g j + f k = ∑ j, f j + g k := by
  have hrest : ∑ j ∈ Finset.univ.erase k, g j = ∑ j ∈ Finset.univ.erase k, f j :=
    Finset.sum_congr rfl fun j hj => h j (Finset.ne_of_mem_erase hj)
  rw [← Finset.add_sum_erase Finset.univ f (Finset.mem_univ k), ← Finset.add_sum_erase Finset.univ g (Finset.mem_univ k),
    hrest]
  omega

theorem sum_update {K : Type} [Fintype K] [DecidableEq K] (f : K → Nat) (k : K) (n : Nat) :
    ∑ j, Function.update f k n j + f k = ∑ j, f j + n := by
  have hsum := sum_of_agree (f := f) (g := Function.update f k n) k fun j hj => Function.update_of_ne hj n f
  rwa [Function.update_self] at hsum

end Machine
