/-
Runs of a machine that takes one action at a time, and what holds of all of
them.

`step s a` is `none` where `a` cannot happen. A state is reached when some
list of actions runs to it, so a statement about every run of every length
is one about every reachable state. `run_induction` is the one induction on
runs: its invariant may speak of the actions so far and may assume of each
action what a guard says (`Meets`).
-/
import Mathlib

namespace Machine

variable {S A : Type} (step : S → A → Option S)

def run : S → List A → Option S
  | s, [] => some s
  | s, a :: as => (step s a).bind fun s' => run s' as

/-- Every action of the run is `ok` in the state it is taken in. -/
def Meets (ok : S → A → Prop) : S → List A → Prop
  | _, [] => True
  | s, a :: as => ok s a ∧ ∀ s', step s a = some s' → Meets ok s' as

variable {step}

@[simp] theorem run_nil (s : S) : run step s [] = some s := rfl

theorem run_cons {s s' : S} {a : A} {as : List A} :
    run step s (a :: as) = some s' ↔ ∃ t, step s a = some t ∧ run step t as = some s' := by
  simp [run, Option.bind_eq_some_iff]

theorem run_append {s s' : S} {as bs : List A} :
    run step s (as ++ bs) = some s' ↔ ∃ t, run step s as = some t ∧ run step t bs = some s' := by
  induction as generalizing s with
  | nil => simp
  | cons a as ih =>
    simp only [List.cons_append, run_cons, ih]
    refine ⟨fun h => ?_, fun h => ?_⟩
    · obtain ⟨t, ht, u, hu, h⟩ := h
      exact ⟨u, ⟨t, ht, hu⟩, h⟩
    · obtain ⟨u, ⟨t, ht, hu⟩, h⟩ := h
      exact ⟨t, ht, u, hu, h⟩

/-- **Induction on runs.** What holds of the empty run, and is kept by every
action that `G` allows, holds after every run of such actions. -/
theorem run_induction {G : S → A → Prop} {I : List A → S → Prop} {s s' : S} {as : List A}
    (h₀ : I [] s) (hstep : ∀ bs t a t', I bs t → G t a → step t a = some t' → I (bs ++ [a]) t')
    (hG : Meets step G s as) (h : run step s as = some s') : I as s' := by
  suffices H : ∀ (as : List A) (pre : List A) (t : S), I pre t → Meets step G t as → run step t as = some s' →
      I (pre ++ as) s' by simpa using H as [] s h₀ hG h
  intro as
  induction as with
  | nil =>
    intro pre t hI _ hr
    simp only [run_nil, Option.some.injEq] at hr
    subst hr
    simpa using hI
  | cons a as ih =>
    intro pre t hI hm hr
    obtain ⟨t', ht', hr⟩ := run_cons.1 hr
    have := ih (pre ++ [a]) t' (hstep pre t a t' hI hm.1 ht') (hm.2 t' ht') hr
    simpa using this

theorem meets_true (s : S) (as : List A) : Meets step (fun _ _ => True) s as := by
  induction as generalizing s with
  | nil => trivial
  | cons a as ih => exact ⟨trivial, fun s' _ => ih s'⟩

/-- What every action of the list meets in every state. -/
theorem meets_of_forall {ok : S → A → Prop} {s : S} {as : List A} (h : ∀ a ∈ as, ∀ s, ok s a) :
    Meets step ok s as := by
  induction as generalizing s with
  | nil => trivial
  | cons a as ih => exact ⟨h a List.mem_cons_self s, fun s' _ => ih fun b hb => h b (List.mem_cons_of_mem a hb)⟩

/-- In a run that goes through, every action meets what is asked of it. -/
theorem Meets.forall_mem {ok : S → A → Prop} {ok' : A → Prop} (himp : ∀ s a, ok s a → ok' a) {s s' : S} {as : List A}
    (h : Meets step ok s as) (hrun : run step s as = some s') : ∀ a ∈ as, ok' a := by
  induction as generalizing s with
  | nil => intro a ha; cases ha
  | cons b as ih =>
    obtain ⟨t, ht, hrest⟩ := run_cons.1 hrun
    intro a ha
    rcases List.mem_cons.1 ha with rfl | hmem
    · exact himp s a h.1
    · exact ih (h.2 t ht) hrest a hmem

theorem Meets.append {ok : S → A → Prop} {s : S} {as bs : List A} (h : Meets step ok s as)
    (h' : ∀ t, run step s as = some t → Meets step ok t bs) : Meets step ok s (as ++ bs) := by
  induction as generalizing s with
  | nil => exact h' s rfl
  | cons a as ih =>
    refine ⟨h.1, fun t ht => ih (h.2 t ht) fun u hu => h' u ?_⟩
    exact run_cons.2 ⟨t, ht, hu⟩

theorem Meets.and {ok ok' : S → A → Prop} {s : S} {as : List A} (h : Meets step ok s as) (h' : Meets step ok' s as) :
    Meets step (fun s a => ok s a ∧ ok' s a) s as := by
  induction as generalizing s with
  | nil => trivial
  | cons a as ih => exact ⟨⟨h.1, h'.1⟩, fun s' hs' => ih (h.2 s' hs') (h'.2 s' hs')⟩

/-- An invariant of every step holds of every state reached. -/
theorem run_invariant {I : S → Prop} {s s' : S} {as : List A} (h₀ : I s)
    (hstep : ∀ t a t', I t → step t a = some t' → I t') (h : run step s as = some s') : I s' :=
  run_induction (I := fun _ => I) h₀ (fun _ t a t' hI _ => hstep t a t' hI) (meets_true s as) h

/-- **Two machines in step.** Where `f` carries each step of one machine to
one of the other, it carries its runs to runs. -/
theorem run_map {S' : Type} {step' : S' → A → Option S'} {f : S → S'} {I : S → Prop} {G : S → A → Prop}
    (hstep : ∀ s a, I s → G s a → step' (f s) a = (step s a).map f)
    (hkeep : ∀ s a s', I s → G s a → step s a = some s' → I s') {s : S} {as : List A} (h₀ : I s)
    (hG : Meets step G s as) : run step' (f s) as = (run step s as).map f := by
  induction as generalizing s with
  | nil => rfl
  | cons a as ih =>
    rw [run, run, hstep s a h₀ hG.1]
    cases hs : step s a with
    | none => rfl
    | some t => exact ih (hkeep s a t h₀ hG.1 hs) (hG.2 t hs)

/-- **A machine that keeps more.** Where every step of a machine is one of the
machine that keeps more, as far as `f` and `g` show it, so is every run. -/
theorem run_lift {S' A' : Type} {step' : S' → A' → Option S'} {f : S' → S} {g : A' → A}
    (hstep : ∀ x a t, step (f x) (g a) = some t → ∃ y, step' x a = some y ∧ f y = t) {x : S'} {as : List A'} {t : S}
    (h : run step (f x) (as.map g) = some t) : ∃ y, run step' x as = some y ∧ f y = t := by
  induction as generalizing x with
  | nil => exact ⟨x, rfl, by simpa using h⟩
  | cons a as ih =>
    obtain ⟨u, hu, hrest⟩ := run_cons.1 h
    obtain ⟨y, hy, rfl⟩ := hstep x a u hu
    obtain ⟨z, hz, hf⟩ := ih hrest
    exact ⟨z, run_cons.2 ⟨y, hy, hz⟩, hf⟩

end Machine
