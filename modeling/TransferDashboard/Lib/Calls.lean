/-
Programs that call out, against programs that only note what they would
call.

The function called keeps a world of its own and may throw, which ends the
program there (`callAll`). `Agrees` ties a step of the one program to a step
of the other: the calls made are those noted, until one throws. It goes
through sequences (`Agrees.andThen`) and loops (`agrees_whileLoop`), so a
whole program makes the calls it notes, in order, up to the first that
throws (`Agrees.calls`).
-/
import TransferDashboard.Lib.While

namespace Loop

variable {S E τ ε : Type}

/-- Calls made one after another, until one throws. -/
def callAll (f : E → τ → τ × Option ε) : List E → τ → τ × Option ε
  | [], t => (t, none)
  | e :: es, t =>
    match (f e t).2 with
    | none => callAll f es (f e t).1
    | some error => ((f e t).1, some error)

theorem callAll_append (f : E → τ → τ × Option ε) (es es' : List E) (t : τ) : callAll f (es ++ es') t =
    match (callAll f es t).2 with
    | none => callAll f es' (callAll f es t).1
    | some error => ((callAll f es t).1, some error) := by
  induction es generalizing t with
  | nil => rfl
  | cons e es ih =>
    rw [List.cons_append, callAll, callAll]
    cases (f e t).2 with
    | none => exact ih _
    | some error => rfl

/-- Which call it was that threw, if one did. -/
theorem callAll_cases (f : E → τ → τ × Option ε) (es : List E) (t : τ) :
    (callAll f es t).2 = none ∨ ∃ before e after error, es = before ++ e :: after ∧
      (callAll f before t).2 = none ∧ callAll f es t = f e (callAll f before t).1 ∧
        (f e (callAll f before t).1).2 = some error := by
  induction es generalizing t with
  | nil => exact .inl rfl
  | cons e es ih =>
    cases he : (f e t).2 with
    | some error =>
      have hall : callAll f (e :: es) t = f e t := by
        rw [callAll, he]
        exact Prod.ext rfl he.symm
      exact .inr ⟨[], e, es, error, rfl, rfl, hall, he⟩
    | none =>
      have hrest : ∀ es, callAll f (e :: es) t = callAll f es (f e t).1 := by
        intro es
        rw [callAll, he]
      rcases ih (f e t).1 with hnone | ⟨before, e', after, error, rfl, hbefore, hall, hthrows⟩
      · exact .inl (by rw [hrest]; exact hnone)
      · refine .inr ⟨e :: before, e', after, error, rfl, ?_, ?_, ?_⟩
        · rw [hrest]
          exact hbefore
        · rw [hrest, hrest]
          exact hall
        · rw [hrest]
          exact hthrows

/-- From `s` and `t`, what a program that notes its calls comes to, and what
one that makes them does. -/
inductive Agrees (f : E → τ → τ × Option ε) (note : S → List E) (s : S) (t : τ) :
    S × Option ε → (S × τ) × Option ε → Prop
  | returned {s' : S} {t' : τ} {o : Option ε} {es : List E} (hes : note s' = note s ++ es)
      (hcalls : callAll f es t = (t', none)) : Agrees f note s t (s', o) ((s', t'), o)
  | threw {s' s'' : S} {t' : τ} {o : Option ε} {error : ε} {es : List E} (hes : note s' = note s ++ es)
      (hcalls : callAll f es t = (t', some error)) : Agrees f note s t (s', o) ((s'', t'), some error)

variable {f : E → τ → τ × Option ε} {note : S → List E}

/-- A step that notes nothing and calls nothing. -/
theorem Agrees.silent {s s' : S} {o : Option ε} (h : note s' = note s) (t : τ) :
    Agrees f note s t (s', o) ((s', t), o) :=
  have hes : note s' = note s ++ [] := by rw [h, List.append_nil]
  .returned hes rfl

/-- Only what was noted counts of where a step began. -/
theorem Agrees.of_note {s s₁ : S} {t : τ} {q : S × Option ε} {r : (S × τ) × Option ε} (hnote : note s₁ = note s)
    (h : Agrees f note s₁ t q r) : Agrees f note s t q r := by
  cases h with
  | returned hes hcalls => exact .returned (by rw [hes, hnote]) hcalls
  | threw hes hcalls => exact .threw (by rw [hes, hnote]) hcalls

/-- One call, of what was noted last. -/
theorem Agrees.call {s s' s'' : S} {t : τ} {e : E} {o : Option ε} (hnote : note s' = note s ++ [e]) (h : (f e t).2 = o)
    (hsame : o = none → s'' = s') : Agrees f note s t (s', none) ((s'', (f e t).1), o) := by
  cases o with
  | none =>
    rw [hsame rfl]
    exact .returned hnote (by rw [callAll, h, callAll])
  | some error => exact .threw hnote (by rw [callAll, h])

/-- What a step notes comes after what was noted before. -/
theorem Agrees.grows {s : S} {t : τ} {q : S × Option ε} {r : (S × τ) × Option ε} (h : Agrees f note s t q r) :
    ∃ es, note q.1 = note s ++ es := by
  cases h with
  | returned hes | threw hes => exact ⟨_, hes⟩

/-- One thing after another. -/
theorem Agrees.andThen {s s' : S} {t : τ} {r : (S × τ) × Option ε} {q : S × Option ε} {q' : S × τ → (S × τ) × Option ε}
    (h : Agrees f note s t (s', none) r) (hgrows : ∃ es, note q.1 = note s' ++ es)
    (hrest : ∀ t', Agrees f note s' t' q (q' (s', t'))) :
    Agrees f note s t q (match r.2 with
      | none => q' r.1
      | some error => (r.1, some error)) := by
  cases h with
  | @returned _ t' _ es hes hcalls =>
    have hstep : ∀ {es' r' o}, callAll f es' t' = (r', o) → callAll f (es ++ es') t = (r', o) := by
      intro es' r' o h
      rw [callAll_append, hcalls]
      exact h
    have hthen := hrest t'
    change Agrees f note s t q (q' (s', t'))
    generalize q' (s', t') = r' at hthen ⊢
    cases hthen with
    | returned hes' hcalls' => exact .returned (by rw [hes', hes, List.append_assoc]) (hstep hcalls')
    | threw hes' hcalls' => exact .threw (by rw [hes', hes, List.append_assoc]) (hstep hcalls')
  | @threw _ s'' t' _ error es hes hcalls =>
    obtain ⟨es', hes'⟩ := hgrows
    have hboth : note q.1 = note s ++ (es ++ es') := by rw [hes', hes, List.append_assoc]
    exact .threw hboth (by rw [callAll_append, hcalls])

variable {measure : S → Nat} {cond : S → Bool} {body : S → S × Option ε} {bodyWith : S × τ → (S × τ) × Option ε}

/-- A loop notes what its iterations note. -/
theorem grows_whileLoop (hdec : Decreases measure cond body)
    (hgrows : ∀ s, cond s = true → ∃ es, note (body s).1 = note s ++ es) (s : S) :
    ∃ es, note (whileLoop measure cond body s).1 = note s ++ es := by
  have hstep : ∀ s', (∃ es, note s' = note s ++ es) → cond s' = true → ∃ es, note (body s').1 = note s ++ es := by
    intro s' hs' hc
    obtain ⟨es, hes⟩ := hs'
    obtain ⟨es', hes'⟩ := hgrows s' hc
    exact ⟨es ++ es', by rw [hes', hes, List.append_assoc]⟩
  have hleaves := whileLoop_spec hdec (J := fun s' => ∃ es, note s' = note s ++ es)
    (fun s' hs' hc => ⟨fun _ => hstep s' hs' hc, fun _ => hstep s' hs' hc⟩) ⟨[], (List.append_nil _).symm⟩
  generalize whileLoop measure cond body s = r at hleaves
  cases hleaves with
  | done hI hc => exact hI
  | thrown e hJ => exact hJ

/-- **Loops.** Iterations that agree make loops that agree. -/
theorem agrees_whileLoop (hdec : Decreases measure cond body)
    (hbody : ∀ s t, cond s = true → Agrees f note s t (body s) (bodyWith (s, t))) (s : S) (t : τ) :
    Agrees f note s t (whileLoop measure cond body s)
      (whileLoop (fun x => measure x.1) (fun x => cond x.1) bodyWith (s, t)) := by
  have hgrows : ∀ s, cond s = true → ∃ es, note (body s).1 = note s ++ es := fun s hc => (hbody s t hc).grows
  have hdecWith : Decreases (fun x : S × τ => measure x.1) (fun x => cond x.1) bodyWith := by
    rintro ⟨s, t⟩ hc hb
    have hagree := hbody s t hc
    have hless := hdec s hc
    generalize bodyWith (s, t) = r at hagree hb ⊢
    generalize body s = q at hagree hless
    cases hagree with
    | returned hes hcalls => exact hless hb
    | threw hes hcalls => cases hb
  suffices H : ∀ m s t, measure s = m → Agrees f note s t (whileLoop measure cond body s)
      (whileLoop (fun x => measure x.1) (fun x => cond x.1) bodyWith (s, t)) from H _ s t rfl
  intro m
  induction m using Nat.strong_induction_on with
  | h m ih =>
    intro s t hm
    rw [whileLoop_eq hdec, whileLoop_eq hdecWith]
    by_cases hc : cond s = true
    · rw [if_pos hc, if_pos hc]
      have hagree := hbody s t hc
      have hless := hdec s hc
      cases hb : (body s).2 with
      | some error =>
        generalize bodyWith (s, t) = r at hagree ⊢
        generalize body s = q at hagree hb
        obtain ⟨s', o⟩ := q
        obtain rfl : o = some error := hb
        cases hagree with
        | returned hes hcalls => exact .returned hes hcalls
        | threw hes hcalls => exact .threw hes hcalls
      | none =>
        have hsome : body s = ((body s).1, none) := by rw [← hb]
        rw [hsome] at hagree
        exact hagree.andThen (grows_whileLoop hdec hgrows (body s).1) (fun t' => ih _ (hm ▸ hless hb) _ t' rfl)
    · rw [if_neg hc, if_neg hc]
      exact .silent rfl t

/-- **The calls made** are those noted, up to the first that throws; if none
does, the program comes to what it would have come to. -/
theorem Agrees.calls {s : S} {t : τ} {q : S × Option ε} {r : (S × τ) × Option ε} (h : Agrees f note s t q r)
    (hnone : note s = []) : r.1.2 = (callAll f (note q.1) t).1 ∧
      ((callAll f (note q.1) t).2 = none → r.1.1 = q.1 ∧ r.2 = q.2) ∧
        ∀ error, (callAll f (note q.1) t).2 = some error → r.2 = some error := by
  cases h with
  | returned hes hcalls =>
    rw [hnone, List.nil_append] at hes
    simp [hes, hcalls]
  | threw hes hcalls =>
    rw [hnone, List.nil_append] at hes
    simp [hes, hcalls]

end Loop
