/-
Items and their answers.

Some items open something that one later item answers. Of the items done, in
order, and those that wait to be done, `Justified` says that an answer comes
after what it answers, and `Balanced` besides that no two have one identity
and each opener that is done has exactly one answer, done or waiting. Doing
an item that waits keeps them (`emit`), as does a new item, with its answer
put to wait if it is an opener (`opened`, `plain`); for `Balanced` the new
item's identity must be fresh. Once nothing waits, each opener is answered
exactly once (`Balanced.answered_once`).
-/
import Mathlib

namespace Ledger

variable {α ι : Type}

/-- What items are: their identity, what they answer, whether they open
something, and what answers an opener rightly. -/
structure Rules (α ι : Type) where
  id : α → ι
  answers : α → Option ι
  opens : α → Prop
  Right : α → α → Prop

/-- An answer to `i` answers an opener among the items before it. -/
def Rules.Answers (R : Rules α ι) (before : List α) (r : α) (i : ι) : Prop :=
  ∃ o ∈ before, R.opens o ∧ R.id o = i ∧ R.Right o r

theorem Rules.Answers.mono {R : Rules α ι} {before before' : List α} {r : α} {i : ι} (h : R.Answers before r i)
    (hsub : before ⊆ before') : R.Answers before' r i := by
  obtain ⟨o, ho, hrest⟩ := h
  exact ⟨o, hsub ho, hrest⟩

variable {R : Rules α ι} {done : List α} {waiting : Multiset α}

/-! ## After what it answers -/

structure Justified (R : Rules α ι) (done : List α) (waiting : Multiset α) : Prop where
  waits : ∀ r ∈ waiting, ¬ R.opens r ∧ ∃ i, R.answers r = some i ∧ R.Answers done r i
  answered : ∀ k r, done[k]? = some r → ∀ i, R.answers r = some i → R.Answers (done.take k) r i

namespace Justified

theorem nil : Justified R [] 0 where
  waits r h := absurd h (Multiset.notMem_zero r)
  answered k r h := by cases h

/-- One more item is done, after what it answers. -/
theorem answered_snoc (h : Justified R done waiting) {a : α} (ha : ∀ i, R.answers a = some i → R.Answers done a i)
    (k : Nat) (r : α) (hr : (done ++ [a])[k]? = some r) (i : ι) (hi : R.answers r = some i) :
    R.Answers ((done ++ [a]).take k) r i := by
  rcases Nat.lt_trichotomy k done.length with hlt | heq | hgt
  · rw [List.getElem?_append_left hlt] at hr
    rw [List.take_append_of_le_length (Nat.le_of_lt hlt)]
    exact h.answered k r hr i hi
  · rw [heq, List.getElem?_concat_length, Option.some.injEq] at hr
    rw [heq, List.take_left']
    · exact hr ▸ ha i (hr ▸ hi)
    · rfl
  · rw [List.getElem?_eq_none (by rw [List.length_append, List.length_singleton]; exact hgt)] at hr
    cases hr

/-- What waits still answers something done. -/
theorem waits_snoc (h : Justified R done waiting) (o : α) :
    ∀ r ∈ waiting, ¬ R.opens r ∧ ∃ i, R.answers r = some i ∧ R.Answers (done ++ [o]) r i := by
  intro r hr
  obtain ⟨hopens, i, hi, hanswers⟩ := h.waits r hr
  exact ⟨hopens, i, hi, hanswers.mono (List.subset_append_left _ _)⟩

theorem emit {r : α} (h : Justified R done (r ::ₘ waiting)) : Justified R (done ++ [r]) waiting where
  waits r' hr' := h.waits_snoc r r' (Multiset.mem_cons_of_mem hr')
  answered := by
    obtain ⟨-, i, hi, hanswers⟩ := h.waits r (Multiset.mem_cons_self r waiting)
    refine h.answered_snoc fun j hj => ?_
    rw [hi, Option.some.injEq] at hj
    rw [← hj]
    exact hanswers

/-- A new item that does not answer. -/
theorem plain (h : Justified R done waiting) {o : α} (hans : R.answers o = none) : Justified R (done ++ [o]) waiting where
  waits := h.waits_snoc o
  answered := by
    refine h.answered_snoc fun i hi => ?_
    rw [hans] at hi
    cases hi

/-- A new opener, and its answer put to wait. -/
theorem opened (h : Justified R done waiting) {o r : α} (hans : R.answers o = none) (hopen : R.opens o)
    (hno : ¬ R.opens r) (hr : R.answers r = some (R.id o)) (hright : R.Right o r) :
    Justified R (done ++ [o]) (r ::ₘ waiting) where
  waits r' hr' := by
    rcases Multiset.mem_cons.1 hr' with rfl | hrest
    · exact ⟨hno, R.id o, hr, o, List.mem_append_right _ (List.mem_singleton_self o), hopen, rfl, hright⟩
    · exact h.waits_snoc o r' hrest
  answered := (h.plain hans).answered

/-- What is done as an answer answers something done before. -/
theorem answers_of_split (h : Justified R done waiting) {before after : List α} {r : α} {i : ι}
    (hsplit : done = before ++ r :: after) (hr : R.answers r = some i) : R.Answers before r i := by
  have hget : done[before.length]? = some r := by
    rw [hsplit, List.getElem?_append_right (Nat.le_refl _), Nat.sub_self, List.getElem?_cons_zero]
  have hanswers := h.answered before.length r hget i hr
  rw [hsplit, List.take_left] at hanswers
  exact hanswers

end Justified

/-! ## Answered once -/

variable [DecidableEq ι]

structure Balanced (R : Rules α ι) (done : List α) (waiting : Multiset α) : Prop extends Justified R done waiting where
  nodup : ((waiting + done).map R.id).Nodup
  once : ∀ o ∈ done, R.opens o → (waiting + done).countP (fun a => R.answers a = some (R.id o)) = 1

/-- No item has the identity. -/
def Fresh (R : Rules α ι) (done : List α) (waiting : Multiset α) (i : ι) : Prop :=
  ∀ a, a ∈ waiting ∨ a ∈ done → R.id a ≠ i

namespace Balanced

theorem nil : Balanced R [] 0 where
  toJustified := .nil
  nodup := Multiset.nodup_zero
  once o h := by cases h

theorem emit {r : α} (h : Balanced R done (r ::ₘ waiting)) : Balanced R (done ++ [r]) waiting := by
  have hsame : waiting + ((done ++ [r] : List α) : Multiset α) = (r ::ₘ waiting) + (done : Multiset α) := by
    rw [← Multiset.coe_add, Multiset.cons_add, ← add_assoc, ← Multiset.singleton_add, Multiset.coe_singleton, add_comm]
  refine { toJustified := h.toJustified.emit, nodup := ?_, once := ?_ }
  · rw [hsame]
    exact h.nodup
  · intro o ho hopen
    rw [hsame]
    rcases List.mem_append.1 ho with hold | hnew
    · exact h.once o hold hopen
    · rw [List.mem_singleton.1 hnew] at hopen
      exact absurd hopen (h.waits r (Multiset.mem_cons_self r waiting)).1

/-- What is answered is done already. -/
theorem answers_ne_of_fresh (h : Balanced R done waiting) {i : ι} (hfresh : Fresh R done waiting i) :
    ∀ a, a ∈ waiting ∨ a ∈ done → R.answers a ≠ some i := by
  intro a ha hi
  have hanswers : ∃ before, before ⊆ done ∧ R.Answers before a i := by
    rcases ha with hwait | hdone
    · obtain ⟨-, j, hj, hanswers⟩ := h.waits a hwait
      rw [hi, Option.some.injEq] at hj
      exact ⟨done, List.Subset.refl done, hj ▸ hanswers⟩
    · obtain ⟨k, hk⟩ := List.mem_iff_getElem?.1 hdone
      exact ⟨done.take k, List.take_subset k done, h.answered k a hk i hi⟩
  obtain ⟨before, hsub, o, ho, -, hid, -⟩ := hanswers
  exact hfresh o (.inr (hsub ho)) hid

theorem countP_eq_zero_of_fresh (h : Balanced R done waiting) {i : ι} (hfresh : Fresh R done waiting i) :
    (waiting + done).countP (fun a => R.answers a = some i) = 0 := by
  rw [Multiset.countP_eq_zero]
  intro a ha
  rw [Multiset.mem_add, Multiset.mem_coe] at ha
  exact h.answers_ne_of_fresh hfresh a ha

omit [DecidableEq ι] in
theorem add_snoc (waiting : Multiset α) (done : List α) (o : α) :
    waiting + ((done ++ [o] : List α) : Multiset α) = o ::ₘ (waiting + done) := by
  rw [← Multiset.coe_add, Multiset.coe_singleton, ← add_assoc, add_comm, Multiset.singleton_add]

theorem countP_cons_other {a : α} {i : ι} (h : R.answers a ≠ some i) (s : Multiset α) :
    (a ::ₘ s).countP (fun a => R.answers a = some i) = s.countP (fun a => R.answers a = some i) :=
  Multiset.countP_cons_of_neg s h

omit [DecidableEq ι] in
theorem answers_ne_of_none {o : α} (hans : R.answers o = none) (i : ι) : R.answers o ≠ some i := by
  rw [hans]
  exact (Option.some_ne_none i).symm

/-- A new item that neither opens nor answers. -/
theorem plain (h : Balanced R done waiting) {o : α} (hans : R.answers o = none) (hopen : ¬ R.opens o)
    (hfresh : Fresh R done waiting (R.id o)) : Balanced R (done ++ [o]) waiting := by
  refine { toJustified := h.toJustified.plain hans, nodup := ?_, once := ?_ }
  · rw [add_snoc, Multiset.map_cons, Multiset.nodup_cons]
    refine ⟨fun hmem => ?_, h.nodup⟩
    obtain ⟨a, ha, hid⟩ := Multiset.mem_map.1 hmem
    rw [Multiset.mem_add, Multiset.mem_coe] at ha
    exact hfresh a ha hid
  · intro o' ho' hopen'
    rcases List.mem_append.1 ho' with hold | hnew
    · rw [add_snoc, countP_cons_other (answers_ne_of_none hans _)]
      exact h.once o' hold hopen'
    · rw [List.mem_singleton.1 hnew] at hopen'
      exact absurd hopen' hopen

/-- A new opener, and its answer put to wait. -/
theorem opened (h : Balanced R done waiting) {o r : α} (hans : R.answers o = none) (hopen : R.opens o)
    (hfresh : Fresh R done waiting (R.id o)) (hno : ¬ R.opens r) (hr : R.answers r = some (R.id o))
    (hright : R.Right o r) (hfresh' : Fresh R done waiting (R.id r)) (hne : R.id r ≠ R.id o) :
    Balanced R (done ++ [o]) (r ::ₘ waiting) := by
  have hold := h.countP_eq_zero_of_fresh hfresh
  have hmem : ∀ a, a ∈ waiting + (done : Multiset α) → a ∈ waiting ∨ a ∈ done := by
    intro a ha
    rwa [Multiset.mem_add, Multiset.mem_coe] at ha
  refine { toJustified := h.toJustified.opened hans hopen hno hr hright, nodup := ?_, once := ?_ }
  · rw [Multiset.cons_add, add_snoc, Multiset.map_cons, Multiset.map_cons, Multiset.nodup_cons, Multiset.nodup_cons]
    refine ⟨fun hm => ?_, fun hm => ?_, h.nodup⟩
    · rcases Multiset.mem_cons.1 hm with heq | hrest
      · exact hne heq
      · obtain ⟨a, ha, hid⟩ := Multiset.mem_map.1 hrest
        exact hfresh' a (hmem a ha) hid
    · obtain ⟨a, ha, hid⟩ := Multiset.mem_map.1 hm
      exact hfresh a (hmem a ha) hid
  · intro o' ho' hopen'
    rw [Multiset.cons_add, add_snoc]
    rcases List.mem_append.1 ho' with hin | hnew
    · have hid : R.id o' ≠ R.id o := hfresh o' (.inr hin)
      rw [countP_cons_other (by rw [hr, ne_eq, Option.some.injEq]; exact fun heq => hid heq.symm),
        countP_cons_other (answers_ne_of_none hans _)]
      exact h.once o' hin hopen'
    · rw [List.mem_singleton.1 hnew,
        Multiset.countP_cons_of_pos (p := fun a => R.answers a = some (R.id o)) _ hr,
        countP_cons_other (answers_ne_of_none hans _), hold]

omit [DecidableEq ι] in
/-- One identity, one item. -/
theorem eq_of_id {l : List α} (hnd : (l.map R.id).Nodup) {a b : α} (ha : a ∈ l) (hb : b ∈ l) (hid : R.id a = R.id b) :
    a = b := List.inj_on_of_nodup_map hnd ha hb hid

theorem nodup_done (h : Balanced R done waiting) : (done.map R.id).Nodup := by
  have hnd := h.nodup
  rw [Multiset.map_add, Multiset.map_coe] at hnd
  exact (Multiset.nodup_add.1 hnd).2.1

/-- **Answered once.** When nothing waits, an opener has one answer among
the items after it, a right one, and none before. -/
theorem answered_once (h : Balanced R done 0) {before after : List α} {o : α} (hsplit : done = before ++ o :: after)
    (hopen : R.opens o) : ∃ r, after.filter (fun a => R.answers a = some (R.id o)) = [r] ∧ R.Right o r ∧
      ∀ a ∈ before ++ [o], R.answers a ≠ some (R.id o) := by
  have hnd := h.nodup_done
  have ho : o ∈ done := by rw [hsplit]; exact List.mem_append_right _ List.mem_cons_self
  -- An answer at a place has the opener strictly before that place.
  have hplace : ∀ k a, done[k]? = some a → R.answers a = some (R.id o) → before.length < k ∧ R.Right o a := by
    intro k a hk ha
    obtain ⟨o', ho', -, hid, hright⟩ := h.answered k a hk _ ha
    have heq : o' = o := eq_of_id hnd (List.take_subset k done ho') ho hid
    subst heq
    refine ⟨?_, hright⟩
    by_contra hle
    rw [hsplit, List.take_append_of_le_length (Nat.le_of_not_lt hle)] at ho'
    rw [hsplit, List.map_append, List.map_cons, List.nodup_middle, List.nodup_cons] at hnd
    exact hnd.1 (List.mem_append_left _ (List.mem_map_of_mem (List.take_subset k before ho')))
  have hbefore : ∀ a ∈ before ++ [o], R.answers a ≠ some (R.id o) := by
    intro a ha hans
    obtain ⟨k, hk⟩ := List.mem_iff_getElem?.1 ha
    obtain ⟨hlt, -⟩ := List.getElem?_eq_some_iff.1 hk
    have hget : done[k]? = some a := by
      rw [hsplit, ← List.singleton_append, ← List.append_assoc, List.getElem?_append_left hlt, hk]
    have hk' := (hplace k a hget hans).1
    rw [List.length_append, List.length_singleton] at hlt
    omega
  have hcount := h.once o ho hopen
  rw [zero_add, Multiset.coe_countP, List.countP_eq_length_filter, hsplit, ← List.singleton_append, ← List.append_assoc,
    List.filter_append, List.length_append] at hcount
  have hnone : (before ++ [o]).filter (fun a => decide (R.answers a = some (R.id o))) = [] := by
    rw [List.filter_eq_nil_iff]
    intro a ha
    rw [decide_eq_true_eq]
    exact hbefore a ha
  rw [hnone, List.length_nil, zero_add] at hcount
  obtain ⟨r, hr⟩ := List.length_eq_one_iff.1 hcount
  refine ⟨r, hr, ?_, hbefore⟩
  have hmem : r ∈ after.filter (fun a => decide (R.answers a = some (R.id o))) := by rw [hr]; exact List.mem_singleton_self r
  obtain ⟨hafter, hans⟩ := List.mem_filter.1 hmem
  obtain ⟨k, hk⟩ := List.mem_iff_getElem?.1 (show r ∈ done by
    rw [hsplit]; exact List.mem_append_right _ (List.mem_cons_of_mem o hafter))
  exact (hplace k r hk (of_decide_eq_true hans)).2

end Balanced

end Ledger
