/-
What the rows of a store weigh together, and which writes are still there to
be weighed.

A list of writes leaves of each key the last write (`lastBy`), and a store
written from nothing weighs what those do (`total_putAll_empty`): all of the
writes when no key is written twice.
-/
import TransferDashboard.Lib.Store

namespace KeyedStore

variable {α β κ ν : Type} [DecidableEq κ]

/-! ## The last of each key -/

/-- The elements after which no other has their key. -/
def lastBy (f : α → κ) : List α → List α
  | [] => []
  | a :: l => if f a ∈ l.map f then lastBy f l else a :: lastBy f l

theorem lastBy_sublist (f : α → κ) (l : List α) : (lastBy f l).Sublist l := by
  induction l with
  | nil => exact .slnil
  | cons a l ih =>
    rw [lastBy]
    split
    · exact ih.cons a
    · exact ih.cons_cons a

/-- They are all there when no two have one key. -/
theorem lastBy_eq_self {f : α → κ} {l : List α} (h : (l.map f).Nodup) : lastBy f l = l := by
  induction l with
  | nil => rfl
  | cons a l ih =>
    rw [List.map_cons, List.nodup_cons] at h
    rw [lastBy, if_neg h.1, ih h.2]

theorem lastBy_map (f : β → κ) (g : α → β) (l : List α) : lastBy f (l.map g) = (lastBy (f ∘ g) l).map g := by
  induction l with
  | nil => rfl
  | cons a l ih =>
    simp only [List.map_cons, lastBy, List.map_map, Function.comp_apply, ih]
    split <;> simp

/-- Elements whose key is not looked at do not count. -/
theorem lastBy_filter {f : α → κ} {p : κ → Bool} (l : List α) :
    lastBy f (l.filter fun a => p (f a)) = (lastBy f l).filter fun a => p (f a) := by
  induction l with
  | nil => rfl
  | cons a l ih =>
    by_cases hp : p (f a) = true
    · have hmem : f a ∈ (l.filter fun b => p (f b)).map f ↔ f a ∈ l.map f := by
        simp only [List.mem_map, List.mem_filter]
        refine ⟨fun ⟨b, hb, hba⟩ => ⟨b, hb.1, hba⟩, fun ⟨b, hb, hba⟩ => ⟨b, ⟨hb, ?_⟩, hba⟩⟩
        rw [hba]
        exact hp
      simp only [List.filter_cons, hp, if_true, lastBy, hmem, ih]
      split <;> simp [hp]
    · simp only [List.filter_cons, hp, if_false, Bool.false_eq_true, lastBy, ih]
      split <;> simp [hp]

/-! ## Totals -/

/-- What the rows weigh together. -/
noncomputable def total (w : κ → ν → Int) (s : Store κ ν) : Int := ∑ᶠ k, (s k).elim 0 (w k)

omit [DecidableEq κ] in
theorem total_empty (w : κ → ν → Int) : total w empty = 0 := by
  simp [total]

/-- What weighs nothing may be left out. -/
theorem sum_filter_of_zero {α : Type} (p : α → Bool) (w : α → Int) (l : List α) (hw : ∀ a ∈ l, p a = false → w a = 0) :
    (l.map w).sum = ((l.filter p).map w).sum := by
  induction l with
  | nil => rfl
  | cons a l ih =>
    rw [List.forall_mem_cons] at hw
    rw [List.map_cons, List.sum_cons, ih hw.2, List.filter_cons]
    split
    · simp
    next hp => rw [hw.1 (by simpa using hp), zero_add]

/-- A row at a new key adds what it weighs. -/
theorem total_put (w : κ → ν → Int) {s : Store κ ν} {row : κ × ν} (hnew : s row.1 = none)
    (hfinite : {k | s k ≠ none}.Finite) : total w (put s row) = total w s + w row.1 row.2 := by
  have hsplit : ∀ k, (put s row k).elim 0 (w k) = (s k).elim 0 (w k) + if k = row.1 then w row.1 row.2 else 0 := by
    intro k
    rw [put_apply]
    by_cases hk : k = row.1
    · subst hk
      simp [hnew]
    · simp [hk]
  have hold : (Function.support fun k => (s k).elim 0 (w k)).Finite := by
    refine hfinite.subset fun k hk hnone => hk ?_
    simp [hnone]
  have hone : (Function.support fun k => if k = row.1 then w row.1 row.2 else 0).Finite := by
    refine (Set.finite_singleton row.1).subset fun k hk => ?_
    by_contra hne
    exact hk (if_neg hne)
  rw [total, finsum_congr hsplit, finsum_add_distrib hold hone,
    finsum_eq_single _ row.1 fun k hk => if_neg hk, if_pos rfl, total]

/-- A first write is lost when its key is written again, and else it is as good as the last. -/
theorem putAll_put (s : Store κ ν) (row : κ × ν) (rows : List (κ × ν)) :
    putAll (put s row) rows = if row.1 ∈ keys rows then putAll s rows else put (putAll s rows) row := by
  funext k
  by_cases hk : k ∈ keys rows
  · rw [putAll_congr hk _ s]
    split
    · rfl
    next hrow => rw [put_apply, if_neg fun heq : k = row.1 => hrow (heq ▸ hk)]
  · rw [putAll_of_not_mem hk, put_apply]
    split
    next heq => rw [if_neg (heq ▸ hk), heq, put_apply, if_pos rfl]
    next hne =>
      split
      · rw [putAll_of_not_mem hk]
      · rw [put_apply, if_neg hne, putAll_of_not_mem hk]

/-- **What writes weigh.** A store written from nothing weighs what the last
write of each key does. -/
theorem total_putAll_empty (w : κ → ν → Int) (rows : List (κ × ν)) :
    total w (putAll empty rows) = ((lastBy Prod.fst rows).map fun row => w row.1 row.2).sum := by
  induction rows with
  | nil => exact total_empty w
  | cons row rows ih =>
    rw [putAll_cons, putAll_put, lastBy, ← keys]
    by_cases hrow : row.1 ∈ keys rows
    · rw [if_pos hrow, if_pos hrow, ih]
    · have hnone : putAll empty rows row.1 = none := putAll_of_not_mem hrow empty
      have hfinite := ((empty_supportedBy (keys rows)).putAll (s := empty) fun _ h => h).ncard_le.1
      rw [if_neg hrow, if_neg hrow, total_put w hnone hfinite, ih, List.map_cons, List.sum_cons, add_comm]

end KeyedStore
