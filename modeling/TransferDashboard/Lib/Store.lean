/-
A store with one value per key, in which writing a key overwrites it.

What a list of writes leaves at a key depends on the store before it only
when the list does not touch the key (`putAll_congr`, `putAll_of_not_mem`).
So writing the whole list again over anything it wrote before gives what
writing it once gives (`putAll_eq_of_supported`).
-/
import Mathlib

namespace KeyedStore

variable {κ ν : Type} [DecidableEq κ]

abbrev Store (κ ν : Type) := κ → Option ν

def empty : Store κ ν := fun _ => none

def put (s : Store κ ν) (row : κ × ν) : Store κ ν := Function.update s row.1 (some row.2)

def putAll (s : Store κ ν) (rows : List (κ × ν)) : Store κ ν := rows.foldl put s

/-- The keys a list of writes touches. -/
def keys (rows : List (κ × ν)) : List κ := rows.map Prod.fst

omit [DecidableEq κ] in
@[simp] theorem empty_apply (k : κ) : (empty : Store κ ν) k = none := rfl

omit [DecidableEq κ] in
@[simp] theorem keys_append (rows rows' : List (κ × ν)) : keys (rows ++ rows') = keys rows ++ keys rows' :=
  List.map_append

omit [DecidableEq κ] in
@[simp] theorem mem_keys_cons {row : κ × ν} {rows : List (κ × ν)} {k : κ} :
    k ∈ keys (row :: rows) ↔ k = row.1 ∨ k ∈ keys rows := by
  rw [keys, List.map_cons, List.mem_cons, keys]

@[simp] theorem putAll_nil (s : Store κ ν) : putAll s [] = s := rfl

@[simp] theorem putAll_cons (s : Store κ ν) (row : κ × ν) (rows : List (κ × ν)) :
    putAll s (row :: rows) = putAll (put s row) rows := rfl

theorem putAll_append (s : Store κ ν) (rows rows' : List (κ × ν)) :
    putAll s (rows ++ rows') = putAll (putAll s rows) rows' := List.foldl_append

theorem put_apply (s : Store κ ν) (row : κ × ν) (k : κ) :
    put s row k = if k = row.1 then some row.2 else s k := by
  simp [put, Function.update_apply]

/-- A key the list does not touch keeps its value. -/
theorem putAll_of_not_mem {rows : List (κ × ν)} {k : κ} (hk : k ∉ keys rows) (s : Store κ ν) :
    putAll s rows k = s k := by
  induction rows generalizing s with
  | nil => rfl
  | cons row rows ih =>
    simp only [mem_keys_cons, not_or] at hk
    rw [putAll_cons, ih hk.2, put_apply, if_neg hk.1]

/-- At a key the list touches, the store before it does not matter. -/
theorem putAll_congr {rows : List (κ × ν)} {k : κ} (hk : k ∈ keys rows) (s s' : Store κ ν) :
    putAll s rows k = putAll s' rows k := by
  induction rows generalizing s s' with
  | nil => simp [keys] at hk
  | cons row rows ih =>
    by_cases hr : k ∈ keys rows
    · exact ih hr _ _
    · have hrow := (mem_keys_cons.1 hk).resolve_right hr
      rw [putAll_cons, putAll_cons, putAll_of_not_mem hr, putAll_of_not_mem hr, put_apply, put_apply,
        if_pos hrow, if_pos hrow]

/-- A row after some writes was there before, or is one of them. -/
theorem putAll_eq_some {rows : List (κ × ν)} {s : Store κ ν} {k : κ} {v : ν} (h : putAll s rows k = some v) :
    s k = some v ∨ (k, v) ∈ rows := by
  induction rows generalizing s with
  | nil => exact .inl h
  | cons row rows ih =>
    rw [putAll_cons] at h
    rcases ih h with hput | hmem
    · rw [put_apply] at hput
      split at hput
      next hk =>
        rw [Option.some.injEq] at hput
        rw [hk, ← hput]
        exact .inr List.mem_cons_self
      · exact .inl hput
    · exact .inr (List.mem_cons_of_mem _ hmem)

/-- Writes take no row away. -/
theorem putAll_keeps {rows : List (κ × ν)} {s : Store κ ν} {k : κ} (h : s k ≠ none) : putAll s rows k ≠ none := by
  induction rows generalizing s with
  | nil => exact h
  | cons row rows ih =>
    refine ih ?_
    rw [put_apply]
    split
    · exact Option.some_ne_none _
    · exact h

/-- Writes at distinct keys may come in any order. -/
theorem putAll_perm {rows rows' : List (κ × ν)} (hnd : (keys rows).Nodup) (h : rows.Perm rows') (s : Store κ ν) :
    putAll s rows = putAll s rows' := by
  refine h.foldl_eq' (fun x hx y hy z => ?_) s
  by_cases heq : x.1 = y.1
  · rw [List.inj_on_of_nodup_map hnd hx hy heq]
  · exact Function.update_comm heq _ _ z

/-! ## Writing again -/

/-- Every row of the store is at one of the keys. -/
def SupportedBy (s : Store κ ν) (ks : List κ) : Prop := ∀ k, s k ≠ none → k ∈ ks

omit [DecidableEq κ] in
theorem empty_supportedBy (ks : List κ) : SupportedBy (empty : Store κ ν) ks := fun _ h => absurd rfl h

theorem SupportedBy.putAll {s : Store κ ν} {ks : List κ} (h : SupportedBy s ks) {rows : List (κ × ν)}
    (hrows : ∀ k ∈ keys rows, k ∈ ks) : SupportedBy (putAll s rows) ks := by
  intro k hk
  by_cases hmem : k ∈ keys rows
  · exact hrows k hmem
  · rw [putAll_of_not_mem hmem] at hk
    exact h k hk

/-- Written over rows it writes itself, a list leaves what it leaves alone. -/
theorem putAll_eq_of_supported {s : Store κ ν} {rows : List (κ × ν)} (h : SupportedBy s (keys rows)) :
    putAll s rows = putAll empty rows := by
  funext k
  by_cases hk : k ∈ keys rows
  · exact putAll_congr hk _ _
  · have hs : s k = none := by_contra fun hne => hk (h k hne)
    rw [putAll_of_not_mem hk, putAll_of_not_mem hk, hs, empty_apply]

/-- The keys a list touches are those it leaves a value at. -/
theorem putAll_ne_none {rows : List (κ × ν)} {k : κ} : putAll empty rows k ≠ none ↔ k ∈ keys rows := by
  refine ⟨fun h => ?_, fun hk => ?_⟩
  · exact (empty_supportedBy (keys rows)).putAll (fun _ h => h) k h
  · induction rows with
    | nil => simp [keys] at hk
    | cons row rows ih =>
      by_cases hr : k ∈ keys rows
      · rw [putAll_cons, putAll_congr hr _ empty]; exact ih hr
      · have hrow := (mem_keys_cons.1 hk).resolve_right hr
        rw [putAll_cons, putAll_of_not_mem hr, put_apply, if_pos hrow]
        exact Option.some_ne_none _

theorem putAll_of_mem {rows : List (κ × ν)} {k : κ} (hk : k ∈ keys rows) (s : Store κ ν) : putAll s rows k ≠ none := by
  rw [putAll_congr hk s empty]
  exact putAll_ne_none.2 hk

/-- A store all of whose rows are at some keys has no more of them. -/
theorem SupportedBy.ncard_le {s : Store κ ν} {ks : List κ} (h : SupportedBy s ks) :
    {k | s k ≠ none}.Finite ∧ {k | s k ≠ none}.ncard ≤ ks.length := by
  have hsub : {k | s k ≠ none} ⊆ (ks.toFinset : Set κ) := by
    intro k hk
    rw [Finset.mem_coe, List.mem_toFinset]
    exact h k hk
  refine ⟨ks.toFinset.finite_toSet.subset hsub, ?_⟩
  calc {k | s k ≠ none}.ncard ≤ (ks.toFinset : Set κ).ncard := Set.ncard_le_ncard hsub ks.toFinset.finite_toSet
    _ = ks.toFinset.card := Set.ncard_coe_finset _
    _ ≤ ks.length := List.toFinset_card_le ks

end KeyedStore
