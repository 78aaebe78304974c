/-
Two stages of a back-pressured stream, after Akka Streams.

`MapAsync n` runs an asynchronous function on up to `n` elements at a time
and passes the results on in the order the elements came, whatever the order
they complete in. `Batch max` gathers elements while the stage after it is
busy: at most `max` of them, and one more that waits for the next batch.

An operation is `none` where the stage does not take part in it: it is full,
or has nothing to give.
-/
import Mathlib

namespace Stage

/-! ## `mapAsync` -/

/-- An element being worked on, or done and waiting to be passed on. -/
inductive Slot (α : Type) where
  | running (a : α)
  | completed (a : α)
  deriving DecidableEq, Repr

namespace Slot

variable {α : Type}

def elem : Slot α → α
  | .running a | .completed a => a

@[simp] theorem elem_running (a : α) : (running a).elem = a := rfl
@[simp] theorem elem_completed (a : α) : (completed a).elem = a := rfl

end Slot

/-- At most `n` elements, oldest first. -/
structure MapAsync (n : Nat) (α : Type) where
  slots : List (Slot α)
  bound : slots.length ≤ n

namespace MapAsync

variable {n : Nat} {α : Type}

def empty : MapAsync n α := ⟨[], Nat.zero_le n⟩

/-- A new element, if there is room for it. -/
def push? (m : MapAsync n α) (a : α) : Option (MapAsync n α) :=
  if h : m.slots.length < n then some ⟨m.slots ++ [.running a], by rw [List.length_append]; exact h⟩ else none

/-- The element at `i`, if it is still worked on. -/
def running? (m : MapAsync n α) (i : Nat) : Option α :=
  match m.slots[i]? with
  | some (.running a) => some a
  | _ => none

/-- The slot at `i` replaced. -/
def set (m : MapAsync n α) (i : Nat) (s : Slot α) : MapAsync n α := ⟨m.slots.set i s, by simpa using m.bound⟩

/-- The oldest element, once it is done. -/
def emit? (m : MapAsync n α) : Option (α × MapAsync n α) :=
  match h : m.slots with
  | .completed a :: rest =>
    some (a, ⟨rest, by have := m.bound; rw [h, List.length_cons] at this; omega⟩)
  | _ => none

/-- The elements worked on. -/
def inFlight (m : MapAsync n α) : List α :=
  m.slots.filterMap fun s => match s with | .running a => some a | .completed _ => none

/-- The elements held, oldest first. -/
def elems (m : MapAsync n α) : List α := m.slots.map Slot.elem

@[simp] theorem slots_empty : (empty : MapAsync n α).slots = [] := rfl

@[simp] theorem slots_set (m : MapAsync n α) (i : Nat) (s : Slot α) : (m.set i s).slots = m.slots.set i s := rfl

theorem push?_eq_some {m m' : MapAsync n α} {a : α} (h : m.push? a = some m') :
    m.slots.length < n ∧ m'.slots = m.slots ++ [.running a] := by
  unfold push? at h
  split at h
  next hlt => simp only [Option.some.injEq] at h; exact ⟨hlt, h ▸ rfl⟩
  · cases h

theorem push?_of_lt {m : MapAsync n α} (h : m.slots.length < n) (a : α) : ∃ m', m.push? a = some m' :=
  ⟨_, dif_pos h⟩

theorem running?_eq_some {m : MapAsync n α} {i : Nat} {a : α} :
    m.running? i = some a ↔ m.slots[i]? = some (.running a) := by
  unfold running?
  split <;> simp_all

theorem mem_of_running? {m : MapAsync n α} {i : Nat} {a : α} (h : m.running? i = some a) : .running a ∈ m.slots :=
  List.mem_of_getElem? (running?_eq_some.1 h)

/-- A slot after `set` is the new one or was there before. -/
theorem mem_slots_set {m : MapAsync n α} {i : Nat} {x y : Slot α} (h : y ∈ (m.set i x).slots) : y = x ∨ y ∈ m.slots := by
  rw [slots_set] at h
  rcases List.mem_or_eq_of_mem_set h with hmem | heq
  · exact .inr hmem
  · exact .inl heq

theorem mem_elems {m : MapAsync n α} {i : Nat} {a : α} (h : m.running? i = some a) : a ∈ m.elems :=
  List.mem_map.2 ⟨_, mem_of_running? h, rfl⟩

/-- The element at `i` has those before it and those after it around it. -/
theorem elems_split {m : MapAsync n α} {i : Nat} {a : α} (h : m.running? i = some a) :
    ∃ pre post, m.elems = pre ++ a :: post ∧ m.elems.drop (i + 1) = post ∧
      ∀ s, (m.set i s).elems = pre ++ s.elem :: post := by
  obtain ⟨hlt, hget⟩ := List.getElem?_eq_some_iff.1 (running?_eq_some.1 h)
  have hi : i < m.elems.length := by rw [elems, List.length_map]; exact hlt
  have ha : m.elems[i] = a := by simp only [elems, List.getElem_map, hget, Slot.elem_running]
  refine ⟨m.elems.take i, m.elems.drop (i + 1), ?_, rfl, fun s => ?_⟩
  · rw [← ha, List.getElem_cons_drop, List.take_append_drop]
  · rw [elems, slots_set, List.map_set, ← elems, List.set_eq_take_append_cons_drop, if_pos hi]

/-- The slot at `i` has those before it and those after it around it. -/
theorem slots_split {m : MapAsync n α} {i : Nat} {a : α} (h : m.running? i = some a) :
    ∃ pre post, m.slots = pre ++ .running a :: post ∧ ∀ s, (m.set i s).slots = pre ++ s :: post := by
  obtain ⟨hlt, hget⟩ := List.getElem?_eq_some_iff.1 (running?_eq_some.1 h)
  refine ⟨m.slots.take i, m.slots.drop (i + 1), ?_, fun s => ?_⟩
  · rw [← hget, List.getElem_cons_drop, List.take_append_drop]
  · rw [slots_set, List.set_eq_take_append_cons_drop, if_pos hlt]

/-- An element that only changes its slot is where it was. -/
theorem elems_set {m : MapAsync n α} {i : Nat} {a : α} {s : Slot α} (h : m.running? i = some a) (hs : s.elem = a) :
    (m.set i s).elems = m.elems := by
  obtain ⟨pre, post, hm, -, hset⟩ := elems_split h
  rw [hset, hs, ← hm]

theorem mem_elems_set {m : MapAsync n α} {i : Nat} {a b : α} {s : Slot α} (h : m.running? i = some a)
    (hb : b ∈ (m.set i s).elems) : b = s.elem ∨ b ∈ m.elems := by
  obtain ⟨pre, post, hm, -, hset⟩ := elems_split h
  rw [hset, List.mem_append, List.mem_cons] at hb
  rw [hm, List.mem_append, List.mem_cons]
  tauto

theorem elem_mem_elems_set {m : MapAsync n α} {i : Nat} {a : α} (h : m.running? i = some a) (s : Slot α) :
    s.elem ∈ (m.set i s).elems := by
  obtain ⟨pre, post, -, -, hset⟩ := elems_split h
  rw [hset]
  exact List.mem_append_right _ List.mem_cons_self

/-- Only the element replaced may be lost. -/
theorem mem_elems_of_mem {m : MapAsync n α} {i : Nat} {a b : α} (h : m.running? i = some a) (s : Slot α)
    (hb : b ∈ m.elems) : b = a ∨ b ∈ (m.set i s).elems := by
  obtain ⟨pre, post, hm, -, hset⟩ := elems_split h
  rw [hm, List.mem_append, List.mem_cons] at hb
  rw [hset, List.mem_append, List.mem_cons]
  tauto

/-- What the slots weigh together, when one of them is replaced. -/
theorem sum_set {m : MapAsync n α} (weight : Slot α → Nat) {i : Nat} {a : α} (h : m.running? i = some a) (x : Slot α) :
    ((m.set i x).slots.map weight).sum + weight (.running a) = (m.slots.map weight).sum + weight x := by
  obtain ⟨pre, post, hslots, hset⟩ := slots_split h
  rw [hset, hslots]
  simp only [List.map_append, List.map_cons, List.sum_append, List.sum_cons]
  omega

/-- The oldest element, while it is worked on. -/
theorem slots_of_running?_zero {m : MapAsync n α} {a : α} (h : m.running? 0 = some a) :
    ∃ rest, m.slots = .running a :: rest := by
  have hget := running?_eq_some.1 h
  cases hslots : m.slots with
  | nil => rw [hslots] at hget; cases hget
  | cons slot rest =>
    rw [hslots, List.getElem?_cons_zero, Option.some.injEq] at hget
    exact ⟨rest, by rw [hget]⟩

/-- In a stage of one element, what is worked on is all there is. -/
theorem slots_of_running? {m : MapAsync 1 α} {i : Nat} {a : α} (h : m.running? i = some a) :
    i = 0 ∧ m.slots = [.running a] := by
  have hget := running?_eq_some.1 h
  obtain ⟨hi, -⟩ := List.getElem?_eq_some_iff.1 hget
  have hb := m.bound
  have hi0 : i = 0 := by omega
  subst hi0
  obtain ⟨x, hx⟩ := List.length_eq_one_iff.1 (show m.slots.length = 1 by omega)
  rw [hx, List.getElem?_cons_zero, Option.some.injEq] at hget
  exact ⟨rfl, by rw [hx, hget]⟩

theorem emit?_eq_some {m m' : MapAsync n α} {a : α} :
    m.emit? = some (a, m') ↔ m.slots = .completed a :: m'.slots := by
  obtain ⟨slots, bound⟩ := m
  obtain ⟨slots', bound'⟩ := m'
  unfold emit?
  split
  next b rest hs =>
    simp only at hs
    subst hs
    simp [eq_comm]
  next hne =>
    simp only [reduceCtorEq, false_iff]
    rintro rfl
    exact hne a _ rfl

theorem emit?_of_completed {m : MapAsync n α} {a : α} {rest : List (Slot α)} (h : m.slots = .completed a :: rest) :
    ∃ m', m.emit? = some (a, m') := by
  have hb : rest.length ≤ n := by
    have hm := m.bound
    rw [h, List.length_cons] at hm
    omega
  exact ⟨⟨rest, hb⟩, emit?_eq_some.2 h⟩

theorem elems_length_le (m : MapAsync n α) : m.elems.length ≤ n := by
  rw [elems, List.length_map]
  exact m.bound

theorem mem_inFlight {m : MapAsync n α} {a : α} : a ∈ m.inFlight ↔ .running a ∈ m.slots := by
  rw [inFlight, List.mem_filterMap]
  refine ⟨fun h => ?_, fun h => ⟨.running a, h, rfl⟩⟩
  obtain ⟨slot, hslot, hrun⟩ := h
  cases slot with
  | running b =>
    rw [Option.some.injEq] at hrun
    rw [← hrun]
    exact hslot
  | completed b => cases hrun

/-- No more elements are worked on than there is room for. -/
theorem inFlight_length_le (m : MapAsync n α) : m.inFlight.length ≤ n :=
  Nat.le_trans (List.length_filterMap_le _ _) m.bound

end MapAsync

/-! ## `batch` -/

/-- The elements gathered, oldest first, and the one that waits because they
are `max` already. -/
structure Batch (max : Nat) (α : Type) where
  elems : List α
  pending : Option α
  bound : elems.length ≤ max
  full : pending ≠ none → elems.length = max

namespace Batch

variable {max : Nat} {α : Type}

def empty : Batch max α := ⟨[], none, Nat.zero_le max, fun h => absurd rfl h⟩

/-- A new element: gathered while there is room, else the one that waits. -/
def push? (b : Batch max α) (a : α) : Option (Batch max α) :=
  if b.pending ≠ none then none
  else if hlt : b.elems.length < max then
    some ⟨b.elems ++ [a], none, by rw [List.length_append]; exact hlt, fun h => absurd rfl h⟩
  else some ⟨b.elems, some a, b.bound, fun _ => Nat.le_antisymm b.bound (Nat.le_of_not_lt hlt)⟩

/-- The batch passed on; the one that waits starts the next. -/
def flush? [NeZero max] (b : Batch max α) : Option (List α × Batch max α) :=
  if b.elems = [] then none
  else some (b.elems, ⟨b.pending.toList, none, by
    have hpos := Nat.pos_of_neZero max
    cases b.pending with
    | none => exact Nat.zero_le max
    | some _ => exact hpos, fun h => absurd rfl h⟩)

/-- Everything held, oldest first. -/
def held (b : Batch max α) : List α := b.elems ++ b.pending.toList

@[simp] theorem held_empty : (empty : Batch max α).held = [] := rfl

theorem push?_held {b b' : Batch max α} {a : α} (h : b.push? a = some b') : b'.held = b.held ++ [a] := by
  unfold push? at h
  split at h
  · cases h
  next hp =>
    rw [ne_eq, not_not] at hp
    split at h <;> simp only [Option.some.injEq] at h <;> subst h <;> simp [held, hp]

theorem push?_of_no_pending {b : Batch max α} (h : b.pending = none) (a : α) : ∃ b', b.push? a = some b' := by
  unfold push?
  rw [if_neg (not_not.2 h)]
  split
  · exact ⟨_, rfl⟩
  · exact ⟨_, rfl⟩

/-- A full batch can be passed on. -/
theorem flush?_of_pending [NeZero max] {b : Batch max α} (h : b.pending ≠ none) :
    ∃ elems b', b.flush? = some (elems, b') := by
  have hlen := b.full h
  have hpos := Nat.pos_of_neZero max
  unfold flush?
  rw [if_neg (List.ne_nil_of_length_pos (by omega))]
  exact ⟨_, _, rfl⟩

theorem flush?_held [NeZero max] {b b' : Batch max α} {elems : List α} (h : b.flush? = some (elems, b')) :
    elems ++ b'.held = b.held ∧ elems ≠ [] := by
  unfold flush? at h
  split at h
  · cases h
  next hne =>
    simp only [Option.some.injEq, Prod.mk.injEq] at h
    obtain ⟨rfl, rfl⟩ := h
    exact ⟨by simp [held], hne⟩

/-- No more are passed on than a batch holds. -/
theorem flush?_length_le [NeZero max] {b b' : Batch max α} {elems : List α} (h : b.flush? = some (elems, b')) :
    elems.length ≤ max := by
  unfold flush? at h
  split at h
  · cases h
  · simp only [Option.some.injEq, Prod.mk.injEq] at h
    rw [← h.1]
    exact b.bound

/-- No more are held than a batch and the one that waits. -/
theorem held_length_le (b : Batch max α) : b.held.length ≤ max + 1 := by
  have hbound := b.bound
  rw [held, List.length_append]
  cases b.pending <;> simp <;> omega

end Batch

end Stage
