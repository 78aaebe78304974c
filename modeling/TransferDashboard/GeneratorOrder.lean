/-
The feed is in time order.

A run emits from two sources, its own events and the receipts that wait. At
the head of the main loop what was emitted is not after the current time,
and nothing that waits is before any of it (`InTime`); what is due is emitted
earliest first, after which only what is after the current time waits
(`emitDue_inTime`), so the next event may be emitted. The last loop emits the
rest, earliest first.
-/
import TransferDashboard.GeneratorReceipts
import TransferDashboard.Lib.Timeline

namespace TransferDashboard

open Scala Joda Random Loop Timeline

namespace Generator

variable {σ : Type} {R : RandomSource σ} {C : Chronology} {queue : EventQueue}

/-- The time of an event, in epoch milliseconds. -/
def time (e : Event) : Int := e.millis.toInt

theorem time_le_of_compare {a b : Event} (h : OrderingByTimeEvent.compare b a ≤ 0) : time a ≤ time b := by
  rw [OrderingByTimeEvent.compare, DateTime.compareTo] at h
  have hle : ¬ b.timestamp.dt.millis < a.timestamp.dt.millis := by
    intro hlt
    rw [if_pos hlt] at h
    omega
  rw [Int64.lt_iff_toInt_lt] at hle
  exact Int.not_lt.1 hle

/-- The queue's maximum is the earliest event. -/
theorem dequeue_earliest {q q' : queue.Q} {a : Event} (h : queue.dequeue q = some (a, q')) :
    ∀ b ∈ queue.contents q, time a ≤ time b :=
  fun b hb => time_le_of_compare (queue.dequeue_max q a q' h b hb)

/-- What was emitted, against what waits. -/
abbrev Feed (s : Run σ queue) : Prop := Timely time s.emitted (queue.contents s.pq)

theorem Feed.afterHead {s : Run σ queue} (h : Feed s) {event : Event} {pq : queue.Q}
    (hq : queue.dequeue s.pq = some (event, pq)) : Feed (s.afterHead event pq) := by
  have hmin := dequeue_earliest hq
  have hcons := queue.dequeue_some _ _ _ hq
  have hfeed : Timely time s.emitted (event ::ₘ queue.contents pq) := by
    rw [← hcons]
    exact h
  exact hfeed.emit fun b hb => hmin b (by rw [hcons]; exact Multiset.mem_cons_of_mem hb)

/-- At the head of the main loop. -/
structure InTime (s : Run σ queue) : Prop where
  feed : Feed s
  past : ∀ e ∈ s.emitted, time e ≤ s.currentDt.millis.toInt

theorem InTime.start (start : TimeStamp) (vars : Vars σ) : InTime (Run.start queue start vars) where
  feed := by
    show Timely time [] (queue.contents queue.empty)
    rw [queue.contents_empty]
    exact Timely.nil
  past e h := by cases h

theorem headDue_false {s : Run σ queue} (h : headDue s = false) :
    ∀ e ∈ queue.contents s.pq, s.currentDt.millis.toInt < time e := by
  intro e he
  unfold headDue at h
  split at h
  next head hhead =>
    obtain ⟨pq, hq⟩ := MaxQueue.dequeue_of_head_some hhead
    have hmin := dequeue_earliest hq e he
    have hafter : s.currentDt.millis < head.timestamp.dt.millis := by
      rw [Bool.not_eq_false', DateTime.isAfter, decide_eq_true_eq] at h
      exact h
    rw [Int64.lt_iff_toInt_lt] at hafter
    exact Int.lt_of_lt_of_le hafter hmin
  next hnone =>
    rw [MaxQueue.contents_of_head_none hnone] at he
    exact absurd he (Multiset.notMem_zero e)

theorem headDue_true {s : Run σ queue} (h : headDue s = true) {event : Event} {pq : queue.Q}
    (hq : queue.dequeue s.pq = some (event, pq)) : time event ≤ s.currentDt.millis.toInt := by
  have hhead : queue.headOption s.pq = some event := by
    rw [queue.head_dequeue, hq]
    rfl
  unfold headDue at h
  rw [hhead] at h
  rw [Bool.not_eq_true', DateTime.isAfter, decide_eq_false_iff_not, Int64.lt_iff_toInt_lt] at h
  exact Int.not_lt.1 h

/-- What is due is emitted, and what still waits is after the current time. -/
theorem emitDue_inTime {s : Run σ queue} (h : InTime s) : ∃ s', emitDue s = (s', none) ∧ InTime s' ∧
    ∀ e ∈ queue.contents s'.pq, s'.currentDt.millis.toInt < time e := by
  have hkeep : ∀ (t : Run σ queue) event pq, InTime t → headDue t = true →
      queue.dequeue t.pq = some (event, pq) → InTime (t.afterHead event pq) := by
    intro t event pq ht hdue hq
    refine ⟨ht.feed.afterHead hq, fun e he => ?_⟩
    rcases List.mem_append.1 he with hold | hnew
    · exact ht.past e hold
    · rw [List.mem_singleton.1 hnew]
      exact headDue_true hdue hq
  obtain ⟨s', hdue, hs', hlater⟩ := emitDue_spec hkeep h
  exact ⟨s', hdue, hs', headDue_false hlater⟩

theorem Original.time_eq {vars : Vars σ} {now : DateTime} {e : Event} (he : Original vars now e) :
    time e = now.millis.toInt := by
  rw [time, Event.millis, he.timestamp]

/-- An event of now is emitted between what was emitted and what waits. -/
theorem InTime.emitNow {s : Run σ queue} (h : InTime s)
    (hlater : ∀ e ∈ queue.contents s.pq, s.currentDt.millis.toInt < time e) {e : Event}
    (hnow : time e = s.currentDt.millis.toInt) : Timely time (s.emitted ++ [e]) (queue.contents s.pq) ∧
      ∀ e' ∈ s.emitted ++ [e], time e' ≤ time e := by
  have hpast : ∀ e' ∈ s.emitted, time e' ≤ time e := by
    intro e' he'
    rw [hnow]
    exact h.past e' he'
  have hfuture : ∀ e' ∈ queue.contents s.pq, time e ≤ time e' := by
    intro e' he'
    rw [hnow]
    exact Int.le_of_lt (hlater e' he')
  refine ⟨h.feed.arrive hpast hfuture, fun e' he' => ?_⟩
  rcases List.mem_append.1 he' with hold | hnew
  · exact hpast e' hold
  · rw [List.mem_singleton.1 hnew]

/-- A new event, its receipt put to wait after it; where an exception came,
the feed is in order still. -/
theorem newEvent_inTime {s : Run σ queue} (h : InTime s)
    (hlater : ∀ e ∈ queue.contents s.pq, s.currentDt.millis.toInt < time e) :
    ((newEvent R C s).2 = none → InTime (newEvent R C s).1) ∧ InOrder time (newEvent R C s).1.emitted := by
  obtain ⟨hnew, -, -, hms⟩ := newEvent_spec (R := R) (C := C) s
  generalize newEvent R C s = r at hnew hms ⊢
  have hfeed : Feed r.1 ∧ ∀ e ∈ r.1.emitted, time e ≤ s.currentDt.millis.toInt := by
    cases hnew with
    | threw hem hpq =>
      rw [Feed, hem, hpq]
      exact ⟨h.feed, h.past⟩
    | sync e he hack hem hpq =>
      obtain ⟨hemit, hpast⟩ := h.emitNow hlater he.time_eq
      rw [Feed, hem, hpq, ← he.time_eq]
      exact ⟨hemit, hpast⟩
    | async e a he hack ha hem hpq =>
      obtain ⟨hemit, hpast⟩ := h.emitNow hlater he.time_eq
      rw [Feed, hem, hpq, queue.contents_enqueue, ← he.time_eq]
      refine ⟨hemit.wait fun e' he' => ?_, hpast⟩
      have hafter : time e + 5000 ≤ time a := ha.completes.after
      have hle := hpast e' he'
      omega
  refine ⟨fun hnone => ⟨hfeed.1, fun e he => ?_⟩, hfeed.1.sorted⟩
  have hpast := hfeed.2 e he
  have hstep := (hms hnone).1
  omega

/-! ## A run -/

/-- Its loops end: the inner one from any state, the main one, and after it the last. -/
structure Terminates (R : RandomSource σ) (C : Chronology) (start «end» : TimeStamp) (vars : Vars σ)
    (run : Run σ queue × Option Throwable) : Prop where
  inner : ∀ s : Run σ queue, Ends headDue emitHead s (emitDue s)
  outer : ∃ s thrown, Ends (fun s => s.currentDt.isBefore «end».dt) (iteration R C)
    ⟨vars, start.dt, queue.empty, [], 0⟩ (s, thrown) ∧
      match thrown with
      | some e => run = (s, some e)
      | none => Ends headDefined emitHead s run

theorem generateEvents_terminates (start «end» : TimeStamp) (vars : Vars σ) :
    Terminates R C start «end» vars (generateEvents R C queue start «end» vars) where
  inner s := whileLoop_ends (emitHead_decreases _) s
  outer := by
    have hends := whileLoop_ends (iteration_decreases (R := R) (C := C) «end».dt)
      ⟨vars, start.dt, queue.empty, [], 0⟩
    simp only [generateEvents]
    generalize whileLoop (timeLeft «end».dt) (fun s => s.currentDt.isBefore «end».dt) (iteration R C) _ = r
      at hends ⊢
    obtain ⟨s, thrown⟩ := r
    refine ⟨s, thrown, hends, ?_⟩
    cases thrown with
    | some e => rfl
    | none => exact whileLoop_ends (emitHead_decreases _) s

theorem generateEvents_inOrder (start «end» : TimeStamp) (vars : Vars σ) :
    InOrder time (generateEvents R C queue start «end» vars).1.emitted := by
  have hstep : ∀ s : Run σ queue, AtHead R C start «end» vars s → InTime s →
      s.currentDt.isBefore «end».dt = true → ((iteration R C s).2 = none → InTime (iteration R C s).1) ∧
        ((iteration R C s).2 ≠ none → InOrder time (iteration R C s).1.emitted) := by
    intro s _ hs _
    obtain ⟨s', hdue, hs', hlater⟩ := emitDue_inTime hs
    obtain ⟨hkeep, hsorted⟩ := newEvent_inTime (R := R) (C := C) hs' hlater
    rw [iteration_eq hdue]
    exact ⟨hkeep, fun _ => hsorted⟩
  -- At the switch to the last loop, what waits is not before what was emitted.
  exact generateEvents_keeps start «end» vars (J := fun s => InOrder time s.emitted) (InTime.start start vars) hstep
    (fun s hs => hs.feed) (fun s event pq hs hq => hs.afterHead hq) fun s hs => hs.sorted

/-- **The feed is in time order.** From any start to any end and under any
draws, the generator comes to its end, and each event it passes on is not
before any it passed on earlier. It ends in an exception only where a sum
comes near the ends of a `Long`. -/
theorem emitted_in_order (R : RandomSource σ) (C : Chronology) (queue : EventQueue) (start «end» : TimeStamp)
    (vars : Vars σ) : Terminates R C start «end» vars (generateEvents R C queue start «end» vars) ∧
      InOrder time (generateEvents R C queue start «end» vars).1.emitted ∧
        (FarFromEnds start «end» → (generateEvents R C queue start «end» vars).2 = none) :=
  ⟨generateEvents_terminates start «end» vars, generateEvents_inOrder start «end» vars,
    fun hfar => generateEvents_returns hfar vars⟩

end Generator

end TransferDashboard
