/-
What a feed is made of, and what a run needs.

What the main loop adds is said once, in terms of the event drawn
(`newEvent_adds`): every event has the shape of a transfer or of a receipt
(`feed_shapes`), there is one transfer for each event drawn and one receipt
for each asynchronous one (`feed_counts`), and since a receipt is due within
304 seconds and events are drawn a second apart, no more than 304 wait at a
time (`waiting_le`).
-/
import TransferDashboard.GeneratorOrder

namespace TransferDashboard

open Scala Fallible Joda Random Loop Timeline

namespace Generator

variable {σ : Type} {R : RandomSource σ} {C : Chronology} {queue : EventQueue}

/-! ## What a new event adds -/

theorem receipt_eq_ok {e a : Event} {random : σ} (h : (receipt R C e random).1 = some (.ok a)) :
    e.ackState = some .ackPending ∧ a.partner = e.partner ∧ (a.action = .send ∨ a.action = .receive) ∧ a.size = 100 ∧
      a.seconds = 10 ∧ a.ackState = some .ackReceived ∧ a.receiptFor = some e.eventId ∧ time e + 5000 ≤ time a ∧
      time a ≤ time e + 304000 := by
  have hdelay := (R.nextInt 300 random).1.isLt
  have hack : ∀ {letter action}, (action = .send ∨ action = .receive) →
      ack C e letter action (5 + (R.nextInt 300 random).1.val) = .ok a → a.partner = e.partner ∧
        (a.action = .send ∨ a.action = .receive) ∧ a.size = 100 ∧ a.seconds = 10 ∧ a.ackState = some .ackReceived ∧
        a.receiptFor = some e.eventId ∧ time e + 5000 ≤ time a ∧ time a ≤ time e + 304000 := by
    intro letter action haction hok
    obtain ⟨newT, hT, ha⟩ := bind_eq_ok.1 hok
    have hms : newT.millis.toInt = e.millis.toInt + _ := C.plusSeconds_millis _ _ _ hT
    rw [Except.ok.injEq] at ha
    subst ha
    exact ⟨rfl, haction, rfl, rfl, rfl, rfl, by simp only [time, Event.millis] at hms ⊢; omega,
      by simp only [time, Event.millis] at hms ⊢; omega⟩
  unfold receipt at h
  split at h
  next hpending _ =>
    rw [Option.some.injEq] at h
    exact ⟨hpending, hack (.inr rfl) h⟩
  next hpending _ =>
    rw [Option.some.injEq] at h
    exact ⟨hpending, hack (.inl rfl) h⟩
  · cases h

theorem receipt_eq_none {s : Run σ queue} {random : σ} (h : (receipt R C (s.next R) random).1 = none) :
    (s.next R).ackState = none := by
  rcases receipt_spec (R := R) (C := C) (getRandomEvent_original s.currentDt s.vars).1 random with
    ⟨hnone, -⟩ | ⟨-, r, hr, -⟩
  · exact hnone
  · have hr : (receipt R C (s.next R) random).1 = some r := hr
    rw [h] at hr
    cases hr

/-- What the event drawn brings: itself alone, itself with its receipt, or nothing. -/
inductive Adds (R : RandomSource σ) (C : Chronology) (s s' : Run σ queue) : Prop
  | sync (hack : (s.next R).ackState = none) (hem : s'.emitted = s.emitted ++ [s.next R]) (hpq : s'.pq = s.pq)
  | async (a : Event) (random : σ) (ha : (receipt R C (s.next R) random).1 = some (.ok a))
      (hem : s'.emitted = s.emitted ++ [s.next R]) (hpq : s'.pq = queue.enqueue s.pq a)
  | threw (hem : s'.emitted = s.emitted) (hpq : s'.pq = s.pq)

theorem newEvent_adds (s : Run σ queue) : Adds R C s (newEvent R C s).1 ∧
    ((newEvent R C s).2 = none → (newEvent R C s).1.emitted = s.emitted ++ [s.next R]) := by
  rw [newEvent_eq]
  split
  next a ha =>
    obtain ⟨hem, hpq, -⟩ := emitNew_spec (R := R) (C := C) (s.next R)
      { s.afterDraw R C with pq := queue.enqueue s.pq a }
    exact ⟨.async a _ ha hem hpq, fun _ => hem⟩
  next e he => exact ⟨.threw rfl rfl, fun h => by cases h⟩
  next hnone =>
    obtain ⟨hem, hpq, -⟩ := emitNew_spec (R := R) (C := C) (s.next R) (s.afterDraw R C)
    exact ⟨.sync (receipt_eq_none hnone) hem hpq, fun _ => hem⟩

/-! ## Shapes -/

/-- A transfer between two instants, as it is drawn. -/
structure IsTransfer (start «end» : Int) (e : Event) : Prop where
  partner : ∃ info ∈ partners, e.partner = info.partner ∧ e.ackState = if info.isSync then none else some .ackPending
  action : e.action = .send ∨ e.action = .receive
  size : 1024 ≤ e.size.toInt ∧ e.size.toInt ≤ 201023
  seconds : 3 ≤ e.seconds.toInt ∧ e.seconds.toInt ≤ 27
  receiptFor : e.receiptFor = none
  when : start ≤ time e ∧ time e < «end»

/-- The receipt of such a transfer. -/
structure IsReceipt (start «end» : Int) (e : Event) : Prop where
  partner : ∃ info ∈ partners, e.partner = info.partner ∧ info.isSync = false
  action : e.action = .send ∨ e.action = .receive
  size : e.size = 100
  seconds : e.seconds = 10
  ackState : e.ackState = some .ackReceived
  receiptFor : e.receiptFor.isSome = true
  when : start + 5000 ≤ time e ∧ time e < «end» + 304000

def Shaped (start «end» : Int) (e : Event) : Prop := IsTransfer start «end» e ∨ IsReceipt start «end» e

theorem next_isTransfer {s : Run σ queue} {start «end» : Int} (hstart : start ≤ s.currentDt.millis.toInt)
    (hend : s.currentDt.millis.toInt < «end») : IsTransfer start «end» (s.next R) where
  partner := ⟨(getRandomPartnerMetaInfo R s.vars.random).1, List.get_mem _ _, rfl, rfl⟩
  action := (getRandomEvent_original s.currentDt s.vars).1.action
  size := by
    simp only [Run.next, getRandomEvent]
    rw [Int32.toInt_ofNat_of_lt (by omega)]
    omega
  seconds := by
    simp only [Run.next, getRandomEvent]
    rw [Int32.toInt_ofNat_of_lt (by omega)]
    omega
  receiptFor := rfl
  when := ⟨hstart, hend⟩

theorem IsTransfer.receipt {start «end» : Int} {e a : Event} {random : σ} (he : IsTransfer start «end» e)
    (h : (Generator.receipt R C e random).1 = some (.ok a)) : IsReceipt start «end» a := by
  obtain ⟨hack, hpartner, haction, hsize, hseconds, hackState, hfor, hafter, hbefore⟩ := receipt_eq_ok h
  obtain ⟨info, hinfo, hname, hstate⟩ := he.partner
  refine ⟨⟨info, hinfo, hpartner.trans hname, ?_⟩, haction, hsize, hseconds, hackState, ?_, ?_⟩
  · cases hsync : info.isSync with
    | false => rfl
    | true =>
      rw [hsync, if_pos rfl, hack] at hstate
      cases hstate
  · rw [hfor]
    rfl
  · have hwhen := he.when
    exact ⟨by omega, by omega⟩

/-- At the head of the main loop: what the run holds has one of the shapes. -/
structure WellShaped (start «end» : TimeStamp) (s : Run σ queue) : Prop where
  held : ∀ e, Holds s e → Shaped start.dt.millis.toInt «end».dt.millis.toInt e
  begun : start.dt.millis.toInt ≤ s.currentDt.millis.toInt

theorem WellShaped.iteration {start «end» : TimeStamp} {s : Run σ queue} (h : WellShaped start «end» s)
    (hbefore : s.currentDt.isBefore «end».dt = true) :
    (∀ e, Holds (iteration R C s).1 e → Shaped start.dt.millis.toInt «end».dt.millis.toInt e) ∧
      ((iteration R C s).2 = none → WellShaped start «end» (iteration R C s).1) := by
  obtain ⟨s', hdue, ⟨hsame, htime⟩, -⟩ := emitDue_spec
    (I := fun t => (∀ e, Holds t e ↔ Holds s e) ∧ t.currentDt = s.currentDt)
    (fun t event pq ht _ hq => ⟨fun e => (holds_afterHead hq e).trans (ht.1 e), ht.2⟩) (s := s) ⟨fun _ => Iff.rfl, rfl⟩
  rw [iteration_eq hdue]
  rw [DateTime.isBefore_iff, ← htime] at hbefore
  have hbegun := h.begun
  rw [← htime] at hbegun
  have hnext : IsTransfer start.dt.millis.toInt «end».dt.millis.toInt (s'.next R) := next_isTransfer hbegun hbefore
  have hold : ∀ e, Holds s' e → Shaped start.dt.millis.toInt «end».dt.millis.toInt e :=
    fun e he => h.held e ((hsame e).1 he)
  have hheld : ∀ e, Holds (newEvent R C s').1 e → Shaped start.dt.millis.toInt «end».dt.millis.toInt e := by
    intro e he
    unfold Holds at he
    cases (newEvent_adds (R := R) (C := C) s').1 with
    | threw hem hpq =>
      rw [hem, hpq] at he
      exact hold e he
    | sync hack hem hpq =>
      rw [hem, hpq, List.mem_append, List.mem_singleton, ← or_assoc] at he
      rcases he with hin | rfl
      · exact hold e hin
      · exact .inl hnext
    | async a random ha hem hpq =>
      rw [hem, hpq, queue.contents_enqueue, Multiset.mem_cons, List.mem_append, List.mem_singleton] at he
      rcases he with (rfl | hin) | hin | rfl
      · exact .inr (hnext.receipt ha)
      · exact hold e (.inl hin)
      · exact hold e (.inr hin)
      · exact .inl hnext
  refine ⟨hheld, fun hret => ⟨hheld, ?_⟩⟩
  obtain ⟨-, -, -, hms⟩ := newEvent_spec (R := R) (C := C) s'
  have hlater := (hms hret).1
  omega

/-- **The shape of the feed.** However a run ends, each event it has emitted
is a transfer of a known partner within the span, with the acknowledgement
that partner's transfers call for and a size and a duration of the range
drawn from, or a receipt of an asynchronous partner, at most 304 seconds past
the span. -/
theorem feed_shapes (R : RandomSource σ) (C : Chronology) (queue : EventQueue) (start «end» : TimeStamp)
    (vars : Vars σ) : ∀ e ∈ (generateEvents R C queue start «end» vars).1.emitted,
      IsTransfer start.dt.millis.toInt «end».dt.millis.toInt e ∨ IsReceipt start.dt.millis.toInt «end».dt.millis.toInt e := by
  have hheld : ∀ e, Holds (generateEvents R C queue start «end» vars).1 e →
      Shaped start.dt.millis.toInt «end».dt.millis.toInt e := by
    refine generateEvents_keeps start «end» vars (I := WellShaped start «end»)
      (K := fun s => ∀ e, Holds s e → Shaped start.dt.millis.toInt «end».dt.millis.toInt e) ?_
      (fun s _ hs hbefore => ?_) (fun s hs => hs.held)
      (fun s event pq hs hq e he => hs e ((holds_afterHead hq e).1 he)) fun _ hs => hs
    · exact ⟨fun e he => absurd he (not_holds_start e), Int.le_refl _⟩
    · obtain ⟨hheld, hkeep⟩ := hs.iteration (R := R) (C := C) hbefore
      exact ⟨hkeep, fun _ => hheld⟩
  exact fun e he => hheld e (.inr he)

/-- The one event drawn in a span of one second. -/
theorem feed_shapes_scripted :
    Shaped 1483304400000 1483304401000 (getRandomEvent scripted (instant 1483304400000) (Vars.start [1])).1 :=
  feed_shapes scripted chronologyUTC listQueue (instant 1483304400000) (instant 1483304401000) (Vars.start [1]) _
    (by decide +kernel)

/-! ## Counts -/

def isTransfer (e : Event) : Bool := e.receiptFor.isNone
def isReceipt (e : Event) : Bool := e.receiptFor.isSome
def isPending (e : Event) : Bool := e.ackState = some .ackPending

/-- What was emitted and what waits, against what was drawn and how late it is. -/
structure Tally (start «end» : TimeStamp) (s : Run σ queue) : Prop where
  waits : ∀ a ∈ queue.contents s.pq, isReceipt a = true ∧ isPending a = false
  transfers : s.emitted.countP isTransfer = s.drawn
  receipts : s.emitted.countP isReceipt + waiting s = s.emitted.countP isPending
  slow : start.dt.millis.toInt + 1000 * s.drawn ≤ s.currentDt.millis.toInt
  fast : s.currentDt.millis.toInt ≤ start.dt.millis.toInt + 3000 * s.drawn
  short : s.drawn = 0 ∨ start.dt.millis.toInt + 1000 * s.drawn < «end».dt.millis.toInt + 1000

theorem Tally.start (start «end» : TimeStamp) (vars : Vars σ) : Tally start «end» (Run.start queue start vars) where
  waits a ha := by
    have hempty : a ∈ queue.contents queue.empty := ha
    rw [queue.contents_empty] at hempty
    exact absurd hempty (Multiset.notMem_zero a)
  transfers := rfl
  receipts := by
    show 0 + (queue.contents queue.empty).card = 0
    rw [queue.contents_empty]
    rfl
  slow := by simp [Run.start]
  fast := by simp [Run.start]
  short := .inl rfl

theorem Tally.afterHead {start «end» : TimeStamp} {s : Run σ queue} (h : Tally start «end» s) {event : Event}
    {pq : queue.Q} (hq : queue.dequeue s.pq = some (event, pq)) : Tally start «end» (s.afterHead event pq) := by
  have hcons := queue.dequeue_some _ _ _ hq
  obtain ⟨hreceipt, hpending⟩ := h.waits event (by rw [hcons]; exact Multiset.mem_cons_self event _)
  have htransfer : isTransfer event = false := by
    rw [isReceipt] at hreceipt
    rw [isTransfer, Option.isNone_eq_false_iff]
    exact hreceipt
  have hwaiting : waiting s = (queue.contents pq).card + 1 := by rw [waiting, hcons, Multiset.card_cons]
  refine { h with waits := fun a ha => h.waits a ?_, transfers := ?_, receipts := ?_ }
  · rw [hcons]
    exact Multiset.mem_cons_of_mem ha
  · simp only [Run.afterHead, List.countP_append, List.countP_singleton, htransfer, Bool.false_eq_true, if_false]
    exact h.transfers
  · have hreceipts := h.receipts
    simp only [Run.afterHead, waiting, List.countP_append, List.countP_singleton, hreceipt, hpending, if_true,
      Bool.false_eq_true, if_false]
    omega

theorem Tally.afterNew {start «end» : TimeStamp} {s : Run σ queue} (h : Tally start «end» s)
    (hbefore : s.currentDt.millis.toInt < «end».dt.millis.toInt) (hret : (newEvent R C s).2 = none) :
    Tally start «end» (newEvent R C s).1 := by
  obtain ⟨hadds, hem⟩ := newEvent_adds (R := R) (C := C) s
  obtain ⟨-, hdrawn, -, hms⟩ := newEvent_spec (R := R) (C := C) s
  obtain ⟨hslow, hfast⟩ := hms hret
  have hem := hem hret
  have hfor : (s.next R).receiptFor = none := rfl
  have htransfers := h.transfers
  have hreceipts := h.receipts
  have hlow := h.slow
  have hhigh := h.fast
  have hcounts : (newEvent R C s).1.emitted.countP isTransfer = s.emitted.countP isTransfer + 1 ∧
      (newEvent R C s).1.emitted.countP isReceipt = s.emitted.countP isReceipt ∧
      (newEvent R C s).1.emitted.countP isPending = s.emitted.countP isPending + if isPending (s.next R) then 1 else 0 := by
    rw [hem]
    simp only [List.countP_append, List.countP_singleton, isTransfer, isReceipt, hfor, Option.isNone_none,
      Option.isSome_none, if_true, Bool.false_eq_true, if_false, Nat.add_zero, true_and]
  obtain ⟨hone, htwo, hthree⟩ := hcounts
  have hclock : start.dt.millis.toInt + 1000 * ((newEvent R C s).1.drawn : Int) ≤ (newEvent R C s).1.currentDt.millis.toInt ∧
      (newEvent R C s).1.currentDt.millis.toInt ≤ start.dt.millis.toInt + 3000 * ((newEvent R C s).1.drawn : Int) ∧
      start.dt.millis.toInt + 1000 * ((newEvent R C s).1.drawn : Int) < «end».dt.millis.toInt + 1000 := by
    rw [hdrawn]
    push_cast
    exact ⟨by omega, by omega, by omega⟩
  have hqueue : (∀ a ∈ queue.contents (newEvent R C s).1.pq, isReceipt a = true ∧ isPending a = false) ∧
      waiting (newEvent R C s).1 = waiting s + if isPending (s.next R) then 1 else 0 := by
    cases hadds with
    | threw hem' _ =>
      rw [hem, List.append_right_eq_self] at hem'
      cases hem'
    | sync hack hem hpq =>
      rw [waiting, hpq, isPending, hack]
      exact ⟨h.waits, rfl⟩
    | async a random ha hem hpq =>
      obtain ⟨hack, -, -, -, -, hackState, hfor', -, -⟩ := receipt_eq_ok ha
      rw [waiting, hpq, queue.contents_enqueue, isPending, hack, Multiset.card_cons]
      refine ⟨fun b hb => ?_, rfl⟩
      rcases Multiset.mem_cons.1 hb with rfl | hold
      · exact ⟨by rw [isReceipt, hfor']; rfl, by rw [isPending, hackState]; rfl⟩
      · exact h.waits b hold
  refine ⟨hqueue.1, by rw [hone, hdrawn, htransfers], ?_, hclock.1, hclock.2.1, .inr hclock.2.2⟩
  rw [htwo, hthree, hqueue.2]
  omega

/-- What a run that returned has emitted, and how many events it drew. -/
structure Counted (start «end» : TimeStamp) (run : Run σ queue) : Prop where
  transfers : run.emitted.countP isTransfer = run.drawn
  receipts : run.emitted.countP isReceipt = run.emitted.countP isPending
  total : run.emitted.length = run.drawn + run.emitted.countP isPending
  atLeast : «end».dt.millis.toInt - start.dt.millis.toInt ≤ 3000 * run.drawn
  atMost : run.drawn = 0 ∨ 1000 * (run.drawn : Int) < «end».dt.millis.toInt - start.dt.millis.toInt + 1000

theorem Tally.counted {start «end» : TimeStamp} {run : Run σ queue} (h : Tally start «end» run)
    (hend : run.currentDt.isBefore «end».dt = false) (hempty : queue.contents run.pq = 0) : Counted start «end» run := by
  have htransfers := h.transfers
  have hreceipts := h.receipts
  have hfast := h.fast
  rw [waiting, hempty, Multiset.card_zero, Nat.add_zero] at hreceipts
  have hlength : run.emitted.length = run.emitted.countP isTransfer + run.emitted.countP isReceipt := by
    rw [List.length_eq_countP_add_countP isTransfer]
    congr 1
    refine List.countP_congr fun e _ => ?_
    cases hfor : e.receiptFor <;> simp [isTransfer, isReceipt, hfor]
  have hafter : «end».dt.millis.toInt ≤ run.currentDt.millis.toInt := by
    by_contra hlt
    rw [DateTime.isBefore_iff.2 (by omega)] at hend
    cases hend
  refine ⟨htransfers, hreceipts, by omega, by omega, ?_⟩
  rcases h.short with hzero | hshort
  · exact .inl hzero
  · exact .inr (by omega)

/-- **How much a feed holds.** A run that returns has emitted one transfer for
each event drawn and one receipt for each asynchronous transfer, and nothing
else; and as it draws an event every one to three seconds, it has drawn at
least a third as many as its span has seconds, and at most as many, a second
begun counting as one. -/
theorem feed_counts (R : RandomSource σ) (C : Chronology) (queue : EventQueue) {start «end» : TimeStamp}
    {vars : Vars σ} (hret : (generateEvents R C queue start «end» vars).2 = none) :
    Counted start «end» (generateEvents R C queue start «end» vars).1 := by
  have hstep : ∀ s : Run σ queue, AtHead R C start «end» vars s → Tally start «end» s →
      s.currentDt.isBefore «end».dt = true → ((iteration R C s).2 = none → Tally start «end» (iteration R C s).1) ∧
        ((iteration R C s).2 ≠ none → True) := by
    intro s _ hs hbefore
    obtain ⟨s', hdue, ⟨hs', htime⟩, -⟩ := emitDue_spec
      (I := fun t => Tally start «end» t ∧ t.currentDt = s.currentDt)
      (fun t event pq ht _ hq => ⟨ht.1.afterHead hq, ht.2⟩) (s := s) ⟨hs, rfl⟩
    rw [iteration_eq hdue]
    rw [DateTime.isBefore_iff, ← htime] at hbefore
    exact ⟨fun hret => hs'.afterNew hbefore hret, fun _ => trivial⟩
  obtain ⟨⟨htally, hend⟩, hempty⟩ := (generateEvents_spec (J := fun _ => True)
    (K := fun s => Tally start «end» s ∧ s.currentDt.isBefore «end».dt = false) .start (Tally.start start «end» vars) hstep
    (fun s hs hend => ⟨hs, hend⟩) (fun s event pq hs hq => ⟨hs.1.afterHead hq, hs.2⟩)).1 hret
  exact htally.counted hend hempty

/-- A transfer and its receipt, in a span of one second. -/
theorem feed_counts_scripted :
    Counted (instant 1483304400000) (instant 1483304401000)
      (generateEvents scripted chronologyUTC listQueue (instant 1483304400000) (instant 1483304401000)
        (Vars.start [1])).1 :=
  feed_counts scripted chronologyUTC listQueue (by decide +kernel)

/-! ## How many wait -/

/-- What waits, with the time it was put to wait. -/
def Waits (s : Run σ queue) : Prop :=
  ∃ came : List (Int × Event), ((came.map Prod.snd : List Event) : Multiset Event) = queue.contents s.pq ∧
    Spaced 1000 304000 time s.currentDt.millis.toInt came

theorem Waits.start (start : TimeStamp) (vars : Vars σ) : Waits (Run.start queue start vars) :=
  ⟨[], queue.contents_empty.symm, .nil⟩

theorem Waits.afterHead {s : Run σ queue} (h : Waits s) {event : Event} {pq : queue.Q}
    (hq : queue.dequeue s.pq = some (event, pq)) : Waits (s.afterHead event pq) := by
  obtain ⟨came, hcame, hspaced⟩ := h
  rw [queue.dequeue_some _ _ _ hq] at hcame
  have hmem : event ∈ came.map Prod.snd := by
    rw [← Multiset.mem_coe, hcame]
    exact Multiset.mem_cons_self event _
  obtain ⟨x, hx, rfl⟩ := List.mem_map.1 hmem
  obtain ⟨before, after, rfl⟩ := List.append_of_mem hx
  refine ⟨before ++ after, ?_, hspaced.sublist (by simp)⟩
  rw [List.map_append, List.map_cons, ← Multiset.coe_add, ← Multiset.cons_coe, Multiset.add_cons,
    Multiset.cons_inj_right] at hcame
  rw [List.map_append, ← Multiset.coe_add]
  exact hcame

/-- Once what is due is out, at most 303 wait. -/
theorem Waits.due_lt {s : Run σ queue} (h : Waits s) (hlater : headDue s = false) : waiting s < 304 := by
  obtain ⟨came, hcame, hspaced⟩ := h
  have hlen := hspaced.length_lt (fun x hx => headDue_false hlater x.2 ?_) (by decide)
  · have hcard : waiting s = came.length := by rw [waiting, ← hcame, Multiset.coe_card, List.length_map]
    omega
  · rw [← hcame, Multiset.mem_coe]
    exact List.mem_map_of_mem hx

theorem Waits.afterNew {s : Run σ queue} (h : Waits s) (hret : (newEvent R C s).2 = none) :
    Waits (newEvent R C s).1 := by
  obtain ⟨came, hcame, hspaced⟩ := h
  obtain ⟨-, -, -, hms⟩ := newEvent_spec (R := R) (C := C) s
  obtain ⟨hstep, -⟩ := hms hret
  have hlater := hspaced.later (Int.le_trans (by omega : s.currentDt.millis.toInt ≤ s.currentDt.millis.toInt + 1000) hstep)
  cases (newEvent_adds (R := R) (C := C) s).1 with
  | sync hack hem hpq | threw hem hpq => exact ⟨came, by rw [hpq]; exact hcame, hlater⟩
  | async a random ha hem hpq =>
    obtain ⟨-, -, -, -, -, -, -, -, hdue⟩ := receipt_eq_ok ha
    refine ⟨(s.currentDt.millis.toInt, a) :: came, ?_, hspaced.arrive hdue hstep (by decide)⟩
    rw [hpq, queue.contents_enqueue, List.map_cons, ← Multiset.cons_coe, hcame]

/-- A new event adds one at most. -/
theorem waiting_newEvent (s : Run σ queue) : waiting (newEvent R C s).1 ≤ waiting s + 1 := by
  cases (newEvent_adds (R := R) (C := C) s).1 with
  | sync hack hem hpq | threw hem hpq =>
    rw [waiting, hpq]
    exact Nat.le_succ _
  | async a random ha hem hpq => rw [waiting, hpq, queue.contents_enqueue, Multiset.card_cons, waiting]

/-- An iteration leaves no more than 304, however it ends. -/
theorem Waits.iteration {s : Run σ queue} (h : Waits s) : waiting (iteration R C s).1 ≤ 304 ∧
    ((iteration R C s).2 = none → Waits (iteration R C s).1) := by
  obtain ⟨s', hdue, hs', hlater⟩ := emitDue_spec (I := Waits) (fun t event pq ht _ hq => ht.afterHead hq) h
  rw [iteration_eq hdue]
  have hfew := hs'.due_lt hlater
  have hadded := waiting_newEvent (R := R) (C := C) s'
  exact ⟨by omega, hs'.afterNew⟩

/-- **The queue stays short.** Whatever is drawn and however long the span is,
no more than 304 receipts wait whenever the main loop is entered again, nor
where a run was thrown out of it; a run that returns leaves none. -/
theorem waiting_le (R : RandomSource σ) (C : Chronology) (queue : EventQueue) (start «end» : TimeStamp) (vars : Vars σ) :
    (∀ s : Run σ queue, AtHead R C start «end» vars s → waiting s ≤ 304) ∧
      waiting (generateEvents R C queue start «end» vars).1 ≤ 304 ∧
        ((generateEvents R C queue start «end» vars).2 = none →
          waiting (generateEvents R C queue start «end» vars).1 = 0) := by
  have hempty : waiting (Run.start queue start vars) = 0 := by
    show (queue.contents queue.empty).card = 0
    rw [queue.contents_empty]
    rfl
  have hhead : ∀ s : Run σ queue, AtHead R C start «end» vars s → Waits s ∧ waiting s ≤ 304 := by
    intro s hs
    induction hs with
    | start => exact ⟨.start start vars, by omega⟩
    | next _ hc hret ih =>
      obtain ⟨hle, hkeep⟩ := ih.1.iteration (R := R) (C := C)
      exact ⟨hkeep hret, hle⟩
  have hstep : ∀ s : Run σ queue, AtHead R C start «end» vars s → Waits s → s.currentDt.isBefore «end».dt = true →
      ((iteration R C s).2 = none → Waits (iteration R C s).1) ∧
        ((iteration R C s).2 ≠ none → waiting (iteration R C s).1 ≤ 304) :=
    fun s _ hs _ => ⟨hs.iteration.2, fun _ => hs.iteration.1⟩
  obtain ⟨hreturned, hthrew⟩ := generateEvents_spec (J := fun s => waiting s ≤ 304) (K := fun _ => True) .start
    (Waits.start start vars) hstep (fun _ _ _ => trivial) (fun _ _ _ _ _ => trivial)
  have hnone : (generateEvents R C queue start «end» vars).2 = none →
      waiting (generateEvents R C queue start «end» vars).1 = 0 := by
    intro hret
    rw [waiting, (hreturned hret).2, Multiset.card_zero]
  refine ⟨fun s hs => (hhead s hs).2, ?_, hnone⟩
  by_cases hret : (generateEvents R C queue start «end» vars).2 = none
  · rw [hnone hret]
    exact Nat.zero_le _
  · exact hthrew hret

end Generator

end TransferDashboard
