/-
What the generator's steps do, said once: the loops that empty the queue
(`emitDue_spec`, `emitRest_spec`) and the making of a new event
(`newEvent_spec`). Each loop ends, so a run is what its loops say
(`iteration_decreases`).
-/
import TransferDashboard.Generator

namespace TransferDashboard

open Scala Fallible Joda Random Loop

namespace Generator

variable {σ : Type} {R : RandomSource σ} {C : Chronology} {queue : EventQueue}

/-! ## Emptying the queue -/

/-- The run after its head was emitted. -/
def Run.afterHead (s : Run σ queue) (event : Event) (pq : queue.Q) : Run σ queue :=
  { s with pq, emitted := s.emitted ++ [event] }

theorem emitHead_eq {s : Run σ queue} {event : Event} {pq : queue.Q} (h : queue.dequeue s.pq = some (event, pq)) :
    emitHead s = (s.afterHead event pq, none) := by
  rw [emitHead, h]
  rfl

theorem emitHead_decreases (cond : Run σ queue → Bool) : Decreases waiting cond emitHead := by
  intro s _ hb
  cases hq : queue.dequeue s.pq with
  | none => rw [emitHead, hq] at hb; cases hb
  | some x =>
    rw [emitHead_eq hq, waiting, waiting, queue.dequeue_some _ _ _ hq, Multiset.card_cons]
    exact Nat.lt_succ_self _

/-- A loop over `emitHead` that runs only where there is a head never throws. -/
theorem emitting_spec {cond : Run σ queue → Bool} {I : Run σ queue → Prop}
    (hhead : ∀ s, cond s = true → (queue.headOption s.pq).isSome = true)
    (hI : ∀ s event pq, I s → cond s = true → queue.dequeue s.pq = some (event, pq) → I (s.afterHead event pq))
    {s : Run σ queue} (hs : I s) :
    ∃ s', whileLoop waiting cond emitHead s = (s', none) ∧ I s' ∧ cond s' = false := by
  have hstep : ∀ s, I s → cond s = true →
      ((emitHead s).2 = none → I (emitHead s).1) ∧ ((emitHead s).2 ≠ none → False) := by
    intro s hs hc
    obtain ⟨event, hevent⟩ := Option.isSome_iff_exists.1 (hhead s hc)
    obtain ⟨pq, hq⟩ := MaxQueue.dequeue_of_head_some hevent
    rw [emitHead_eq hq]
    exact ⟨fun _ => hI s event pq hs hc hq, fun h => h rfl⟩
  have hleaves := whileLoop_spec (emitHead_decreases cond) (J := fun _ => False) hstep hs
  generalize whileLoop waiting cond emitHead s = r at hleaves
  cases hleaves with
  | done hI' hc => exact ⟨_, rfl, hI', hc⟩
  | thrown e hJ => exact hJ.elim

theorem emitDue_spec {I : Run σ queue → Prop}
    (hI : ∀ s event pq, I s → headDue s = true → queue.dequeue s.pq = some (event, pq) → I (s.afterHead event pq))
    {s : Run σ queue} (hs : I s) : ∃ s', emitDue s = (s', none) ∧ I s' ∧ headDue s' = false := by
  refine emitting_spec (fun s hdue => ?_) hI hs
  unfold headDue at hdue
  split at hdue
  next head hhead => rw [hhead]; rfl
  · cases hdue

theorem emitRest_spec {I : Run σ queue → Prop}
    (hI : ∀ s event pq, I s → queue.dequeue s.pq = some (event, pq) → I (s.afterHead event pq))
    {s : Run σ queue} (hs : I s) : ∃ s', emitRest s = (s', none) ∧ I s' ∧ queue.contents s'.pq = 0 := by
  obtain ⟨s', hrest, hs', hempty⟩ := emitting_spec (fun s (h : headDefined s = true) => h)
    (fun s event pq hs _ hq => hI s event pq hs hq) hs
  refine ⟨s', hrest, hs', MaxQueue.contents_of_head_none ?_⟩
  rw [headDefined, Option.isSome_eq_false_iff, Option.isNone_iff_eq_none] at hempty
  exact hempty

/-- Emitting what is due changes neither the time nor the variables. -/
theorem emitDue_keeps (s : Run σ queue) :
    ∃ s', emitDue s = (s', none) ∧ s'.vars = s.vars ∧ s'.currentDt = s.currentDt ∧ s'.drawn = s.drawn := by
  obtain ⟨s', hdue, hkeep, -⟩ := emitDue_spec
    (I := fun t => t.vars = s.vars ∧ t.currentDt = s.currentDt ∧ t.drawn = s.drawn)
    (fun t event pq ht _ _ => ht) (s := s) ⟨rfl, rfl, rfl⟩
  exact ⟨s', hdue, hkeep⟩

/-! ## A new event -/

/-- An event as `getRandomEvent` makes it at an instant. -/
structure Original (vars : Vars σ) (now : DateTime) (e : Event) : Prop where
  id : e.eventId.id = toString vars.eventId.toInt
  timestamp : e.timestamp.dt = now
  action : e.action = .send ∨ e.action = .receive
  ackState : e.ackState = none ∨ e.ackState = some .ackPending
  receiptFor : e.receiptFor = none

theorem getRandomEvent_original (now : DateTime) (vars : Vars σ) :
    Original vars now (getRandomEvent R ⟨now⟩ vars).1 ∧
      (getRandomEvent R ⟨now⟩ vars).2.eventId = vars.eventId + 1 := by
  refine ⟨⟨rfl, rfl, ?_, ?_, rfl⟩, rfl⟩
  · simp only [getRandomEvent]
    split
    · exact .inl rfl
    · exact .inr rfl
  · simp only [getRandomEvent]
    split
    · exact .inl rfl
    · exact .inr rfl

/-- A receipt completes an asynchronous transfer. -/
structure Completes (o r : Event) : Prop where
  partner : r.partner = o.partner
  action : (o.action = .send ∧ r.action = .receive) ∨ (o.action = .receive ∧ r.action = .send)
  after : o.millis.toInt + 5000 ≤ r.millis.toInt
  before : r.millis.toInt ≤ o.millis.toInt + 304000

/-- An event as `generateEvents` makes it to complete another. -/
structure ReceiptOf (o r : Event) : Prop where
  id : r.eventId.id = "r" ++ o.eventId.id ∨ r.eventId.id = "s" ++ o.eventId.id
  ackState : r.ackState = some .ackReceived
  receiptFor : r.receiptFor = some o.eventId
  completes : Completes o r

theorem ack_eq_ok {event r : Event} {letter : String} {action : Action} {seconds : Int}
    (h : ack C event letter action seconds = .ok r) : r.eventId.id = letter ++ event.eventId.id ∧
      r.partner = event.partner ∧ r.action = action ∧ r.ackState = some .ackReceived ∧
      r.receiptFor = some event.eventId ∧ r.millis.toInt = event.millis.toInt + 1000 * seconds := by
  obtain ⟨newT, hT, hr⟩ := bind_eq_ok.1 h
  rw [Except.ok.injEq] at hr
  subst hr
  exact ⟨rfl, rfl, rfl, rfl, rfl, C.plusSeconds_millis _ _ _ hT⟩

/-- An original calls for a receipt when it is asynchronous, and for none else. -/
theorem receipt_spec {vars : Vars σ} {now : DateTime} {e : Event} (he : Original vars now e) (random : σ) :
    (e.ackState = none ∧ (receipt R C e random).1 = none) ∨
      (e.ackState = some .ackPending ∧ ∃ r, (receipt R C e random).1 = some r ∧ ∀ a, r = .ok a → ReceiptOf e a) := by
  rcases he.ackState with hack | hack
  · refine .inl ⟨hack, ?_⟩
    unfold receipt
    rw [hack]
    rcases he.action with ha | ha <;> rw [ha]
  · refine .inr ⟨hack, ?_⟩
    unfold receipt
    rw [hack, he.receiptFor]
    have hdelay := (R.nextInt 300 random).1.isLt
    rcases he.action with ha | ha
    · rw [ha]
      refine ⟨_, rfl, fun a h => ?_⟩
      obtain ⟨hid, hp, hact, hst, hrf, hms⟩ := ack_eq_ok h
      exact ⟨.inl hid, hst, hrf, hp, .inl ⟨ha, hact⟩, by omega, by omega⟩
    · rw [ha]
      refine ⟨_, rfl, fun a h => ?_⟩
      obtain ⟨hid, hp, hact, hst, hrf, hms⟩ := ack_eq_ok h
      exact ⟨.inr hid, hst, hrf, hp, .inr ⟨ha, hact⟩, by omega, by omega⟩

/-- What a new event does to a run: it is emitted alone, or with its receipt
put to wait, or an exception came before. -/
inductive NewEvent (s s' : Run σ queue) : Prop
  | sync (e : Event) (he : Original s.vars s.currentDt e) (hack : e.ackState = none)
      (hem : s'.emitted = s.emitted ++ [e]) (hpq : s'.pq = s.pq)
  | async (e r : Event) (he : Original s.vars s.currentDt e) (hack : e.ackState = some .ackPending)
      (hr : ReceiptOf e r) (hem : s'.emitted = s.emitted ++ [e]) (hpq : s'.pq = queue.enqueue s.pq r)
  | threw (hem : s'.emitted = s.emitted) (hpq : s'.pq = s.pq)

theorem emitNew_spec (e : Event) (s : Run σ queue) :
    (emitNew R C e s).1.emitted = s.emitted ++ [e] ∧ (emitNew R C e s).1.pq = s.pq ∧
      (emitNew R C e s).1.drawn = s.drawn ∧
      (emitNew R C e s).1.vars.eventId = s.vars.eventId ∧ ((emitNew R C e s).2 = none →
        s.currentDt.millis.toInt + 1000 ≤ (emitNew R C e s).1.currentDt.millis.toInt ∧
          (emitNew R C e s).1.currentDt.millis.toInt ≤ s.currentDt.millis.toInt + 3000) := by
  simp only [emitNew]
  have hstep := (R.nextInt 3 s.vars.random).1.isLt
  split
  next dt hdt =>
    have hms := C.plusSeconds_millis _ _ _ hdt
    exact ⟨rfl, rfl, rfl, rfl, fun _ => ⟨by simp only; omega, by simp only; omega⟩⟩
  · exact ⟨rfl, rfl, rfl, rfl, fun h => by cases h⟩

/-- The event a run draws next. -/
def Run.next (R : RandomSource σ) (s : Run σ queue) : Event := (getRandomEvent R ⟨s.currentDt⟩ s.vars).1

/-- The run after it was drawn, with the delay of its receipt. -/
def Run.afterDraw (R : RandomSource σ) (C : Chronology) (s : Run σ queue) : Run σ queue :=
  let vars := (getRandomEvent R ⟨s.currentDt⟩ s.vars).2
  { s with vars := { vars with random := (receipt R C (s.next R) vars.random).2 }, drawn := s.drawn + 1 }

theorem newEvent_eq (s : Run σ queue) : newEvent R C s =
    match (receipt R C (s.next R) (getRandomEvent R ⟨s.currentDt⟩ s.vars).2.random).1 with
    | some (.ok ack) => emitNew R C (s.next R) { s.afterDraw R C with pq := queue.enqueue s.pq ack }
    | some (.error e) => (s.afterDraw R C, some e)
    | none => emitNew R C (s.next R) (s.afterDraw R C) := rfl

theorem newEvent_spec (s : Run σ queue) : NewEvent s (newEvent R C s).1 ∧ (newEvent R C s).1.drawn = s.drawn + 1 ∧
    (newEvent R C s).1.vars.eventId = s.vars.eventId + 1 ∧ ((newEvent R C s).2 = none →
      s.currentDt.millis.toInt + 1000 ≤ (newEvent R C s).1.currentDt.millis.toInt ∧
        (newEvent R C s).1.currentDt.millis.toInt ≤ s.currentDt.millis.toInt + 3000) := by
  obtain ⟨he, hid⟩ : Original s.vars s.currentDt (s.next R) ∧
      (s.afterDraw R C).vars.eventId = s.vars.eventId + 1 := getRandomEvent_original s.currentDt s.vars
  rw [newEvent_eq]
  rcases receipt_spec (R := R) (C := C) he (getRandomEvent R ⟨s.currentDt⟩ s.vars).2.random with
    ⟨hack, hnone⟩ | ⟨hack, r, hsome, hr⟩
  · rw [hnone]
    obtain ⟨hem, hpq, hdrawn, hev, htime⟩ := emitNew_spec (R := R) (C := C) (s.next R) (s.afterDraw R C)
    exact ⟨.sync _ he hack hem hpq, hdrawn, hev.trans hid, htime⟩
  · rw [hsome]
    cases r with
    | error e => exact ⟨.threw rfl rfl, rfl, hid, fun h => by cases h⟩
    | ok a =>
      obtain ⟨hem, hpq, hdrawn, hev, htime⟩ := emitNew_spec (R := R) (C := C) (s.next R)
        { s.afterDraw R C with pq := queue.enqueue s.pq a }
      exact ⟨.async _ a he hack (hr a rfl) hem hpq, hdrawn, hev.trans hid, htime⟩

/-! ## The main loop ends -/

theorem iteration_eq {s s' : Run σ queue} (h : emitDue s = (s', none)) : iteration R C s = newEvent R C s' := by
  rw [iteration, h]

theorem iteration_decreases (endDt : DateTime) : Decreases (timeLeft endDt)
    (fun s : Run σ queue => s.currentDt.isBefore endDt) (iteration R C) := by
  intro s hbefore hnone
  obtain ⟨s', hdue, hkeep, htime, -⟩ := emitDue_keeps s
  rw [iteration_eq hdue] at hnone ⊢
  obtain ⟨-, -, -, hms⟩ := newEvent_spec (R := R) (C := C) s'
  have hlater := (hms hnone).1
  rw [DateTime.isBefore_iff] at hbefore
  rw [timeLeft, timeLeft]
  rw [htime] at hlater
  omega

/-! ## A run -/

/-- A run before its first iteration. -/
def Run.start (queue : EventQueue) (start : TimeStamp) (vars : Vars σ) : Run σ queue :=
  ⟨vars, start.dt, queue.empty, [], 0⟩

/-- A state at the head of the main loop. -/
def AtHead (R : RandomSource σ) (C : Chronology) (start «end» : TimeStamp) (vars : Vars σ)
    (s : Run σ queue) : Prop :=
  Visited (fun s => s.currentDt.isBefore «end».dt) (iteration R C) (Run.start queue start vars) s

/-- **The rule for runs.** What holds at some head of the main loop, and is
kept by the iterations from there and by the last loop, holds of a run that
returns, with its queue empty; where an iteration throws, what it leaves is `J`. -/
theorem generateEvents_spec {start «end» : TimeStamp} {vars : Vars σ} {t : Run σ queue}
    (ht : AtHead R C start «end» vars t) {I J K : Run σ queue → Prop} (hI : I t)
    (hstep : ∀ s, AtHead R C start «end» vars s → I s → s.currentDt.isBefore «end».dt = true →
      ((iteration R C s).2 = none → I (iteration R C s).1) ∧ ((iteration R C s).2 ≠ none → J (iteration R C s).1))
    (hlast : ∀ s, I s → s.currentDt.isBefore «end».dt = false → K s)
    (hrest : ∀ s event pq, K s → queue.dequeue s.pq = some (event, pq) → K (s.afterHead event pq)) :
    ((generateEvents R C queue start «end» vars).2 = none → K (generateEvents R C queue start «end» vars).1 ∧
      queue.contents (generateEvents R C queue start «end» vars).1.pq = 0) ∧
    ((generateEvents R C queue start «end» vars).2 ≠ none → J (generateEvents R C queue start «end» vars).1) := by
  have hleaves := whileLoop_spec_visited (iteration_decreases (R := R) (C := C) «end».dt)
    (fun s hs => hstep s (ht.trans hs)) hI
  rw [← ht.whileLoop_eq (iteration_decreases «end».dt)] at hleaves
  simp only [generateEvents]
  change Leaves I J _ (whileLoop _ _ _ ⟨vars, start.dt, queue.empty, [], 0⟩) at hleaves
  generalize whileLoop (timeLeft «end».dt) (fun s => s.currentDt.isBefore «end».dt) (iteration R C) _ = r
    at hleaves ⊢
  cases hleaves with
  | thrown e hJ => exact ⟨fun h => (by cases h), fun _ => hJ⟩
  | done hI hc =>
    obtain ⟨s', heq, hs', hempty⟩ := emitRest_spec hrest (hlast _ hI hc)
    simp only
    rw [heq]
    exact ⟨fun _ => ⟨hs', hempty⟩, fun h => absurd rfl h⟩

/-- The rule, for what holds however the run ends. -/
theorem generateEvents_keeps (start «end» : TimeStamp) (vars : Vars σ) {I J K : Run σ queue → Prop}
    (hstart : I (Run.start queue start vars))
    (hstep : ∀ s, AtHead R C start «end» vars s → I s → s.currentDt.isBefore «end».dt = true →
      ((iteration R C s).2 = none → I (iteration R C s).1) ∧ ((iteration R C s).2 ≠ none → J (iteration R C s).1))
    (hlast : ∀ s, I s → K s)
    (hrest : ∀ s event pq, K s → queue.dequeue s.pq = some (event, pq) → K (s.afterHead event pq))
    (hend : ∀ s, K s → J s) : J (generateEvents R C queue start «end» vars).1 := by
  obtain ⟨hreturned, hthrew⟩ := generateEvents_spec .start hstart hstep (fun s hs _ => hlast s hs) hrest
  by_cases hret : (generateEvents R C queue start «end» vars).2 = none
  · exact hend _ (hreturned hret).1
  · exact hthrew hret

end Generator

end TransferDashboard
