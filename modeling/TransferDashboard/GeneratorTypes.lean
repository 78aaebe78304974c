/-
What the dashboard makes of receipts.

The event model gives a receipt no `ackState`; the generator gives it
`AckReceived`, and `transferType` asks only whether there is one. So each
receipt is counted as an asynchronous transfer in its direction
(`asyncPoints_eq`), and what is counted is what was transferred exactly when
no receipt is emitted: in runs that draw synchronous partners alone
(`plainReceipts_iff`).
-/
import TransferDashboard.EventKeys
import TransferDashboard.GeneratorReceipts
import TransferDashboard.PointConversion
import TransferDashboard.ProcessMessage

namespace TransferDashboard

open Scala Joda Random Loop EventPoint TransferDashboard.Graph

namespace Generator

/-! ## From events to counts -/

section

variable {P τ : Type} (env : Env P τ)

/-- The points of each event in turn, encoded and decoded before. -/
def pointsOfFeed (events : List Event) (random : τ) : List (List TimeSeriesPoint) :=
  runEvents env.random (events.filterMap fun e => eventOf env (JsonCodex.eventToJson env.libs e)) random

/-- The tags of a point whose value is a string. -/
def tagsIn (p : TimeSeriesPoint) : List (String × String) := p.givenTags.filterMap InfluxDBDriver.tag?

/-- A `transferred_bytes` point of the type. -/
def CountsAs (type : String) (p : TimeSeriesPoint) : Prop :=
  p.measurement = "transferred_bytes" ∧ ("type", type) ∈ tagsIn p

instance (type : String) (p : TimeSeriesPoint) : Decidable (CountsAs type p) :=
  inferInstanceAs (Decidable (_ ∧ _))

/-- An asynchronous transfer, as the model has it. -/
def AsyncTransfer (action : Action) (e : Event) : Prop :=
  e.action = action ∧ e.ackState = some .ackPending ∧ e.receiptFor = none

instance (action : Action) (e : Event) : Decidable (AsyncTransfer action e) :=
  inferInstanceAs (Decidable (_ ∧ _))

/-- The points of type `sendasync` and `receiveasync` are as many as the
asynchronous transfers, and those of a receipt have its plain direction. -/
structure PlainReceipts (events : List Event) (random : τ) : Prop where
  sends : (pointsOfFeed env events random).flatten.countP (fun p => CountsAs "sendasync" p) =
    events.countP fun e => AsyncTransfer .send e
  receives : (pointsOfFeed env events random).flatten.countP (fun p => CountsAs "receiveasync" p) =
    events.countP fun e => AsyncTransfer .receive e
  receipts : ∀ (i : Nat) (e : Event) (ps : List TimeSeriesPoint), events[i]? = some e →
    e.receiptFor.isSome = true → (pointsOfFeed env events random)[i]? = some ps → ∀ p ∈ ps, ("type", typeTag e.action false) ∈ tagsIn p

variable {env}

theorem runEvents_inZone {R : RandomSource τ} (zone : DateTimeZone) (events : List Event) (random : τ) :
    runEvents R (events.map fun e => e.inZone zone) random = runEvents R events random := by
  induction events generalizing random with
  | nil => rfl
  | cons e es ih =>
    simp only [List.map_cons, runEvents, buildTimeSeriesPoints_eq, pointsOf_inZone, ih]

theorem pointsOfFeed_eq (hL : env.libs.Documented) (events : List Event) (random : τ) :
    pointsOfFeed env events random = runEvents env.random events random := by
  rw [pointsOfFeed, ← runEvents_inZone env.zone events]
  congr 1
  induction events with
  | nil => rfl
  | cons e es ih => rw [List.filterMap_cons, eventOf_eventToJson hL, List.map_cons, ih]

/-- A point of an event has the event's type. -/
theorem type_mem_tagsIn {e : Event} {d : Fin 100000 × Fin 100000} {p : TimeSeriesPoint} (hp : p ∈ pointsOf e d)
    {type : String} : ("type", type) ∈ tagsIn p ↔ transferType e = type := by
  rcases List.mem_pair.1 hp with rfl | rfl <;>
    simp [tagsIn, TimeSeriesPoint.givenTags, sizePoint, secondsPoint, seriesPoint, InfluxDBDriver.tag?, eq_comm]

theorem countP_pointsOf (type : String) (e : Event) (d : Fin 100000 × Fin 100000) :
    (pointsOf e d).countP (fun p => CountsAs type p) = if transferType e = type then 1 else 0 := by
  have hsize : CountsAs type (sizePoint e (stamp e.millis d.1)) ↔ transferType e = type := by
    rw [CountsAs, type_mem_tagsIn (d := d) List.mem_cons_self]
    exact and_iff_right rfl
  have hseconds : ¬ CountsAs type (secondsPoint e (stamp e.millis d.2)) := by
    intro h
    have hmeasurement : "transfer_seconds" = "transferred_bytes" := h.1
    exact absurd hmeasurement (by decide)
  rw [pointsOf]
  simp [List.countP_cons, hsize, hseconds]

theorem countP_runEvents {R : RandomSource τ} (type : String) (events : List Event) (random : τ) :
    (runEvents R events random).flatten.countP (fun p => CountsAs type p) =
      events.countP fun e => transferType e = type := by
  induction events generalizing random with
  | nil => rfl
  | cons e es ih =>
    simp only [runEvents, buildTimeSeriesPoints_eq, List.flatten_cons, List.countP_append, countP_pointsOf, ih,
      List.countP_cons, decide_eq_true_eq]
    omega

theorem runEvents_getElem? {R : RandomSource τ} {events : List Event} {random : τ} {i : Nat} {e : Event}
    (h : events[i]? = some e) : ∃ d, (runEvents R events random)[i]? = some (pointsOf e d) := by
  induction events generalizing random i with
  | nil => cases h
  | cons e' es ih =>
    cases i with
    | zero =>
      rw [List.getElem?_cons_zero, Option.some.injEq] at h
      subst h
      exact ⟨draws R random, rfl⟩
    | succ i => exact ih h

/-! ## What is made -/

/-- An event as a run makes it: a transfer, or a receipt with an `ackState`. -/
inductive Made (e : Event) : Prop
  | transfer (hack : e.ackState = none ∨ e.ackState = some .ackPending) (hr : e.receiptFor = none)
  | receipt (hack : e.ackState = some .ackReceived) (hr : e.receiptFor.isSome = true)

theorem transferType_async {e : Event} {action : Action} :
    transferType e = typeTag action true ↔ e.action = action ∧ e.ackState.isSome = true := by
  rw [transferType_eq]
  cases e.action <;> cases e.ackState <;> cases action <;> simp [typeTag]

/-- The asynchronous transfers are counted, and the receipts with them. -/
theorem asyncPoints_eq (hL : env.libs.Documented) {events : List Event} (hmade : ∀ e ∈ events, Made e)
    (action : Action) (random : τ) :
    (pointsOfFeed env events random).flatten.countP (fun p => CountsAs (typeTag action true) p) =
      (events.countP fun e => AsyncTransfer action e) +
        events.countP fun e => e.action = action ∧ e.receiptFor.isSome = true := by
  rw [pointsOfFeed_eq hL, countP_runEvents]
  induction events with
  | nil => rfl
  | cons e es ih =>
    obtain ⟨he, hes⟩ := List.forall_mem_cons.1 hmade
    have hone : (if transferType e = typeTag action true then 1 else 0) =
        (if AsyncTransfer action e then 1 else 0) +
          if e.action = action ∧ e.receiptFor.isSome = true then 1 else 0 := by
      simp only [transferType_async, AsyncTransfer]
      cases he with
      | transfer hack hr => rcases hack with hack | hack <;> simp [hack, hr]
      | receipt hack hr => simp [hack, hr]
    simp only [List.countP_cons, decide_eq_true_eq, hone, ih hes]
    omega

/-- The counts are right, and the receipts plain, when there are none. -/
theorem plainReceipts_iff_none (hL : env.libs.Documented) {events : List Event} (hmade : ∀ e ∈ events, Made e)
    (random : τ) : PlainReceipts env events random ↔ ∀ e ∈ events, e.receiptFor = none := by
  refine ⟨fun h e he => ?_, fun h => ?_⟩
  · cases hmade e he with
    | transfer _ hr => exact hr
    | receipt hack hr =>
      -- Its points are of the asynchronous type.
      obtain ⟨i, hi⟩ := List.getElem?_of_mem he
      obtain ⟨d, hd⟩ : ∃ d, (runEvents env.random events random)[i]? = some (pointsOf e d) :=
        runEvents_getElem? hi
      rw [← pointsOfFeed_eq hL] at hd
      have hplain := (type_mem_tagsIn List.mem_cons_self).1 (h.receipts i e _ hi hr hd _ List.mem_cons_self)
      rw [transferType_eq, hack] at hplain
      cases hact : e.action <;> rw [hact] at hplain <;> simp [typeTag] at hplain
  · have hzero (action : Action) :
        (events.countP fun e => e.action = action ∧ e.receiptFor.isSome = true) = 0 := by
      rw [List.countP_eq_zero]
      intro e he
      simp [h e he]
    refine ⟨?_, ?_, fun i e ps hi hr => ?_⟩
    · exact (asyncPoints_eq hL hmade .send random).trans (by rw [hzero, Nat.add_zero])
    · exact (asyncPoints_eq hL hmade .receive random).trans (by rw [hzero, Nat.add_zero])
    · rw [h e (List.mem_of_getElem? hi)] at hr
      cases hr

end

/-! ## What a run holds -/

section

variable {σ : Type} {R : RandomSource σ} {C : Chronology} {queue : EventQueue}

theorem emitDue_holds (s : Run σ queue) :
    ∃ s', emitDue s = (s', none) ∧ (∀ e, Holds s' e ↔ Holds s e) ∧ s'.vars = s.vars := by
  obtain ⟨s', hdue, hs', -⟩ := emitDue_spec (I := fun t => (∀ e, Holds t e ↔ Holds s e) ∧ t.vars = s.vars)
    (fun t event pq ht _ hq => ⟨fun e => (holds_afterHead hq e).trans (ht.1 e), ht.2⟩) (s := s)
    ⟨fun _ => Iff.rfl, rfl⟩
  exact ⟨s', hdue, hs'⟩

/-- What a new event adds is a transfer or a receipt, and nothing is lost. -/
theorem newEvent_holds (s : Run σ queue) (e : Event) : (Holds s e → Holds (newEvent R C s).1 e) ∧
    (Holds (newEvent R C s).1 e → Holds s e ∨ Made e) := by
  obtain ⟨hnew, -⟩ := newEvent_spec (R := R) (C := C) s
  unfold Holds
  cases hnew with
  | threw hem hpq =>
    rw [hem, hpq]
    exact ⟨id, .inl⟩
  | sync o ho hack hem hpq =>
    rw [hem, hpq, List.mem_append, List.mem_singleton]
    have hmade : Made o := .transfer ho.ackState ho.receiptFor
    refine ⟨fun h => by tauto, fun h => ?_⟩
    rcases h with hwait | hold | rfl
    · exact .inl (.inl hwait)
    · exact .inl (.inr hold)
    · exact .inr hmade
  | async o r ho hack hr hem hpq =>
    rw [hem, hpq, queue.contents_enqueue, Multiset.mem_cons, List.mem_append, List.mem_singleton]
    refine ⟨fun h => by tauto, fun h => ?_⟩
    rcases h with (rfl | hwait) | hold | rfl
    · exact .inr (.receipt hr.ackState (by rw [hr.receiptFor]; rfl))
    · exact .inl (.inl hwait)
    · exact .inl (.inr hold)
    · exact .inr (.transfer ho.ackState ho.receiptFor)

theorem iteration_holds (s : Run σ queue) (e : Event) : (Holds s e → Holds (iteration R C s).1 e) ∧
    (Holds (iteration R C s).1 e → Holds s e ∨ Made e) := by
  obtain ⟨s', hdue, hsame, -⟩ := emitDue_holds s
  rw [iteration_eq hdue, ← hsame e]
  exact newEvent_holds s' e

/-- All a run emits was made by it. -/
theorem generateEvents_made (start «end» : TimeStamp) (vars : Vars σ) :
    ∀ e ∈ (generateEvents R C queue start «end» vars).1.emitted, Made e := by
  have hkeeps : ∀ s : Run σ queue, (∀ e, Holds s e → Made e) → ∀ e, Holds (iteration R C s).1 e → Made e :=
    fun s hs e he => ((iteration_holds s e).2 he).elim (hs e) id
  have hheld : ∀ e, Holds (generateEvents R C queue start «end» vars).1 e → Made e := by
    refine generateEvents_keeps start «end» vars (I := fun s => ∀ e, Holds s e → Made e)
      (J := fun s => ∀ e, Holds s e → Made e) (K := fun s => ∀ e, Holds s e → Made e) ?_
      (fun s _ hs _ => ⟨fun _ => hkeeps s hs, fun _ => hkeeps s hs⟩) (fun _ hs => hs)
      (fun s event pq hs hq e he => hs e ((holds_afterHead hq e).1 he)) fun _ hs => hs
    intro e he
    exact absurd he (not_holds_start e)
  exact fun e he => hheld e (.inr he)

/-! ## Synchronous partners -/

/-- Each partner a run draws is a synchronous one. -/
def DrawsSync (R : RandomSource σ) (C : Chronology) (queue : EventQueue) (start «end» : TimeStamp)
    (vars : Vars σ) : Prop :=
  ∀ s : Run σ queue, AtHead R C start «end» vars s → s.currentDt.isBefore «end».dt = true →
    (getRandomPartnerMetaInfo R s.vars.random).1.isSync = true

theorem next_ackState (s : Run σ queue) : (s.next R).ackState =
    if (getRandomPartnerMetaInfo R s.vars.random).1.isSync then none else some .ackPending := rfl

theorem next_original (s : Run σ queue) : Original s.vars s.currentDt (s.next R) :=
  (getRandomEvent_original s.currentDt s.vars).1

/-- With a synchronous partner, no receipt. -/
theorem newEvent_of_sync {s : Run σ queue} (h : (getRandomPartnerMetaInfo R s.vars.random).1.isSync = true) :
    (newEvent R C s).1.emitted = s.emitted ++ [s.next R] ∧ (newEvent R C s).1.pq = s.pq := by
  have hack : (s.next R).ackState = none := by rw [next_ackState, if_pos h]
  rw [newEvent_eq]
  rcases receipt_spec (R := R) (C := C) (next_original s) (getRandomEvent R ⟨s.currentDt⟩ s.vars).2.random with
    ⟨-, hnone⟩ | ⟨hpending, -⟩
  · rw [hnone]
    obtain ⟨hem, hpq, -⟩ := emitNew_spec (R := R) (C := C) (s.next R) (s.afterDraw R C)
    exact ⟨hem, hpq⟩
  · rw [hack] at hpending
    cases hpending

/-- A receipt waits or was emitted. -/
def HoldsReceipt (s : Run σ queue) : Prop := ∃ r, r.receiptFor.isSome = true ∧ Holds s r

/-- With any other, a receipt waits, or an exception came. -/
theorem newEvent_of_async {s : Run σ queue} (h : (getRandomPartnerMetaInfo R s.vars.random).1.isSync = false)
    (hret : (newEvent R C s).2 = none) : HoldsReceipt (newEvent R C s).1 := by
  have hack : (s.next R).ackState = some .ackPending := by
    rw [next_ackState, h]
    rfl
  rw [newEvent_eq] at hret ⊢
  rcases receipt_spec (R := R) (C := C) (next_original s) (getRandomEvent R ⟨s.currentDt⟩ s.vars).2.random with
    ⟨hnone, -⟩ | ⟨-, acked, hsome, hr⟩
  · rw [hack] at hnone
    cases hnone
  · rw [hsome] at hret ⊢
    cases acked with
    | error e => cases hret
    | ok r =>
      obtain ⟨-, hpq, -⟩ := emitNew_spec (R := R) (C := C) (s.next R)
        { s.afterDraw R C with pq := queue.enqueue s.pq r }
      refine ⟨r, by rw [(hr r rfl).receiptFor]; rfl, .inl ?_⟩
      simp only [hpq, queue.contents_enqueue]
      exact Multiset.mem_cons_self r _

/-- Nothing held is a receipt. -/
def NoReceipts (s : Run σ queue) : Prop := ∀ e, Holds s e → e.receiptFor = none

theorem NoReceipts.iteration {s : Run σ queue} (h : NoReceipts s)
    (hsync : (getRandomPartnerMetaInfo R s.vars.random).1.isSync = true) : NoReceipts (iteration R C s).1 := by
  obtain ⟨s', hdue, hsame, hvars⟩ := emitDue_holds s
  rw [← hvars] at hsync
  obtain ⟨hem, hpq⟩ := newEvent_of_sync (C := C) hsync
  intro e he
  unfold Holds at he
  rw [iteration_eq hdue, hem, hpq, List.mem_append, List.mem_singleton, ← or_assoc] at he
  rcases he with hold | rfl
  · exact h e ((hsame e).1 hold)
  · exact (next_original s').receiptFor

theorem emitted_of_sync {start «end» : TimeStamp} {vars : Vars σ} (hsync : DrawsSync R C queue start «end» vars) :
    ∀ e ∈ (generateEvents R C queue start «end» vars).1.emitted, e.receiptFor = none := by
  have hstep : ∀ s : Run σ queue, AtHead R C start «end» vars s → NoReceipts s → s.currentDt.isBefore «end».dt = true →
      NoReceipts (iteration R C s).1 := fun s hhead hs hbefore => hs.iteration (hsync s hhead hbefore)
  have hnone : NoReceipts (generateEvents R C queue start «end» vars).1 := by
    refine generateEvents_keeps start «end» vars (I := NoReceipts) (J := NoReceipts) (K := NoReceipts)
      (fun e he => absurd he (not_holds_start e)) (fun s hhead hs hbefore => ?_) (fun _ hs => hs)
      (fun s event pq hs hq e he => hs e ((holds_afterHead hq e).1 he)) fun _ hs => hs
    exact ⟨fun _ => hstep s hhead hs hbefore, fun _ => hstep s hhead hs hbefore⟩
  exact fun e he => hnone e (.inr he)

/-- A run that returns has emitted the receipts it drew. -/
theorem sync_of_emitted {start «end» : TimeStamp} {vars : Vars σ}
    (hret : (generateEvents R C queue start «end» vars).2 = none)
    (hnone : ∀ e ∈ (generateEvents R C queue start «end» vars).1.emitted, e.receiptFor = none) :
    DrawsSync R C queue start «end» vars := by
  intro t hhead hbefore
  by_contra hasync
  rw [Bool.not_eq_true] at hasync
  -- From the draw on a receipt is held, and in the end what is held was emitted.
  have hfirst : (iteration R C t).2 = none → HoldsReceipt (iteration R C t).1 := by
    obtain ⟨t', hdue, -, hvars⟩ := emitDue_holds t
    rw [iteration_eq hdue]
    exact newEvent_of_async (by rw [hvars]; exact hasync)
  have hstep : ∀ s : Run σ queue, s = t ∨ HoldsReceipt s → (iteration R C s).2 = none →
      HoldsReceipt (iteration R C s).1 := by
    intro s hs hnone
    rcases hs with rfl | hheld
    · exact hfirst hnone
    · obtain ⟨r, hr, hr'⟩ := hheld
      exact ⟨r, hr, (iteration_holds s r).1 hr'⟩
  have hlast : ∀ s : Run σ queue, s = t ∨ HoldsReceipt s → s.currentDt.isBefore «end».dt = false →
      HoldsReceipt s := by
    intro s hs hc
    rcases hs with rfl | hheld
    · rw [hbefore] at hc
      cases hc
    · exact hheld
  have hrest : ∀ (s : Run σ queue) event pq, HoldsReceipt s → queue.dequeue s.pq = some (event, pq) →
      HoldsReceipt (s.afterHead event pq) := by
    intro s event pq hs hq
    obtain ⟨r, hr, hheld⟩ := hs
    exact ⟨r, hr, (holds_afterHead hq r).2 hheld⟩
  obtain ⟨⟨r, hr, hheld⟩, hempty⟩ := (generateEvents_spec (J := fun _ => True) hhead (.inl rfl)
    (fun s _ hs _ => ⟨fun hnone => .inr (hstep s hs hnone), fun _ => trivial⟩) hlast hrest).1 hret
  unfold Holds at hheld
  rw [hempty] at hheld
  rcases hheld with hwait | hemitted
  · exact absurd hwait (Multiset.notMem_zero r)
  · rw [hnone r hemitted] at hr
    cases hr

end

/-- **When receipts are not counted.** For a run that returns, exactly when
each partner it draws is a synchronous one; then it has none. For one that
an exception ends, exactly when it has emitted none. -/
theorem plainReceipts_iff {P τ σ : Type} (env : Env P τ) (hL : env.libs.Documented) (R : RandomSource σ)
    (C : Chronology) (queue : EventQueue) (start «end» : TimeStamp) (vars : Vars σ) (random : τ) :
    ((generateEvents R C queue start «end» vars).2 = none →
      (PlainReceipts env (generateEvents R C queue start «end» vars).1.emitted random ↔
        DrawsSync R C queue start «end» vars)) ∧
    (DrawsSync R C queue start «end» vars →
      PlainReceipts env (generateEvents R C queue start «end» vars).1.emitted random) ∧
    (PlainReceipts env (generateEvents R C queue start «end» vars).1.emitted random ↔
      ∀ e ∈ (generateEvents R C queue start «end» vars).1.emitted, e.receiptFor = none) := by
  have hmade : ∀ e ∈ (generateEvents R C queue start «end» vars).1.emitted, Made e :=
    generateEvents_made start «end» vars
  have hiff := plainReceipts_iff_none hL hmade random
  refine ⟨fun hret => ⟨fun h => ?_, fun h => ?_⟩, fun h => ?_, hiff⟩
  · exact sync_of_emitted hret (hiff.1 h)
  · exact hiff.2 (emitted_of_sync h)
  · exact hiff.2 (emitted_of_sync h)

/-- One transfer with a synchronous partner: the counts are right. -/
theorem plainReceipts_scripted : textLibs.Documented ∧ PlainReceipts textEnv
    (generateEvents scripted chronologyUTC listQueue (instant 1483304400000) (instant 1483304401000)
      (Vars.start [0, 0, 0, 0, 0])).1.emitted textEnv.seed := by
  have hiff := (plainReceipts_iff textEnv textLibs_documented scripted chronologyUTC listQueue (instant 1483304400000)
    (instant 1483304401000) (Vars.start [0, 0, 0, 0, 0]) textEnv.seed).2.2
  refine ⟨textLibs_documented, hiff.2 ?_⟩
  decide +kernel

/-- One asynchronous send: its receipt is counted as an asynchronous receive, of which there is none. -/
theorem receipt_counted :
    let run := generateEvents scripted chronologyUTC listQueue (instant 1483304400000) (instant 1483304401000)
      (Vars.start [1, 0, 0, 0, 0, 0])
    run.2 = none ∧ (run.1.emitted.countP fun e => AsyncTransfer .receive e) = 0 ∧
      (pointsOfFeed textEnv run.1.emitted textEnv.seed).flatten.countP (fun p => CountsAs "receiveasync" p) = 1 ∧
        ¬ PlainReceipts textEnv run.1.emitted textEnv.seed := by
  intro run
  have hmade : ∀ e ∈ run.1.emitted, Made e := generateEvents_made _ _ _
  have hnone : (run.1.emitted.countP fun e => AsyncTransfer .receive e) = 0 := by decide +kernel
  have hone : (pointsOfFeed textEnv run.1.emitted textEnv.seed).flatten.countP
      (fun p => CountsAs "receiveasync" p) = 1 := by
    have hL : textEnv.libs.Documented := textLibs_documented
    have hcount := asyncPoints_eq hL hmade .receive textEnv.seed
    rw [hnone] at hcount
    exact hcount.trans (by decide +kernel)
  refine ⟨by decide +kernel, hnone, hone, fun h => ?_⟩
  have hequal := h.receives
  rw [hone, hnone] at hequal
  cases hequal

end Generator

end TransferDashboard
