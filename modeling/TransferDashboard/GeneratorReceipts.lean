/-
Each asynchronous transfer the generator emits is completed once.

A receipt is emitted after a transfer it completes, whatever the counter of
ids does (`Run.Justified`, in the sense of `Lib/Ledger.lean`). That there is
one for each transfer is an invariant over what was emitted, what waits in
the queue and the counter (`Sound`): the two are balanced, and their ids are
those of the events drawn so far, which the next one's is none of as long as
the counter has not gone round. A run that returns has emptied its queue, so
every transfer it emitted was completed; a run that `plusSeconds` threw out
of leaves receipts behind.
-/
import TransferDashboard.GeneratorFacts
import TransferDashboard.Lib.Ledger

namespace TransferDashboard

open Scala Joda Random Loop Ledger

namespace Generator

/-- Receipts answer the asynchronous transfers. -/
def rules : Rules Event EventId where
  id := Event.eventId
  answers := Event.receiptFor
  opens e := e.ackState = some .ackPending
  Right := ReceiptOf

/-! ## Ids -/

/-- The id of the event drawn after `n` others. -/
def idText (n : Nat) : String := toString (Int32.ofNat (n + 1)).toInt

/-- It is the id of that event, or of the receipt for it. -/
def HasOrdinal (n : Nat) (id : EventId) : Prop := ∃ letter ∈ ["", "r", "s"], id.id = letter ++ idText n

def isLetter (c : Char) : Bool := c = 'r' || c = 's'

theorem head_idText (n : Nat) : (idText n).toList.dropWhile isLetter = (idText n).toList := by
  have hdigits : ∀ m : Nat, m.repr.toList.dropWhile isLetter = m.repr.toList := by
    intro m
    cases hm : m.repr.toList with
    | nil => rfl
    | cons c cs =>
      have hc : c.isDigit = true := by
        refine Nat.isDigit_of_mem_toDigits (n := m) (b := 10) (by decide) (by decide) ?_
        rw [← Nat.toList_repr, hm]
        exact List.mem_cons_self
      rw [List.dropWhile_cons_of_neg]
      intro hletter
      rw [isLetter, Bool.or_eq_true, decide_eq_true_eq, decide_eq_true_eq] at hletter
      rcases hletter with rfl | rfl
      · cases hc
      · cases hc
  rw [idText, Int.toString_eq_repr]
  cases (Int32.ofNat (n + 1)).toInt with
  | ofNat m => exact hdigits m
  | negSucc m =>
    have hsign : ¬ isLetter '-' = true := by decide
    show ("-" ++ m.succ.repr).toList.dropWhile isLetter = ("-" ++ m.succ.repr).toList
    rw [String.toList_append, show "-".toList = ['-'] from rfl, List.singleton_append]
    exact List.dropWhile_cons_of_neg hsign

theorem HasOrdinal.digits {n : Nat} {id : EventId} (h : HasOrdinal n id) :
    id.id.toList.dropWhile isLetter = (idText n).toList := by
  obtain ⟨letter, hletter, hid⟩ := h
  rw [hid, String.toList_append]
  have hdrop : letter.toList.dropWhile isLetter = [] := by
    simp only [List.mem_cons, List.not_mem_nil, or_false] at hletter
    rcases hletter with rfl | rfl | rfl <;> decide
  rw [List.dropWhile_append, hdrop, List.isEmpty_nil, if_pos rfl, head_idText]

theorem idText_inj {n m : Nat} (hn : n < 2 ^ 32) (hm : m < 2 ^ 32) (h : idText n = idText m) : n = m := by
  rw [idText, idText, Int.toString_eq_repr, Int.toString_eq_repr, Int.repr_inj, Int32.toInt_inj] at h
  have hbits : BitVec.ofNat 32 (n + 1) = BitVec.ofNat 32 (m + 1) := congrArg Int32.toBitVec h
  rw [← BitVec.toNat_inj, BitVec.toNat_ofNat, BitVec.toNat_ofNat] at hbits
  omega

/-- An id has one ordinal, while the counter has not gone round. -/
theorem HasOrdinal.unique {n m : Nat} {id : EventId} (h : HasOrdinal n id) (h' : HasOrdinal m id)
    (hn : n < 2 ^ 32) (hm : m < 2 ^ 32) : n = m := by
  have hsame := h.digits
  rw [h'.digits] at hsame
  exact idText_inj hn hm (String.toList_inj.1 hsame).symm

/-! ## The invariant -/

variable {σ : Type} {R : RandomSource σ} {C : Chronology} {queue : EventQueue}

/-- The event is in the run, waiting or emitted. -/
def Holds (s : Run σ queue) (e : Event) : Prop := e ∈ queue.contents s.pq ∨ e ∈ s.emitted

/-- Before its first iteration it holds nothing. -/
theorem not_holds_start {start : TimeStamp} {vars : Vars σ} (e : Event) : ¬ Holds (Run.start queue start vars) e := by
  intro he
  rcases he with hwait | hdone
  · have hempty : e ∈ queue.contents queue.empty := hwait
    rw [queue.contents_empty] at hempty
    exact absurd hempty (Multiset.notMem_zero e)
  · cases hdone

/-- What was emitted from the queue is held as before. -/
theorem holds_afterHead {s : Run σ queue} {event : Event} {pq : queue.Q} (hq : queue.dequeue s.pq = some (event, pq))
    (e : Event) : Holds (s.afterHead event pq) e ↔ Holds s e := by
  unfold Holds Run.afterHead
  rw [queue.dequeue_some _ _ _ hq, Multiset.mem_cons, List.mem_append, List.mem_singleton]
  tauto

/-- What a run holds that answers, answers a transfer it emitted before. -/
def Run.Justified (s : Run σ queue) : Prop := Ledger.Justified rules s.emitted (queue.contents s.pq)

theorem Run.Justified.start (start : TimeStamp) (vars : Vars σ) : (Run.start queue start vars).Justified := by
  show Ledger.Justified rules [] (queue.contents queue.empty)
  rw [queue.contents_empty]
  exact .nil

theorem Run.Justified.afterHead {s : Run σ queue} (h : s.Justified) {event : Event} {pq : queue.Q}
    (hq : queue.dequeue s.pq = some (event, pq)) : (s.afterHead event pq).Justified := by
  unfold Run.Justified at h
  rw [queue.dequeue_some _ _ _ hq] at h
  exact h.emit

theorem ReceiptOf.not_opens {o r : Event} (hr : ReceiptOf o r) : ¬ rules.opens r := by
  intro hopen
  have hopen : r.ackState = some .ackPending := hopen
  rw [hr.ackState] at hopen
  cases hopen

theorem Run.Justified.newEvent {s : Run σ queue} (h : s.Justified) : (newEvent R C s).1.Justified := by
  obtain ⟨hnew, -⟩ := newEvent_spec (R := R) (C := C) s
  unfold Run.Justified
  cases hnew with
  | threw hem hpq =>
    rw [hem, hpq]
    exact h
  | sync e he hack hem hpq =>
    rw [hem, hpq]
    exact h.plain he.receiptFor
  | async e r he hack hr hem hpq =>
    rw [hem, hpq, queue.contents_enqueue]
    exact h.opened he.receiptFor hack hr.not_opens hr.receiptFor hr

theorem Run.Justified.iteration {s : Run σ queue} (h : s.Justified) : (iteration R C s).1.Justified := by
  obtain ⟨s', hdue, hs', -⟩ := emitDue_spec (fun t event pq ht _ hq => Run.Justified.afterHead ht hq) h
  rw [iteration_eq hdue]
  exact hs'.newEvent

/-- What waits for a receipt is none. -/
theorem Run.Justified.receiptFor_none {s : Run σ queue} (h : s.Justified) {o : Event} (ho : o ∈ s.emitted)
    (hack : o.ackState = some .ackPending) : o.receiptFor = none := by
  cases hr : o.receiptFor with
  | none => rfl
  | some id =>
    obtain ⟨before, after, hsplit⟩ := List.append_of_mem ho
    obtain ⟨_, -, -, -, hreceipt⟩ := Ledger.Justified.answers_of_split h hsplit hr
    exact absurd hack hreceipt.not_opens

/-- A receipt comes after the transfer it completes. -/
theorem Run.Justified.completes {s : Run σ queue} (h : s.Justified) {before after : List Event} {r : Event}
    {id : EventId} (hsplit : s.emitted = before ++ r :: after) (hr : r.receiptFor = some id) :
    ∃ o ∈ before, o.ackState = some .ackPending ∧ o.receiptFor = none ∧ o.eventId = id ∧ Completes o r := by
  obtain ⟨o, ho, hack, hid, hreceipt⟩ := Ledger.Justified.answers_of_split h hsplit hr
  have hemitted : o ∈ s.emitted := by
    rw [hsplit]
    exact List.mem_append_left _ ho
  exact ⟨o, ho, hack, h.receiptFor_none hemitted hack, hid, hreceipt.completes⟩

/-! ## While the counter has not gone round -/

/-- A run that began when `k` events had been drawn. -/
structure Sound (k : Nat) (s : Run σ queue) : Prop where
  balanced : Balanced rules s.emitted (queue.contents s.pq)
  counter : s.vars.eventId = Int32.ofNat (k + s.drawn + 1)
  ordinals : ∀ e, Holds s e → ∃ n, k ≤ n ∧ n < k + s.drawn ∧ HasOrdinal n e.eventId

/-- As long as the counter has not gone round. -/
def SoundWithin (k : Nat) (s : Run σ queue) : Prop := k + s.drawn ≤ 2 ^ 32 → Sound k s

theorem Sound.start {k : Nat} {vars : Vars σ} (hv : vars.eventId = Int32.ofNat (k + 1)) (start : TimeStamp) :
    Sound k (Run.start queue start vars) where
  balanced := by
    show Balanced rules [] (queue.contents queue.empty)
    rw [queue.contents_empty]
    exact Balanced.nil
  counter := hv
  ordinals e he := absurd he (not_holds_start e)

theorem Sound.afterHead {k : Nat} {s : Run σ queue} (h : Sound k s) {event : Event} {pq : queue.Q}
    (hq : queue.dequeue s.pq = some (event, pq)) : Sound k (s.afterHead event pq) where
  balanced := by
    have hbal := h.balanced
    rw [queue.dequeue_some _ _ _ hq] at hbal
    exact hbal.emit
  counter := h.counter
  ordinals e he := h.ordinals e ((holds_afterHead hq e).1 he)

/-- An id of the next ordinal is none of the run's. -/
theorem Sound.fresh {k : Nat} {s : Run σ queue} (h : Sound k s) (hlt : k + s.drawn < 2 ^ 32) {id : EventId}
    (hid : HasOrdinal (k + s.drawn) id) : Fresh rules s.emitted (queue.contents s.pq) id := by
  intro e he heq
  obtain ⟨n, hlow, hhigh, hn⟩ := h.ordinals e he
  have heq : e.eventId = id := heq
  rw [heq] at hn
  have hsame := hn.unique hid (Nat.lt_trans hhigh hlt) hlt
  omega

/-- What is next drawn. -/
theorem Sound.hasOrdinal {k : Nat} {s : Run σ queue} (h : Sound k s) {now : DateTime} {e : Event}
    (he : Original s.vars now e) : HasOrdinal (k + s.drawn) e.eventId := by
  refine ⟨"", List.mem_cons_self, ?_⟩
  rw [he.id, h.counter, String.empty_append, idText]

theorem ReceiptOf.hasOrdinal {n : Nat} {o r : Event} (hr : ReceiptOf o r) (ho : o.eventId.id = idText n) :
    HasOrdinal n r.eventId := by
  rcases hr.id with hid | hid
  · exact ⟨"r", List.mem_cons_of_mem _ List.mem_cons_self, by rw [hid, ho]⟩
  · exact ⟨"s", List.mem_cons_of_mem _ (List.mem_cons_of_mem _ List.mem_cons_self), by rw [hid, ho]⟩

theorem ReceiptOf.id_ne {o r : Event} (hr : ReceiptOf o r) : r.eventId ≠ o.eventId := by
  intro heq
  have hlen : r.eventId.id.length = o.eventId.id.length + 1 := by
    rcases hr.id with hid | hid
    · rw [hid, String.length_append, Nat.add_comm]; rfl
    · rw [hid, String.length_append, Nat.add_comm]; rfl
  rw [heq] at hlen
  omega

/-- **A new event.** It and its receipt are new to the run, so it stays
balanced; where an exception came before it was emitted, nothing is left of it. -/
theorem Sound.newEvent {k : Nat} {s : Run σ queue} (h : Sound k s) (hlt : k + s.drawn < 2 ^ 32) :
    Sound k (newEvent R C s).1 := by
  obtain ⟨hnew, hdrawn, hid, -⟩ := newEvent_spec (R := R) (C := C) s
  generalize (Generator.newEvent R C s).1 = s' at hnew hdrawn hid
  have hcounter : s'.vars.eventId = Int32.ofNat (k + s'.drawn + 1) := by
    rw [hid, h.counter, hdrawn, ← Nat.add_assoc, Int32.ofNat_add (k + s.drawn + 1) 1]
    rfl
  have hold : ∀ e, Holds s e → ∃ n, k ≤ n ∧ n < k + s'.drawn ∧ HasOrdinal n e.eventId := by
    intro e he
    obtain ⟨n, hlow, hhigh, hn⟩ := h.ordinals e he
    exact ⟨n, hlow, by omega, hn⟩
  have hnext : ∀ e : Event, HasOrdinal (k + s.drawn) e.eventId →
      ∃ n, k ≤ n ∧ n < k + s'.drawn ∧ HasOrdinal n e.eventId := by
    intro e he
    exact ⟨k + s.drawn, by omega, by omega, he⟩
  cases hnew with
  | threw hem hpq =>
    refine { balanced := ?_, counter := hcounter, ordinals := ?_ }
    · rw [hem, hpq]
      exact h.balanced
    · intro e he
      unfold Holds at he
      rw [hem, hpq] at he
      exact hold e he
  | sync e he hack hem hpq =>
    have hord := h.hasOrdinal he
    refine { balanced := ?_, counter := hcounter, ordinals := ?_ }
    · rw [hem, hpq]
      refine h.balanced.plain he.receiptFor (fun hopen => ?_) (h.fresh hlt hord)
      have hopen : e.ackState = some .ackPending := hopen
      rw [hack] at hopen
      cases hopen
    · intro e' he'
      unfold Holds at he'
      rw [hem, hpq, List.mem_append, List.mem_singleton, ← or_assoc] at he'
      rcases he' with hin | rfl
      · exact hold e' hin
      · exact hnext e' hord
  | async e r he hack hr hem hpq =>
    have hord := h.hasOrdinal he
    have hord' : HasOrdinal (k + s.drawn) r.eventId := hr.hasOrdinal (by rw [he.id, h.counter, idText])
    refine { balanced := ?_, counter := hcounter, ordinals := ?_ }
    · rw [hem, hpq, queue.contents_enqueue]
      exact h.balanced.opened he.receiptFor hack (h.fresh hlt hord) hr.not_opens hr.receiptFor hr
        (h.fresh hlt hord') hr.id_ne
    · intro e' he'
      unfold Holds at he'
      rw [hem, hpq, queue.contents_enqueue, Multiset.mem_cons, List.mem_append, List.mem_singleton] at he'
      rcases he' with (rfl | hin) | hin | rfl
      · exact hnext e' hord'
      · exact hold e' (.inl hin)
      · exact hold e' (.inr hin)
      · exact hnext e' hord

theorem SoundWithin.iteration {k : Nat} {s : Run σ queue} (h : SoundWithin k s) :
    SoundWithin k (iteration R C s).1 := by
  obtain ⟨s', hdue, hs', -⟩ := emitDue_spec (I := SoundWithin k)
    (fun t event pq ht _ hq hk => (ht hk).afterHead hq) h
  obtain ⟨-, hdrawn, -⟩ := newEvent_spec (R := R) (C := C) s'
  intro hk
  rw [iteration_eq hdue] at hk ⊢
  rw [hdrawn] at hk
  exact (hs' (by omega)).newEvent (by omega)

/-- **A run.** However it ends it is sound, and where it returns its queue is
empty. -/
theorem generateEvents_sound {k : Nat} {vars : Vars σ} (hv : vars.eventId = Int32.ofNat (k + 1))
    (start «end» : TimeStamp) :
    SoundWithin k (generateEvents R C queue start «end» vars).1 ∧
      ((generateEvents R C queue start «end» vars).2 = none →
        queue.contents (generateEvents R C queue start «end» vars).1.pq = 0) := by
  have hstart : SoundWithin k (Run.start queue start vars) := fun _ => Sound.start hv start
  have hstep : ∀ s : Run σ queue, AtHead R C start «end» vars s → SoundWithin k s → s.currentDt.isBefore «end».dt = true →
      ((iteration R C s).2 = none → SoundWithin k (iteration R C s).1) ∧
        ((iteration R C s).2 ≠ none → SoundWithin k (iteration R C s).1) :=
    fun s _ hs _ => ⟨fun _ => hs.iteration, fun _ => hs.iteration⟩
  have hrest : ∀ (s : Run σ queue) event pq, SoundWithin k s → queue.dequeue s.pq = some (event, pq) →
      SoundWithin k (s.afterHead event pq) := fun s event pq hs hq hk => (hs hk).afterHead hq
  exact ⟨generateEvents_keeps start «end» vars hstart hstep (fun _ hs => hs) hrest fun _ hs => hs,
    fun hret => ((generateEvents_spec .start hstart hstep (fun _ hs _ => hs) hrest).1 hret).2⟩

/-! ## What a run emits -/

/-- The transfers a run emitted and the receipts for them. -/
structure Receipts (run : Run σ queue × Option Throwable) : Prop where
  /-- In a run that returned, an asynchronous transfer is followed by one
  receipt for it, which completes it, and preceded by none. -/
  completed : run.2 = none → ∀ before o after, run.1.emitted = before ++ o :: after → o.ackState = some .ackPending →
    ∃ r, after.filter (fun e => e.receiptFor = some o.eventId) = [r] ∧ Completes o r ∧
      ∀ e ∈ before ++ [o], e.receiptFor ≠ some o.eventId
  /-- A receipt comes after the transfer it completes. -/
  justified : ∀ before r after id, run.1.emitted = before ++ r :: after → r.receiptFor = some id →
    ∃ o ∈ before, o.ackState = some .ackPending ∧ o.receiptFor = none ∧ o.eventId = id ∧ Completes o r

theorem Sound.receipts {k : Nat} {run : Run σ queue × Option Throwable} (h : Sound k run.1)
    (hempty : run.2 = none → queue.contents run.1.pq = 0) : Receipts run where
  completed hret before o after hsplit hack := by
    have hbal := h.balanced
    rw [hempty hret] at hbal
    obtain ⟨r, hone, hright, hnone⟩ := hbal.answered_once hsplit hack
    exact ⟨r, hone, hright.completes, hnone⟩
  justified _ _ _ _ hsplit hr := Run.Justified.completes h.balanced.toJustified hsplit hr

/-! ## Runs that return -/

/-- No sum of the run comes near the ends of a `Long`: the latest is of a
receipt, 304 seconds after an event before the end. -/
structure FarFromEnds (start «end» : TimeStamp) : Prop where
  start : -2 ^ 63 + day ≤ start.dt.millis.toInt
  «end» : «end».dt.millis.toInt + 304000 + day < 2 ^ 63

theorem ack_returns (event : Event) (hlow : -2 ^ 63 + day ≤ event.millis.toInt)
    (hhigh : event.millis.toInt + 304000 + day < 2 ^ 63) (letter : String) (action : Action) (delay : Fin 300) :
    ∃ r, ack C event letter action (5 + delay.val) = .ok r := by
  have hdelay := delay.isLt
  obtain ⟨newT, hT⟩ := C.plusSeconds_returns event.timestamp.dt (5 + delay.val) hlow (by omega) (by
    have hms : event.timestamp.dt.millis = event.millis := rfl
    rw [hms]
    omega)
  unfold ack
  rw [hT]
  exact ⟨_, rfl⟩

theorem receipt_returns (event : Event) (hlow : -2 ^ 63 + day ≤ event.millis.toInt)
    (hhigh : event.millis.toInt + 304000 + day < 2 ^ 63) (random : σ) (e : Throwable) :
    (receipt R C event random).1 ≠ some (.error e) := by
  unfold receipt
  split
  · obtain ⟨r, hr⟩ := ack_returns (C := C) event hlow hhigh "r" .receive (R.nextInt 300 random).1
    simp only
    rw [hr]
    intro h
    cases h
  · obtain ⟨r, hr⟩ := ack_returns (C := C) event hlow hhigh "s" .send (R.nextInt 300 random).1
    simp only
    rw [hr]
    intro h
    cases h
  · intro h
    cases h

theorem emitNew_returns (e : Event) {s : Run σ queue} (hlow : -2 ^ 63 + day ≤ s.currentDt.millis.toInt)
    (hhigh : s.currentDt.millis.toInt + 304000 + day < 2 ^ 63) : (emitNew R C e s).2 = none := by
  have hstep := (R.nextInt 3 s.vars.random).1.isLt
  obtain ⟨dt, hdt⟩ := C.plusSeconds_returns s.currentDt (1 + (R.nextInt 3 s.vars.random).1.val) hlow (by omega) (by omega)
  simp only [emitNew]
  rw [hdt]

theorem newEvent_returns {s : Run σ queue} (hlow : -2 ^ 63 + day ≤ s.currentDt.millis.toInt)
    (hhigh : s.currentDt.millis.toInt + 304000 + day < 2 ^ 63) : (newEvent R C s).2 = none := by
  rw [newEvent_eq]
  split
  · exact emitNew_returns _ hlow hhigh
  next e he => exact absurd he (receipt_returns (s.next R) hlow hhigh _ e)
  · exact emitNew_returns _ hlow hhigh

/-- An iteration before the end does not throw. -/
theorem iteration_returns {start «end» : TimeStamp} (hfar : FarFromEnds start «end») {s : Run σ queue}
    (hs : start.dt.millis.toInt ≤ s.currentDt.millis.toInt) (hbefore : s.currentDt.isBefore «end».dt = true) :
    (iteration R C s).2 = none ∧ start.dt.millis.toInt ≤ (iteration R C s).1.currentDt.millis.toInt := by
  obtain ⟨s', hdue, -, htime, -⟩ := emitDue_keeps s
  rw [DateTime.isBefore_iff] at hbefore
  have hlow := hfar.start
  have hhigh := hfar.end
  have hret : (newEvent R C s').2 = none := newEvent_returns (by rw [htime]; omega) (by rw [htime]; omega)
  obtain ⟨-, -, -, hms⟩ := newEvent_spec (R := R) (C := C) s'
  have hlater := (hms hret).1
  rw [htime] at hlater
  rw [iteration_eq hdue]
  exact ⟨hret, by omega⟩

theorem generateEvents_returns {start «end» : TimeStamp} (hfar : FarFromEnds start «end») (vars : Vars σ) :
    (generateEvents R C queue start «end» vars).2 = none := by
  by_contra hthrew
  refine (generateEvents_spec (I := fun s : Run σ queue => start.dt.millis.toInt ≤ s.currentDt.millis.toInt)
    (J := fun _ => False) (K := fun _ => True) .start (Int.le_refl _) (fun s _ hs hbefore => ?_) (fun _ _ _ => trivial)
    (fun _ _ _ _ _ => trivial)).2 hthrew
  obtain ⟨hret, hlater⟩ := iteration_returns (R := R) (C := C) hfar hs hbefore
  exact ⟨fun _ => hlater, fun hthrew => hthrew hret⟩

/-! ## Runs of one process -/

/-- The calls of `getRandomEvent` in all the runs. -/
def drawnAll (runs : List (Run σ queue × Option Throwable)) : Nat := (runs.map fun run => run.1.drawn).sum

def emittedAll (runs : List (Run σ queue × Option Throwable)) : List Event := runs.flatMap fun run => run.1.emitted

/-- Runs that begin when `k` events had been drawn. -/
theorem generateAll_sound {spans : List (TimeStamp × TimeStamp)} {k : Nat} {vars : Vars σ}
    (hv : vars.eventId = Int32.ofNat (k + 1)) (hdrawn : k + drawnAll (generateAll R C queue spans vars) ≤ 2 ^ 32) :
    ((emittedAll (generateAll R C queue spans vars)).map Event.eventId).Nodup ∧
      (∀ e ∈ emittedAll (generateAll R C queue spans vars),
        ∃ n, k ≤ n ∧ n < k + drawnAll (generateAll R C queue spans vars) ∧ HasOrdinal n e.eventId) ∧
      List.Forall₂ (fun span run => Receipts run ∧ (FarFromEnds span.1 span.2 → run.2 = none)) spans
        (generateAll R C queue spans vars) := by
  induction spans generalizing k vars with
  | nil =>
    refine ⟨List.nodup_nil, ?_, .nil⟩
    intro e he
    cases he
  | cons span spans ih =>
    obtain ⟨hwithin, hempty⟩ : SoundWithin k (generateEvents R C queue span.1 span.2 vars).1 ∧
        ((generateEvents R C queue span.1 span.2 vars).2 = none →
          queue.contents (generateEvents R C queue span.1 span.2 vars).1.pq = 0) :=
      generateEvents_sound hv span.1 span.2
    have hreturns : FarFromEnds span.1 span.2 → (generateEvents R C queue span.1 span.2 vars).2 = none :=
      fun hfar => generateEvents_returns hfar vars
    rw [generateAll] at hdrawn ⊢
    generalize generateEvents R C queue span.1 span.2 vars = run at hwithin hempty hreturns hdrawn ⊢
    have hsum : drawnAll (run :: generateAll R C queue spans run.1.vars) =
        run.1.drawn + drawnAll (generateAll R C queue spans run.1.vars) := List.sum_cons
    have hall : emittedAll (run :: generateAll R C queue spans run.1.vars) =
        run.1.emitted ++ emittedAll (generateAll R C queue spans run.1.vars) := List.flatMap_cons
    rw [hsum] at hdrawn ⊢
    rw [hall]
    have hsound := hwithin (by omega)
    obtain ⟨hnodup, hids, hruns⟩ := ih (k := k + run.1.drawn) hsound.counter (by omega)
    have hfirst : ∀ e ∈ run.1.emitted, ∃ n, k ≤ n ∧ n < k + run.1.drawn ∧ HasOrdinal n e.eventId :=
      fun e he => hsound.ordinals e (.inr he)
    refine ⟨?_, ?_, .cons ⟨hsound.receipts hempty, hreturns⟩ hruns⟩
    · rw [List.map_append, List.nodup_append]
      refine ⟨hsound.balanced.nodup_done, hnodup, ?_⟩
      intro id hid id' hid' heq
      obtain ⟨e, he, rfl⟩ := List.mem_map.1 hid
      obtain ⟨e', he', rfl⟩ := List.mem_map.1 hid'
      obtain ⟨n, -, hn, hord⟩ := hfirst e he
      obtain ⟨m, hm, hm', hord'⟩ := hids e' he'
      rw [← heq] at hord'
      have hsame := hord.unique hord' (by omega) (by omega)
      omega
    · intro e he
      rcases List.mem_append.1 he with hin | hin
      · obtain ⟨n, hlow, hhigh, hord⟩ := hfirst e hin
        exact ⟨n, hlow, by omega, hord⟩
      · obtain ⟨n, hlow, hhigh, hord⟩ := hids e hin
        exact ⟨n, by omega, by omega, hord⟩

/-- **Every asynchronous transfer is completed once.** In any runs of one
process, while its counter has not gone round: no two events have one id, and
each run that returns emits for each asynchronous transfer the one receipt
that completes it. A run returns if its times are not at the ends of a `Long`. -/
theorem receipts_complete (R : RandomSource σ) (C : Chronology) (queue : EventQueue)
    (spans : List (TimeStamp × TimeStamp)) (random : σ)
    (hdrawn : drawnAll (generateAll R C queue spans (Vars.start random)) < 2 ^ 32) :
    ((emittedAll (generateAll R C queue spans (Vars.start random))).map Event.eventId).Nodup ∧
      List.Forall₂ (fun span run => Receipts run ∧ (FarFromEnds span.1 span.2 → run.2 = none)) spans
        (generateAll R C queue spans (Vars.start random)) := by
  have hstart : (Vars.start random).eventId = Int32.ofNat (0 + 1) := rfl
  obtain ⟨hnodup, -, hruns⟩ := generateAll_sound hstart (Nat.le_of_lt (by rwa [Nat.zero_add]))
  exact ⟨hnodup, hruns⟩

/-- A list as the queue. -/
def listQueue : EventQueue :=
  MaxQueue.ofList (fun e => -e.millis.toInt) fun a b h => by
    have hle : ¬ a.timestamp.dt.millis < b.timestamp.dt.millis := by
      rw [Int64.lt_iff_toInt_lt]
      have hmillis : b.timestamp.dt.millis.toInt ≤ a.timestamp.dt.millis.toInt := Int.neg_le_neg_iff.1 h
      omega
    rw [OrderingByTimeEvent.compare, DateTime.compareTo, if_neg hle]
    split
    · decide
    · decide

/-- An instant of the epoch, in UTC. -/
def instant (millis : Int64) : TimeStamp := ⟨⟨millis, ⟨"UTC"⟩⟩⟩

/-- Two runs, of three events and of one. -/
theorem receipts_complete_scripted :
    let runs := generateAll scripted chronologyUTC listQueue
      [(instant 1483304400000, instant 1483304403000), (instant 1483304403000, instant 1483304404000)]
      (Vars.start [1, 0, 0, 0, 0, 0, 2, 100, 0, 0, 1, 0])
    drawnAll runs = 4 ∧ ((emittedAll runs).map Event.eventId).Nodup ∧
      List.Forall₂ (fun span run => Receipts run ∧ (FarFromEnds span.1 span.2 → run.2 = none))
        [(instant 1483304400000, instant 1483304403000), (instant 1483304403000, instant 1483304404000)] runs := by
  intro runs
  have hdrawn : drawnAll runs = 4 := by decide +kernel
  exact ⟨hdrawn, receipts_complete scripted chronologyUTC listQueue _ _ (by rw [hdrawn]; decide)⟩

/-- At the end of a `Long`, the receipt for the second event is not to be
dated: the run throws, and the receipt for the first is never emitted. -/
theorem receipt_never_emitted :
    let runs := generateAll scripted chronologyUTC listQueue
      [(instant 9223372036854675807, instant 9223372036854775807)] (Vars.start [1, 0, 0, 0, 0, 0, 1, 0, 0, 0, 299])
    drawnAll runs < 2 ^ 32 ∧ ∃ run ∈ runs, ∃ o ∈ run.1.emitted, o.receiptFor = none ∧
      o.ackState = some .ackPending ∧ ∀ e ∈ run.1.emitted, e.receiptFor ≠ some o.eventId := by
  intro runs
  refine ⟨by decide +kernel, _, List.mem_cons_self, ?_⟩
  decide +kernel

end Generator

end TransferDashboard
