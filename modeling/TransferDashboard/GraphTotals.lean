/-
What a dashboard sums up, against what was loaded.

What a process that has not been restarted has stored is, in order, some of
the events it was handed, each under its draws (`Written.step`), and all of
them where the database answers no insert `false` that it has not stored. So
a sum over a partner and a type of transfer is the sum over the events of
which a row was stored and not overwritten (`sumOf_series`): never too much,
and exact when nothing was left out or overwritten (`totals_of_feed`).
-/
import TransferDashboard.GraphOrder
import TransferDashboard.GraphRows
import TransferDashboard.Lib.Totals

namespace TransferDashboard

open Scala Random Stage KeyedStore EventPoint

/-- An integer field's value. -/
def FieldValue.number : FieldValue → Int
  | .long l => l.toInt
  | _ => 0

/-- The fields of a name, together. -/
def Fields.number (fields : Fields) (field : String) : Int :=
  ((fields.filter fun f => f.1 = field).map fun f => f.2.number).sum

/-- `SELECT SUM(field) FROM measurement WHERE partner = .. AND type = ..`. -/
noncomputable def Rows.sumOf (measurement field partner type : String) (rows : Rows) : Int :=
  total (fun k fields => if k.measurement = measurement ∧ k.tags = {("partner", partner), ("type", type)} then
    Fields.number fields field else 0) rows

noncomputable def Rows.bytes (partner type : String) (rows : Rows) : Int :=
  rows.sumOf "transferred_bytes" "filesize" partner type

noncomputable def Rows.seconds (partner type : String) (rows : Rows) : Int :=
  rows.sumOf "transfer_seconds" "seconds" partner type

namespace EventPoint

/-- What events of a partner and a type sum up to. -/
def eventSum (value : Event → Int32) (partner type : String) (events : List Event) : Int :=
  ((events.filter fun e => e.partner.name = partner ∧ transferType e = type).map fun e => (value e).toInt).sum

theorem eventSum_perm {value : Event → Int32} {partner type : String} {events events' : List Event}
    (h : events.Perm events') : eventSum value partner type events = eventSum value partner type events' :=
  ((h.filter _).map _).sum_eq

/-- The zone an event is looked at in does not matter. -/
theorem eventSum_inZone {value : Event → Int32} (hvalue : ∀ (e : Event) zone, value (e.inZone zone) = value e)
    {partner type : String} (events : List Event) (zone : Joda.DateTimeZone) :
    eventSum value partner type (events.map fun e => e.inZone zone) = eventSum value partner type events := by
  have hkeep : ∀ e : Event, (decide ((e.inZone zone).partner.name = partner ∧ transferType (e.inZone zone) = type)) =
      decide (e.partner.name = partner ∧ transferType e = type) := fun _ => rfl
  simp only [eventSum, List.filter_map, List.map_map, Function.comp_def, hvalue, hkeep]

/-- With nothing negative, fewer events sum up to no more. -/
theorem eventSum_le {value : Event → Int32} {partner type : String} {events events' : List Event}
    (hsub : events.Subperm events') (hpos : ∀ e ∈ events', 0 ≤ (value e).toInt) :
    eventSum value partner type events ≤ eventSum value partner type events' := by
  obtain ⟨kept, hperm, hkept⟩ := hsub
  rw [← eventSum_perm hperm]
  refine ((hkept.filter _).map _).sum_le_sum fun n hn => ?_
  obtain ⟨e, he, rfl⟩ := List.mem_map.1 hn
  exact hpos e (List.mem_filter.1 he).1

theorem tagsOf_eq_pair_iff {e : Event} {partner type : String} :
    tagsOf e = {("partner", partner), ("type", type)} ↔ e.partner.name = partner ∧ transferType e = type := by
  refine ⟨fun h => ?_, fun ⟨hp, ht⟩ => by rw [tagsOf, hp, ht]⟩
  have hp : ("partner", e.partner.name) ∈ ({("partner", partner), ("type", type)} : Multiset (String × String)) := by
    rw [← h]
    simp [tagsOf]
  have ht : ("type", transferType e) ∈ ({("partner", partner), ("type", type)} : Multiset (String × String)) := by
    rw [← h]
    simp [tagsOf]
  simp at hp ht
  exact ⟨hp, ht⟩

/-- Summing up what one partner and type has. -/
theorem sum_weights {value : Event → Int32} {partner type : String} (xs : List (Event × (Fin 100000 × Fin 100000))) :
    (xs.map fun x => if tagsOf x.1 = {("partner", partner), ("type", type)} then (value x.1).toInt else 0).sum =
      eventSum value partner type (xs.map Prod.fst) := by
  simp only [tagsOf_eq_pair_iff, eventSum]
  induction xs with
  | nil => rfl
  | cons x xs ih =>
    simp only [List.map_cons, List.sum_cons, List.filter_cons, ih]
    by_cases hx : x.1.partner.name = partner ∧ transferType x.1 = type
    · rw [if_pos hx, if_pos (decide_eq_true hx), List.map_cons, List.sum_cons]
    · rw [if_neg hx, if_neg (by simpa using hx), zero_add]

theorem number_singleton (field : String) (n : Int32) :
    Fields.number {(field, .long n.toInt64)} field = n.toInt := by
  simp [Fields.number, FieldValue.number, Multiset.filter_singleton]

theorem rowsOf_cons (x : Event × (Fin 100000 × Fin 100000)) (xs : List (Event × (Fin 100000 × Fin 100000))) :
    rowsOf (x :: xs) = [(sizeKey x, {("filesize", .long x.1.size.toInt64)}),
      (secondsKey x, {("seconds", .long x.1.seconds.toInt64)})] ++ rowsOf xs := by
  rw [← rows_requestOf x.1 x.2]
  rfl

/-- A sum over a series counts the events whose row was not written again. -/
theorem sumOf_series {measurement field : String} {value : Event → Int32} {key : Event × (Fin 100000 × Fin 100000) → RowKey}
    (hkey : ∀ x, (key x).measurement = measurement ∧ (key x).tags = tagsOf x.1)
    {xs : List (Event × (Fin 100000 × Fin 100000))}
    (hrows : (rowsOf xs).filter (fun row => row.1.measurement = measurement) =
      xs.map fun x => (key x, {(field, .long (value x.1).toInt64)})) (partner type : String) :
    Rows.sumOf measurement field partner type (putAll empty (rowsOf xs)) =
      eventSum value partner type ((lastBy key xs).map Prod.fst) := by
  rw [Rows.sumOf, total_putAll_empty,
    sum_filter_of_zero (fun row : RowKey × Fields => row.1.measurement = measurement) _ _ (by simp +contextual),
    ← lastBy_filter (f := Prod.fst) (p := fun k : RowKey => k.measurement = measurement), hrows, lastBy_map, List.map_map,
    ← sum_weights]
  refine congrArg List.sum (List.map_congr_left fun x _ => ?_)
  simp only [Function.comp_apply, (hkey x).1, (hkey x).2, number_singleton, true_and]

theorem bytes_rowsOf (xs : List (Event × (Fin 100000 × Fin 100000))) (partner type : String) :
    Rows.bytes partner type (putAll empty (rowsOf xs)) =
      eventSum Event.size partner type ((lastBy sizeKey xs).map Prod.fst) := by
  have hkey : ∀ x, (sizeKey x).measurement = "transferred_bytes" ∧ (sizeKey x).tags = tagsOf x.1 := fun _ => ⟨rfl, rfl⟩
  refine sumOf_series hkey ?_ partner type
  induction xs with
  | nil => rfl
  | cons x xs ih =>
    rw [rowsOf_cons, List.filter_append, ih]
    simp [sizeKey, secondsKey]

theorem seconds_rowsOf (xs : List (Event × (Fin 100000 × Fin 100000))) (partner type : String) :
    Rows.seconds partner type (putAll empty (rowsOf xs)) =
      eventSum Event.seconds partner type ((lastBy secondsKey xs).map Prod.fst) := by
  have hkey : ∀ x, (secondsKey x).measurement = "transfer_seconds" ∧ (secondsKey x).tags = tagsOf x.1 := fun _ => ⟨rfl, rfl⟩
  refine sumOf_series hkey ?_ partner type
  induction xs with
  | nil => rfl
  | cons x xs ih =>
    rw [rowsOf_cons, List.filter_append, ih]
    simp [sizeKey, secondsKey]

/-- Nothing is summed up that is not there. -/
theorem lastBy_events_subperm {σ : Type} {R : RandomSource σ} (key : Event × (Fin 100000 × Fin 100000) → RowKey)
    {events : List Event} {random : σ} {xs : List (Event × (Fin 100000 × Fin 100000))}
    (h : xs.Sublist (drawAll R events random)) : ((lastBy key xs).map Prod.fst).Subperm events := by
  have hsub := ((lastBy_sublist key xs).trans h).map Prod.fst
  rw [drawAll_events] at hsub
  exact hsub.subperm

/-- Where no row is overwritten every event is summed up. -/
theorem lastBy_of_noOverwrite {σ : Type} {R : RandomSource σ} {events : List Event} {random : σ}
    (h : NoOverwrite R events random) : lastBy sizeKey (drawAll R events random) = drawAll R events random ∧
      lastBy secondsKey (drawAll R events random) = drawAll R events random := by
  have hapart := (noOverwrite_iff_pairwise events random).1 h
  refine ⟨lastBy_eq_self (List.pairwise_map.2 (hapart.imp fun hxy heq => hxy ?_)),
    lastBy_eq_self (List.pairwise_map.2 (hapart.imp fun hxy heq => hxy ?_))⟩
  · exact collide_iff.2 (.inl heq)
  · exact collide_iff.2 (.inr heq)

end EventPoint

namespace Graph

variable {P σ : Type} {env : Env P σ}

/-! ## One process -/

/-- `mapAsync(1)`, and the event whose insert is in it and not stored yet. -/
inductive Pending (env : Env P σ) : List (Slot (Delivery P)) → List (Event × (Fin 100000 × Fin 100000)) → Prop
  | idle : Pending env [] []
  | asked {d : Delivery P} {x : Event × (Fin 100000 × Fin 100000)} (hd : d.stored = false)
      (hinsert : d.insert = insertOf env.db x.1 x.2) : Pending env [.running d] [x]
  | refused {d : Delivery P} (hinsert : d.insert = .failed cannotConvert) : Pending env [.running d] []
  | settled {slot : Slot (Delivery P)} (hstored : ∀ d, slot = .running d → d.stored = true) : Pending env [slot] []

/-- The rows are those of `stored`, which with `pending` are some of the events
handed out, in their order and under their draws. -/
structure Written (env : Env P σ) (s : State P σ) (stored pending : List (Event × (Fin 100000 × Fin 100000))) : Prop where
  among : (stored ++ pending).Sublist (drawAll env.random s.jvm.startedEvents env.seed)
  rows : s.rows = putAll empty (rowsOf stored)
  pending : Pending env s.jvm.process.slots pending

/-- They are all of them. -/
def Whole (env : Env P σ) (s : State P σ) (stored pending : List (Event × (Fin 100000 × Fin 100000))) : Prop :=
  stored ++ pending = drawAll env.random s.jvm.startedEvents env.seed

theorem written_init (log : P → List String) : Written env (State.init env log) [] [] where
  among := List.nil_sublist _
  rows := rfl
  pending := .idle

/-- Once everything started was processed, nothing is pending. -/
theorem Written.pending_nil {s : State P σ} {stored pending : List (Event × (Fin 100000 × Fin 100000))}
    (h : Written env s stored pending) (hslots : ∀ slot ∈ s.jvm.process.slots, ∃ d, slot = .completed d) :
    pending = [] := by
  have hpending := h.pending
  generalize s.jvm.process.slots = slots at hslots hpending
  cases hpending with
  | idle | settled | refused => rfl
  | @asked d =>
    obtain ⟨d', hd'⟩ := hslots (.running d) (List.mem_singleton_self _)
    cases hd'

/-- What one action makes of it: nothing is left out that was not answered `false`. -/
def WrittenAfter (env : Env P σ) (s : State P σ) (a : Act P) (s' : State P σ)
    (stored pending : List (Event × (Fin 100000 × Fin 100000))) : Prop :=
  ∃ stored' pending', Written env s' stored' pending' ∧
    (FalseIsStored s a → Whole env s stored pending → Whole env s' stored' pending')

/-- A message is handed out where nothing is pending. -/
theorem Written.deliver {s s' : State P σ} {a : Act P} {stored pending : List (Event × (Fin 100000 × Fin 100000))}
    (h : Written env s stored pending) (hissued : Issued env s) {payload : String} {random : σ} {d : Delivery P}
    (hidle : s.jvm.process.slots = []) (hmsg : processMessage env payload s.jvm.random = (.ok d.insert, random))
    (hd : d.stored = false) (hstarted : s'.jvm.started = s.jvm.started ++ [⟨d.offset, eventOf env payload, d.insert⟩])
    (hrows : s'.rows = s.rows) (hslots : s'.jvm.process.slots = [.running d]) :
    WrittenAfter env s a s' stored pending := by
  have hpending := h.pending
  rw [hidle] at hpending
  cases hpending
  have hevents := startedEvents_concat hstarted
  rcases processMessage_cases hmsg with ⟨_, -, heq, -⟩ | ⟨hdec, heq, -⟩ | ⟨e, hdec, heq, -⟩
  · cases heq
  · have hsame : s'.jvm.startedEvents = s.jvm.startedEvents := by
      rw [hevents, eventOf, hdec]
      exact List.append_nil _
    refine ⟨stored, [], ⟨?_, hrows.trans h.rows, ?_⟩, fun _ hwhole => ?_⟩
    · rw [hsame]
      exact h.among
    · rw [hslots]
      exact .refused (Except.ok.inj heq)
    · rw [Whole, hsame]
      exact hwhole
  · have hdrawn : drawAll env.random s'.jvm.startedEvents env.seed =
        drawAll env.random s.jvm.startedEvents env.seed ++ [(e, draws env.random s.jvm.random)] := by
      rw [hevents, eventOf, hdec, hissued.random, sourceAt, ← drawAll_concat]
      rfl
    have hamong := h.among
    rw [List.append_nil] at hamong
    refine ⟨stored, [(e, draws env.random s.jvm.random)], ⟨?_, hrows.trans h.rows, ?_⟩, fun _ hwhole => ?_⟩
    · rw [hdrawn]
      exact hamong.append (List.Sublist.refl _)
    · rw [hslots]
      exact .asked hd (Except.ok.inj heq)
    · rw [Whole, List.append_nil] at hwhole
      rw [Whole, hdrawn, hwhole]

/-- What is pending is stored. -/
theorem Written.store (hdb : env.db.dbFuture = .ok ()) {s : State P σ}
    {stored pending : List (Event × (Fin 100000 × Fin 100000))} (h : Written env s stored pending) {i : Nat}
    {d : Delivery P} (hrun : s.jvm.process.running? i = some d) (hd : d.stored = false) : Written env { s with
      rows := s.rows.store d.insert.requests
      jvm := { s.jvm with process := s.jvm.process.set i (.running { d with stored := true }) } }
        (stored ++ pending) [] := by
  obtain ⟨rfl, hslots⟩ := MapAsync.slots_of_running? hrun
  have hpending := h.pending
  rw [hslots] at hpending
  refine ⟨?_, ?_, ?_⟩
  · rw [List.append_nil]
    exact h.among
  · cases hpending with
    | settled hstored => rw [hstored d rfl] at hd; cases hd
    | refused hinsert => simp [hinsert, Rows.store, h.rows]
    | asked _ hinsert =>
      simp only [hinsert, insertOf_requests hdb, Rows.store, h.rows, rowsOf, List.flatMap_append, List.flatMap_cons,
        List.flatMap_nil, List.append_nil, putAll_append]
  · simp only [MapAsync.slots_set, hslots, List.set_cons_zero]
    exact .settled fun d' hd' => by cases hd'; rfl

/-- An insert succeeds: one that was not stored was answered `false`, and is left out. -/
theorem Written.succeed {s : State P σ} {stored pending : List (Event × (Fin 100000 × Fin 100000))}
    (h : Written env s stored pending) {i : Nat} {d : Delivery P}
    (hrun : s.jvm.process.running? i = some d) : Written env { s with
      jvm := { s.jvm with process := s.jvm.process.set i (.completed d) }
      succeeded := s.succeeded ++ [d.offset] } stored [] where
  among := by
    rw [List.append_nil]
    exact (List.sublist_append_left stored pending).trans h.among
  rows := h.rows
  pending := by
    obtain ⟨rfl, hslots⟩ := MapAsync.slots_of_running? hrun
    simp only [MapAsync.slots_set, hslots, List.set_cons_zero]
    exact .settled fun d' hd' => by cases hd'

/-- Of those that were stored none is left out. -/
theorem Written.pending_of_answered {s : State P σ} {stored pending : List (Event × (Fin 100000 × Fin 100000))}
    (h : Written env s stored pending) {i : Nat} {answers : List (Try Bool)} {d : Delivery P}
    (hrun : s.jvm.process.running? i = some d) (hans : d.mayAnswer answers = true)
    (hok : d.insert.outcome answers = .ok ()) (hfalse : .ok false ∈ answers → d.stored = true) : pending = [] := by
  obtain ⟨rfl, hslots⟩ := MapAsync.slots_of_running? hrun
  have hpending := h.pending
  rw [hslots] at hpending
  cases hpending with
  | settled | refused => rfl
  | asked hd hinsert =>
    have hlen := length_of_mayAnswer hans
    rw [hinsert] at hlen hok
    rw [stored_of_answered hans hfalse (insertOf_answered hlen hok)] at hd
    cases hd

variable [DecidableEq P]

theorem Written.step (hdb : env.db.dbFuture = .ok ()) {s s' : State P σ} {a : Act P}
    {stored pending : List (Event × (Fin 100000 × Fin 100000))} (h : Written env s stored pending)
    (hissued : Issued env s) (ha : a ≠ .crash) (hs : Step env s a s') : WrittenAfter env s a s' stored pending := by
  cases hs with
  | send | sendElsewhere | deliverThrows | completeFails | flush | applyCommit | completeCommit | commitFails | sink =>
    exact ⟨stored, pending, { h with }, fun _ hwhole => hwhole⟩
  | crash => exact absurd rfl ha
  | @deliver p payload insert random process hf hidle hlog hmsg hslots =>
    exact h.deliver (d := ⟨(p, s.jvm.position p), insert, false⟩) hissued hidle hmsg rfl rfl rfl hslots
  | store hrun hd =>
    refine ⟨stored ++ pending, [], h.store hdb hrun hd, fun _ hwhole => ?_⟩
    rw [Whole, List.append_nil]
    exact hwhole
  | complete hf hrun hans hok =>
    refine ⟨stored, [], h.succeed hrun, fun hfalse hwhole => ?_⟩
    rw [h.pending_of_answered hrun hans hok (hfalse _ hrun)] at hwhole
    exact hwhole
  | @aggregate d process batch hf hslots hpush =>
    have hpending := h.pending
    rw [hslots] at hpending
    generalize hrest : process.slots = rest at hpending
    cases hpending with
    | settled =>
      refine ⟨stored, [], { h with pending := ?_ }, fun _ hwhole => hwhole⟩
      simp only [hrest]
      exact .idle

/-- What holds after every run without a crash. -/
theorem written_run (hdb : env.db.dbFuture = .ok ()) {log : P → List String} {acts : List (Act P)} {s : State P σ}
    (hcrash : ∀ a ∈ acts, a ≠ .crash) (h : Machine.run (step env) (State.init env log) acts = some s) :
    ∃ stored pending, Written env s stored pending := by
  refine (Machine.run_induction (G := fun _ a => a ≠ .crash)
    (I := fun _ s => Issued env s ∧ ∃ stored pending, Written env s stored pending)
    ⟨issued_start rfl, [], [], written_init log⟩ (fun _ t a t' hI ha hstep => ?_)
    (Machine.meets_of_forall fun a ha _ => hcrash a ha) h).2
  obtain ⟨hissued, stored, pending, hwritten⟩ := hI
  have hs := step_sound hstep
  obtain ⟨stored', pending', hwritten', -⟩ := hwritten.step hdb hissued ha hs
  exact ⟨hissued.step hs, stored', pending', hwritten'⟩

/-- And after one in which no insert was answered `false` that was not stored. -/
theorem whole_run (hdb : env.db.dbFuture = .ok ()) {log : P → List String} {acts : List (Act P)} {s : State P σ}
    (hcrash : ∀ a ∈ acts, a ≠ .crash) (hstored : Machine.Meets (step env) FalseIsStored (State.init env log) acts)
    (h : Machine.run (step env) (State.init env log) acts = some s) :
    ∃ stored pending, Written env s stored pending ∧ Whole env s stored pending := by
  refine (Machine.run_induction (G := fun s a => a ≠ .crash ∧ FalseIsStored s a)
    (I := fun _ s => Issued env s ∧ ∃ stored pending, Written env s stored pending ∧ Whole env s stored pending)
    ⟨issued_start rfl, [], [], written_init log, rfl⟩ (fun _ t a t' hI ha hstep => ?_)
    (Machine.Meets.and (Machine.meets_of_forall fun a ha _ => hcrash a ha) hstored) h).2
  obtain ⟨hissued, stored, pending, hwritten, hwhole⟩ := hI
  have hs := step_sound hstep
  obtain ⟨stored', pending', hwritten', hkeep⟩ := hwritten.step hdb hissued ha.1 hs
  exact ⟨hissued.step hs, stored', pending', hwritten', hkeep ha.2 hwhole⟩

/-- **What a dashboard sums up.** Take any run in which some events are
loaded, over any partitions, without a crash and with the database there. If
no event has a negative size or duration, the sums over a partner and a type
are never more than those of the events loaded. And once everything has been
processed they are those sums exactly, if no insert was answered `false` that
was not stored, and no event took a row from another. -/
theorem totals_of_feed (env : Env P σ) (hL : env.libs.Documented) (hdb : env.db.dbFuture = .ok ()) {events : List Event}
    {acts : List (Act P)} {s : State P σ} (hsends : sends acts = events.map (Loader.loadEvent env.libs))
    (hcrash : ∀ a ∈ acts, a ≠ .crash) (hrun : Machine.run (step env) (State.init env fun _ => []) acts = some s) :
    ((∀ e ∈ events, 0 ≤ e.size.toInt ∧ 0 ≤ e.seconds.toInt) → ∀ partner type,
      s.rows.bytes partner type ≤ eventSum Event.size partner type events ∧
        s.rows.seconds partner type ≤ eventSum Event.seconds partner type events) ∧
    (Machine.Meets (step env) FalseIsStored (State.init env fun _ => []) acts →
      (∀ p, (s.log p).length ≤ s.jvm.position p) → (∀ slot ∈ s.jvm.process.slots, ∃ d, slot = .completed d) →
      NoOverwrite env.random s.jvm.startedEvents env.seed → ∀ partner type,
        s.rows.bytes partner type = eventSum Event.size partner type events ∧
          s.rows.seconds partner type = eventSum Event.seconds partner type events) := by
  have hordered := ordered_run hL hsends hcrash hrun
  have hsize : ∀ (e : Event) zone, (e.inZone zone).size = e.size := fun _ _ => rfl
  have hseconds : ∀ (e : Event) zone, (e.inZone zone).seconds = e.seconds := fun _ _ => rfl
  refine ⟨fun hpos partner type => ?_, fun hstored hall hslots hapart partner type => ?_⟩
  · obtain ⟨stored, pending, hwritten⟩ := written_run hdb hcrash hrun
    have hamong : stored.Sublist (drawAll env.random s.jvm.startedEvents env.seed) :=
      (List.sublist_append_left stored pending).trans hwritten.among
    have hsub : ∀ key : Event × (Fin 100000 × Fin 100000) → RowKey,
        ((lastBy key stored).map Prod.fst).Subperm (events.map fun e => e.inZone env.zone) :=
      fun key => (lastBy_events_subperm key hamong).trans hordered.started.subperm
    rw [hwritten.rows, bytes_rowsOf, seconds_rowsOf, ← eventSum_inZone hsize events env.zone,
      ← eventSum_inZone hseconds events env.zone]
    refine ⟨eventSum_le (hsub sizeKey) fun e he => ?_, eventSum_le (hsub secondsKey) fun e he => ?_⟩
    · obtain ⟨e', he', rfl⟩ := List.mem_map.1 he
      exact (hpos e' he').1
    · obtain ⟨e', he', rfl⟩ := List.mem_map.1 he
      exact (hpos e' he').2
  · obtain ⟨stored, pending, hwritten, hwhole⟩ := whole_run hdb hcrash hstored hrun
    have hperm := hordered.perm_of_caught_up hall
    rw [Whole, hwritten.pending_nil hslots, List.append_nil] at hwhole
    rw [hwritten.rows, hwhole, bytes_rowsOf, seconds_rowsOf, (lastBy_of_noOverwrite hapart).1,
      (lastBy_of_noOverwrite hapart).2, drawAll_events, eventSum_perm hperm, eventSum_perm hperm,
      eventSum_inZone hsize, eventSum_inZone hseconds]
    exact ⟨rfl, rfl⟩

/-- Two events of one partner, a second apart, and one of another take no row from each other. -/
theorem threeEvents_apart {ρ : Type} (R : RandomSource ρ) (random : ρ) :
    NoOverwrite R (threeEvents.map fun e => e.inZone utc) random := by
  have hfirst : InRange JsonCodexSpec.event.millis := ⟨by decide, by decide⟩
  have hsecond : InRange secondEvent.millis := ⟨by decide, by decide⟩
  have hmillis : JsonCodexSpec.event.millis ≠ secondEvent.millis := by decide
  have hstamp : ∀ d d', stamp JsonCodexSpec.event.millis d ≠ stamp secondEvent.millis d' :=
    fun d d' heq => hmillis ((stamp_eq_iff hfirst hsecond d d').1 heq).1
  have hpartner : JsonCodexSpec.event.partner ≠ otherEvent.partner := by decide
  rw [noOverwrite_iff_pairwise]
  refine .cons (fun y hy => ?_) (.cons (fun y hy => ?_) (List.pairwise_singleton _ _))
  · rcases List.mem_pair.1 hy with rfl | rfl
    · exact fun hcollide => hpartner hcollide.1
    · rintro ⟨-, -, heq | heq⟩
      · exact hstamp _ _ heq
      · exact hstamp _ _ heq
  · rw [List.mem_singleton.1 hy]
    exact fun hcollide => hpartner hcollide.1.symm

/-- Of three events: the sums are theirs, and one partner's is that of its two. -/
theorem totals_of_three : textLibs.Documented ∧ ∃ s,
    Machine.run (step pairEnv) (State.init pairEnv fun _ => []) threeActs = some s ∧
      (∀ partner type, s.rows.bytes partner type = eventSum Event.size partner type threeEvents ∧
        s.rows.seconds partner type = eventSum Event.seconds partner type threeEvents) := by
  obtain ⟨s, hrun, -, hall, hprocess, hevents⟩ := run_three
  have hsends : sends threeActs = threeEvents.map (Loader.loadEvent pairEnv.libs) := rfl
  have hstored : Machine.Meets (step pairEnv) FalseIsStored (State.init pairEnv fun _ => []) threeActs :=
    falseIsStored_of_true (by simp [threeActs, threeEvents, handle])
  obtain ⟨-, htotals⟩ := totals_of_feed pairEnv textLibs_documented rfl hsends (by simp [threeActs, threeEvents, handle]) hrun
  refine ⟨textLibs_documented, s, hrun, htotals hstored hall ?_ ?_⟩
  · rw [hprocess]
    intro slot hslot
    cases hslot
  · rw [hevents]
    exact threeEvents_apart _ _

end Graph

end TransferDashboard
