/-
Which events share a row.

The event id is no part of a row's key: partner, type and stamp are, and the
stamp is the millisecond plus a draw. `noOverwrite_iff` is the exact
condition on a sequence of events and their draws under which each keeps its
two rows; a hundred and some events of one partner in one millisecond
already fail it from the generator's own seed (`overwritten_from_seed`).
-/
import TransferDashboard.EventPointFacts

namespace TransferDashboard

open Random Scala KeyedStore

namespace EventPoint

variable {σ : Type} (R : RandomSource σ)

/-! ## Events one after another -/

/-- `buildTimeSeriesPoints` on each event in turn. -/
def runEvents : List Event → σ → List (List TimeSeriesPoint)
  | [], _ => []
  | e :: es, random =>
    let (points, random) := buildTimeSeriesPoints R e random
    points :: runEvents es random

/-- The rows after each event's points were inserted in turn. -/
def insertEvents : List Event → σ → Rows → Rows
  | [], _, rows => rows
  | e :: es, random, rows =>
    let (points, random) := buildTimeSeriesPoints R e random
    insertEvents es random (rows.store (InfluxDBDriver.insertPoints ⟨.ok ()⟩ points).requests)

/-- The events with the draws each gets. -/
def drawAll : List Event → σ → List (Event × (Fin 100000 × Fin 100000))
  | [], _ => []
  | e :: es, random => (e, draws R random) :: drawAll es (afterDraws R random)

variable {R}

theorem drawAll_length (events : List Event) (random : σ) : (drawAll R events random).length = events.length := by
  induction events generalizing random with
  | nil => rfl
  | cons e es ih => simp [drawAll, ih]

/-- The event at `i` gets the draws of a source that `i` events were drawn from. -/
theorem drawAll_getElem {events : List Event} {random : σ} {i : Nat} (hi : i < (drawAll R events random).length) :
    (drawAll R events random)[i] =
      (events.get ⟨i, by rwa [drawAll_length] at hi⟩, draws R ((afterDraws R)^[i] random)) := by
  induction events generalizing random i with
  | nil => simp [drawAll] at hi
  | cons e es ih =>
    cases i with
    | zero => rfl
    | succ i =>
      simp only [drawAll, List.getElem_cons_succ, List.get_cons_succ, Function.iterate_succ_apply]
      exact ih (by simpa [drawAll] using hi)

theorem drawAll_concat (events : List Event) (e : Event) (random : σ) :
    drawAll R (events ++ [e]) random =
      drawAll R events random ++ [(e, draws R ((afterDraws R)^[events.length] random))] := by
  induction events generalizing random with
  | nil => rfl
  | cons e' es ih =>
    simp only [List.cons_append, drawAll, ih, List.length_cons, Function.iterate_succ_apply]

theorem drawAll_events (events : List Event) (random : σ) :
    (drawAll R events random).map Prod.fst = events := by
  induction events generalizing random with
  | nil => rfl
  | cons e es ih => rw [drawAll, List.map_cons, ih]

theorem runEvents_eq (events : List Event) (random : σ) :
    runEvents R events random = (drawAll R events random).map fun x => pointsOf x.1 x.2 := by
  induction events generalizing random with
  | nil => rfl
  | cons e es ih => simp [runEvents, drawAll, buildTimeSeriesPoints_eq, ih]

/-- The rows of events under their draws, in the order they are written. -/
def rowsOf (xs : List (Event × (Fin 100000 × Fin 100000))) : List (RowKey × Fields) :=
  xs.flatMap fun x => (requestOf x.1 x.2).rows

theorem insertEvents_eq (events : List Event) (random : σ) (rows : Rows) :
    insertEvents R events random rows = putAll rows (rowsOf (drawAll R events random)) := by
  induction events generalizing random rows with
  | nil => rfl
  | cons e es ih =>
    simp only [insertEvents, buildTimeSeriesPoints_eq, requests_event, ih, drawAll, rowsOf, List.flatMap_cons,
      putAll_append, Rows.store, List.flatMap_nil, List.append_nil]

/-! ## Shared keys -/

/-- The key a point is stored under. -/
def key? (p : TimeSeriesPoint) : Option RowKey :=
  (InfluxDBDriver.insertPoint ⟨.ok ()⟩ p).requests.head?.bind fun r => (r.rows.head?.map Prod.fst)

/-- Two events that write a row of one series under one key. -/
def Collide (x y : Event × (Fin 100000 × Fin 100000)) : Prop :=
  x.1.partner = y.1.partner ∧ transferType x.1 = transferType y.1 ∧
    (stamp x.1.millis x.2.1 = stamp y.1.millis y.2.1 ∨ stamp x.1.millis x.2.2 = stamp y.1.millis y.2.2)

theorem keys_pointsOf (x : Event × (Fin 100000 × Fin 100000)) :
    (pointsOf x.1 x.2).filterMap key? = [sizeKey x, secondsKey x] := by
  simp [pointsOf, sizePoint, secondsPoint, key?, InfluxDBDriver.insertPoint, buildPoint_seriesPoint,
    buildPrecision_seriesPoint, InfluxDBDriver.onDb, WriteRequest.rows, WriteRequest.points, WriteRequest.precision,
    clientPoint, Point.row?, Precision.nanos, sizeKey, secondsKey, tagsOf]

theorem tagsOf_eq_iff {e e' : Event} :
    tagsOf e = tagsOf e' ↔ e.partner = e'.partner ∧ transferType e = transferType e' := by
  refine ⟨fun h => ?_, fun ⟨hp, ht⟩ => ?_⟩
  · have hp : ("partner", e.partner.name) ∈ tagsOf e' := by rw [← h]; simp [tagsOf]
    have ht : ("type", transferType e) ∈ tagsOf e' := by rw [← h]; simp [tagsOf]
    simp only [tagsOf, Multiset.insert_eq_cons, Multiset.mem_cons, Prod.mk.injEq, Multiset.mem_singleton,
      String.reduceEq, false_and, or_false, true_and, false_or] at hp ht
    exact ⟨by cases hn : e.partner; cases hn' : e'.partner; simp_all, ht⟩
  · rw [tagsOf, tagsOf, hp, ht]

theorem collide_iff {x y : Event × (Fin 100000 × Fin 100000)} :
    Collide x y ↔ sizeKey x = sizeKey y ∨ secondsKey x = secondsKey y := by
  simp only [Collide, sizeKey, secondsKey, RowKey.mk.injEq, true_and, tagsOf_eq_iff, Int64.toInt_inj]
  tauto

theorem sizeKey_ne_secondsKey (x y : Event × (Fin 100000 × Fin 100000)) : sizeKey x ≠ secondsKey y := by
  simp [sizeKey, secondsKey]

/-- Two events share a key exactly when they collide. -/
theorem shares_key_iff (x y : Event × (Fin 100000 × Fin 100000)) :
    (∃ k ∈ (pointsOf x.1 x.2).filterMap key?, k ∈ (pointsOf y.1 y.2).filterMap key?) ↔ Collide x y := by
  rw [keys_pointsOf, keys_pointsOf, collide_iff]
  have h₁ := sizeKey_ne_secondsKey x y
  have h₂ := (sizeKey_ne_secondsKey y x).symm
  simp [h₁, h₂]

/-! ## Rows that stay -/

variable (R)

/-- One row of the series for each event. -/
def OneRowEach (measurement : String) (events : List Event) (random : σ) : Prop :=
  {k | insertEvents R events random empty k ≠ none ∧ k.measurement = measurement}.ncard = events.length

/-- No event takes a row from another: no key in common, and every row there. -/
def NoOverwrite (events : List Event) (random : σ) : Prop :=
  (runEvents R events random).Pairwise (fun ps ps' => ¬ ∃ k ∈ ps.filterMap key?, k ∈ ps'.filterMap key?) ∧
    OneRowEach R "transferred_bytes" events random ∧ OneRowEach R "transfer_seconds" events random

variable {R}

theorem mem_keys_rowsOf {xs : List (Event × (Fin 100000 × Fin 100000))} {k : RowKey} :
    k ∈ keys (rowsOf xs) ↔ k ∈ xs.map sizeKey ∨ k ∈ xs.map secondsKey := by
  simp only [keys, rowsOf, rows_requestOf, List.map_flatMap, List.map_cons, List.map_nil, List.mem_flatMap,
    List.mem_cons, List.not_mem_nil, or_false, List.mem_map]
  refine ⟨fun h => ?_, fun h => ?_⟩
  · obtain ⟨x, hx, rfl | rfl⟩ := h
    · exact .inl ⟨x, hx, rfl⟩
    · exact .inr ⟨x, hx, rfl⟩
  · rcases h with ⟨x, hx, rfl⟩ | ⟨x, hx, rfl⟩
    · exact ⟨x, hx, .inl rfl⟩
    · exact ⟨x, hx, .inr rfl⟩

/-- The rows of a series are its keys, and as many as there are events when
no two of them are equal. -/
theorem oneRowEach_of_nodup {measurement : String} {events : List Event} {random : σ}
    (f : Event × (Fin 100000 × Fin 100000) → RowKey)
    (hf : ∀ k, (k ∈ keys (rowsOf (drawAll R events random)) ∧ k.measurement = measurement) ↔
      k ∈ (drawAll R events random).map f)
    (hnd : ((drawAll R events random).map f).Nodup) : OneRowEach R measurement events random := by
  have hset : {k | insertEvents R events random empty k ≠ none ∧ k.measurement = measurement} =
      (((drawAll R events random).map f).toFinset : Set RowKey) := by
    ext k
    rw [Set.mem_ofPred_eq, insertEvents_eq, putAll_ne_none, hf, List.coe_toFinset, Set.mem_ofPred_eq]
  rw [OneRowEach, hset, Set.ncard_coe_finset, List.toFinset_card_of_nodup hnd, List.length_map, drawAll_length]

/-- Of the keys of two series, those of one measurement are of one series. -/
theorem keys_of_measurement {xs : List (Event × (Fin 100000 × Fin 100000))}
    {f g : Event × (Fin 100000 × Fin 100000) → RowKey} {measurement : String}
    (hf : ∀ x, (f x).measurement = measurement) (hg : ∀ x, (g x).measurement ≠ measurement) (k : RowKey) :
    ((k ∈ xs.map f ∨ k ∈ xs.map g) ∧ k.measurement = measurement) ↔ k ∈ xs.map f := by
  refine ⟨fun h => ?_, fun hk => ?_⟩
  · obtain ⟨hk | hk, hm⟩ := h
    · exact hk
    · obtain ⟨x, -, rfl⟩ := List.mem_map.1 hk
      exact absurd hm (hg x)
  · obtain ⟨x, -, rfl⟩ := List.mem_map.1 hk
    exact ⟨.inl hk, hf x⟩

theorem sizeKey_rows {events : List Event} {random : σ} (k : RowKey) :
    (k ∈ keys (rowsOf (drawAll R events random)) ∧ k.measurement = "transferred_bytes") ↔
      k ∈ (drawAll R events random).map sizeKey := by
  rw [mem_keys_rowsOf]
  exact keys_of_measurement (f := sizeKey) (g := secondsKey) (fun _ => rfl) (fun x => by simp [secondsKey]) k

theorem secondsKey_rows {events : List Event} {random : σ} (k : RowKey) :
    (k ∈ keys (rowsOf (drawAll R events random)) ∧ k.measurement = "transfer_seconds") ↔
      k ∈ (drawAll R events random).map secondsKey := by
  rw [mem_keys_rowsOf, or_comm]
  exact keys_of_measurement (f := secondsKey) (g := sizeKey) (fun _ => rfl) (fun x => by simp [sizeKey]) k

/-- No key in common is all there is to it: then each row is there. -/
theorem noOverwrite_iff_pairwise (events : List Event) (random : σ) :
    NoOverwrite R events random ↔ (drawAll R events random).Pairwise fun x y => ¬ Collide x y := by
  have hpair : (runEvents R events random).Pairwise
      (fun ps ps' => ¬ ∃ k ∈ ps.filterMap key?, k ∈ ps'.filterMap key?) ↔
      (drawAll R events random).Pairwise fun x y => ¬ Collide x y := by
    simp only [runEvents_eq, List.pairwise_map, shares_key_iff]
  rw [NoOverwrite, hpair]
  refine ⟨And.left, fun h => ⟨h, ?_, ?_⟩⟩
  · exact oneRowEach_of_nodup sizeKey sizeKey_rows
      (List.pairwise_map.2 (h.imp fun hxy he => hxy (collide_iff.2 (.inl he))))
  · exact oneRowEach_of_nodup secondsKey secondsKey_rows
      (List.pairwise_map.2 (h.imp fun hxy he => hxy (collide_iff.2 (.inr he))))

/-- **Who overwrites whom.** In a sequence of events, run from any state of
any random source, no event takes a row from another exactly when no two of
them have one partner, one type and, in one of the two series, one stamp. In
range, one stamp is one millisecond and one draw. -/
theorem noOverwrite_iff {σ : Type} (R : RandomSource σ) (events : List Event) (random : σ) :
    (NoOverwrite R events random ↔ (drawAll R events random).Pairwise fun x y => ¬ Collide x y) ∧
      ∀ m m' : Int64, InRange m → InRange m' → ∀ d d', stamp m d = stamp m' d' ↔ m = m' ∧ d = d' :=
  ⟨noOverwrite_iff_pairwise events random, fun _ _ h h' d d' => stamp_eq_iff h h' d d'⟩

/-- Synchronous sends of one partner, all in one millisecond. -/
def sampleSend (id : Nat) : Event where
  eventId := ⟨toString id⟩
  partner := ⟨"SEA"⟩
  timestamp := ⟨⟨1483304400000, ⟨"UTC"⟩⟩⟩
  action := .send
  size := 1024
  seconds := 3
  ackState := none
  receiptFor := none

/-- From the generator's own seed, 167 sends of one partner in one
millisecond: the 161st and the 167th get one draw for their seconds, and one
row is left of two. -/
theorem overwritten_from_seed :
    ((List.range 167).map sampleSend).Pairwise (fun e e' => e.eventId ≠ e'.eventId) ∧
      ¬ NoOverwrite javaRandom ((List.range 167).map sampleSend) (Java.scramble 123321) := by
  constructor
  · refine List.pairwise_map.2 (List.nodup_range.imp fun hne he => hne ?_)
    exact Nat.repr_inj.1 (congrArg EventId.id he)
  · rw [noOverwrite_iff_pairwise]
    intro h
    have hlen := drawAll_length (R := javaRandom) ((List.range 167).map sampleSend) (Java.scramble 123321)
    rw [List.length_map, List.length_range] at hlen
    have hdraw : (draws javaRandom ((afterDraws javaRandom)^[160] (Java.scramble 123321))).2 =
        (draws javaRandom ((afterDraws javaRandom)^[166] (Java.scramble 123321))).2 := by decide +kernel
    refine List.pairwise_iff_getElem.1 h 160 166 (by omega) (by omega) (by omega) ?_
    simp only [drawAll_getElem, List.get_eq_getElem, List.getElem_map, List.getElem_range]
    exact ⟨rfl, rfl, .inr (congrArg (stamp 1483304400000) hdraw)⟩

end EventPoint

end TransferDashboard
