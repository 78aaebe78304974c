/-
One write for many: the override of `insertPoints` against the default.

The default starts one write for each point and joins their answers, the
override sends them together. For points of one precision and distinct keys
the two ask for the same rows, in whatever order the single writes take
effect, and report the same (`insertPoints_agree`).
-/
import TransferDashboard.DBDriver
import TransferDashboard.Database
import TransferDashboard.InfluxDBDriverFacts
import TransferDashboard.PointConversion

namespace TransferDashboard

open Scala Fallible KeyedStore

/-! ## What is reported -/

theorem reduceAnd_cons (b : Bool) (bs : List Bool) : reduceAnd (b :: bs) = .ok (b && bs.all id) := by
  rw [reduceAnd, Except.ok.injEq]
  induction bs generalizing b with
  | nil => simp
  | cons c bs ih => rw [List.foldl_cons, ih, List.all_cons, id, Bool.and_assoc]

/-- It is true when there is something to reduce, all of it true. -/
theorem reduceAnd_eq_true {bs : List Bool} : reduceAnd bs = .ok true ↔ bs ≠ [] ∧ ∀ b ∈ bs, b = true := by
  cases bs with
  | nil => simp [reduceAnd]
  | cons b bs => simp [reduceAnd_cons]

theorem reduceAnd_fails {bs : List Bool} : (∃ e, reduceAnd bs = .error e) ↔ bs = [] := by
  cases bs with
  | nil => simp [reduceAnd]
  | cons b bs => simp [reduceAnd_cons]

/-- Both report one Boolean, or both fail. -/
def SameOutcome (x y : Try Bool) : Prop :=
  (∃ b, x = .ok b ∧ y = .ok b) ∨ (∃ e, x = .error e) ∧ ∃ e, y = .error e

/-- Two outcomes are the same when they fail and are true together. -/
theorem sameOutcome_of_iff {x y : Try Bool} (hfails : (∃ e, x = .error e) ↔ ∃ e, y = .error e)
    (htrue : x = .ok true ↔ y = .ok true) : SameOutcome x y := by
  cases x with
  | error e => exact .inr ⟨⟨e, rfl⟩, hfails.1 ⟨e, rfl⟩⟩
  | ok b =>
    cases y with
    | error e =>
      obtain ⟨e', he'⟩ := hfails.2 ⟨e, rfl⟩
      cases he'
    | ok b' =>
      refine .inl ⟨b, rfl, ?_⟩
      cases b <;> cases b' <;> simp_all

theorem sameOutcome_refl (x : Try Bool) : SameOutcome x x := sameOutcome_of_iff Iff.rfl Iff.rfl

namespace DBDriver

variable {ρ : Type} {insertPoint : TimeSeriesPoint → Future ρ Bool} {ps : List TimeSeriesPoint}

/-- The outcomes of the single inserts, joined. -/
theorem sequence_reduceAnd_eq_true {xs : List (Try Bool)} : (Try.sequence xs >>= reduceAnd) = .ok true ↔
    xs ≠ [] ∧ ∀ x ∈ xs, x = .ok true := by
  rw [bind_eq_ok]
  refine ⟨fun h => ?_, fun h => ?_⟩
  · obtain ⟨bs, hbs, htrue⟩ := h
    obtain ⟨hne, hall⟩ := reduceAnd_eq_true.1 htrue
    rw [Try.sequence_eq_ok.1 hbs]
    refine ⟨by simpa using hne, fun x hx => ?_⟩
    obtain ⟨b, hb, rfl⟩ := List.mem_map.1 hx
    rw [hall b hb]
  · obtain ⟨hne, hall⟩ := h
    have hxs : xs = (xs.map fun _ => true).map .ok := by
      rw [List.map_map]
      conv_lhs => rw [← List.map_id xs]
      exact List.map_congr_left fun x hx => hall x hx
    refine ⟨_, Try.sequence_eq_ok.2 hxs, reduceAnd_eq_true.2 ⟨by simpa using hne, fun b hb => ?_⟩⟩
    obtain ⟨-, -, rfl⟩ := List.mem_map.1 hb
    rfl

theorem sequence_reduceAnd_fails {xs : List (Try Bool)} (hne : xs ≠ []) :
    (∃ e, (Try.sequence xs >>= reduceAnd) = .error e) ↔ ∃ x ∈ xs, ∃ e, x = .error e := by
  rw [← Try.sequence_fails]
  cases hseq : Try.sequence xs with
  | error e => simp [bind, Except.bind]
  | ok bs =>
    have hbs : bs ≠ [] := by
      rintro rfl
      exact hne (Try.sequence_eq_ok.1 hseq)
    have hno : ¬ ∃ e, reduceAnd bs = .error e := fun h => hbs (reduceAnd_fails.1 h)
    simpa [bind, Except.bind] using hno

end DBDriver

/-! ## The override of the driver for InfluxDB -/

namespace InfluxDBDriver

open DBDriver

variable {db : InfluxDBDriver} {tsPoints : List TimeSeriesPoint} {q : Precision}

theorem insertPoint_eq {p : TimeSeriesPoint} {point : Point} (hp : buildPoint p = .ok point)
    (hq : buildPrecision p = .ok q) : db.insertPoint p = db.onDb (.write point q) := by
  unfold insertPoint
  rw [hp]
  simp only
  rw [hq]

theorem map_insertPoint (hgood : AllGood tsPoints) (hq : ∀ p ∈ tsPoints, buildPrecision p = .ok q) :
    tsPoints.map db.insertPoint = ((goodPoints tsPoints).map (.write · q)).map db.onDb := by
  induction tsPoints with
  | nil => rfl
  | cons p ps ih =>
    obtain ⟨⟨point, hp⟩, hps⟩ := List.forall_mem_cons.1 hgood
    have hcons : goodPoints (p :: ps) = point :: goodPoints ps := by
      rw [goodPoints, List.map_cons, hp, List.filterMap_cons, Try.success?_ok, goodPoints]
    rw [List.map_cons, hcons, List.map_cons, List.map_cons, insertPoint_eq hp (hq p List.mem_cons_self),
      ih hps fun p hp => hq p (List.mem_cons_of_mem _ hp)]

theorem goodPoints_ne_nil (hgood : AllGood tsPoints) (hne : tsPoints ≠ []) : goodPoints tsPoints ≠ [] := by
  have hlen := congrArg List.length (map_goodPoints hgood)
  rw [List.length_map, List.length_map] at hlen
  rw [← List.length_pos_iff, hlen, List.length_pos_iff]
  exact hne

theorem insertBatch_eq (hgood : AllGood tsPoints) (hq : ∀ p ∈ tsPoints, buildPrecision p = .ok q)
    (hne : tsPoints ≠ []) : db.insertBatch tsPoints = db.onDb (.bulkWrite (goodPoints tsPoints) q) := by
  obtain ⟨p, hp⟩ := List.exists_mem_of_ne_nil tsPoints hne
  have hlen := (filterMap_success?_length buildPoint tsPoints).2 hgood
  have hprecis : ((tsPoints.map buildPrecision).filterMap Try.success?).dedup = [q] := by
    refine precisSet_eq_singleton.2 ⟨⟨p, hp, hq p hp⟩, fun p' hp' q' hq' => ?_⟩
    rw [hq p' hp', Except.ok.injEq] at hq'
    exact hq'.symm
  unfold insertBatch
  simp only
  rw [hlen, bne_self_eq_false, if_neg Bool.false_ne_true, hprecis]
  rfl

/-- Two points with one measurement, one set of tags and one timestamp. -/
def SameKey (p p' : TimeSeriesPoint) : Prop :=
  p.measurement = p'.measurement ∧ (∀ t, t ∈ p.givenTags ↔ t ∈ p'.givenTags) ∧ p.timeStamp = p'.timeStamp

theorem Precision.nanos_ne_zero (q : Precision) : q.nanos ≠ 0 := by
  cases q <;> decide

/-- Rows of one precision share a key only when their points do. -/
theorem sameKey_of_row {p p' : TimeSeriesPoint} {point point' : Point} (hp : buildPoint p = .ok point)
    (hp' : buildPoint p' = .ok point') {row row' : RowKey × Fields} (hrow : point.row? q = some row)
    (hrow' : point'.row? q = some row') (hkey : row.1 = row'.1) : SameKey p p' := by
  obtain ⟨hm, ht, htags, -⟩ := buildPoint_keeps hp
  obtain ⟨hm', ht', htags', -⟩ := buildPoint_keeps hp'
  obtain ⟨t, hstamp, rfl⟩ := Option.map_eq_some_iff.1 hrow
  obtain ⟨t', hstamp', rfl⟩ := Option.map_eq_some_iff.1 hrow'
  simp only [RowKey.mk.injEq, mul_eq_mul_right_iff, Precision.nanos_ne_zero, or_false, Int64.toInt_inj] at hkey
  obtain ⟨hmeas, htag, rfl⟩ := hkey
  refine ⟨by rw [← hm, ← hm', hmeas], fun tag => ?_, by rw [← ht, ← ht', hstamp, hstamp']⟩
  rw [← Multiset.mem_coe, ← htags, htag, htags', Multiset.mem_coe]

/-- The rows of points of one precision and distinct keys have distinct keys. -/
theorem nodup_keys (D : Database) (hgood : AllGood tsPoints)
    (hkeys : tsPoints.Pairwise fun p p' => ¬ SameKey p p') :
    (keys (D.rowsOf (.bulkWrite (goodPoints tsPoints) q))).Nodup := by
  have hconv : (tsPoints.map buildPoint).Pairwise fun x x' => ∀ point point', x = .ok point → x' = .ok point' →
      ∀ row row', point.row? q = some row → point'.row? q = some row' → row.1 ≠ row'.1 := by
    refine List.pairwise_map.2 (hkeys.imp fun hne point point' hp hp' row row' hrow hrow' hkey => ?_)
    exact hne (sameKey_of_row hp hp' hrow hrow' hkey)
  rw [← map_goodPoints hgood, List.pairwise_map] at hconv
  unfold keys Database.rowsOf
  rw [List.Nodup, List.pairwise_map, List.pairwise_filterMap]
  refine (List.Pairwise.filter _ hconv).imp fun h row hrow row' hrow' => ?_
  exact h _ _ rfl rfl row row' hrow hrow'

theorem onDb_of_ok (hdb : db.dbFuture = .ok ()) : db.onDb = Future.request := by
  funext r
  rw [onDb, hdb]

theorem flatMap_request (requests : List WriteRequest) :
    (requests.map Future.request).flatMap Future.requests = requests := by
  induction requests with
  | nil => rfl
  | cons r requests ih => rw [List.map_cons, List.flatMap_cons, ih, Future.requests_request, List.singleton_append]

theorem outcome_joined (requests : List WriteRequest) (f : WriteRequest → Try Bool) :
    ((Future.sequence (requests.map Future.request)).mapTry reduceAnd).outcome (requests.map f) =
      (Try.sequence (requests.map f) >>= reduceAnd) := by
  show (Try.sequence (Future.outcomes (requests.map Future.request) (requests.map f)) >>= reduceAnd) = _
  rw [Future.outcomes_requests]

/-- What the single writes are answered against what the bulk write is. -/
theorem sameOutcome_answers (D : Database) {points : List Point} (hne : points ≠ []) :
    SameOutcome (Try.sequence ((points.map (.write · q)).map D.answer) >>= reduceAnd)
      (D.answer (.bulkWrite points q)) := by
  refine sameOutcome_of_iff ?_ ?_
  · rw [sequence_reduceAnd_fails (by simpa using hne), D.bulkWrite_fails]
    simp only [List.mem_map, exists_exists_and_eq_and]
  · rw [sequence_reduceAnd_eq_true, D.bulkWrite_true]
    simp [hne]

/-- The joined inserts against the batch, when there is something to write. -/
theorem insertBatch_agree (hdb : db.dbFuture = .ok ()) (hgood : AllGood tsPoints)
    (hq : ∀ p ∈ tsPoints, buildPrecision p = .ok q) (hkeys : tsPoints.Pairwise fun p p' => ¬ SameKey p p')
    (hne : tsPoints ≠ []) (D : Database) (rows : Rows) {joined : Future WriteRequest Bool}
    (hjoined : joined = (Future.sequence (tsPoints.map db.insertPoint)).mapTry reduceAnd)
    {order : List WriteRequest} (horder : order.Perm joined.requests) :
    order.foldl D.write rows = (db.insertBatch tsPoints).requests.foldl D.write rows ∧
      SameOutcome (joined.outcome (joined.requests.map D.answer))
        ((db.insertBatch tsPoints).outcome ((db.insertBatch tsPoints).requests.map D.answer)) := by
  rw [map_insertPoint hgood hq, onDb_of_ok hdb] at hjoined
  have hreq : joined.requests = (goodPoints tsPoints).map (.write · q) := by
    rw [hjoined, Future.requests_mapTry, Future.requests_sequence, flatMap_request]
  rw [insertBatch_eq hgood hq hne, onDb_of_ok hdb]
  refine ⟨?_, ?_⟩
  · rw [hreq] at horder
    rw [Future.requests_request, D.foldl_write, D.foldl_write, List.flatMap_singleton]
    have hperm : (order.flatMap D.rowsOf).Perm (D.rowsOf (.bulkWrite (goodPoints tsPoints) q)) := by
      rw [D.rowsOf_bulkWrite]
      exact horder.flatMap_right D.rowsOf
    have hnd := nodup_keys (q := q) D hgood hkeys
    exact (putAll_perm hnd hperm.symm rows).symm
  · rw [hreq, hjoined, Future.requests_request, List.map_singleton, Future.outcome_request]
    rw [outcome_joined]
    exact sameOutcome_answers D (goodPoints_ne_nil hgood hne)

theorem onDb_of_error {e : Throwable} (hdb : db.dbFuture = .error e) : db.onDb = fun _ => Future.failed e := by
  funext r
  rw [onDb, hdb]

/-- Neither asks for anything, and both fail. -/
theorem agree_of_failed (D : Database) (rows : Rows) {x y : Future WriteRequest Bool} (hx : x.requests = [])
    (hy : y.requests = []) (hxf : ∃ e, x.outcome [] = .error e) (hyf : ∃ e, y.outcome [] = .error e)
    {order : List WriteRequest} (horder : order.Perm x.requests) :
    order.foldl D.write rows = y.requests.foldl D.write rows ∧
      SameOutcome (x.outcome (x.requests.map D.answer)) (y.outcome (y.requests.map D.answer)) := by
  rw [hx] at horder
  rw [hx, hy, List.perm_nil.1 horder]
  exact ⟨rfl, .inr ⟨hxf, hyf⟩⟩

/-- **The override agrees with the default.** For points that convert, of one
precision and with distinct keys, the one write leaves the rows that the
single writes leave, in whatever order they take effect, and both report the
same. -/
theorem insertPoints_agree (db : InfluxDBDriver) {tsPoints : List TimeSeriesPoint} {q : Precision}
    (hgood : ∀ p ∈ tsPoints, ∃ point, buildPoint p = .ok point) (hq : ∀ p ∈ tsPoints, buildPrecision p = .ok q)
    (hkeys : tsPoints.Pairwise fun p p' => ¬ SameKey p p') (D : Database) (rows : Rows) {order : List WriteRequest}
    (horder : order.Perm (defaultInsertPoints db.insertPoint tsPoints).requests) :
    order.foldl D.write rows = (db.insertPoints tsPoints).requests.foldl D.write rows ∧
      SameOutcome
        ((defaultInsertPoints db.insertPoint tsPoints).outcome
          ((defaultInsertPoints db.insertPoint tsPoints).requests.map D.answer))
        ((db.insertPoints tsPoints).outcome ((db.insertPoints tsPoints).requests.map D.answer)) := by
  unfold defaultInsertPoints at horder ⊢
  unfold insertPoints
  split
  next p =>
    -- One point: both are `insertPoint`, and there is one order at most.
    have hone : order = (db.insertPoint p).requests := by
      have hlen : (db.insertPoint p).requests.length ≤ 1 := requests_insertPoint_length_le
      generalize (db.insertPoint p).requests = requests at horder hlen
      match requests with
      | [] => exact List.perm_nil.1 horder
      | [r] => exact List.perm_singleton.1 horder
    rw [hone]
    exact ⟨rfl, sameOutcome_refl _⟩
  next hlen =>
    split at horder
    next p => exact absurd rfl (hlen p)
    cases hdb : db.dbFuture with
    | ok =>
      by_cases hne : tsPoints = []
      · rw [hne] at horder ⊢
        exact agree_of_failed D rows rfl rfl ⟨_, rfl⟩ ⟨_, rfl⟩ horder
      · exact insertBatch_agree hdb hgood hq hkeys hne D rows rfl horder
    | error e =>
      -- The database is not there: nothing is asked of it, and nothing succeeds.
      by_cases hne : tsPoints = []
      · rw [hne] at horder ⊢
        exact agree_of_failed D rows rfl rfl ⟨_, rfl⟩ ⟨_, rfl⟩ horder
      · rw [insertBatch_eq hgood hq hne, onDb_of_error hdb]
        rw [map_insertPoint hgood hq, onDb_of_error hdb] at horder ⊢
        obtain ⟨p, ps, rfl⟩ := List.exists_cons_of_ne_nil hne
        refine agree_of_failed D rows ?_ rfl ?_ ⟨_, rfl⟩ horder
        · simp
        · obtain ⟨point, points, hpoints⟩ := List.exists_cons_of_ne_nil (goodPoints_ne_nil hgood hne)
          rw [hpoints]
          exact ⟨e, rfl⟩

/-- A transfer of one partner, by its timestamp. -/
def transferAt (timeStamp : Int64) : TimeSeriesPoint where
  measurement := "transferred_bytes"
  tags := some [("partner", .string "SEA"), ("type", .string "send")]
  fields := [("filesize", .long 1024)]
  timeStamp := some timeStamp
  precision := .nanoseconds

/-- Two transfers, the second stored first. -/
theorem insertPoints_agree_reversed :
    let db : InfluxDBDriver := ⟨.ok ()⟩
    let tsPoints := [transferAt 1, transferAt 2]
    (defaultInsertPoints db.insertPoint tsPoints).requests.reverse.foldl Database.storing.write empty =
      (db.insertPoints tsPoints).requests.foldl Database.storing.write empty := by
  intro db tsPoints
  have hgood : ∀ p ∈ tsPoints, ∃ point, buildPoint p = .ok point := by
    intro p hp
    rcases List.mem_pair.1 hp with rfl | rfl
    · exact ⟨_, rfl⟩
    · exact ⟨_, rfl⟩
  have hq : ∀ p ∈ tsPoints, buildPrecision p = .ok .nanoseconds := by
    intro p hp
    rcases List.mem_pair.1 hp with rfl | rfl
    · rfl
    · rfl
  have hkeys : tsPoints.Pairwise fun p p' => ¬ SameKey p p' := by
    refine List.pairwise_pair.2 fun h => ?_
    have hstamp : (some 1 : Option Int64) = some 2 := h.2.2
    cases hstamp
  exact (insertPoints_agree db hgood hq hkeys Database.storing empty (List.reverse_perm _)).1

end InfluxDBDriver

end TransferDashboard
