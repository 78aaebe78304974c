/-
What the driver's batch insert asks of the database.

`mem_requests_insertBatch` says exactly when a batch is written and under
which precision; what the driver promises about precisions is read off it.
The batch path collects the precisions that exist and counts the distinct
ones, so a point without one (`TimeUnit.DAYS`) does not count at all:
`ownPrecision_iff` is the exact condition under which it does no harm.
-/
import TransferDashboard.InfluxDBDriver

namespace TransferDashboard

open Scala

namespace InfluxDBDriver

theorem dedup_eq_singleton {α : Type} [DecidableEq α] {l : List α} {a : α} :
    l.dedup = [a] ↔ a ∈ l ∧ ∀ b ∈ l, b = a := by
  refine ⟨fun h => ?_, fun h => ?_⟩
  · have hmem : ∀ b, b ∈ l ↔ b = a := fun b => by rw [← List.mem_dedup, h, List.mem_singleton]
    exact ⟨(hmem a).2 rfl, fun b hb => (hmem b).1 hb⟩
  · obtain ⟨ha, hall⟩ := h
    have hrep := List.eq_replicate_of_mem (fun b hb => hall b (List.mem_dedup.1 hb))
    have hnd := List.nodup_dedup l
    rw [hrep, List.nodup_replicate] at hnd
    have hpos := List.length_pos_of_mem (List.mem_dedup.2 ha)
    rw [hrep, show l.dedup.length = 1 by omega, List.replicate_one]

/-! ## One request at most -/

variable {db : InfluxDBDriver} {tsPoints : List TimeSeriesPoint} {r : WriteRequest}

theorem mem_requests_onDb {r' : WriteRequest} :
    r' ∈ (db.onDb r).requests ↔ r' = r ∧ db.dbFuture = .ok () := by
  unfold onDb
  cases db.dbFuture <;> simp

/-- A driver future that asks nothing of the database has failed. -/
theorem onDb_fails (h : (db.onDb r).requests = []) : (db.onDb r).Fails := by
  unfold onDb at h ⊢
  cases hdb : db.dbFuture with
  | ok => simp [hdb] at h
  | error e => exact Future.failed_fails e

theorem insertPoint_fails {p : TimeSeriesPoint} (h : (db.insertPoint p).requests = []) :
    (db.insertPoint p).Fails := by
  unfold insertPoint at h ⊢
  split
  · exact Future.failed_fails _
  next hp =>
    simp only [hp] at h
    split
    · exact Future.failed_fails _
    next hq => simp only [hq] at h; exact onDb_fails h

theorem insertBatch_fails (h : (db.insertBatch tsPoints).requests = []) : (db.insertBatch tsPoints).Fails := by
  unfold insertBatch at h ⊢
  simp only at h ⊢
  split
  · exact Future.failed_fails _
  next hlen =>
    rw [if_neg hlen] at h
    split
    next hq => simp only [hq] at h; exact onDb_fails h
    · exact Future.failed_fails _

theorem insertPoints_fails (h : (db.insertPoints tsPoints).requests = []) :
    (db.insertPoints tsPoints).Fails := by
  unfold insertPoints at h ⊢
  split
  · exact insertPoint_fails h
  next hne =>
    split at h
    · exact absurd rfl (hne _)
    · exact insertBatch_fails h

/-! ## When a batch is written -/

/-- Every point converts. -/
def AllGood (tsPoints : List TimeSeriesPoint) : Prop := ∀ p ∈ tsPoints, ∃ point, buildPoint p = .ok point

/-- `q` is the one precision the points have, those without one left aside. -/
def OnlyPrecision (tsPoints : List TimeSeriesPoint) (q : Precision) : Prop :=
  (∃ p ∈ tsPoints, buildPrecision p = .ok q) ∧ ∀ p ∈ tsPoints, ∀ q', buildPrecision p = .ok q' → q' = q

/-- The points of `good_points`. -/
def goodPoints (tsPoints : List TimeSeriesPoint) : List Point :=
  (tsPoints.map buildPoint).filterMap Try.success?

theorem precisSet_eq_singleton {q : Precision} :
    ((tsPoints.map buildPrecision).filterMap Try.success?).dedup = [q] ↔ OnlyPrecision tsPoints q := by
  simp only [dedup_eq_singleton, OnlyPrecision, List.mem_filterMap, List.mem_map, Try.success?_eq_some,
    exists_eq_right, forall_exists_index, and_imp]
  exact and_congr_right fun _ => ⟨fun h p hp q' hq => h q' p hp hq, fun h q' p hp hq => h p hp q' hq⟩

theorem mem_requests_insertBatch : r ∈ (db.insertBatch tsPoints).requests ↔
    db.dbFuture = .ok () ∧ AllGood tsPoints ∧
      ∃ q, OnlyPrecision tsPoints q ∧ r = .bulkWrite (goodPoints tsPoints) q := by
  unfold insertBatch
  simp only [bne_iff_ne, ne_eq]
  split
  next hlen =>
    have hbad : ¬ AllGood tsPoints := fun h => hlen ((filterMap_success?_length buildPoint tsPoints).2 h).symm
    simp [hbad]
  next hlen =>
    have hgood : AllGood tsPoints := (filterMap_success?_length buildPoint tsPoints).1 (not_not.1 hlen).symm
    split
    next q hq =>
      simp only [mem_requests_onDb, hgood, true_and]
      refine ⟨fun h => ?_, fun h => ?_⟩
      · obtain ⟨rfl, hdb⟩ := h
        exact ⟨hdb, q, precisSet_eq_singleton.1 hq, rfl⟩
      · obtain ⟨hdb, q', hq', rfl⟩ := h
        have hqq : [q'] = [q] := by rw [← hq, precisSet_eq_singleton.2 hq']
        simp only [List.cons.injEq, and_true] at hqq
        exact ⟨by rw [hqq]; rfl, hdb⟩
    next hq =>
      simp only [Future.requests_failed, List.not_mem_nil, false_iff, not_and, not_exists]
      exact fun _ _ q hq' => absurd (precisSet_eq_singleton.2 hq') (hq q)

theorem mem_requests_insertPoint {p : TimeSeriesPoint} : r ∈ (db.insertPoint p).requests ↔
    db.dbFuture = .ok () ∧ ∃ point q, buildPoint p = .ok point ∧ buildPrecision p = .ok q ∧ r = .write point q := by
  unfold insertPoint
  cases buildPoint p with
  | error e => simp
  | ok point =>
    cases buildPrecision p with
    | error e => simp
    | ok q => simp [mem_requests_onDb, and_comm]

/-! ## All or nothing -/

theorem map_goodPoints (h : AllGood tsPoints) : (goodPoints tsPoints).map .ok = tsPoints.map buildPoint := by
  unfold goodPoints
  induction tsPoints with
  | nil => rfl
  | cons p ps ih =>
    obtain ⟨⟨point, hp⟩, hps⟩ := List.forall_mem_cons.1 h
    rw [List.map_cons, List.filterMap_cons, hp, Try.success?_ok, List.map_cons, ih hps]

theorem requests_onDb_length_le : (db.onDb r).requests.length ≤ 1 := by
  unfold onDb
  cases db.dbFuture <;> simp

theorem requests_insertPoint_length_le {p : TimeSeriesPoint} : (db.insertPoint p).requests.length ≤ 1 := by
  unfold insertPoint
  split
  · exact Nat.zero_le 1
  · split
    · exact Nat.zero_le 1
    · exact requests_onDb_length_le

theorem requests_insertPoints_length_le (db : InfluxDBDriver) (tsPoints : List TimeSeriesPoint) :
    (db.insertPoints tsPoints).requests.length ≤ 1 := by
  unfold insertPoints
  split
  · exact requests_insertPoint_length_le
  · unfold insertBatch
    simp only
    split
    · exact Nat.zero_le 1
    · split
      · exact requests_onDb_length_le
      · exact Nat.zero_le 1

/-- A request holds what each point converts to, in order. -/
theorem points_of_mem_requests (hr : r ∈ (db.insertPoints tsPoints).requests) :
    r.points.map .ok = tsPoints.map buildPoint := by
  unfold insertPoints at hr
  split at hr
  next p =>
    obtain ⟨-, point, q, hp, -, rfl⟩ := mem_requests_insertPoint.1 hr
    rw [List.map_singleton, hp]
    rfl
  · obtain ⟨-, hgood, q, -, rfl⟩ := mem_requests_insertBatch.1 hr
    exact map_goodPoints hgood

/-- What converts and has one precision is asked to be written. -/
theorem exists_mem_requests (hdb : db.dbFuture = .ok ()) (hgood : AllGood tsPoints) {q : Precision}
    (hq : OnlyPrecision tsPoints q) : ∃ r, r ∈ (db.insertPoints tsPoints).requests := by
  unfold insertPoints
  split
  next p =>
    obtain ⟨point, hpoint⟩ := hgood p List.mem_cons_self
    obtain ⟨⟨p', hp', hprecision⟩, -⟩ := hq
    rw [List.mem_singleton.1 hp'] at hprecision
    exact ⟨_, mem_requests_insertPoint.2 ⟨hdb, point, q, hpoint, hprecision, rfl⟩⟩
  · exact ⟨_, mem_requests_insertBatch.2 ⟨hdb, hgood, q, hq, rfl⟩⟩

/-- **All or nothing.** A list of points is written in one request at most,
in none when one of them cannot be converted, and in one when they all can,
have one precision, and the database is there; and a request holds what each
of them converts to. -/
theorem insertPoints_all_or_nothing (db : InfluxDBDriver) (tsPoints : List TimeSeriesPoint) :
    (db.insertPoints tsPoints).requests.length ≤ 1 ∧
      ((∃ p ∈ tsPoints, ∃ e, buildPoint p = .error e) →
        (db.insertPoints tsPoints).requests = [] ∧ (db.insertPoints tsPoints).Fails) ∧
      (db.dbFuture = .ok () → AllGood tsPoints → (∃ q, OnlyPrecision tsPoints q) →
        (db.insertPoints tsPoints).requests.length = 1) ∧
      ∀ r ∈ (db.insertPoints tsPoints).requests, r.points.map .ok = tsPoints.map buildPoint := by
  refine ⟨requests_insertPoints_length_le db tsPoints, fun hbad => ?_, fun hdb hgood hone => ?_,
    fun r hr => points_of_mem_requests hr⟩
  · obtain ⟨p, hp, e, he⟩ := hbad
    have hnone : (db.insertPoints tsPoints).requests = [] := by
      rw [List.eq_nil_iff_forall_not_mem]
      intro r hr
      have hconv : Except.error e ∈ tsPoints.map buildPoint := he ▸ List.mem_map_of_mem hp
      rw [← points_of_mem_requests hr] at hconv
      obtain ⟨point, -, hpoint⟩ := List.mem_map.1 hconv
      cases hpoint
    exact ⟨hnone, insertPoints_fails hnone⟩
  · obtain ⟨q, hq⟩ := hone
    obtain ⟨r, hr⟩ := exists_mem_requests hdb hgood hq
    have hmost := requests_insertPoints_length_le db tsPoints
    have hsome := List.length_pos_of_mem hr
    omega

/-! ## Precisions -/

/-- No point is written under a precision other than its own. -/
def OwnPrecision (db : InfluxDBDriver) (tsPoints : List TimeSeriesPoint) : Prop :=
  ∀ r ∈ (db.insertPoints tsPoints).requests, ∀ p ∈ tsPoints, buildPrecision p = .ok r.precision

/-- A batch is rejected when it holds a point that alone is rejected for its precision. -/
def RejectsUnsupported (db : InfluxDBDriver) (tsPoints : List TimeSeriesPoint) : Prop :=
  ∀ p ∈ tsPoints, db.insertPoint p = .failed unsupportedPrecision →
    (db.insertPoints tsPoints).requests = [] ∧ (db.insertPoints tsPoints).Fails

/-- Points that all convert, of which some have an unsupported precision
and the others one and the same supported one. -/
def SilentlyMixed (tsPoints : List TimeSeriesPoint) : Prop :=
  AllGood tsPoints ∧ (∃ p ∈ tsPoints, buildPrecision p = .error unsupportedPrecision) ∧
    ∃ q, OnlyPrecision tsPoints q

theorem buildPrecision_error {p : TimeSeriesPoint} {e : Throwable} (h : buildPrecision p = .error e) :
    e = unsupportedPrecision := by
  unfold buildPrecision at h
  split at h <;> simp_all

/-- A silently mixed list is no singleton, so it goes to the batch. -/
theorem SilentlyMixed.insertPoints_eq (h : SilentlyMixed tsPoints) :
    db.insertPoints tsPoints = db.insertBatch tsPoints := by
  obtain ⟨-, ⟨p, hp, he⟩, q, ⟨p', hp', hq⟩, -⟩ := h
  unfold insertPoints
  split
  · simp only [List.mem_singleton] at hp hp'
    subst hp hp'
    simp [he] at hq
  · rfl

/-- What is written is written under each point's own precision, unless the
list is silently mixed. -/
theorem ownPrecision_of_not_mixed (h : ¬ SilentlyMixed tsPoints) : OwnPrecision db tsPoints := by
  intro r hr p hp
  unfold insertPoints at hr
  split at hr
  · obtain ⟨-, point, q, -, hq, rfl⟩ := mem_requests_insertPoint.1 hr
    simp only [List.mem_singleton] at hp
    subst hp
    exact hq
  · obtain ⟨-, hgood, q, hq, rfl⟩ := mem_requests_insertBatch.1 hr
    cases hp' : buildPrecision p with
    | ok q' => rw [hq.2 p hp q' hp']; rfl
    | error e => exact absurd ⟨hgood, ⟨p, hp, by rw [hp', buildPrecision_error hp']⟩, q, hq⟩ h

/-- A point that alone is rejected for its precision leaves its batch
without a request, as soon as requests keep to the points' own precisions. -/
theorem rejectsUnsupported_of_own (h : OwnPrecision db tsPoints) : RejectsUnsupported db tsPoints := by
  intro p hp hfail
  have hnone : (db.insertPoints tsPoints).requests = [] := by
    rw [List.eq_nil_iff_forall_not_mem]
    intro r hr
    have hq := h r hr p hp
    -- Something is written, so the database is there and the point alone converts.
    have hsingle : ∃ point, buildPoint p = .ok point ∧ db.dbFuture = .ok () := by
      unfold insertPoints at hr
      split at hr
      · obtain ⟨hdb, point, _, hpt, -, -⟩ := mem_requests_insertPoint.1 hr
        simp only [List.mem_singleton] at hp
        exact ⟨point, hp ▸ hpt, hdb⟩
      · obtain ⟨hdb, hgood, -⟩ := mem_requests_insertBatch.1 hr
        obtain ⟨point, hpt⟩ := hgood p hp
        exact ⟨point, hpt, hdb⟩
    obtain ⟨point, hpt, hdb⟩ := hsingle
    have hmem : WriteRequest.write point r.precision ∈ (db.insertPoint p).requests :=
      mem_requests_insertPoint.2 ⟨hdb, point, _, hpt, hq, rfl⟩
    simp [hfail] at hmem
  exact ⟨hnone, insertPoints_fails hnone⟩

/-- **The precision of a write.** Whatever the state of the connection, every
write of a list of points is under the precision of each of them, and a
point with an unsupported precision gets its list rejected, exactly for the
lists that are not silently mixed. -/
theorem ownPrecision_iff (tsPoints : List TimeSeriesPoint) :
    (∀ db, OwnPrecision db tsPoints ∧ RejectsUnsupported db tsPoints) ↔ ¬ SilentlyMixed tsPoints := by
  constructor
  · intro h hmix
    obtain ⟨hgood, ⟨p, hp, he⟩, q, hq⟩ := id hmix
    have hreq : WriteRequest.bulkWrite (goodPoints tsPoints) q ∈
        (InfluxDBDriver.insertPoints ⟨.ok ()⟩ tsPoints).requests := by
      rw [hmix.insertPoints_eq]
      exact mem_requests_insertBatch.2 ⟨rfl, hgood, q, hq, rfl⟩
    have := (h ⟨.ok ()⟩).1 _ hreq p hp
    rw [he] at this
    cases this
  · intro h db
    exact ⟨ownPrecision_of_not_mixed h, rejectsUnsupported_of_own (ownPrecision_of_not_mixed h)⟩

/-- A reading stamped with the given unit. -/
def reading (unit : TimeUnit) : TimeSeriesPoint :=
  { measurement := "readings", tags := none, fields := [("temp", .long 27)], timeStamp := some 17000,
    precision := unit }

/-- One point in nanoseconds and one in days: both are written, under
nanoseconds, though the second alone is rejected as unsupported. -/
theorem days_written_as_nanoseconds :
    ¬ (OwnPrecision ⟨.ok ()⟩ [reading .nanoseconds, reading .days] ∧
        RejectsUnsupported ⟨.ok ()⟩ [reading .nanoseconds, reading .days]) ∧
      (InfluxDBDriver.insertPoints ⟨.ok ()⟩ [reading .nanoseconds, reading .days]).requests =
        [.bulkWrite (goodPoints [reading .nanoseconds, reading .days]) .nanoseconds] ∧
      InfluxDBDriver.insertPoint ⟨.ok ()⟩ (reading .days) = .failed unsupportedPrecision := by
  have hreq : (InfluxDBDriver.insertPoints ⟨.ok ()⟩ [reading .nanoseconds, reading .days]).requests =
      [.bulkWrite (goodPoints [reading .nanoseconds, reading .days]) .nanoseconds] := rfl
  refine ⟨fun h => ?_, hreq, rfl⟩
  have := h.1 _ (by rw [hreq]; exact List.mem_singleton_self _) (reading .days) (by simp)
  cases this

end InfluxDBDriver

end TransferDashboard
