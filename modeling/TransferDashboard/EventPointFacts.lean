/-
An event's points, once the random source has been asked: two points, of one
tag set, each under its own draw (`buildTimeSeriesPoints_eq`), which the
driver always converts and writes in one request (`insertPoints_event`).
-/
import TransferDashboard.EventPoint
import TransferDashboard.InfluxDBDriverFacts
import TransferDashboard.Rows

namespace TransferDashboard

open Random Scala

namespace EventPoint

variable {σ : Type} {R : RandomSource σ}

/-- The stamp of an instant under a draw. -/
def stamp (millis : Int64) (draw : Fin 100000) : Int64 := convertToNanos millis + Int64.ofNat draw

/-- The two draws of an event. -/
def draws (R : RandomSource σ) (random : σ) : Fin 100000 × Fin 100000 :=
  ((nextFuzz R random).1, (nextFuzz R (nextFuzz R random).2).1)

/-- The source after an event. -/
def afterDraws (R : RandomSource σ) (random : σ) : σ := (nextFuzz R (nextFuzz R random).2).2

/-- A point of one series, stamped. -/
def seriesPoint (measurement field : String) (value : Event → Int32) (event : Event) (timeStamp : Int64) :
    TimeSeriesPoint :=
  { measurement
    tags := some [("partner", .string event.partner.name), ("type", .string (transferType event))]
    fields := [(field, .long (value event).toInt64)]
    timeStamp := some timeStamp
    precision := .nanoseconds }

def sizePoint (event : Event) (timeStamp : Int64) : TimeSeriesPoint :=
  seriesPoint "transferred_bytes" "filesize" Event.size event timeStamp

def secondsPoint (event : Event) (timeStamp : Int64) : TimeSeriesPoint :=
  seriesPoint "transfer_seconds" "seconds" Event.seconds event timeStamp

/-- The points of an event under two draws. -/
def pointsOf (event : Event) (d : Fin 100000 × Fin 100000) : List TimeSeriesPoint :=
  [sizePoint event (stamp event.millis d.1), secondsPoint event (stamp event.millis d.2)]

theorem buildTimeSeriesPoints_eq (event : Event) (random : σ) : buildTimeSeriesPoints R event random =
    (pointsOf event (draws R random), afterDraws R random) := rfl

/-! ## What the driver makes of them -/

/-- The client's point of one series. -/
def clientPoint (measurement field : String) (value : Event → Int32) (event : Event) (timeStamp : Int64) : Point :=
  { measurement
    timestamp := some timeStamp
    tags := {("partner", event.partner.name), ("type", transferType event)}
    fields := {(field, .long (value event).toInt64)} }

theorem buildPoint_seriesPoint (measurement field : String) (value : Event → Int32) (event : Event)
    (timeStamp : Int64) : InfluxDBDriver.buildPoint (seriesPoint measurement field value event timeStamp) =
      .ok (clientPoint measurement field value event timeStamp) := by
  have htags : ("type", transferType event) ::ₘ ("partner", event.partner.name) ::ₘ 0 =
      ({("partner", event.partner.name), ("type", transferType event)} : Multiset (String × String)) := by
    rw [Multiset.cons_swap]; rfl
  simp only [InfluxDBDriver.buildPoint, seriesPoint, List.foldlM_cons, List.foldlM_nil,
    InfluxDBDriver.addTag, InfluxDBDriver.addField, bind, Except.bind, pure, Except.pure, Point.new,
    Point.addTag, Point.addField, clientPoint, htags]
  rfl

theorem buildPrecision_seriesPoint (measurement field : String) (value : Event → Int32) (event : Event)
    (timeStamp : Int64) :
    InfluxDBDriver.buildPrecision (seriesPoint measurement field value event timeStamp) = .ok .nanoseconds := rfl

/-- The client's points of an event under two draws. -/
def clientPointsOf (event : Event) (d : Fin 100000 × Fin 100000) : List Point :=
  [clientPoint "transferred_bytes" "filesize" Event.size event (stamp event.millis d.1),
    clientPoint "transfer_seconds" "seconds" Event.seconds event (stamp event.millis d.2)]

/-- The request an event ends in. -/
def requestOf (event : Event) (d : Fin 100000 × Fin 100000) : WriteRequest :=
  .bulkWrite (clientPointsOf event d) .nanoseconds

theorem insertPoints_event (db : InfluxDBDriver) (event : Event) (d : Fin 100000 × Fin 100000) :
    db.insertPoints (pointsOf event d) = db.onDb (requestOf event d) := by
  simp only [InfluxDBDriver.insertPoints, InfluxDBDriver.insertBatch, pointsOf, sizePoint, secondsPoint,
    List.map_cons, List.map_nil, buildPoint_seriesPoint, buildPrecision_seriesPoint, List.filterMap_cons,
    List.filterMap_nil, Try.success?_ok]
  rfl

theorem requests_event (event : Event) (d : Fin 100000 × Fin 100000) :
    (InfluxDBDriver.insertPoints ⟨.ok ()⟩ (pointsOf event d)).requests = [requestOf event d] := by
  rw [insertPoints_event]
  rfl

/-! ## Rows -/

/-- The tags of both points of an event. -/
def tagsOf (event : Event) : Multiset (String × String) :=
  {("partner", event.partner.name), ("type", transferType event)}

def sizeKey (x : Event × (Fin 100000 × Fin 100000)) : RowKey :=
  ⟨"transferred_bytes", tagsOf x.1, (stamp x.1.millis x.2.1).toInt⟩

def secondsKey (x : Event × (Fin 100000 × Fin 100000)) : RowKey :=
  ⟨"transfer_seconds", tagsOf x.1, (stamp x.1.millis x.2.2).toInt⟩

theorem rows_requestOf (event : Event) (d : Fin 100000 × Fin 100000) : (requestOf event d).rows =
    [(sizeKey (event, d), {("filesize", .long event.size.toInt64)}),
      (secondsKey (event, d), {("seconds", .long event.seconds.toInt64)})] := by
  simp [WriteRequest.rows, requestOf, WriteRequest.points, WriteRequest.precision, clientPointsOf, clientPoint,
    Point.row?, Precision.nanos, sizeKey, secondsKey, tagsOf]

/-! ## Stamps -/

/-- The instants whose nanoseconds fit a `Long`: about the years 1677 to 2262. -/
def InRange (millis : Int64) : Prop := -9223372036854 ≤ millis.toInt ∧ millis.toInt ≤ 9223372036854

theorem convertToNanos_toInt {millis : Int64} (h : InRange millis) :
    (convertToNanos millis).toInt = millis.toInt * 1000000 := by
  obtain ⟨hlo, hhi⟩ := h
  exact Int64.toInt_ofIntClamp (by change -9223372036854775808 ≤ _; omega)
    (by change _ ≤ 9223372036854775807; omega)

/-- In range, a stamp is the instant in nanoseconds plus the draw. -/
theorem stamp_toInt {millis : Int64} (h : InRange millis) (d : Fin 100000) :
    (stamp millis d).toInt = millis.toInt * 1000000 + d.val := by
  have hd := d.isLt
  have hdi : (Int64.ofNat d.val).toInt = d.val := Int64.toInt_ofNat_of_lt (by omega)
  rw [stamp, Int64.toInt_add, convertToNanos_toInt h, hdi]
  obtain ⟨hlo, hhi⟩ := h
  exact Int.bmod_eq_of_le (by omega) (by omega)

/-- In range, equal stamps are equal instants and equal draws. -/
theorem stamp_eq_iff {m m' : Int64} (h : InRange m) (h' : InRange m') (d d' : Fin 100000) :
    stamp m d = stamp m' d' ↔ m = m' ∧ d = d' := by
  constructor
  · intro he
    have heq := congrArg Int64.toInt he
    rw [stamp_toInt h, stamp_toInt h'] at heq
    have hd := d.isLt
    have hd' := d'.isLt
    exact ⟨Int64.toInt_inj.1 (by omega), Fin.ext (by omega)⟩
  · rintro ⟨rfl, rfl⟩; rfl

end EventPoint

end TransferDashboard
