/-
How far a stamp can be trusted.

`convertToNanos` saturates where an instant has no nanoseconds in a `Long`,
and the draw is added unchecked. Within the range the stamp is the instant
and the draw, to the nanosecond; outside of it no stamp is, and one past the
upper end wraps round to 1677 (`stamps_exact_iff`).
-/
import TransferDashboard.EventPointFacts
import TransferDashboard.JsonCodexRoundTrip

namespace TransferDashboard

open Random Scala JsonCodex

namespace EventPoint

/-- The points of the event are stamped with its instant and the two numbers
drawn for them, in nanoseconds: nothing saturated, nothing wrapped round. -/
def StampedExactly (e : Event) : Prop :=
  ∀ (σ : Type) (R : RandomSource σ) (random : σ), ∃ t t' : Int,
    (buildTimeSeriesPoints R e random).1.map (fun p => p.timeStamp.map Int64.toInt) = [some t, some t'] ∧
      t = e.millis.toInt * 1000000 + (draws R random).1.val ∧ t' = e.millis.toInt * 1000000 + (draws R random).2.val ∧
      t / 1000000 = e.millis.toInt ∧ t' / 1000000 = e.millis.toInt

/-- Every point of the first event has an earlier stamp than every point of the second. -/
def StampedBefore (e e' : Event) : Prop :=
  ∀ (σ : Type) (R : RandomSource σ) (random random' : σ), ∀ p ∈ (buildTimeSeriesPoints R e random).1,
    ∀ p' ∈ (buildTimeSeriesPoints R e' random').1,
      ∃ t t', p.timeStamp = some t ∧ p'.timeStamp = some t' ∧ t < t'

/-! ## From points to draws -/

/-- A point of an event has the stamp of some draw. -/
theorem exists_stamp {σ : Type} {R : RandomSource σ} {e : Event} {random : σ} {p : TimeSeriesPoint}
    (hp : p ∈ (buildTimeSeriesPoints R e random).1) : ∃ d, p.timeStamp = some (stamp e.millis d) := by
  rw [buildTimeSeriesPoints_eq] at hp
  rcases List.mem_pair.1 hp with rfl | rfl
  · exact ⟨_, rfl⟩
  · exact ⟨_, rfl⟩

/-- A draw given beforehand is drawn. -/
theorem draws_scripted (d : Fin 100000) : (draws scripted [d.val]).1 = d := Fin.ofNat_val_eq_self d

/-- The size of an event, under a draw given beforehand. -/
theorem sizePoint_mem (e : Event) (d : Fin 100000) :
    sizePoint e (stamp e.millis d) ∈ (buildTimeSeriesPoints scripted e [d.val]).1 := by
  rw [buildTimeSeriesPoints_eq, pointsOf, draws_scripted]
  exact List.mem_cons_self

theorem stampedBefore_iff {e e' : Event} :
    StampedBefore e e' ↔ ∀ d d', stamp e.millis d < stamp e'.millis d' := by
  refine ⟨fun h d d' => ?_, fun h σ R random random' p hp p' hp' => ?_⟩
  · obtain ⟨t, t', ht, ht', hlt⟩ := h _ scripted [d.val] [d'.val] _ (sizePoint_mem e d) _ (sizePoint_mem e' d')
    rw [← Option.some.inj ht, ← Option.some.inj ht'] at hlt
    exact hlt
  · obtain ⟨d, hd⟩ := exists_stamp hp
    obtain ⟨d', hd'⟩ := exists_stamp hp'
    exact ⟨_, _, hd, hd', h d d'⟩

/-! ## Out of range -/

/-- Below the range every instant is the smallest `Long`, and the draw is added to that. -/
theorem stamp_toInt_of_below {millis : Int64} (h : millis.toInt < -9223372036854) (d : Fin 100000) :
    (stamp millis d).toInt = -9223372036854775808 + d.val := by
  have hd := d.isLt
  have hdi : (Int64.ofNat d.val).toInt = d.val := Int64.toInt_ofNat_of_lt (by omega)
  have hmin : (convertToNanos millis).toInt = -9223372036854775808 := by
    unfold convertToNanos Int64.ofIntClamp
    rw [dif_neg (by change ¬ -9223372036854775808 ≤ _; omega)]
    rfl
  rw [stamp, Int64.toInt_add, hmin, hdi]
  exact Int.bmod_eq_of_le (by omega) (by omega)

/-- Past the range, a draw of one takes the largest `Long` to the smallest. -/
theorem stamp_one_of_above {millis : Int64} (h : 9223372036854 < millis.toInt) :
    stamp millis 1 = Int64.minValue := by
  have hmax : convertToNanos millis = Int64.maxValue := by
    unfold convertToNanos Int64.ofIntClamp
    rw [dif_pos (by change -9223372036854775808 ≤ _; omega), dif_neg (by change ¬ _ ≤ 9223372036854775807; omega)]
  rw [stamp, hmax]
  rfl

/-- The stamps of an event's points are those of its draws. -/
theorem timeStamps_eq {σ : Type} (R : RandomSource σ) (e : Event) (random : σ) :
    (buildTimeSeriesPoints R e random).1.map (fun p => p.timeStamp.map Int64.toInt) =
      [some (stamp e.millis (draws R random).1).toInt, some (stamp e.millis (draws R random).2).toInt] := rfl

theorem stampedExactly_iff {e : Event} : StampedExactly e ↔ InRange e.millis := by
  refine ⟨fun h => ?_, fun h σ R random => ⟨_, _, timeStamps_eq R e random, ?_⟩⟩
  · obtain ⟨t, t', hstamps, ht, -⟩ := h _ scripted [(0 : Fin 100000).val]
    rw [timeStamps_eq, draws_scripted, List.cons.injEq, Option.some.injEq] at hstamps
    rw [draws_scripted] at ht
    have hmin := Int64.le_toInt (stamp e.millis 0)
    have hmax := Int64.toInt_lt (stamp e.millis 0)
    rw [hstamps.1, ht] at hmin hmax
    exact ⟨by omega, by omega⟩
  · have hfirst := (draws R random).1.isLt
    have hsecond := (draws R random).2.isLt
    rw [stamp_toInt h, stamp_toInt h]
    exact ⟨rfl, rfl, by omega, by omega⟩

theorem stamped_in_order_iff {e e' : Event} (h : e.millis.toInt < e'.millis.toInt) :
    StampedBefore e e' ↔ InRange e'.millis := by
  rw [stampedBefore_iff]
  refine ⟨fun hlt => ?_, fun h' d d' => ?_⟩
  · by_contra hout
    rcases Int.lt_or_le 9223372036854 e'.millis.toInt with hhigh | hlow
    · -- The later one wraps round: nothing is before it.
      have hwrap := hlt 0 1
      rw [stamp_one_of_above hhigh] at hwrap
      exact Int64.not_lt_minValue hwrap
    · -- Both are saturated below: equal draws, equal stamps.
      have hbelow : e'.millis.toInt < -9223372036854 := by
        by_contra hge
        exact hout ⟨by omega, hlow⟩
      have heq := hlt 0 0
      rw [Int64.lt_iff_toInt_lt, stamp_toInt_of_below hbelow, stamp_toInt_of_below (by omega)] at heq
      omega
  · have hd := d.isLt
    have hd' := d'.isLt
    rw [Int64.lt_iff_toInt_lt, stamp_toInt h' d']
    obtain ⟨hlo', hhi'⟩ := h'
    by_cases hbelow : e.millis.toInt < -9223372036854
    · rw [stamp_toInt_of_below hbelow]
      omega
    · rw [stamp_toInt ⟨by omega, by omega⟩]
      omega

/-- **Which stamps are exact.** The points of an event are stamped with its
instant plus the number drawn for each exactly when its nanoseconds fit a
`Long`; and every stamp of an event is before every stamp of a later one
exactly when the later one's do. -/
theorem stamps_exact_iff : (∀ e, StampedExactly e ↔ InRange e.millis) ∧
    ∀ e e' : Event, e.millis.toInt < e'.millis.toInt → (StampedBefore e e' ↔ InRange e'.millis) :=
  ⟨fun _ => stampedExactly_iff, fun _ _ h => stamped_in_order_iff h⟩

/-- The first millisecond past the range, in the year 2262. -/
def lateEvent : Event := { JsonCodexSpec.event with timestamp := ⟨⟨9223372036855, utc⟩⟩ }

/-- It is read from JSON, but stamped with another millisecond where the draw
is one, and then before an event of 2017. -/
theorem late_event_wraps : jsonToEvent textLibs utc (eventToJson textLibs lateEvent) = .ok (some lateEvent) ∧
    (∃ p ∈ (buildTimeSeriesPoints scripted lateEvent [1]).1, ∃ t,
      p.timeStamp = some t ∧ t.toInt / 1000000 ≠ lateEvent.millis.toInt) ∧
    ¬ StampedExactly lateEvent ∧ ¬ StampedBefore JsonCodexSpec.event lateEvent := by
  have hout : ¬ InRange lateEvent.millis := by
    intro h
    exact absurd h.2 (by decide)
  refine ⟨jsonToEvent_eventToJson textLibs_documented lateEvent, ?_, fun h => ?_, fun h => ?_⟩
  · refine ⟨_, sizePoint_mem lateEvent 1, _, rfl, ?_⟩
    rw [stamp_one_of_above (by decide)]
    decide
  · exact hout (stampedExactly_iff.1 h)
  · exact hout ((stamped_in_order_iff (by decide)).1 h)

end EventPoint

end TransferDashboard
