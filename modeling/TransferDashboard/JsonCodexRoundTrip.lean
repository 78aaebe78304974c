/-
The encoder against the decoder.

What the encoder writes is in the grammar, for the same event looked at in
the reader's zone (`eventJson_eventFields`). Round trips follow: of events,
in both directions (`roundTrip`), and of texts, where the two zones have the
same offset at the event's instant (`text_roundTrip_iff`).
-/
import TransferDashboard.JsonCodexFacts
import TransferDashboard.TextLibs

namespace TransferDashboard

open Scala Joda Json

namespace JsonCodex

variable {L : Libs} {zone : DateTimeZone}

/-- The fields of an event's object. -/
def eventFields (L : Libs) (e : Event) : List (String × JsValue) :=
  write "eventId" (eventIdWrites e.eventId)
    ++ write "partner" (partnerWrites e.partner)
    ++ write "timestamp" (TimeStampFormat.writes L e.timestamp)
    ++ write "action" (ActionFormat.writes e.action)
    ++ write "size" (.number (.ofInt e.size.toInt))
    ++ write "seconds" (.number (.ofInt e.seconds.toInt))
    ++ writeNullable "ackState" (e.ackState.map AckFormat.writes)
    ++ writeNullable "receiptFor" (e.receiptFor.map eventIdWrites)

theorem eventWrites_eq (e : Event) : eventWrites L e = .object (eventFields L e) := rfl

/-! ## What is written is well formed -/

theorem stringObject_wf (key s : String) : (JsValue.object (write key (.string s))).Wf := by
  refine .object (List.nodup_singleton key) ?_
  intro f hf
  rw [List.mem_singleton.1 hf]
  exact .string s

theorem actionWrites_wf (a : Action) : (ActionFormat.writes a).Wf := by
  cases a <;> exact .string _

theorem ackWrites_wf (a : AckState) : (AckFormat.writes a).Wf := by
  cases a <;> exact .string _

theorem writeNullable_keys (key : String) (v : Option JsValue) :
    (writeNullable key v).map Prod.fst = if v.isSome then [key] else [] := by
  cases v <;> rfl

theorem eventFields_keys_nodup (e : Event) : ((eventFields L e).map Prod.fst).Nodup := by
  simp only [eventFields, List.map_append, writeNullable_keys]
  cases e.ackState <;> cases e.receiptFor <;> simp [write]

theorem mem_writeNullable {key : String} {v : Option JsValue} {f : String × JsValue}
    (h : f ∈ writeNullable key v) : v = some f.2 := by
  cases v with
  | none => cases h
  | some w => rw [List.mem_singleton.1 h]

/-- No key twice, and every value is one play-json can hold. -/
theorem eventWrites_wf (e : Event) : (eventWrites L e).Wf := by
  refine .object (eventFields_keys_nodup (L := L) e) ?_
  intro f hf
  simp only [List.mem_append, write, List.mem_singleton] at hf
  rcases hf with ((((((rfl | rfl) | rfl) | rfl) | rfl) | rfl) | hack) | hreceipt
  · exact stringObject_wf "id" e.eventId.id
  · exact stringObject_wf "name" e.partner.name
  · exact .string _
  · exact actionWrites_wf e.action
  · exact .number _
  · exact .number _
  · obtain ⟨a, -, ha⟩ := Option.map_eq_some_iff.1 (mem_writeNullable hack)
    rw [← ha]
    exact ackWrites_wf a
  · obtain ⟨id, -, hid⟩ := Option.map_eq_some_iff.1 (mem_writeNullable hreceipt)
    rw [← hid]
    exact stringObject_wf "id" id.id

/-! ## What is written is in the grammar -/

theorem named_actionWrites (a : Action) : Named actionNames (ActionFormat.writes a) a := by
  cases a <;> exact ⟨_, rfl, by simp [actionNames]⟩

theorem named_ackWrites (a : AckState) : Named ackStateNames (AckFormat.writes a) a := by
  cases a <;> exact ⟨_, rfl, by simp [ackStateNames]⟩

theorem stringObject_write (key s : String) : StringObject key (.object (write key (.string s))) s :=
  ⟨_, rfl, by simp [JsValue.field, write]⟩

/-- An optional field at the end of an object holds what was written. -/
theorem nullable_writeNullable {α : Type} {P : JsValue → α → Prop} {w : α → JsValue} (hw : ∀ a, P (w a) a)
    (o : Option α) : Nullable P (o.map w) o := by
  cases o with
  | none => exact .inl rfl
  | some a => exact ⟨w a, rfl, hw a⟩

theorem field_ackState (e : Event) : JsValue.field (eventFields L e) "ackState" = e.ackState.map AckFormat.writes := by
  cases hack : e.ackState <;> cases hreceipt : e.receiptFor <;>
    simp [eventFields, JsValue.field, write, writeNullable, hack, hreceipt]

theorem field_receiptFor (e : Event) : JsValue.field (eventFields L e) "receiptFor" = e.receiptFor.map eventIdWrites := by
  cases hack : e.ackState <;> cases hreceipt : e.receiptFor <;>
    simp [eventFields, JsValue.field, write, writeNullable, hack, hreceipt]

/-- A key that is not optional, among the fields before the optional ones. -/
theorem field_required (e : Event) {key : String} (h : key ≠ "ackState") (h' : key ≠ "receiptFor") :
    JsValue.field (eventFields L e) key = JsValue.field (write "eventId" (eventIdWrites e.eventId)
      ++ write "partner" (partnerWrites e.partner) ++ write "timestamp" (TimeStampFormat.writes L e.timestamp)
      ++ write "action" (ActionFormat.writes e.action) ++ write "size" (.number (.ofInt e.size.toInt))
      ++ write "seconds" (.number (.ofInt e.seconds.toInt))) key := by
  cases hack : e.ackState <;> cases hreceipt : e.receiptFor <;>
    simp [eventFields, JsValue.field, write, writeNullable, hack, hreceipt, h.symm, h'.symm]

/-- **The encoder writes the grammar**, of the event in the reader's zone. -/
theorem eventJson_eventFields (hL : L.Documented) (e : Event) : EventJson L zone (eventFields L e) (e.inZone zone) where
  eventId := ⟨_, by rw [field_required e (by decide) (by decide)]; rfl, stringObject_write "id" e.eventId.id⟩
  partner := ⟨_, by rw [field_required e (by decide) (by decide)]; rfl, stringObject_write "name" e.partner.name⟩
  timestamp := by
    refine ⟨Time.dateTimeToString L.joda e.timestamp.dt, ?_, hL.joda.parse_print zone e.timestamp.dt⟩
    rw [field_required e (by decide) (by decide)]
    rfl
  action := ⟨_, by rw [field_required e (by decide) (by decide)]; rfl, named_actionWrites e.action⟩
  size := by rw [field_required e (by decide) (by decide)]; rfl
  seconds := by rw [field_required e (by decide) (by decide)]; rfl
  ackState := by
    rw [field_ackState]
    exact nullable_writeNullable named_ackWrites e.ackState
  receiptFor := by
    rw [field_receiptFor]
    exact nullable_writeNullable (fun id => stringObject_write "id" id.id) e.receiptFor

/-! ## Round trips -/

theorem parse_eventToJson (hL : L.Documented) (e : Event) :
    L.json.parse (eventToJson L e) = .ok (.object (eventFields L e)) :=
  hL.json.parse_stringify (eventWrites L e) (eventWrites_wf e)

theorem jsonToEvent_eventToJson (hL : L.Documented) (e : Event) :
    jsonToEvent L zone (eventToJson L e) = .ok (some (e.inZone zone)) :=
  jsonToEvent_eq_some.2 ⟨_, parse_eventToJson hL e, eventJson_eventFields hL e⟩

/-- A decoded event is in the reader's zone. -/
theorem zone_of_decoded (hL : L.Documented) {s : String} {e : Event} (h : jsonToEvent L zone s = .ok (some e)) :
    e.inZone zone = e := by
  obtain ⟨fields, -, hfields⟩ := jsonToEvent_eq_some.1 h
  obtain ⟨text, -, hparse⟩ := hfields.timestamp
  have hz : e.timestamp.dt.zone = zone := hL.joda.parse_zone zone text _ hparse
  rw [← hz]
  exact e.inZone_self

/-- **Events survive the codec.** Read in any zone, an encoded event comes
back with every field and its instant, its zone now the reader's; and an
event that was read comes back as it is. -/
theorem roundTrip (hL : L.Documented) (zone : DateTimeZone) :
    (∀ e, jsonToEvent L zone (eventToJson L e) = .ok (some (e.inZone zone))) ∧
      ∀ s e, jsonToEvent L zone s = .ok (some e) → jsonToEvent L zone (eventToJson L e) = .ok (some e) := by
  refine ⟨fun e => jsonToEvent_eventToJson hL e, ?_⟩
  intro s e h
  rw [jsonToEvent_eventToJson hL e, zone_of_decoded hL h]

theorem roundTrip_specEvent : textLibs.Documented ∧
    jsonToEvent textLibs utc (eventToJson textLibs JsonCodexSpec.event) = .ok (some (JsonCodexSpec.event.inZone utc)) ∧
    jsonToEvent textLibs utc (eventToJson textLibs (JsonCodexSpec.event.inZone utc)) =
      .ok (some (JsonCodexSpec.event.inZone utc)) := by
  have h := (roundTrip textLibs_documented utc).1 JsonCodexSpec.event
  exact ⟨textLibs_documented, h, (roundTrip textLibs_documented utc).2 _ _ h⟩

/-! ## Texts -/

/-- Decoding the event's text in a process of the zone and encoding it again gives the text. -/
def TextRoundTrips (L : Libs) (zone : DateTimeZone) (e : Event) : Prop :=
  ∃ e', jsonToEvent L zone (eventToJson L e) = .ok (some e') ∧ eventToJson L e' = eventToJson L e

/-- Of two encodings of one event in different zones, only the time stamp can differ. -/
theorem eventToJson_inZone_iff (hL : L.Documented) (e : Event) :
    eventToJson L (e.inZone zone) = eventToJson L e ↔
      L.joda.print ⟨e.millis, zone⟩ = L.joda.print ⟨e.millis, e.timestamp.dt.zone⟩ := by
  constructor
  · intro h
    have hwrites := hL.json.stringify_injective (eventWrites_wf (e.inZone zone)) (eventWrites_wf e) h
    have hfields : eventFields L (e.inZone zone) = eventFields L e := by
      simpa only [eventWrites_eq, JsValue.object.injEq] using hwrites
    have hstamp := congrArg (fun fields => JsValue.field fields "timestamp") hfields
    simp only [field_required _ (show "timestamp" ≠ "ackState" by decide) (show "timestamp" ≠ "receiptFor" by decide)]
      at hstamp
    exact JsValue.string.inj (Option.some.inj hstamp)
  · intro h
    have hstamp : TimeStampFormat.writes L (e.inZone zone).timestamp = TimeStampFormat.writes L e.timestamp :=
      congrArg JsValue.string h
    rw [eventToJson, eventToJson, eventWrites_eq, eventWrites_eq, eventFields, hstamp]
    rfl

/-- **When texts survive.** The text comes back exactly when the reader's
default zone has, at the event's instant, the offset of the zone the event
is expressed in: the reader keeps the instant, not the zone. -/
theorem text_roundTrip_iff (hL : L.Documented) (zone : DateTimeZone) (e : Event) :
    TextRoundTrips L zone e ↔ L.joda.getOffset zone e.millis = L.joda.getOffset e.timestamp.dt.zone e.millis := by
  rw [← hL.joda.print_eq_iff, ← eventToJson_inZone_iff hL, TextRoundTrips]
  constructor
  · intro ⟨e', hdec, htext⟩
    rw [jsonToEvent_eventToJson hL, Except.ok.injEq, Option.some.injEq] at hdec
    rw [hdec]
    exact htext
  · intro h
    exact ⟨e.inZone zone, jsonToEvent_eventToJson hL e, h⟩

/-- Where the event was written, its text comes back. -/
theorem text_roundTrip_losAngeles : textLibs.Documented ∧ TextRoundTrips textLibs losAngeles JsonCodexSpec.event :=
  ⟨textLibs_documented, (text_roundTrip_iff textLibs_documented losAngeles JsonCodexSpec.event).2 rfl⟩

/-- In UTC, `13:00:00.000-08:00` comes back as `21:00:00.000Z`. -/
theorem text_changed_in_utc : textLibs.Documented ∧ ¬ TextRoundTrips textLibs utc JsonCodexSpec.event := by
  refine ⟨textLibs_documented, ?_⟩
  intro ⟨e', hdec, htext⟩
  rw [jsonToEvent_eventToJson textLibs_documented, Except.ok.injEq, Option.some.injEq] at hdec
  rw [← hdec] at htext
  have hne : eventToJson textLibs (JsonCodexSpec.event.inZone utc) ≠ eventToJson textLibs JsonCodexSpec.event := by
    decide +kernel
  exact hne htext

end JsonCodex

end TransferDashboard
