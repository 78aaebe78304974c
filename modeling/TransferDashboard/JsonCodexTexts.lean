/-
What an event's text shows, and what of a text the decoder reads.

The text shows everything of an event but the name of its zone, of which it
shows the offset (`eventToJson_eq_iff`). Of an object the decoder reads eight
keys, in whatever order they stand and among whatever others, and of the two
optional ones it does not tell `null` from a key that is missing
(`jsonToEvent_of_agree`).
-/
import TransferDashboard.JsonCodexRoundTrip

namespace TransferDashboard

open Scala Joda Json

namespace JsonCodex

variable {L : Libs} {zone : DateTimeZone}

/-! ## What a text shows -/

/-- **Texts tell events apart.** Two events have one text exactly when they
are one event looked at in two zones that have one offset at its instant. -/
theorem eventToJson_eq_iff (hL : L.Documented) (e e' : Event) : eventToJson L e = eventToJson L e' ↔
    e' = e.inZone e'.timestamp.dt.zone ∧
      L.joda.getOffset e.timestamp.dt.zone e.millis = L.joda.getOffset e'.timestamp.dt.zone e.millis := by
  have hsame : e' = e.inZone e'.timestamp.dt.zone → (eventToJson L e = eventToJson L e' ↔
      L.joda.getOffset e.timestamp.dt.zone e.millis = L.joda.getOffset e'.timestamp.dt.zone e.millis) := by
    intro he
    rw [eq_comm, he, eventToJson_inZone_iff hL, hL.joda.print_eq_iff, Event.inZone_zone, eq_comm]
  refine ⟨fun h => ?_, fun ⟨he, hoffset⟩ => (hsame he).2 hoffset⟩
  -- Both texts are read in the second's zone, where it comes back as it is.
  have hread : jsonToEvent L e'.timestamp.dt.zone (eventToJson L e) = .ok (some (e.inZone e'.timestamp.dt.zone)) :=
    jsonToEvent_eventToJson hL e
  rw [h, jsonToEvent_eventToJson hL e', Except.ok.injEq, Option.some.injEq, Event.inZone_self] at hread
  exact ⟨hread, (hsame hread).1 h⟩

/-- The event of the specification in two zones of one offset. -/
theorem eventToJson_eq_utc : textLibs.Documented ∧ eventToJson textLibs (JsonCodexSpec.event.inZone utc) =
    eventToJson textLibs (JsonCodexSpec.event.inZone ⟨"Etc/UTC"⟩) :=
  ⟨textLibs_documented, (eventToJson_eq_iff textLibs_documented _ _).2 ⟨rfl, rfl⟩⟩

/-! ## What is read of a text -/

/-- What there is under an optional key: `null` is nothing. -/
def present : Option JsValue → Option JsValue
  | some .null => none
  | v => v

/-- Two objects that have the same under the keys of an event. -/
structure Agree (fields fields' : List (String × JsValue)) : Prop where
  required : ∀ key ∈ ["eventId", "partner", "timestamp", "action", "size", "seconds"],
    JsValue.field fields key = JsValue.field fields' key
  optional : ∀ key ∈ ["ackState", "receiptFor"],
    present (JsValue.field fields key) = present (JsValue.field fields' key)

theorem Agree.symm {fields fields' : List (String × JsValue)} (h : Agree fields fields') : Agree fields' fields :=
  ⟨fun key hkey => (h.required key hkey).symm, fun key hkey => (h.optional key hkey).symm⟩

/-- Where `null` is no value, an optional key is read for what is present. -/
theorem nullable_of_present {α : Type} {P : JsValue → α → Prop} (hnull : ∀ a, ¬ P .null a) {v v' : Option JsValue}
    {o : Option α} (heq : present v = present v') (h : Nullable P v o) : Nullable P v' o := by
  cases o with
  | none =>
    rcases h with rfl | rfl <;> rcases v' with _ | w <;> try cases w
    all_goals simp_all [present, Nullable]
  | some a =>
    obtain ⟨w, rfl, hw⟩ := h
    have hv : present (some w) = some w := by
      cases w with
      | null => exact absurd hw (hnull a)
      | _ => rfl
    rw [hv] at heq
    refine ⟨w, ?_, hw⟩
    rcases v' with _ | w' <;> try cases w'
    all_goals simp_all [present]

theorem Agree.eventJson {fields fields' : List (String × JsValue)} (h : Agree fields fields') {e : Event}
    (he : EventJson L zone fields e) : EventJson L zone fields' e where
  eventId := h.required "eventId" (by simp) ▸ he.eventId
  partner := h.required "partner" (by simp) ▸ he.partner
  timestamp := h.required "timestamp" (by simp) ▸ he.timestamp
  action := h.required "action" (by simp) ▸ he.action
  size := h.required "size" (by simp) ▸ he.size
  seconds := h.required "seconds" (by simp) ▸ he.seconds
  ackState := nullable_of_present (by simp [Named]) (h.optional "ackState" (by simp)) he.ackState
  receiptFor := nullable_of_present (by simp [StringObject]) (h.optional "receiptFor" (by simp)) he.receiptFor

/-- **Only its keys count.** Two texts of objects that agree on the eight keys
of an event are decoded alike, whatever else they hold, in whatever order,
and whether an optional key is `null` or missing. -/
theorem jsonToEvent_of_agree (L : Libs) (zone : DateTimeZone) {s s' : String} {fields fields' : List (String × JsValue)}
    (hs : L.json.parse s = .ok (.object fields)) (hs' : L.json.parse s' = .ok (.object fields'))
    (h : Agree fields fields') : jsonToEvent L zone s = jsonToEvent L zone s' := by
  obtain ⟨o, ho⟩ : ∃ o, jsonToEvent L zone s = .ok o := jsonToEvent_returns_iff.2 ⟨_, hs⟩
  obtain ⟨o', ho'⟩ : ∃ o', jsonToEvent L zone s' = .ok o' := jsonToEvent_returns_iff.2 ⟨_, hs'⟩
  have himp : ∀ {t t' f f'} {r : Event}, L.json.parse t = .ok (.object f) → L.json.parse t' = .ok (.object f') →
      Agree f f' → jsonToEvent L zone t = .ok (some r) → jsonToEvent L zone t' = .ok (some r) := by
    intro t t' f f' r ht ht' hagree hr
    obtain ⟨g, hg, hevent⟩ := jsonToEvent_eq_some.1 hr
    rw [ht, Except.ok.injEq, JsValue.object.injEq] at hg
    exact jsonToEvent_eq_some.2 ⟨f', ht', hagree.eventJson (hg ▸ hevent)⟩
  cases o with
  | some e => rw [ho, himp hs hs' h ho]
  | none =>
    cases o' with
    | none => rw [ho, ho']
    | some e =>
      rw [himp hs' hs h.symm ho'] at ho
      cases ho

/-- The fields of the specification's event, in another order, one of them
`null` and one of no meaning. -/
def noted : List (String × JsValue) :=
  ("note", .string "late") :: ("ackState", .null) :: (eventFields textLibs JsonCodexSpec.event).reverse

theorem noted_wf : (JsValue.object noted).Wf := by
  obtain ⟨hkeys, hvalues⟩ : ((eventFields textLibs JsonCodexSpec.event).map Prod.fst).Nodup ∧
      ∀ f ∈ eventFields textLibs JsonCodexSpec.event, f.2.Wf := by
    cases eventWrites_wf (L := textLibs) JsonCodexSpec.event with
    | object hkeys hvalues => exact ⟨hkeys, hvalues⟩
  refine .object (by decide +kernel) fun f hf => ?_
  rcases List.mem_cons.1 hf with rfl | hf
  · exact .string _
  rcases List.mem_cons.1 hf with rfl | hf
  · exact .null
  · exact hvalues f (List.mem_reverse.1 hf)

theorem noted_agrees : Agree noted (eventFields textLibs JsonCodexSpec.event) where
  required key hkey := by
    simp only [List.mem_cons, List.not_mem_nil, or_false] at hkey
    rcases hkey with rfl | rfl | rfl | rfl | rfl | rfl <;> rfl
  optional key hkey := by
    simp only [List.mem_cons, List.not_mem_nil, or_false] at hkey
    rcases hkey with rfl | rfl <;> rfl

theorem noted_decoded : ∃ s, textLibs.json.parse s = .ok (.object noted) ∧
    jsonToEvent textLibs utc s = jsonToEvent textLibs utc (eventToJson textLibs JsonCodexSpec.event) := by
  have hparse := textLibs_documented.json.parse_stringify _ noted_wf
  exact ⟨_, hparse, jsonToEvent_of_agree textLibs utc hparse (parse_eventToJson textLibs_documented _) noted_agrees⟩

end JsonCodex

end TransferDashboard
