/-
What the event decoder accepts, and that it undoes the encoder.

`EventJson` is the shape of an event's JSON, field by field, with no reader
in sight; `eventReads_eq_success` is that the reader accepts exactly it.
Round trips in both directions are then facts about `EventJson` and the
writer alone.
-/
import TransferDashboard.JsonCodex

namespace TransferDashboard

open Scala Fallible Joda Json

namespace JsonCodex

variable {L : Libs} {zone : DateTimeZone}

/-! ## The grammar -/

/-- An object whose `key` is the string `s`. -/
def StringObject (key : String) (v : JsValue) (s : String) : Prop :=
  ∃ fields, v = .object fields ∧ JsValue.field fields key = some (.string s)

/-- A string that names `a`, after the table. -/
def Named {α : Type} (table : List (String × α)) (v : JsValue) (a : α) : Prop :=
  ∃ s, v = .string s ∧ (s, a) ∈ table

def actionNames : List (String × Action) := [("Send", .send), ("Received", .receive), ("Error", .error)]

def ackStateNames : List (String × AckState) := [("AckPending", .ackPending), ("AckReceived", .ackReceived)]

/-- A key absent or `null`, or a value that reads as `P` says. -/
def Nullable {α : Type} (P : JsValue → α → Prop) (v : Option JsValue) : Option α → Prop
  | none => v = none ∨ v = some .null
  | some a => ∃ w, v = some w ∧ P w a

/-- The JSON of the event `e`, other keys being ignored. -/
structure EventJson (L : Libs) (zone : DateTimeZone) (fields : List (String × JsValue)) (e : Event) : Prop where
  eventId : ∃ v, JsValue.field fields "eventId" = some v ∧ StringObject "id" v e.eventId.id
  partner : ∃ v, JsValue.field fields "partner" = some v ∧ StringObject "name" v e.partner.name
  timestamp : ∃ s, JsValue.field fields "timestamp" = some (.string s) ∧
    Time.stringToDateTime L.joda zone s = .ok e.timestamp.dt
  action : ∃ v, JsValue.field fields "action" = some v ∧ Named actionNames v e.action
  size : JsValue.field fields "size" = some (.number (.ofInt e.size.toInt))
  seconds : JsValue.field fields "seconds" = some (.number (.ofInt e.seconds.toInt))
  ackState : Nullable (Named ackStateNames) (JsValue.field fields "ackState") e.ackState
  receiptFor : Nullable (fun v id => StringObject "id" v id.id) (JsValue.field fields "receiptFor") e.receiptFor

/-! ## The readers accept the grammar -/

theorem timeStampReads_eq_success {v : JsValue} {t : TimeStamp} :
    TimeStampFormat.reads L zone v = .success t ↔
      ∃ s, v = .string s ∧ Time.stringToDateTime L.joda zone s = .ok t.dt := by
  cases v with
  | string s =>
    simp only [TimeStampFormat.reads, JsValue.string.injEq, exists_eq_left']
    cases Time.stringToDateTime L.joda zone s with
    | ok dt =>
      simp only [JsResult.success.injEq, Except.ok.injEq]
      exact ⟨fun h => h ▸ rfl, fun h => by cases t; exact congrArg _ h⟩
    | error e => simp
  | _ => simp [TimeStampFormat.reads]

theorem actionReads_eq_success {v : JsValue} {a : Action} :
    ActionFormat.reads v = .success a ↔ Named actionNames v a := by
  simp only [Named, actionNames]
  unfold ActionFormat.reads
  split <;> cases a <;> simp_all

theorem ackReads_eq_success {v : JsValue} {a : AckState} :
    AckFormat.reads v = .success a ↔ Named ackStateNames v a := by
  simp only [Named, ackStateNames]
  unfold AckFormat.reads
  split <;> cases a <;> simp_all

/-- A case class of one string. -/
theorem stringObject_iff {key s : String} {v : JsValue} :
    v.get? key = some (.string s) ↔ StringObject key v s := by
  cases v <;> simp [JsValue.get?, StringObject]

theorem eventIdReads_eq_success {v : JsValue} {e : EventId} :
    eventIdReads v = .success e ↔ StringObject "id" v e.id := by
  simp only [eventIdReads, JsResult.map_eq_success, Reads.path_eq_success, Reads.string_eq_success,
    exists_eq_right, stringObject_iff]
  refine ⟨fun h => ?_, fun h => ⟨_, h, rfl⟩⟩
  obtain ⟨s, hs, rfl⟩ := h
  exact hs

theorem partnerReads_eq_success {v : JsValue} {p : Partner} :
    partnerReads v = .success p ↔ StringObject "name" v p.name := by
  simp only [partnerReads, JsResult.map_eq_success, Reads.path_eq_success, Reads.string_eq_success,
    exists_eq_right, stringObject_iff]
  refine ⟨fun h => ?_, fun h => ⟨_, h, rfl⟩⟩
  obtain ⟨s, hs, rfl⟩ := h
  exact hs

/-- A nullable field whose reader accepts `P`, which holds of no `null`. -/
theorem pathNullable_iff {α : Type} {key : String} {r : Reads α} {P : JsValue → α → Prop}
    {fields : List (String × JsValue)} {o : Option α} (hr : ∀ v a, r v = .success a ↔ P v a)
    (hnull : ∀ a, ¬ P .null a) :
    Reads.pathNullable key r (.object fields) = .success o ↔ Nullable P (JsValue.field fields key) o := by
  rw [Reads.pathNullable_eq_success fun a h => hnull a ((hr _ _).1 h)]
  cases o with
  | none => simp [Nullable, JsValue.get?]
  | some a => simp [Nullable, JsValue.get?, hr]

/-- **The reader accepts exactly the grammar.** -/
theorem eventReads_eq_success {v : JsValue} {e : Event} :
    eventReads L zone v = .success e ↔ ∃ fields, v = .object fields ∧ EventJson L zone fields e := by
  constructor
  · intro h
    simp only [eventReads, JsResult.seq_eq_success, JsResult.map_eq_success, Reads.path_eq_success,
      Reads.int_eq_success] at h
    obtain ⟨_, _, ⟨_, _, ⟨_, _, ⟨_, _, ⟨_, _, ⟨_, _, ⟨_, _, ⟨_, hid, rfl⟩, hp, rfl⟩, ht, rfl⟩, ha, rfl⟩, hsz, rfl⟩,
      hsec, rfl⟩, hack, rfl⟩, hr, rfl⟩ := h
    obtain ⟨fields, rfl⟩ := JsValue.get?_eq_some hid.choose_spec.1
    refine ⟨fields, rfl, ⟨?_, ?_, ?_, ?_, ?_, ?_, ?_, ?_⟩⟩
    · simpa only [eventIdReads_eq_success, JsValue.get?_object] using hid
    · simpa only [partnerReads_eq_success, JsValue.get?_object] using hp
    · obtain ⟨w, hw, hread⟩ := ht
      obtain ⟨s, rfl, hs⟩ := timeStampReads_eq_success.1 hread
      exact ⟨s, hw, hs⟩
    · simpa only [actionReads_eq_success, JsValue.get?_object] using ha
    · obtain ⟨w, hw, rfl⟩ := hsz; exact hw
    · obtain ⟨w, hw, rfl⟩ := hsec; exact hw
    · exact (pathNullable_iff (fun _ _ => ackReads_eq_success) (by simp [Named])).1 hack
    · exact (pathNullable_iff (fun _ _ => eventIdReads_eq_success) (by simp [StringObject])).1 hr
  · intro hv
    obtain ⟨fields, rfl, h⟩ := hv
    obtain ⟨v₁, hv₁, h₁⟩ := h.eventId
    obtain ⟨v₂, hv₂, h₂⟩ := h.partner
    obtain ⟨s, hs, h₃⟩ := h.timestamp
    obtain ⟨v₄, hv₄, h₄⟩ := h.action
    simp only [eventReads, JsResult.seq_eq_success, JsResult.map_eq_success, Reads.path_eq_success,
      Reads.int_eq_success]
    exact ⟨_, _, ⟨_, _, ⟨_, _, ⟨_, _, ⟨_, _, ⟨_, _, ⟨_, _, ⟨_, ⟨v₁, hv₁, eventIdReads_eq_success.2 h₁⟩, rfl⟩,
      ⟨v₂, hv₂, partnerReads_eq_success.2 h₂⟩, rfl⟩, ⟨_, hs, timeStampReads_eq_success.2 ⟨s, rfl, h₃⟩⟩, rfl⟩,
      ⟨v₄, hv₄, actionReads_eq_success.2 h₄⟩, rfl⟩, ⟨_, h.size, rfl⟩, rfl⟩, ⟨_, h.seconds, rfl⟩, rfl⟩,
      (pathNullable_iff (fun _ _ => ackReads_eq_success) (by simp [Named])).2 h.ackState, rfl⟩,
      (pathNullable_iff (fun _ _ => eventIdReads_eq_success) (by simp [StringObject])).2 h.receiptFor, rfl⟩

theorem jsonToEvent_eq_some {s : String} {e : Event} : jsonToEvent L zone s = .ok (some e) ↔
    ∃ fields, L.json.parse s = .ok (.object fields) ∧ EventJson L zone fields e := by
  simp only [jsonToEvent, bind_eq_ok, Except.ok.injEq, JsResult.asOpt_eq_some, eventReads_eq_success]
  refine ⟨fun h => ?_, fun h => ?_⟩
  · obtain ⟨_, hp, fields, rfl, hfields⟩ := h
    exact ⟨fields, hp, hfields⟩
  · obtain ⟨fields, hp, hfields⟩ := h
    exact ⟨_, hp, fields, rfl, hfields⟩

theorem jsonToEvent_returns_iff {s : String} :
    (∃ r, jsonToEvent L zone s = .ok r) ↔ ∃ v, L.json.parse s = .ok v := by
  simp only [jsonToEvent, bind_eq_ok, Except.ok.injEq]
  refine ⟨fun h => ?_, fun h => ?_⟩
  · obtain ⟨_, v, hv, -⟩ := h
    exact ⟨v, hv⟩
  · obtain ⟨v, hv⟩ := h
    exact ⟨_, v, hv, rfl⟩

end JsonCodex

end TransferDashboard
