/-
What a message comes to.

A payload that is an event ends in one request, whose points are those of
the event (`processMessage_event`). Any other payload is answered with a
failed future, unless it is no JSON text at all: then `Json.parse` throws
through the codec and through `processMessage` (`decodesExactly_iff`).
-/
import TransferDashboard.EventPointFacts
import TransferDashboard.Graph
import TransferDashboard.JsonCodexRoundTrip

namespace TransferDashboard

open Scala Joda Json Random EventPoint

namespace Graph

variable {P σ : Type} {env : Env P σ}

/-- The insert of an event under two draws. -/
def insertOf (db : InfluxDBDriver) (e : Event) (d : Fin 100000 × Fin 100000) : Future WriteRequest Unit :=
  ((db.onDb (requestOf e d)).map fun _ => ()).recover dbInsertFailed

theorem processMessage_of_some {payload : String} {e : Event} {random : σ}
    (h : JsonCodex.jsonToEvent env.libs env.zone payload = .ok (some e)) : processMessage env payload random =
      (.ok (insertOf env.db e (draws env.random random)), afterDraws env.random random) := by
  unfold processMessage insertOf
  rw [h]
  simp only [buildTimeSeriesPoints_eq, insertPoints_event]

theorem processMessage_of_none {payload : String} {random : σ}
    (h : JsonCodex.jsonToEvent env.libs env.zone payload = .ok none) :
    processMessage env payload random = (.ok (.failed cannotConvert), random) := by
  unfold processMessage
  rw [h]

theorem processMessage_of_error {payload : String} {random : σ} {e : Throwable}
    (h : JsonCodex.jsonToEvent env.libs env.zone payload = .error e) :
    processMessage env payload random = (.error e, random) := by
  unfold processMessage
  rw [h]

/-- What a message comes to: the decoder throws, or there is no event in it, or an event is inserted. -/
theorem processMessage_cases {payload : String} {random random' : σ} {r : Try (Future WriteRequest Unit)}
    (h : processMessage env payload random = (r, random')) :
    (∃ e, JsonCodex.jsonToEvent env.libs env.zone payload = .error e ∧ r = .error e ∧ random' = random) ∨
    (JsonCodex.jsonToEvent env.libs env.zone payload = .ok none ∧ r = .ok (.failed cannotConvert) ∧ random' = random) ∨
    ∃ e, JsonCodex.jsonToEvent env.libs env.zone payload = .ok (some e) ∧
      r = .ok (insertOf env.db e (draws env.random random)) ∧ random' = afterDraws env.random random := by
  cases hdec : JsonCodex.jsonToEvent env.libs env.zone payload with
  | error e =>
    rw [processMessage_of_error hdec, Prod.mk.injEq] at h
    exact .inl ⟨e, rfl, h.1.symm, h.2.symm⟩
  | ok o =>
    cases o with
    | none =>
      rw [processMessage_of_none hdec, Prod.mk.injEq] at h
      exact .inr (.inl ⟨rfl, h.1.symm, h.2.symm⟩)
    | some e =>
      rw [processMessage_of_some hdec, Prod.mk.injEq] at h
      exact .inr (.inr ⟨e, rfl, h.1.symm, h.2.symm⟩)

theorem insertOf_requests {db : InfluxDBDriver} (hdb : db.dbFuture = .ok ()) (e : Event)
    (d : Fin 100000 × Fin 100000) : (insertOf db e d).requests = [requestOf e d] := by
  simp only [insertOf, InfluxDBDriver.onDb, hdb, Future.requests_recover, Future.requests_map, Future.requests_request]

theorem insertOf_outcome {db : InfluxDBDriver} (hdb : db.dbFuture = .ok ()) (e : Event)
    (d : Fin 100000 × Fin 100000) (b : Bool) : (insertOf db e d).outcome [.ok b] = .ok () := by
  simp only [insertOf, InfluxDBDriver.onDb, hdb]
  rfl

/-- An insert succeeds only when some request of its was answered with a Boolean. -/
theorem insertOf_answered {db : InfluxDBDriver} {e : Event} {d : Fin 100000 × Fin 100000} {answers : List (Try Bool)}
    (hlen : answers.length = (insertOf db e d).requests.length) (hok : (insertOf db e d).outcome answers = .ok ()) :
    ∃ a ∈ answers, (Try.success? a).isSome = true := by
  obtain ⟨b, hb, -⟩ := Future.outcome_map_recover.1 hok
  simp only [insertOf, Future.requests_recover, Future.requests_map] at hlen
  unfold InfluxDBDriver.onDb at hlen hb
  split at hb
  next hdb =>
    rw [hdb, Future.requests_request] at hlen
    obtain ⟨a, rfl⟩ := List.length_eq_one_iff.1 hlen
    rw [Future.outcome_request] at hb
    exact ⟨a, List.mem_singleton_self a, by rw [hb]; rfl⟩
  · cases hb

theorem answered_of_ok {payload : String} {random random' : σ} {insert : Future WriteRequest Unit}
    {answers : List (Try Bool)} (h : processMessage env payload random = (.ok insert, random'))
    (hlen : answers.length = insert.requests.length) (hok : insert.outcome answers = .ok ()) :
    ∃ a ∈ answers, (Try.success? a).isSome = true := by
  cases hdec : JsonCodex.jsonToEvent env.libs env.zone payload with
  | error e =>
    rw [processMessage_of_error hdec] at h
    cases h
  | ok o =>
    cases o with
    | none =>
      rw [processMessage_of_none hdec, Prod.mk.injEq, Except.ok.injEq] at h
      rw [← h.1] at hok
      cases hok
    | some e =>
      rw [processMessage_of_some hdec, Prod.mk.injEq, Except.ok.injEq] at h
      rw [← h.1] at hlen hok
      exact insertOf_answered hlen hok

/-- What throws draws nothing. -/
theorem random_of_throws {payload : String} {random random' : σ} {e : Throwable}
    (h : processMessage env payload random = (.error e, random')) : random' = random := by
  cases hdec : JsonCodex.jsonToEvent env.libs env.zone payload with
  | error e =>
    rw [processMessage_of_error hdec, Prod.mk.injEq] at h
    exact h.2.symm
  | ok o =>
    cases o with
    | none => rw [processMessage_of_none hdec] at h; cases h
    | some e => rw [processMessage_of_some hdec] at h; cases h

/-- A consumer in UTC of one partition, as a fresh JVM starts it. -/
def textEnv : Env Unit Java.Seed where
  libs := textLibs
  zone := utc
  random := javaRandom
  seed := Java.scramble 123321
  db := ⟨.ok ()⟩
  partitioner _ := ()

/-! ## What the decoder promises -/

/-- The decoder returns, it gives an event exactly for the grammar, and for
everything else `processMessage` answers with its own failure. -/
def DecodesExactly (env : Env P σ) (payload : String) : Prop :=
  (∃ r, JsonCodex.jsonToEvent env.libs env.zone payload = .ok r) ∧
    (∀ e, JsonCodex.jsonToEvent env.libs env.zone payload = .ok (some e) ↔
      ∃ fields, env.libs.json.parse payload = .ok (.object fields) ∧ JsonCodex.EventJson env.libs env.zone fields e) ∧
    ((¬ ∃ fields e, env.libs.json.parse payload = .ok (.object fields) ∧
        JsonCodex.EventJson env.libs env.zone fields e) →
      JsonCodex.jsonToEvent env.libs env.zone payload = .ok none ∧
        ∀ random, processMessage env payload random = (.ok (.failed cannotConvert), random))

/-- **What the decoder keeps of its promise.** It keeps all of it for every
text `Json.parse` accepts, an event's or not, and breaks it for every other. -/
theorem decodesExactly_iff (env : Env P σ) (payload : String) :
    DecodesExactly env payload ↔ ∃ v, env.libs.json.parse payload = .ok v := by
  constructor
  · intro h
    exact JsonCodex.jsonToEvent_returns_iff.1 h.1
  · intro hparse
    have hret : ∃ r, JsonCodex.jsonToEvent env.libs env.zone payload = .ok r := JsonCodex.jsonToEvent_returns_iff.2 hparse
    refine ⟨hret, fun e => JsonCodex.jsonToEvent_eq_some, ?_⟩
    intro hno
    obtain ⟨r, hr⟩ := hret
    cases r with
    | none => exact ⟨hr, fun random => processMessage_of_none hr⟩
    | some e =>
      obtain ⟨fields, hfields⟩ := JsonCodex.jsonToEvent_eq_some.1 hr
      exact absurd ⟨fields, e, hfields⟩ hno

/-- Text that breaks off: the exception leaves `jsonToEvent`, and `processMessage` has no future to give. -/
theorem malformed_throws : ¬ DecodesExactly textEnv "\x7b" ∧
    JsonCodex.jsonToEvent textLibs utc "\x7b" = .error (Json.Text.notJson "\x7b") ∧
      (processMessage textEnv "\x7b" textEnv.seed).1 = .error (Json.Text.notJson "\x7b") := by
  have herr : JsonCodex.jsonToEvent textEnv.libs textEnv.zone "\x7b" = .error (Json.Text.notJson "\x7b") := rfl
  refine ⟨?_, herr, ?_⟩
  · intro h
    obtain ⟨r, hr⟩ := h.1
    rw [herr] at hr
    cases hr
  · rw [processMessage_of_error herr]

/-! ## From event to request -/

/-- The `type` tag: the direction, and whether an acknowledgement is awaited or given. -/
def typeTag (action : Action) (async : Bool) : String :=
  (match action with
    | .send => "send"
    | .receive => "receive"
    | .error => "error") ++ if async then "async" else ""

theorem transferType_eq (e : Event) : transferType e = typeTag e.action e.ackState.isSome := by
  unfold transferType
  split <;> simp_all [typeTag]

@[simp] theorem pointsOf_inZone (e : Event) (zone : DateTimeZone) (d : Fin 100000 × Fin 100000) :
    pointsOf (e.inZone zone) d = pointsOf e d := rfl

@[simp] theorem requestOf_inZone (e : Event) (zone : DateTimeZone) (d : Fin 100000 × Fin 100000) :
    requestOf (e.inZone zone) d = requestOf e d := rfl

theorem eventOf_eventToJson (hL : env.libs.Documented) (e : Event) :
    eventOf env (JsonCodex.eventToJson env.libs e) = some (e.inZone env.zone) := by
  rw [eventOf, JsonCodex.jsonToEvent_eventToJson hL e]

/-- A loaded event, processed. -/
theorem processMessage_eventToJson (hL : env.libs.Documented) (e : Event) (random : σ) :
    processMessage env (JsonCodex.eventToJson env.libs e) random =
      (.ok (insertOf env.db e (draws env.random random)), afterDraws env.random random) := by
  rw [processMessage_of_some (JsonCodex.jsonToEvent_eventToJson hL e), insertOf, requestOf_inZone]
  rfl

/-- **From an event to its two rows.** The text an event is loaded as, taken
by `processMessage` with the database there, asks for exactly one bulk
write, in nanoseconds, of the size and the seconds of the event under its
partner and its type, each stamped with a draw of its own; and it succeeds
when the write is answered. -/
theorem processMessage_event (env : Env P σ) (hL : env.libs.Documented) (hdb : env.db.dbFuture = .ok ()) (e : Event)
    (random : σ) : ∃ insert : Future WriteRequest Unit, ∃ random' : σ,
      processMessage env (Loader.loadEvent env.libs e).value random = (.ok insert, random') ∧
      insert.requests = [.bulkWrite
        [{ measurement := "transferred_bytes"
           timestamp := some (fuzzMilliseconds env.random e.millis random).1
           tags := {("partner", e.partner.name), ("type", typeTag e.action e.ackState.isSome)}
           fields := {("filesize", .long e.size.toInt64)} },
         { measurement := "transfer_seconds"
           timestamp := some (fuzzMilliseconds env.random e.millis (fuzzMilliseconds env.random e.millis random).2).1
           tags := {("partner", e.partner.name), ("type", typeTag e.action e.ackState.isSome)}
           fields := {("seconds", .long e.seconds.toInt64)} }] .nanoseconds] ∧
      ∀ b : Bool, insert.outcome [.ok b] = .ok () := by
  refine ⟨_, _, processMessage_eventToJson hL e random, ?_, insertOf_outcome hdb e _⟩
  rw [insertOf_requests hdb]
  simp only [requestOf, clientPointsOf, clientPoint, transferType_eq]
  rfl

theorem processMessage_specEvent : textLibs.Documented ∧ ∃ insert : Future WriteRequest Unit, ∃ random' : Java.Seed,
    processMessage textEnv (Loader.loadEvent textLibs JsonCodexSpec.event).value textEnv.seed = (.ok insert, random') ∧
      insert.requests.length = 1 := by
  obtain ⟨insert, random', hmsg, hreq, -⟩ :=
    processMessage_event textEnv textLibs_documented rfl JsonCodexSpec.event textEnv.seed
  exact ⟨textLibs_documented, insert, random', hmsg, by rw [hreq]; rfl⟩

end Graph

end TransferDashboard
