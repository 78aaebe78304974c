/-
What the success of a message says of its inserts, for any driver in the
place of `db`.

A driver reports in two ways: its future fails, or it ends in a Boolean.
`processMessage` hands on the failure and drops the Boolean, so a message
succeeds exactly when its `insertPoints` ends in one, `false` or not
(`succeeds_iff`).
-/
import TransferDashboard.DBDriverFacts
import TransferDashboard.ProcessMessage

namespace TransferDashboard

open Scala Joda Json Random EventPoint

namespace Graph

variable {P σ ρ : Type}

/-- `processMessage` over a driver. -/
def processMessageWith (env : Env P σ) (driver : DBDriver ρ) (payload : String) (random : σ) :
    Try (Future ρ Unit) × σ :=
  match JsonCodex.jsonToEvent env.libs env.zone payload with
  | .error e => (.error e, random)
  | .ok none => (.ok (.failed cannotConvert), random)
  | .ok (some event) =>
    let (points, random) := buildTimeSeriesPoints env.random event random
    (.ok (((driver.insertPoints points).map fun _ => ()).recover dbInsertFailed), random)

/-- The consumer's own is the one over the driver for InfluxDB. -/
theorem processMessage_eq (env : Env P σ) : processMessage env = processMessageWith env env.db.driver := rfl

/-- The points of a payload that is an event. -/
def pointsFor (env : Env P σ) (payload : String) (random : σ) : Option (List TimeSeriesPoint) :=
  (eventOf env payload).map fun event => (buildTimeSeriesPoints env.random event random).1

section

variable (env : Env P σ) (payload : String) (random : σ) (answers : List (Try Bool))

/-- There is a future, and it completes successfully. -/
def Succeeds (driver : DBDriver ρ) : Prop :=
  ∃ insert, (processMessageWith env driver payload random).1 = .ok insert ∧ insert.outcome answers = .ok ()

/-- A success is that of an event, and of an `insertPoints` that reported `true`. -/
def OnlyIfStored (driver : DBDriver ρ) : Prop :=
  Succeeds env payload random answers driver →
    ∃ points, pointsFor env payload random = some points ∧ (driver.insertPoints points).outcome answers = .ok true

/-- A success is that of an event each of whose points was reported stored. -/
def OnlyIfEachStored (insertPoint : TimeSeriesPoint → Future ρ Bool) : Prop :=
  Succeeds env payload random answers (.ofInsertPoint insertPoint) →
    ∃ points, pointsFor env payload random = some points ∧
      ∀ x ∈ Future.outcomes (points.map insertPoint) answers, x = .ok true

end

variable {env : Env P σ} {payload : String} {random : σ} {answers : List (Try Bool)}

theorem succeeds_iff {driver : DBDriver ρ} : Succeeds env payload random answers driver ↔
    ∃ points, pointsFor env payload random = some points ∧
      ∃ b, (driver.insertPoints points).outcome answers = .ok b := by
  unfold Succeeds processMessageWith pointsFor eventOf
  cases hdec : JsonCodex.jsonToEvent env.libs env.zone payload with
  | error e => simp
  | ok o =>
    cases o with
    | none => simp
    | some event => simp [Future.outcome_map_recover]

/-- An event has two points, whoever inserts them. -/
theorem two_points {points : List TimeSeriesPoint} (h : pointsFor env payload random = some points) :
    ∃ size seconds, points = [size, seconds] := by
  obtain ⟨event, -, rfl⟩ := Option.map_eq_some_iff.1 h
  exact ⟨_, _, rfl⟩

theorem onlyIfStored_iff (driver : DBDriver ρ) : OnlyIfStored env payload random answers driver ↔
    ∀ points, pointsFor env payload random = some points →
      (driver.insertPoints points).outcome answers ≠ .ok false := by
  rw [OnlyIfStored, succeeds_iff]
  refine ⟨fun h points hpoints hfalse => ?_, fun h hsucc => ?_⟩
  · obtain ⟨points', hpoints', htrue⟩ := h ⟨points, hpoints, false, hfalse⟩
    rw [hpoints, Option.some.injEq] at hpoints'
    rw [← hpoints', hfalse] at htrue
    cases htrue
  · obtain ⟨points, hpoints, b, hb⟩ := hsucc
    cases b with
    | true => exact ⟨points, hpoints, hb⟩
    | false => exact absurd hb (h points hpoints)

/-- The default `insertPoints` ends in a Boolean when no insert of its fails. -/
theorem default_returns_iff {insertPoint : TimeSeriesPoint → Future ρ Bool} {points : List TimeSeriesPoint}
    (hpoints : pointsFor env payload random = some points) :
    (∃ b, ((DBDriver.ofInsertPoint insertPoint).insertPoints points).outcome answers = .ok b) ↔
      ¬ ∃ x ∈ Future.outcomes (points.map insertPoint) answers, ∃ e, x = .error e := by
  obtain ⟨size, seconds, rfl⟩ := two_points hpoints
  have hjoined : ((DBDriver.ofInsertPoint insertPoint).insertPoints [size, seconds]).outcome answers =
      (Try.sequence (Future.outcomes ([size, seconds].map insertPoint) answers) >>= reduceAnd) := rfl
  rw [hjoined, ← DBDriver.sequence_reduceAnd_fails (by simp [Future.outcomes])]
  cases Try.sequence (Future.outcomes ([size, seconds].map insertPoint) answers) >>= reduceAnd <;> simp

theorem onlyIfEachStored_iff (insertPoint : TimeSeriesPoint → Future ρ Bool) :
    OnlyIfEachStored env payload random answers insertPoint ↔
      ∀ points, pointsFor env payload random = some points →
        .ok false ∈ Future.outcomes (points.map insertPoint) answers →
          ∃ x ∈ Future.outcomes (points.map insertPoint) answers, ∃ e, x = .error e := by
  rw [OnlyIfEachStored, succeeds_iff]
  refine ⟨fun h points hpoints hfalse => ?_, fun h hsucc => ?_⟩
  · by_contra hno
    obtain ⟨points', hpoints', hall⟩ := h ⟨points, hpoints, (default_returns_iff hpoints).2 hno⟩
    rw [hpoints, Option.some.injEq] at hpoints'
    subst hpoints'
    cases hall _ hfalse
  · obtain ⟨points, hpoints, hreturns⟩ := hsucc
    have hno := (default_returns_iff hpoints).1 hreturns
    refine ⟨points, hpoints, fun x hx => ?_⟩
    match x, hx with
    | .error e, hx => exact absurd ⟨_, hx, e, rfl⟩ hno
    | .ok false, hx => exact absurd (h points hpoints hx) hno
    | .ok true, _ => rfl

/-- **When a success means stored.** Over any driver, exactly when its
`insertPoints` does not end in `false`; over one with the default
`insertPoints`, exactly when no insert of the event ends in `false` unless
another of them fails. -/
theorem stored_iff (env : Env P σ) (payload : String) (random : σ) (answers : List (Try Bool)) :
    (∀ driver : DBDriver ρ, OnlyIfStored env payload random answers driver ↔
      ∀ points, pointsFor env payload random = some points →
        (driver.insertPoints points).outcome answers ≠ .ok false) ∧
    ∀ insertPoint : TimeSeriesPoint → Future ρ Bool, OnlyIfEachStored env payload random answers insertPoint ↔
      ∀ points, pointsFor env payload random = some points →
        .ok false ∈ Future.outcomes (points.map insertPoint) answers →
          ∃ x ∈ Future.outcomes (points.map insertPoint) answers, ∃ e, x = .error e :=
  ⟨onlyIfStored_iff, onlyIfEachStored_iff⟩

/-- A driver that asks for each point, the second of which is not stored: the message succeeds. -/
theorem unstored_succeeds :
    let payload := JsonCodex.eventToJson textLibs JsonCodexSpec.event
    let answers := [.ok true, .ok false]
    Succeeds textEnv payload textEnv.seed answers (.ofInsertPoint Future.request) ∧
      ¬ OnlyIfStored textEnv payload textEnv.seed answers (.ofInsertPoint Future.request) ∧
        ¬ OnlyIfEachStored textEnv payload textEnv.seed answers Future.request := by
  intro payload answers
  have hevent : eventOf textEnv payload = some (JsonCodexSpec.event.inZone utc) :=
    eventOf_eventToJson textLibs_documented JsonCodexSpec.event
  have hpoints : pointsFor textEnv payload textEnv.seed =
      some (pointsOf (JsonCodexSpec.event.inZone utc) (draws textEnv.random textEnv.seed)) := by
    rw [pointsFor, hevent]
    rfl
  refine ⟨succeeds_iff.2 ⟨_, hpoints, false, rfl⟩, fun h => ?_, fun h => ?_⟩
  · exact (onlyIfStored_iff _).1 h _ hpoints rfl
  · obtain ⟨x, hx, e, rfl⟩ := (onlyIfEachStored_iff _).1 h _ hpoints (List.mem_cons_of_mem _ List.mem_cons_self)
    have houtcomes : Except.error e ∈ [Except.ok true, Except.ok false] := hx
    simp at houtcomes

end Graph

end TransferDashboard
