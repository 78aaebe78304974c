/-
What the rows of the database say of the topic.

Every row was written for a message of the log, under the draws some process
came to from the seed: so it stays through failures, crashes and restarts
(`Traced.step`). A message that succeeded has its two rows, where the
database answers no insert `false` that it has not stored (`Kept.step`). A
stamp holds the event's millisecond whatever was drawn, so once everything is
processed the database then shows, millisecond by millisecond, the events of
the topic and no others, in whatever order and however often they were
processed (`shows_iff`). What is drawn again after a crash only adds rows beside those
there are, so many at most (`rows_le`).
-/
import TransferDashboard.EventStamps
import TransferDashboard.GraphSafety
import TransferDashboard.GraphSpans

namespace TransferDashboard

open Scala Joda Json Random Stage KeyedStore EventPoint

namespace Graph

variable {P σ : Type} {env : Env P σ}

/-- The message at an offset is an event. -/
def EventAt (env : Env P σ) (log : P → List String) (o : Offset P) (e : Event) : Prop :=
  ∃ payload, (log o.1)[o.2]? = some payload ∧ JsonCodex.jsonToEvent env.libs env.zone payload = .ok (some e)

/-- The rows of an event that is the `n`th of its process, from nought. -/
def rowsAt (env : Env P σ) (e : Event) (n : Nat) : List (RowKey × Fields) :=
  (requestOf e (draws env.random (sourceAt env n))).rows

/-! ## What an insert writes -/

/-- The rows an insert asks for. -/
def Delivery.rows (d : Delivery P) : List (RowKey × Fields) := d.insert.requests.flatMap WriteRequest.rows

theorem insertOf_rows (db : InfluxDBDriver) (e : Event) (d : Fin 100000 × Fin 100000) :
    (insertOf db e d).requests.flatMap WriteRequest.rows = [] ∨
      (insertOf db e d).requests.flatMap WriteRequest.rows = (requestOf e d).rows := by
  simp only [insertOf, Future.requests_recover, Future.requests_map, InfluxDBDriver.onDb]
  split
  · right
    rw [Future.requests_request, List.flatMap_cons, List.flatMap_nil, List.append_nil]
  · exact .inl rfl

/-- One that succeeds asked for the rows of its event. -/
theorem insertOf_rows_of_ok {db : InfluxDBDriver} {e : Event} {d : Fin 100000 × Fin 100000}
    {answers : List (Try Bool)} (hok : (insertOf db e d).outcome answers = .ok ()) :
    (insertOf db e d).requests.flatMap WriteRequest.rows = (requestOf e d).rows := by
  obtain ⟨b, hb, -⟩ := Future.outcome_map_recover.1 hok
  simp only [insertOf, Future.requests_recover, Future.requests_map]
  unfold InfluxDBDriver.onDb at hb ⊢
  split at hb
  · simp only [Future.requests_request, List.flatMap_cons, List.flatMap_nil, List.append_nil]
  · cases hb

/-! ## Rows and messages -/

/-- A message of the log, handed to `processMessage` as the `n`th event of its process. -/
def HandedAt (env : Env P σ) (log : P → List String) (d : Delivery P) (n : Nat) : Prop :=
  ∃ payload random, (log d.offset.1)[d.offset.2]? = some payload ∧
    processMessage env payload (sourceAt env n) = (.ok d.insert, random)

/-- The insert in a slot was stored. -/
def Landed : Slot (Delivery P) → Prop
  | .running d => d.stored = true
  | .completed _ => True

/-- What is being processed are messages, and every row is one of a message. -/
structure Traced (env : Env P σ) (s : State P σ) : Prop where
  random : ∃ n, s.jvm.random = sourceAt env n
  slots : ∀ slot ∈ s.jvm.process.slots, ∃ n, HandedAt env s.log slot.elem n
  sound : ∀ k v, s.rows k = some v → ∃ o e n, EventAt env s.log o e ∧ (k, v) ∈ rowsAt env e n

/-- A message that succeeded has its rows. -/
structure Kept (env : Env P σ) (s : State P σ) : Prop where
  landed : ∀ slot ∈ s.jvm.process.slots, Landed slot → ∀ k ∈ keys slot.elem.rows, s.rows k ≠ none
  complete : ∀ o ∈ s.succeeded, ∃ e n, EventAt env s.log o e ∧ ∀ k ∈ keys (rowsAt env e n), s.rows k ≠ none

theorem traced_init (log : P → List String) : Traced env (State.init env log) where
  random := ⟨0, rfl⟩
  slots slot h := by cases h
  sound k v h := by cases h

theorem kept_init (log : P → List String) : Kept env (State.init env log) where
  landed slot h := by cases h
  complete o h := by cases h

/-- The insert of a message: it has failed, or it is an event's. -/
theorem HandedAt.insert_cases {log : P → List String} {d : Delivery P} {n : Nat} (h : HandedAt env log d n) :
    d.insert = .failed cannotConvert ∨ ∃ e, EventAt env log d.offset e ∧
      d.insert = insertOf env.db e (draws env.random (sourceAt env n)) := by
  obtain ⟨payload, random, hget, hmsg⟩ := h
  rcases processMessage_cases hmsg with ⟨_, -, heq, -⟩ | ⟨-, heq, -⟩ | ⟨e, hdec, heq, -⟩
  · cases heq
  · exact .inl (Except.ok.inj heq)
  · exact .inr ⟨e, ⟨payload, hget, hdec⟩, Except.ok.inj heq⟩

/-- What it writes is rows of its event. -/
theorem HandedAt.rows {log : P → List String} {d : Delivery P} {n : Nat} (h : HandedAt env log d n)
    {row : RowKey × Fields} (hrow : row ∈ d.rows) : ∃ e, EventAt env log d.offset e ∧ row ∈ rowsAt env e n := by
  rcases h.insert_cases with hfailed | ⟨e, he, hinsert⟩
  · rw [Delivery.rows, hfailed] at hrow
    cases hrow
  · refine ⟨e, he, ?_⟩
    rw [Delivery.rows, hinsert] at hrow
    rcases insertOf_rows env.db e (draws env.random (sourceAt env n)) with hnil | hrows
    · rw [hnil] at hrow
      cases hrow
    · rw [hrows] at hrow
      exact hrow

/-- Where it succeeds the message is an event, whose rows were asked for. -/
theorem HandedAt.rows_of_ok {log : P → List String} {d : Delivery P} {n : Nat} (h : HandedAt env log d n)
    {answers : List (Try Bool)} (hok : d.insert.outcome answers = .ok ()) :
    ∃ e, EventAt env log d.offset e ∧ d.rows = rowsAt env e n := by
  rcases h.insert_cases with hfailed | ⟨e, he, hinsert⟩
  · rw [hfailed] at hok
    cases hok
  · rw [hinsert] at hok
    refine ⟨e, he, ?_⟩
    rw [Delivery.rows, hinsert]
    exact insertOf_rows_of_ok hok

/-- No insert writes more than two rows. -/
theorem HandedAt.rows_length_le {log : P → List String} {d : Delivery P} {n : Nat} (h : HandedAt env log d n) :
    d.rows.length ≤ 2 := by
  rcases h.insert_cases with hfailed | ⟨e, he, hinsert⟩
  · rw [Delivery.rows, hfailed]
    exact Nat.zero_le 2
  · rw [Delivery.rows, hinsert]
    rcases insertOf_rows env.db e (draws env.random (sourceAt env n)) with hnil | hrows
    · rw [hnil]
      exact Nat.zero_le 2
    · rw [hrows, rows_requestOf]
      exact Nat.le_refl 2

/-- The source after a message is that of some number of events too. -/
theorem exists_sourceAt {payload : String} {random : σ} {r : Try (Future WriteRequest Unit)} {n : Nat}
    (hmsg : processMessage env payload (sourceAt env n) = (r, random)) : ∃ m, random = sourceAt env m := by
  rcases processMessage_cases hmsg with ⟨_, -, -, hsame⟩ | ⟨-, -, hsame⟩ | ⟨_, -, -, hdrawn⟩
  · exact ⟨n, hsame⟩
  · exact ⟨n, hsame⟩
  · exact ⟨n + 1, hdrawn.trans (Function.iterate_succ_apply' (afterDraws env.random) n env.seed).symm⟩

variable [DecidableEq P]

theorem EventAt.append {log : P → List String} {o : Offset P} {e : Event} (h : EventAt env log o e) (p : P)
    (value : String) : EventAt env (Function.update log p (log p ++ [value])) o e :=
  MessageAt.append h p value

theorem Traced.step {s s' : State P σ} {a : Act P} (h : Traced env s) (hs : Step env s a s') : Traced env s' := by
  cases hs with
  | sendElsewhere | completeFails | commitFails | flush | applyCommit | completeCommit | sink => exact { h with }
  | @send r ht =>
    refine { h with slots := fun slot hslot => ?_, sound := fun k v hkv => ?_ }
    · obtain ⟨n, payload, random, hget, hmsg⟩ := h.slots slot hslot
      exact ⟨n, payload, random, getElem?_update_append hget _ _, hmsg⟩
    · obtain ⟨o, e, n, he, hrow⟩ := h.sound k v hkv
      exact ⟨o, e, n, he.append _ _, hrow⟩
  | @deliverThrows p payload e random hf hidle hlog hmsg =>
    obtain ⟨n, hn⟩ := h.random
    exact { h with random := ⟨n, (random_of_throws hmsg).trans hn⟩ }
  | @deliver p payload insert random process hf hidle hlog hmsg hslots =>
    obtain ⟨n, hn⟩ := h.random
    rw [hn] at hmsg
    refine { h with random := exists_sourceAt hmsg, slots := fun slot hslot => ?_ }
    rw [hslots, List.mem_singleton] at hslot
    rw [hslot]
    exact ⟨n, payload, random, hlog, hmsg⟩
  | @store i d hrun hd =>
    have hrows : s.rows.store d.insert.requests = putAll s.rows d.rows := rfl
    obtain ⟨n, hhanded⟩ := h.slots (.running d) (MapAsync.mem_of_running? hrun)
    refine { h with slots := fun slot hslot => ?_, sound := fun k v hkv => ?_ }
    · rcases MapAsync.mem_slots_set hslot with rfl | hold
      · exact ⟨n, hhanded⟩
      · exact h.slots slot hold
    · simp only [hrows] at hkv
      rcases putAll_eq_some hkv with hold | hnew
      · exact h.sound k v hold
      · obtain ⟨e, he, hrow⟩ := hhanded.rows hnew
        exact ⟨d.offset, e, n, he, hrow⟩
  | @complete i answers d hf hrun hans hok =>
    refine { h with slots := fun slot hslot => ?_ }
    rcases MapAsync.mem_slots_set hslot with rfl | hold
    · exact h.slots (.running d) (MapAsync.mem_of_running? hrun)
    · exact h.slots slot hold
  | aggregate hf hslots hpush =>
    exact { h with slots := fun slot hslot => h.slots slot (by rw [hslots]; exact List.mem_cons_of_mem _ hslot) }
  | crash =>
    refine { h with random := ⟨0, rfl⟩, slots := fun slot hslot => ?_ }
    cases hslot

theorem Kept.step {s s' : State P σ} {a : Act P} (h : Kept env s) (htraced : Traced env s) (hfalse : FalseIsStored s a)
    (hs : Step env s a s') : Kept env s' := by
  cases hs with
  | sendElsewhere | deliverThrows | completeFails | commitFails | flush | applyCommit | completeCommit | sink =>
    exact { h with }
  | @send r ht =>
    refine { h with complete := fun o ho => ?_ }
    obtain ⟨e, n, he, hrows⟩ := h.complete o ho
    exact ⟨e, n, he.append _ _, hrows⟩
  | @deliver p payload insert random process hf hidle hlog hmsg hslots =>
    refine { h with landed := fun slot hslot hland => ?_ }
    rw [hslots, List.mem_singleton] at hslot
    rw [hslot] at hland
    cases hland
  | @store i d hrun hd =>
    have hrows : s.rows.store d.insert.requests = putAll s.rows d.rows := rfl
    refine ⟨fun slot hslot hland k hk => ?_, fun o ho => ?_⟩
    · simp only [hrows]
      rcases MapAsync.mem_slots_set hslot with rfl | hold
      · exact putAll_of_mem hk s.rows
      · exact putAll_keeps (h.landed slot hold hland k hk)
    · obtain ⟨e, n, he, hkeys⟩ := h.complete o ho
      simp only [hrows]
      exact ⟨e, n, he, fun k hk => putAll_keeps (hkeys k hk)⟩
  | @complete i answers d hf hrun hans hok =>
    have hmem := MapAsync.mem_of_running? hrun
    obtain ⟨n, hhanded⟩ := htraced.slots (.running d) hmem
    have hlanded : ∀ k ∈ keys d.rows, s.rows k ≠ none := by
      obtain ⟨payload, random, hget, hmsg⟩ := hhanded
      exact h.landed (.running d) hmem (stored_of_ok hmsg hans (hfalse d hrun) hok)
    refine ⟨fun slot hslot hland => ?_, fun o ho => ?_⟩
    · rcases MapAsync.mem_slots_set hslot with rfl | hold
      · exact hlanded
      · exact h.landed slot hold hland
    · rcases List.mem_append.1 ho with hold | hnew
      · exact h.complete o hold
      · rw [List.mem_singleton.1 hnew]
        obtain ⟨e, he, hrows⟩ := hhanded.rows_of_ok hok
        exact ⟨e, n, he, by rw [← hrows]; exact hlanded⟩
  | @aggregate d process batch hf hslots hpush =>
    exact { h with landed := fun slot hslot => h.landed slot (by rw [hslots]; exact List.mem_cons_of_mem _ hslot) }
  | crash =>
    refine { h with landed := fun slot hslot => ?_ }
    cases hslot

theorem traced_run {log : P → List String} {acts : List (Act P)} {s : State P σ}
    (h : Machine.run (step env) (State.init env log) acts = some s) : Traced env s :=
  Machine.run_invariant (traced_init log) (fun _ _ _ hI hstep => hI.step (step_sound hstep)) h

theorem kept_run {log : P → List String} {acts : List (Act P)} {s : State P σ}
    (hstored : Machine.Meets (step env) FalseIsStored (State.init env log) acts)
    (h : Machine.run (step env) (State.init env log) acts = some s) : Kept env s := by
  refine (Machine.run_induction (I := fun _ s => Traced env s ∧ Kept env s) ⟨traced_init log, kept_init log⟩
    (fun _ t a t' hI hfalse hstep => ?_) hstored h).2
  have hs := step_sound hstep
  exact ⟨hI.1.step hs, hI.2.step hI.1 hfalse hs⟩

theorem takenAgain_answers (s : State Unit Java.Seed) : Machine.Meets (step textEnv) FalseIsStored s takenAgain :=
  falseIsStored_of_true (by simp [takenAgain, handle, commitBatch])

/-- There is a row of a series within a millisecond. -/
def Shows (rows : Rows) (measurement : String) (tags : Multiset (String × String)) (millis : Int) : Prop :=
  ∃ k, rows k ≠ none ∧ k.measurement = measurement ∧ k.tags = tags ∧ k.nanos / 1000000 = millis

/-- A stamp is within the millisecond of its instant. -/
theorem stamp_ediv {millis : Int64} (h : InRange millis) (d : Fin 100000) :
    (stamp millis d).toInt / 1000000 = millis.toInt := by
  have hd := d.isLt
  rw [stamp_toInt h]
  omega

omit [DecidableEq P] in
theorem mem_rowsAt {e : Event} {n : Nat} (hrange : InRange e.millis) {k : RowKey} {v : Fields}
    (h : (k, v) ∈ rowsAt env e n) : (k.measurement = "transferred_bytes" ∨ k.measurement = "transfer_seconds") ∧
      k.tags = tagsOf e ∧ k.nanos / 1000000 = e.millis.toInt := by
  rw [rowsAt, rows_requestOf] at h
  rcases List.mem_pair.1 h with h | h
  · obtain ⟨rfl, -⟩ := Prod.mk.inj h
    exact ⟨.inl rfl, rfl, stamp_ediv hrange _⟩
  · obtain ⟨rfl, -⟩ := Prod.mk.inj h
    exact ⟨.inr rfl, rfl, stamp_ediv hrange _⟩

omit [DecidableEq P] in
theorem EventAt.unique {log : P → List String} {o : Offset P} {e e' : Event} (h : EventAt env log o e)
    (h' : EventAt env log o e') : e = e' :=
  Option.some.inj (MessageAt.unique h h' rfl)

omit [DecidableEq P] in
/-- The event at an offset is the one loaded there, in the reader's zone. -/
theorem eventAt_loaded (hL : env.libs.Documented) {log : P → List String} {loaded : List Event} {o : Offset P}
    (hlog : log o.1 = loaded.map (JsonCodex.eventToJson env.libs)) {r : Event} :
    EventAt env log o r ↔ ∃ e, loaded[o.2]? = some e ∧ r = e.inZone env.zone := by
  rw [EventAt, hlog]
  simp only [List.getElem?_map, Option.map_eq_some_iff]
  refine ⟨fun h => ?_, fun h => ?_⟩
  · obtain ⟨payload, ⟨e, he, rfl⟩, hdec⟩ := h
    rw [JsonCodex.jsonToEvent_eventToJson hL, Except.ok.injEq, Option.some.injEq] at hdec
    exact ⟨e, he, hdec.symm⟩
  · obtain ⟨e, he, rfl⟩ := h
    exact ⟨_, ⟨e, he, rfl⟩, JsonCodex.jsonToEvent_eventToJson hL e⟩

/-- **The dashboard does not depend on the run.** Let the events of the topic
be of the years 1677 to 2262, and let no insert be answered `false` that was
not stored. Once every message of the topic has succeeded, however the
actions came, wherever processes crashed and whatever was drawn, each series
has a row within a millisecond exactly where the topic has an event of that
partner, type and millisecond. -/
theorem shows_iff (env : Env P σ) {log : P → List String} {acts : List (Act P)} {s : State P σ}
    (hstored : Machine.Meets (step env) FalseIsStored (State.init env log) acts)
    (h : Machine.run (step env) (State.init env log) acts = some s)
    (hdone : ∀ p, ∀ o < (s.log p).length, (p, o) ∈ s.succeeded)
    (hrange : ∀ o e, EventAt env s.log o e → InRange e.millis)
    (measurement : String) (tags : Multiset (String × String)) (millis : Int) :
    Shows s.rows measurement tags millis ↔
      (measurement = "transferred_bytes" ∨ measurement = "transfer_seconds") ∧
        ∃ o e, EventAt env s.log o e ∧ tagsOf e = tags ∧ e.millis.toInt = millis := by
  refine ⟨fun hshows => ?_, fun ⟨hm, o, e, he, htags, hmillis⟩ => ?_⟩
  · obtain ⟨k, hk, rfl, rfl, rfl⟩ := hshows
    obtain ⟨v, hv⟩ := Option.ne_none_iff_exists'.1 hk
    obtain ⟨o, e, n, he, hrow⟩ := (traced_run h).sound k v hv
    obtain ⟨hm, htags, hmillis⟩ := mem_rowsAt (hrange o e he) hrow
    exact ⟨hm, o, e, he, htags.symm, hmillis.symm⟩
  · have hsucceeded : o ∈ s.succeeded := by
      obtain ⟨payload, hget, -⟩ := he
      obtain ⟨hlt, -⟩ := List.getElem?_eq_some_iff.1 hget
      exact hdone o.1 o.2 hlt
    obtain ⟨e', n, he', hrows⟩ := (kept_run hstored h).complete o hsucceeded
    obtain rfl := he.unique he'
    rw [rowsAt, rows_requestOf] at hrows
    rcases hm with rfl | rfl
    · refine ⟨_, hrows (sizeKey _) List.mem_cons_self, rfl, htags, ?_⟩
      rw [← hmillis]
      exact stamp_ediv (hrange o e he) _
    · refine ⟨_, hrows (secondsKey _) (List.mem_cons_of_mem _ List.mem_cons_self), rfl, htags, ?_⟩
      rw [← hmillis]
      exact stamp_ediv (hrange o e he) _

/-- The database shows the second message in its second, and nothing in the next. -/
theorem shows_takenAgain : ∃ s,
    Machine.run (step textEnv) (State.init textEnv fun _ => twoMessages) takenAgain = some s ∧
      Shows s.rows "transferred_bytes" (tagsOf secondEvent) 1483304401000 ∧
      ¬ Shows s.rows "transferred_bytes" (tagsOf secondEvent) 1483304402000 := by
  obtain ⟨s, hrun, hlog, -, hsucceeded⟩ := run_takenAgain
  have hat : ∀ o r, EventAt textEnv s.log o r ↔
      ∃ e, [JsonCodexSpec.event, secondEvent][o.2]? = some e ∧ r = e.inZone textEnv.zone :=
    fun o r => eventAt_loaded textLibs_documented hlog
  have hdone : ∀ p, ∀ o < (s.log p).length, (p, o) ∈ s.succeeded := by
    intro p o ho
    have hlt : o < 2 := Nat.lt_of_lt_of_eq ho (congrArg List.length hlog)
    rw [hsucceeded]
    interval_cases o <;> simp
  have hrange : ∀ o r, EventAt textEnv s.log o r → InRange r.millis := by
    intro o r hr
    obtain ⟨e, he, rfl⟩ := (hat o r).1 hr
    rcases List.mem_pair.1 (List.mem_of_getElem? he) with rfl | rfl
    · exact ⟨by decide, by decide⟩
    · exact ⟨by decide, by decide⟩
  have hshows := shows_iff textEnv (takenAgain_answers _) hrun hdone hrange "transferred_bytes" (tagsOf secondEvent)
  refine ⟨s, hrun, (hshows _).2 ⟨.inl rfl, ((), 1), _, (hat _ _).2 ⟨secondEvent, rfl, rfl⟩, rfl, rfl⟩, fun h => ?_⟩
  obtain ⟨-, o, r, hr, -, hmillis⟩ := (hshows _).1 h
  obtain ⟨e, he, rfl⟩ := (hat o r).1 hr
  rcases List.mem_pair.1 (List.mem_of_getElem? he) with rfl | rfl
  · exact absurd hmillis (by decide)
  · exact absurd hmillis (by decide)

/-! ## How many rows -/

/-- The rows a slot may still add. -/
def toStore : Slot (Delivery P) → Nat
  | .running d => if d.stored then 0 else 2
  | .completed _ => 0

/-- Each call of `processMessage` pays for two rows. -/
def Afforded (acts : List (Act P)) (s : State P σ) : Prop :=
  ∃ ks, SupportedBy s.rows ks ∧ ks.length + (s.jvm.process.slots.map toStore).sum ≤ 2 * deliveries acts

theorem Afforded.step {acts : List (Act P)} {s s' : State P σ} {a : Act P} (h : Afforded acts s)
    (htraced : Traced env s) (hs : Step env s a s') : Afforded (acts ++ [a]) s' := by
  obtain ⟨ks, hks, hle⟩ := h
  cases hs with
  | @deliver p payload insert random process hf hidle hlog hmsg hslots =>
    refine ⟨ks, hks, ?_⟩
    rw [hidle] at hle
    simp only [hslots, deliveries_concat, Act.isDeliver, List.map_cons, List.map_nil, List.sum_cons, List.sum_nil,
      toStore, Bool.false_eq_true, if_false, if_true] at hle ⊢
    omega
  | @store i d hrun hd =>
    obtain ⟨n, hhanded⟩ := htraced.slots (.running d) (MapAsync.mem_of_running? hrun)
    refine ⟨ks ++ keys d.rows, ?_, ?_⟩
    · have hold : SupportedBy s.rows (ks ++ keys d.rows) := fun k hk => List.mem_append_left _ (hks k hk)
      exact hold.putAll fun k hk => List.mem_append_right _ hk
    · have htwo : d.rows.length ≤ 2 := hhanded.rows_length_le
      have hsum := MapAsync.sum_set toStore hrun (.running { d with stored := true })
      simp only [toStore, hd, Bool.false_eq_true, if_false, if_true] at hsum
      rw [deliveries_concat, List.length_append, keys, List.length_map]
      simp only [Act.isDeliver, Bool.false_eq_true, if_false]
      omega
  | @complete i answers d hf hrun hans hok =>
    refine ⟨ks, hks, ?_⟩
    have hsum := MapAsync.sum_set toStore hrun (.completed d)
    simp only [toStore] at hsum
    rw [deliveries_concat]
    simp only [Act.isDeliver, Bool.false_eq_true, if_false]
    omega
  | aggregate hf hslots hpush =>
    refine ⟨ks, hks, ?_⟩
    rw [hslots] at hle
    simp only [List.map_cons, List.sum_cons, deliveries_concat, Act.isDeliver, Bool.false_eq_true, if_false] at hle ⊢
    omega
  | crash =>
    refine ⟨ks, hks, ?_⟩
    rw [deliveries_concat]
    simp only [Act.isDeliver, Bool.false_eq_true, if_false, Jvm.start, MapAsync.slots_empty, List.map_nil, List.sum_nil]
    omega
  | _ =>
    refine ⟨ks, hks, ?_⟩
    rw [deliveries_concat]
    exact Nat.le_trans hle (Nat.mul_le_mul_left 2 (Nat.le_add_right _ _))

theorem afforded_run {log : P → List String} {acts : List (Act P)} {s : State P σ}
    (h : Machine.run (step env) (State.init env log) acts = some s) : Traced env s ∧ Afforded acts s := by
  refine Machine.run_induction (I := fun acts s => Traced env s ∧ Afforded acts s) ?_ (fun acts t a t' hI _ hstep => ?_)
    (Machine.meets_true _ acts) h
  · exact ⟨traced_init log, [], empty_supportedBy _, Nat.le_refl 0⟩
  · have hs := step_sound hstep
    exact ⟨hI.1.step hs, hI.2.step hI.1 hs⟩

/-- **Crashes add few rows.** In a whole run, with commits in order, the
database has at most two rows for each message of the topic and 164 for each
crash, and two more where the stream has failed. -/
theorem rows_le [Fintype P] (env : Env P σ) {log : P → List String} {acts : List (Act P)} {s : State P σ}
    (hord : Machine.Meets (step env) CommitsInOrder (State.init env log) acts)
    (h : Machine.run (step env) (State.init env log) acts = some s) : {k | s.rows k ≠ none}.Finite ∧
      {k | s.rows k ≠ none}.ncard ≤
        2 * (∑ p, (s.log p).length + 82 * crashes acts + (if s.jvm.failed then 1 else 0)) := by
  obtain ⟨-, ks, hks, hle⟩ := afforded_run h
  obtain ⟨hspans, threw, hpaid⟩ := paid_run hord h
  have hdeliveries := hpaid.le_topic hspans
  exact ⟨hks.ncard_le.1, hks.ncard_le.2.trans (by omega)⟩

/-- Two messages and a crash: at most so many rows. -/
theorem rows_le_takenAgain : ∃ s,
    Machine.run (step textEnv) (State.init textEnv fun _ => twoMessages) takenAgain = some s ∧
      {k | s.rows k ≠ none}.Finite ∧ {k | s.rows k ≠ none}.ncard ≤
        2 * (∑ p, (s.log p).length + 82 * crashes takenAgain + (if s.jvm.failed then 1 else 0)) := by
  obtain ⟨s, hrun, -⟩ := run_takenAgain
  exact ⟨s, hrun, rows_le textEnv ((lined_init _).meets (by simp [takenAgain, handle, commitBatch]) hrun) hrun⟩

end Graph

end TransferDashboard
