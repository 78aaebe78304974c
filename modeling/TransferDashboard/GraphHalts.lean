/-
What stops the stream, and what still happens then.

A failed process takes no more part: what may still happen is what it had
asked for, one insert and three commits (`Aftermath.step`). A message that is
no event fails every process that comes to it, so its partition is never
committed past it and nothing after it is processed, through any restarts
(`no_event_halts`). Without a database every message is like that, and
nothing ever happens (`no_database`).
-/
import TransferDashboard.GraphSpans
import TransferDashboard.InfluxDBDriverErrors

namespace TransferDashboard

open Scala Joda Json Random Stage KeyedStore CommitLog EventPoint

namespace Graph

variable {P σ : Type} [DecidableEq P] {env : Env P σ}

/-! ## After a failure -/

/-- The one insert that may be out, and the rows: it was stored since, or not. -/
inductive Landing (s : State P σ) (slots : List (Slot (Delivery P))) (rows : Rows) : Prop
  | same (hslots : slots = s.jvm.process.slots) (hrows : rows = s.rows)
  | stored (d : Delivery P) (hs : s.jvm.process.slots = [.running d])
      (hslots : slots = [.running { d with stored := true }]) (hrows : rows = s.rows.store d.insert.requests)

/-- What has become of a failed process, and of what it had asked for. -/
structure Aftermath (s t : State P σ) : Prop where
  failed : t.jvm.failed = true
  started : t.jvm.started = s.jvm.started
  threw : t.jvm.threw = s.jvm.threw
  succeeded : t.succeeded = s.succeeded
  position : t.jvm.position = s.jvm.position
  landing : Landing s t.jvm.process.slots t.rows
  offsets : t.jvm.commits.elems.map Commit.offsets = s.jvm.commits.elems.map Commit.offsets
  committed : ∀ p, t.committed p = s.committed p ∨
    ∃ c ∈ s.jvm.commits.elems, ∃ o, (p, o) ∈ c.offsets ∧ t.committed p = some (o + 1)

omit [DecidableEq P] in
theorem Aftermath.refl {s : State P σ} (h : s.jvm.failed = true) : Aftermath s s :=
  ⟨h, rfl, rfl, rfl, rfl, .same rfl rfl, rfl, fun _ => .inl rfl⟩

theorem Aftermath.step {s t t' : State P σ} {a : Act P} (h : Aftermath s t) (ha : a ≠ .crash) (hs : Step env t a t') :
    Aftermath s t' := by
  cases hs with
  | send | sendElsewhere => exact { h with }
  | crash => exact absurd rfl ha
  | @store i d hrun hd =>
    obtain ⟨rfl, hslots⟩ := MapAsync.slots_of_running? hrun
    refine { h with landing := ?_ }
    cases h.landing with
    | same hp hr => exact .stored d (hp ▸ hslots) (by simp [hslots]) (by rw [hr])
    | stored d' hs' ht hr =>
      rw [hslots, List.cons.injEq, Slot.running.injEq] at ht
      rw [ht.1] at hd
      cases hd
  | @applyCommit i c hrun hc =>
    have hmem : c.offsets ∈ s.jvm.commits.elems.map Commit.offsets := by
      rw [← h.offsets]
      exact List.mem_map_of_mem (MapAsync.mem_elems hrun)
    obtain ⟨c', hc', hoff⟩ := List.mem_map.1 hmem
    refine { h with offsets := ?_, committed := fun p => ?_ }
    · obtain ⟨pre, post, helems, -, hset⟩ := MapAsync.elems_split hrun
      rw [hset, ← h.offsets, helems]
      simp
    · dsimp only
      rcases CommittableOffsetBatch.commit_cases c.offsets t.committed p with hsame | ⟨o, ho, hnew⟩
      · rw [hsame]
        exact h.committed p
      · exact .inr ⟨c', hc', o, hoff ▸ ho, hnew⟩
  | deliver hf | deliverThrows hf | complete hf | completeFails hf | aggregate hf | flush hf | completeCommit hf
  | commitFails hf | sink hf =>
    rw [h.failed] at hf
    cases hf

/-- How much of what was asked the database and the broker have not yet done. -/
def Jvm.asked (jvm : Jvm P σ) : Nat :=
  (jvm.process.elems.countP fun d => !d.stored) + jvm.commits.elems.countP fun c => !c.applied

def Act.isSend : Act P → Bool
  | .send _ => true
  | _ => false

/-- The stream has failed, or waits for an insert that can only fail. -/
def Halted (s : State P σ) : Prop :=
  s.jvm.failed = true ∨ ∃ d, s.jvm.process.slots = [.running d] ∧ d.insert.Fails

/-- A halted stream hands out nothing more and nothing more succeeds. -/
theorem Halted.step {s s' : State P σ} {a : Act P} (h : Halted s) (ha : a ≠ .crash) (hs : Step env s a s') :
    Halted s' ∧ s'.jvm.started = s.jvm.started ∧ s'.jvm.threw = s.jvm.threw ∧ s'.succeeded = s.succeeded := by
  by_cases hf : s.jvm.failed = true
  · have haft := (Aftermath.refl hf).step ha hs
    exact ⟨.inl haft.failed, haft.started, haft.threw, haft.succeeded⟩
  obtain ⟨d, hslots, hfails⟩ := h.resolve_left hf
  cases hs with
  | crash => exact absurd rfl ha
  | deliver hf' hidle | deliverThrows hf' hidle =>
    rw [hslots] at hidle
    cases hidle
  | @store i d' hrun hd =>
    obtain ⟨rfl, hslots'⟩ := MapAsync.slots_of_running? hrun
    rw [hslots, List.cons.injEq, Slot.running.injEq] at hslots'
    exact ⟨.inr ⟨{ d' with stored := true }, by simp [hslots], by rw [← hslots'.1]; exact hfails⟩, rfl, rfl, rfl⟩
  | @complete i answers d' hf' hrun hans hok =>
    obtain ⟨rfl, hslots'⟩ := MapAsync.slots_of_running? hrun
    rw [hslots, List.cons.injEq, Slot.running.injEq] at hslots'
    obtain ⟨e, he⟩ := hfails answers
    rw [← hslots'.1, he] at hok
    cases hok
  | aggregate hf' hslots' hpush =>
    rw [hslots] at hslots'
    cases hslots'
  | completeFails | commitFails => exact ⟨.inl rfl, rfl, rfl, rfl⟩
  | _ => exact ⟨.inr ⟨d, hslots, hfails⟩, rfl, rfl, rfl⟩

omit [DecidableEq P] in
/-- An insert that succeeded was one of an event. -/
theorem event_of_processed {log : P → List String} {p : P} {o : Nat} {payload : String}
    (hlog : (log p)[o]? = some payload) (h : Processed env log (p, o)) : ∃ e, eventOf env payload = some e := by
  obtain ⟨d, hd, ⟨payload', random, hget, hmsg⟩, answers, hok⟩ := h
  rw [hd, hlog, Option.some.injEq] at hget
  subst hget
  rcases processMessage_cases (Prod.ext hmsg rfl) with ⟨_, -, heq, -⟩ | ⟨-, heq, -⟩ | ⟨e, hdec, -⟩
  · cases heq
  · rw [Except.ok.injEq] at heq
    rw [heq] at hok
    cases hok
  · exact ⟨e, by rw [eventOf, hdec]⟩

omit [DecidableEq P] in
/-- The insert of a message that is no event can only fail. -/
theorem fails_of_no_event {log : P → List String} {d : Delivery P} {payload : String}
    (hlog : (log d.offset.1)[d.offset.2]? = some payload) (hnone : eventOf env payload = none)
    (h : Handed env log d) : d.insert.Fails := by
  obtain ⟨payload', random, hget, hmsg⟩ := h
  rw [hlog, Option.some.injEq] at hget
  subst hget
  rcases processMessage_cases (Prod.ext hmsg rfl) with ⟨_, -, heq, -⟩ | ⟨-, heq, -⟩ | ⟨e, hdec, -⟩
  · cases heq
  · rw [Except.ok.injEq] at heq
    rw [heq]
    exact Future.failed_fails _
  · rw [eventOf, hdec] at hnone
    cases hnone

omit [DecidableEq P] in
/-- Below the position a message is either done or in `mapAsync(1)`, which holds one. -/
theorem Safe.in_hand {s : State P σ} (h : Safe s) {p : P} {o : Nat} (hnot : (p, o) ∉ s.succeeded)
    (hlt : o < s.jvm.position p) : ∃ slot, s.jvm.process.slots = [slot] ∧ slot.elem.offset = (p, o) := by
  rcases h.position p o hlt with hin | ⟨slot, hmem, hoff⟩
  · exact absurd hin hnot
  · have hbound := s.jvm.process.bound
    have hpos := List.length_pos_of_mem hmem
    obtain ⟨x, hx⟩ := List.length_eq_one_iff.1 (show s.jvm.process.slots.length = 1 by omega)
    rw [hx, List.mem_singleton] at hmem
    exact ⟨x, hx, by rw [← hmem]; exact hoff⟩

omit [DecidableEq P] in
/-- Nothing succeeds before what is ahead of it. -/
theorem Sequential.not_after {s : State P σ} (h : Sequential s) {p : P} {o o' : Nat} (hnot : (p, o) ∉ s.succeeded)
    (hle : o ≤ o') : (p, o') ∉ s.succeeded := by
  rcases Nat.eq_or_lt_of_le hle with rfl | hlt
  · exact hnot
  · intro hin
    obtain ⟨before, after, hsplit⟩ := List.append_of_mem hin
    refine hnot ?_
    rw [hsplit]
    exact List.mem_append_left _ (h.succeeded before _ after hsplit o hlt)

omit [DecidableEq P] in
/-- A process that has a message in hand which is no event is halted. -/
theorem halted_of_no_event {s : State P σ} (hsafe : Safe s) (hgenuine : Genuine env s) {p : P} {o : Nat}
    {payload : String} (hlog : (s.log p)[o]? = some payload) (hnone : eventOf env payload = none)
    (hnot : (p, o) ∉ s.succeeded) (hlt : o < s.jvm.position p) : Halted s := by
  obtain ⟨slot, hslots, hoff⟩ := hsafe.in_hand hnot hlt
  have hmem : slot ∈ s.jvm.process.slots := by
    rw [hslots]
    exact List.mem_singleton_self _
  cases slot with
  | completed d => exact absurd (hoff ▸ hsafe.completed d hmem) hnot
  | running d =>
    have hoff : d.offset = (p, o) := hoff
    exact .inr ⟨d, hslots, fails_of_no_event (by rw [hoff]; exact hlog) hnone (hgenuine.slots _ hmem)⟩

/-- Where `processMessage` threw the stream has failed, with nothing in hand. -/
def ThrewIdle (s : State P σ) : Prop := ∀ o, s.jvm.threw = some o → s.jvm.failed = true ∧ s.jvm.process.slots = []

theorem ThrewIdle.step {s s' : State P σ} {a : Act P} (h : ThrewIdle s) (hs : Step env s a s') : ThrewIdle s' := by
  intro o ho
  cases hs with
  | deliverThrows hf hidle => exact ⟨rfl, hidle⟩
  | crash => cases ho
  | store hrun =>
    obtain ⟨-, hslots⟩ := h o ho
    have hmem := MapAsync.mem_of_running? hrun
    rw [hslots] at hmem
    cases hmem
  | deliver hf | complete hf | completeFails hf | aggregate hf | flush hf | completeCommit hf | commitFails hf | sink hf =>
    rw [(h o ho).1] at hf
    cases hf
  | _ => exact h o ho

theorem threwIdle_run {log : P → List String} {acts : List (Act P)} {s : State P σ}
    (h : Machine.run (step env) (State.init env log) acts = some s) : ThrewIdle s :=
  Machine.run_invariant (fun _ ho => by cases ho) (fun _ _ _ hI hstep => hI.step (step_sound hstep)) h

/-- **A message that is no event stops its partition for good.** In every
state reached, through any restarts: its partition is not committed past it,
neither it nor anything after it has succeeded, and no process is past it. A
process that it was handed to, whether it was answered with a failure or
threw, does no more, in any partition: what has been handed out and what has
succeeded stay as they are until it is lost. -/
theorem no_event_halts (env : Env P σ) {log : P → List String} {acts : List (Act P)} {s : State P σ}
    (h : Machine.run (step env) (State.init env log) acts = some s) {p : P} {o : Nat} {payload : String}
    (hlog : (s.log p)[o]? = some payload) (hnone : eventOf env payload = none) :
    (∀ n, s.committed p = some n → n ≤ o) ∧ (∀ o', o ≤ o' → (p, o') ∉ s.succeeded) ∧ s.jvm.position p ≤ o + 1 ∧
      (s.jvm.position p = o + 1 ∨ (p, o) ∈ s.jvm.handed → ∀ more t, (∀ a ∈ more, a ≠ .crash) →
        Machine.run (step env) s more = some t →
          t.jvm.started = s.jvm.started ∧ t.jvm.threw = s.jvm.threw ∧ t.succeeded = s.succeeded) := by
  obtain ⟨hsafe, hgenuine, hcovered⟩ := safe_run h
  have hsequential := sequential_run h
  have hnot : (p, o) ∉ s.succeeded := by
    intro hin
    obtain ⟨e, he⟩ := event_of_processed hlog (hgenuine.succeeded _ hin)
    rw [hnone] at he
    cases he
  have hafter : ∀ o', o ≤ o' → (p, o') ∉ s.succeeded := fun o' hle => hsequential.not_after hnot hle
  have hposition : s.jvm.position p ≤ o + 1 := by
    by_contra hlt
    obtain ⟨x, hx, hoff⟩ := hsafe.in_hand hnot (by omega)
    obtain ⟨y, hy, hoff'⟩ := hsafe.in_hand (hafter (o + 1) (Nat.le_succ o)) (by omega)
    rw [hx, List.cons.injEq] at hy
    rw [hy.1, hoff', Prod.mk.injEq] at hoff
    omega
  have hcommitted : ∀ n, s.committed p = some n → n ≤ o := by
    intro n hn
    by_contra hlt
    refine hnot (hcovered p o ?_)
    simp only [State.abs, hn, Option.getD_some]
    omega
  refine ⟨hcommitted, hafter, hposition, fun hcome more t hcrash hrun => ?_⟩
  have hhalted : Halted s := by
    rcases hcome with hpast | hhanded
    · exact halted_of_no_event hsafe hgenuine hlog hnone hnot (by omega)
    · rcases Jvm.mem_handed.1 hhanded with hstarted | hthrew
      · exact halted_of_no_event hsafe hgenuine hlog hnone hnot (hsequential.behind _ hstarted)
      · exact .inl (threwIdle_run h _ hthrew).1
  refine (Machine.run_induction (G := fun _ a => a ≠ .crash) (I := fun _ t => Halted t ∧ t.jvm.started = s.jvm.started ∧
    t.jvm.threw = s.jvm.threw ∧ t.succeeded = s.succeeded) ⟨hhalted, rfl, rfl, rfl⟩
    (fun _ u a u' hI ha hstep => ?_) (Machine.meets_of_forall fun a ha _ => hcrash a ha) hrun).2
  obtain ⟨hhalts, hstarted, hthrew, hsucceeded⟩ := hI.1.step ha (step_sound hstep)
  exact ⟨hhalts, hstarted.trans hI.2.1, hthrew.trans hI.2.2.1, hsucceeded.trans hI.2.2.2⟩

/-- A text that cannot be read, before an event. -/
def unreadable : Unit → List String := fun _ => ["\x7b", JsonCodex.eventToJson textLibs JsonCodexSpec.event]

/-- The process it was handed to does no more, though more is sent. -/
theorem no_event_halts_unreadable : ∃ s t,
    Machine.run (step textEnv) (State.init textEnv unreadable) [.deliver ()] = some s ∧
    Machine.run (step textEnv) s [.send (Loader.loadEvent textLibs secondEvent)] = some t ∧
      s.jvm.threw = some ((), 0) ∧ t.jvm.threw = s.jvm.threw ∧ t.succeeded = s.succeeded := by
  have hthrows : JsonCodex.jsonToEvent textEnv.libs textEnv.zone "\x7b" = .error (Json.Text.notJson "\x7b") := rfl
  obtain ⟨s, hrun, hlog, hthrew⟩ : ∃ s, Machine.run (step textEnv) (State.init textEnv unreadable) [.deliver ()] = some s ∧
      (s.log ())[0]? = some "\x7b" ∧ s.jvm.threw = some ((), 0) := ⟨_, run_throws rfl rfl rfl hthrows, rfl, rfl⟩
  obtain ⟨t, hmore⟩ : ∃ t, Machine.run (step textEnv) s [.send (Loader.loadEvent textLibs secondEvent)] = some t := ⟨_, rfl⟩
  obtain ⟨-, -, -, hhalts⟩ := no_event_halts textEnv hrun hlog (by rw [eventOf, hthrows])
  obtain ⟨-, hsame, hsucceeded⟩ := hhalts (.inr (Jvm.mem_handed.2 (.inr hthrew))) _ t (by simp) hmore
  exact ⟨s, t, hrun, hmore, hthrew, hsame, hsucceeded⟩

/-! ## No database -/

omit [DecidableEq P] in
/-- Without a database an insert asks for nothing and fails. -/
theorem fails_of_no_database {e : Throwable} (hdb : env.db.dbFuture = .error e) {payload : String} {random random' : σ}
    {insert : Future WriteRequest Unit} (h : processMessage env payload random = (.ok insert, random')) :
    insert.requests = [] ∧ insert.Fails := by
  rcases processMessage_cases h with ⟨_, -, heq, -⟩ | ⟨-, heq, -⟩ | ⟨event, -, heq, -⟩
  · cases heq
  · rw [Except.ok.injEq] at heq
    rw [heq]
    exact ⟨rfl, Future.failed_fails _⟩
  · rw [Except.ok.injEq] at heq
    simp only [heq, insertOf, InfluxDBDriver.onDb, hdb]
    exact ⟨rfl, fun _ => ⟨_, rfl⟩⟩

/-- Nothing was written, nothing succeeded, nothing was committed, and what
was started is in `mapAsync(1)`, whose insert can only fail. -/
structure Dry (s : State P σ) : Prop where
  rows : s.rows = KeyedStore.empty
  committed : s.committed = fun _ => none
  succeeded : s.succeeded = []
  process : ∀ slot ∈ s.jvm.process.slots, ∃ d, slot = .running d ∧ d.insert.requests = [] ∧ d.insert.Fails
  batch : s.jvm.batch.held = []
  commits : s.jvm.commits.slots = []
  started : s.jvm.started.length ≤ s.jvm.process.slots.length

omit [DecidableEq P] in
theorem dry_init (env : Env P σ) (log : P → List String) : Dry (State.init env log) :=
  ⟨rfl, rfl, rfl, by simp [State.init, Jvm.start], rfl, rfl, Nat.zero_le _⟩

theorem Dry.step {e : Throwable} (hdb : env.db.dbFuture = .error e) {s s' : State P σ} {a : Act P} (h : Dry s)
    (hs : Step env s a s') : Dry s' := by
  cases hs with
  | send | sendElsewhere | deliverThrows | completeFails | commitFails => exact { h with }
  | deliver hf hidle hlog hmsg hslots =>
    have hnone : s.jvm.started.length ≤ 0 := by simpa [hidle] using h.started
    refine { h with process := ?_, started := ?_ }
    · simp [hslots, fails_of_no_database hdb hmsg]
    · simp only [hslots, List.length_append, List.length_singleton]
      omega
  | store hrun hd =>
    obtain ⟨d', heq, hnone, hfails⟩ := h.process _ (MapAsync.mem_of_running? hrun)
    rw [Slot.running.injEq] at heq
    subst heq
    refine { h with rows := ?_, process := fun slot hslot => ?_, started := by simpa using h.started }
    · rw [hnone, h.rows]
      rfl
    · rcases MapAsync.mem_slots_set hslot with rfl | hmem
      · exact ⟨_, rfl, hnone, hfails⟩
      · exact h.process slot hmem
  | complete hf hrun hans hok =>
    obtain ⟨d', heq, -, hfails⟩ := h.process _ (MapAsync.mem_of_running? hrun)
    rw [Slot.running.injEq] at heq
    subst heq
    obtain ⟨e', he'⟩ := hfails _
    rw [hok] at he'
    cases he'
  | aggregate hf hslots =>
    obtain ⟨d', heq, -⟩ := h.process _ (by rw [hslots]; exact List.mem_cons_self)
    cases heq
  | flush hf hflush =>
    obtain ⟨hheld, hne⟩ := Batch.flush?_held hflush
    rw [h.batch, List.append_eq_nil_iff] at hheld
    exact absurd hheld.1 hne
  | applyCommit hrun | completeCommit _ hrun =>
    have hmem := MapAsync.mem_of_running? hrun
    rw [h.commits] at hmem
    cases hmem
  | sink hf hslots =>
    rw [h.commits] at hslots
    cases hslots
  | crash => exact ⟨h.rows, h.committed, h.succeeded, by simp [Jvm.start], rfl, rfl, Nat.zero_le _⟩

/-- **No database.** When the database is neither there nor could be created,
or could not even be asked for, nothing happens in any run, through any
restarts: no row is written, no message succeeds, no position is committed,
and each process hands out one message at most. -/
theorem no_database (env : Env P σ) {existsAnswer : Try Bool} {createAnswer : Try Unit}
    (hdb : env.db = .connect existsAnswer createAnswer)
    (hno : ¬ (existsAnswer = .ok true ∨ existsAnswer = .ok false ∧ createAnswer = .ok ()))
    {log : P → List String} {acts : List (Act P)} {s : State P σ}
    (h : Machine.run (step env) (State.init env log) acts = some s) :
    s.rows = KeyedStore.empty ∧ s.succeeded = [] ∧ (∀ p, s.committed p = none) ∧ s.jvm.handed.length ≤ 1 := by
  obtain ⟨e, he⟩ : ∃ e, env.db.dbFuture = .error e := by
    rw [hdb]
    rcases existsAnswer with e | b
    · exact ⟨e, rfl⟩
    · rcases createAnswer with e | u
      · cases b with
        | false => exact ⟨e, rfl⟩
        | true => simp at hno
      · cases b <;> simp at hno
  have hdry : Dry s := Machine.run_invariant (dry_init env log) (fun _ _ _ hI hstep => hI.step he (step_sound hstep)) h
  refine ⟨hdry.rows, hdry.succeeded, fun p => congrFun hdry.committed p, ?_⟩
  have hstarted := hdry.started
  have hbound := s.jvm.process.bound
  rw [Jvm.handed, Jvm.startedOffsets, List.length_append, List.length_map]
  cases hthrew : s.jvm.threw with
  | none => simpa using hstarted.trans hbound
  | some o =>
    rw [(threwIdle_run h o hthrew).2, List.length_nil] at hstarted
    simpa using hstarted

/-- A message whose insert asks for nothing is handed out, and the answer fails the stream. -/
theorem run_refused {s : State P σ} {p : P} {payload : String} {insert : Future WriteRequest Unit} {random : σ}
    (hf : s.jvm.failed = false) (hidle : s.jvm.process = .empty) (hlog : (s.log p)[s.jvm.position p]? = some payload)
    (hmsg : processMessage env payload s.jvm.random = (.ok insert, random)) (hnone : insert.requests = [])
    (hfails : insert.Fails) : ∃ t, Machine.run (step env) s [.deliver p, .complete 0 []] = some t ∧ t.jvm.failed = true := by
  obtain ⟨e, he⟩ := hfails []
  simp [Machine.run, step, hf, hidle, hlog, hmsg, MapAsync.push?, MapAsync.empty, MapAsync.running?, Delivery.mayAnswer,
    hnone, he]

/-- The database is missing, and creating it was refused. -/
def unconnected : Env Unit Java.Seed :=
  { textEnv with db := .connect (.ok false) (.error (runtimeException "not allowed")) }

/-- An event is handed out, and its insert fails. -/
theorem no_database_refused : ∃ s, Machine.run (step unconnected) (State.init unconnected specLog)
    [.deliver (), .complete 0 []] = some s ∧ s.succeeded = [] ∧ s.jvm.handed.length ≤ 1 := by
  have hL : unconnected.libs.Documented := textLibs_documented
  have hmsg := processMessage_eventToJson hL JsonCodexSpec.event unconnected.seed
  obtain ⟨hnone, hfails⟩ := fails_of_no_database (e := runtimeException "not allowed") rfl hmsg
  obtain ⟨s, hrun, -⟩ := run_refused (s := State.init unconnected specLog) (p := ()) rfl rfl rfl hmsg hnone hfails
  obtain ⟨-, hsucceeded, -, hstarted⟩ := no_database _ rfl (by simp) hrun
  exact ⟨s, hrun, hsucceeded, hstarted⟩

end Graph

end TransferDashboard
