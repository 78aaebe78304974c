/-
Processing a partition again after a crash.

The stamp of a row holds a draw, and a fresh JVM draws from the seed again:
a message gets the draws it got before exactly when as many messages go
before it in its process. So a partition that is always begun at its first
message writes the same rows however often it crashes, and leaves what one
run without crashes leaves (`rows_of_whole_restarts`); one message committed
before the crash is enough to break it (`replay_adds_rows`).
-/
import TransferDashboard.GraphCommits
import TransferDashboard.GraphInserts
import TransferDashboard.Lib.Replay

namespace TransferDashboard

open Scala Random Stage KeyedStore Replay EventPoint

namespace Graph

variable {σ : Type} {env : Env Unit σ} {msgs : List String}

/-- `processMessage` as a processor of payloads. -/
def messages (env : Env Unit σ) : Processor σ String RowKey Fields where
  rows random payload :=
    match (processMessage env payload random).1 with
    | .ok insert => insert.requests.flatMap WriteRequest.rows
    | .error _ => []
  next random payload := (processMessage env payload random).2

/-- The source after the first `k` messages of a pass. -/
def randomAt (env : Env Unit σ) (msgs : List String) (k : Nat) : σ := (messages env).after env.seed (msgs.take k)

/-- `mapAsync(1)` between the first `stored` messages and the `position`. -/
inductive AtStage (env : Env Unit σ) (msgs : List String) : List (Slot (Delivery Unit)) → Nat → Nat → Prop
  | idle (k : Nat) : AtStage env msgs [] k k
  | asked {d : Delivery Unit} {k : Nat} {payload : String} {random : σ} (hd : d.stored = false)
      (ho : d.offset.2 = k) (hm : msgs[k]? = some payload)
      (hmsg : processMessage env payload (randomAt env msgs k) = (.ok d.insert, random)) :
      AtStage env msgs [.running d] k (k + 1)
  | stored {slot : Slot (Delivery Unit)} {k : Nat} (hs : ∀ d, slot = .running d → d.stored = true)
      (ho : slot.elem.offset.2 < k) : AtStage env msgs [slot] k k

/-- A pass over the partition from its first message, of which `k` messages
are stored: only those are on their way to a commit. -/
structure Pass (env : Env Unit σ) (msgs : List String) (s : State Unit σ) (k : Nat) : Prop where
  log : s.log () = msgs
  rows : Replayed (messages env) env.seed msgs s.rows k
  random : s.jvm.random = randomAt env msgs (s.jvm.position ())
  stage : AtStage env msgs s.jvm.process.slots k (s.jvm.position ())
  commits : CommitsWithin (fun _ n => n ≤ k) s

/-- A process that found everything committed, and has nothing to do. -/
structure Finished (env : Env Unit σ) (msgs : List String) (s : State Unit σ) : Prop where
  log : s.log () = msgs
  rows : s.rows = putAll empty ((messages env).writes env.seed msgs)
  position : s.jvm.position () = msgs.length
  process : s.jvm.process.slots = []
  batch : s.jvm.batch.elems = []
  commits : s.jvm.commits.slots = []
  committed : s.committed () = some msgs.length

theorem pass_init : Pass env msgs (State.init env fun _ => msgs) 0 where
  log := rfl
  rows := .init env.seed msgs
  random := rfl
  stage := .idle 0
  commits := .init _

/-- A pass begun anew. -/
theorem Pass.restart {s : State Unit σ} {k : Nat} (h : Pass env msgs s k) (hnone : s.committed () = none) :
    Pass env msgs { s with jvm := .start env s.committed } 0 := by
  have hpos : (Jvm.start env s.committed).position () = 0 := by simp only [Jvm.start, hnone, Option.getD_none]
  have hcommits : CommitsWithin (fun _ n => n ≤ 0) { s with jvm := .start env s.committed } := by
    refine { batch := ?_, commits := ?_, committed := ?_ }
    · intro o ho
      cases ho
    · intro slot hslot
      cases hslot
    · intro p n hn
      simp only [hnone] at hn
      cases hn
  refine { log := h.log, rows := h.rows.restart, random := ?_, stage := ?_, commits := hcommits }
  · simp only [hpos]
    rfl
  · simp only [hpos]
    exact .idle 0

/-- A process begun after everything was committed. -/
theorem Pass.finish {s : State Unit σ} {k : Nat} (h : Pass env msgs s k) (hall : s.committed () = some msgs.length) :
    Finished env msgs { s with jvm := .start env s.committed } where
  log := h.log
  rows := h.rows.complete (h.commits.committed () _ hall)
  position := by simp only [Jvm.start, hall, Option.getD_some]
  process := rfl
  batch := rfl
  commits := rfl
  committed := hall

/-- The offset that leaves `mapAsync(1)` is one of a stored message. -/
theorem AtStage.completed_lt {slots : List (Slot (Delivery Unit))} {k n : Nat} (h : AtStage env msgs slots k n)
    (d : Delivery Unit) (hd : .completed d ∈ slots) : d.offset.2 + 1 ≤ k := by
  cases h with
  | idle => cases hd
  | asked => cases List.mem_singleton.1 hd
  | stored hs ho =>
    rw [← List.mem_singleton.1 hd] at ho
    exact ho

theorem AtStage.position_of_idle {k n : Nat} (h : AtStage env msgs [] k n) : n = k := by
  cases h with
  | idle => rfl

/-- What an action other than a crash does to a pass. -/
theorem Pass.step {s s' : State Unit σ} {a : Act Unit} {k : Nat} (h : Pass env msgs s k) (ha : a ≠ .crash)
    (hsend : a.sent? = none) (hfalse : FalseIsStored s a) (hs : Step env s a s') : ∃ k', Pass env msgs s' k' := by
  have hcommits : CommitsWithin (fun _ n => n ≤ k) s' := h.commits.step hs h.stage.completed_lt
  cases hs with
  | send | sendElsewhere => cases hsend
  | crash => exact absurd rfl ha
  | completeFails | commitFails | flush | applyCommit | completeCommit | sink => exact ⟨k, { h with commits := hcommits }⟩
  | deliverThrows hf hidle hlog hmsg =>
    exact ⟨k, { h with random := (random_of_throws hmsg).trans h.random, commits := hcommits }⟩
  | @deliver p payload insert random process hf hidle hlog hmsg hslots =>
    have hpos : s.jvm.position () = k := AtStage.position_of_idle (hidle ▸ h.stage)
    have hm : msgs[k]? = some payload := by rw [← h.log, ← hpos]; exact hlog
    have hrandom : s.jvm.random = randomAt env msgs k := by rw [h.random, hpos]
    refine ⟨k, { h with random := ?_, stage := ?_, commits := hcommits }⟩
    · simp only [Function.update_self, hpos]
      rw [randomAt, Processor.after_take_succ env.seed hm, ← randomAt, ← hrandom]
      simp only [messages, hmsg]
    · simp only [hslots, Function.update_self, hpos]
      exact .asked rfl rfl hm (hrandom ▸ hmsg)
  | @store i d hrun hd =>
    obtain ⟨rfl, hslots⟩ := MapAsync.slots_of_running? hrun
    have hstage := h.stage
    rw [hslots] at hstage
    generalize hpos : s.jvm.position () = n at hstage
    cases hstage with
    | stored hs ho => exact absurd (hs d rfl) (by rw [hd]; exact Bool.false_ne_true)
    | @asked _ _ payload random _ ho hm hmsg =>
      have hrows : s.rows.store d.insert.requests =
          putAll s.rows ((messages env).rows (randomAt env msgs k) payload) := by
        simp only [messages, hmsg]
        rfl
      refine ⟨k + 1, { h with rows := ?_, stage := ?_, commits := hcommits.mono fun _ _ hn => Nat.le_succ_of_le hn }⟩
      · simp only [hrows]
        exact h.rows.write hm
      · simp only [MapAsync.slots_set, hslots, hpos]
        refine .stored (fun d' hd' => ?_) (by rw [Slot.elem_running, ho]; exact Nat.lt_succ_self k)
        cases hd'
        rfl
  | @complete i answers d hf hrun hans hok =>
    obtain ⟨rfl, hslots⟩ := MapAsync.slots_of_running? hrun
    have hstage := h.stage
    rw [hslots] at hstage
    generalize hpos : s.jvm.position () = n at hstage
    cases hstage with
    | @asked _ _ payload random hd ho hm hmsg =>
      -- Not stored yet: no answer can be a Boolean, so the insert cannot succeed.
      rw [stored_of_ok hmsg hans (hfalse d hrun) hok] at hd
      cases hd
    | stored hs ho =>
      refine ⟨k, { h with stage := ?_, commits := hcommits }⟩
      simp only [MapAsync.slots_set, hslots, hpos]
      exact .stored (fun d' hd' => by cases hd') ho
  | @aggregate d process batch hf hslots hpush =>
    have hstage := h.stage
    rw [hslots] at hstage
    generalize hpos : s.jvm.position () = n at hstage
    generalize hrest : process.slots = rest at hstage
    cases hstage with
    | stored hs ho =>
      refine ⟨k, { h with stage := ?_, commits := hcommits }⟩
      simp only [hpos, hrest]
      exact .idle k

theorem Finished.step {s s' : State Unit σ} {a : Act Unit} (h : Finished env msgs s) (hsend : a.sent? = none)
    (hs : Step env s a s') : Finished env msgs s' := by
  have hidle : s.Idle := ⟨h.process, h.batch, h.commits, fun _ => by rw [h.log, h.position]⟩
  rcases hidle.step hs with rfl | hsent
  · cases hs with
    | crash =>
      refine { h with position := ?_, process := rfl, batch := rfl, commits := rfl }
      simp only [Jvm.start, h.committed, Option.getD_some]
  · exact absurd hsend hsent

/-! ## Whole restarts -/

/-- A crash finds the partition with no commit that took effect, or with all of it committed. -/
def RestartsWhole (s : State Unit σ) (a : Act Unit) : Prop :=
  a = .crash → s.committed () = none ∨ s.committed () = some (s.log ()).length

/-- Every message has been processed successfully. -/
def State.CaughtUp (s : State Unit σ) : Prop :=
  s.jvm.position () = (s.log ()).length ∧ ∀ slot ∈ s.jvm.process.slots, ∃ d, slot = .completed d

/-- What holds after every run over a fixed partition that restarts only whole. -/
theorem pass_run {acts : List (Act Unit)} {s : State Unit σ}
    (hrun : Machine.run (step env) (State.init env fun _ => msgs) acts = some s) (hfixed : ∀ a ∈ acts, a.sent? = none)
    (hwhole : Machine.Meets (step env) RestartsWhole (State.init env fun _ => msgs) acts)
    (hstored : Machine.Meets (step env) FalseIsStored (State.init env fun _ => msgs) acts) :
    (∃ k, Pass env msgs s k) ∨ Finished env msgs s := by
  refine Machine.run_induction (G := fun s a => a.sent? = none ∧ RestartsWhole s a ∧ FalseIsStored s a)
    (I := fun _ s => (∃ k, Pass env msgs s k) ∨ Finished env msgs s) (.inl ⟨0, pass_init⟩) ?_
    ((Machine.meets_of_forall fun a ha _ => hfixed a ha).and (hwhole.and hstored)) hrun
  intro _ t a t' ih ⟨hsend, hwhole, hstored⟩ hstep
  have hs := step_sound hstep
  rcases ih with ⟨k, hpass⟩ | hfinished
  · by_cases hcrash : a = .crash
    · subst hcrash
      cases hs with
      | crash =>
        rcases hwhole rfl with hnone | hall
        · exact .inl ⟨0, hpass.restart hnone⟩
        · exact .inr (hpass.finish (by rw [hall, hpass.log]))
    · exact .inl (hpass.step hcrash hsend hstored hs)
  · exact .inr (hfinished.step hsend hs)

theorem Pass.rows_of_caughtUp {s : State Unit σ} {k : Nat} (h : Pass env msgs s k) (hdone : s.CaughtUp) :
    s.rows = putAll empty ((messages env).writes env.seed msgs) := by
  obtain ⟨hpos, hslots⟩ := hdone
  rw [h.log] at hpos
  have hk : k = msgs.length := by
    have hstage := h.stage
    rw [hpos] at hstage
    generalize hn : msgs.length = n at hstage
    generalize hs : s.jvm.process.slots = slots at hstage
    cases hstage with
    | idle => rfl
    | stored => rfl
    | @asked d =>
      obtain ⟨d', hd'⟩ := hslots (.running d) (by rw [hs]; exact List.mem_singleton_self _)
      cases hd'
  exact h.rows.complete (by rw [hk])

/-- The rows a partition comes to, when it is processed and never begun in the middle. -/
theorem rows_of_run {acts : List (Act Unit)} {s : State Unit σ}
    (hrun : Machine.run (step env) (State.init env fun _ => msgs) acts = some s) (hfixed : ∀ a ∈ acts, a.sent? = none)
    (hwhole : Machine.Meets (step env) RestartsWhole (State.init env fun _ => msgs) acts)
    (hstored : Machine.Meets (step env) FalseIsStored (State.init env fun _ => msgs) acts) (hdone : s.CaughtUp) :
    s.rows = putAll empty ((messages env).writes env.seed msgs) := by
  rcases pass_run hrun hfixed hwhole hstored with ⟨k, hpass⟩ | hfinished
  · exact hpass.rows_of_caughtUp hdone
  · exact hfinished.rows

/-- **Replay from the beginning.** Over a fixed partition, with a database that
answers no insert `false` without having stored it, a run with any number of
crashes, each of which finds no commit in effect or everything committed,
leaves in every state in which all messages have been processed the rows of
a run without crashes. -/
theorem rows_of_whole_restarts (env : Env Unit σ) (msgs : List String) {acts acts' : List (Act Unit)}
    {s s' : State Unit σ} (hrun : Machine.run (step env) (State.init env fun _ => msgs) acts = some s)
    (hfixed : ∀ a ∈ acts, a.sent? = none)
    (hwhole : Machine.Meets (step env) RestartsWhole (State.init env fun _ => msgs) acts)
    (hstored : Machine.Meets (step env) FalseIsStored (State.init env fun _ => msgs) acts) (hdone : s.CaughtUp)
    (hrun' : Machine.run (step env) (State.init env fun _ => msgs) acts' = some s')
    (hfixed' : ∀ a ∈ acts', a.sent? = none) (hcrash' : ∀ a ∈ acts', a ≠ .crash)
    (hstored' : Machine.Meets (step env) FalseIsStored (State.init env fun _ => msgs) acts') (hdone' : s'.CaughtUp) :
    s.rows = s'.rows := by
  have hwhole' : Machine.Meets (step env) RestartsWhole (State.init env fun _ => msgs) acts' :=
    Machine.meets_of_forall fun a ha s hcrash => absurd hcrash (hcrash' a ha)
  rw [rows_of_run hrun hfixed hwhole hstored hdone, rows_of_run hrun' hfixed' hwhole' hstored' hdone']

/-- Two messages are processed and lost in a crash before their commit, are
processed again and committed, and the process is lost again. -/
def lostTwice : List (Act Unit) :=
  (handle () ++ handle ()) ++ .crash :: ((handle () ++ handle ()) ++ (commitBatch ++ [.crash]))

/-- The first crash finds nothing committed, the second everything. -/
theorem run_lostTwice : ∃ s, Machine.run (step textEnv) (State.init textEnv fun _ => twoMessages) lostTwice = some s ∧
    s.CaughtUp ∧ Machine.Meets (step textEnv) RestartsWhole (State.init textEnv fun _ => twoMessages) lostTwice := by
  have hwhole : ∀ (s : State Unit Java.Seed) acts, (∀ a ∈ acts, a ≠ .crash) →
      Machine.Meets (step textEnv) RestartsWhole s acts :=
    fun s acts h => Machine.meets_of_forall fun a ha _ hcrash => absurd hcrash (h a ha)
  obtain ⟨t, hrun, hlog, hnone, -⟩ := run_two (s := State.init textEnv fun _ => twoMessages) rfl rfl rfl
  obtain ⟨u, hrun', hlog', -, -, hf, -, hcommits, hflush, -⟩ :=
    run_two (s := { t with jvm := .start textEnv t.committed }) rfl (by rw [hnone]; rfl) (by rw [hlog]; rfl)
  have hcommit : Machine.run (step textEnv) u commitBatch = some (u.committedBatch [((), 0), ((), 1)]) :=
    run_commitBatch hf hcommits hflush
  have hall : (u.committedBatch [((), 0), ((), 1)]).committed () = some 2 := rfl
  have hlength : ((u.committedBatch [((), 0), ((), 1)]).log ()).length = 2 := by
    change (u.log ()).length = 2
    rw [hlog', hlog]
    rfl
  refine ⟨_, Machine.run_append.2 ⟨t, hrun, Machine.run_cons.2 ⟨_, rfl, Machine.run_append.2 ⟨u, hrun',
    Machine.run_append.2 ⟨_, hcommit, rfl⟩⟩⟩⟩, ⟨?_, fun slot hslot => by cases hslot⟩, ?_⟩
  · exact hlength.symm
  · refine (hwhole _ _ (by simp [handle])).append fun t' ht' => ⟨fun _ => .inl ?_, fun v hv => ?_⟩
    · rw [hrun, Option.some.injEq] at ht'
      rw [← ht', hnone]
      rfl
    · rw [hrun, Option.some.injEq] at ht'
      subst ht'
      obtain rfl := Option.some.inj hv
      refine (hwhole _ _ (by simp [handle])).append fun u' hu' => ?_
      rw [hrun', Option.some.injEq] at hu'
      subst hu'
      refine (hwhole _ _ (by simp [commitBatch])).append fun w hw => ⟨fun _ => .inr ?_, fun _ _ => trivial⟩
      rw [hcommit, Option.some.injEq] at hw
      subst hw
      rw [hlength, hall]

/-- The rows after both crashes are those of a process that took each message once. -/
theorem rows_after_crashes : ∃ s s',
    Machine.run (step textEnv) (State.init textEnv fun _ => twoMessages) lostTwice = some s ∧
    Machine.run (step textEnv) (State.init textEnv fun _ => twoMessages) (handle () ++ handle ()) = some s' ∧
      s.rows = s'.rows := by
  obtain ⟨s, hrun, hdone, hwhole⟩ := run_lostTwice
  have hrun' : Machine.run (step textEnv) (State.init textEnv fun _ => twoMessages) (handle () ++ handle ()) = some _ :=
    Machine.run_append.2 ⟨_, run_handle (e := JsonCodexSpec.event) textLibs_documented rfl rfl rfl rfl rfl,
      run_handle (e := secondEvent) textLibs_documented rfl rfl rfl rfl rfl⟩
  exact ⟨s, _, hrun, hrun', rows_of_whole_restarts textEnv _ hrun (by simp [lostTwice, handle, commitBatch, Act.sent?])
    hwhole (falseIsStored_of_true (by simp [lostTwice, handle, commitBatch])) hdone hrun' (by simp [handle, Act.sent?])
    (by simp [handle]) (falseIsStored_of_true (by simp [handle])) ⟨rfl, by intro slot hslot; cases hslot⟩⟩

/-! ## Begun in the middle -/

/-- The draws of the first and the second message of a process. -/
def firstDraws : Fin 100000 × Fin 100000 := draws javaRandom textEnv.seed
def secondDraws : Fin 100000 × Fin 100000 := draws javaRandom (afterDraws javaRandom textEnv.seed)

theorem store_store (rows : Rows) (requests requests' : List WriteRequest) :
    (rows.store requests).store requests' = rows.store (requests ++ requests') := by
  rw [Rows.store, Rows.store, Rows.store, List.flatMap_append, putAll_append]

/-- The second event's size, stamped with the first message's draw, has a row of its own. -/
theorem sizeKey_not_mem : sizeKey (secondEvent, firstDraws) ∉
    keys (([requestOf JsonCodexSpec.event firstDraws] ++ [requestOf secondEvent secondDraws]).flatMap
      WriteRequest.rows) := by
  have hfirst : (stamp secondEvent.millis firstDraws.1).toInt ≠ (stamp JsonCodexSpec.event.millis firstDraws.1).toInt := by
    decide +kernel
  have hsecond : (stamp secondEvent.millis firstDraws.1).toInt ≠ (stamp secondEvent.millis secondDraws.1).toInt := by
    decide +kernel
  simp [keys, rows_requestOf, sizeKey, secondsKey, hfirst, hsecond]

theorem rows_differ : ((Rows.store empty [requestOf JsonCodexSpec.event firstDraws]).store
    [requestOf secondEvent secondDraws]).store [requestOf secondEvent firstDraws] ≠
      (Rows.store empty [requestOf JsonCodexSpec.event firstDraws]).store [requestOf secondEvent secondDraws] := by
  intro hrows
  rw [store_store empty _ [requestOf secondEvent secondDraws], store_store] at hrows
  have hnone := putAll_of_not_mem sizeKey_not_mem (empty : Rows)
  rw [← Rows.store, ← congrFun hrows, empty_apply] at hnone
  exact putAll_ne_none.2 (by simp [keys, rows_requestOf]) hnone

/-- **A row too many.** Two messages, of which the first is committed before
a crash: the second is processed again, as the first message of its process,
and its rows get the stamps of other draws. -/
theorem replay_adds_rows : ∃ s s',
    Machine.run (step textEnv) (State.init textEnv fun _ => twoMessages)
      (handle () ++ (commitBatch ++ (handle () ++ .crash :: handle ()))) = some s ∧ s.CaughtUp ∧
    Machine.run (step textEnv) (State.init textEnv fun _ => twoMessages) (handle () ++ handle ()) = some s' ∧
      s'.CaughtUp ∧ s.rows ≠ s'.rows := by
  have hL : textEnv.libs.Documented := textLibs_documented
  have hrun : Machine.run (step textEnv) (State.init textEnv fun _ => twoMessages)
      (handle () ++ (commitBatch ++ (handle () ++ .crash :: handle ()))) = some _ :=
    Machine.run_append.2 ⟨_, run_handle (e := JsonCodexSpec.event) hL rfl rfl rfl rfl rfl,
      Machine.run_append.2 ⟨_, run_commitBatch rfl rfl rfl, Machine.run_append.2
        ⟨_, run_handle (e := secondEvent) hL rfl rfl rfl rfl rfl, Machine.run_cons.2
          ⟨_, rfl, run_handle (e := secondEvent) hL rfl rfl rfl rfl rfl⟩⟩⟩⟩
  have hrun' : Machine.run (step textEnv) (State.init textEnv fun _ => twoMessages) (handle () ++ handle ()) = some _ :=
    Machine.run_append.2 ⟨_, run_handle (e := JsonCodexSpec.event) hL rfl rfl rfl rfl rfl,
      run_handle (e := secondEvent) hL rfl rfl rfl rfl rfl⟩
  exact ⟨_, _, hrun, ⟨rfl, by intro slot hslot; cases hslot⟩, hrun', ⟨rfl, by intro slot hslot; cases hslot⟩,
    rows_differ⟩

end Graph

end TransferDashboard
