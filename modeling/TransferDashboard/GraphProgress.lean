/-
The stream gets through: what is in the topic is in the end processed and
committed.

Every action but a producer's and a crash takes something from the work that
is left (`work_step`), so between them the stream stops by itself; and while
something is neither processed nor committed, and the messages are events, a
stream that has not failed can go on (`goes_on`). So it stops where all is
processed and committed, whatever order things happen in, and a failed one
gets there after a restart (`drains`).
-/
import TransferDashboard.GraphHalts
import TransferDashboard.GraphOrder

namespace TransferDashboard

open Scala Joda Json Random Stage KeyedStore KeyedStream CommitLog EventPoint

namespace Graph

variable {P σ : Type} [DecidableEq P] {env : Env P σ}

/-! ## The work that is left -/

/-- What a message in `mapAsync(1)` still has to go through. -/
def processWork : Slot (Delivery P) → Nat
  | .running d => if d.stored then 6 else 7
  | .completed _ => 5

/-- What a batch in `mapAsync(3)` still has to go through. -/
def commitWork : Slot (Commit P) → Nat
  | .running c => if c.applied then 2 else 3
  | .completed _ => 1

def Jvm.work (jvm : Jvm P σ) : Nat :=
  (if jvm.failed then 0 else 1) + (jvm.process.slots.map processWork).sum + 4 * jvm.batch.held.length +
    (jvm.commits.slots.map commitWork).sum

variable [Fintype P]

/-- The messages the process has not come to. -/
def State.left (s : State P σ) : Nat := ∑ p, ((s.log p).length - s.jvm.position p)

def State.work (s : State P σ) : Nat := 8 * s.left + s.jvm.work

theorem left_deliver {s : State P σ} {p : P} (hlt : s.jvm.position p < (s.log p).length) :
    ∑ q, ((s.log q).length - Function.update s.jvm.position p (s.jvm.position p + 1) q) + 1 = s.left := by
  have hsum := Machine.sum_of_agree (f := fun q => (s.log q).length - s.jvm.position q)
    (g := fun q => (s.log q).length - Function.update s.jvm.position p (s.jvm.position p + 1) q) p
    (fun q hq => by simp only [Function.update_of_ne hq])
  simp only [Function.update_self] at hsum
  rw [State.left]
  omega

theorem left_send (s : State P σ) (p : P) (value : String) :
    ∑ q, ((Function.update s.log p (s.log p ++ [value]) q).length - s.jvm.position q) ≤ s.left + 1 := by
  have hsum := Machine.sum_of_agree (f := fun q => (s.log q).length - s.jvm.position q)
    (g := fun q => (Function.update s.log p (s.log p ++ [value]) q).length - s.jvm.position q) p
    (fun q hq => by simp only [Function.update_of_ne hq])
  simp only [Function.update_self, List.length_append, List.length_singleton] at hsum
  rw [State.left]
  omega

/-- **Every action is some of the work.** -/
theorem work_step {s s' : State P σ} {a : Act P} (ha : a ≠ .crash) (hs : Step env s a s') :
    s'.work + 1 ≤ s.work + if a.isSend then 9 else 0 := by
  cases hs with
  | crash => exact absurd rfl ha
  | @send r ht =>
    have hleft := left_send s (env.partitioner r.key) r.value
    simp only [State.work, State.left, Act.isSend, if_true] at hleft ⊢
    omega
  | sendElsewhere =>
    simp only [Act.isSend, if_true]
    omega
  | @deliver p payload insert random process hf hidle hlog hmsg hslots =>
    obtain ⟨hlt, -⟩ := List.getElem?_eq_some_iff.1 hlog
    have hleft := left_deliver hlt
    simp only [State.work, State.left, Jvm.work, hslots, hidle, Act.isSend, processWork, List.map_cons, List.map_nil,
      List.sum_cons, List.sum_nil, Bool.false_eq_true, if_false] at hleft ⊢
    omega
  | deliverThrows hf | completeFails hf | commitFails hf =>
    simp only [State.work, State.left, Jvm.work, hf, Act.isSend, Bool.false_eq_true, if_false, if_true]
    omega
  | @store i d hrun hd =>
    have hsum := MapAsync.sum_set processWork hrun (.running { d with stored := true })
    simp only [processWork, hd, Bool.false_eq_true, if_false, if_true] at hsum
    simp only [State.work, State.left, Jvm.work, Act.isSend, Bool.false_eq_true, if_false]
    omega
  | @complete i answers d hf hrun hans hok =>
    have hsum := MapAsync.sum_set processWork hrun (.completed d)
    have hwork : 6 ≤ processWork (.running d) := by
      simp only [processWork]
      split <;> omega
    simp only [State.work, State.left, Jvm.work, Act.isSend, Bool.false_eq_true, if_false]
    simp only [processWork] at hsum hwork
    omega
  | aggregate hf hslots hpush =>
    simp only [State.work, State.left, Jvm.work, hslots, Batch.push?_held hpush, processWork, List.map_cons,
      List.sum_cons, List.length_append, List.length_singleton, Act.isSend, Bool.false_eq_true, if_false]
    omega
  | flush hf hflush hslots =>
    obtain ⟨hheld, hne⟩ := Batch.flush?_held hflush
    have hpos := List.length_pos_of_ne_nil hne
    simp only [State.work, State.left, Jvm.work, hslots, ← hheld, commitWork, List.map_append, List.map_cons,
      List.map_nil, List.sum_append, List.sum_cons, List.sum_nil, List.length_append, Act.isSend, Bool.false_eq_true,
      if_false]
    omega
  | @applyCommit i c hrun hc =>
    have hsum := MapAsync.sum_set commitWork hrun (.running { c with applied := true })
    simp only [commitWork, hc, Bool.false_eq_true, if_false, if_true] at hsum
    simp only [State.work, State.left, Jvm.work, Act.isSend, Bool.false_eq_true, if_false]
    omega
  | @completeCommit i c hf hrun hc =>
    have hsum := MapAsync.sum_set commitWork hrun (.completed c)
    simp only [commitWork, hc, if_true] at hsum
    simp only [State.work, State.left, Jvm.work, Act.isSend, Bool.false_eq_true, if_false]
    omega
  | sink hf hslots =>
    simp only [State.work, State.left, Jvm.work, hslots, commitWork, List.map_cons, List.sum_cons, Act.isSend,
      Bool.false_eq_true, if_false]
    omega

/-! ## Going on -/

/-- Everything in the topic is committed. -/
def State.Drained (s : State P σ) : Prop := ∀ p, (s.committed p).getD 0 = (s.log p).length

omit [Fintype P] in
/-- Nothing is on its way and nothing is left: all is committed. -/
theorem Spans.drained {s : State P σ} (h : Spans s) (hidle : s.Idle) : s.Drained := by
  obtain ⟨hprocess, hbatch, hcommits, hall⟩ := hidle
  obtain ⟨gone, hbacklog⟩ := h.backlog
  have hpending : s.jvm.batch.pending = none := by
    by_contra hne
    have hfull := s.jvm.batch.full hne
    rw [hbatch] at hfull
    cases hfull
  have hnone : s.backlog.map Started.offset = [] := by
    rw [hbacklog.backlog_eq]
    simp [Jvm.outstanding, MapAsync.elems, Batch.held, hprocess, hbatch, hcommits, hpending]
  intro p
  have hstretch := h.stream_backlog p
  rw [hnone, stream_nil, eq_comm, List.map_eq_nil_iff, List.range'_eq_nil_iff] at hstretch
  have hwithin := h.within p
  have hahead := hall p
  have hbehind : (s.committed p).getD 0 ≤ s.jvm.position p := by
    cases hn : s.committed p with
    | none => exact Nat.zero_le _
    | some n => exact hbacklog.behind p n hn
  omega

omit [Fintype P] in
/-- **No dead end.** Short of everything committed, a stream of events that
has not failed can go on. -/
theorem goes_on (hdb : env.db.dbFuture = .ok ()) {s : State P σ} (hspans : Spans s) (hissued : Issued env s)
    (hall : s.AllEvents env) (hf : s.jvm.failed = false) (hnot : ¬ s.Drained) : GoesOn env s := by
  cases hprocess : s.jvm.process.slots with
  | cons slot rest =>
    exact process_goes_on hdb hf hprocess (hissued.insert_eq hall (by rw [hprocess]; exact List.mem_cons_self))
  | nil =>
    cases hcommits : s.jvm.commits.slots with
    | cons slot rest => exact commits_go_on hf hcommits
    | nil =>
      by_cases hbatch : s.jvm.batch.elems = []
      · by_contra hstuck
        refine hnot (hspans.drained ⟨hprocess, hbatch, hcommits, fun p => ?_⟩)
        by_contra hlt
        have hlog := List.getElem?_eq_getElem (Nat.lt_of_not_le hlt)
        obtain ⟨e, he⟩ := hall p _ (List.mem_of_getElem? hlog)
        exact hstuck (deliver_goes_on hf hprocess hlog he)
      · exact batch_goes_on hf (if_neg hbatch)

/-- **Where the stream stops.** Take any state a run reaches with commits in
order, through whatever failures and crashes, over a topic of events and with
the database there. Without another crash there is an end to it: at most
`work` actions are left, and nine for each record sent meanwhile. And where a
stream that has not failed cannot go on, everything in the topic has been
processed and committed. -/
theorem stops_drained (env : Env P σ) (hdb : env.db.dbFuture = .ok ()) {log : P → List String} {acts : List (Act P)}
    {s : State P σ} (hord : Machine.Meets (step env) CommitsInOrder (State.init env log) acts)
    (h : Machine.run (step env) (State.init env log) acts = some s) (hall : s.AllEvents env)
    (hf : s.jvm.failed = false) :
    (∀ more t, (∀ a ∈ more, a ≠ .crash) → Machine.run (step env) s more = some t →
      more.length ≤ s.work + 9 * more.countP Act.isSend) ∧
    (¬ CanGoOn env s → ∀ p, (s.committed p).getD 0 = (s.log p).length ∧
      ∀ o < (s.log p).length, (p, o) ∈ s.succeeded) := by
  obtain ⟨-, -, hcovered⟩ := safe_run h
  refine ⟨fun more t hcrash hrun => ?_, fun hstuck p => ?_⟩
  · have hbound := Machine.run_length_le (fun _ => True) (fun _ a => a ≠ .crash) State.work Act.isSend 9
      (fun _ _ _ _ _ _ => trivial)
      (fun _ _ _ _ ha hstep => work_step ha (step_sound hstep)) trivial
      (Machine.meets_of_forall fun a ha _ => hcrash a ha) hrun
    omega
  · have hdrained : s.Drained := by
      by_contra hnot
      exact hstuck (goes_on hdb (spans_run hord h) (issued_run h) hall hf hnot).canGoOn
    exact ⟨hdrained p, fun o ho => hcovered p o (Nat.lt_of_lt_of_eq ho (hdrained p).symm)⟩

theorem twoMessages_events {s : State Unit Java.Seed} (h : s.log () = twoMessages) : s.AllEvents textEnv := by
  have hlog : ∀ p, s.log p = [JsonCodexSpec.event, secondEvent].map (JsonCodex.eventToJson textEnv.libs) := fun _ => h
  exact allEvents_of_loaded textLibs_documented hlog

/-- Two messages gathered, and then committed: no more actions than there is
work, and nothing is left. -/
theorem stops_drained_two : ∃ t u,
    Machine.run (step textEnv) (State.init textEnv fun _ => twoMessages) (handle () ++ handle ()) = some t ∧
    Machine.run (step textEnv) t commitBatch = some u ∧
      (commitBatch : List (Act Unit)).length ≤ t.work + 9 * (commitBatch : List (Act Unit)).countP Act.isSend ∧
      (u.committed ()).getD 0 = (u.log ()).length ∧ ((), 1) ∈ u.succeeded := by
  obtain ⟨t, hrun, hlog, -, hposition, hf, hprocess, hcommits, hflush, -⟩ :=
    run_two (s := State.init textEnv fun _ => twoMessages) rfl rfl rfl
  have hcommit : Machine.run (step textEnv) t commitBatch = some (t.committedBatch [((), 0), ((), 1)]) :=
    run_commitBatch hf hcommits hflush
  have hwhole := Machine.run_append.2 ⟨t, hrun, hcommit⟩
  have hord := (lined_init _).meets (by simp [handle]) hrun
  have hord' := (lined_init _).meets (by simp [handle, commitBatch]) hwhole
  have hmessages : t.log () = twoMessages := congrFun hlog ()
  have htwo : (t.log ()).length = 2 := congrArg List.length hmessages
  have hidle : (t.committedBatch [((), 0), ((), 1)]).Idle :=
    ⟨by simp only [State.committedBatch, hprocess]; rfl, rfl, by simp only [State.committedBatch, hcommits]; rfl,
      fun _ => by simp only [State.committedBatch, hposition, htwo]; rfl⟩
  obtain ⟨hwork, -⟩ := stops_drained textEnv rfl hord hrun (twoMessages_events hmessages) hf
  obtain ⟨-, hstops⟩ := stops_drained textEnv rfl hord' hwhole (twoMessages_events hmessages) hf
  obtain ⟨hcommitted, hsucceeded⟩ := hstops hidle.not_canGoOn ()
  exact ⟨t, _, hrun, hcommit, hwork _ _ (by simp [commitBatch]) hcommit, hcommitted,
    hsucceeded 1 (Nat.lt_of_lt_of_eq Nat.one_lt_two htwo.symm)⟩

/-! ## After a restart -/

/-- A process on its way: nothing has failed, and its commits take effect one after another. -/
structure OnItsWay (env : Env P σ) (s : State P σ) : Prop where
  spans : Spans s
  issued : Issued env s
  events : s.AllEvents env
  running : s.jvm.failed = false
  lined : Lined s

omit [Fintype P] in
/-- Short of everything committed, it has a next step, and stays on its way. -/
theorem OnItsWay.next (hdb : env.db.dbFuture = .ok ()) {s : State P σ} (h : OnItsWay env s) (hnot : ¬ s.Drained) :
    ∃ a s', (CommitsInOrder s a ∧ a ≠ .crash ∧ a.sent? = none) ∧ step env s a = some s' ∧ OnItsWay env s' := by
  obtain ⟨a, s', hcrash, hsend, hfirst, hstep, hf⟩ := goes_on hdb h.spans h.issued h.events h.running hnot
  have hs := step_sound hstep
  have hord : CommitsInOrder s a := h.lined.ok hfirst hs
  have hlog : s'.log = s.log := by
    cases hs with
    | send | sendElsewhere => cases hsend
    | _ => rfl
  refine ⟨a, s', ⟨hord, hcrash, hsend⟩, hstep, h.spans.step hord hs, h.issued.step hs, ?_, hf, h.lined.step hfirst hs⟩
  rw [State.AllEvents, hlog]
  exact h.events

omit [Fintype P] in
/-- Wherever the positions are committed, a restart begins within the log, with nothing taken yet. -/
theorem spans_restart {s : State P σ} (hgenuine : Genuine env s) (hcovered : Covered s.abs) :
    Spans { s with jvm := .start env s.committed } := by
  refine ⟨⟨[], backlog_start rfl⟩, ⟨_, consecutive_start rfl, fun _ => Nat.le_refl _⟩, fun p => ?_⟩
  by_contra hlt
  obtain ⟨d, hd, ⟨payload, random, hget, -⟩, -⟩ := hgenuine.succeeded _ (hcovered p (s.log p).length (Nat.lt_of_not_le hlt))
  rw [hd] at hget
  obtain ⟨hpast, -⟩ := List.getElem?_eq_some_iff.1 hget
  exact Nat.lt_irrefl _ hpast

/-- **A restart gets there.** Whatever state a run has reached, failed or not,
and in whatever order its commits took effect: if the topic holds events and
the database is there, one restart and some way to go on, without a further
crash or failure, leave everything in the topic processed and committed. -/
theorem restart_drains (env : Env P σ) (hdb : env.db.dbFuture = .ok ()) {log : P → List String} {acts : List (Act P)}
    {s : State P σ} (h : Machine.run (step env) (State.init env log) acts = some s) (hall : s.AllEvents env) :
    ∃ more t, Machine.run (step env) s (.crash :: more) = some t ∧ (∀ a ∈ more, a ≠ .crash) ∧
      t.jvm.failed = false ∧ t.log = s.log ∧
      ∀ p, (t.committed p).getD 0 = (s.log p).length ∧ ∀ o < (s.log p).length, (p, o) ∈ t.succeeded := by
  obtain ⟨-, hgenuine, hcovered⟩ := safe_run h
  have hstart : OnItsWay env { s with jvm := .start env s.committed } :=
    ⟨spans_restart hgenuine hcovered, issued_start rfl, hall, rfl, List.Pairwise.nil⟩
  have hgo : ∀ u, OnItsWay env u ∧ u.log = s.log → ¬ u.Drained → ∃ a u',
      (CommitsInOrder u a ∧ a ≠ .crash ∧ a.sent? = none) ∧ step env u a = some u' ∧
        (OnItsWay env u' ∧ u'.log = s.log) ∧ u'.work < u.work := by
    intro u hu hnot
    obtain ⟨a, u', hok, hstep, hway⟩ := hu.1.next hdb hnot
    have hs := step_sound hstep
    have hless := work_step hok.2.1 hs
    have hsend : a.isSend = false := by
      cases a with
      | send => cases hok.2.2
      | _ => rfl
    have hlog : u'.log = u.log := by
      cases hs with
      | send | sendElsewhere => cases hok.2.2
      | _ => rfl
    rw [hsend] at hless
    exact ⟨a, u', hok, hstep, ⟨hway, hlog.trans hu.2⟩, hless⟩
  obtain ⟨more, t, hmeets, hrun, ⟨hway, hlog⟩, hdone⟩ := Machine.exists_run_to hgo ⟨hstart, rfl⟩
  have hwhole : Machine.run (step env) (State.init env log) (acts ++ .crash :: more) = some t :=
    Machine.run_append.2 ⟨s, h, Machine.run_cons.2 ⟨_, rfl, hrun⟩⟩
  obtain ⟨-, -, hcovered⟩ := safe_run hwhole
  refine ⟨more, t, Machine.run_cons.2 ⟨_, rfl, hrun⟩,
    Machine.Meets.forall_mem (fun _ _ hok => hok.2.1) hmeets hrun, hway.running, hlog, fun p => ?_⟩
  rw [← hlog]
  exact ⟨hdone p, fun o ho => hcovered p o (Nat.lt_of_lt_of_eq ho (hdone p).symm)⟩

/-- Two messages are committed one by one, and the second commit takes effect
before the first, which is then refused. -/
def overtaken : List (Act Unit) :=
  handle () ++ .flush :: (handle () ++ [.flush, .applyCommit 1, .applyCommit 0, .completeCommit 0 false])

/-- The position was taken back and the stream has failed; a restart commits all the same. -/
theorem restart_drains_overtaken : ∃ s more t,
    Machine.run (step textEnv) (State.init textEnv (repeated 2)) overtaken = some s ∧ s.jvm.failed = true ∧
      s.committed () = some 1 ∧ Machine.run (step textEnv) s (.crash :: more) = some t ∧
      (t.committed ()).getD 0 = 2 ∧ ((), 1) ∈ t.succeeded := by
  have hL : textEnv.libs.Documented := textLibs_documented
  obtain ⟨s, hrun, hlog, hfailed, hcommitted⟩ : ∃ s,
      Machine.run (step textEnv) (State.init textEnv (repeated 2)) overtaken = some s ∧ s.log = repeated 2 ∧
        s.jvm.failed = true ∧ s.committed () = some 1 :=
    ⟨_, Machine.run_append.2 ⟨_, run_handle (e := JsonCodexSpec.event) hL rfl rfl rfl rfl rfl, Machine.run_cons.2 ⟨_, rfl,
      Machine.run_append.2 ⟨_, run_handle (e := JsonCodexSpec.event) hL rfl rfl rfl rfl rfl, rfl⟩⟩⟩, rfl, rfl, rfl⟩
  have hloaded : ∀ p, s.log p = (List.replicate 2 JsonCodexSpec.event).map (JsonCodex.eventToJson textEnv.libs) :=
    fun p => congrFun hlog p
  have hall : s.AllEvents textEnv := allEvents_of_loaded hL hloaded
  obtain ⟨more, t, hmore, -, -, -, hdone⟩ := restart_drains textEnv rfl hrun hall
  rw [hlog] at hdone
  exact ⟨s, more, t, hrun, hfailed, hcommitted, hmore, (hdone ()).1, (hdone ()).2 1 Nat.one_lt_two⟩

end Graph

end TransferDashboard
