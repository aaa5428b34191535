import Arcon.Node.Mirror

/-!
# Recovery

A checkpoint is taken in the middle of an epoch step. A node that is built on it redoes the rest of
the step in `on_start`: it runs `after_state_save`, with another wheel and without the metrics guard
that the first node holds there. Both runs have the same mirror, so they come to the same state and
log the same acts; and from there on each of the two does what that mirror does, with its own orders
of timeouts that are due at the same time.

* `Reached.sound`: the wheel agrees with the stored timeouts, and what `Node::new` sets up is there.
* `restored`: the node built on a checkpoint has the mirror of the node that took it.
* `recovery_iff`: recovery works exactly for the checkpoints whose deadlines all fit a `u64`. On any
  other one the sum in `replay_events` overflows.
-/

namespace Arcon

open Exec EventTimer Control

namespace Node

variable {σ W Id TS IN OUT : Type} [HashWheel W Id] [DecidableEq Id] [UuidSource Id]
  {n : Node σ TS IN OUT} {s s' s₁ s₂ t : TimedSt σ W Id IN OUT TS} {pre : List (Act IN OUT TS)}

/-! ## The states a node comes to -/

/-- Set up on whatever the backend holds and started, and then message after message or, within one,
event after event. -/
inductive Reached (n : Node σ TS IN OUT) : TimedSt σ W Id IN OUT TS → Prop
  | started {s s' : TimedSt σ W Id IN OUT TS} {st : NodeState IN} {op : σ}
    {timer : TimerState Id TS} {wasRestored : Bool}
    (hnew : Node.new n st op (EventTimer.new timer) = .ok s)
    (hstart : onStart n wasRestored s = .ok () s') : Reached n s'
  | received {s s' : TimedSt σ W Id IN OUT TS} {d : Delivery IN} (h : Reached n s)
    (hrun : receive n d s = .ok () s') : Reached n s'
  | handled {s s' : TimedSt σ W Id IN OUT TS} {c : NodeID} {ev : ArconEvent IN} (h : Reached n s)
    (hrun : handleEvent n (afterStateSave n replayDepth) c ev s = .ok () s') : Reached n s'

/-- What holds of them. -/
structure Sound (n : Node σ TS IN OUT) (s : TimedSt σ W Id IN OUT TS) : Prop where
  setUp : SetUp n s.state
  inStep : InStep s.ctx.timer
  idle : s.borrowed = guards false

/-- The mirror of a node, with the orders in which timeouts will fire. -/
def mirror (s : TimedSt σ W Id IN OUT TS) (o : List (List (Nat × EventTimerEvent TS))) :
    AgendaSt σ IN OUT TS where
  state := s.state
  ctx := ⟨s.ctx.operator, ⟨s.ctx.timer.time, s.ctx.timer.pendings, o⟩, []⟩
  metrics := NodeMetrics.new
  borrowed := guards false
  checkpoints := []

omit [DecidableEq Id] [UuidSource Id] in
theorem Sound.mirrors (h : Sound n s) : Mirrors n .nobody s.ctx.log s (mirror s []) :=
  ⟨rfl, h.setUp, ⟨rfl, ⟨h.inStep, rfl, rfl⟩, (List.append_nil _).symm⟩, h.idle, rfl⟩

omit [DecidableEq Id] [UuidSource Id] in
theorem Mirrors.sound {i : AgendaSt σ IN OUT TS} (h : Mirrors n .nobody pre s i) : Sound n s :=
  ⟨h.setUp, h.ctx.timer.inStep, h.node⟩

omit [DecidableEq Id] [UuidSource Id] in
/-- A program that follows itself in the mirror keeps a node sound. -/
theorem Sound.of_follows {x : NodeM σ (EventTimer W Id TS) IN OUT TS (TimerState Id TS) Unit}
    {y : NodeM σ (AgendaTimer TS) IN OUT TS (Nat × Multiset (Nat × EventTimerEvent TS)) Unit}
    (h : Sound n s) (hfol : (nodeSim W Id n .nobody s.ctx.log).Follows x y)
    (hrun : x s = .ok () s') : Sound n s' := by
  obtain ⟨-, i, -, hrel, -⟩ := (hfol s _ h.mirrors).ok hrun
  exact Mirrors.sound hrel

theorem onStart_follows (wasRestored : Bool) :
    (nodeSim W Id n .nobody pre).Follows (onStart n wasRestored) (onStart n wasRestored) := by
  unfold onStart
  cases wasRestored with
  | true => exact logErr_follows (afterStateSave_follows replayDepth .nobody)
  | false => exact Simulation.follows_pure ()

/-- A node that `Node::new` has built. -/
theorem sound_new {st : NodeState IN} {op : σ} {timer : TimerState Id TS}
    (h : Node.new n st op (EventTimer.new timer) = .ok s) : Sound n s := by
  obtain ⟨t, hinit, rfl⟩ := new_ok h
  have htimer := (wp_ok (wp_init rfl) (show EventTimer.init _ = _ from hinit)).2.1
  refine ⟨⟨fun c hc => ?_, by simp, by simp⟩, htimer, ?_⟩
  · exact (mem_initWatermarks _ _ _).mpr (.inl hc)
  · funext c
    rfl

/-- **Every state a node comes to is sound.** -/
theorem Reached.sound (h : Reached n s) : Sound n s := by
  induction h with
  | started hnew hstart => exact (sound_new hnew).of_follows (onStart_follows _) hstart
  | received _ hrun ih => exact ih.of_follows (receive_follows _) hrun
  | handled _ hrun ih =>
    exact ih.of_follows (handleEvent_follows (afterStateSave_follows replayDepth .both) _ _) hrun

/-! ## What nodes do from here on -/

/-- The rest of a message, and the messages that follow. -/
def resume {τ P : Type} [TimerBackend τ TS P] (n : Node σ TS IN OUT) (c : NodeID)
    (rest : List (ArconEvent IN)) (ds : List (Delivery IN)) : NodeM σ τ IN OUT TS P Unit := do
  logErr (handleEvents n (afterStateSave n replayDepth) c rest)
  run n ds

/-- What a program hands to the channel strategy, and how it ends. -/
def outcome {τ P : Type} (x : NodeM σ τ IN OUT TS P Unit) (s : NodeSt σ τ IN OUT TS P) :
    List (ArconEvent OUT) × Option Fault :=
  ((handed (final (x s)).ctx.log).drop (handed s.ctx.log).length, fault? (x s))

/-- Whatever comes, the two nodes do the same up to the order of timeouts with equal deadlines:
each does what one and the same node over an agenda does, with some orders. -/
def SameUpToTies (n : Node σ TS IN OUT) (s t : TimedSt σ W Id IN OUT TS) : Prop :=
  ∀ c rest ds, ∃ o o',
    outcome (resume n c rest ds) s = outcome (resume n c rest ds) (mirror s o) ∧
      outcome (resume n c rest ds) t = outcome (resume n c rest ds) (mirror s o')

theorem resume_follows (c : NodeID) (rest : List (ArconEvent IN)) (ds : List (Delivery IN)) :
    (nodeSim W Id n .nobody pre).Follows (resume n c rest ds) (resume n c rest ds) :=
  (logErr_follows (handleEvents_follows (afterStateSave_follows replayDepth .both) c rest)).bind
    fun _ => run_mirrored ds

section Outcome

variable {τ P : Type} {x : NodeM σ τ IN OUT TS P Unit} {r r' : NodeSt σ τ IN OUT TS P}
  {l : List (Act IN OUT TS)}

theorem outcome_ok (hx : x r = .ok () r') (hl : r'.ctx.log = r.ctx.log ++ l) :
    outcome x r = (handed l, none) := by
  unfold outcome
  rw [hx]
  show ((handed r'.ctx.log).drop _, none) = _
  rw [hl, handed_append, List.drop_left]

theorem outcome_error {f : Fault} (hx : x r = .error f r') (hl : r'.ctx.log = r.ctx.log ++ l) :
    outcome x r = (handed l, some f) := by
  unfold outcome
  rw [hx]
  show ((handed r'.ctx.log).drop _, some f) = _
  rw [hl, handed_append, List.drop_left]

end Outcome

omit [DecidableEq Id] [UuidSource Id] in
/-- **A mirror hands over what its node hands over.** -/
theorem Mirrors.outcome_eq {i : AgendaSt σ IN OUT TS} (h : Mirrors n .nobody s.ctx.log s i)
    (hlog : i.ctx.log = [])
    {x : NodeM σ (EventTimer W Id TS) IN OUT TS (TimerState Id TS) Unit}
    {y : NodeM σ (AgendaTimer TS) IN OUT TS (Nat × Multiset (Nat × EventTimerEvent TS)) Unit}
    (hfol : (nodeSim W Id n .nobody s.ctx.log).Follows x y) :
    ∃ o, outcome x s = outcome y (load o i) := by
  have hgrows : ∀ o (i' : AgendaSt σ IN OUT TS),
      (load [] i').ctx.log = (load (o ++ []) i).ctx.log ++ i'.ctx.log := by
    intro o i'
    show i'.ctx.log = i.ctx.log ++ i'.ctx.log
    rw [hlog]
    rfl
  cases hrun : x s with
  | ok a s' =>
    obtain ⟨o, i', -, hrel, hy⟩ := (hfol s i h).ok hrun
    exact ⟨o ++ [], (outcome_ok hrun hrel.ctx.log).trans (outcome_ok (hy []) (hgrows o i')).symm⟩
  | error f s' =>
    obtain ⟨o, i', -, hfails, hy⟩ := (hfol s i h).error nofun hrun
    exact ⟨o ++ [], (outcome_error hrun hfails.1).trans (outcome_error (hy []) (hgrows o i')).symm⟩

/-! ## The restored node -/

/-- The restored node `t`, started, against the node that took the checkpoint of `e` in the state
`s₁` and came through the epoch step to `s₂`. Ids are random and not compared. -/
structure Recovered (n : Node σ TS IN OUT) (e : Epoch) (s₁ s₂ t : TimedSt σ W Id IN OUT TS) :
    Prop where
  state : t.state = s₂.state
  operator : t.ctx.operator = s₂.ctx.operator
  currentTime : t.ctx.timer.state.currentTime = s₂.ctx.timer.state.currentTime
  timeouts : t.ctx.timer.pendings = s₂.ctx.timer.pendings
  handed : handed s₂.ctx.log = handed s₁.ctx.log ++ .epoch e :: handed t.ctx.log
  continues : SameUpToTies n s₂ t

/-- The node built on the checkpoint starts, and takes over from `s₂`. -/
def Recovers (n : Node σ TS IN OUT) (e : Epoch) (s₁ s₂ : TimedSt σ W Id IN OUT TS)
    (snap : Snapshot σ (TimerState Id TS) IN) : Prop :=
  ∃ t₀ t, Node.new n snap.node snap.operator (EventTimer.new snap.timer) = .ok t₀ ∧
    onStart n true t₀ = .ok () t ∧ Recovered n e s₁ s₂ t

/-- The deadlines of a checkpoint fit a `u64`. -/
def DeadlinesFit (snap : Snapshot σ (TimerState Id TS) IN) : Prop :=
  ∀ x ∈ entriesOf snap.timer.timeouts, x.2.deadline ≤ u64Max

omit [HashWheel W Id] [DecidableEq Id] [UuidSource Id] in
theorem foldl_initWatermark {cs : List NodeID} {ms : AList fun _ : NodeID => Watermark}
    (h : ∀ c ∈ cs, c ∈ ms) : cs.foldl initWatermark ms = ms := by
  induction cs with
  | nil => rfl
  | cons c cs ih =>
    rw [List.foldl_cons, initWatermark, if_pos (h c List.mem_cons_self)]
    exact ih fun c' hc' => h c' (List.mem_cons_of_mem _ hc')

omit [HashWheel W Id] [DecidableEq Id] [UuidSource Id] in
/-- What `Node::new` does to a state that is set up: nothing. -/
theorem SetUp.new_eq {st : NodeState IN} (h : SetUp n st) :
    { st with
      watermarks := n.inChannels.foldl initWatermark st.watermarks
      currentWatermark := some (st.currentWatermark.getD 0)
      currentEpoch := some (st.currentEpoch.getD 0) } = st := by
  obtain ⟨w, hw⟩ := Option.ne_none_iff_exists'.mp h.currentWatermark
  obtain ⟨e, he⟩ := Option.ne_none_iff_exists'.mp h.currentEpoch
  rw [foldl_initWatermark h.watermarks, hw, he, Option.getD_some, Option.getD_some, ← hw, ← he]

/-- What a checkpoint holds. -/
def snapshot (s : TimedSt σ W Id IN OUT TS) : Snapshot σ (TimerState Id TS) IN :=
  ⟨s.state, s.ctx.operator, s.ctx.timer.state⟩

/-- **The initialisers leave a checkpoint alone**: the node built on it has the mirror of the node
that took it. -/
theorem restored (h : Sound n s) (hinit : n.operator.init s.ctx.operator = s.ctx.operator)
    (hfit : DeadlinesFit (snapshot s)) :
    ∃ t : TimedSt σ W Id IN OUT TS,
      Node.new n s.state s.ctx.operator (EventTimer.new s.ctx.timer.state) = .ok t ∧
        Mirrors n .nobody [] t (mirror s []) := by
  have hahead : ∀ x ∈ entriesOf s.ctx.timer.state.timeouts, Ahead s.ctx.timer.time x.2 :=
    fun x hx => ⟨h.inStep.pending x hx, hfit x hx⟩
  have hnow : s.ctx.timer.state.currentTime.getD 0 = s.ctx.timer.time := rfl
  have hwp := wp_init (W := W) hnow
  cases hrun : EventTimer.init (EventTimer.new s.ctx.timer.state : EventTimer W Id TS) with
  | error f t =>
    obtain ⟨x, hx, hnot⟩ := wp_error hwp hrun
    exact absurd (hahead x hx) hnot
  | ok a t =>
    obtain ⟨-, hin, hst⟩ := wp_ok hwp hrun
    have hstate : t.state = s.ctx.timer.state := by
      rw [hst, ← h.inStep.started]
    refine ⟨_, by unfold Node.new; rw [show TimerBackend.init _ = _ from hrun], ?_⟩
    have htimer : t.time = s.ctx.timer.time ∧ t.pendings = s.ctx.timer.pendings := by
      unfold time pendings dated entries
      rw [hstate]
      exact ⟨rfl, rfl⟩
    refine ⟨h.setUp.new_eq.symm, ?_, ⟨hinit.symm, ⟨hin, htimer.1.symm, htimer.2.symm⟩, rfl⟩, ?_,
      rfl⟩
    · rw [h.setUp.new_eq]
      exact h.setUp
    · funext c
      rfl

/-! ## The epoch step -/

/-- The node has noted the last marker of an epoch. -/
def marked (s : TimedSt σ W Id IN OUT TS) (c : NodeID) (e : Epoch) : TimedSt σ W Id IN OUT TS :=
  { s with state := blocked s.state c, ctx := s.ctx.note (.iter c (.epoch e)) }

/-- The node has forwarded the marker, and goes on under the metrics guard. -/
def forwarded (s : TimedSt σ W Id IN OUT TS) (e : Epoch) : TimedSt σ W Id IN OUT TS :=
  { s.hold .metrics with
    ctx := s.ctx.note (.forward (.epoch e))
    metrics := { s.metrics with epoch := e, epochCounter := s.metrics.epochCounter + 1 } }

/-- The step of a marker that completes its epoch. -/
theorem handleEvent_completes {after : NodeM σ (EventTimer W Id TS) IN OUT TS _ Unit} {c : NodeID}
    {e : Epoch} (hcomp : Completes n s.state c e)
    (hstep : handleEvent n after c (.epoch e) s = .ok () s₂) :
    completeEpoch n after e (marked s c e) = .ok () s₂ := by
  have hwp : wp (handleEvent n after c (.epoch e))
      (fun _ s' => completeEpoch n after e (marked s c e) = .ok () s') (fun _ _ => True) s := by
    unfold handleEvent
    rw [wp_bind, wp_note]
    refine wp_onEpoch (fun _ => trivial) (fun cur hcur hle => ?_) (fun _ _ _ hne => ?_)
      (fun _ _ _ _ => wp_intro (fun _ _ hrun => hrun) (fun _ _ _ => trivial))
    · have hlt := hcomp.1
      unfold NodeState.epoch at hlt
      rw [show s.state.currentEpoch = some cur from hcur] at hlt
      exact absurd hle (not_le.mpr hlt)
    · exact absurd hcomp.2 hne
  exact wp_ok (Q := fun _ s' => completeEpoch n after e (marked s c e) = .ok () s') hwp hstep

/-- **The second half of an epoch step** that returns is a replay under the metrics guard. -/
theorem completeEpoch_replay {after : NodeM σ (EventTimer W Id TS) IN OUT TS _ Unit} {e : Epoch}
    (hidle : s₁.borrowed = guards false) (hsave : checkpointEpoch n e s = .ok () s₁)
    (hstep : completeEpoch n after e s = .ok () s₂) :
    ∃ s', after (forwarded s₁ e) = .ok () s' ∧ s₂ = s'.release .metrics := by
  have hm : s₁.borrowed .metrics = false := by
    rw [hidle]
    rfl
  have hcs : (s₁.hold .metrics).borrowed .channelStrategy = false := by
    simp [NodeSt.hold, hidle, guards]
  unfold completeEpoch at hstep
  rw [bind_ok hsave] at hstep
  set s₃ : TimedSt σ W Id IN OUT TS :=
    { s₁.hold .metrics with metrics := { s₁.metrics with epoch := e } }
  have hforward : forward (.epoch e) s₃ =
      .ok () { s₃ with ctx := s₃.ctx.note (.forward (.epoch e)) } :=
    forward_eq (by exact hcs)
  have hinner := bind_ok (f := fun _ => (do
    modifyMetrics fun m => { m with epochCounter := m.epochCounter + 1 }
    after : NodeM σ (EventTimer W Id TS) IN OUT TS _ Unit)) hforward
  cases hafter : after (forwarded s₁ e) with
  | ok a s' =>
    rw [withBorrow_ok hm (show _ = _ from hinner.trans hafter)] at hstep
    cases hstep
    exact ⟨s', rfl, rfl⟩
  | error f s' =>
    rw [withBorrow_error hm (show _ = _ from hinner.trans hafter)] at hstep
    cases hstep

/-- The checkpoint that is written holds the state in which the first half of the step ends. -/
theorem checkpointEpoch_snapshot {e : Epoch} :
    wp (checkpointEpoch n e)
      (fun _ s' => ∃ path, s'.checkpoints.getLast? = some (path, snapshot s')) (fun _ _ => True)
      s := by
  have hsave : ∀ s : TimedSt σ W Id IN OUT TS, wp (saveState n)
      (fun _ s' => ∃ path, s'.checkpoints.getLast? = some (path, snapshot s')) (fun _ _ => True)
      s := by
    intro s
    unfold saveState
    rw [wp_bind, wp_get]
    cases n.checkpointDir with
    | none => trivial
    | some dir =>
      cases s.state.currentEpoch with
      | none => trivial
      | some epoch =>
        simp only [wp_ite, wp_throw, wp_bind, wp_modify, wp_note]
        exact ⟨fun _ => trivial, fun _ => ⟨_, List.getLast?_concat⟩⟩
  unfold checkpointEpoch
  simp only [wp_bind, wp_modifyState, wp_note]
  refine wp_intro (fun _ s₁ _ => ?_) (fun _ _ _ => trivial)
  refine wp_intro (fun _ s₂ _ => ?_) (fun _ _ _ => trivial)
  exact hsave _

/-! ## Recovery -/

omit [DecidableEq Id] [UuidSource Id] in
/-- The mirror of a node mirrors every node that stores the same. -/
theorem Sound.mirrors_of (h : Sound n t) (hstate : t.state = s.state)
    (hop : t.ctx.operator = s.ctx.operator) (htime : t.ctx.timer.time = s.ctx.timer.time)
    (hpend : t.ctx.timer.pendings = s.ctx.timer.pendings) :
    Mirrors n .nobody t.ctx.log t (mirror s []) :=
  ⟨hstate.symm, h.setUp, ⟨hop.symm, ⟨h.inStep, htime.symm, hpend.symm⟩, (List.append_nil _).symm⟩,
    h.idle, rfl⟩

omit [DecidableEq Id] [UuidSource Id] in
/-- The node that goes on under the metrics guard is mirrored without it. -/
theorem Sound.mirrors_forwarded (h : Sound n s) (e : Epoch) :
    Mirrors n .nodeOnly (s.ctx.log ++ [.forward (.epoch e)]) (forwarded s e) (mirror s []) := by
  refine ⟨rfl, h.setUp, ⟨rfl, ⟨h.inStep, rfl, rfl⟩, (List.append_nil _).symm⟩, ?_, rfl⟩
  show Function.update s.borrowed _ _ = _
  rw [h.idle]
  exact guards_hold

/-- **The restored node ends its start where the other one ends its epoch step.** -/
theorem Sound.redo {t₀ : TimedSt σ W Id IN OUT TS} {e : Epoch} (h : Sound n s₁)
    (hnode : afterStateSave n replayDepth (forwarded s₁ e) = .ok () s')
    (hmirror : Mirrors n .nobody [] t₀ (mirror s₁ [])) :
    ∃ t i, onStart n true t₀ = .ok () t ∧
      Mirrors n .nodeOnly (s₁.ctx.log ++ [.forward (.epoch e)]) s' i ∧
      Mirrors n .nobody [] t i := by
  obtain ⟨o, i, hsilent, hrel, hrun⟩ :=
    (afterStateSave_follows replayDepth .nodeOnly _ _ (h.mirrors_forwarded e)).ok hnode
  obtain rfl : o = [] := hsilent fun hno => hno rfl
  have hfirst : ∀ o, afterStateSave n replayDepth (load o (mirror s₁ [])) = .ok () (load o i) :=
    hrun
  have hfol := afterStateSave_follows (n := n) replayDepth .nobody _ _ hmirror
  cases hafter : afterStateSave n replayDepth t₀ with
  | ok a t =>
    obtain ⟨o', i', -, hrel', hrun'⟩ := hfol.ok hafter
    -- the two runs of the mirror are one, so they end alike but for the orders left over
    have hsame := (hfirst (o' ++ [])).symm.trans (hrun' [])
    have hload : load (o' ++ []) i = load [] i' := (EStateM.Result.ok.inj hsame).2
    refine ⟨t, i, logErr_ok hafter, hrel, ?_⟩
    have hi' : Mirrors n .nobody [] t (load [] i') :=
      ⟨hrel'.state, hrel'.setUp, ⟨hrel'.ctx.operator, ⟨hrel'.ctx.timer.inStep,
        hrel'.ctx.timer.time, hrel'.ctx.timer.agenda⟩, hrel'.ctx.log⟩, hrel'.node, hrel'.mirror⟩
    rw [← hload] at hi'
    exact ⟨hi'.state, hi'.setUp, ⟨hi'.ctx.operator, ⟨hi'.ctx.timer.inStep, hi'.ctx.timer.time,
      hi'.ctx.timer.agenda⟩, hi'.ctx.log⟩, hi'.node, hi'.mirror⟩
  | error f t =>
    obtain ⟨o', i', -, -, hrun'⟩ := hfol.error nofun hafter
    have hsame := (hfirst (o' ++ [])).symm.trans (hrun' [])
    cases hsame

/-- Nodes with the same mirror take over from one another. -/
theorem recovered_of_mirrors {i : AgendaSt σ IN OUT TS} {e : Epoch}
    (hnode : Mirrors n .nodeOnly (s₁.ctx.log ++ [.forward (.epoch e)]) s' i)
    (ht : Mirrors n .nobody [] t i) : Recovered n e s₁ (s'.release .metrics) t := by
  have hidle : (s'.release .metrics).borrowed = guards false := by
    show Function.update s'.borrowed _ _ = _
    rw [hnode.node]
    exact guards_release
  have hsound : Sound n (s'.release .metrics) := ⟨hnode.setUp, hnode.ctx.timer.inStep, hidle⟩
  have hstate : t.state = s'.state := ht.state.symm.trans hnode.state
  have hop : t.ctx.operator = s'.ctx.operator := ht.ctx.operator.symm.trans hnode.ctx.operator
  have htime : t.ctx.timer.time = s'.ctx.timer.time :=
    ht.ctx.timer.time.symm.trans hnode.ctx.timer.time
  have hpend : t.ctx.timer.pendings = s'.ctx.timer.pendings :=
    ht.ctx.timer.agenda.symm.trans hnode.ctx.timer.agenda
  refine ⟨hstate, hop, ?_, hpend, ?_, fun c rest ds => ?_⟩
  · rw [ht.ctx.timer.inStep.started, htime]
    exact hnode.ctx.timer.inStep.started.symm
  · show handed s'.ctx.log = _
    rw [hnode.ctx.log, ht.ctx.log, handed_append, handed_append, List.append_assoc]
    rfl
  · obtain ⟨o, ho⟩ := hsound.mirrors.outcome_eq rfl (resume_follows c rest ds)
    obtain ⟨o', ho'⟩ := (Sound.mirrors_of (s := s'.release .metrics) ht.sound hstate hop htime
      hpend).outcome_eq rfl (resume_follows c rest ds)
    exact ⟨o, o', ho, ho'⟩

/-- A checkpoint with a deadline that does not fit stops `Node::new`. -/
theorem Recovers.fits {snap : Snapshot σ (TimerState Id TS) IN} {e : Epoch}
    (h : Recovers n e s₁ s₂ snap) : DeadlinesFit snap := by
  obtain ⟨t₀, -, hnew, -⟩ := h
  obtain ⟨t, hinit, -⟩ := new_ok hnew
  have hahead := (wp_ok (wp_init rfl) (show EventTimer.init _ = _ from hinit)).1
  exact fun x hx => (hahead x hx).2

/-- **Recovery.** Let the marker of `e` complete its epoch in a state a node comes to, the
checkpoint be written, and the step return. A node with the same operator, whose `init` leaves the
checkpointed state alone, starts on this checkpoint and takes over (the same state, the same events
handed over after the marker, and the same outcome of everything that may follow, up to the order of
timeouts with equal deadlines) if and only if the deadlines in the checkpoint fit a `u64`. -/
theorem recovery_iff {c : NodeID} {e : Epoch} {path : String}
    {snap : Snapshot σ (TimerState Id TS) IN} (hs : Reached n s) (hcomp : Completes n s.state c e)
    (hsave : checkpointEpoch n e (marked s c e) = .ok () s₁)
    (hstep : handleEvent n (afterStateSave n replayDepth) c (.epoch e) s = .ok () s₂)
    (hsnap : s₁.checkpoints.getLast? = some (path, snap))
    (hinit : n.operator.init snap.operator = snap.operator) :
    Recovers n e s₁ s₂ snap ↔ DeadlinesFit snap := by
  refine ⟨Recovers.fits, fun hfit => ?_⟩
  have hmarked : Sound n (marked s c e) :=
    ⟨⟨hs.sound.setUp.watermarks, hs.sound.setUp.currentWatermark, hs.sound.setUp.currentEpoch⟩,
      hs.sound.inStep, hs.sound.idle⟩
  have hs₁ : Sound n s₁ := hmarked.of_follows (checkpointEpoch_follows e) hsave
  obtain ⟨path', hlast⟩ := wp_ok
    (Q := fun _ s' => ∃ path, s'.checkpoints.getLast? = some (path, snapshot s'))
    checkpointEpoch_snapshot hsave
  obtain rfl : snap = snapshot s₁ := by
    rw [hsnap] at hlast
    exact congrArg Prod.snd (Option.some.inj hlast)
  obtain ⟨s', hreplay, rfl⟩ := completeEpoch_replay hs₁.idle hsave
    (handleEvent_completes hcomp hstep)
  obtain ⟨t₀, hnew, hmirror⟩ := restored hs₁ hinit hfit
  obtain ⟨t, i, hstart, hnode, ht⟩ := hs₁.redo hreplay hmirror
  exact ⟨t₀, t, hnew, hstart, recovered_of_mirrors hnode ht⟩

/-- A node that is asked for alarms: an element says after which time. -/
def alarmNode : Node Unit Nat Nat Nat where
  id := 0
  inChannels := [1]
  operator :=
    { init := fun op => op
      handleElement := fun e => .scheduleAfter e.data e.data fun _ => .pure ()
      handleWatermark := fun _ => .pure ()
      handleEpoch := fun _ => .pure ()
      handleTimeout := fun t => .output (.element ⟨t, none⟩) (.pure ()) }
  checkpointDir := some "/tmp"
  checkpointFails _ := false

/-- It, started on an empty backend. -/
def alarmStart : TimedSt Unit ListWheel Nat Nat Nat Nat where
  state := ⟨[1].foldl initWatermark ∅, some 0, some 0, ∅, []⟩
  ctx := ⟨(), ⟨⟨[]⟩, ⟨some 0, ∅⟩⟩, []⟩
  metrics := { NodeMetrics.new with inboundChannels := 1 }
  borrowed _ := false
  checkpoints := []

/-- It, at time 1 and with one alarm. -/
def alarmed (delay : Nat) : TimedSt Unit ListWheel Nat Nat Nat Nat :=
  final (run alarmNode [.onLocal (.watermark 1 1), .onLocal (.element delay none 1)] alarmStart)

/-- It, once the checkpoint of epoch 1 is written. -/
def alarmSaved (delay : Nat) : TimedSt Unit ListWheel Nat Nat Nat Nat :=
  final (checkpointEpoch alarmNode 1 (marked (alarmed delay) 1 1))

/-- It, after the step of epoch 1. -/
def alarmStepped (delay : Nat) : TimedSt Unit ListWheel Nat Nat Nat Nat :=
  final (handleEvent alarmNode (afterStateSave alarmNode replayDepth) 1 (.epoch 1) (alarmed delay))

theorem Reached.run {ds : List (Delivery IN)} (h : Reached n s) (hrun : run n ds s = .ok () s') :
    Reached n s' := by
  have hwp : wp (Node.run n ds) (fun _ s' => Reached n s') (fun _ _ => True) s :=
    wp_forM (I := fun _ (s' : TimedSt σ W Id IN OUT TS) => Reached n s')
      (fun d _ s' hs' => wp_intro (fun _ _ hr => hs'.received hr) (fun _ _ _ => trivial)) h
  exact wp_ok (Q := fun _ s' => Reached n s') hwp hrun

theorem alarmed_reached {delay : Nat} (h : isOk (Node.run alarmNode
    [.onLocal (.watermark 1 1), .onLocal (.element delay none 1)] alarmStart) = true) :
    Reached alarmNode (alarmed delay) := by
  have hnew : Node.new alarmNode (NodeState.new Nat) () (EventTimer.new (TimerState.new Nat Nat)) =
      .ok alarmStart := rfl
  have hstart : onStart alarmNode false alarmStart = .ok () alarmStart := rfl
  exact Reached.run (.started hnew hstart) (eq_ok_of_isOk h)

theorem recovery_iff_alarm :
    Reached alarmNode (alarmed 5) ∧ Completes alarmNode (alarmed 5).state 1 1 ∧
      DeadlinesFit (snapshot (alarmSaved 5)) ∧
      Recovers alarmNode 1 (alarmSaved 5) (alarmStepped 5) (snapshot (alarmSaved 5)) := by
  have hreached : Reached alarmNode (alarmed 5) := alarmed_reached (by decide +kernel)
  have hcomp : Completes alarmNode (alarmed 5).state 1 1 := by decide +kernel
  have hsave : checkpointEpoch alarmNode 1 (marked (alarmed 5) 1 1) = .ok () (alarmSaved 5) :=
    eq_ok_of_isOk (by decide +kernel)
  have hstep : handleEvent alarmNode (afterStateSave alarmNode replayDepth) 1 (.epoch 1)
      (alarmed 5) = .ok () (alarmStepped 5) := eq_ok_of_isOk (by decide +kernel)
  have hfit : DeadlinesFit (snapshot (alarmSaved 5)) := by
    unfold DeadlinesFit
    decide +kernel
  obtain ⟨path, hsnap⟩ := wp_ok
    (Q := fun _ s' => ∃ path, s'.checkpoints.getLast? = some (path, snapshot s'))
    checkpointEpoch_snapshot hsave
  have hinit : ∀ op, alarmNode.operator.init op = op := fun _ => rfl
  exact ⟨hreached, hcomp, hfit,
    (recovery_iff hreached hcomp hsave hstep hsnap (hinit _)).mpr hfit⟩

/-- An alarm for the end of time, asked for at time 1: the checkpoint cannot be restored. -/
theorem restore_overflows :
    Reached alarmNode (alarmed u64Max) ∧ Completes alarmNode (alarmed u64Max).state 1 1 ∧
      checkpointEpoch alarmNode 1 (marked (alarmed u64Max) 1 1) = .ok () (alarmSaved u64Max) ∧
      handleEvent alarmNode (afterStateSave alarmNode replayDepth) 1 (.epoch 1) (alarmed u64Max) =
        .ok () (alarmStepped u64Max) ∧
      (∃ path, (alarmSaved u64Max).checkpoints.getLast? =
        some (path, snapshot (alarmSaved u64Max))) ∧
      (∀ op, alarmNode.operator.init op = op) ∧
      ¬Recovers alarmNode 1 (alarmSaved u64Max) (alarmStepped u64Max)
        (snapshot (alarmSaved u64Max)) := by
  have hsave : checkpointEpoch alarmNode 1 (marked (alarmed u64Max) 1 1) =
      .ok () (alarmSaved u64Max) := eq_ok_of_isOk (by decide +kernel)
  refine ⟨alarmed_reached (by decide +kernel), by decide +kernel, hsave,
    eq_ok_of_isOk (by decide +kernel), wp_ok
      (Q := fun _ s' => ∃ path, s'.checkpoints.getLast? = some (path, snapshot s'))
      checkpointEpoch_snapshot hsave, fun _ => rfl, fun h => ?_⟩
  have hnot : ¬DeadlinesFit (snapshot (alarmSaved u64Max)) := by
    unfold DeadlinesFit
    decide +kernel
  exact hnot h.fits

end Node

end Arcon
