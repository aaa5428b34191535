import Arcon.Node.Refine
import Arcon.Timer.AgendaTimer

/-!
# A node and its mirror

A node with an event timer is mirrored by the same node with a timer that is an agenda: the same
code, on the same state of node and operator, with the timeouts the event timer holds. What the
mirror logs is what the node logs from some point on (`pre` comes before it); metrics and
checkpoints are not compared.

Every function of the node follows the same function of the mirror, with some orders of the timeouts
that fire. The node may have the metrics guard out while the mirror has not (`Holders.nodeOnly`).
Then faults are not compared, and no timeout fires: what would fire one, or complete an epoch, takes
that guard.
-/

namespace Arcon

open Exec EventTimer

variable {σ W Id TS IN OUT α : Type} [HashWheel W Id] [DecidableEq Id] [UuidSource Id]

/-! ## Operator code -/

/-- A context and its mirror. -/
structure CtxMirrors (pre : List (Act IN OUT TS)) (c : OpCtx σ (EventTimer W Id TS) IN OUT TS)
    (d : OpCtx σ (AgendaTimer TS) IN OUT TS) : Prop where
  operator : d.operator = c.operator
  timer : Shows c.timer d.timer
  log : c.log = pre ++ d.log

omit [DecidableEq Id] [UuidSource Id] in
theorem CtxMirrors.note {pre : List (Act IN OUT TS)} {c : OpCtx σ (EventTimer W Id TS) IN OUT TS}
    {d : OpCtx σ (AgendaTimer TS) IN OUT TS} (h : CtxMirrors pre c d) (a : Act IN OUT TS) :
    CtxMirrors pre (c.note a) (d.note a) := by
  refine ⟨h.operator, h.timer, ?_⟩
  rw [OpCtx.note_log, OpCtx.note_log, h.log, List.append_assoc]

/-- The context with a tape of orders. -/
def OpCtx.load (o : List (List (Nat × EventTimerEvent TS)))
    (d : OpCtx σ (AgendaTimer TS) IN OUT TS) :
    OpCtx σ (AgendaTimer TS) IN OUT TS := { d with timer := d.timer.load o }

/-- Operator and timer code, and its mirror; `chooses` if the timer may be moved. -/
def ctxSim (σ W Id : Type) [HashWheel W Id] (pre : List (Act IN OUT TS)) (chooses : Prop) :
    Simulation Crash (OpCtx σ (EventTimer W Id TS) IN OUT TS) (OpCtx σ (AgendaTimer TS) IN OUT TS)
      (List (Nat × EventTimerEvent TS)) where
  Rel := CtxMirrors pre
  Fails _ c d := c.log = pre ++ d.log
  load := OpCtx.load
  chooses := chooses
  faults := True

variable {pre : List (Act IN OUT TS)} {chooses : Prop}

omit [DecidableEq Id] [UuidSource Id] in
theorem timerPart : Simulation.Part (timerSim W Id TS chooses) (ctxSim σ W Id pre chooses)
    OpCtx.timer (fun t c => { c with timer := t }) OpCtx.timer (fun k d => { d with timer := k })
    id where
  rel_get _ _ h := h.timer
  rel_put _ _ _ _ h h' := ⟨h.operator, h', h.log⟩
  fails _ _ _ _ _ h _ := h.log
  get_load _ _ := rfl
  put_load _ _ _ _ := rfl
  chooses := id
  faults := trivial

omit [DecidableEq Id] [UuidSource Id] in
/-- **A call into the timer.** -/
theorem timerCall_follows {x : EStateM Crash (EventTimer W Id TS) α}
    {y : EStateM Crash (AgendaTimer TS) α} (h : (timerSim W Id TS chooses).Follows x y) :
    (ctxSim σ W Id pre chooses).Follows (OpCtx.timerCall x) (OpCtx.timerCall y) := by
  refine timerPart.follows h (fun c => ?_) (fun d => ?_)
  · unfold OpCtx.timerCall zoom
    cases x c.timer <;> rfl
  · unfold OpCtx.timerCall zoom
    cases y d.timer <;> rfl

/-- **Operator code.** -/
theorem run_follows (p : OpM σ TS OUT α) :
    (ctxSim σ W Id pre chooses).Follows p.run p.run := by
  induction p with
  | pure a => exact Simulation.follows_pure a
  | panic msg => exact fun c d h => Simulation.followsAt_throw h.log
  | getState k ih =>
    refine Simulation.follows_get (fun _ _ => rfl) fun c d h => ?_
    rw [show d.operator = c.operator from h.operator]
    exact ih c.operator c d h
  | setState s k ih =>
    refine Simulation.Follows.bind
      (Simulation.follows_modify (fun c d h => ?_) fun _ _ => rfl) fun _ => ih
    exact ⟨rfl, h.timer, h.log⟩
  | output ev k ih =>
    refine Simulation.Follows.bind
      (Simulation.follows_modify (fun c d h => ?_) fun _ _ => rfl) fun _ => ih
    exact h.note _
  | currentTime k ih => exact (timerCall_follows currentTime_follows).bind ih
  | scheduleAfter delay entry k ih =>
    exact (timerCall_follows (scheduleAfter_follows delay entry)).bind ih
  | scheduleAt time entry k ih =>
    exact (timerCall_follows (scheduleAt_follows time entry)).bind ih

/-! ## Guards -/

/-- Who has the metrics guard out. -/
inductive Holders
  | nobody
  | both
  | nodeOnly
  deriving DecidableEq

/-- The node has. -/
def Holders.node : Holders → Bool
  | .nobody => false
  | _ => true

/-- The mirror has. -/
def Holders.mirror : Holders → Bool
  | .both => true
  | _ => false

/-- The guards, with the metrics guard out or not. -/
def guards (metrics : Bool) (c : Cell) : Bool := metrics && decide (c = .metrics)

theorem guards_hold : Function.update (guards false) .metrics true = guards true := by
  funext c
  cases c <;> rfl

theorem guards_release : Function.update (guards true) .metrics false = guards false := by
  funext c
  cases c <;> rfl

namespace Node

/-- The states of a node with an event timer. -/
abbrev TimedSt (σ W Id IN OUT TS : Type) :=
  NodeSt σ (EventTimer W Id TS) IN OUT TS (TimerState Id TS)

/-- The states of its mirror. -/
abbrev AgendaSt (σ IN OUT TS : Type) :=
  NodeSt σ (AgendaTimer TS) IN OUT TS (Nat × Multiset (Nat × EventTimerEvent TS))

/-- What `Node::new` sets up is there. -/
structure SetUp (n : Node σ TS IN OUT) (st : NodeState IN) : Prop where
  watermarks : ∀ c ∈ n.inChannels, c ∈ st.watermarks
  currentWatermark : st.currentWatermark ≠ none
  currentEpoch : st.currentEpoch ≠ none

/-- A node and its mirror. -/
structure Mirrors (n : Node σ TS IN OUT) (g : Holders) (pre : List (Act IN OUT TS))
    (s : TimedSt σ W Id IN OUT TS) (i : AgendaSt σ IN OUT TS) : Prop where
  state : i.state = s.state
  setUp : SetUp n s.state
  ctx : CtxMirrors pre s.ctx i.ctx
  node : s.borrowed = guards g.node
  mirror : i.borrowed = guards g.mirror

section Sim

variable {n : Node σ TS IN OUT} {g : Holders}

/-- The mirror with a tape of orders. -/
def load (o : List (List (Nat × EventTimerEvent TS))) (i : AgendaSt σ IN OUT TS) :
    AgendaSt σ IN OUT TS := { i with ctx := i.ctx.load o }

/-- The programs of a node, and those of its mirror. -/
def nodeSim (W Id : Type) [HashWheel W Id] (n : Node σ TS IN OUT) (g : Holders)
    (pre : List (Act IN OUT TS)) :
    Simulation Fault (TimedSt σ W Id IN OUT TS) (AgendaSt σ IN OUT TS)
      (List (Nat × EventTimerEvent TS)) where
  Rel := Mirrors n g pre
  -- after an `Err` the node goes on
  Fails f s i := s.ctx.log = pre ++ i.ctx.log ∧ ((∃ msg, f = .err msg) → Mirrors n g pre s i)
  load := load
  chooses := g ≠ .nodeOnly
  faults := g ≠ .nodeOnly

variable {s : TimedSt σ W Id IN OUT TS} {i : AgendaSt σ IN OUT TS}

omit [DecidableEq Id] [UuidSource Id] in
theorem Mirrors.free (h : Mirrors n g pre s i) : s.Free ∧ i.Free := by
  refine ⟨⟨?_, ?_⟩, ⟨?_, ?_⟩⟩
  · rw [h.node]
    cases g <;> rfl
  · rw [h.node]
    cases g <;> rfl
  · rw [h.mirror]
    cases g <;> rfl
  · rw [h.mirror]
    cases g <;> rfl

omit [DecidableEq Id] [UuidSource Id] in
theorem Mirrors.fails (h : Mirrors n g pre s i) (f : Fault) :
    (nodeSim W Id n g pre).Fails f s i := ⟨h.ctx.log, fun _ => h⟩

/-! ## Simple steps -/

omit [DecidableEq Id] [UuidSource Id] in
theorem note_follows (a : Act IN OUT TS) :
    (nodeSim W Id n g pre).Follows (note a) (note a) :=
  Simulation.follows_modify (fun _ _ h => ⟨h.state, h.setUp, h.ctx.note a, h.node, h.mirror⟩)
    fun _ _ => rfl

omit [DecidableEq Id] [UuidSource Id] in
theorem modifyState_follows {f : NodeState IN → NodeState IN}
    (hf : ∀ st, SetUp n st → SetUp n (f st)) :
    (nodeSim W Id n g pre).Follows (modifyState f) (modifyState f) := by
  refine Simulation.follows_modify (fun s i h => ?_) fun _ _ => rfl
  exact ⟨congrArg f h.state, hf s.state h.setUp, h.ctx, h.node, h.mirror⟩

omit [DecidableEq Id] [UuidSource Id] in
theorem modifyMetrics_follows (f : NodeMetrics → NodeMetrics) :
    (nodeSim W Id n g pre).Follows (modifyMetrics f) (modifyMetrics f) :=
  Simulation.follows_modify (fun _ _ h => ⟨h.state, h.setUp, h.ctx, h.node, h.mirror⟩)
    fun _ _ => rfl

omit [DecidableEq Id] [UuidSource Id] in
theorem throw_follows (f : Fault) :
    (nodeSim W Id n g pre).Follows (throw f : NodeM σ (EventTimer W Id TS) IN OUT TS _ α)
      (throw f) := fun _ _ h => Simulation.followsAt_throw (h.fails f)

/-! ## Code under a guard -/

omit [DecidableEq Id] [UuidSource Id] in
theorem ctxPart (hc : chooses → g ≠ .nodeOnly) :
    Simulation.Part (ctxSim σ W Id pre chooses) (nodeSim W Id n g pre)
      NodeSt.ctx (fun c s => { s with ctx := c }) NodeSt.ctx (fun c s => { s with ctx := c })
      Fault.crash where
  rel_get _ _ h := h.ctx
  rel_put _ _ _ _ h h' := ⟨h.state, h.setUp, h', h.node, h.mirror⟩
  fails _ _ _ _ _ _ h' := ⟨h', fun ⟨_, he⟩ => by cases he⟩
  get_load _ _ := rfl
  put_load _ _ _ _ := rfl
  chooses := hc
  faults := trivial

omit [DecidableEq Id] [UuidSource Id] in
theorem inCtx_follows (hc : chooses → g ≠ .nodeOnly)
    {x : EStateM Crash (OpCtx σ (EventTimer W Id TS) IN OUT TS) α}
    {y : EStateM Crash (OpCtx σ (AgendaTimer TS) IN OUT TS) α}
    (h : (ctxSim σ W Id pre chooses).Follows x y) :
    (nodeSim W Id n g pre).Follows (inCtx x) (inCtx y) := by
  refine (ctxPart hc).follows h (fun s => ?_) (fun i => ?_)
  · unfold inCtx
    cases x s.ctx <;> rfl
  · unfold inCtx
    cases y i.ctx <;> rfl

omit [DecidableEq Id] [UuidSource Id] in
/-- Code on the context, under a guard that is free on both sides. -/
theorem withBorrow_inCtx_follows {c : Cell} (hcell : c ≠ .metrics) (hc : chooses → g ≠ .nodeOnly)
    {x : EStateM Crash (OpCtx σ (EventTimer W Id TS) IN OUT TS) α}
    {y : EStateM Crash (OpCtx σ (AgendaTimer TS) IN OUT TS) α}
    (h : (ctxSim σ W Id pre chooses).Follows x y) :
    (nodeSim W Id n g pre).Follows (withBorrow c (inCtx x)) (withBorrow c (inCtx y)) := by
  intro s i hsi
  refine (inCtx_follows hc h s i hsi).congr (withBorrow_inCtx_eq ?_) fun o => withBorrow_inCtx_eq ?_
  · rw [hsi.node]
    simp [guards, hcell]
  · show i.borrowed c = false
    rw [hsi.mirror]
    simp [guards, hcell]

/-- **A call into the operator.** -/
theorem withContext_follows (p : OpM σ TS OUT Unit) :
    (nodeSim W Id n g pre).Follows (withContext p) (withContext p) := by
  intro s i hsi
  obtain ⟨hs, hi⟩ := hsi.free
  exact (inCtx_follows (fun h : False => h.elim) (run_follows p) s i hsi).congr
    (withContext_eq hs) fun o => withContext_eq ⟨hi.1, hi.2⟩

omit [DecidableEq Id] [UuidSource Id] in
theorem forward_follows (ev : ArconEvent OUT) :
    (nodeSim W Id n g pre).Follows (forward ev) (forward ev) := by
  intro s i hsi
  obtain ⟨hs, hi⟩ := hsi.free
  exact (note_follows (.forward ev) s i hsi).congr (forward_eq hs.channelStrategy)
    fun o => forward_eq hi.channelStrategy

omit [DecidableEq Id] [UuidSource Id] in
/-- The metrics guard is taken. -/
theorem Mirrors.hold (h : Mirrors n .nobody pre s i) :
    Mirrors n .both pre (s.hold .metrics) (i.hold .metrics) := by
  refine ⟨h.state, h.setUp, h.ctx, ?_, ?_⟩
  · show Function.update s.borrowed _ _ = _
    rw [h.node]
    exact guards_hold
  · show Function.update i.borrowed _ _ = _
    rw [h.mirror]
    exact guards_hold

omit [DecidableEq Id] [UuidSource Id] in
/-- The metrics guard is given back. -/
theorem Mirrors.release (h : Mirrors n .both pre s i) :
    Mirrors n .nobody pre (s.release .metrics) (i.release .metrics) := by
  refine ⟨h.state, h.setUp, h.ctx, ?_, ?_⟩
  · show Function.update s.borrowed _ _ = _
    rw [h.node]
    exact guards_release
  · show Function.update i.borrowed _ _ = _
    rw [h.mirror]
    exact guards_release

omit [DecidableEq Id] [UuidSource Id] in
/-- **Code under the metrics guard.** -/
theorem withBorrow_metrics_follows
    {x : NodeM σ (EventTimer W Id TS) IN OUT TS (TimerState Id TS) α}
    {y : NodeM σ (AgendaTimer TS) IN OUT TS _ α} (h : (nodeSim W Id n .both pre).Follows x y) :
    (nodeSim W Id n g pre).Follows (withBorrow .metrics x) (withBorrow .metrics y) := by
  intro s i hsi
  cases g with
  | nodeOnly =>
    refine (wp_withBorrow_out ?_).mpr fun hno => absurd rfl hno
    rw [hsi.node]
    rfl
  | both =>
    refine (wp_withBorrow_out ?_).mpr fun _ => ⟨[], i, fun _ => rfl, hsi.fails _, fun o => ?_⟩
    · rw [hsi.node]
      rfl
    · exact withBorrow_out (by show i.borrowed _ = _; rw [hsi.mirror]; rfl)
  | nobody =>
    have hs : s.borrowed .metrics = false := by
      rw [hsi.node]
      rfl
    have hi : ∀ o, (load o i).borrowed .metrics = false := by
      intro o
      show i.borrowed _ = _
      rw [hsi.mirror]
      rfl
    refine (wp_withBorrow hs).mpr (wp_mono (h _ _ hsi.hold) ?_ ?_)
    · rintro a s' ⟨o, i', -, hrel, hrun⟩
      refine ⟨o, i'.release .metrics, fun hno => absurd nofun hno, hrel.release, fun o' => ?_⟩
      exact withBorrow_ok (hi _) (hrun o')
    · intro f s' hf _
      obtain ⟨o, i', -, ⟨hlog, herr⟩, hrun⟩ := hf nofun
      refine ⟨o, i'.release .metrics, fun hno => absurd nofun hno,
        ⟨hlog, fun hmsg => (herr hmsg).release⟩, fun o' => ?_⟩
      exact withBorrow_error (hi _) (hrun o')

/-! ## The branches of `handle_events` -/

theorem onElement_follows (c : NodeID) (e : ArconElement IN) :
    (nodeSim W Id n g pre).Follows (onElement n c e) (onElement n c e) := by
  refine Simulation.follows_get (fun _ _ => rfl) fun s i h => ?_
  rw [show i.state = s.state from h.state]
  cases s.state.watermarks.lookup c with
  | none => exact throw_follows _ s i h
  | some w =>
    refine Simulation.followsAt_ite (fun _ => ?_) (fun _ => ?_)
    · exact Simulation.follows_pure () s i h
    · exact ((note_follows _).bind fun _ => withContext_follows _) s i h

theorem timeouts_follow (ts : List TS) :
    (nodeSim W Id n g pre).Follows
      (forM ts fun t => do note (.handleTimeout t); withContext (n.operator.handleTimeout t))
      (forM ts fun t => do note (.handleTimeout t); withContext (n.operator.handleTimeout t)) :=
  Simulation.Follows.forM
    (fun t => (note_follows (.handleTimeout t)).bind fun _ => withContext_follows _) ts

/-- **Watermark hand-over.** It takes the metrics guard at its end. -/
theorem advanceWatermark_follows (w : Watermark) :
    (nodeSim W Id n g pre).Follows (advanceWatermark n w) (advanceWatermark n w) := by
  by_cases hg : g = .nodeOnly
  · -- it cannot return, so there is nothing to follow
    subst hg
    intro s i h
    refine wp_advanceWatermark h.free.1 (fun hm => ?_) (fun _ _ _ _ hno => absurd rfl hno)
    rw [h.node] at hm
    cases hm
  · refine Simulation.Follows.bind (modifyState_follows fun st h => ?_) fun _ => ?_
    · exact ⟨h.watermarks, by simp, h.currentEpoch⟩
    refine (note_follows _).bind fun _ => (withContext_follows _).bind fun _ => ?_
    refine Simulation.Follows.bind (withBorrow_inCtx_follows (by decide)
      (fun _ : True => hg) (timerCall_follows (advanceTo_follows w))) fun ts => ?_
    refine (timeouts_follow ts).bind fun _ => withBorrow_metrics_follows ?_
    exact (modifyMetrics_follows _).bind fun _ => (forward_follows _).bind fun _ =>
      modifyMetrics_follows _

theorem onWatermark_follows (c : NodeID) (w : Watermark) :
    (nodeSim W Id n g pre).Follows (onWatermark n c w) (onWatermark n c w) := by
  refine Simulation.follows_get (fun _ _ => rfl) fun s i h => ?_
  rw [show i.state = s.state from h.state]
  cases s.state.watermarks.lookup c with
  | none => exact throw_follows _ s i h
  | some old =>
    refine Simulation.followsAt_ite (fun _ => ?_) (fun _ => ?_)
    · exact Simulation.follows_pure () s i h
    cases s.state.currentWatermark with
    | none => exact throw_follows _ s i h
    | some current =>
      refine Simulation.Follows.bind (modifyState_follows fun st hst => ?_)
        (fun _ s i h => ?_) s i h
      · refine ⟨fun c' hc' => ?_, hst.currentWatermark, hst.currentEpoch⟩
        exact AList.mem_insert _ |>.mpr (.inr (hst.watermarks c' hc'))
      refine Simulation.followsAt_ite (fun _ => ?_) (fun _ => ?_)
      · exact Simulation.follows_pure () s i h
      refine Simulation.followsAt_ite (fun _ => ?_) (fun _ => ?_)
      · exact Simulation.follows_pure () s i h
      refine Simulation.followsAt_ite (fun _ => ?_) (fun _ => ?_)
      · exact advanceWatermark_follows _ s i h
      · exact Simulation.follows_pure () s i h

theorem saveState_follows :
    (nodeSim W Id n g pre).Follows (saveState n) (saveState n) := by
  refine Simulation.follows_get (fun _ _ => rfl) fun s i h => ?_
  rw [show i.state = s.state from h.state]
  cases n.checkpointDir with
  | none => exact throw_follows _ s i h
  | some baseDir =>
    cases s.state.currentEpoch with
    | none => exact throw_follows _ s i h
    | some epoch =>
      refine Simulation.followsAt_ite (fun _ => ?_) (fun _ => ?_)
      · exact throw_follows _ s i h
      -- what the checkpoints hold is not compared
      refine Simulation.Follows.bind (Simulation.follows_modify (fun s i h => ?_) fun _ _ => rfl)
        (fun _ => note_follows _) s i h
      exact ⟨h.state, h.setUp, h.ctx, h.node, h.mirror⟩

theorem checkpointEpoch_follows (e : Epoch) :
    (nodeSim W Id n g pre).Follows (checkpointEpoch n e) (checkpointEpoch n e) := by
  refine Simulation.Follows.bind (modifyState_follows fun st h => ?_) fun _ => ?_
  · exact ⟨h.watermarks, h.currentWatermark, by simp⟩
  refine (note_follows _).bind fun _ => (withContext_follows _).bind fun _ => ?_
  refine Simulation.Follows.bind (withBorrow_inCtx_follows (by decide)
    (fun h : False => h.elim) (timerCall_follows (Simulation.follows_pure ()))) fun _ => ?_
  exact (note_follows _).bind fun _ => saveState_follows

variable {after : NodeM σ (EventTimer W Id TS) IN OUT TS (TimerState Id TS) Unit}
  {after' : NodeM σ (AgendaTimer TS) IN OUT TS (Nat × Multiset (Nat × EventTimerEvent TS)) Unit}

theorem completeEpoch_follows (hafter : (nodeSim W Id n .both pre).Follows after after')
    (e : Epoch) :
    (nodeSim W Id n g pre).Follows (completeEpoch n after e) (completeEpoch n after' e) := by
  refine (checkpointEpoch_follows e).bind fun _ => withBorrow_metrics_follows ?_
  exact (modifyMetrics_follows _).bind fun _ => (forward_follows _).bind fun _ =>
    (modifyMetrics_follows _).bind fun _ => hafter

theorem onEpoch_follows (hafter : (nodeSim W Id n .both pre).Follows after after') (c : NodeID)
    (e : Epoch) :
    (nodeSim W Id n g pre).Follows (onEpoch n after c e) (onEpoch n after' c e) := by
  refine Simulation.follows_get (fun _ _ => rfl) fun s i h => ?_
  rw [show i.state = s.state from h.state]
  cases s.state.currentEpoch with
  | none => exact throw_follows _ s i h
  | some current =>
    refine Simulation.followsAt_ite (fun _ => ?_) (fun _ => ?_)
    · exact Simulation.follows_pure () s i h
    refine Simulation.Follows.bind (modifyState_follows fun st hst => ?_) (fun _ s i h => ?_) s i h
    · exact ⟨hst.watermarks, hst.currentWatermark, hst.currentEpoch⟩
    refine Simulation.followsAt_ite (fun _ => ?_) (fun _ => ?_)
    · exact completeEpoch_follows hafter e s i h
    · exact Simulation.follows_pure () s i h

/-- **One event.** -/
theorem handleEvent_follows (hafter : (nodeSim W Id n .both pre).Follows after after') (c : NodeID)
    (ev : ArconEvent IN) :
    (nodeSim W Id n g pre).Follows (handleEvent n after c ev) (handleEvent n after' c ev) := by
  refine (note_follows _).bind fun _ => ?_
  cases ev with
  | element e => exact onElement_follows c e
  | watermark w => exact onWatermark_follows c w
  | epoch e => exact onEpoch_follows hafter c e
  | death msg => exact (forward_follows _).bind fun _ => note_follows _

theorem handleEvents_follows (hafter : (nodeSim W Id n .both pre).Follows after after') (c : NodeID)
    (evs : List (ArconEvent IN)) :
    (nodeSim W Id n g pre).Follows (handleEvents n after c evs) (handleEvents n after' c evs) :=
  Simulation.Follows.forM (handleEvent_follows hafter c) evs

/-! ## Replays, messages and runs -/

/-- **A replay.** -/
theorem afterStateSave_follows (depth : Nat) (g : Holders) :
    (nodeSim W Id n g pre).Follows (afterStateSave n depth) (afterStateSave n depth) := by
  induction depth generalizing g with
  | zero => exact throw_follows _
  | succ depth ih =>
    refine Simulation.Follows.bind (modifyState_follows fun st h => ?_) fun _ => ?_
    · exact ⟨h.watermarks, h.currentWatermark, h.currentEpoch⟩
    refine Simulation.follows_get (fun _ _ => rfl) fun s i h => ?_
    rw [show i.state = s.state from h.state]
    refine Simulation.followsAt_ite (fun _ => ?_) (fun _ => ?_)
    · exact Simulation.follows_pure () s i h
    refine Simulation.Follows.bind (modifyState_follows fun st hst => ?_) (fun _ => ?_) s i h
    · exact ⟨hst.watermarks, hst.currentWatermark, hst.currentEpoch⟩
    exact Simulation.Follows.forM (fun m => handleEvents_follows (ih .both) _ _) _

omit [DecidableEq Id] [UuidSource Id] in
/-- An `Err` is dropped on both sides. -/
theorem logErr_follows (h : (nodeSim W Id n .nobody pre).Follows after after') :
    (nodeSim W Id n .nobody pre).Follows (logErr after) (logErr after') := by
  intro s i hsi
  have hfol := h s i hsi
  cases hrun : after s with
  | ok a s' =>
    obtain ⟨o, i', hsilent, hrel, hrun'⟩ := hfol.ok hrun
    exact wp_of_eq_ok (logErr_ok hrun) ⟨o, i', hsilent, hrel, fun o' => logErr_ok (hrun' o')⟩
  | error f s' =>
    obtain ⟨o, i', hsilent, hfails, hrun'⟩ := hfol.error nofun hrun
    by_cases hf : ∃ msg, f = .err msg
    · -- the node goes on from where the `Err` left it
      have hrel := hfails.2 hf
      obtain ⟨msg, rfl⟩ := hf
      exact wp_of_eq_ok (logErr_err hrun) ⟨o, i', hsilent, hrel, fun o' => logErr_err (hrun' o')⟩
    · have hne : ∀ msg, f ≠ .err msg := fun msg he => hf ⟨msg, he⟩
      exact wp_of_eq_error (logErr_panic hne hrun) fun _ =>
        ⟨o, i', hsilent, hfails, fun o' => logErr_panic hne (hrun' o')⟩

theorem receive_follows (d : Delivery IN) :
    (nodeSim W Id n .nobody pre).Follows (receive n d) (receive n d) := by
  rw [Control.receive_eq, Control.receive_eq, Control.handle_eq, Control.handle_eq]
  refine logErr_follows fun s i h => Simulation.followsAt_ite (fun _ => ?_) (fun _ => ?_)
  · exact throw_follows _ s i h
  refine Simulation.Follows.bind
    (withBorrow_metrics_follows (modifyMetrics_follows _)) (fun _ => ?_) s i h
  refine Simulation.follows_get (fun _ _ => rfl) fun s i h => ?_
  rw [show i.state = s.state from h.state]
  refine Simulation.followsAt_ite (fun _ => ?_) (fun _ => ?_)
  · refine modifyState_follows (fun st hst => ?_) s i h
    exact ⟨hst.watermarks, hst.currentWatermark, hst.currentEpoch⟩
  · exact handleEvents_follows (afterStateSave_follows replayDepth .both) _ _ s i h

/-- **A run.** -/
theorem run_mirrored (ds : List (Delivery IN)) :
    (nodeSim W Id n .nobody pre).Follows (run n ds) (run n ds) :=
  Simulation.Follows.forM receive_follows ds

end Sim

end Node

end Arcon
