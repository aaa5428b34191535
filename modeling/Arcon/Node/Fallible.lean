import Arcon.Node.Replay

/-!
# The node over a backend that can fail

Every use of the state backend in `handle_raw_msg`, `handle_events`, `save_state` and
`after_state_save` ends in `?`: it may return an `Err`, which leaves the function at that place.
`Model.lean` lets only checkpoints fail. This file is the same code with every `?` in its place.

* `attempt` stands before each use of the backend and fails it if the schedule `Faults` says so; a
  use that fails writes nothing. A schedule is given with each message, so any use of any run can
  fail.
* The uses the operator and the timer make of the backend end in `expect`. Their failure is a panic
  of the operator, as in `Operator.lean`.
* `Trial` is the node together with a record of the replays it has been through (`recorded`), which
  nothing reads: the state before and after each, and how it ended.

`run_agrees` is the tie to `Model.lean`: over a backend in which nothing fails, both are the same
program.
-/

namespace Arcon

open Exec

/-- The uses of the state backend that end in `?`. -/
inductive Use
  -- `handle_raw_msg` and `handle_message`
  | blockedContains
  | bufferAppend
  -- `handle_events`
  | watermarksGet
  | currentWatermarkGet
  | watermarksInsert
  | watermarksValues
  | currentWatermarkSet
  | currentEpochGet
  | blockedInsert
  | blockedLen
  | currentEpochSet
  -- `save_state`
  | savedEpochGet
  | checkpoint
  -- `after_state_save`
  | blockedClear
  | bufferIsEmpty
  | bufferGet
  | bufferClear
  deriving DecidableEq, Repr

/-- Which uses fail while one message is handled, by the number of events iterated over so far. No
use is made twice under the same number. -/
abbrev Faults := Nat → Use → Bool

/-- One replay of the message buffer. -/
structure Passage (σ τ IN OUT TS P : Type) where
  faults : Faults
  before : NodeSt σ τ IN OUT TS P
  after : NodeSt σ τ IN OUT TS P
  fault : Option Fault

/-- The node, with the replays it has been through. -/
structure Trial (σ τ IN OUT TS P : Type) where
  node : NodeSt σ τ IN OUT TS P
  replays : List (Passage σ τ IN OUT TS P)

/-- A program of the node over a backend that can fail. -/
abbrev TrialM (σ τ IN OUT TS P : Type) := EStateM Fault (Trial σ τ IN OUT TS P)

namespace Fallible

variable {σ τ TS IN OUT P α : Type}

/-- Code of the node that does not touch the backend, or whose use of it has succeeded. -/
def lift (x : NodeM σ τ IN OUT TS P α) : TrialM σ τ IN OUT TS P α :=
  zoom Trial.node (fun s r => { r with node := s }) x

/-- How many events the node has iterated over. -/
def iterations (s : NodeSt σ τ IN OUT TS P) : Nat := (iterated s.ctx.log).length

/-- A use of the backend. -/
def attempt (f : Faults) (u : Use) : TrialM σ τ IN OUT TS P Unit := do
  if f (iterations (← get).node) u then throw (.err "state backend") else pure ()

/-- `metrics.borrow_mut()` with the guard live over `x`. -/
def withMetrics (x : TrialM σ τ IN OUT TS P α) : TrialM σ τ IN OUT TS P α := fun r =>
  if r.node.borrowed .metrics then .error (.alreadyBorrowed .metrics) r
  else
    match x { r with node := r.node.hold .metrics } with
    | .ok a r' => .ok a { r' with node := r'.node.release .metrics }
    | .error e r' => .error e { r' with node := r'.node.release .metrics }

/-- Keep a record of `x`. -/
def recorded (f : Faults) (x : TrialM σ τ IN OUT TS P Unit) : TrialM σ τ IN OUT TS P Unit :=
  fun r =>
    match x r with
    | .ok a r' => .ok a { r' with replays := r'.replays ++ [⟨f, r.node, r'.node, none⟩] }
    | .error e r' => .error e { r' with replays := r'.replays ++ [⟨f, r.node, r'.node, some e⟩] }

variable [TimerBackend τ TS P] (f : Faults) (n : Node σ TS IN OUT)

/-- The `Element` branch of `handle_events`. -/
def onElement (sender : NodeID) (e : ArconElement IN) : TrialM σ τ IN OUT TS P Unit := do
  attempt f .watermarksGet
  lift (Node.onElement n sender e)

/-- The `Watermark` branch of `handle_events`. -/
def onWatermark (sender : NodeID) (w : Watermark) : TrialM σ τ IN OUT TS P Unit := do
  attempt f .watermarksGet
  let s ← lift get
  match s.state.watermarks.lookup sender with
  | none => throw (.err "uninitialized watermark")
  | some old =>
    if w ≤ old then
      pure ()
    else do
      attempt f .currentWatermarkGet
      match s.state.currentWatermark with
      | none => throw (.err "current watermark uninitialized")
      | some current => do
        attempt f .watermarksInsert
        lift (Node.modifyState fun st => { st with watermarks := st.watermarks.insert sender w })
        if current < old then
          pure ()
        else if w ≤ current then
          pure ()
        else do
          attempt f .watermarksValues
          let new := Node.newWatermark (s.state.watermarks.insert sender w) w
          if current < new then do
            attempt f .currentWatermarkSet
            lift (Node.advanceWatermark n new)
          else
            pure ()

/-- `save_state`. -/
def saveState : TrialM σ τ IN OUT TS P Unit := do
  match n.checkpointDir with
  | none => throw (.err "Failed to fetch checkpoint_dir from Config")
  | some _ => do
    attempt f .savedEpochGet
    match (← lift get).state.currentEpoch with
    | none => throw (.err "current epoch uninitialized")
    | some _ => do
      attempt f .checkpoint
      lift (Node.saveState n)

/-- The first half of an epoch step. -/
def checkpointEpoch (e : Epoch) : TrialM σ τ IN OUT TS P Unit := do
  attempt f .currentEpochSet
  lift (Node.modifyState fun st => { st with currentEpoch := some e })
  lift (Node.note (.handleEpoch e))
  lift (Node.withContext (n.operator.handleEpoch e))
  lift (Node.withBorrow .timerBackend
    (Node.inCtx (OpCtx.timerCall (TimerBackend.handleEpoch e))))
  lift (Node.note (.saveState e))
  saveState f n

/-- All channels have delivered the marker of `e`. -/
def completeEpoch (afterStateSave : TrialM σ τ IN OUT TS P Unit) (e : Epoch) :
    TrialM σ τ IN OUT TS P Unit := do
  checkpointEpoch f n e
  withMetrics do
    lift (Node.modifyMetrics fun m => { m with epoch := e })
    lift (Node.forward (.epoch e))
    lift (Node.modifyMetrics fun m => { m with epochCounter := m.epochCounter + 1 })
    afterStateSave

/-- The `Epoch` branch of `handle_events`. -/
def onEpoch (afterStateSave : TrialM σ τ IN OUT TS P Unit) (sender : NodeID) (e : Epoch) :
    TrialM σ τ IN OUT TS P Unit := do
  attempt f .currentEpochGet
  let s ← lift get
  match s.state.currentEpoch with
  | none => throw (.err "uninitialized epoch")
  | some current =>
    if e ≤ current then
      pure ()
    else do
      attempt f .blockedInsert
      lift (Node.modifyState fun st =>
        { st with blockedChannels := insert sender st.blockedChannels })
      attempt f .blockedLen
      if (insert sender s.state.blockedChannels).card = n.inChannels.length then
        completeEpoch f n afterStateSave e
      else
        pure ()

/-- One turn of the loop of `handle_events`. -/
def handleEvent (afterStateSave : TrialM σ τ IN OUT TS P Unit) (sender : NodeID)
    (ev : ArconEvent IN) : TrialM σ τ IN OUT TS P Unit := do
  lift (Node.note (.iter sender ev))
  match ev with
  | .element e => onElement f n sender e
  | .watermark w => onWatermark f n sender w
  | .epoch e => onEpoch f n afterStateSave sender e
  | .death msg => lift (Node.onDeath msg)

/-- `handle_events`. -/
def handleEvents (afterStateSave : TrialM σ τ IN OUT TS P Unit) (sender : NodeID)
    (events : List (ArconEvent IN)) : TrialM σ τ IN OUT TS P Unit :=
  forM events (handleEvent f n afterStateSave sender)

/-- The second part of `after_state_save`: the buffer is copied and cleared, and the copy handed to
`handle_events` up to the first `Err`. -/
def replayBuffer (afterStateSave : TrialM σ τ IN OUT TS P Unit) : TrialM σ τ IN OUT TS P Unit := do
  attempt f .bufferIsEmpty
  let s ← lift get
  if s.state.messageBuffer.isEmpty then
    pure ()
  else do
    attempt f .bufferGet
    attempt f .bufferClear
    lift (Node.modifyState fun st => { st with messageBuffer := [] })
    forM s.state.messageBuffer fun m => handleEvents f n afterStateSave m.sender m.events

/-- `after_state_save`, to a depth of nested replays. -/
def afterStateSave : Nat → TrialM σ τ IN OUT TS P Unit
  | 0 => throw .replayBound
  | depth + 1 => do
    attempt f .blockedClear
    lift (Node.modifyState fun st => { st with blockedChannels := ∅ })
    recorded f (replayBuffer f n (afterStateSave depth))

/-- The common body of `handle_raw_msg` and `handle_message`. -/
def handleFrom (sender : NodeID) (events : List (ArconEvent IN)) :
    TrialM σ τ IN OUT TS P Unit := do
  if sender ∉ n.inChannels then
    throw (.err "Message from invalid sender")
  else do
    lift (Node.recordIncomingEvents events.length)
    attempt f .blockedContains
    let s ← lift get
    if sender ∈ s.state.blockedChannels then do
      attempt f .bufferAppend
      lift (Node.modifyState fun st =>
        { st with messageBuffer := st.messageBuffer ++ [⟨events, sender⟩] })
    else
      handleEvents f n (afterStateSave f n Node.replayDepth) sender events

/-- An `Err` is logged by the actor and dropped; a panic ends it. -/
def logErr (x : TrialM σ τ IN OUT TS P Unit) : TrialM σ τ IN OUT TS P Unit := fun r =>
  match x r with
  | .error (.err _) r' => .ok () r'
  | res => res

/-- Handle a delivered message as the actor does. -/
def receive (d : Node.Delivery IN) : TrialM σ τ IN OUT TS P Unit :=
  logErr (handleFrom f n d.sender d.events)

/-- A run of the node: each message with the uses of the backend that fail while it is handled. -/
def run (ds : List (Faults × Node.Delivery IN)) : TrialM σ τ IN OUT TS P Unit :=
  forM ds fun d => receive d.1 n d.2

/-- `on_start`. -/
def onStart (wasRestored : Bool) : TrialM σ τ IN OUT TS P Unit :=
  if wasRestored then logErr (afterStateSave f n Node.replayDepth) else pure ()

/-- The life of a node from `on_start` on. -/
def life (wasRestored : Bool) (ds : List (Faults × Node.Delivery IN)) :
    TrialM σ τ IN OUT TS P Unit := do
  onStart f n wasRestored
  run n ds

/-- A node that has not been through a replay yet. -/
def fromNew (s : NodeSt σ τ IN OUT TS P) : Trial σ τ IN OUT TS P := ⟨s, []⟩

/-! ## A backend in which nothing fails -/

section Agrees

/-- `x` and `y` end in the same way, with the same node. -/
def Agrees (x : TrialM σ τ IN OUT TS P α) (y : NodeM σ τ IN OUT TS P α) : Prop :=
  ∀ r, wp x (fun a r' => y r.node = .ok a r'.node) (fun e r' => y r.node = .error e r'.node) r

variable {x : TrialM σ τ IN OUT TS P α} {y : NodeM σ τ IN OUT TS P α}

omit [TimerBackend τ TS P] in
theorem Agrees.lift (y : NodeM σ τ IN OUT TS P α) : Agrees (lift y) y := by
  intro r
  rw [Fallible.lift, wp_zoom]
  exact wp_intro (fun _ _ h => h) (fun _ _ h => h)

omit [TimerBackend τ TS P] in
theorem Agrees.pure (a : α) : Agrees (pure a : TrialM σ τ IN OUT TS P α) (pure a) := fun _ => rfl

omit [TimerBackend τ TS P] in
theorem Agrees.throw (e : Fault) : Agrees (throw e : TrialM σ τ IN OUT TS P α) (throw e) :=
  fun _ => rfl

omit [TimerBackend τ TS P] in
theorem Agrees.bind {β : Type} {g : α → TrialM σ τ IN OUT TS P β}
    {h : α → NodeM σ τ IN OUT TS P β} (hx : Agrees x y) (hg : ∀ a, Agrees (g a) (h a)) :
    Agrees (x >>= g) (y >>= h) := by
  intro r
  rw [wp_bind]
  refine wp_mono (hx r) (fun a r' hy => ?_) (fun e r' hy => bind_error hy)
  rw [bind_ok hy]
  exact hg a r'

omit [TimerBackend τ TS P] in
theorem Agrees.ite {c : Prop} [Decidable c] {x' : TrialM σ τ IN OUT TS P α}
    {y' : NodeM σ τ IN OUT TS P α} (hx : Agrees x y) (hx' : Agrees x' y') :
    Agrees (if c then x else x') (if c then y else y') := by
  by_cases h : c
  · rw [if_pos h, if_pos h]; exact hx
  · rw [if_neg h, if_neg h]; exact hx'

omit [TimerBackend τ TS P] in
theorem Agrees.forM {β : Type} {g : β → TrialM σ τ IN OUT TS P Unit}
    {h : β → NodeM σ τ IN OUT TS P Unit} (hg : ∀ b, Agrees (g b) (h b)) (l : List β) :
    Agrees (forM l g) (forM l h) := by
  induction l with
  | nil => exact Agrees.pure _
  | cons b l ih =>
    rw [List.forM_cons, List.forM_cons]
    exact (hg b).bind fun _ => ih

omit [TimerBackend τ TS P] in
/-- A use of the backend that cannot fail does nothing. -/
theorem Agrees.attempt {u : Use} (hx : Agrees x y) :
    Agrees (attempt (fun _ _ => false) u >>= fun _ => x) y := fun r => hx r

omit [TimerBackend τ TS P] in
theorem Agrees.withMetrics (hx : Agrees x y) :
    Agrees (withMetrics x) (Node.withBorrow .metrics y) := by
  intro r
  unfold wp Fallible.withMetrics Node.withBorrow
  cases hm : r.node.borrowed .metrics with
  | true => rfl
  | false =>
    have := hx { r with node := r.node.hold .metrics }
    simp only [wp, NodeSt.hold] at this
    simp only [Bool.false_eq_true, if_false, NodeSt.hold]
    split at this <;> simp_all [NodeSt.release]

omit [TimerBackend τ TS P] in
theorem Agrees.recorded {x : TrialM σ τ IN OUT TS P Unit} {y : NodeM σ τ IN OUT TS P Unit}
    (hx : Agrees x y) : Agrees (recorded f x) y := by
  intro r
  have := hx r
  unfold wp Fallible.recorded at *
  split at this <;> simp_all

omit [TimerBackend τ TS P] in
theorem Agrees.logErr {x : TrialM σ τ IN OUT TS P Unit} {y : NodeM σ τ IN OUT TS P Unit}
    (hx : Agrees x y) : Agrees (logErr x) (Node.logErr y) := by
  intro r
  have := hx r
  unfold wp Fallible.logErr Node.logErr at *
  cases hr : x r with
  | ok a r' => simp_all
  | error e r' => cases e <;> simp_all

end Agrees

theorem onWatermark_agrees (c : NodeID) (w : Watermark) :
    Agrees (σ := σ) (τ := τ) (P := P) (onWatermark (fun _ _ => false) n c w)
      (Node.onWatermark n c w) := by
  refine (((Agrees.lift get).bind fun s => ?_)).attempt
  cases s.state.watermarks.lookup c with
  | none => exact Agrees.throw _
  | some old =>
    refine Agrees.ite (Agrees.pure _) ?_
    refine Agrees.attempt ?_
    cases s.state.currentWatermark with
    | none => exact Agrees.throw _
    | some current =>
      refine Agrees.attempt ((Agrees.lift _).bind fun _ => ?_)
      refine Agrees.ite (Agrees.pure _) (Agrees.ite (Agrees.pure _) (Agrees.attempt ?_))
      exact Agrees.ite (Agrees.attempt (Agrees.lift _)) (Agrees.pure _)

theorem saveState_agrees :
    Agrees (σ := σ) (τ := τ) (P := P) (saveState (fun _ _ => false) n) (Node.saveState n) := by
  intro r
  unfold saveState
  cases hd : n.checkpointDir with
  | none =>
    rw [wp_throw, Node.saveState, hd]
    rfl
  | some dir =>
    refine Agrees.attempt (fun r => ?_) r
    rw [wp_bind, Fallible.lift, wp_zoom, wp_get]
    cases he : r.node.state.currentEpoch with
    | none =>
      rw [wp_throw, Node.saveState, get_bind, hd]
      dsimp only
      rw [he]
      rfl
    | some e => exact Agrees.attempt (Agrees.lift _) r

theorem completeEpoch_agrees {x : TrialM σ τ IN OUT TS P Unit} {y : NodeM σ τ IN OUT TS P Unit}
    (hx : Agrees x y) (e : Epoch) :
    Agrees (completeEpoch (fun _ _ => false) n x e) (Node.completeEpoch n y e) := by
  refine Agrees.bind (Agrees.attempt ?_) fun _ => Agrees.withMetrics ?_
  · exact (Agrees.lift _).bind fun _ => (Agrees.lift _).bind fun _ => (Agrees.lift _).bind fun _ =>
      (Agrees.lift _).bind fun _ => (Agrees.lift _).bind fun _ => saveState_agrees n
  · exact (Agrees.lift _).bind fun _ => (Agrees.lift _).bind fun _ => (Agrees.lift _).bind fun _ =>
      hx

theorem handleEvent_agrees {x : TrialM σ τ IN OUT TS P Unit} {y : NodeM σ τ IN OUT TS P Unit}
    (hx : Agrees x y) (c : NodeID) (ev : ArconEvent IN) :
    Agrees (handleEvent (fun _ _ => false) n x c ev) (Node.handleEvent n y c ev) := by
  refine (Agrees.lift _).bind fun _ => ?_
  cases ev with
  | element e => exact Agrees.attempt (Agrees.lift _)
  | watermark w => exact onWatermark_agrees n c w
  | death msg => exact Agrees.lift _
  | epoch e =>
    refine Agrees.attempt ((Agrees.lift get).bind fun s => ?_)
    cases s.state.currentEpoch with
    | none => exact Agrees.throw _
    | some current =>
      refine Agrees.ite (Agrees.pure _) (Agrees.attempt ((Agrees.lift _).bind fun _ => ?_))
      exact Agrees.attempt (Agrees.ite (completeEpoch_agrees n hx e) (Agrees.pure _))

theorem afterStateSave_agrees (depth : Nat) :
    Agrees (σ := σ) (τ := τ) (P := P) (afterStateSave (fun _ _ => false) n depth)
      (Node.afterStateSave n depth) := by
  induction depth with
  | zero => exact Agrees.throw _
  | succ depth ih =>
    refine Agrees.attempt ((Agrees.lift _).bind fun _ => Agrees.recorded _ (Agrees.attempt ?_))
    refine (Agrees.lift get).bind fun s => Agrees.ite (Agrees.pure _) ?_
    refine Agrees.attempt (Agrees.attempt ((Agrees.lift _).bind fun _ => Agrees.forM ?_ _))
    exact fun m => Agrees.forM (fun ev => handleEvent_agrees n ih m.sender ev) _

theorem handleFrom_agrees (c : NodeID) (evs : List (ArconEvent IN)) :
    Agrees (σ := σ) (τ := τ) (P := P) (handleFrom (fun _ _ => false) n c evs)
      (Node.handleFrom n (Node.afterStateSave n Node.replayDepth) c evs) := by
  refine Agrees.ite (Agrees.throw _) ((Agrees.lift _).bind fun _ => Agrees.attempt ?_)
  refine (Agrees.lift get).bind fun s => Agrees.ite (Agrees.attempt (Agrees.lift _)) ?_
  exact Agrees.forM (fun ev => handleEvent_agrees n (afterStateSave_agrees n _) c ev) _

/-- **Over a backend in which nothing fails this is the node of `Model.lean`.** -/
theorem run_agrees (ds : List (Node.Delivery IN)) :
    Agrees (σ := σ) (τ := τ) (P := P) (run n (ds.map fun d => (fun _ _ => false, d)))
      (Node.run n ds) := by
  induction ds with
  | nil => exact Agrees.pure _
  | cons d ds ih =>
    unfold run Node.run
    rw [List.map_cons, List.forM_cons, List.forM_cons]
    refine Agrees.bind ?_ fun _ => ih
    cases d with
    | onLocal m => exact (handleFrom_agrees n m.sender m.events).logErr
    | onNetwork m => exact (handleFrom_agrees n m.sender m.events).logErr

end Fallible

end Arcon
