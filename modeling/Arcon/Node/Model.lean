import Arcon.Operator
import Mathlib.Data.List.AList
import Mathlib.Data.Finset.Card

/-!
# The node (`arcon/src/stream/node/mod.rs`)

A node drives one operator: it takes messages from its in-channels, hands elements to the
operator, keeps the minimum watermark over the channels, and aligns the epoch markers of the
channels into checkpoints. The functions below follow the Rust one by one.

* A program of the node is a `NodeM`. The `?` of the Rust is `Fault.err`; it reaches
  `receive_local` / `receive_network`, which log it and go on. A panic is any other fault; it ends
  the component.
* A `RefCell` is a value plus the flag `borrowed`; `withBorrow` is a `borrow_mut()` whose guard
  lives to the end of the given scope. Taking a guard that is still out is the
  `already borrowed` panic.
* `handle_events` and `after_state_save` call each other. `afterStateSave` is bounded by a depth;
  `replayDepth` is enough for every state (`Replay.lean`).
* The state backend never fails a single read or write here; `checkpoint` may fail at any epoch
  (`checkpointFails`).

Out of scope: logging, the port to the node manager and the periodic report of the metrics over it,
the rates of the throughput meter, and the shutdown that `suicide` asks for.
-/

namespace Arcon

open Exec

/-- The cells a node keeps behind a `RefCell`. -/
inductive Cell
  | metrics
  | channelStrategy
  | timerBackend
  deriving DecidableEq, Repr

/-- How a node's code ends other than by returning. -/
inductive Fault
  /-- `Err(_)` of an `ArconResult`. -/
  | err (msg : String)
  /-- The operator or the timer backend panicked. -/
  | crash (c : Crash)
  /-- `already borrowed: BorrowMutError`. -/
  | alreadyBorrowed (cell : Cell)
  /-- The depth of the model's `afterStateSave` is used up. -/
  | replayBound
  deriving DecidableEq, Repr

/-- `NodeMetrics`; the throughput meter counts marked events. -/
structure NodeMetrics where
  inboundThroughput : Nat
  epochCounter : Nat
  watermarkCounter : Nat
  watermark : Watermark
  epoch : Epoch
  inboundChannels : Nat
  deriving DecidableEq, Repr

/-- `NodeMetrics::new`. -/
def NodeMetrics.new : NodeMetrics := ⟨0, 0, 0, 0, 0, 0⟩

/-- `NodeState`: the node's own state, all of it in the state backend. -/
structure NodeState (IN : Type) where
  watermarks : AList fun _ : NodeID => Watermark
  currentWatermark : Option Watermark
  currentEpoch : Option Epoch
  blockedChannels : Finset NodeID
  messageBuffer : List (RawArconMessage IN)

/-- A backend that holds nothing yet. -/
def NodeState.new (IN : Type) : NodeState IN := ⟨∅, none, none, ∅, []⟩

/-- What a checkpoint holds: the node's, the operator's and the timer's state. -/
structure Snapshot (σ P IN : Type) where
  node : NodeState IN
  operator : σ
  timer : P

/-- The parts of a `Node` that do not change, and its environment: `checkpoint_dir` of the
configuration, and the epochs whose `Backend::checkpoint` fails. -/
structure Node (σ TS IN OUT : Type) where
  id : NodeID
  inChannels : List NodeID
  operator : Operator σ TS IN OUT
  checkpointDir : Option String
  checkpointFails : Epoch → Bool

/-- The parts of a `Node` that change, with the checkpoints it has taken. -/
structure NodeSt (σ τ IN OUT TS P : Type) where
  state : NodeState IN
  ctx : OpCtx σ τ IN OUT TS
  metrics : NodeMetrics
  borrowed : Cell → Bool
  checkpoints : List (String × Snapshot σ P IN)

/-- A program of the node. -/
abbrev NodeM (σ τ IN OUT TS P : Type) := EStateM Fault (NodeSt σ τ IN OUT TS P)

namespace Node

variable {σ τ TS IN OUT P α : Type}

/-- `c.borrow_mut()` with the guard live over `x`. -/
def withBorrow (c : Cell) (x : NodeM σ τ IN OUT TS P α) : NodeM σ τ IN OUT TS P α := fun s =>
  if s.borrowed c then .error (.alreadyBorrowed c) s
  else
    match x { s with borrowed := Function.update s.borrowed c true } with
    | .ok a s' => .ok a { s' with borrowed := Function.update s'.borrowed c false }
    | .error e s' => .error e { s' with borrowed := Function.update s'.borrowed c false }

/-- Operator or timer code, on the context. -/
def inCtx (x : EStateM Crash (OpCtx σ τ IN OUT TS) α) : NodeM σ τ IN OUT TS P α := fun s =>
  match x s.ctx with
  | .ok a c => .ok a { s with ctx := c }
  | .error e c => .error (.crash e) { s with ctx := c }

/-- Append to the log. -/
def note (a : Act IN OUT TS) : NodeM σ τ IN OUT TS P Unit :=
  modify fun s => { s with ctx := s.ctx.note a }

/-- Write the node's own state. -/
def modifyState (f : NodeState IN → NodeState IN) : NodeM σ τ IN OUT TS P Unit :=
  modify fun s => { s with state := f s.state }

/-- Write the metrics; the caller holds the guard. -/
def modifyMetrics (f : NodeMetrics → NodeMetrics) : NodeM σ τ IN OUT TS P Unit :=
  modify fun s => { s with metrics := f s.metrics }

/-- `channel_strategy.borrow_mut().add(event, self)`. -/
def forward (ev : ArconEvent OUT) : NodeM σ τ IN OUT TS P Unit :=
  withBorrow .channelStrategy (note (.forward ev))

variable [TimerBackend τ TS P]

/-- A call into the operator with `make_context!`: both guards live over the call. -/
def withContext (p : OpM σ TS OUT Unit) : NodeM σ τ IN OUT TS P Unit :=
  withBorrow .channelStrategy (withBorrow .timerBackend (inCtx p.run))

/-- `record_incoming_events`. -/
def recordIncomingEvents (total : Nat) : NodeM σ τ IN OUT TS P Unit :=
  withBorrow .metrics
    (modifyMetrics fun m => { m with inboundThroughput := m.inboundThroughput + total })

variable (n : Node σ TS IN OUT)

/-- The `Element` branch of `handle_events`. -/
def onElement (sender : NodeID) (e : ArconElement IN) : NodeM σ τ IN OUT TS P Unit := do
  match (← get).state.watermarks.lookup sender with
  | none => throw (.err "uninitialized watermark")
  | some w =>
    if e.timestamp.getD u64Max ≤ w then
      pure ()
    else do
      note (.handleElement e)
      withContext (n.operator.handleElement e)

/-- The new minimum has passed `current_watermark`: hand it to the operator, fire the timers it
reaches, and forward it. -/
def advanceWatermark (w : Watermark) : NodeM σ τ IN OUT TS P Unit := do
  modifyState fun st => { st with currentWatermark := some w }
  note (.handleWatermark w)
  withContext (n.operator.handleWatermark w)
  let timeouts ← withBorrow .timerBackend (inCtx (OpCtx.timerCall (TimerBackend.advanceTo w)))
  forM timeouts fun t => do
    note (.handleTimeout t)
    withContext (n.operator.handleTimeout t)
  withBorrow .metrics do
    modifyMetrics fun m => { m with watermark := w }
    forward (.watermark w)
    modifyMetrics fun m => { m with watermarkCounter := m.watermarkCounter + 1 }

/-- The least of the stored watermarks and `w`. -/
def newWatermark (watermarks : AList fun _ : NodeID => Watermark) (w : Watermark) : Watermark :=
  (watermarks.entries.map Sigma.snd).foldr min w

/-- The `Watermark` branch of `handle_events`. -/
def onWatermark (sender : NodeID) (w : Watermark) : NodeM σ τ IN OUT TS P Unit := do
  let s ← get
  match s.state.watermarks.lookup sender with
  | none => throw (.err "uninitialized watermark")
  | some old =>
    if w ≤ old then
      pure ()
    else
      match s.state.currentWatermark with
      | none => throw (.err "current watermark uninitialized")
      | some current => do
        modifyState fun st => { st with watermarks := st.watermarks.insert sender w }
        -- `insert` gives back `old`: another channel holds the minimum
        if current < old then
          pure ()
        else if w ≤ current then
          pure ()
        else
          let new := newWatermark (s.state.watermarks.insert sender w) w
          if current < new then advanceWatermark n new else pure ()

/-- `save_state`. -/
def saveState : NodeM σ τ IN OUT TS P Unit := do
  let s ← get
  match n.checkpointDir with
  | none => throw (.err "Failed to fetch checkpoint_dir from Config")
  | some baseDir =>
    match s.state.currentEpoch with
    | none => throw (.err "current epoch uninitialized")
    | some epoch =>
      if n.checkpointFails epoch then
        throw (.err "checkpoint failed")
      else do
        modify fun s => { s with checkpoints := s.checkpoints ++
          [(baseDir ++ "/checkpoint_" ++ toString n.id ++ "_" ++ toString epoch,
            ⟨s.state, s.ctx.operator, TimerBackend.persisted s.ctx.timer⟩)] }
        note (.checkpoint epoch)

/-- The first half of an epoch step: hand the marker to the operator and the timer, and take the
checkpoint. -/
def checkpointEpoch (e : Epoch) : NodeM σ τ IN OUT TS P Unit := do
  modifyState fun st => { st with currentEpoch := some e }
  note (.handleEpoch e)
  withContext (n.operator.handleEpoch e)
  withBorrow .timerBackend (inCtx (OpCtx.timerCall (TimerBackend.handleEpoch e)))
  note (.saveState e)
  saveState n

/-- All channels have delivered the marker of `e`. The metrics guard is taken after the checkpoint
and lives over the replay of the buffer. -/
def completeEpoch (afterStateSave : NodeM σ τ IN OUT TS P Unit) (e : Epoch) :
    NodeM σ τ IN OUT TS P Unit := do
  checkpointEpoch n e
  withBorrow .metrics do
    modifyMetrics fun m => { m with epoch := e }
    forward (.epoch e)
    modifyMetrics fun m => { m with epochCounter := m.epochCounter + 1 }
    afterStateSave

/-- The `Epoch` branch of `handle_events`. -/
def onEpoch (afterStateSave : NodeM σ τ IN OUT TS P Unit) (sender : NodeID) (e : Epoch) :
    NodeM σ τ IN OUT TS P Unit := do
  let s ← get
  match s.state.currentEpoch with
  | none => throw (.err "uninitialized epoch")
  | some current =>
    if e ≤ current then
      pure ()
    else do
      modifyState fun st => { st with blockedChannels := insert sender st.blockedChannels }
      if (insert sender s.state.blockedChannels).card = n.inChannels.length then
        completeEpoch n afterStateSave e
      else
        pure ()

/-- The `Death` branch of `handle_events`. -/
def onDeath (msg : String) : NodeM σ τ IN OUT TS P Unit := do
  forward (.death msg)
  note .suicide

/-- One turn of the loop of `handle_events`. -/
def handleEvent (afterStateSave : NodeM σ τ IN OUT TS P Unit) (sender : NodeID)
    (ev : ArconEvent IN) : NodeM σ τ IN OUT TS P Unit := do
  note (.iter sender ev)
  match ev with
  | .element e => onElement n sender e
  | .watermark w => onWatermark n sender w
  | .epoch e => onEpoch n afterStateSave sender e
  | .death msg => onDeath msg

/-- `handle_events`. -/
def handleEvents (afterStateSave : NodeM σ τ IN OUT TS P Unit) (sender : NodeID)
    (events : List (ArconEvent IN)) : NodeM σ τ IN OUT TS P Unit :=
  forM events (handleEvent n afterStateSave sender)

/-- `after_state_save`, to a depth of nested replays. -/
def afterStateSave : Nat → NodeM σ τ IN OUT TS P Unit
  | 0 => throw .replayBound
  | depth + 1 => do
    modifyState fun st => { st with blockedChannels := ∅ }
    let s ← get
    -- the local copy of the buffer, replayed without a look at `blocked_channels`
    if s.state.messageBuffer.isEmpty then
      pure ()
    else do
      modifyState fun st => { st with messageBuffer := [] }
      forM s.state.messageBuffer fun m => handleEvents n (afterStateSave depth) m.sender m.events

/-- The depth the node's entry points use. -/
def replayDepth : Nat := 2

/-- The common body of `handle_raw_msg` and `handle_message`. -/
def handleFrom (afterStateSave : NodeM σ τ IN OUT TS P Unit) (sender : NodeID)
    (events : List (ArconEvent IN)) : NodeM σ τ IN OUT TS P Unit := do
  if sender ∉ n.inChannels then
    throw (.err "Message from invalid sender")
  else do
    recordIncomingEvents events.length
    if sender ∈ (← get).state.blockedChannels then
      modifyState fun st => { st with messageBuffer := st.messageBuffer ++ [⟨events, sender⟩] }
    else
      handleEvents n afterStateSave sender events

/-- `handle_raw_msg`. -/
def handleRawMsg (m : RawArconMessage IN) : NodeM σ τ IN OUT TS P Unit :=
  handleFrom n (afterStateSave n replayDepth) m.sender m.events

/-- `handle_message`. -/
def handleMessage (m : ArconMessage IN) : NodeM σ τ IN OUT TS P Unit :=
  handleFrom n (afterStateSave n replayDepth) m.into.sender m.into.events

/-- An `Err` is logged by the actor and dropped; a panic ends it. -/
def logErr (x : NodeM σ τ IN OUT TS P Unit) : NodeM σ τ IN OUT TS P Unit := fun s =>
  match x s with
  | .error (.err _) s' => .ok () s'
  | r => r

/-- `receive_local`. -/
def receiveLocal (m : ArconMessage IN) : NodeM σ τ IN OUT TS P Unit := logErr (handleMessage n m)

/-- `receive_network`, once the message is deserialised. -/
def receiveNetwork (m : RawArconMessage IN) : NodeM σ τ IN OUT TS P Unit :=
  logErr (handleRawMsg n m)

/-- A message as it reaches the actor. -/
inductive Delivery (IN : Type)
  | onLocal (m : ArconMessage IN)
  | onNetwork (m : RawArconMessage IN)

/-- Its sender. -/
def Delivery.sender : Delivery IN → NodeID
  | .onLocal m => m.sender
  | .onNetwork m => m.sender

/-- Its events. -/
def Delivery.events : Delivery IN → List (ArconEvent IN)
  | .onLocal m => m.events
  | .onNetwork m => m.events

/-- Handle a delivered message. -/
def handle : Delivery IN → NodeM σ τ IN OUT TS P Unit
  | .onLocal m => handleMessage n m
  | .onNetwork m => handleRawMsg n m

/-- Handle a delivered message as the actor does. -/
def receive : Delivery IN → NodeM σ τ IN OUT TS P Unit
  | .onLocal m => receiveLocal n m
  | .onNetwork m => receiveNetwork n m

/-- A run of the node: messages in the order in which they arrive, to the first panic. -/
def run (ds : List (Delivery IN)) : NodeM σ τ IN OUT TS P Unit := forM ds (receive n)

/-- A run in which an `Err` ends it too. -/
def runOk (ds : List (Delivery IN)) : NodeM σ τ IN OUT TS P Unit := forM ds (handle n)

/-- The events received from channel `c`, in order. -/
def received (c : NodeID) (ds : List (Delivery IN)) : List (ArconEvent IN) :=
  (ds.filter fun d => d.sender = c).flatMap Delivery.events

/-- `on_start`: a restored node first finishes the epoch its checkpoint was taken in. -/
def onStart (wasRestored : Bool) : NodeM σ τ IN OUT TS P Unit :=
  if wasRestored then logErr (afterStateSave n replayDepth) else pure ()

/-- Insert the initial watermark of a channel that has none. -/
def initWatermark (watermarks : AList fun _ : NodeID => Watermark) (channel : NodeID) :
    AList fun _ : NodeID => Watermark :=
  if channel ∈ watermarks then watermarks else watermarks.insert channel 0

/-- `Node::new`, on the state the backend holds and a timer backend over it. -/
def new (st : NodeState IN) (op : σ) (timer : τ) :
    Except Crash (NodeSt σ τ IN OUT TS P) :=
  match TimerBackend.init timer with
  | .error e _ => .error e
  | .ok _ timer =>
    .ok
      { state :=
          { st with
            watermarks := n.inChannels.foldl initWatermark st.watermarks
            currentWatermark := some (st.currentWatermark.getD 0)
            currentEpoch := some (st.currentEpoch.getD 0) }
        ctx := ⟨n.operator.init op, timer, []⟩
        metrics := { NodeMetrics.new with inboundChannels := n.inChannels.length }
        borrowed := fun _ => false
        checkpoints := [] }

/-- The node of the Rust tests: a filter for the numbers from 0 on, without timers. -/
def filterNode (inChannels : List NodeID) : Node Unit Empty Int Int where
  id := 0
  inChannels := inChannels
  operator := Filter.new fun x => 0 ≤ x
  checkpointDir := some "/tmp"
  checkpointFails _ := false

/-- It, started on an empty backend. -/
def filterStart (inChannels : List NodeID) : NodeSt Unit Unit Int Int Empty Unit where
  state := ⟨inChannels.foldl initWatermark ∅, some 0, some 0, ∅, []⟩
  ctx := ⟨(), (), []⟩
  metrics := { NodeMetrics.new with inboundChannels := inChannels.length }
  borrowed _ := false
  checkpoints := []

end Node

end Arcon
