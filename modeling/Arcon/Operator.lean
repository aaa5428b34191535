import Arcon.Data
import Arcon.Lib.Exec

/-!
# Operators, timer backends and the operator context

`arcon/src/stream/operator/mod.rs` and `arcon/src/timer/mod.rs`. A user-defined operator is code
the node calls with an `OperatorContext`; all it can do there is read and write its state in the
backend session, hand events to the channel strategy and use the timer. `OpM` is exactly these
calls, as a tree: an operator in this development is a value that cannot reach the node's own
state, its metrics or the timer's clock.

`OpM.run` gives the calls their meaning over an `OpCtx` (operator state, timer backend, log).
The log records, in order, what a run did; nothing ever reads it.
-/

namespace Arcon

/-- How operator and timer code ends other than by returning: a panic, or the bound a loop of the
model carries (which no run of the timers of this development reaches). -/
inductive Crash
  | panic (msg : String)
  | diverges
  deriving DecidableEq, Repr

/-- What happens at a node, in order: the events `handle_events` iterates over, the calls into the
operator, the events handed to the channel strategy by the operator (`output`) and by the node
itself (`forward`), the executions of `save_state`, and the checkpoints that were written. -/
inductive Act (IN OUT TS : Type)
  | iter (sender : NodeID) (ev : ArconEvent IN)
  | handleElement (e : ArconElement IN)
  | handleWatermark (w : Watermark)
  | handleTimeout (t : TS)
  | handleEpoch (e : Epoch)
  | output (ev : ArconEvent OUT)
  | forward (ev : ArconEvent OUT)
  | saveState (e : Epoch)
  | checkpoint (e : Epoch)
  | suicide
  deriving DecidableEq, Repr

/-- The events handed to the channel strategy, in order. -/
def handed {IN OUT TS : Type} (l : List (Act IN OUT TS)) : List (ArconEvent OUT) :=
  l.filterMap fun
    | .output ev => some ev
    | .forward ev => some ev
    | _ => none

@[simp] theorem handed_append {IN OUT TS : Type} (l₁ l₂ : List (Act IN OUT TS)) :
    handed (l₁ ++ l₂) = handed l₁ ++ handed l₂ := List.filterMap_append

/-- `TimerBackend<E>`: `P` is what it keeps in the state backend. -/
class TimerBackend (τ : Type) (E P : outParam Type) where
  persisted : τ → P
  init : EStateM Crash τ Unit
  scheduleAfter : Nat → E → EStateM Crash τ (Except E Unit)
  scheduleAt : Nat → E → EStateM Crash τ (Except E Unit)
  currentTime : EStateM Crash τ Nat
  advanceTo : Nat → EStateM Crash τ (List E)
  handleEpoch : Epoch → EStateM Crash τ Unit

/-- `timer::none()`: the backend of operators whose timer state is `ArconNever`. -/
instance : TimerBackend Unit Empty Unit where
  persisted := id
  init := pure ()
  scheduleAfter _ entry := nomatch entry
  scheduleAt _ entry := nomatch entry
  currentTime := throw (.panic "No point in calling this if you don't need timers anyway.")
  advanceTo _ := pure []
  handleEpoch _ := pure ()

/-- Operator code: the calls of an `OperatorContext`, each with what follows it. -/
inductive OpM (σ TS OUT α : Type) : Type
  | pure (a : α)
  | panic (msg : String)
  | getState (k : σ → OpM σ TS OUT α)
  | setState (s : σ) (k : OpM σ TS OUT α)
  | output (ev : ArconEvent OUT) (k : OpM σ TS OUT α)
  | currentTime (k : Nat → OpM σ TS OUT α)
  | scheduleAfter (delay : Nat) (entry : TS) (k : Except TS Unit → OpM σ TS OUT α)
  | scheduleAt (time : Nat) (entry : TS) (k : Except TS Unit → OpM σ TS OUT α)

/-- `Operator`. `init` runs once, on the state the backend holds. -/
structure Operator (σ TS IN OUT : Type) where
  init : σ → σ
  handleElement : ArconElement IN → OpM σ TS OUT Unit
  handleWatermark : Watermark → OpM σ TS OUT Unit
  handleEpoch : Epoch → OpM σ TS OUT Unit
  handleTimeout : TS → OpM σ TS OUT Unit

/-- `Filter::new`: elements whose data passes are handed on as they are. -/
def Filter.new {IN : Type} (udf : IN → Bool) : Operator Unit Empty IN IN where
  init := id
  handleElement element :=
    if udf element.data then .output (.element element) (.pure ()) else .pure ()
  handleWatermark _ := .pure ()
  handleEpoch _ := .pure ()
  handleTimeout timeout := nomatch timeout

/-- `Map::new`: the data of each element goes through `udf`. -/
def Map.new {IN OUT : Type} (udf : IN → OUT) : Operator Unit Empty IN OUT where
  init := id
  handleElement element := .output (.element ⟨udf element.data, element.timestamp⟩) (.pure ())
  handleWatermark _ := .pure ()
  handleEpoch _ := .pure ()
  handleTimeout timeout := nomatch timeout

/-- What operator code works on: its state in the backend, the timer backend, and the log. -/
structure OpCtx (σ τ IN OUT TS : Type) where
  operator : σ
  timer : τ
  log : List (Act IN OUT TS)

namespace OpM

variable {σ TS OUT α β : Type}

/-- Sequencing. -/
def bind : OpM σ TS OUT α → (α → OpM σ TS OUT β) → OpM σ TS OUT β
  | .pure a, f => f a
  | .panic msg, _ => .panic msg
  | .getState k, f => .getState fun s => (k s).bind f
  | .setState s k, f => .setState s (k.bind f)
  | .output ev k, f => .output ev (k.bind f)
  | .currentTime k, f => .currentTime fun t => (k t).bind f
  | .scheduleAfter delay entry k, f => .scheduleAfter delay entry fun r => (k r).bind f
  | .scheduleAt time entry k, f => .scheduleAt time entry fun r => (k r).bind f

instance : Monad (OpM σ TS OUT) where
  pure := .pure
  bind := OpM.bind

/-- A value that must be there (`expect`, or arithmetic that must not overflow). -/
def expect (msg : String) : Option α → OpM σ TS OUT α
  | some a => .pure a
  | none => .panic msg

/-- Read the operator's state. -/
def read : OpM σ TS OUT σ := .getState .pure

/-- Write the operator's state. -/
def update (f : σ → σ) : OpM σ TS OUT Unit := .getState fun s => .setState (f s) (.pure ())

/-- `ctx.current_time()`. -/
def time : OpM σ TS OUT Nat := .currentTime .pure

/-- `ctx.schedule_at(time, entry)`. -/
def schedule (time : Nat) (entry : TS) : OpM σ TS OUT (Except TS Unit) :=
  .scheduleAt time entry .pure

/-- `ctx.output(event)`. -/
def emit (ev : ArconEvent OUT) : OpM σ TS OUT Unit := .output ev (.pure ())

end OpM

section Run

variable {σ τ TS IN OUT α β P : Type}

/-- Append to the log. -/
def OpCtx.note (a : Act IN OUT TS) (c : OpCtx σ τ IN OUT TS) : OpCtx σ τ IN OUT TS :=
  { c with log := c.log ++ [a] }

/-- A call into the timer backend. -/
def OpCtx.timerCall (x : EStateM Crash τ α) : EStateM Crash (OpCtx σ τ IN OUT TS) α :=
  Exec.zoom OpCtx.timer (fun t c => { c with timer := t }) x

/-- Operator code run in its context. -/
def OpM.run [TimerBackend τ TS P] : OpM σ TS OUT α → EStateM Crash (OpCtx σ τ IN OUT TS) α
  | .pure a => Pure.pure a
  | .panic msg => throw (.panic msg)
  | .getState k => do (k (← get).operator).run
  | .setState s k => do
    modify fun c => { c with operator := s }
    k.run
  | .output ev k => do
    modify (OpCtx.note (.output ev))
    k.run
  | .currentTime k => do (k (← OpCtx.timerCall TimerBackend.currentTime)).run
  | .scheduleAfter delay entry k => do
    (k (← OpCtx.timerCall (TimerBackend.scheduleAfter delay entry))).run
  | .scheduleAt time entry k => do
    (k (← OpCtx.timerCall (TimerBackend.scheduleAt time entry))).run

end Run

end Arcon
