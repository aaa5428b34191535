import Arcon.Buffer.Model
import Arcon.Data
import Arcon.Lib.Exec

/-!
# A sender, its buffers and its receivers

A channel strategy works on a pool while the receivers of its messages read them and drop them. An
`Exchange` is what both sides share, and a `schedule` of whose turn it is. The atomic steps of the
strategy (`tryGet`, `push`, `copyFromWriter`, `reader`, `send`) each take one of the sender's turns;
the receivers' turns before it come first. A program stops with `waiting` where the schedule ends,
so the states in which programs stop are all the moments of all interleavings.

What the Rust does not keep, and nothing here reads, is recorded beside it: the buffers of the
writers that are not turned into readers yet (`writing`), each message with what stood in its buffer
when it was made and what was read through it (`readings`), and the results of the pushes that the
code ignores (`ignored`).
-/

namespace Arcon

open Exec

/-- `SerError` of kompact, as far as `send`'s callers tell its cases apart. -/
inductive SerError
  | bufferError (msg : String)
  | other (msg : String)
  deriving DecidableEq, Repr

/-- `Channel<A>`: a local queue, or a remote one with its serialiser. -/
inductive Channel
  | onLocal
  | remote
  deriving DecidableEq, Repr

/-- A step of the receiver of message `i`: `IntoIter::next`, `as_slice` (or `into_vec`), and the
drop of the reader. -/
inductive Receive
  | next (i : Nat)
  | slice (i : Nat)
  | drop (i : Nat)
  deriving DecidableEq, Repr

/-- Whose turn it is. The sender's turn says what `tell_serialised` returns, should it be called. -/
inductive Turn
  | receiver (r : Receive)
  | sender (tell : Except SerError Unit)

/-- How a strategy's code ends other than by returning. -/
inductive Stop
  | panic (msg : String)
  | waiting
  deriving DecidableEq, Repr

/-- A message: its sender and its reader, what stood in the buffer when the reader was made, the
channel it was sent on, whether it got there, what was read through it, and whether the reader still
lives. -/
structure Reading (T : Type) where
  sender : NodeID
  reader : BufferReader
  written : List (Option T)
  channel : Option Nat
  arrived : Bool
  seen : List (Option T)
  live : Bool

/-- A message that was just made. -/
def Reading.new {T : Type} (sender : NodeID) (reader : BufferReader) (written : List (Option T)) :
    Reading T := ⟨sender, reader, written, none, false, [], true⟩

/-- What a sender and its receivers share. -/
structure Exchange (T : Type) where
  pool : BufferPool T
  writing : List Nat
  readings : List (Reading T)
  ignored : List (Option T)
  schedule : List Turn

/-- The code of a channel strategy. -/
abbrev ExchangeM (T : Type) := EStateM Stop (Exchange T)

namespace Exchange

variable {T : Type}

/-- Before a strategy is made. -/
def start (schedule : List Turn) : Exchange T := ⟨⟨0, [], 0⟩, [], [], [], schedule⟩

/-- Change message `i`. -/
def modifyReading (x : Exchange T) (i : Nat) (f : Reading T → Reading T) : Exchange T :=
  { x with readings := x.readings.modify i f }

/-- The drop of a reader. -/
def dropReader (x : Exchange T) (i : Nat) : Exchange T :=
  match x.readings[i]? with
  | none => x
  | some r =>
    if r.live then
      { x.modifyReading i fun r => { r with live := false } with
        pool := x.pool.release r.reader.buffer }
    else x

/-- `IntoIter::next`: the next slot, while there is one. -/
def readNext (x : Exchange T) (i : Nat) : Exchange T :=
  x.modifyReading i fun r =>
    if r.live = true ∧ r.seen.length < r.reader.len then
      { r with seen := r.seen ++
          ((x.pool.read r.reader.buffer r.reader.len).drop r.seen.length).take 1 }
    else r

/-- `as_slice` and `into_vec`: all slots. -/
def readAll (x : Exchange T) (i : Nat) : Exchange T :=
  x.modifyReading i fun r =>
    if r.live then { r with seen := x.pool.read r.reader.buffer r.reader.len } else r

/-- A receiver's step. It only has the messages that were sent. -/
def receive (x : Exchange T) : Receive → Exchange T
  | .next i => if (x.readings[i]?.bind Reading.channel).isSome then x.readNext i else x
  | .slice i => if (x.readings[i]?.bind Reading.channel).isSome then x.readAll i else x
  | .drop i => if (x.readings[i]?.bind Reading.channel).isSome then x.dropReader i else x

end Exchange

namespace ExchangeM

variable {T : Type}

/-- The receivers' turns up to the sender's next one. -/
def turnFrom : List Turn → Exchange T → EStateM.Result Stop (Exchange T) (Except SerError Unit)
  | [], x => .error .waiting { x with schedule := [] }
  | .receiver r :: rest, x => turnFrom rest (x.receive r)
  | .sender tell :: rest, x => .ok tell { x with schedule := rest }

/-- Wait for the sender's turn. -/
def turn : ExchangeM T (Except SerError Unit) := fun x => turnFrom x.schedule x

/-- `pool.try_get()`. -/
def tryGet : ExchangeM T (Option BufferWriter) := do
  let _ ← turn
  match (← get).pool.tryGet with
  | none => throw (.panic "index out of bounds")
  | some (opt, pool) =>
    modify fun x =>
      { x with pool := pool, writing := (opt.map BufferWriter.buffer).toList ++ x.writing }
    pure opt

/-- The loop of `get`, for at most so many rounds. -/
def getLoop : Nat → ExchangeM T BufferWriter
  | 0 => throw .waiting
  | rounds + 1 => do
    match ← tryGet with
    | some w => pure w
    | none => getLoop rounds

/-- `pool.get()`: every round of its loop takes a turn. -/
def getBuffer : ExchangeM T BufferWriter := do
  getLoop ((← get).schedule.length + 1)

/-- `writer.push(value)`. -/
def push (w : BufferWriter) (value : T) : ExchangeM T (Option T × BufferWriter) := do
  let _ ← turn
  let x ← get
  match x.pool.push w value with
  | (refused, w', pool) =>
    set { x with pool := pool }
    pure (refused, w')

/-- `writer.push(value)` whose result nobody looks at. -/
def pushIgnored (w : BufferWriter) (value : T) : ExchangeM T BufferWriter := do
  let (refused, w') ← push w value
  modify fun x => { x with ignored := x.ignored ++ [refused] }
  pure w'

/-- `writer.copy_from_writer(other)`. -/
def copyFromWriter (w other : BufferWriter) : ExchangeM T BufferWriter := do
  let _ ← turn
  let x ← get
  match x.pool.copyFromWriter w other with
  | (w', pool) =>
    set { x with pool := pool }
    pure w'

/-- `writer.reader()`, put into a message: its index among the `readings`. -/
def reader (sender : NodeID) (w : BufferWriter) : ExchangeM T Nat := do
  let _ ← turn
  let x ← get
  set { x with
    writing := x.writing.erase w.buffer
    readings := x.readings ++ [Reading.new sender w.reader (x.pool.read w.buffer w.len)] }
  pure x.readings.length

/-- `send`: a remote message is turned into a `RawArconMessage` first, which drops its reader. -/
def send (index : Nat) (channel : Channel) (i : Nat) : ExchangeM T (Except SerError Unit) :=
  match channel with
  | .onLocal => do
    let _ ← turn
    modify fun x => x.modifyReading i fun r => { r with channel := some index, arrived := true }
    pure (.ok ())
  | .remote => do
    let _ ← turn
    modify fun x => x.readAll i
    let _ ← turn
    modify fun x => x.dropReader i
    let tell ← turn
    modify fun x => x.modifyReading i fun r =>
      { r with channel := some index, arrived := tell matches .ok () }
    pure tell

/-- Send the events of a writer: a `BufferError` is a panic, other errors are not looked at. -/
def sendReader (sender : NodeID) (index : Nat) (channel : Channel) (w : BufferWriter) :
    ExchangeM T Unit := do
  let i ← reader sender w
  match ← send index channel i with
  | .error (.bufferError msg) => throw (.panic ("Buffer Error " ++ msg))
  | _ => pure ()

end ExchangeM

end Arcon
