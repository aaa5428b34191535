import Arcon.Channel.Exchange

/-!
# Channel strategies (`arcon/src/stream/channel/strategy`)

A strategy collects the events of its node in buffers and sends the full ones downstream; control
events are sent at once. `Forward`, `Broadcast` and `RoundRobin` have one buffer and differ in where
they send it; their `add` is the same code three times (`addBuffered`). `KeyBy` has a buffer for
each channel.

A channel is known by its place in the strategy's list. The map of `KeyBy` has the places as its
keys; `order` is the order in which it is iterated, which is any.
-/

namespace Arcon

open Exec ExchangeM

variable {A : Type}

/-- The pool of a new strategy, with the message of its `expect`. -/
def initialPool (info : PoolInfo) (msg : String) : ExchangeM (ArconEvent A) Unit :=
  match BufferPool.new info.capacity info.bufferSize with
  | none => throw (.panic msg)
  | some pool => modify fun x => { x with pool := pool }

/-- A buffer for a new strategy. -/
def initialBuffer : ExchangeM (ArconEvent A) BufferWriter := do
  match ← tryGet with
  | none => throw (.panic "failed to fetch initial buffer")
  | some w => pure w

/-- `add` as `Forward`, `Broadcast` and `RoundRobin` write it. -/
def addBuffered {S : Type} (currBuffer : S → BufferWriter) (setBuffer : BufferWriter → S → S)
    (flush : S → ExchangeM (ArconEvent A) S) (s : S) (event : ArconEvent A) :
    ExchangeM (ArconEvent A) S := do
  let (refused, w) ← push (currBuffer s) event
  let s := setBuffer w s
  match event with
  | .element _ =>
    match refused with
    | some e => do
      let s ← flush s
      let w ← pushIgnored (currBuffer s) e
      pure (setBuffer w s)
    | none => pure s
  | _ =>
    match refused with
    | some e => do
      let s ← flush s
      let w ← pushIgnored (currBuffer s) e
      flush (setBuffer w s)
    | none => flush s

/-! ## Forward -/

/-- `Forward<A>`. -/
structure Forward where
  currBuffer : BufferWriter
  channel : Channel
  senderId : NodeID

namespace Forward

/-- `Forward::new`. -/
def new (channel : Channel) (senderId : NodeID) (info : PoolInfo) :
    ExchangeM (ArconEvent A) Forward := do
  initialPool info "failed to initialise buffer pool"
  pure ⟨← initialBuffer, channel, senderId⟩

/-- `flush`. -/
def flush (f : Forward) : ExchangeM (ArconEvent A) Forward := do
  sendReader f.senderId 0 f.channel f.currBuffer
  pure { f with currBuffer := ← getBuffer }

/-- `add`. -/
def add : Forward → ArconEvent A → ExchangeM (ArconEvent A) Forward :=
  addBuffered currBuffer (fun w f => { f with currBuffer := w }) flush

end Forward

/-! ## Broadcast -/

/-- `Broadcast<A>`. -/
structure Broadcast where
  channels : List Channel
  currBuffer : BufferWriter
  senderId : NodeID

namespace Broadcast

/-- `Broadcast::new`. -/
def new (channels : List Channel) (senderId : NodeID) (info : PoolInfo) :
    ExchangeM (ArconEvent A) Broadcast := do
  if channels.length ≤ 1 then
    throw (.panic "Number of Channels must exceed 1 for a Broadcast strategy")
  else if info.capacity ≤ channels.length then
    throw (.panic
      "Strategy must be initialised with a pool capacity larger than amount of channels")
  else do
    initialPool info "failed to initialise BufferPool"
    pure ⟨channels, ← initialBuffer, senderId⟩

/-- One turn of the loop of `flush`: the last channel gets the buffer itself, the others a copy. -/
def sendTo (b : Broadcast) (index : Nat) (channel : Channel) : ExchangeM (ArconEvent A) Unit := do
  if index = b.channels.length - 1 then
    sendReader b.senderId index channel b.currBuffer
  else do
    let writer ← getBuffer
    let writer ← copyFromWriter writer b.currBuffer
    sendReader b.senderId index channel writer

/-- `flush`. -/
def flush (b : Broadcast) : ExchangeM (ArconEvent A) Broadcast := do
  forM b.channels.zipIdx fun (channel, index) => b.sendTo index channel
  pure { b with currBuffer := ← getBuffer }

/-- `add`. -/
def add : Broadcast → ArconEvent A → ExchangeM (ArconEvent A) Broadcast :=
  addBuffered currBuffer (fun w b => { b with currBuffer := w }) flush

end Broadcast

/-! ## Round robin -/

/-- `RoundRobin<A>`. -/
structure RoundRobin where
  currBuffer : BufferWriter
  channels : List Channel
  senderId : NodeID
  currIndex : Nat

namespace RoundRobin

/-- `RoundRobin::new`. -/
def new (channels : List Channel) (senderId : NodeID) (info : PoolInfo) :
    ExchangeM (ArconEvent A) RoundRobin := do
  if channels.length ≤ 1 then
    throw (.panic "Number of Channels must exceed 1 for a RoundRobin strategy")
  else do
    initialPool info "failed to initialise buffer pool"
    pure ⟨← initialBuffer, channels, senderId, 0⟩

/-- `flush`. -/
def flush (r : RoundRobin) : ExchangeM (ArconEvent A) RoundRobin := do
  match r.channels[r.currIndex]? with
  | none => throw (.panic "Bad channel setup")
  | some channel => do
    sendReader r.senderId r.currIndex channel r.currBuffer
    let currIndex := if r.channels.length ≤ r.currIndex + 1 then 0 else r.currIndex + 1
    pure { r with currIndex := currIndex, currBuffer := ← getBuffer }

/-- `add`. -/
def add : RoundRobin → ArconEvent A → ExchangeM (ArconEvent A) RoundRobin :=
  addBuffered currBuffer (fun w r => { r with currBuffer := w }) flush

end RoundRobin

/-! ## Key by -/

/-- `KeyBy<A>`. `dataKey` is `ArconType::get_key` of the data. -/
structure KeyBy (A : Type) where
  maxKey : Nat
  keyRanges : Nat
  senderId : NodeID
  bufferMap : List (Channel × BufferWriter)
  order : List Nat
  dataKey : A → Nat

namespace KeyBy

/-- `KeyBy::new`. -/
def new (maxKey : Nat) (channels : List Channel) (order : List Nat) (dataKey : A → Nat)
    (senderId : NodeID) (info : PoolInfo) : ExchangeM (ArconEvent A) (KeyBy A) := do
  if info.capacity ≤ channels.length then
    throw (.panic
      "Strategy must be initialised with a pool capacity larger than amount of channels")
  else do
    initialPool info "failed to initialise BufferPool"
    let bufferMap ← channels.mapM fun channel => do pure (channel, ← initialBuffer)
    pure ⟨maxKey, channels.length, senderId, bufferMap, order, dataKey⟩

/-- The key range of some data, or the panic of its arithmetic. -/
def range (k : KeyBy A) (data : A) : Except Stop Nat :=
  if k.maxKey = 0 then
    .error (.panic "attempt to calculate the remainder with a divisor of zero")
  else
    match checkedMul (k.dataKey data % k.maxKey) k.keyRanges with
    | none => .error (.panic "attempt to multiply with overflow")
    | some product => .ok (product / k.maxKey)

/-- `flush_buffer`: the writer that takes the place of the one that is sent. -/
def flushBuffer (senderId : NodeID) (index : Nat) (channel : Channel) (writer : BufferWriter) :
    ExchangeM (ArconEvent A) BufferWriter := do
  sendReader senderId index channel writer
  getBuffer

/-- Put an event into the buffer of a key range, which may have to be sent first. -/
def pushInto (k : KeyBy A) (event : ArconEvent A) (index : Nat) :
    ExchangeM (ArconEvent A) (KeyBy A) := do
  match k.bufferMap[index]? with
  | none => throw (.panic "Bad KeyBy setup")
  | some (channel, buffer) => do
    let (refused, buffer) ← push buffer event
    match refused with
    | some e => do
      let buffer ← flushBuffer k.senderId index channel buffer
      let buffer ← pushIgnored buffer e
      pure { k with bufferMap := k.bufferMap.set index (channel, buffer) }
    | none => pure { k with bufferMap := k.bufferMap.set index (channel, buffer) }

/-- One turn of the loop of `flush`. -/
def flushInto (k : KeyBy A) (index : Nat) : ExchangeM (ArconEvent A) (KeyBy A) := do
  match k.bufferMap[index]? with
  | none => pure k
  | some (channel, buffer) => do
    let buffer ← flushBuffer k.senderId index channel buffer
    pure { k with bufferMap := k.bufferMap.set index (channel, buffer) }

/-- `flush`. -/
def flush (k : KeyBy A) : ExchangeM (ArconEvent A) (KeyBy A) := k.order.foldlM flushInto k

/-- `add`. -/
def add (k : KeyBy A) (event : ArconEvent A) : ExchangeM (ArconEvent A) (KeyBy A) :=
  match event with
  | .element e =>
    match k.range e.data with
    | .error stop => throw stop
    | .ok index => k.pushInto event index
  | _ => do
    let k ← k.order.foldlM (fun k index => k.pushInto event index) k
    k.flush

end KeyBy

/-! ## All of them -/

/-- `ChannelStrategy<A>`. -/
inductive ChannelStrategy (A : Type)
  | forward (s : Forward)
  | broadcast (s : Broadcast)
  | keyBy (s : KeyBy A)
  | roundRobin (s : RoundRobin)
  | mute

/-- What a strategy is made from, beside its sender and its pool. -/
inductive StrategyConf (A : Type)
  | forward (channel : Channel)
  | broadcast (channels : List Channel)
  | keyBy (maxKey : Nat) (channels : List Channel) (order : List Nat) (dataKey : A → Nat)
  | roundRobin (channels : List Channel)

/-- A call of a strategy. -/
inductive StrategyCall (A : Type)
  | add (event : ArconEvent A)
  | flush

namespace ChannelStrategy

/-- The `new` of the strategy. -/
def new (senderId : NodeID) (info : PoolInfo) :
    StrategyConf A → ExchangeM (ArconEvent A) (ChannelStrategy A)
  | .forward channel => do pure (.forward (← Forward.new channel senderId info))
  | .broadcast channels => do pure (.broadcast (← Broadcast.new channels senderId info))
  | .keyBy maxKey channels order dataKey => do
    pure (.keyBy (← KeyBy.new maxKey channels order dataKey senderId info))
  | .roundRobin channels => do
    pure (.roundRobin (← RoundRobin.new channels senderId info))

/-- `add`. -/
def add (s : ChannelStrategy A) (event : ArconEvent A) :
    ExchangeM (ArconEvent A) (ChannelStrategy A) :=
  match s with
  | .forward s => do pure (.forward (← s.add event))
  | .broadcast s => do pure (.broadcast (← s.add event))
  | .keyBy s => do pure (.keyBy (← s.add event))
  | .roundRobin s => do pure (.roundRobin (← s.add event))
  | .mute => pure .mute

/-- `flush`. -/
def flush : ChannelStrategy A → ExchangeM (ArconEvent A) (ChannelStrategy A)
  | .forward s => do pure (.forward (← s.flush))
  | .broadcast s => do pure (.broadcast (← s.flush))
  | .keyBy s => do pure (.keyBy (← s.flush))
  | .roundRobin s => do pure (.roundRobin (← s.flush))
  | .mute => pure .mute

/-- `num_channels`. -/
def numChannels : ChannelStrategy A → Nat
  | .forward _ => 1
  | .broadcast s => s.channels.length
  | .keyBy s => s.bufferMap.length
  | .roundRobin s => s.channels.length
  | .mute => 0

/-- One call. -/
def call (s : ChannelStrategy A) : StrategyCall A → ExchangeM (ArconEvent A) (ChannelStrategy A)
  | .add event => s.add event
  | .flush => s.flush

/-- Calls in a row. -/
def calls (s : ChannelStrategy A) (cs : List (StrategyCall A)) :
    ExchangeM (ArconEvent A) (ChannelStrategy A) := cs.foldlM call s

end ChannelStrategy

end Arcon
