import Mathlib.Logic.Function.Basic
import Mathlib.Tactic.Common

/-!
# Event buffers (`arcon/src/buffer/event/mod.rs`)

A pool owns a fixed number of buffers and goes through them in a circle. An `Arc<EventBuffer>` is
the index of its buffer in the pool; the memory behind `ptr` is a function from slots to values,
`none` for a slot that was never written. Memory does not run out, so that an allocation only fails
where the allocator refuses a capacity of 0; and a `Vec::with_capacity(n)` has the capacity `n`.

An event is a plain value. The Rust copies events byte by byte (`copy_from_writer`,
`IntoIter::next`, `into_vec`) and keeps the originals, so that after a `Broadcast` to several
channels each receiver has the same bytes. They are what was written, whatever a receiver does with
its own; but where an event owns memory on the heap all of these copies own it, and the first one to
be dropped frees it. What is said of the events that a receiver reads is about events that own
nothing there.

Out of scope: the heap behind an event, the memory orderings of the flag (a step on it is atomic),
the counts of an `Arc`, the `Drop` of a buffer (`Arcon.Allocator` has `dealloc`), and the buffers of
`buffer/network`, which nothing here uses.
-/

namespace Arcon

/-- `EventBuffer<T>`. -/
structure EventBuffer (T : Type) where
  slots : Nat → Option T
  capacity : Nat
  free : Bool

/-- `BufferWriter<T>`. -/
structure BufferWriter where
  buffer : Nat
  len : Nat
  capacity : Nat
  deriving DecidableEq, Repr

/-- `BufferReader<T>`. -/
structure BufferReader where
  buffer : Nat
  len : Nat
  deriving DecidableEq, Repr

/-- `BufferPool<T>`. -/
structure BufferPool (T : Type) where
  bufferSize : Nat
  buffers : List (EventBuffer T)
  currBuffer : Nat

/-- `PoolInfo`, as far as the strategies read it. -/
structure PoolInfo where
  bufferSize : Nat
  capacity : Nat

variable {T : Type}

namespace EventBuffer

/-- `EventBuffer::new`, `none` for `EventBuffer Alloc err`. -/
def new (capacity : Nat) : Option (EventBuffer T) :=
  if capacity = 0 then none else some ⟨fun _ => none, capacity, true⟩

/-- `push`: the value comes back if it does not fit. -/
def push (b : EventBuffer T) (value : T) (len : Nat) : Option T × EventBuffer T :=
  if b.capacity ≤ len then
    (some value, b)
  else
    (none, { b with slots := Function.update b.slots len (some value) })

/-- `release`. -/
def release (b : EventBuffer T) : EventBuffer T := { b with free := true }

/-- `try_reserve`: the `compare_and_swap` gives back the old flag. -/
def tryReserve (b : EventBuffer T) : Bool × EventBuffer T := (b.free, { b with free := false })

/-- The `ptr::copy` of the first `len` slots of another buffer. -/
def copyFrom (b other : EventBuffer T) (len : Nat) : EventBuffer T :=
  { b with slots := fun i => if i < len then other.slots i else b.slots i }

/-- The first `len` slots. -/
def read (b : EventBuffer T) (len : Nat) : List (Option T) := (List.range len).map b.slots

end EventBuffer

/-- `BufferWriter::reader`. -/
def BufferWriter.reader (w : BufferWriter) : BufferReader := ⟨w.buffer, w.len⟩

namespace BufferPool

/-- `BufferPool::new`. -/
def new (capacity bufferSize : Nat) : Option (BufferPool T) := do
  let buffers ← (List.replicate capacity (EventBuffer.new bufferSize)).mapM id
  pure ⟨bufferSize, buffers, 0⟩

/-- `index_incr`. -/
def indexIncr (p : BufferPool T) : BufferPool T :=
  if p.currBuffer + 1 = p.buffers.length then
    { p with currBuffer := 0 }
  else
    { p with currBuffer := p.currBuffer + 1 }

/-- `try_get`; `none` where the index is out of bounds. -/
def tryGet (p : BufferPool T) : Option (Option BufferWriter × BufferPool T) :=
  match p.buffers[p.currBuffer]? with
  | none => none
  | some buf =>
    let opt : Option BufferWriter :=
      if buf.tryReserve.1 then some ⟨p.currBuffer, 0, buf.capacity⟩ else none
    some (opt, indexIncr { p with buffers := p.buffers.set p.currBuffer buf.tryReserve.2 })

/-- `BufferWriter::push`. -/
def push (p : BufferPool T) (w : BufferWriter) (value : T) :
    Option T × BufferWriter × BufferPool T :=
  match p.buffers[w.buffer]? with
  | none => (some value, w, p)
  | some buf =>
    match buf.push value w.len with
    | (some v, _) => (some v, w, p)
    | (none, buf') =>
      (none, { w with len := w.len + 1 }, { p with buffers := p.buffers.set w.buffer buf' })

/-- What stands in the first `len` slots of a buffer. -/
def read (p : BufferPool T) (buffer len : Nat) : List (Option T) :=
  match p.buffers[buffer]? with
  | none => []
  | some buf => buf.read len

/-- `BufferWriter::copy_from_writer`. -/
def copyFromWriter (p : BufferPool T) (w other : BufferWriter) : BufferWriter × BufferPool T :=
  match p.buffers[w.buffer]?, p.buffers[other.buffer]? with
  | some buf, some otherBuf =>
    ({ w with len := other.len },
      { p with buffers := p.buffers.set w.buffer (buf.copyFrom otherBuf other.len) })
  | _, _ => (w, p)

/-- `EventBuffer::release` of one of its buffers. -/
def release (p : BufferPool T) (buffer : Nat) : BufferPool T :=
  { p with buffers := p.buffers.modify buffer EventBuffer.release }

end BufferPool

end Arcon
