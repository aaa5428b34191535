import Arcon.State.Backends

/-!
# Vec state (`rocks/vec_ops.rs`, `sled/vec_ops.rs`, `in_memory/vec_ops.rs`)

On the backends with a merge operator a vector is stored as its length in eight bytes and its
elements one after the other. The three writers fill in the length each in their own way: an
appended element comes as a vector of length one, `vec_add_all` reserves the length and overwrites
it at the end, and the merge operator adds up the lengths of what it merges. The backends share this
code; where they differ (`vec_len`, `vec_merge`) each has its own.

`readAll` counts down the bytes of the reader, of which every round of the Rust loop takes at least
one: a round that took none would repeat for ever, which is `diverges`.
-/

namespace Arcon.State

open FixedBytes Merging

variable {T IK N : Type} [Message T] [FixedBytes IK] [FixedBytes N]

/-! ## The stored format -/

/-- The operand of `vec_append`. -/
def appendOperand (value : T) : Result Bytes := do
  let serialized ← serializeInto (.vec []) (usize 1)
  pure (protobuf.serializeInto serialized value).contents

/-- The loop of `vec_add_all`, over the target and the count. -/
def addAllLoop (serialized : BufMut) (len : Nat) : List T → Result (BufMut × Nat)
  | [] => .ok (serialized, len)
  | elem :: values => do
    let len ← addUsize len 1
    addAllLoop (protobuf.serializeInto serialized elem) len values

/-- The operand of `vec_add_all`. -/
def addAllOperand (values : List T) : Result Bytes := do
  -- reserve space for the length
  let serialized ← serializeInto (.vec []) (usize 0)
  let (serialized, len) ← addAllLoop serialized 0 values
  -- fill in the length
  let serialized ← serializeInto (.slice [] serialized.contents) (usize len)
  pure serialized.contents

/-- The value of `vec_set`. -/
def setStorage (value : List T) : Result Bytes := do
  let storage ← serializeInto (.vec []) (usize value.length)
  pure (value.foldl protobuf.serializeInto storage).contents

/-- The loop of `vec_get`. -/
def readAll : Nat → Bytes → Result (List T)
  | _, [] => .ok []
  | 0, _ => .error .diverges
  | n + 1, reader => do
    let (val, reader) ← protobuf.deserializeFrom reader
    let res ← readAll n reader
    pure (val :: res)

/-- `vec_get` on what the store returned. -/
def readVec : Option Bytes → Result (List T)
  | none => .ok []
  | some serialized => do
    let (len, reader) ← deserializeFrom (α := Prim 8) serialized
    let res ← readAll reader.length reader
    -- sanity check
    if res.length = len.toNat then pure res
    else .error (.panic "assertion failed: `(left == right)`")

/-- The iterator of `vec_iter`: the stored bytes and how many of them are consumed. -/
structure VecIter where
  serialized : Bytes
  consumed : Nat

namespace VecIter

/-- `iter::empty()`. -/
def empty : VecIter := ⟨[], 0⟩

variable (T) in
/-- `next`. After a decode error it is left to `prost` where the reader stands. -/
def next (it : VecIter) : Option (Result T) × VecIter :=
  let reader := it.serialized.drop it.consumed
  if reader.isEmpty then (none, it)
  else match protobuf.deserializeFrom reader with
    | .ok (val, reader) =>
      (some (.ok val), { it with consumed := it.serialized.length - reader.length })
    | .error e => (some (.error e), it)

variable (T) in
/-- The first `n` items, or all of them where the iterator ends before. -/
def take : Nat → VecIter → List (Result T)
  | 0, _ => []
  | n + 1, it =>
    match it.next T with
    | (none, _) => []
    | (some item, it) => item :: take n it

end VecIter

/-- `vec_iter` on what the store returned. -/
def iterVec : Option Bytes → Result VecIter
  | none => .ok .empty
  | some serialized => do
    let (_, reader) ← deserializeFrom (α := Prim 8) serialized
    pure ⟨serialized, serialized.length - reader.length⟩

/-- `get_len` inside the merge operators. -/
def getLen (slice : Bytes) : Option (Nat × Bytes) :=
  match deserializeFrom (α := Prim 8) slice with
  | .ok (len, rest) => some (len.toNat, rest)
  | .error _ => none

/-- The loop of the merge operators; `None` where an operand has no length. -/
def mergeLoop (result : BufMut) (len : Nat) : List Bytes → Result (Option (BufMut × Nat))
  | [] => .ok (some (result, len))
  | op :: ops =>
    match getLen op with
    | none => .ok none
    | some (n, op) => do
      let len ← addUsize len n
      mergeLoop (result.putSlice op) len ops

/-- The body of the merge operators, on the operands in order. -/
def mergeOperands (ops : List Bytes) : Result (Option Bytes) :=
  -- reserve space for the length
  match serializeInto (.vec []) (usize 0) with
  | .error _ => .ok none
  | .ok result => do
    match ← mergeLoop result 0 ops with
    | none => pure none
    | some (result, len) =>
      match serializeInto (.slice [] result.contents) (usize len) with
      | .error _ => pure none
      | .ok result => pure (some result.contents)

/-! ## Rocks -/

namespace Rocks

/-- `vec_merge`. -/
def vecMerge (_key : Bytes) (first : Option Bytes) (rest : List Bytes) : Result (Option Bytes) :=
  mergeOperands (first.toList ++ rest)

variable (db : Rocks) (handle : Handle IK N)

/-- `register_vec_handle`. -/
def registerVecHandle (id : String) : Rocks :=
  db.createColumnFamilyIfDoesntExist id (some vecMerge)

/-- `vec_clear`. -/
def vecClear : Result Rocks := do
  let key ← handle.serializeMetakeys
  db.remove handle.id key

/-- `vec_append`. -/
def vecAppend (value : T) : Result Rocks := do
  let key ← handle.serializeMetakeys
  let serialized ← appendOperand value
  db.mergeCf handle.id key serialized

/-- `vec_get`. -/
def vecGet : Result (List T) := do
  let key ← handle.serializeMetakeys
  readVec (← db.get handle.id key)

/-- `vec_iter`. -/
def vecIter : Result VecIter := do
  let key ← handle.serializeMetakeys
  iterVec (← db.get handle.id key)

/-- `vec_set`. -/
def vecSet (value : List T) : Result Rocks := do
  let key ← handle.serializeMetakeys
  let storage ← setStorage value
  db.put handle.id key storage

/-- `vec_add_all`. -/
def vecAddAll (values : List T) : Result Rocks := do
  let key ← handle.serializeMetakeys
  let serialized ← addAllOperand values
  db.mergeCf handle.id key serialized

/-- `vec_len`. -/
def vecLen : Result Nat := do
  let key ← handle.serializeMetakeys
  match ← db.get handle.id key with
  | none => pure 0
  | some storage =>
    if storage.isEmpty then pure 0
    else if storage.length < size (Prim 8) then
      .error (.panic "vec stored with partial size?")
    else do
      let (len, _) ← deserializeFrom (α := Prim 8) storage
      pure len.toNat

/-- `vec_is_empty`. -/
def vecIsEmpty : Result Bool := do
  let len ← db.vecLen handle
  pure (len == 0)

end Rocks

/-! ## Sled -/

namespace Sled

/-- `vec_merge`. -/
def vecMerge (_key : Bytes) (existent : Option Bytes) (new : Bytes) : Result (Option Bytes) :=
  mergeOperands (existent.toList ++ [new])

variable (db : Sled) (handle : Handle IK N)

/-- `register_vec_handle`. -/
def registerVecHandle (id : String) : Sled :=
  db.setTree id { db.tree id with mergeOperator := some vecMerge }

/-- `vec_clear`. -/
def vecClear : Result Sled := do
  let key ← handle.serializeMetakeys
  pure (db.remove handle.id key).2

/-- `vec_append`. -/
def vecAppend (value : T) : Result Sled := do
  let key ← handle.serializeMetakeys
  let serialized ← appendOperand value
  let tree ← (db.tree handle.id).merge key serialized
  pure (db.setTree handle.id tree)

/-- `vec_get`. -/
def vecGet : Result (List T) := do
  let key ← handle.serializeMetakeys
  readVec (db.get handle.id key)

/-- `vec_iter`. -/
def vecIter : Result VecIter := do
  let key ← handle.serializeMetakeys
  iterVec (db.get handle.id key)

/-- `vec_set`. -/
def vecSet (value : List T) : Result Sled := do
  let key ← handle.serializeMetakeys
  let storage ← setStorage value
  pure (db.put handle.id key storage).2

/-- `vec_add_all`. -/
def vecAddAll (values : List T) : Result Sled := do
  let key ← handle.serializeMetakeys
  let serialized ← addAllOperand values
  let tree ← (db.tree handle.id).merge key serialized
  pure (db.setTree handle.id tree)

/-- `vec_len`. -/
def vecLen : Result Nat := do
  let key ← handle.serializeMetakeys
  match db.get handle.id key with
  | none => pure 0
  | some storage =>
    if storage.isEmpty then pure 0
    else do
      let (len, _) ← deserializeFrom (α := Prim 8) storage
      pure len.toNat

/-- `vec_is_empty`. -/
def vecIsEmpty : Result Bool := do
  let len ← db.vecLen handle
  pure (len == 0)

end Sled

/-! ## In memory -/

namespace InMemory

variable {T : Type} (db : InMemory (List T)) (handle : Handle IK N)

/-- `vec_clear`. -/
def vecClear : Result (InMemory (List T)) := do
  let key ← handle.serializeMetakeys
  let m ← db.get handle.id
  pure (db.set handle.id (m.erase key))

/-- `vec_append`. -/
def vecAppend (value : T) : Result (InMemory (List T)) := do
  let key ← handle.serializeMetakeys
  let m ← db.get handle.id
  pure (db.set handle.id (m.insert key (m.getD key [] ++ [value])))

/-- `vec_get`. -/
def vecGet : Result (List T) := do
  let key ← handle.serializeMetakeys
  let m ← db.get handle.id
  pure (m.getD key [])

/-- `vec_iter`, all its items. -/
def vecIter : Result (List (Result T)) := do
  let key ← handle.serializeMetakeys
  let m ← db.get handle.id
  pure ((m.getD key []).map .ok)

/-- `vec_set`. -/
def vecSet (value : List T) : Result (InMemory (List T)) := do
  let key ← handle.serializeMetakeys
  let m ← db.get handle.id
  pure (db.set handle.id (m.insert key value))

/-- `vec_add_all`. -/
def vecAddAll (value : List T) : Result (InMemory (List T)) := do
  let key ← handle.serializeMetakeys
  let m ← db.get handle.id
  pure (db.set handle.id (m.insert key (m.getD key [] ++ value)))

/-- `vec_len`. -/
def vecLen : Result Nat := do
  let key ← handle.serializeMetakeys
  let m ← db.get handle.id
  pure (m.getD key []).length

/-- `vec_is_empty`. -/
def vecIsEmpty : Result Bool := do
  let key ← handle.serializeMetakeys
  let m ← db.get handle.id
  pure (m.getD key []).isEmpty

end InMemory

end Arcon.State
