import Arcon.State.Folding

/-!
# Aggregator state (`rocks/aggregator_ops.rs`, `sled/aggregator_ops.rs`,
`in_memory/aggregator_ops.rs`)

On the backends with a merge operator a byte in front says what the rest is: a value that came in,
or an accumulator that a merge has left. An operand may be either, wherever it stands: RocksDB
merges a run of operands into an accumulator and keeps it as an operand. The operators of Rocks and
Sled have the same body, `mergeSlices`; in it a slice that cannot be decoded, or with another
marker, ends the merge with `None`, and code of the aggregator may panic.

`InMemory` keeps the accumulator itself.
-/

namespace Arcon.State

open FixedBytes

instance (A : Aggregator) : Message A.Input := A.input

instance (A : Aggregator) : Message A.Accumulator := A.accumulator

variable {IK N : Type} [FixedBytes IK] [FixedBytes N]

section slices

variable (A : Aggregator)

/-- The accumulator that a merge starts with. -/
def startSlice : Option Bytes → Option A.Accumulator
  | some (marker :: bytes) =>
    if marker = accumulatorMarker then (protobuf.deserialize bytes).toOption
    else if marker = valueMarker then do
      let value : A.Input ← (protobuf.deserialize bytes).toOption
      pure (A.add A.createAccumulator value)
    -- unknown operand in aggregate merge operator
    else none
  | some [] => none
  | none => some A.createAccumulator

/-- One round of the loop over the other slices. -/
def absorbSlice (accumulator : A.Accumulator) : Bytes → Result (Option A.Accumulator)
  | marker :: bytes =>
    if marker = accumulatorMarker then
      match (protobuf.deserialize bytes).toOption with
      | some secondAcc => do
        let accumulator ← A.mergeAccumulators accumulator secondAcc
        pure (some accumulator)
      | none => pure none
    else if marker = valueMarker then
      match (protobuf.deserialize bytes).toOption with
      | some value => pure (some (A.add accumulator value))
      | none => pure none
    else pure none
  | [] => pure none

/-- The loop over the other slices. -/
def absorbSlices (accumulator : A.Accumulator) : List Bytes → Result (Option A.Accumulator)
  | [] => pure (some accumulator)
  | slice :: slices => do
    match ← absorbSlice A accumulator slice with
    | some accumulator => absorbSlices accumulator slices
    | none => pure none

/-- The body of the merge operators, on the slices in order. -/
def mergeSlices (allSlices : List Bytes) : Result (Option Bytes) :=
  match startSlice A allSlices.head? with
  | none => pure none
  | some accumulator => do
    match ← absorbSlices A accumulator allSlices.tail with
    | some accumulator => pure (some (accumulatorMarker :: protobuf.serialize accumulator))
    | none => pure none

/-- `aggregator_get` on what the store returned. -/
def readAggregate : Option Bytes → Result A.Output
  | some [] => .error (.panic "index out of bounds: the len is 0 but the index is 0")
  | some (marker :: serialized) =>
    if marker = accumulatorMarker then do
      let currentAccumulator ← protobuf.deserialize serialized
      A.accumulatorIntoResult currentAccumulator
    else .error (.panic "assertion failed: `(left == right)`")
  | none => A.accumulatorIntoResult A.createAccumulator

/-- The operand of `aggregator_aggregate`. -/
def valueOperand (value : A.Input) : Bytes := valueMarker :: protobuf.serialize value

end slices

/-! ## Rocks -/

namespace Rocks

/-- `make_aggregator_merge`. -/
def makeAggregatorMerge (A : Aggregator) : RocksMerge := fun _key first rest =>
  mergeSlices A (first.toList ++ rest)

variable (A : Aggregator) (db : Rocks) (handle : Handle IK N)

/-- `register_aggregator_handle`, for all states `ids`. -/
def aggregators (ids : List String) : Rocks := withOperator (makeAggregatorMerge A) ids

/-- `aggregator_clear`. -/
def aggregatorClear : Result Rocks := do
  let key ← handle.serializeMetakeys
  db.remove handle.id key

/-- `aggregator_get`. -/
def aggregatorGet : Result A.Output := do
  let key ← handle.serializeMetakeys
  readAggregate A (← db.get handle.id key)

/-- `aggregator_aggregate`. -/
def aggregatorAggregate (value : A.Input) : Result Rocks := do
  let key ← handle.serializeMetakeys
  db.mergeCf handle.id key (valueOperand A value)

/-- The operation on `Rocks`. -/
def execAggregator : FoldOp A.Input IK N → Result Rocks
  | .add h value => db.aggregatorAggregate A h value
  | .clear h => db.aggregatorClear h

end Rocks

/-! ## Sled -/

namespace Sled

/-- `make_aggregator_merge`. -/
def makeAggregatorMerge (A : Aggregator) : SledMerge := fun _key existent new =>
  mergeSlices A (existent.toList ++ [new])

variable (A : Aggregator) (db : Sled) (handle : Handle IK N)

/-- `register_aggregator_handle`, for all states `ids`. -/
def aggregators (ids : List String) : Sled := withOperator (makeAggregatorMerge A) ids

/-- `aggregator_clear`. -/
def aggregatorClear : Result Sled := do
  let key ← handle.serializeMetakeys
  pure (db.remove handle.id key).2

/-- `aggregator_get`. -/
def aggregatorGet : Result A.Output := do
  let key ← handle.serializeMetakeys
  readAggregate A (db.get handle.id key)

/-- `aggregator_aggregate`. -/
def aggregatorAggregate (value : A.Input) : Result Sled := do
  let key ← handle.serializeMetakeys
  let tree ← (db.tree handle.id).merge key (valueOperand A value)
  pure (db.setTree handle.id tree)

/-- The operation on `Sled`. -/
def execAggregator : FoldOp A.Input IK N → Result Sled
  | .add h value => db.aggregatorAggregate A h value
  | .clear h => db.aggregatorClear h

end Sled

/-! ## In memory -/

namespace InMemory

variable (A : Aggregator) (db : InMemory A.Accumulator) (handle : Handle IK N)

/-- `aggregator_clear`. -/
def aggregatorClear : Result (InMemory A.Accumulator) := do
  let key ← handle.serializeMetakeys
  let m ← db.get handle.id
  pure (db.set handle.id (m.erase key))

/-- `aggregator_get`. -/
def aggregatorGet : Result A.Output := do
  let key ← handle.serializeMetakeys
  let m ← db.get handle.id
  match m[key]? with
  | some currentAccumulator => A.accumulatorIntoResult currentAccumulator
  | none => A.accumulatorIntoResult A.createAccumulator

/-- `aggregator_aggregate`: `entry(key).or_insert_with(..)`, changed in place. -/
def aggregatorAggregate (value : A.Input) : Result (InMemory A.Accumulator) := do
  let key ← handle.serializeMetakeys
  let m ← db.get handle.id
  let currentAccumulator := m[key]?.getD A.createAccumulator
  pure (db.set handle.id (m.insert key (A.add currentAccumulator value)))

/-- The operation on `InMemory`. -/
def execAggregator : FoldOp A.Input IK N → Result (InMemory A.Accumulator)
  | .add h value => db.aggregatorAggregate A h value
  | .clear h => db.aggregatorClear A h

end InMemory

/-! ## Faster -/

namespace Faster

/-- `register_aggregator_handle`, for all states `ids`: the functions in `aggregate_fns`. -/
def aggregatorFns (A : Aggregator) (ids : List String) : String → Option AggregatorFn :=
  fun id => if id ∈ ids then some (makeAggregateFn A) else none

variable (A : Aggregator) (fns : String → Option AggregatorFn) (f : Faster)

/-- The operation on `Faster`. -/
def execAggregator : FoldOp A.Input IK N → Result Faster
  | .add h value => f.aggregatorAggregate h A fns value
  | .clear h => f.aggregatorClear h

end Faster

end Arcon.State
