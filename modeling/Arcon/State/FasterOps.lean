import Arcon.State.Keyspace

/-!
# Values, lists and aggregates on Faster (`faster/value_ops.rs`, `vec_ops.rs`, `reducer_ops.rs`,
`aggregator_ops.rs`)

A state that is not a map has one record for each slot, under the id and the metakeys. Lists are
changed inside the store by `rmw`, and so are reducers and aggregators: `register_reducer_handle`
and `register_aggregator_handle` put a function into `aggregate_fns` under the id of the state, and
`rmw` calls it on the stored bytes and the new ones. The store takes the first operand of a key as
it is, so what `get_agg` finds after one call of `aggregate` is the operand.

A `StateType.Call` is a call of one of the operations of a state, and `StateType.exec` runs it.
-/

namespace Arcon.State

open FixedBytes

/-! ## Aggregation inside the store -/

/-- `AggregatorFn`. -/
abbrev AggregatorFn := Bytes → Bytes → Result Bytes

/-- `make_reduce_fn`. -/
def makeReduceFn {T : Type} [Message T] (reducer : T → T → T) : AggregatorFn := fun old new => do
  let old ← protobuf.deserialize old
  let new ← protobuf.deserialize new
  pure (protobuf.serialize (reducer old new))

/-- `ACCUMULATOR_MARKER`. -/
def accumulatorMarker : UInt8 := 0xAC

/-- `VALUE_MARKER`. -/
def valueMarker : UInt8 := 0x00

/-- `make_aggregate_fn`. -/
def makeAggregateFn (aggregator : Aggregator) : AggregatorFn := fun old new => do
  have := aggregator.input
  have := aggregator.accumulator
  let accumulator : aggregator.Accumulator ← match old with
    | marker :: bytes =>
      if marker = accumulatorMarker then protobuf.deserialize bytes
      else if marker = valueMarker then do
        let value ← protobuf.deserialize bytes
        pure (aggregator.add aggregator.createAccumulator value)
      else .error (.panic "unknown operand in aggregate merge operator")
    | [] => .error (.panic "unknown operand in aggregate merge operator")
  let accumulator ← match new with
    | marker :: bytes =>
      if marker = accumulatorMarker then do
        let secondAcc ← protobuf.deserialize bytes
        aggregator.mergeAccumulators accumulator secondAcc
      else if marker = valueMarker then do
        let value ← protobuf.deserialize bytes
        pure (aggregator.add accumulator value)
      else .error (.panic "unknown operand in aggregate merge operator")
    | [] => .error (.panic "unknown operand in aggregate merge operator")
  pure (accumulatorMarker :: protobuf.serialize accumulator)

/-- What registering the handles of a state puts into `aggregate_fns`. -/
def StateType.aggregateFn : StateType → Option AggregatorFn
  | reducer _ reduce => some (makeReduceFn reduce)
  | aggregator A => some (makeAggregateFn A)
  | value _ | map _ _ | vec _ => none

namespace FasterAgg

/-- `FasterAgg::rmw` with a `Modify`: the function is the one the pointer in it points to. -/
def rmw (self : FasterAgg) (new : Bytes) (fn : AggregatorFn) : Result FasterAgg :=
  match self with
  | error cause => .ok (.error cause)
  | value old | modify old _ =>
    match fn old new with
    | .ok bytes => .ok (.value bytes)
    | .error (.err e) => .ok (.error e)
    | .error failure => .error failure

end FasterAgg

namespace Faster

variable (f : Faster)

/-- `vec_push`. -/
def vecPush (key toPush : Bytes) : Result Faster := f.rmw key (.push toPush)

/-- `vec_push_all`. -/
def vecPushAll (key : Bytes) (toPush : List Bytes) : Result Faster := f.rmw key (.value toPush)

/-- `vec_set`. -/
def vecSet (key : Bytes) (value : List Bytes) : Faster := f.set key (some (.vecOps (.value value)))

/-- `aggregate`, with the functions that were registered. -/
def aggregate (aggregateFns : String → Option AggregatorFn) (key new : Bytes)
    (aggregateId : String) : Result Faster :=
  match aggregateFns aggregateId with
  | none => .error (.panic "aggregate fn missing; handle not registered?")
  | some fn =>
    match f.db key with
    | none => .ok (f.set key (some (.agg (.modify new aggregateId))))
    | some (.agg old) => do
      let res ← old.rmw new fn
      pure (f.set key (some (.agg res)))
    | some (.bytes _) | some (.vecOps _) => .error (.panic "not an aggregate")

/-- `get_agg`. -/
def getAgg (key : Bytes) : Result (Option Bytes) :=
  match f.db key with
  | none => .ok none
  | some (.agg (.value v)) | some (.agg (.modify v _)) => .ok (some v)
  | some (.agg (.error cause)) => .error (.err (.fasterErrorInRmw cause))
  | some (.bytes _) | some (.vecOps _) => .error (.panic "not an aggregate")

variable {T IK N : Type} [Message T] [FixedBytes IK] [FixedBytes N] (handle : Handle IK N)

/-- Removing the one record of a state. -/
def clear : Result Faster := do
  let key ← handle.serializeIdAndMetakeys
  pure (f.remove key)

/-- `value_clear`. -/
def valueClear : Result Faster := f.clear handle

/-- `vec_clear`. -/
def vecClear : Result Faster := f.clear handle

/-- `reducer_clear`. -/
def reducerClear : Result Faster := f.clear handle

/-- `aggregator_clear`. -/
def aggregatorClear : Result Faster := f.clear handle

/-- `value_get`. -/
def valueGet : Result (Option T) := do
  let key ← handle.serializeIdAndMetakeys
  readValue (← f.get key)

/-- `value_set`. -/
def valueSet (value : T) : Result (Faster × Option T) := do
  let key ← handle.serializeIdAndMetakeys
  let old ← readValue (← f.get key)
  pure (f.put key (protobuf.serialize value), old)

/-- `value_fast_set`. -/
def valueFastSet (value : T) : Result Faster := do
  let key ← handle.serializeIdAndMetakeys
  pure (f.put key (protobuf.serialize value))

/-- `vec_append`. -/
def vecAppend (value : T) : Result Faster := do
  let key ← handle.serializeIdAndMetakeys
  f.vecPush key (protobuf.serialize value)

/-- `vec_get`. -/
def vecGet : Result (List T) := do
  let key ← handle.serializeIdAndMetakeys
  match ← f.getVec key with
  | some serialized => serialized.mapM protobuf.deserialize
  | none => pure []

/-- `vec_iter`. -/
def vecIter : Result (List (Result T)) := do
  let key ← handle.serializeIdAndMetakeys
  match ← f.getVec key with
  | some serialized => pure (serialized.map protobuf.deserialize)
  | none => pure []

/-- `VecOps::vec_set`. -/
def vecSetAll (value : List T) : Result Faster := do
  let key ← handle.serializeIdAndMetakeys
  pure (f.vecSet key (value.map protobuf.serialize))

/-- `vec_add_all`. -/
def vecAddAll (values : List T) : Result Faster := do
  let key ← handle.serializeIdAndMetakeys
  f.vecPushAll key (values.map protobuf.serialize)

/-- `vec_len`. -/
def vecLen : Result Nat := do
  let key ← handle.serializeIdAndMetakeys
  pure (((← f.getVec key).map List.length).getD 0)

/-- `vec_is_empty`. -/
def vecIsEmpty : Result Bool := do
  let key ← handle.serializeIdAndMetakeys
  pure (((← f.getVec key).map List.isEmpty).getD true)

/-- `reducer_get`. -/
def reducerGet : Result (Option T) := do
  let key ← handle.serializeIdAndMetakeys
  readValue (← f.getAgg key)

/-- `reducer_reduce`. -/
def reducerReduce (aggregateFns : String → Option AggregatorFn) (value : T) : Result Faster := do
  let key ← handle.serializeIdAndMetakeys
  f.aggregate aggregateFns key (protobuf.serialize value) handle.id

/-- `aggregator_get`. -/
def aggregatorGet (A : Aggregator) : Result A.Output := do
  have := A.accumulator
  let key ← handle.serializeIdAndMetakeys
  match ← f.getAgg key with
  | some [] => .error (.panic "index out of bounds")
  | some (marker :: serialized) =>
    if marker = accumulatorMarker then do
      let currentAccumulator ← protobuf.deserialize serialized
      A.accumulatorIntoResult currentAccumulator
    else .error (.panic "assertion failed: `(left == right)`")
  | none => A.accumulatorIntoResult A.createAccumulator

/-- `aggregator_aggregate`. -/
def aggregatorAggregate (A : Aggregator) (aggregateFns : String → Option AggregatorFn)
    (value : A.Input) : Result Faster := do
  have := A.input
  let key ← handle.serializeIdAndMetakeys
  f.aggregate aggregateFns key (valueMarker :: protobuf.serialize value) handle.id

end Faster

/-! ## Calls -/

/-- A call of a value state. -/
inductive ValueCall (T : Type)
  | clear
  | get
  | set (value : T)
  | fastSet (value : T)

/-- A call of a list state. -/
inductive VecCall (T : Type)
  | clear
  | append (value : T)
  | get
  | iter
  | set (value : List T)
  | addAll (values : List T)
  | len
  | isEmpty

/-- A call of a map state. -/
inductive MapCall (K V : Type)
  | clear
  | get (key : K)
  | fastInsert (key : K) (value : V)
  | insert (key : K) (value : V)
  | insertAll (pairs : List (K × V))
  | remove (key : K)
  | fastRemove (key : K)
  | contains (key : K)
  | iter
  | keys
  | values
  | len
  | isEmpty

/-- A call of a reducer or an aggregator state. -/
inductive AggCall (T : Type)
  | clear
  | get
  | add (value : T)

/-- What a call returns. -/
def ValueCall.Reply {T : Type} : ValueCall T → Type
  | clear | fastSet _ => Unit
  | get | set _ => Option T

@[inherit_doc ValueCall.Reply]
def VecCall.Reply {T : Type} : VecCall T → Type
  | clear | append _ | set _ | addAll _ => Unit
  | get => List T
  | iter => List (Result T)
  | len => Nat
  | isEmpty => Bool

@[inherit_doc ValueCall.Reply]
def MapCall.Reply {K V : Type} : MapCall K V → Type
  | clear | fastInsert .. | insertAll _ | fastRemove _ => Unit
  | get _ | insert .. | remove _ => Option V
  | contains _ | isEmpty => Bool
  | iter => List (Result (K × V))
  | keys => List (Result K)
  | values => List (Result V)
  | len => Nat

/-- What a call returns, if `get` gives an `R`. -/
def AggCall.Reply {T : Type} (R : Type) : AggCall T → Type
  | clear | add _ => Unit
  | get => R

/-- An operation that returns nothing. -/
def noReply (f : Result Faster) : Result (Faster × Unit) := do
  let f ← f
  pure (f, ())

/-- An operation that changes nothing. -/
def readOnly {α : Type} (f : Faster) (r : Result α) : Result (Faster × α) := do
  let a ← r
  pure (f, a)

section exec

variable {IK N : Type} [FixedBytes IK] [FixedBytes N] (h : Handle IK N)

/-- The call on a store. -/
def ValueCall.exec {T : Type} [Message T] (f : Faster) :
    (c : ValueCall T) → Result (Faster × c.Reply)
  | clear => noReply (f.valueClear h)
  | get => readOnly f (f.valueGet h)
  | set value => f.valueSet h value
  | fastSet value => noReply (f.valueFastSet h value)

@[inherit_doc ValueCall.exec]
def VecCall.exec {T : Type} [Message T] (f : Faster) : (c : VecCall T) → Result (Faster × c.Reply)
  | clear => noReply (f.vecClear h)
  | append value => noReply (f.vecAppend h value)
  | get => readOnly f (f.vecGet h)
  | iter => readOnly f (f.vecIter h)
  | set value => noReply (f.vecSetAll h value)
  | addAll values => noReply (f.vecAddAll h values)
  | len => readOnly f (f.vecLen h)
  | isEmpty => readOnly f (f.vecIsEmpty h)

@[inherit_doc ValueCall.exec]
def MapCall.exec {K V : Type} [Message K] [Message V] (f : Faster) :
    (c : MapCall K V) → Result (Faster × c.Reply)
  | clear => noReply (f.mapClear h)
  | get key => readOnly f (f.mapGet h key)
  | fastInsert key value => noReply (f.mapFastInsert h key value)
  | insert key value => f.mapInsert h key value
  | insertAll pairs => noReply (Faster.mapInsertAll h f pairs)
  | remove key => f.mapRemove h key
  | fastRemove key => noReply (f.mapFastRemove h key)
  | contains key => readOnly f (f.mapContains h key)
  | iter => readOnly f (f.mapIter h)
  | keys => readOnly f (f.mapKeys h)
  | values => readOnly f (f.mapValues h)
  | len => readOnly f (f.mapLen h)
  | isEmpty => readOnly f (f.mapIsEmpty h)

@[inherit_doc ValueCall.exec]
def AggCall.execReducer {T : Type} [Message T] (fns : String → Option AggregatorFn) (f : Faster) :
    (c : AggCall T) → Result (Faster × c.Reply (Option T))
  | clear => noReply (f.reducerClear h)
  | get => readOnly f (f.reducerGet h)
  | add value => noReply (f.reducerReduce h fns value)

@[inherit_doc ValueCall.exec]
def AggCall.execAggregator (A : Aggregator) (fns : String → Option AggregatorFn) (f : Faster) :
    (c : AggCall A.Input) → Result (Faster × c.Reply A.Output)
  | clear => noReply (f.aggregatorClear h)
  | get => readOnly f (f.aggregatorGet h A)
  | add value => noReply (f.aggregatorAggregate h A fns value)

end exec

namespace StateType

/-- The calls of a state. -/
def Call : StateType → Type
  | value T => ValueCall T
  | map K V => MapCall K V
  | vec T => VecCall T
  | reducer T _ => AggCall T
  | aggregator A => AggCall A.Input

/-- What a call returns. -/
def Reply : (st : StateType) → st.Call → Type
  | value _, c => ValueCall.Reply c
  | map _ _, c => MapCall.Reply c
  | vec _, c => VecCall.Reply c
  | reducer T _, c => AggCall.Reply (Option T) c
  | aggregator A, c => AggCall.Reply A.Output c

/-- A call on a store. -/
def exec {IK N : Type} [FixedBytes IK] [FixedBytes N] (h : Handle IK N)
    (fns : String → Option AggregatorFn) (f : Faster) :
    (st : StateType) → (c : st.Call) → Result (Faster × st.Reply c)
  | value _, c => ValueCall.exec h f c
  | map _ _, c => MapCall.exec h f c
  | vec _, c => VecCall.exec h f c
  | reducer _ _, c => AggCall.execReducer h fns f c
  | aggregator A, c => AggCall.execAggregator h A fns f c

end StateType

end Arcon.State
