import Arcon.State.MapOps

/-!
# Map state on Faster (`faster/mod.rs`, `faster/map_ops.rs`, feature `slower_faster`)

All states share one FASTER store, so a key is stored under the id and the metakeys of the handle in
front of it. The store cannot be scanned: the keys of a map are kept a second time, as a list under
the id and the metakeys alone. `rmw` changes that list inside the store; what it stores for a key it
does not have yet is the modification itself, whatever variant that is.

FASTER is not part of the repository. Its statuses other than `OK` and `NOT_FOUND` (a pending
operation is waited for) are not modelled. A record holds what was last written to it, a value, a
list or an aggregate; reading one as another does not happen and is a panic here.
-/

namespace Arcon.State

open FixedBytes

/-- `FasterVecOps`. -/
inductive FasterVecOps
  | value (v : List Bytes)
  | push (elem : Bytes)
  | pushIfAbsent (elem : Bytes)
  | remove (elem : Bytes)
  | removeIdx (idx : Nat)
  deriving DecidableEq, Repr

namespace FasterVecOps

/-- The list a stored variant stands for, in `get_vec` and in `rmw`. -/
def elems : FasterVecOps → Result (List Bytes)
  | value v => .ok v
  | push single | pushIfAbsent single => .ok [single]
  | remove _ | removeIdx _ => .error (.panic "invalid faster vec ops value")

/-- `rmw`. -/
def rmw (self modification : FasterVecOps) : Result FasterVecOps := do
  let res ← self.elems
  match modification with
  | value elems => pure (.value (res ++ elems))
  | push elem => pure (.value (res ++ [elem]))
  | pushIfAbsent elem => pure (.value (if elem ∈ res then res else res ++ [elem]))
  | remove elem =>
    match res.findIdx? (· == elem) with
    | some idx => pure (.value (res.eraseIdx idx))
    -- does nothing if the item doesn't exist
    | none => pure (.value res)
  | removeIdx idx =>
    if idx < res.length then pure (.value (res.eraseIdx idx))
    else .error (.panic "removal index should be < len")

/-- Removing an element that may be missing. -/
theorem rmw_remove {l : FasterVecOps} {res : List Bytes} (helems : l.elems = .ok res)
    (e : Bytes) : l.rmw (.remove e) = .ok (.value (res.erase e)) := by
  simp only [rmw, helems, ok_bind, pure_eq_ok]
  rw [List.erase_eq_eraseP', List.eraseP_eq_eraseIdx]
  cases res.findIdx? (· == e) <;> rfl

end FasterVecOps

/-- `FasterAgg`. The source stores a pointer to the function of a state, and of an error its text;
here a function goes by the id of its state, and an error is kept as it is. -/
inductive FasterAgg
  | value (v : Bytes)
  | modify (v : Bytes) (fn : String)
  | error (cause : ArconStateError)
  deriving DecidableEq, Repr

/-- What a record of the store holds. -/
inductive FasterRecord
  | bytes (b : Bytes)
  | vecOps (v : FasterVecOps)
  | agg (a : FasterAgg)
  deriving DecidableEq, Repr

/-- `Faster`: the records of its `FasterKv`. -/
structure Faster where
  db : Bytes → Option FasterRecord

namespace Faster

variable (f : Faster)

/-- A new store. -/
def create : Faster := ⟨fun _ => none⟩

/-- The store with another record under `key`. -/
def set (key : Bytes) (r : Option FasterRecord) : Faster :=
  ⟨fun k => if k = key then r else f.db k⟩

/-- `get`. -/
def get (key : Bytes) : Result (Option Bytes) :=
  match f.db key with
  | none => .ok none
  | some (.bytes b) => .ok (some b)
  | some (.vecOps _) | some (.agg _) => .error (.panic "not a value")

/-- `get_vec`. -/
def getVec (key : Bytes) : Result (Option (List Bytes)) :=
  match f.db key with
  | none => .ok none
  | some (.vecOps v) => do
    let val ← v.elems
    pure (some val)
  | some (.bytes _) | some (.agg _) => .error (.panic "not a list")

/-- `put`. -/
def put (key value : Bytes) : Faster := f.set key (some (.bytes value))

/-- `remove`. -/
def remove (key : Bytes) : Faster := f.set key none

/-- The removals of `map_clear`. -/
theorem foldl_remove_db (keys : List Bytes) (f : Faster) (x : Bytes) :
    (keys.foldl remove f).db x = if x ∈ keys then none else f.db x := by
  induction keys generalizing f with
  | nil => simp
  | cons key keys ih =>
    rw [List.foldl_cons, ih]
    by_cases hx : x ∈ keys
    · simp [hx]
    · by_cases hk : x = key
      · simp [remove, set, hk]
      · simp [remove, set, hx, hk]

/-- `FasterKv::rmw` of a list. -/
def rmw (key : Bytes) (modification : FasterVecOps) : Result Faster :=
  match f.db key with
  | none => .ok (f.set key (some (.vecOps modification)))
  | some (.vecOps old) => do
    let new ← old.rmw modification
    pure (f.set key (some (.vecOps new)))
  | some (.bytes _) | some (.agg _) => .error (.panic "not a list")

/-- `vec_remove`. -/
def vecRemove (key toRemove : Bytes) : Result Faster := f.rmw key (.remove toRemove)

/-- `vec_push_if_absent`. -/
def vecPushIfAbsent (key toPush : Bytes) : Result Faster := f.rmw key (.pushIfAbsent toPush)

variable {K V IK N : Type} [Message K] [Message V] [FixedBytes IK] [FixedBytes N]
  (handle : Handle IK N)

/-- `map_clear`. -/
def mapClear : Result Faster := do
  let pre ← handle.serializeIdAndMetakeys
  match ← f.getVec pre with
  | none => pure f
  | some keys => pure (keys.foldl remove (f.remove pre))

/-- `map_get`. -/
def mapGet (key : K) : Result (Option V) := do
  let key ← handle.serializeIdMetakeysAndKey key
  readValue (← f.get key)

/-- `map_fast_insert`. -/
def mapFastInsert (key : K) (value : V) : Result Faster := do
  let key ← handle.serializeIdMetakeysAndKey key
  let f := f.put key (protobuf.serialize value)
  let pre ← handle.serializeIdAndMetakeys
  f.vecPushIfAbsent pre key

/-- `map_insert`. -/
def mapInsert (key : K) (value : V) : Result (Faster × Option V) := do
  let key ← handle.serializeIdMetakeysAndKey key
  let old ← readValue (← f.get key)
  let f := f.put key (protobuf.serialize value)
  let pre ← handle.serializeIdAndMetakeys
  let f ← f.vecPushIfAbsent pre key
  pure (f, old)

/-- `map_insert_all`: the loop of `map_fast_insert`. -/
def mapInsertAll (f : Faster) (pairs : List (K × V)) : Result Faster :=
  pairs.foldlM (fun f (k, v) => f.mapFastInsert handle k v) f

/-- `map_remove`. -/
def mapRemove (key : K) : Result (Faster × Option V) := do
  let key ← handle.serializeIdMetakeysAndKey key
  let old ← readValue (← f.get key)
  let f := f.remove key
  let pre ← handle.serializeIdAndMetakeys
  let f ← f.vecRemove pre key
  pure (f, old)

/-- `map_fast_remove`. -/
def mapFastRemove (key : K) : Result Faster := do
  let key ← handle.serializeIdMetakeysAndKey key
  let f := f.remove key
  let pre ← handle.serializeIdAndMetakeys
  f.vecRemove pre key

/-- `map_contains`. -/
def mapContains (key : K) : Result Bool := do
  let key ← handle.serializeIdMetakeysAndKey key
  pure (← f.get key).isSome

/-- `get(&serialized_key)?.expect(..)` inside the iterators. -/
def getPresent (serializedKey : Bytes) : Result Bytes := do
  match ← f.get serializedKey with
  | some serialized => pure serialized
  | none => .error (.panic "Value not found. Modified during iteration!?")

variable (IK N K) in
/-- The key behind the id and the metakeys in the bytes an entry is stored under. -/
def readKey (serializedKey : Bytes) : Result K := do
  let (_, cursor) ← deserializeBytesFrom serializedKey
  State.readKey IK N cursor

/-- `map_iter`. -/
def mapIter : Result (List (Result (K × V))) := do
  let pre ← handle.serializeIdAndMetakeys
  let keys ← f.getVec pre
  pure <| (keys.getD []).map fun serializedKey => do
    let serializedValue ← f.getPresent serializedKey
    let key ← readKey K IK N serializedKey
    let value ← protobuf.deserialize serializedValue
    pure (key, value)

/-- `map_keys`. -/
def mapKeys : Result (List (Result K)) := do
  let pre ← handle.serializeIdAndMetakeys
  let keys ← f.getVec pre
  pure <| (keys.getD []).map (readKey K IK N)

/-- `map_values`. -/
def mapValues : Result (List (Result V)) := do
  let pre ← handle.serializeIdAndMetakeys
  let keys ← f.getVec pre
  pure <| (keys.getD []).map fun serializedKey => do
    let serializedValue ← f.getPresent serializedKey
    protobuf.deserialize serializedValue

/-- `map_len`. -/
def mapLen : Result Nat := do
  let pre ← handle.serializeIdAndMetakeys
  let keys ← f.getVec pre
  pure ((keys.map List.length).getD 0)

/-- `map_is_empty`. -/
def mapIsEmpty : Result Bool := do
  let pre ← handle.serializeIdAndMetakeys
  let keys ← f.getVec pre
  pure ((keys.map List.isEmpty).getD true)

end Faster

end Arcon.State
