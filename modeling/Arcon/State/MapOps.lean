import Arcon.State.Backends

/-!
# Map state (`sled/map_ops.rs`, `in_memory/map_ops.rs`)

All maps of one state share one store: the entry of a key is stored under the metakeys of the handle
followed by the key. What concerns a whole map works on the entries whose key starts with the
metakeys.

An iterator is given by its items; an item is the `Result` the Rust yields, and a panic while the
item is computed is an item too. `InMemory` cuts every key of the state at the length of the
metakeys, which panics for a shorter key.
-/

namespace Arcon.State

open FixedBytes

variable {K V IK N : Type} [Message K] [FixedBytes IK] [FixedBytes N]

/-- The value in the bytes a store has for a key. -/
def readValue [Message V] : Option Bytes → Result (Option V)
  | some serialized => do
    let value ← protobuf.deserialize serialized
    pure (some value)
  | none => pure none

theorem readValue_map [Message V] [LawfulMessage V] (v : Option V) :
    readValue (v.map protobuf.serialize) = .ok v := by
  cases v with
  | none => rfl
  | some v => simp [readValue]

/-! ## Sled -/

namespace Sled

variable [Message V] (db : Sled) (handle : Handle IK N)

/-- `map_clear`. -/
def mapClear : Result Sled := do
  let pre ← handle.serializeMetakeys
  pure (db.removePrefix handle.id pre)

/-- `map_get`. -/
def mapGet (key : K) : Result (Option V) := do
  let key ← handle.serializeMetakeysAndKey key
  readValue (db.get handle.id key)

/-- `map_fast_insert`. -/
def mapFastInsert (key : K) (value : V) : Result Sled := do
  let key ← handle.serializeMetakeysAndKey key
  pure (db.put handle.id key (protobuf.serialize value)).2

/-- `map_insert`. -/
def mapInsert (key : K) (value : V) : Result (Sled × Option V) := do
  let key ← handle.serializeMetakeysAndKey key
  let (old, db) := db.put handle.id key (protobuf.serialize value)
  let old ← readValue old
  pure (db, old)

/-- The batch of `map_insert_all`. -/
def insertBatch : List (K × V) → Result (List (Bytes × Bytes))
  | [] => .ok []
  | (userKey, value) :: pairs => do
    let key ← handle.serializeMetakeysAndKey userKey
    let batch ← insertBatch pairs
    pure ((key, protobuf.serialize value) :: batch)

/-- `map_insert_all`. -/
def mapInsertAll (pairs : List (K × V)) : Result Sled := do
  let batch ← insertBatch handle pairs
  let tree := db.tree handle.id
  let map := batch.foldl (fun m e => m.insert e.1 e.2) tree.map
  pure (db.setTree handle.id { tree with map := map })

/-- `map_remove`. -/
def mapRemove (key : K) : Result (Sled × Option V) := do
  let key ← handle.serializeMetakeysAndKey key
  let (old, db) := db.remove handle.id key
  let old ← readValue old
  pure (db, old)

/-- `map_fast_remove`. -/
def mapFastRemove (key : K) : Result Sled := do
  let key ← handle.serializeMetakeysAndKey key
  pure (db.remove handle.id key).2

/-- `map_contains`. -/
def mapContains (key : K) : Result Bool := do
  let key ← handle.serializeMetakeysAndKey key
  pure (db.contains handle.id key)

/-- `map_iter`. -/
def mapIter : Result (List (Result (K × V))) := do
  let pre ← handle.serializeMetakeys
  pure <| ((db.tree handle.id).scanPrefix pre).map fun (dbKey, serializedValue) => do
    let key ← readKey IK N dbKey
    let value ← protobuf.deserialize serializedValue
    pure (key, value)

/-- `map_keys`. -/
def mapKeys : Result (List (Result K)) := do
  let pre ← handle.serializeMetakeys
  pure <| ((db.tree handle.id).scanPrefix pre).map fun (dbKey, _) => readKey IK N dbKey

/-- `map_values`. -/
def mapValues : Result (List (Result V)) := do
  let pre ← handle.serializeMetakeys
  pure <| ((db.tree handle.id).scanPrefix pre).map fun (_, serializedValue) =>
    protobuf.deserialize serializedValue

/-- `map_len`. -/
def mapLen : Result Nat := do
  let pre ← handle.serializeMetakeys
  pure ((db.tree handle.id).scanPrefix pre).length

/-- `map_is_empty`. -/
def mapIsEmpty : Result Bool := do
  let pre ← handle.serializeMetakeys
  pure ((db.tree handle.id).scanPrefix pre).head?.isNone

end Sled

/-! ## In memory -/

namespace InMemory

/-- `&k[..pre.len()] == &pre[..]`. -/
def startsWith (pre k : Bytes) : Result Bool :=
  if k.length < pre.length then
    .error (.panic "range end index out of range for slice")
  else .ok (k.take pre.length == pre)

/-- `retain(|k, _| &k[..pre.len()] != &pre[..])`, over the entries in the order of the map. -/
def retain (pre : Bytes) (m : Std.HashMap Bytes V) : Result (Std.HashMap Bytes V) :=
  m.toList.foldlM (fun m (k, _) => do
    let drop ← startsWith pre k
    pure (if drop then m.erase k else m)) m

/-- `iter().filter_map(..)` with the test of the metakeys, and what is made of an entry. -/
def filterMap {α : Type} (pre : Bytes) (f : Bytes → V → Result α) (m : Std.HashMap Bytes V) :
    List (Result α) :=
  m.toList.filterMap fun (k, v) =>
    match startsWith pre k with
    | .error e => some (.error e)
    | .ok false => none
    | .ok true => some (f k v)

variable (db : InMemory V) (handle : Handle IK N)

/-- `map_clear`. -/
def mapClear : Result (InMemory V) := do
  let key ← handle.serializeMetakeys
  let m ← db.get handle.id
  let m ← retain key m
  pure (db.set handle.id m)

/-- `map_get`. -/
def mapGet (key : K) : Result (Option V) := do
  let key ← handle.serializeMetakeysAndKey key
  let m ← db.get handle.id
  pure m[key]?

/-- `map_insert`. -/
def mapInsert (key : K) (value : V) : Result (InMemory V × Option V) := do
  let key ← handle.serializeMetakeysAndKey key
  let m ← db.get handle.id
  pure (db.set handle.id (m.insert key value), m[key]?)

/-- `map_fast_insert`. -/
def mapFastInsert (key : K) (value : V) : Result (InMemory V) := do
  let key ← handle.serializeMetakeysAndKey key
  let m ← db.get handle.id
  pure (db.set handle.id (m.insert key value))

/-- `map_insert_all`. -/
def mapInsertAll (db : InMemory V) (pairs : List (K × V)) : Result (InMemory V) :=
  pairs.foldlM (fun db (k, v) => db.mapFastInsert handle k v) db

/-- `map_remove`. -/
def mapRemove (key : K) : Result (InMemory V × Option V) := do
  let key ← handle.serializeMetakeysAndKey key
  let m ← db.get handle.id
  pure (db.set handle.id (m.erase key), m[key]?)

/-- `map_fast_remove`. -/
def mapFastRemove (key : K) : Result (InMemory V) := do
  let key ← handle.serializeMetakeysAndKey key
  let m ← db.get handle.id
  pure (db.set handle.id (m.erase key))

/-- `map_contains`. -/
def mapContains (key : K) : Result Bool := do
  let key ← handle.serializeMetakeysAndKey key
  let m ← db.get handle.id
  pure (m.contains key)

/-- `map_iter`. -/
def mapIter : Result (List (Result (K × V))) := do
  let pre ← handle.serializeMetakeys
  let m ← db.get handle.id
  pure <| filterMap pre (fun k v => do
    let key ← readKey IK N k
    pure (key, v)) m

/-- `map_keys`. -/
def mapKeys : Result (List (Result K)) := do
  let pre ← handle.serializeMetakeys
  let m ← db.get handle.id
  pure (filterMap pre (fun k _ => readKey IK N k) m)

/-- `map_values`. -/
def mapValues : Result (List (Result V)) := do
  let pre ← handle.serializeMetakeys
  let m ← db.get handle.id
  pure (filterMap pre (fun _ v => .ok v) m)

/-- The loop of `filter(..).count()`. -/
def countPrefix (pre : Bytes) : List Bytes → Result Nat
  | [] => .ok 0
  | k :: ks => do
    let hit ← startsWith pre k
    let n ← countPrefix pre ks
    pure (if hit then n + 1 else n)

/-- The loop of `filter(..).next().is_none()`. -/
def nonePrefix (pre : Bytes) : List Bytes → Result Bool
  | [] => .ok true
  | k :: ks => do
    let hit ← startsWith pre k
    if hit then pure false else nonePrefix pre ks

/-- `map_len`. -/
def mapLen : Result Nat := do
  let pre ← handle.serializeMetakeys
  let m ← db.get handle.id
  countPrefix pre (m.toList.map Prod.fst)

/-- `map_is_empty`. -/
def mapIsEmpty : Result Bool := do
  let pre ← handle.serializeMetakeys
  let m ← db.get handle.id
  nonePrefix pre (m.toList.map Prod.fst)

end InMemory

end Arcon.State
