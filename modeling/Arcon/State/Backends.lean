import Arcon.State.Handle
import Arcon.Lib.Merge
import Std.Data.HashMap.Lemmas
import Std.Data.TreeMap.Lemmas

/-!
# The stores under the backends

What the backends do with bytes, before any state type comes in (`arcon_state/src/rocks/mod.rs`,
`sled/mod.rs`, `in_memory/mod.rs`). The databases themselves are not part of the repository.

* RocksDB: a column family for every state, in it every key with its last value and the merge
  operands pending behind it. The database merges operands on its own, in flushes and compactions;
  `partialMerge` and `fullMerge` are what it can do to a key then. The binding passes the
  associative operator of a column family to the database for both, for a partial merge without a
  value. A `Rocks` is modelled from its initialization on.
* sled: a tree for every state, an ordered map of byte strings. `merge` applies the operator of the
  tree at once; where it returns `None` the key goes away.
* `InMemory`: a hash map for every state. The values are boxed as `dyn Any` and downcast when read;
  all values of one state have one type, here the parameter `S`.

Out of scope: errors of the databases themselves. They do what they document, and no call fails for
a reason outside this program, such as a full disk or a damaged file.
-/

namespace Arcon.State

open Merging

/-! ## RocksDB -/

/-- An associative merge operator as RocksDB calls it. -/
abbrev RocksMerge := Bytes → Option Bytes → List Bytes → Result (Option Bytes)

/-- A column family. -/
structure ColumnFamily where
  mergeOperator : Option RocksMerge
  data : Bytes → Pending Bytes

namespace ColumnFamily

variable (cf : ColumnFamily)

/-- A merge of the operands of `key`; RocksDB reports an operator that returns `None`. -/
def merge (key : Bytes) (base : Option Bytes) (operands : List Bytes) : Result Bytes :=
  match cf.mergeOperator with
  | none => .error (.err (.rocksError "merge_operator is not properly initialized"))
  | some op => do
    match ← op key base operands with
    | some r => pure r
    | none => .error (.err (.rocksError "Could not perform merge"))

/-- The column family with another entry at `key`. -/
def set (key : Bytes) (p : Pending Bytes) : ColumnFamily :=
  { cf with data := fun k => if k = key then p else cf.data k }

end ColumnFamily

/-- An initialized `Rocks`. -/
structure Rocks where
  cfs : String → Option ColumnFamily

namespace Rocks

variable (db : Rocks)

/-- A new database; its `default` column family is used by no handle. -/
def create : Rocks := ⟨fun _ => none⟩

/-- `get_cf_handle`. -/
def getCfHandle (cfName : String) : Result ColumnFamily :=
  match db.cfs cfName with
  | some cf => .ok cf
  | none => .error (.err (.rocksMissingColumnFamily cfName))

/-- The database with other contents of a column family. -/
def setCf (cfName : String) (cf : ColumnFamily) : Rocks :=
  ⟨fun name => if name = cfName then some cf else db.cfs name⟩

/-- `create_column_family_if_doesnt_exist`. -/
def createColumnFamilyIfDoesntExist (cfName : String) (op : Option RocksMerge) : Rocks :=
  match db.cfs cfName with
  | some _ => db
  | none => db.setCf cfName ⟨op, fun _ => .absent⟩

/-- `get`. -/
def get (cfName : String) (key : Bytes) : Result (Option Bytes) := do
  let cf ← db.getCfHandle cfName
  (cf.data key).value (cf.merge key)

/-- `put`. -/
def put (cfName : String) (key value : Bytes) : Result Rocks := do
  let cf ← db.getCfHandle cfName
  pure (db.setCf cfName (cf.set key (.put value)))

/-- `remove`. -/
def remove (cfName : String) (key : Bytes) : Result Rocks := do
  let cf ← db.getCfHandle cfName
  pure (db.setCf cfName (cf.set key .absent))

/-- `merge_cf_opt`. -/
def mergeCf (cfName : String) (key operand : Bytes) : Result Rocks := do
  let cf ← db.getCfHandle cfName
  pure (db.setCf cfName (cf.set key ((cf.data key).push operand)))

/-- The database treats the entry of `key` anew. -/
def rework (cfName : String) (key : Bytes)
    (treat : ColumnFamily → Pending Bytes → Result (Pending Bytes)) : Result Rocks :=
  match db.cfs cfName with
  | some cf => do
    let p ← treat cf (cf.data key)
    pure (db.setCf cfName (cf.set key p))
  | none => .ok db

/-- The database merges the `n` operands of `key` from the `i`-th on. -/
def tryPartialMerge (cfName : String) (key : Bytes) (i n : Nat) : Result Rocks :=
  db.rework cfName key fun cf p => p.combine (cf.merge key) i n

/-- The database merges the value of `key` with its first `n` operands. -/
def tryFullMerge (cfName : String) (key : Bytes) (n : Nat) : Result Rocks :=
  db.rework cfName key fun cf p => p.settle (cf.merge key) n

/-- As `tryPartialMerge`; where the operator gives nothing, the operands stay as they are. -/
def partialMerge (cfName : String) (key : Bytes) (i n : Nat) : Rocks :=
  (db.tryPartialMerge cfName key i n).toOption.getD db

/-- As `tryFullMerge`; where the operator gives nothing, the entry stays as it is. -/
def fullMerge (cfName : String) (key : Bytes) (n : Nat) : Rocks :=
  (db.tryFullMerge cfName key n).toOption.getD db

variable {db}

section store

variable {id : String} {cf : ColumnFamily} (hcf : db.cfs id = some cf) (key bytes : Bytes)
include hcf

theorem getCfHandle_eq : db.getCfHandle id = .ok cf := by
  unfold getCfHandle
  rw [hcf]

theorem get_eq : db.get id key = (cf.data key).value (cf.merge key) := by
  unfold get
  rw [getCfHandle_eq hcf]
  rfl

theorem put_eq : db.put id key bytes = .ok (db.setCf id (cf.set key (.put bytes))) := by
  unfold put
  rw [getCfHandle_eq hcf]
  rfl

theorem remove_eq : db.remove id key = .ok (db.setCf id (cf.set key .absent)) := by
  unfold remove
  rw [getCfHandle_eq hcf]
  rfl

theorem mergeCf_eq :
    db.mergeCf id key bytes = .ok (db.setCf id (cf.set key ((cf.data key).push bytes))) := by
  unfold mergeCf
  rw [getCfHandle_eq hcf]
  rfl

theorem rework_eq (treat : ColumnFamily → Pending Bytes → Result (Pending Bytes)) :
    db.rework id key treat = (do
      let p ← treat cf (cf.data key)
      pure (db.setCf id (cf.set key p))) := by
  unfold rework
  rw [hcf]

end store

theorem createColumnFamilyIfDoesntExist_cfs (db : Rocks) (i id : String) (op : Option RocksMerge) :
    (db.createColumnFamilyIfDoesntExist i op).cfs id =
      if id = i then some ((db.cfs i).getD ⟨op, fun _ => .absent⟩) else db.cfs id := by
  unfold createColumnFamilyIfDoesntExist
  cases hi : db.cfs i with
  | some cf =>
    by_cases h : id = i
    · simp [h, hi]
    · simp [h]
  | none => rfl

end Rocks

/-! ## sled -/

/-- A merge operator as sled calls it. -/
abbrev SledMerge := Bytes → Option Bytes → Bytes → Result (Option Bytes)

/-- A `sled::Tree`. -/
structure Tree where
  mergeOperator : Option SledMerge
  map : Std.TreeMap Bytes Bytes

namespace Tree

variable (tree : Tree)

/-- `merge`. -/
def merge (key value : Bytes) : Result Tree :=
  match tree.mergeOperator with
  | none => .error (.err (.sledError "must set a merge operator on this Tree"))
  | some op => do
    match ← op key tree.map[key]? value with
    | some r => pure { tree with map := tree.map.insert key r }
    | none => pure { tree with map := tree.map.erase key }

/-- The operator gives a value. -/
theorem merge_eq {tree : Tree} {op : SledMerge} (hop : tree.mergeOperator = some op)
    {key value b : Bytes} (hb : op key tree.map[key]? value = .ok (some b)) :
    tree.merge key value = .ok { tree with map := tree.map.insert key b } := by
  unfold merge
  rw [hop]
  simp only [hb, ok_bind, pure_eq_ok]

theorem insert_of_ne {m : Std.TreeMap Bytes Bytes} {key k : Bytes} (h : k ≠ key) (value : Bytes) :
    (m.insert key value)[k]? = m[k]? := by
  rw [Std.TreeMap.getElem?_insert, if_neg]
  rw [Std.compare_eq_iff_eq]
  exact fun heq => h heq.symm

theorem erase_of_ne {m : Std.TreeMap Bytes Bytes} {key k : Bytes} (h : k ≠ key) :
    (m.erase key)[k]? = m[k]? := by
  rw [Std.TreeMap.getElem?_erase, if_neg]
  rw [Std.compare_eq_iff_eq]
  exact fun heq => h heq.symm

/-- `scan_prefix`: the entries whose key starts with `pre`, in the order of their keys. -/
def scanPrefix (pre : Bytes) : List (Bytes × Bytes) :=
  tree.map.toList.filter fun e => pre.isPrefixOf e.1

end Tree

/-- `Sled`; `open_tree` makes a tree that does not exist yet. -/
structure Sled where
  trees : String → Tree

namespace Sled

variable (db : Sled)

/-- A new database. -/
def create : Sled := ⟨fun _ => ⟨none, ∅⟩⟩

/-- `tree`. -/
def tree (treeName : String) : Tree := db.trees treeName

/-- The database with other contents of a tree. -/
def setTree (treeName : String) (tree : Tree) : Sled :=
  ⟨fun name => if name = treeName then tree else db.trees name⟩

/-- `get`. -/
def get (treeName : String) (key : Bytes) : Option Bytes := (db.tree treeName).map[key]?

/-- `put`: also the value before. -/
def put (treeName : String) (key value : Bytes) : Option Bytes × Sled :=
  let tree := db.tree treeName
  (tree.map[key]?, db.setTree treeName { tree with map := tree.map.insert key value })

/-- `remove`: also the value before. -/
def remove (treeName : String) (key : Bytes) : Option Bytes × Sled :=
  let tree := db.tree treeName
  (tree.map[key]?, db.setTree treeName { tree with map := tree.map.erase key })

/-- `remove_prefix`: a batch of removals. -/
def removePrefix (treeName : String) (pre : Bytes) : Sled :=
  let tree := db.tree treeName
  let batch := (tree.scanPrefix pre).map Prod.fst
  db.setTree treeName { tree with map := batch.foldl (fun m key => m.erase key) tree.map }

/-- `contains`. -/
def contains (treeName : String) (key : Bytes) : Bool := (db.tree treeName).map.contains key

end Sled

/-! ## In memory -/

/-- `InMemory`, for states with stored values of type `S`. -/
structure InMemory (S : Type) where
  data : String → Option (Std.HashMap Bytes S)

namespace InMemory

variable {S : Type} (db : InMemory S)

/-- A new backend. -/
def create : InMemory S := ⟨fun _ => none⟩

/-- `get`, and `get_mut` before the update. -/
def get (id : String) : Result (Std.HashMap Bytes S) :=
  match db.data id with
  | some m => .ok m
  | none => .error (.panic "called `Option::unwrap()` on a `None` value")

/-- The backend with other contents of a state. -/
def set (id : String) (m : Std.HashMap Bytes S) : InMemory S :=
  ⟨fun id' => if id' = id then some m else db.data id'⟩

/-- `register_vec_handle` and its siblings: `entry(id).or_default()`. -/
def register (id : String) : InMemory S :=
  match db.data id with
  | some _ => db
  | none => db.set id ∅

end InMemory

/-! ## Registration and runs -/

/-- Registering every state of a list, each with `v` unless it is there already. -/
theorem foldl_getOrInsert {σ α : Type} {look : σ → String → Option α} {register : σ → String → σ}
    {v : α} (hreg : ∀ s i j, look (register s i) j =
      if j = i then some ((look s i).getD v) else look s j)
    {ids : List String} {id : String} (hid : id ∈ ids) {s : σ}
    (hs : look s id = none ∨ look s id = some v) : look (ids.foldl register s) id = some v := by
  have hkeep : ∀ (ids : List String) (s : σ), look s id = some v →
      look (ids.foldl register s) id = some v := by
    intro ids
    induction ids with
    | nil => exact fun s hs => hs
    | cons i ids ih =>
      intro s hs
      refine ih _ ?_
      rw [hreg]
      split_ifs with h
      · rw [← h, hs]
        rfl
      · exact hs
  induction ids generalizing s with
  | nil => cases hid
  | cons i ids ih =>
    rw [List.foldl_cons]
    by_cases h : id = i
    · refine hkeep ids _ ?_
      rw [hreg, if_pos h, ← h]
      obtain hs | hs := hs <;> rw [hs] <;> rfl
    · refine ih ((List.mem_cons.mp hid).resolve_left h) ?_
      rw [hreg, if_neg h]
      exact hs

namespace InMemory

/-- A backend with the handles of the states `ids` registered. -/
def registered (S : Type) (ids : List String) : InMemory S := ids.foldl register create

theorem register_data {S : Type} (db : InMemory S) (i id : String) :
    (db.register i).data id = if id = i then some ((db.data i).getD ∅) else db.data id := by
  unfold register
  cases hi : db.data i with
  | some m =>
    by_cases h : id = i
    · simp [h, hi]
    · simp [h]
  | none => rfl

theorem registered_data (S : Type) {ids : List String} {id : String} (hid : id ∈ ids) :
    (registered S ids).data id = some ∅ :=
  foldl_getOrInsert register_data hid (.inl rfl)

theorem get_eq {S : Type} {db : InMemory S} {id : String} {m : Std.HashMap Bytes S}
    (h : db.data id = some m) : db.get id = .ok m := by
  unfold get
  rw [h]

end InMemory

/-- A run of `f` keeps step with its reference `g` in `I` as long as every step that is good (`G`)
does. -/
theorem foldlM_follows {σ ρ ξ : Type} {f : σ → ξ → Result σ} {g : ρ → ξ → ρ}
    {I : σ → ρ → Prop} {G : ρ → ξ → Prop}
    (hstep : ∀ s r e, I s r → G r e → ∃ s', f s e = .ok s' ∧ I s' (g r e))
    (es : List ξ) {s : σ} {r : ρ} (hs : I s r)
    (hgood : ∀ done e rest, es = done ++ e :: rest → G (done.foldl g r) e) :
    ∃ s', es.foldlM f s = .ok s' ∧ I s' (es.foldl g r) := by
  induction es generalizing s r with
  | nil => exact ⟨s, rfl, hs⟩
  | cons e es ih =>
    obtain ⟨s₁, hs₁, hinv⟩ := hstep s r e hs (hgood [] e es rfl)
    obtain ⟨s', hs', hinv'⟩ := ih hinv fun done e' rest heq =>
      hgood (e :: done) e' rest (by rw [heq]; rfl)
    refine ⟨s', ?_, hinv'⟩
    rw [List.foldlM_cons, hs₁, ok_bind]
    exact hs'

end Arcon.State
