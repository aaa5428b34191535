import Arcon.State.RocksPrefix

/-!
# Map state on Rocks (`rocks/map_ops.rs`)

The maps of a state are the entries of its column family, and nothing in it is ever merged. So a
column family stands for an ordered map of byte strings (`stored`), and the operations do on it what
those of `Sled` do on a tree. Two things differ. `map_clear` is a range deletion, which does not
return for metakeys that end in `0xFF`, and drops and re-creates the column family for a handle
without metakeys. And the iterators go through `prefix_iterator_cf` of the database, which is not
part of the repository (`PrefixIterator`).

* `InitializedRocksDb.HoldsMaps`: the column family of every state is the family of its maps.
* **`map_refines_rocks`**: after every sequence of operations all reads agree with the reference,
  unless one of the operations was a `map_clear` that overflows.
-/

namespace Arcon.State

open FixedBytes Listing Merging

/-- The contents of a column family with these entries. -/
def stored (m : Std.TreeMap Bytes Bytes) (key : Bytes) : Pending Bytes :=
  m[key]?.elim .absent .put

/-- `prefix_iterator_cf`, with the prefix extractor that `common_options` sets, which takes `n`
bytes: the entries that start with the prefix, in the order of their keys. For a prefix of another
length the database does not promise that. -/
structure PrefixIterator (n : Nat) where
  items : (Bytes → Pending Bytes) → Bytes → List (Bytes × Bytes)
  items_stored : ∀ m pre, pre.length = n →
    items (stored m) pre = m.toList.filter fun e => pre.isPrefixOf e.1

theorem getElem?_of_stored {m m' : Std.TreeMap Bytes Bytes} (h : stored m = stored m') (k : Bytes) :
    m[k]? = m'[k]? := by
  have hbase : ∀ m : Std.TreeMap Bytes Bytes, (stored m k).base = m[k]? := by
    intro m
    unfold stored
    cases m[k]? <;> rfl
  rw [← hbase m, h, hbase]

/-- There is such an iterator. -/
noncomputable def PrefixIterator.ofStored (n : Nat) : PrefixIterator n where
  items data pre := open Classical in
    if h : ∃ m, stored m = data then h.choose.toList.filter fun e => pre.isPrefixOf e.1 else []
  items_stored m pre _ := by
    have h : ∃ m', stored m' = stored m := ⟨m, rfl⟩
    have hequiv : h.choose.Equiv m :=
      Std.TreeMap.Equiv.of_forall_constGet?_eq (getElem?_of_stored h.choose_spec)
    rw [dif_pos h, hequiv.toList_eq]

theorem stored_insert (m : Std.TreeMap Bytes Bytes) (key value : Bytes) :
    (fun k => if k = key then .put value else stored m k) = stored (m.insert key value) := by
  funext k
  unfold stored
  rw [Sled.getElem?_insert_ite]
  split_ifs <;> rfl

theorem stored_erase (m : Std.TreeMap Bytes Bytes) (key : Bytes) :
    (fun k => if k = key then .absent else stored m k) = stored (m.erase key) := by
  funext k
  unfold stored
  rw [Sled.getElem?_erase_ite]
  split_ifs <;> rfl

theorem stored_empty : (fun _ => .absent) = stored ∅ := by
  funext k
  unfold stored
  rw [Std.TreeMap.getElem?_emptyc]
  rfl

/-- The entries that do not start with the prefix. -/
theorem exists_stored_without (m : Std.TreeMap Bytes Bytes) (pre : Bytes) :
    ∃ m' : Std.TreeMap Bytes Bytes, (∀ b, m'[b]? = if pre <+: b then none else m[b]?) ∧
      (fun k => if pre <+: k then .absent else stored m k) = stored m' := by
  let db := Sled.create.setTree "" ⟨none, m⟩
  have hlook := Sled.getElem?_removePrefix db "" pre
  refine ⟨_, hlook, ?_⟩
  funext k
  unfold stored
  rw [hlook]
  split_ifs <;> rfl

namespace InitializedRocksDb

variable {K V IK N : Type} [Message K] [Message V] [FixedBytes IK] [FixedBytes N]

section ops

variable (i : InitializedRocksDb) (it : PrefixIterator (size IK + size N)) (handle : Handle IK N)

/-- `map_fast_insert`. -/
def mapFastInsert (key : K) (value : V) : Result InitializedRocksDb := do
  let key ← handle.serializeMetakeysAndKey key
  i.put handle.id key (protobuf.serialize value)

/-- `map_insert`: there is no `put` that returns the previous value. -/
def mapInsert (key : K) (value : V) : Result (InitializedRocksDb × Option V) := do
  let key ← handle.serializeMetakeysAndKey key
  let old ← readValue (← i.get handle.id key)
  let i ← i.put handle.id key (protobuf.serialize value)
  pure (i, old)

/-- `map_insert_all`: the batch is filled like the one of `Sled`. -/
def mapInsertAll (pairs : List (K × V)) : Result InitializedRocksDb := do
  let cf ← i.db.getCfHandle handle.id
  let wb ← Sled.insertBatch handle pairs
  let cf := wb.foldl (fun cf e => cf.set e.1 (.put e.2)) cf
  pure { i with db := i.db.setCf handle.id cf }

/-- `map_remove`. -/
def mapRemove (key : K) : Result (InitializedRocksDb × Option V) := do
  let key ← handle.serializeMetakeysAndKey key
  let old ← readValue (← i.get handle.id key)
  let i ← i.remove handle.id key
  pure (i, old)

/-- `map_fast_remove`. -/
def mapFastRemove (key : K) : Result InitializedRocksDb := do
  let key ← handle.serializeMetakeysAndKey key
  i.remove handle.id key

/-- `map_contains`. -/
def mapContains (key : K) : Result Bool := do
  let key ← handle.serializeMetakeysAndKey key
  i.contains handle.id key

/-- The entries that `map_iter` and its siblings go through. -/
def prefixIteratorCf : Result (List (Bytes × Bytes)) := do
  let pre ← handle.serializeMetakeys
  let cf ← i.db.getCfHandle handle.id
  pure (it.items cf.data pre)

/-- `map_iter`. -/
def mapIter : Result (List (Result (K × V))) := do
  let items ← i.prefixIteratorCf it handle
  pure <| items.map fun (dbKey, serializedValue) => do
    let key ← readKey IK N dbKey
    let value ← protobuf.deserialize serializedValue
    pure (key, value)

/-- `map_keys`. -/
def mapKeys : Result (List (Result K)) := do
  let items ← i.prefixIteratorCf it handle
  pure <| items.map fun (dbKey, _) => readKey IK N dbKey

/-- `map_values`. -/
def mapValues : Result (List (Result V)) := do
  let items ← i.prefixIteratorCf it handle
  pure <| items.map fun (_, serializedValue) => protobuf.deserialize serializedValue

/-- `map_len`. -/
def mapLen : Result Nat := do
  let items ← i.prefixIteratorCf it handle
  pure items.length

/-- `map_is_empty`. -/
def mapIsEmpty : Result Bool := do
  let items ← i.prefixIteratorCf it handle
  pure items.head?.isNone

end ops

/-- The operation on Rocks. -/
def execMap (i : InitializedRocksDb) :
    MapOp K V IK N → Result (InitializedRocksDb × Option (Option V))
  | .insert h k v => do
    let (i, old) ← i.mapInsert h k v
    pure (i, some old)
  | .fastInsert h k v => do
    let i ← i.mapFastInsert h k v
    pure (i, none)
  | .insertAll h pairs => do
    let i ← i.mapInsertAll h pairs
    pure (i, none)
  | .remove h k => do
    let (i, old) ← i.mapRemove h k
    pure (i, some old)
  | .fastRemove h k => do
    let i ← i.mapFastRemove h k
    pure (i, none)
  | .clear h => do
    let i ← i.mapClear h
    pure (i, none)

/-- One operation of a run, whatever it returns. -/
def stepMap (i : InitializedRocksDb) (o : MapOp K V IK N) : Result InitializedRocksDb := do
  let (i, _) ← i.execMap o
  pure i

/-- What the reads of a handle show. -/
def Shows [DecidableEq K] (i : InitializedRocksDb) (it : PrefixIterator (size IK + size N))
    (h : Handle IK N) (m : FinMap K V) : Prop :=
  ShowsMap (i.mapGet h) (i.mapContains h) (i.mapLen it h) (i.mapIsEmpty it h) (i.mapKeys it h)
    (i.mapValues it h) (i.mapIter it h) m

/-! ## The store of the maps -/

/-- The database of a new backend. -/
def fresh : InitializedRocksDb :=
  ⟨⟨fun name => if name = "default" then some ⟨none, fun _ => .absent⟩ else none⟩,
    [("default", Options.default)]⟩

/-- `register_map_handle` for the states of `ids`. -/
def registerMaps (ids : List String) (metakeySize : Nat) (i : InitializedRocksDb) :
    Result InitializedRocksDb :=
  ids.foldlM (fun i id =>
    i.createColumnFamilyIfDoesntExist id (Register.map id metakeySize).options) i

theorem set_put (m : Std.TreeMap Bytes Bytes) (key value : Bytes) :
    (⟨none, stored m⟩ : ColumnFamily).set key (.put value) =
      ⟨none, stored (m.insert key value)⟩ := by
  unfold ColumnFamily.set
  rw [stored_insert]

theorem set_absent (m : Std.TreeMap Bytes Bytes) (key : Bytes) :
    (⟨none, stored m⟩ : ColumnFamily).set key .absent = ⟨none, stored (m.erase key)⟩ := by
  unfold ColumnFamily.set
  rw [stored_erase]

theorem foldl_set {α : Type} (key value : α → Bytes) (es : List α) (m : Std.TreeMap Bytes Bytes) :
    es.foldl (fun cf e => cf.set (key e) (.put (value e))) (⟨none, stored m⟩ : ColumnFamily) =
      ⟨none, stored (es.foldl (fun m e => m.insert (key e) (value e)) m)⟩ := by
  induction es generalizing m with
  | nil => rfl
  | cons e es ih => rw [List.foldl_cons, set_put, ih, List.foldl_cons]

/-- What is read of an entry. -/
theorem get_stored {i : InitializedRocksDb} {id : String} {m : Std.TreeMap Bytes Bytes}
    (hcf : i.db.cfs id = some ⟨none, stored m⟩) (key : Bytes) : i.get id key = .ok m[key]? := by
  rw [get_eq hcf]
  show (stored m key).value _ = _
  unfold stored
  cases m[key]? <;> rfl

variable [DecidableEq K]

/-- The column family of every state is the family of its maps, and its options are known. -/
def HoldsMaps (ids : List String) (i : InitializedRocksDb) (maps : Handle IK N → FinMap K V) :
    Prop :=
  ∀ id ∈ ids, ∃ m : Std.TreeMap Bytes Bytes, i.db.cfs id = some ⟨none, stored m⟩ ∧
    (∃ opts, i.options.lookup id = some opts ∧ opts.mergeOperator = none) ∧
    Family protobuf.serialize id (fun b => m[b]?) maps

variable {ids : List String} {i : InitializedRocksDb} {maps : Handle IK N → FinMap K V}

/-- An empty column family with its options. -/
def Empty (i : InitializedRocksDb) (id : String) : Prop :=
  i.db.cfs id = some ⟨none, stored ∅⟩ ∧
    ∃ opts, i.options.lookup id = some opts ∧ opts.mergeOperator = none

theorem Empty.congr {j : InitializedRocksDb} {id : String} (hi : i.Empty id)
    (hcfs : j.db.cfs id = i.db.cfs id) (hopts : j.options.lookup id = i.options.lookup id) :
    j.Empty id := by
  unfold Empty
  rw [hcfs, hopts]
  exact hi

/-- One registration. -/
theorem create_empty {id : String} (metakeySize : Nat) (hid : i.db.cfs id = none ∨ i.Empty id) :
    ∃ j, i.createColumnFamilyIfDoesntExist id (Register.map id metakeySize).options = .ok j ∧
      j.Empty id ∧ ∀ id', id' ≠ id →
        j.db.cfs id' = i.db.cfs id' ∧ j.options.lookup id' = i.options.lookup id' := by
  obtain hnone | hempty := hid
  · let opts := (Register.map id metakeySize).options
    refine ⟨⟨i.db.setCf id ⟨none, fun _ => .absent⟩, (id, opts) :: i.options⟩, ?_,
      ⟨?_, opts, by simp, rfl⟩, fun id' hne => ⟨?_, ?_⟩⟩
    · unfold createColumnFamilyIfDoesntExist Rocks.createCf
      rw [hnone]
      rfl
    · rw [← stored_empty]
      simp [Rocks.setCf]
    · simp [Rocks.setCf, hne]
    · rw [List.lookup_cons, beq_false_of_ne hne]
  · refine ⟨i, ?_, hempty, fun id' _ => ⟨rfl, rfl⟩⟩
    unfold createColumnFamilyIfDoesntExist
    rw [hempty.1]

/-- Registering leaves the column families of the states empty. -/
theorem registerMaps_empty (ids : List String) (metakeySize : Nat)
    (hi : ∀ id ∈ ids, i.db.cfs id = none ∨ i.Empty id) :
    ∃ j, registerMaps ids metakeySize i = .ok j ∧ (∀ id ∈ ids, j.Empty id) ∧
      ∀ id, i.Empty id → j.Empty id := by
  induction ids generalizing i with
  | nil => exact ⟨i, rfl, fun id hid => absurd hid List.not_mem_nil, fun _ h => h⟩
  | cons id ids ih =>
    obtain ⟨i', hi', hempty, hother⟩ := create_empty metakeySize (hi id (by simp))
    have hkeep : ∀ id', i.Empty id' → i'.Empty id' := by
      intro id' hid'
      by_cases heq : id' = id
      · exact heq ▸ hempty
      · exact hid'.congr (hother id' heq).1 (hother id' heq).2
    obtain ⟨j, hj, hall, hold⟩ := ih (i := i') fun id' hid' => by
      by_cases heq : id' = id
      · exact .inr (heq ▸ hempty)
      · rw [(hother id' heq).1]
        exact (hi id' (by simp [hid'])).imp_right (hkeep id')
    refine ⟨j, ?_, fun id' hid' => ?_, fun id' hid' => hold id' (hkeep id' hid')⟩
    · unfold registerMaps
      rw [List.foldlM_cons, hi', ok_bind]
      exact hj
    · obtain rfl | hid' := List.mem_cons.mp hid'
      · exact hold _ hempty
      · exact hall id' hid'

theorem holdsMaps_registered (hdefault : "default" ∉ ids) (metakeySize : Nat) :
    ∃ i, registerMaps ids metakeySize fresh = .ok i ∧
      HoldsMaps ids i (fun _ : Handle IK N => (∅ : FinMap K V)) := by
  obtain ⟨i, hi, hempty, -⟩ := registerMaps_empty (i := fresh) ids metakeySize fun id hid =>
    .inl (if_neg (ne_of_mem_of_not_mem hid hdefault))
  refine ⟨i, hi, fun id hid => ⟨∅, (hempty id hid).1, (hempty id hid).2, ?_, ?_⟩⟩
  · intro h _ k
    rw [Std.TreeMap.getElem?_emptyc, Finmap.lookup_empty]
    rfl
  · intro b hb
    rw [Std.TreeMap.getElem?_emptyc] at hb
    cases hb

/-! ## Operations -/

/-- The clearings that overflow. -/
def Overflows : MapOp K V IK N → Prop
  | .clear h => h.metakeys.getLast? = some 255
  | _ => False

instance : DecidablePred (Overflows : MapOp K V IK N → Prop)
  | .clear h => inferInstanceAs (Decidable (h.metakeys.getLast? = some 255))
  | .insert .. | .fastInsert .. | .insertAll .. | .remove .. | .fastRemove .. =>
    inferInstanceAs (Decidable False)

theorem prefixEnd_overflows {pre : Bytes} (hlast : pre.getLast? = some 255) :
    prefixEnd pre = .error (.panic "attempt to add with overflow") := by
  fun_induction prefixEnd pre with
  | case1 => cases hlast
  | case2 => rfl
  | case3 b hb => exact absurd (by simpa using hlast) hb
  | case4 b rest hrest ih =>
    rw [List.getLast?_cons_of_ne_nil fun h => hrest h] at hlast
    rw [ih hlast]
    rfl

/-- A clearing that overflows does not return. -/
theorem execMap_overflows [LawfulFixedBytes IK] [LawfulFixedBytes N] (hi : HoldsMaps ids i maps)
    {o : MapOp K V IK N} (hid : o.handle.id ∈ ids) (ho : Overflows o) :
    i.execMap o = .error (.panic "attempt to add with overflow") := by
  cases o with
  | clear h =>
    obtain ⟨m, hm, -, -⟩ := hi h.id hid
    have hlast : h.metakeys.getLast? = some 255 := ho
    have hne : h.metakeys ≠ [] := by
      rintro heq
      rw [heq] at hlast
      cases hlast
    simp only [execMap, mapClear, Handle.serializeMetakeys_eq, ok_bind, removePrefix, if_neg hne,
      Rocks.getCfHandle_eq hm, prefixEnd_overflows hlast]
    rfl
  | insert | fastInsert | insertAll | remove | fastRemove => cases ho

section update

variable [DecidableEq IK] [DecidableEq N] {h : Handle IK N} {m m' : Std.TreeMap Bytes Bytes}

/-- The column family of one state changes. -/
theorem holdsMaps_cf (hi : HoldsMaps ids i maps) {j : InitializedRocksDb} {fm : FinMap K V}
    (hopts : j.options = i.options) (hcf : j.db.cfs h.id = some ⟨none, stored m'⟩)
    (hsame : ∀ id, id ≠ h.id → j.db.cfs id = i.db.cfs id)
    (hf : Family protobuf.serialize h.id (fun b => m'[b]?) (Function.update maps h fm)) :
    HoldsMaps ids j (Function.update maps h fm) := by
  intro id hid
  obtain ⟨m, hm, hopt, hfam⟩ := hi id hid
  by_cases heq : id = h.id
  · subst heq
    exact ⟨m', hcf, by rwa [hopts], hf⟩
  · exact ⟨m, by rw [hsame id heq, hm], by rwa [hopts], hfam.other (fun h' => heq h'.symm) fm⟩

theorem holdsMaps_setCf (hi : HoldsMaps ids i maps) {cf : ColumnFamily} {fm : FinMap K V}
    (hcf : cf = ⟨none, stored m'⟩)
    (hf : Family protobuf.serialize h.id (fun b => m'[b]?) (Function.update maps h fm)) :
    HoldsMaps ids { i with db := i.db.setCf h.id cf } (Function.update maps h fm) := by
  refine holdsMaps_cf hi rfl ?_ (fun id hid => ?_) hf
  · simp [Rocks.setCf, hcf]
  · simp [Rocks.setCf, hid]

variable [LawfulFixedBytes IK] [LawfulFixedBytes N]

/-- `map_clear` takes out the map of the handle. -/
theorem holdsMaps_clear (hdefault : "default" ∉ ids) (hi : HoldsMaps ids i maps) (hid : h.id ∈ ids)
    (hlast : h.metakeys.getLast? ≠ some 255) :
    ∃ j, i.execMap (.clear h : MapOp K V IK N) = .ok (j, none) ∧
      HoldsMaps ids j (Function.update maps h ∅) := by
  obtain ⟨m, hm, ⟨opts, hopts, hmerge⟩, hf⟩ := hi h.id hid
  obtain ⟨m', hlook, hm'⟩ := exists_stored_without m h.metakeys
  have hclear := hf.clear rfl hlook
  by_cases hempty : h.metakeys = []
  · -- nothing is left of the column family, and no other map was in it
    have hname : h.id ≠ "default" := fun heq => hdefault (heq ▸ hid)
    obtain ⟨j, hj, hcfs⟩ := removePrefix_empty hm hname hopts
    refine ⟨j, ?_, holdsMaps_cf hi (removePrefix_options hj) ?_ (fun id hne => ?_)
      hclear⟩
    · simp only [execMap, mapClear, Handle.serializeMetakeys_eq, ok_bind, hempty, hj, pure_eq_ok]
    · rw [hcfs, if_pos rfl, hmerge, ← hm', hempty]
      simp
    · rw [hcfs, if_neg hne]
  · have hcf : withoutPrefix ⟨none, stored m⟩ h.metakeys = ⟨none, stored m'⟩ := by
      unfold withoutPrefix
      rw [← hm']
    refine ⟨_, ?_, holdsMaps_setCf hi hcf hclear⟩
    simp only [execMap, mapClear, Handle.serializeMetakeys_eq, ok_bind,
      removePrefix_eq hm hempty hlast, pure_eq_ok]

variable [LawfulMessage K] [LawfulMessage V]

/-- **An operation does on the column family what it does on the map**, and returns what it returns
there. -/
theorem holdsMaps_exec (hdefault : "default" ∉ ids) (hi : HoldsMaps ids i maps)
    (o : MapOp K V IK N) (hid : o.handle.id ∈ ids) (ho : ¬Overflows o) :
    ∃ j, i.execMap o = .ok (j, o.returns (maps o.handle)) ∧ HoldsMaps ids j (o.apply maps) := by
  obtain ⟨m, hm, ⟨opts, hopts, hmerge⟩, hf⟩ := hi o.handle.id hid
  have hget : ∀ k, i.get o.handle.id (o.handle.metakeys ++ protobuf.serialize k) =
      .ok (((maps o.handle).lookup k).map protobuf.serialize) := fun k => by
    rw [get_stored hm]
    exact congrArg Except.ok (hf.lookup o.handle rfl k)
  unfold MapOp.apply
  cases o with
  | insert h k v =>
    have hm : i.db.cfs h.id = some ⟨none, stored m⟩ := hm
    refine ⟨_, ?_, holdsMaps_setCf hi (set_put m (h.entryKey k) (protobuf.serialize v))
      (hf.insert rfl fun b => Sled.getElem?_insert_ite _ _ _ b)⟩
    have hget : i.get h.id (h.metakeys ++ protobuf.serialize k) = _ := hget k
    simp only [execMap, mapInsert, Handle.serializeMetakeysAndKey_eq, ok_bind, hget, readValue_map,
      put, Rocks.put_eq hm, pure_eq_ok]
    rfl
  | fastInsert h k v =>
    have hm : i.db.cfs h.id = some ⟨none, stored m⟩ := hm
    refine ⟨_, ?_, holdsMaps_setCf hi (set_put m (h.entryKey k) (protobuf.serialize v))
      (hf.insert rfl fun b => Sled.getElem?_insert_ite _ _ _ b)⟩
    simp only [execMap, mapFastInsert, Handle.serializeMetakeysAndKey_eq, ok_bind, put,
      Rocks.put_eq hm, pure_eq_ok]
    rfl
  | insertAll h pairs =>
    have hm : i.db.cfs h.id = some ⟨none, stored m⟩ := hm
    refine ⟨_, ?_, holdsMaps_setCf hi (foldl_set _ _ pairs m)
      (Family.insertAll rfl hf (r := fun m b => m[b]?)
        (fun m e b => Sled.getElem?_insert_ite m _ _ b) pairs _ rfl)⟩
    simp only [execMap, mapInsertAll, Sled.insertBatch_eq, Rocks.getCfHandle_eq hm, ok_bind,
      pure_eq_ok, List.foldl_map]
    rfl
  | remove h k =>
    have hm : i.db.cfs h.id = some ⟨none, stored m⟩ := hm
    refine ⟨_, ?_, holdsMaps_setCf hi (set_absent m (h.entryKey k))
      (hf.remove rfl fun b => Sled.getElem?_erase_ite _ _ b)⟩
    have hget : i.get h.id (h.metakeys ++ protobuf.serialize k) = _ := hget k
    simp only [execMap, mapRemove, Handle.serializeMetakeysAndKey_eq, ok_bind, hget, readValue_map,
      remove, Rocks.remove_eq hm, pure_eq_ok]
    rfl
  | fastRemove h k =>
    have hm : i.db.cfs h.id = some ⟨none, stored m⟩ := hm
    refine ⟨_, ?_, holdsMaps_setCf hi (set_absent m (h.entryKey k))
      (hf.remove rfl fun b => Sled.getElem?_erase_ite _ _ b)⟩
    simp only [execMap, mapFastRemove, Handle.serializeMetakeysAndKey_eq, ok_bind, remove,
      Rocks.remove_eq hm, pure_eq_ok]
    rfl
  | clear h => exact holdsMaps_clear hdefault hi hid ho

end update

variable [LawfulFixedBytes IK] [LawfulFixedBytes N] [LawfulMessage K] [LawfulMessage V]

/-- The reads of a handle show its map. -/
theorem shows_map (it : PrefixIterator (size IK + size N)) (hi : HoldsMaps ids i maps)
    {h : Handle IK N} (hid : h.id ∈ ids) : i.Shows it h (maps h) := by
  obtain ⟨m, hm, -, hf⟩ := hi h.id hid
  have hget : ∀ k, i.get h.id (h.metakeys ++ protobuf.serialize k) =
      .ok (((maps h).lookup k).map protobuf.serialize) := fun k => by
    rw [get_stored hm]
    exact congrArg Except.ok (hf.lookup h rfl k)
  have hget' : ∀ k, i.db.get h.id (h.metakeys ++ protobuf.serialize k) = _ := hget
  obtain ⟨es, hscan, hes⟩ := hf.scan rfl protobuf.delimits_message.injective (lists_tree m)
  have hitems : i.prefixIteratorCf it h =
      .ok (es.map fun e => (h.entryKey e.1, protobuf.serialize e.2)) := by
    unfold prefixIteratorCf
    rw [Handle.serializeMetakeys_eq, ok_bind, Rocks.getCfHandle_eq hm, ok_bind,
      it.items_stored _ _ Handle.length_metakeys, hscan]
    rfl
  have hkey : ∀ e : K × V, readKey IK N (h.entryKey e.1) = .ok e.1 := fun e => readKey_eq h e.1
  refine ⟨fun k => ?_, fun k => ?_, ?_, ⟨es.isEmpty, ?_, eq_empty_iff_lists hes⟩,
    ⟨es.map Prod.fst, ?_, hes.keys_eq⟩, ⟨es.map Prod.snd, ?_, ?_⟩, ⟨es, ?_, hes.entries⟩⟩
  · simp only [mapGet, Handle.serializeMetakeysAndKey_eq, ok_bind, hget, readValue_map]
  · simp only [mapContains, Handle.serializeMetakeysAndKey_eq, ok_bind, contains, hget', pure_eq_ok,
      Option.isSome_map]
  · simp only [mapLen, hitems, ok_bind, List.length_map, pure_eq_ok, hes.length_eq]
  · simp only [mapIsEmpty, hitems, ok_bind, pure_eq_ok]
    cases es <;> rfl
  · simp only [mapKeys, hitems, ok_bind, pure_eq_ok, List.map_map, Function.comp_def, hkey]
  · simp only [mapValues, hitems, ok_bind, pure_eq_ok, List.map_map, Function.comp_def,
      protobuf.deserialize_serialize]
  · rw [← hes.entries, Multiset.map_coe]
  · simp only [mapIter, hitems, ok_bind, pure_eq_ok, List.map_map, Function.comp_def, hkey,
      protobuf.deserialize_serialize]

/-! ## Runs -/

variable [DecidableEq IK] [DecidableEq N]

/-- The run up to an operation that overflows. -/
theorem run_holdsMaps (hdefault : "default" ∉ ids) (hi : HoldsMaps ids i maps)
    (ops : List (MapOp K V IK N)) (hids : ∀ o ∈ ops, o.handle.id ∈ ids) :
    ((∀ o ∈ ops, ¬Overflows o) →
      ∃ j, ops.foldlM stepMap i = .ok j ∧ HoldsMaps ids j (ops.foldl MapOp.apply maps)) ∧
    ((∃ o ∈ ops, Overflows o) →
      ops.foldlM stepMap i = .error (.panic "attempt to add with overflow")) := by
  induction ops generalizing i maps with
  | nil => exact ⟨fun _ => ⟨i, rfl, hi⟩, fun ⟨o, ho, _⟩ => absurd ho List.not_mem_nil⟩
  | cons o ops ih =>
    have hid := hids o (by simp)
    rw [List.foldlM_cons]
    by_cases ho : Overflows o
    · have hpanic : i.stepMap o = .error (.panic "attempt to add with overflow") := by
        unfold stepMap
        rw [execMap_overflows hi hid ho]
        rfl
      rw [hpanic]
      exact ⟨fun hall => absurd ho (hall o (by simp)), fun _ => rfl⟩
    · obtain ⟨j, hexec, hj⟩ := holdsMaps_exec hdefault hi o hid ho
      have hstep : i.stepMap o = .ok j := by
        unfold stepMap
        rw [hexec]
        rfl
      obtain ⟨hgood, hbad⟩ := ih hj fun o' ho' => hids o' (by simp [ho'])
      rw [hstep, ok_bind]
      refine ⟨fun hall => hgood fun o' ho' => hall o' (by simp [ho']), fun ⟨o', ho', hover⟩ => ?_⟩
      obtain rfl | ho' := List.mem_cons.mp ho'
      · exact absurd hover ho
      · exact hbad ⟨o', ho', hover⟩

end InitializedRocksDb

section runs

open InitializedRocksDb

variable {K V IK N : Type} [Message K] [Message V] [FixedBytes IK] [FixedBytes N] [DecidableEq K]
  [DecidableEq IK] [DecidableEq N] [LawfulFixedBytes IK] [LawfulFixedBytes N] [LawfulMessage K]
  [LawfulMessage V]

/-- **Map state on Rocks is a family of finite maps, except for clearings that overflow.** The
states of a new database are registered and operated on. Unless the metakeys of a `map_clear` end in
`0xFF`, no operation and no read fails, for every handle the reads show the map that the operations
give in the reference, the next operation returns what it returns there, and it leaves the maps of
other handles alone. Such a `map_clear` ends the run in a panic, whatever was stored. -/
theorem map_refines_rocks (it : PrefixIterator (size IK + size N)) (ids : List String)
    (hdefault : "default" ∉ ids) (ops : List (MapOp K V IK N))
    (hids : ∀ o ∈ ops, o.handle.id ∈ ids) :
    ∃ i₀, registerMaps ids (size IK + size N) fresh = .ok i₀ ∧
      ((∀ o ∈ ops, ¬Overflows o) → ∃ i, ops.foldlM stepMap i₀ = .ok i ∧
        (∀ h : Handle IK N, h.id ∈ ids → i.Shows it h (MapOp.maps ops h)) ∧
        ∀ o : MapOp K V IK N, o.handle.id ∈ ids → ¬Overflows o →
          ∃ j, i.execMap o = .ok (j, o.returns (MapOp.maps ops o.handle)) ∧
            ∀ h : Handle IK N, h ≠ o.handle → h.id ∈ ids → j.Shows it h (MapOp.maps ops h)) ∧
      ((∃ o ∈ ops, Overflows o) →
        ops.foldlM stepMap i₀ = .error (.panic "attempt to add with overflow")) := by
  obtain ⟨i₀, hreg, hi₀⟩ : ∃ i, registerMaps ids (size IK + size N) fresh = .ok i ∧
      HoldsMaps ids i (fun _ : Handle IK N => (∅ : FinMap K V)) := holdsMaps_registered hdefault _
  obtain ⟨hgood, hbad⟩ := run_holdsMaps hdefault hi₀ ops hids
  refine ⟨i₀, hreg, fun hall => ?_, hbad⟩
  obtain ⟨i, hrun, hi⟩ := hgood hall
  refine ⟨i, hrun, fun h hid => shows_map it hi hid, fun o hid ho => ?_⟩
  obtain ⟨j, hexec, hj⟩ := holdsMaps_exec hdefault hi o hid ho
  refine ⟨j, hexec, fun h hne hidh => ?_⟩
  have hs := shows_map it hj hidh
  rw [MapOp.apply, Function.update_of_ne hne] at hs
  exact hs

end runs

open InitializedRocksDb in
theorem map_refines_rocks_cleared :
    (∀ o ∈ clearedRun, ¬Overflows o) ∧
      ∃ i₀ i, registerMaps ["m"] 1 fresh = .ok i₀ ∧ clearedRun.foldlM stepMap i₀ = .ok i ∧
        i.Shows (.ofStored 1) ⟨"m", (), true⟩ (MapOp.maps clearedRun ⟨"m", (), true⟩) := by
  have hids : ∀ o ∈ clearedRun, o.handle.id ∈ ["m"] := by decide
  have hover : ∀ o ∈ clearedRun, ¬Overflows o := by decide
  obtain ⟨i₀, hreg, hgood, -⟩ :=
    map_refines_rocks (.ofStored 1) ["m"] (by decide) clearedRun hids
  obtain ⟨i, hrun, hshows, -⟩ := hgood hover
  exact ⟨hover, i₀, i, hreg, hrun, hshows ⟨"m", (), true⟩ (by decide)⟩

end Arcon.State
