import Arcon.State.MapFamily
import Arcon.State.Backends

/-!
# Map state is a family of finite maps

Each backend runs the operations on its own store (`Sled.execMap`, `InMemory.execMap`), and the
reads of a handle show a finite map (`ShowsMap`): the point reads its values, the length its size,
and the iterators its entries, each once and in no particular order.

* `Sled.HoldsMaps`, `InMemory.HoldsMaps`: the store of every state is the family of its maps.
* **`map_refines`**: after every sequence of operations all reads agree with the reference, every
  operation returns what it returns there, and only the map of its handle changes.
-/

namespace Arcon.State

open FixedBytes Listing

variable {K V IK N : Type} [Message K] [FixedBytes IK] [FixedBytes N]

/-- The operation on `Sled`. -/
def Sled.execMap [Message V] (db : Sled) : MapOp K V IK N → Result (Sled × Option (Option V))
  | .insert h k v => do
    let (db, old) ← db.mapInsert h k v
    pure (db, some old)
  | .fastInsert h k v => do
    let db ← db.mapFastInsert h k v
    pure (db, none)
  | .insertAll h pairs => do
    let db ← db.mapInsertAll h pairs
    pure (db, none)
  | .remove h k => do
    let (db, old) ← db.mapRemove h k
    pure (db, some old)
  | .fastRemove h k => do
    let db ← db.mapFastRemove h k
    pure (db, none)
  | .clear h => do
    let db ← db.mapClear h
    pure (db, none)

/-- The operation on `InMemory`. -/
def InMemory.execMap (db : InMemory V) :
    MapOp K V IK N → Result (InMemory V × Option (Option V))
  | .insert h k v => do
    let (db, old) ← db.mapInsert h k v
    pure (db, some old)
  | .fastInsert h k v => do
    let db ← db.mapFastInsert h k v
    pure (db, none)
  | .insertAll h pairs => do
    let db ← InMemory.mapInsertAll h db pairs
    pure (db, none)
  | .remove h k => do
    let (db, old) ← db.mapRemove h k
    pure (db, some old)
  | .fastRemove h k => do
    let db ← db.mapFastRemove h k
    pure (db, none)
  | .clear h => do
    let db ← db.mapClear h
    pure (db, none)

/-- What the reads of a handle show: this finite map. -/
structure ShowsMap [DecidableEq K] (get : K → Result (Option V)) (contains : K → Result Bool)
    (len : Result Nat) (isEmpty : Result Bool) (keys : Result (List (Result K)))
    (values : Result (List (Result V))) (iter : Result (List (Result (K × V))))
    (m : FinMap K V) : Prop where
  get : ∀ k, get k = .ok (m.lookup k)
  contains : ∀ k, contains k = .ok (m.lookup k).isSome
  len : len = .ok m.keys.card
  isEmpty : ∃ b, isEmpty = .ok b ∧ (b = true ↔ m = ∅)
  keys : ∃ l : List K, keys = .ok (l.map .ok) ∧ ↑l = m.keys.val
  values : ∃ l : List V, values = .ok (l.map .ok) ∧ ↑l = (Lists.pairs m).map Prod.snd
  iter : ∃ l : List (K × V), iter = .ok (l.map .ok) ∧ ↑l = Lists.pairs m

omit [Message K] in
theorem eq_empty_iff_lists [DecidableEq K] {es : List (K × V)} {m : FinMap K V}
    (h : Lists es (m.lookup ·)) : es.isEmpty = true ↔ m = ∅ := by
  rw [List.isEmpty_iff, ← List.length_eq_zero_iff, h.length_eq, Finset.card_eq_zero]
  refine ⟨fun hk => Finmap.ext_lookup fun k => ?_, fun hm => by rw [hm, Finmap.keys_empty]⟩
  rw [Finmap.lookup_empty, Finmap.lookup_eq_none, ← Finmap.mem_keys, hk]
  exact Finset.notMem_empty k

/-! ## Sled -/

theorem lists_tree (m : Std.TreeMap Bytes Bytes) : Lists m.toList (fun b => m[b]?) := by
  refine ⟨?_, fun k v => Std.TreeMap.mem_toList_iff_getElem?_eq_some⟩
  rw [List.Nodup, List.pairwise_map]
  refine Std.TreeMap.distinct_keys_toList.imp fun hne heq => hne ?_
  rw [heq, Std.compare_eq_iff_eq]

namespace Sled

variable [Message V]

theorem insertBatch_eq [LawfulFixedBytes IK] [LawfulFixedBytes N] (h : Handle IK N)
    (pairs : List (K × V)) :
    insertBatch h pairs = .ok (pairs.map fun e => (h.entryKey e.1, protobuf.serialize e.2)) := by
  induction pairs with
  | nil => rfl
  | cons e pairs ih =>
    obtain ⟨k, v⟩ := e
    simp only [insertBatch, Handle.serializeMetakeysAndKey_eq, ok_bind, ih, pure_eq_ok,
      List.map_cons]
    rfl

variable [DecidableEq K]

/-- The tree of every state is the family of its maps. -/
def HoldsMaps (db : Sled) (maps : Handle IK N → FinMap K V) : Prop :=
  ∀ id, Family protobuf.serialize id (fun b => (db.tree id).map[b]?) maps

variable {db : Sled} {maps : Handle IK N → FinMap K V}

theorem holdsMaps_create : HoldsMaps create (fun _ : Handle IK N => (∅ : FinMap K V)) := by
  intro id
  have hnone : ∀ b, (create.tree id).map[b]? = none := fun b => Std.TreeMap.getElem?_emptyc
  exact ⟨fun h _ k => by rw [hnone, Finmap.lookup_empty]; rfl, fun b hb => by
    rw [hnone] at hb
    cases hb⟩

section update

variable [DecidableEq IK] [DecidableEq N]

/-- The tree of one state changes. -/
theorem holdsMaps_tree (hdb : HoldsMaps db maps) {h : Handle IK N} {db' : Sled} {m : FinMap K V}
    (hsame : ∀ id, id ≠ h.id → db'.tree id = db.tree id)
    (hf : Family protobuf.serialize h.id (fun b => (db'.tree h.id).map[b]?)
      (Function.update maps h m)) : HoldsMaps db' (Function.update maps h m) := by
  intro id
  by_cases hid : id = h.id
  · subst hid
    exact hf
  · rw [hsame id hid]
    exact (hdb id).other (fun heq => hid heq.symm) m

theorem holdsMaps_setTree (hdb : HoldsMaps db maps) {h : Handle IK N} {t : Tree} {m : FinMap K V}
    (hf : Family protobuf.serialize h.id (fun b => t.map[b]?) (Function.update maps h m)) :
    HoldsMaps (db.setTree h.id t) (Function.update maps h m) := by
  refine holdsMaps_tree hdb (fun id hid => ?_) ?_
  · simp [tree, setTree, hid]
  · simpa [tree, setTree] using hf

theorem getElem?_insert_ite (m : Std.TreeMap Bytes Bytes) (key value b : Bytes) :
    (m.insert key value)[b]? = if b = key then some value else m[b]? := by
  split_ifs with h
  · rw [h, Std.TreeMap.getElem?_insert_self]
  · exact Tree.insert_of_ne h value

theorem getElem?_erase_ite (m : Std.TreeMap Bytes Bytes) (key b : Bytes) :
    (m.erase key)[b]? = if b = key then none else m[b]? := by
  split_ifs with h
  · rw [h, Std.TreeMap.getElem?_erase_self]
  · exact Tree.erase_of_ne h

theorem getElem?_foldl_erase (keys : List Bytes) (m : Std.TreeMap Bytes Bytes) (b : Bytes) :
    (keys.foldl (fun m key => m.erase key) m)[b]? = if b ∈ keys then none else m[b]? := by
  induction keys generalizing m with
  | nil => simp
  | cons key keys ih =>
    rw [List.foldl_cons, ih, getElem?_erase_ite]
    by_cases h : b ∈ keys
    · simp [h]
    · by_cases h' : b = key
      · simp [h']
      · simp [h, h']

/-- `remove_prefix` removes what starts with the prefix. -/
theorem getElem?_removePrefix (db : Sled) (id : String) (pre b : Bytes) :
    ((db.removePrefix id pre).tree id).map[b]? =
      if pre <+: b then none else (db.tree id).map[b]? := by
  have htree : ((db.removePrefix id pre).tree id).map =
      ((((db.tree id).scanPrefix pre).map Prod.fst).foldl (fun m key => m.erase key)
        (db.tree id).map) := by
    simp [removePrefix, tree, setTree]
  rw [htree, getElem?_foldl_erase]
  have hmem : b ∈ ((db.tree id).scanPrefix pre).map Prod.fst ↔
      pre <+: b ∧ ((db.tree id).map[b]?).isSome := by
    unfold Tree.scanPrefix
    rw [List.mem_map]
    constructor
    · rintro ⟨⟨k, v⟩, hin, rfl⟩
      rw [List.mem_filter, List.isPrefixOf_iff_prefix] at hin
      have hv : (db.tree id).map[k]? = some v := ((lists_tree _).2 k v).mp hin.1
      exact ⟨hin.2, by simp [hv]⟩
    · rintro ⟨hp, hb⟩
      obtain ⟨v, hv⟩ := Option.isSome_iff_exists.mp hb
      exact ⟨(b, v), List.mem_filter.mpr ⟨((lists_tree _).2 b v).mpr hv,
        List.isPrefixOf_iff_prefix.mpr hp⟩, rfl⟩
  by_cases hp : pre <+: b
  · rw [if_pos hp]
    split_ifs with hin
    · rfl
    · rw [hmem] at hin
      simpa [hp] using hin
  · rw [if_neg hp, if_neg fun hin => hp (hmem.mp hin).1]

variable [LawfulFixedBytes IK] [LawfulFixedBytes N] [LawfulMessage K] [LawfulMessage V]

/-- **An operation does on the tree what it does on the map**, and returns what it returns there. -/
theorem holdsMaps_exec (hdb : HoldsMaps db maps) (o : MapOp K V IK N) :
    ∃ db', db.execMap o = .ok (db', o.returns (maps o.handle)) ∧ HoldsMaps db' (o.apply maps) := by
  have hf := hdb o.handle.id
  have hold : ∀ k, readValue (db.get o.handle.id (o.handle.entryKey k)) =
      .ok ((maps o.handle).lookup k) := fun k => by
    rw [get, hf.lookup o.handle rfl k, readValue_map]
  unfold MapOp.apply
  cases o with
  | insert h k v =>
    refine ⟨_, ?_, holdsMaps_setTree hdb (t := { db.tree h.id with
      map := (db.tree h.id).map.insert (h.entryKey k) (protobuf.serialize v) })
      (hf.insert rfl fun b => getElem?_insert_ite _ _ _ b)⟩
    simp only [execMap, mapInsert, Handle.serializeMetakeysAndKey_eq, ok_bind, put]
    rw [show readValue (db.tree h.id).map[h.metakeys ++ protobuf.serialize k]? =
      .ok ((maps h).lookup k) from hold k]
    rfl
  | fastInsert h k v =>
    refine ⟨_, ?_, holdsMaps_setTree hdb (t := { db.tree h.id with
      map := (db.tree h.id).map.insert (h.entryKey k) (protobuf.serialize v) })
      (hf.insert rfl fun b => getElem?_insert_ite _ _ _ b)⟩
    simp only [execMap, mapFastInsert, Handle.serializeMetakeysAndKey_eq, ok_bind, pure_eq_ok]
    rfl
  | insertAll h pairs =>
    refine ⟨_, ?_, holdsMaps_setTree hdb (t := { db.tree h.id with
      map := pairs.foldl (fun m e => m.insert (h.entryKey e.1) (protobuf.serialize e.2))
        (db.tree h.id).map })
      (Family.insertAll rfl hf (r := fun m b => m[b]?)
        (fun m e b => getElem?_insert_ite m _ _ b) pairs _ rfl)⟩
    simp only [execMap, mapInsertAll, insertBatch_eq, ok_bind, pure_eq_ok, List.foldl_map]
    rfl
  | remove h k =>
    refine ⟨_, ?_, holdsMaps_setTree hdb (t := { db.tree h.id with
      map := (db.tree h.id).map.erase (h.entryKey k) })
      (hf.remove rfl fun b => getElem?_erase_ite _ _ b)⟩
    simp only [execMap, mapRemove, Handle.serializeMetakeysAndKey_eq, ok_bind, Sled.remove]
    rw [show readValue (db.tree h.id).map[h.metakeys ++ protobuf.serialize k]? =
      .ok ((maps h).lookup k) from hold k]
    rfl
  | fastRemove h k =>
    refine ⟨_, ?_, holdsMaps_setTree hdb (t := { db.tree h.id with
      map := (db.tree h.id).map.erase (h.entryKey k) })
      (hf.remove rfl fun b => getElem?_erase_ite _ _ b)⟩
    simp only [execMap, mapFastRemove, Handle.serializeMetakeysAndKey_eq, ok_bind, pure_eq_ok]
    rfl
  | clear h =>
    have hclear := hf.clear rfl fun b => getElem?_removePrefix db h.id h.metakeys b
    refine ⟨_, ?_, holdsMaps_tree hdb (fun id hid => ?_) hclear⟩
    · simp only [execMap, mapClear, Handle.serializeMetakeys_eq, ok_bind, pure_eq_ok]
      rfl
    · have hid' : id ≠ h.id := hid
      simp [removePrefix, tree, setTree, hid']

end update

variable [LawfulFixedBytes IK] [LawfulFixedBytes N] [LawfulMessage K] [LawfulMessage V]

/-- The reads of a handle show its map. -/
theorem shows_map (hdb : HoldsMaps db maps) (h : Handle IK N) :
    ShowsMap (db.mapGet h) (db.mapContains h) (db.mapLen h) (db.mapIsEmpty h) (db.mapKeys h)
      (db.mapValues h) (db.mapIter h) (maps h) := by
  have hf := hdb h.id
  have hlook : ∀ k, (db.tree h.id).map[h.metakeys ++ protobuf.serialize k]? =
      ((maps h).lookup k).map protobuf.serialize := hf.lookup h rfl
  obtain ⟨es, hscan, hes⟩ := hf.scan rfl protobuf.delimits_message.injective (lists_tree _)
  have hscan' : (db.tree h.id).scanPrefix h.metakeys =
      es.map fun e => (h.entryKey e.1, protobuf.serialize e.2) := hscan
  have hkey : ∀ e : K × V, readKey IK N (h.entryKey e.1) = .ok e.1 := fun e => readKey_eq h e.1
  refine ⟨fun k => ?_, fun k => ?_, ?_, ⟨es.isEmpty, ?_, eq_empty_iff_lists hes⟩,
    ⟨es.map Prod.fst, ?_, hes.keys_eq⟩, ⟨es.map Prod.snd, ?_, ?_⟩, ⟨es, ?_, hes.entries⟩⟩
  · simp only [mapGet, Handle.serializeMetakeysAndKey_eq, ok_bind, get, hlook, readValue_map]
  · simp only [mapContains, Handle.serializeMetakeysAndKey_eq, ok_bind, contains, pure_eq_ok,
      Std.TreeMap.contains_eq_isSome_getElem?, hlook, Option.isSome_map]
  · simp only [mapLen, Handle.serializeMetakeys_eq, ok_bind, hscan', List.length_map, pure_eq_ok,
      hes.length_eq]
  · simp only [mapIsEmpty, Handle.serializeMetakeys_eq, ok_bind, hscan', pure_eq_ok]
    cases es <;> rfl
  · simp only [mapKeys, Handle.serializeMetakeys_eq, ok_bind, hscan', pure_eq_ok, List.map_map,
      Function.comp_def, hkey]
  · simp only [mapValues, Handle.serializeMetakeys_eq, ok_bind, hscan', pure_eq_ok, List.map_map,
      Function.comp_def, protobuf.deserialize_serialize]
  · rw [← hes.entries, Multiset.map_coe]
  · simp only [mapIter, Handle.serializeMetakeys_eq, ok_bind, hscan', pure_eq_ok, List.map_map,
      Function.comp_def, hkey, protobuf.deserialize_serialize]

end Sled

/-! ## In memory -/

theorem lists_hashMap (m : Std.HashMap Bytes V) : Lists m.toList (fun b => m[b]?) := by
  refine ⟨?_, fun k v => Std.HashMap.mem_toList_iff_getElem?_eq_some⟩
  rw [List.Nodup, List.pairwise_map]
  refine Std.HashMap.distinct_keys_toList.imp fun hne heq => ?_
  rw [heq, beq_self_eq_true] at hne
  cases hne

namespace InMemory

section prefixes

variable {pre : Bytes}

theorem startsWith_eq {k : Bytes} (h : pre.length ≤ k.length) :
    startsWith pre k = .ok (pre.isPrefixOf k) := by
  unfold startsWith
  rw [if_neg (by omega)]
  congr 1
  rw [Bool.eq_iff_iff, beq_iff_eq, List.isPrefixOf_iff_prefix, List.prefix_iff_eq_take]
  exact eq_comm

theorem countPrefix_eq {l : List (Bytes × V)} (hl : ∀ e ∈ l, pre.length ≤ e.1.length) :
    countPrefix pre (l.map Prod.fst) = .ok (l.filter fun e => pre.isPrefixOf e.1).length := by
  induction l with
  | nil => rfl
  | cons e l ih =>
    rw [List.map_cons, countPrefix, startsWith_eq (hl e (by simp)), ok_bind,
      ih fun e' he' => hl e' (by simp [he'])]
    by_cases hp : pre.isPrefixOf e.1 = true
    · simp [hp]
    · simp [hp]

theorem nonePrefix_eq {l : List (Bytes × V)} (hl : ∀ e ∈ l, pre.length ≤ e.1.length) :
    nonePrefix pre (l.map Prod.fst) = .ok (l.filter fun e => pre.isPrefixOf e.1).isEmpty := by
  induction l with
  | nil => rfl
  | cons e l ih =>
    rw [List.map_cons, nonePrefix, startsWith_eq (hl e (by simp)), ok_bind,
      ih fun e' he' => hl e' (by simp [he'])]
    by_cases hp : pre.isPrefixOf e.1 = true
    · simp [hp]
    · simp [hp]

variable {m : Std.HashMap Bytes V} (hm : ∀ e ∈ m.toList, pre.length ≤ e.1.length)
include hm

theorem filterMap_eq {α : Type} (f : Bytes → V → Result α) :
    filterMap pre f m = (m.toList.filter fun e => pre.isPrefixOf e.1).map fun e => f e.1 e.2 := by
  unfold filterMap
  generalize m.toList = l at hm
  induction l with
  | nil => rfl
  | cons e l ih =>
    obtain ⟨k, v⟩ := e
    have hk : startsWith pre k = .ok (pre.isPrefixOf k) := startsWith_eq (hm (k, v) (by simp))
    rw [List.filterMap_cons, ih fun e' he' => hm e' (by simp [he'])]
    dsimp only
    rw [hk]
    cases hp : pre.isPrefixOf k <;> simp [hp]

omit hm in
/-- One round of `retain`. -/
theorem getElem?_retain_step (m : Std.HashMap Bytes V) (k b : Bytes) :
    (if pre.isPrefixOf k then m.erase k else m)[b]? =
      if pre <+: b ∧ b = k then none else m[b]? := by
  by_cases hb : b = k
  · subst hb
    by_cases hp : pre <+: b
    · rw [if_pos (List.isPrefixOf_iff_prefix.mpr hp), if_pos ⟨hp, rfl⟩,
        Std.HashMap.getElem?_erase_self]
    · rw [if_neg fun h => hp (List.isPrefixOf_iff_prefix.mp h), if_neg fun h => hp h.1]
  · have hne : ¬(pre <+: b ∧ b = k) := fun h => hb h.2
    rw [if_neg hne]
    split_ifs
    · rw [Std.HashMap.getElem?_erase, if_neg]
      simpa using fun heq => hb heq.symm
    · rfl

/-- `retain` keeps what does not start with the prefix. -/
theorem retain_eq : ∃ m', retain pre m = .ok m' ∧
    ∀ b, m'[b]? = if pre <+: b then none else m[b]? := by
  -- after a part of the entries, those of them that start with the prefix are gone
  have hloop : ∀ (l : List (Bytes × V)) (m₁ : Std.HashMap Bytes V),
      (∀ e ∈ l, pre.length ≤ e.1.length) →
      ∃ m', l.foldlM (fun m (e : Bytes × V) => do
        let drop ← startsWith pre e.1
        pure (if drop then m.erase e.1 else m)) m₁ = (.ok m' : Result _) ∧
      ∀ b, m'[b]? = if pre <+: b ∧ b ∈ l.map Prod.fst then none else m₁[b]? := by
    intro l
    induction l with
    | nil => exact fun m₁ _ => ⟨m₁, rfl, fun b => by simp⟩
    | cons e l ih =>
      intro m₁ hl
      obtain ⟨m', hm', hb'⟩ := ih (if pre.isPrefixOf e.1 then m₁.erase e.1 else m₁)
        fun e' he' => hl e' (by simp [he'])
      refine ⟨m', ?_, fun b => ?_⟩
      · rw [List.foldlM_cons, startsWith_eq (hl e (by simp)), ok_bind, pure_eq_ok, ok_bind]
        exact hm'
      · rw [hb', getElem?_retain_step, List.map_cons]
        by_cases hin : pre <+: b ∧ b ∈ l.map Prod.fst
        · rw [if_pos hin, if_pos ⟨hin.1, List.mem_cons_of_mem _ hin.2⟩]
        · rw [if_neg hin]
          by_cases he : pre <+: b ∧ b = e.1
          · rw [if_pos he, if_pos ⟨he.1, List.mem_cons.mpr (.inl he.2)⟩]
          · rw [if_neg he, if_neg]
            rintro ⟨hp, hmem⟩
            exact (List.mem_cons.mp hmem).elim (fun h => he ⟨hp, h⟩) fun h => hin ⟨hp, h⟩
  obtain ⟨m', hm', hb⟩ := hloop m.toList m hm
  refine ⟨m', hm', fun b => ?_⟩
  rw [hb]
  by_cases hp : pre <+: b
  · by_cases hin : b ∈ m.toList.map Prod.fst
    · rw [if_pos ⟨hp, hin⟩, if_pos hp]
    · rw [if_neg fun h => hin h.2, if_pos hp]
      cases hv : m[b]? with
      | none => rfl
      | some v =>
        exact absurd (List.mem_map.mpr ⟨(b, v), ((lists_hashMap m).2 b v).mpr hv, rfl⟩) hin
  · rw [if_neg fun h => hp h.1, if_neg hp]

end prefixes

section inserts

variable [LawfulFixedBytes IK] [LawfulFixedBytes N] {h : Handle IK N} {m : Std.HashMap Bytes V}

theorem mapFastInsert_eq {db : InMemory V} (hm : db.data h.id = some m) (k : K) (v : V) :
    db.mapFastInsert h k v = .ok (db.set h.id (m.insert (h.entryKey k) v)) := by
  simp only [mapFastInsert, Handle.serializeMetakeysAndKey_eq, ok_bind, get_eq hm, pure_eq_ok]
  rfl

theorem mapInsertAll_eq (pairs : List (K × V)) {db : InMemory V} (hm : db.data h.id = some m) :
    ∃ db', mapInsertAll h db pairs = .ok db' ∧
      db'.data h.id = some (pairs.foldl (fun m e => m.insert (h.entryKey e.1) e.2) m) ∧
      ∀ id, id ≠ h.id → db'.data id = db.data id := by
  induction pairs generalizing db m with
  | nil => exact ⟨db, rfl, hm, fun _ _ => rfl⟩
  | cons e pairs ih =>
    obtain ⟨k, v⟩ := e
    have hset : (db.set h.id (m.insert (h.entryKey k) v)).data h.id =
        some (m.insert (h.entryKey k) v) := by simp [set]
    obtain ⟨db', hdb', hdata, hsame⟩ := ih hset
    refine ⟨db', ?_, hdata, fun id hid => ?_⟩
    · unfold mapInsertAll
      rw [List.foldlM_cons]
      dsimp only
      rw [mapFastInsert_eq hm k v, ok_bind]
      exact hdb'
    · rw [hsame id hid]
      simp [set, hid]

end inserts

variable [DecidableEq K]

/-- The hash map of every registered state is the family of its maps. -/
def HoldsMaps (ids : List String) (db : InMemory V) (maps : Handle IK N → FinMap K V) : Prop :=
  ∀ id ∈ ids, ∃ m, db.data id = some m ∧ Family (fun v => v) id (fun b => m[b]?) maps

variable {ids : List String} {db : InMemory V} {maps : Handle IK N → FinMap K V}

/-- No key of the state is shorter than the metakeys, so none is cut too short. -/
theorem length_of_family [LawfulFixedBytes IK] [LawfulFixedBytes N] {h : Handle IK N} 
    {m : Std.HashMap Bytes V} (hf : Family (fun v => v) h.id (fun b => m[b]?) maps) :
    ∀ e ∈ m.toList, h.metakeys.length ≤ e.1.length := by
  intro e he
  have hv : m[e.1]? = some e.2 := ((lists_hashMap m).2 e.1 e.2).mp he
  obtain ⟨h', k, _, hk⟩ := hf.range e.1 (by simp [hv])
  rw [hk, Handle.entryKey, List.length_append, Handle.length_metakeys, Handle.length_metakeys]
  exact Nat.le_add_right _ _

theorem holdsMaps_registered (ids : List String) :
    HoldsMaps ids (registered V ids) (fun _ : Handle IK N => (∅ : FinMap K V)) := by
  intro id hid
  have hnone : ∀ b : Bytes, (∅ : Std.HashMap Bytes V)[b]? = none := fun b =>
    Std.HashMap.getElem?_empty
  refine ⟨∅, registered_data V hid, fun h _ k => ?_, fun b hb => ?_⟩
  · rw [hnone, Finmap.lookup_empty]
    rfl
  · rw [hnone] at hb
    cases hb

section update

variable [DecidableEq IK] [DecidableEq N]

theorem holdsMaps_set (hdb : HoldsMaps ids db maps) {h : Handle IK N} {m : Std.HashMap Bytes V}
    {f : FinMap K V} (hf : Family (fun v => v) h.id (fun b => m[b]?) (Function.update maps h f)) :
    HoldsMaps ids (db.set h.id m) (Function.update maps h f) := by
  intro id hid
  by_cases heq : id = h.id
  · subst heq
    exact ⟨m, by simp [set], hf⟩
  · obtain ⟨m₀, hm₀, hf₀⟩ := hdb id hid
    exact ⟨m₀, by simpa [set, heq] using hm₀, hf₀.other (fun h => heq h.symm) f⟩

theorem getElem?_insert_ite (m : Std.HashMap Bytes V) (key : Bytes) (value : V) (b : Bytes) :
    (m.insert key value)[b]? = if b = key then some value else m[b]? := by
  rw [Std.HashMap.getElem?_insert]
  by_cases h : b = key
  · simp [h]
  · have hne : ¬(key == b) = true := by simpa using fun heq => h heq.symm
    rw [if_neg h, if_neg hne]

theorem getElem?_erase_ite (m : Std.HashMap Bytes V) (key b : Bytes) :
    (m.erase key)[b]? = if b = key then none else m[b]? := by
  rw [Std.HashMap.getElem?_erase]
  by_cases h : b = key
  · simp [h]
  · have hne : ¬(key == b) = true := by simpa using fun heq => h heq.symm
    rw [if_neg h, if_neg hne]

variable [LawfulFixedBytes IK] [LawfulFixedBytes N] [LawfulMessage K]

/-- **An operation does on the hash map what it does on the map**, and returns what it returns
there. -/
theorem holdsMaps_exec (hdb : HoldsMaps ids db maps) (o : MapOp K V IK N)
    (hid : o.handle.id ∈ ids) :
    ∃ db', db.execMap o = .ok (db', o.returns (maps o.handle)) ∧
      HoldsMaps ids db' (o.apply maps) := by
  obtain ⟨m, hm, hf⟩ := hdb o.handle.id hid
  have hget := get_eq hm
  have hold : ∀ k, m[o.handle.entryKey k]? = (maps o.handle).lookup k := fun k => by
    rw [hf.lookup o.handle rfl k, Option.map_id_fun']
    rfl
  unfold MapOp.apply
  cases o with
  | insert h k v =>
    refine ⟨_, ?_, holdsMaps_set hdb (hf.insert rfl fun b => getElem?_insert_ite m _ v b)⟩
    simp only [execMap, mapInsert, Handle.serializeMetakeysAndKey_eq, ok_bind, pure_eq_ok]
    rw [show db.get h.id = .ok m from hget, ok_bind]
    exact congrArg (fun old => Except.ok (_, some old)) (hold k)
  | fastInsert h k v =>
    refine ⟨_, ?_, holdsMaps_set hdb (hf.insert rfl fun b => getElem?_insert_ite m _ v b)⟩
    simp only [execMap, pure_eq_ok]
    rw [show db.mapFastInsert h k v = _ from mapFastInsert_eq hm k v]
    rfl
  | insertAll h pairs =>
    obtain ⟨db', hdb', hdata, hsame⟩ := mapInsertAll_eq pairs hm
    refine ⟨db', ?_, fun id hid' => ?_⟩
    · simp only [execMap, pure_eq_ok]
      rw [show mapInsertAll h db pairs = .ok db' from hdb']
      rfl
    · by_cases heq : id = h.id
      · subst heq
        exact ⟨_, hdata, Family.insertAll rfl hf (r := fun m b => m[b]?)
          (fun m e b => getElem?_insert_ite m _ _ b) pairs _ rfl⟩
      · obtain ⟨m₀, hm₀, hf₀⟩ := hdb id hid'
        exact ⟨m₀, by rw [hsame id heq, hm₀], hf₀.other (fun h => heq h.symm) _⟩
  | remove h k =>
    refine ⟨_, ?_, holdsMaps_set hdb (hf.remove rfl fun b => getElem?_erase_ite m _ b)⟩
    simp only [execMap, mapRemove, Handle.serializeMetakeysAndKey_eq, ok_bind, pure_eq_ok]
    rw [show db.get h.id = .ok m from hget, ok_bind]
    exact congrArg (fun old => Except.ok (_, some old)) (hold k)
  | fastRemove h k =>
    refine ⟨_, ?_, holdsMaps_set hdb (hf.remove rfl fun b => getElem?_erase_ite m _ b)⟩
    simp only [execMap, mapFastRemove, Handle.serializeMetakeysAndKey_eq, ok_bind, pure_eq_ok]
    rw [show db.get h.id = .ok m from hget]
    rfl
  | clear h =>
    obtain ⟨m', hm', hb⟩ := retain_eq (length_of_family hf)
    refine ⟨_, ?_, holdsMaps_set hdb (hf.clear rfl hb)⟩
    simp only [execMap, mapClear, Handle.serializeMetakeys_eq, ok_bind, pure_eq_ok]
    rw [show db.get h.id = .ok m from hget, ok_bind, show retain h.metakeys m = .ok m' from hm']
    rfl

end update

variable [LawfulFixedBytes IK] [LawfulFixedBytes N] [LawfulMessage K]

/-- The reads of a handle show its map. -/
theorem shows_map (hdb : HoldsMaps ids db maps) {h : Handle IK N} (hid : h.id ∈ ids) :
    ShowsMap (db.mapGet h) (db.mapContains h) (db.mapLen h) (db.mapIsEmpty h) (db.mapKeys h)
      (db.mapValues h) (db.mapIter h) (maps h) := by
  obtain ⟨m, hm, hf⟩ := hdb h.id hid
  have hget := get_eq hm
  have hlook : ∀ k, m[h.metakeys ++ protobuf.serialize k]? = (maps h).lookup k := fun k => by
    rw [show m[h.metakeys ++ protobuf.serialize k]? = _ from hf.lookup h rfl k, Option.map_id_fun']
    rfl
  obtain ⟨es, hscan, hes⟩ := hf.scan rfl (fun _ _ h => h) (lists_hashMap m)
  have hlen := length_of_family hf
  have hkey : ∀ e : K × V, readKey IK N (h.entryKey e.1) = .ok e.1 := fun e => readKey_eq h e.1
  refine ⟨fun k => ?_, fun k => ?_, ?_, ⟨es.isEmpty, ?_, eq_empty_iff_lists hes⟩,
    ⟨es.map Prod.fst, ?_, hes.keys_eq⟩, ⟨es.map Prod.snd, ?_, ?_⟩, ⟨es, ?_, hes.entries⟩⟩
  · simp only [mapGet, Handle.serializeMetakeysAndKey_eq, ok_bind, hget, hlook, pure_eq_ok]
  · simp only [mapContains, Handle.serializeMetakeysAndKey_eq, ok_bind, hget, pure_eq_ok,
      Std.HashMap.contains_eq_isSome_getElem?, hlook]
  · simp only [mapLen, Handle.serializeMetakeys_eq, ok_bind, hget, countPrefix_eq hlen, hscan,
      List.length_map, hes.length_eq]
  · simp only [mapIsEmpty, Handle.serializeMetakeys_eq, ok_bind, hget, nonePrefix_eq hlen, hscan]
    cases es <;> rfl
  · simp only [mapKeys, Handle.serializeMetakeys_eq, ok_bind, hget, filterMap_eq hlen, hscan,
      pure_eq_ok, List.map_map, Function.comp_def, hkey]
  · simp only [mapValues, Handle.serializeMetakeys_eq, ok_bind, hget, filterMap_eq hlen, hscan,
      pure_eq_ok, List.map_map, Function.comp_def]
  · rw [← hes.entries, Multiset.map_coe]
  · simp only [mapIter, Handle.serializeMetakeys_eq, ok_bind, hget, filterMap_eq hlen, hscan,
      pure_eq_ok, List.map_map, Function.comp_def, hkey]

end InMemory

/-! ## Runs -/

section runs

variable [Message V] [DecidableEq K] [DecidableEq IK] [DecidableEq N] {ids : List String}
  [LawfulFixedBytes IK] [LawfulFixedBytes N] [LawfulMessage K] [LawfulMessage V]

/-- One operation of a run, whatever it returns. -/
def Sled.stepMap (db : Sled) (o : MapOp K V IK N) : Result Sled := do
  let (db, _) ← db.execMap o
  pure db

/-- One operation of a run, whatever it returns. -/
def InMemory.stepMap {V : Type} (db : InMemory V) (o : MapOp K V IK N) : Result (InMemory V) := do
  let (db, _) ← db.execMap o
  pure db

theorem Sled.run_holdsMaps (ops : List (MapOp K V IK N)) :
    ∃ db, ops.foldlM Sled.stepMap Sled.create = .ok db ∧ Sled.HoldsMaps db (MapOp.maps ops) := by
  unfold MapOp.maps
  refine foldlM_follows (G := fun _ _ => True) (fun db maps o hdb _ => ?_) ops
    Sled.holdsMaps_create (fun _ _ _ _ => trivial)
  obtain ⟨db', hexec, hdb'⟩ := Sled.holdsMaps_exec hdb o
  exact ⟨db', by simp only [Sled.stepMap, hexec, ok_bind, pure_eq_ok], hdb'⟩

omit [Message V] [LawfulMessage V] in
theorem InMemory.run_holdsMaps (ops : List (MapOp K V IK N))
    (hids : ∀ o ∈ ops, o.handle.id ∈ ids) :
    ∃ db, ops.foldlM InMemory.stepMap (InMemory.registered V ids) = .ok db ∧
      InMemory.HoldsMaps ids db (MapOp.maps ops) := by
  unfold MapOp.maps
  refine foldlM_follows (G := fun _ o => o.handle.id ∈ ids) (fun db maps o hdb hid => ?_) ops
    (InMemory.holdsMaps_registered ids) (fun _ o _ heq => hids o (by simp [heq]))
  obtain ⟨db', hexec, hdb'⟩ := InMemory.holdsMaps_exec hdb o hid
  exact ⟨db', by simp only [InMemory.stepMap, hexec, ok_bind, pure_eq_ok], hdb'⟩

/-- What the reads of a handle show on `Sled`. -/
def Sled.Shows (db : Sled) (h : Handle IK N) (m : FinMap K V) : Prop :=
  ShowsMap (db.mapGet h) (db.mapContains h) (db.mapLen h) (db.mapIsEmpty h) (db.mapKeys h)
    (db.mapValues h) (db.mapIter h) m

/-- What the reads of a handle show on `InMemory`. -/
def InMemory.Shows {V : Type} (db : InMemory V) (h : Handle IK N) (m : FinMap K V) : Prop :=
  ShowsMap (db.mapGet h) (db.mapContains h) (db.mapLen h) (db.mapIsEmpty h) (db.mapKeys h)
    (db.mapValues h) (db.mapIter h) m

/-- **Map state is a family of finite maps.** For every sequence of operations on registered
handles, no operation and no read fails on `Sled` or `InMemory`, and for every handle the reads show
the map that the operations give in the reference. Whatever operation comes next, it returns what it
returns on the map of its handle, and every other handle shows the map it showed before. -/
theorem map_refines (ids : List String) (ops : List (MapOp K V IK N))
    (hids : ∀ o ∈ ops, o.handle.id ∈ ids) :
    ∃ sled mem, ops.foldlM Sled.stepMap Sled.create = .ok sled ∧
      ops.foldlM InMemory.stepMap (InMemory.registered V ids) = .ok mem ∧
      (∀ h : Handle IK N, h.id ∈ ids →
        sled.Shows h (MapOp.maps ops h) ∧ mem.Shows h (MapOp.maps ops h)) ∧
      ∀ o : MapOp K V IK N, o.handle.id ∈ ids → ∃ sled' mem',
        sled.execMap o = .ok (sled', o.returns (MapOp.maps ops o.handle)) ∧
        mem.execMap o = .ok (mem', o.returns (MapOp.maps ops o.handle)) ∧
        ∀ h : Handle IK N, h ≠ o.handle → h.id ∈ ids →
          sled'.Shows h (MapOp.maps ops h) ∧ mem'.Shows h (MapOp.maps ops h) := by
  obtain ⟨sled, hsled, hholds⟩ := Sled.run_holdsMaps ops
  obtain ⟨mem, hmem, hholds'⟩ := InMemory.run_holdsMaps ops hids
  refine ⟨sled, mem, hsled, hmem,
    fun h hid => ⟨Sled.shows_map hholds h, InMemory.shows_map hholds' hid⟩,
    fun o hid => ?_⟩
  obtain ⟨sled', hexec, hnext⟩ := Sled.holdsMaps_exec hholds o
  obtain ⟨mem', hexec', hnext'⟩ := InMemory.holdsMaps_exec hholds' o hid
  refine ⟨sled', mem', hexec, hexec', fun h hne hidh => ?_⟩
  have hs := Sled.shows_map hnext h
  have hs' := InMemory.shows_map hnext' hidh
  rw [MapOp.apply, Function.update_of_ne hne] at hs hs'
  exact ⟨hs, hs'⟩

end runs

/-- Operations on two namespaces of one state, the first of which is cleared. -/
def clearedRun : List (MapOp Bool Bool Unit Bool) :=
  [.insert ⟨"m", (), false⟩ true false, .insertAll ⟨"m", (), true⟩ [(true, true), (false, true)],
   .clear ⟨"m", (), false⟩, .remove ⟨"m", (), true⟩ false]

theorem map_refines_cleared :
    (∀ o ∈ clearedRun, o.handle.id ∈ ["m"]) ∧
      ∃ sled : Sled, clearedRun.foldlM Sled.stepMap Sled.create = .ok sled ∧
        sled.mapGet (V := Bool) (⟨"m", (), true⟩ : Handle Unit Bool) true =
          .ok ((MapOp.maps clearedRun ⟨"m", (), true⟩).lookup true) := by
  have hids : ∀ o ∈ clearedRun, o.handle.id ∈ ["m"] := by decide
  obtain ⟨sled, _, hrun, _, hshows, _⟩ := map_refines ["m"] clearedRun hids
  exact ⟨hids, sled, hrun, (hshows ⟨"m", (), true⟩ (by decide)).1.get true⟩

end Arcon.State
