import Arcon.State.MapRefine
import Arcon.State.RocksRegistry

/-!
# Clearing a map on Rocks (`rocks/mod.rs`, `rocks/map_ops.rs`)

All maps of a state share its column family, and `map_clear` removes the keys that start with the
metakeys of the handle. `remove_prefix` does this as one range: from the prefix up to, but not
including, the prefix with its last byte incremented. In the order of the column family these are
the keys with the prefix (`between_iff_isPrefix`), as long as the last byte can be incremented. A
prefix that ends in `0xFF` has no such end: the addition overflows and panics. An item key or a
namespace of a signed type that is negative ends so, and so does every number whose highest byte is
`0xFF`.

* **`remove_prefix_exact_iff`**: what is removed is exact, and with it `map_clear`, if and only if
  the prefix does not end in `0xFF`; `Sled` and `InMemory` clear a map whatever its metakeys are.
-/

namespace Arcon.State

open FixedBytes

namespace InitializedRocksDb

/-! ## The range of a prefix -/

/-- There is an end of the range if the last byte can be incremented. -/
theorem prefixEnd_isOk_iff {pre : Bytes} (hpre : pre ≠ []) :
    (∃ stop, prefixEnd pre = .ok stop) ↔ pre.getLast? ≠ some 255 := by
  fun_induction prefixEnd pre with
  | case1 => exact absurd rfl hpre
  | case2 => simp
  | case3 b hb => simpa using hb
  | case4 b rest hrest ih =>
    have hne : rest ≠ [] := fun h => hrest h
    rw [List.getLast?_cons_of_ne_nil hne, ← ih hne]
    constructor
    · rintro ⟨stop, hstop⟩
      cases hend : prefixEnd rest with
      | ok stop' => exact ⟨stop', rfl⟩
      | error e =>
        rw [hend] at hstop
        cases hstop
    · rintro ⟨stop, hstop⟩
      exact ⟨b :: stop, by rw [hstop]; rfl⟩

/-- **The range of a prefix holds the keys that start with it**, and no others. -/
theorem between_iff_isPrefix {pre stop : Bytes} (hstop : prefixEnd pre = .ok stop) (k : Bytes) :
    pre ≤ k ∧ k < stop ↔ pre <+: k := by
  induction pre generalizing stop k with
  | nil => cases hstop
  | cons b rest ih =>
    cases k with
    | nil => simp
    | cons x k =>
      rw [List.cons_prefix_cons]
      cases rest with
      | nil =>
        unfold prefixEnd at hstop
        split_ifs at hstop with hb
        cases hstop
        -- only `b` is at least `b` and below `b + 1`
        rw [List.cons_le_cons_iff, List.cons_lt_cons_iff]
        simp only [List.nil_le, and_true, List.not_lt_nil, and_false, or_false, List.nil_prefix]
        grind
      | cons b' rest =>
        unfold prefixEnd at hstop
        cases hend : prefixEnd (b' :: rest) with
        | error e =>
          rw [hend] at hstop
          cases hstop
        | ok stop' =>
          rw [hend] at hstop
          cases hstop
          rw [← ih hend k, List.cons_le_cons_iff, List.cons_lt_cons_iff]
          grind

/-! ## Removing a prefix -/

/-- The column family without the keys that start with the prefix. -/
def withoutPrefix (cf : ColumnFamily) (pre : Bytes) : ColumnFamily :=
  { cf with data := fun k => if pre <+: k then .absent else cf.data k }

/-- `remove_prefix` returns, and has removed the keys with the prefix and nothing else. -/
def RemovesExactly (i : InitializedRocksDb) (cfName : String) (pre : Bytes) : Prop :=
  ∃ cf, i.db.cfs cfName = some cf ∧
    i.removePrefix cfName pre = .ok { i with db := i.db.setCf cfName (withoutPrefix cf pre) }

variable {i : InitializedRocksDb} {cfName : String} {cf : ColumnFamily} {pre : Bytes}

/-- `remove_prefix` is exact where the range has an end. -/
theorem removePrefix_eq (hcf : i.db.cfs cfName = some cf) (hpre : pre ≠ [])
    (hlast : pre.getLast? ≠ some 255) :
    i.removePrefix cfName pre = .ok { i with db := i.db.setCf cfName (withoutPrefix cf pre) } := by
  obtain ⟨stop, hstop⟩ := (prefixEnd_isOk_iff hpre).mpr hlast
  unfold removePrefix withoutPrefix
  rw [if_neg hpre, Rocks.getCfHandle_eq hcf, ok_bind, hstop, ok_bind]
  simp only [between_iff_isPrefix hstop, pure_eq_ok]

/-- Where it has none, `remove_prefix` does not return. -/
theorem removePrefix_ne_ok (hcf : i.db.cfs cfName = some cf) (hpre : pre ≠ [])
    (hlast : pre.getLast? = some 255) (j : InitializedRocksDb) :
    i.removePrefix cfName pre ≠ .ok j := by
  intro hj
  unfold removePrefix at hj
  rw [if_neg hpre, Rocks.getCfHandle_eq hcf, ok_bind] at hj
  cases hstop : prefixEnd pre with
  | ok stop => exact (prefixEnd_isOk_iff hpre).mp ⟨stop, hstop⟩ hlast
  | error e =>
    rw [hstop] at hj
    cases hj

/-- The empty prefix: the column family is made anew. -/
theorem removePrefix_empty (hcf : i.db.cfs cfName = some cf) (hname : cfName ≠ "default")
    {opts : Options} (hopts : i.options.lookup cfName = some opts) :
    ∃ j, i.removePrefix cfName [] = .ok j ∧ ∀ name, j.db.cfs name =
      if name = cfName then some ⟨opts.mergeOperator.map Prod.snd, fun _ => .absent⟩
      else i.db.cfs name := by
  have hdrop : i.db.dropCf cfName = .ok ⟨fun n => if n = cfName then none else i.db.cfs n⟩ := by
    unfold Rocks.dropCf
    rw [hcf]
    exact if_neg hname
  unfold removePrefix
  rw [if_pos rfl, hopts]
  dsimp only
  rw [hdrop, ok_bind]
  unfold Rocks.createCf
  simp only [if_true, ok_bind, pure_eq_ok]
  refine ⟨_, rfl, fun name => ?_⟩
  by_cases h : name = cfName
  · simp [Rocks.setCf, h]
  · simp [Rocks.setCf, h]

/-! ## Maps -/

theorem get_eq (hcf : i.db.cfs cfName = some cf) (key : Bytes) :
    i.get cfName key = (cf.data key).value (cf.merge key) :=
  Rocks.get_eq hcf key

variable {K V IK N : Type} [Message K] [Message V] [FixedBytes IK] [FixedBytes N]

/-- `map_clear`, on an opened backend. -/
def mapClear (i : InitializedRocksDb) (handle : Handle IK N) : Result InitializedRocksDb := do
  let pre ← handle.serializeMetakeys
  i.removePrefix handle.id pre

/-- `map_get`, on an opened backend. -/
def mapGet (i : InitializedRocksDb) (handle : Handle IK N) (key : K) : Result (Option V) := do
  let key ← handle.serializeMetakeysAndKey key
  readValue (← i.get handle.id key)

end InitializedRocksDb

section maps

variable {K V IK N : Type} [Message K] [FixedBytes IK] [FixedBytes N]

/-- Of the maps that are read by `before` and `after`, the one of `h` is empty now and all others
are what they were. -/
structure ClearsOnly (h : Handle IK N) (before after : Handle IK N → K → Result (Option V)) :
    Prop where
  cleared : ∀ k, after h k = .ok none
  kept : ∀ h', h' ≠ h → ∀ k, after h' k = before h' k

variable [LawfulFixedBytes IK] [LawfulFixedBytes N]

namespace InitializedRocksDb

variable [Message V] {i j : InitializedRocksDb} {h : Handle IK N} {cf cf' : ColumnFamily}

theorem mapGet_eq (i : InitializedRocksDb) (h : Handle IK N) (k : K) :
    (i.mapGet h k : Result (Option V)) = i.get h.id (h.entryKey k) >>= readValue := by
  unfold mapGet
  rw [Handle.serializeMetakeysAndKey_eq, ok_bind]
  rfl

/-- An entry that is gone reads as none. -/
theorem mapGet_absent (hcf : i.db.cfs h.id = some cf) {k : K}
    (habsent : cf.data (h.entryKey k) = .absent) : i.mapGet h k = .ok (none : Option V) := by
  rw [mapGet_eq, get_eq hcf, habsent]
  rfl

/-- The entries of other states are read as before. -/
theorem mapGet_other (hsame : j.db.cfs h.id = i.db.cfs h.id) (k : K) :
    (j.mapGet h k : Result (Option V)) = i.mapGet h k := by
  rw [mapGet_eq, mapGet_eq]
  unfold get Rocks.get Rocks.getCfHandle
  rw [hsame]

/-- A column family that loses the keys with the metakeys of `h` loses the map of `h`. -/
theorem clearsOnly_withoutPrefix (hcf : i.db.cfs h.id = some cf)
    (hj : j.db = i.db.setCf h.id (withoutPrefix cf h.metakeys)) :
    ClearsOnly h (i.mapGet (K := K) (V := V)) j.mapGet := by
  have hself : j.db.cfs h.id = some (withoutPrefix cf h.metakeys) := by
    simp [hj, Rocks.setCf]
  refine ⟨fun k => ?_, fun h' hne k => ?_⟩
  · refine mapGet_absent hself (if_pos ?_)
    exact (metakeys_prefix_iff rfl).mpr rfl
  · by_cases hid : h'.id = h.id
    · have hkeep : (withoutPrefix cf h.metakeys).data (h'.entryKey k) = cf.data (h'.entryKey k) :=
        if_neg fun hpre => hne ((metakeys_prefix_iff hid.symm).mp hpre).symm
      rw [mapGet_eq, mapGet_eq, get_eq (hid ▸ hself), get_eq (hid ▸ hcf), hkeep]
      rfl
    · exact mapGet_other (by simp [hj, Rocks.setCf, hid]) k

/-- The map of a handle without metakeys is all there is in the column family. -/
theorem clearsOnly_empty (hcf : i.db.cfs h.id = some cf) (hname : h.id ≠ "default")
    (hopts : (i.options.lookup h.id).isSome) (hempty : h.metakeys = []) :
    ∃ j, i.mapClear h = .ok j ∧ ClearsOnly h (i.mapGet (K := K) (V := V)) j.mapGet := by
  obtain ⟨opts, hopts⟩ := Option.isSome_iff_exists.mp hopts
  obtain ⟨j, hj, hcfs⟩ := removePrefix_empty hcf hname hopts
  refine ⟨j, ?_, fun k => ?_, fun h' hne k => ?_⟩
  · unfold mapClear
    rw [Handle.serializeMetakeys_eq, ok_bind, hempty, hj]
  · exact mapGet_absent ((hcfs h.id).trans (if_pos rfl)) rfl
  · refine mapGet_other ?_ k
    rw [hcfs, if_neg]
    intro hid
    -- two handles of one state without metakeys are the same
    have hempty' : h'.metakeys = [] := by
      rw [← List.length_eq_zero_iff, Handle.length_metakeys] at hempty ⊢
      exact hempty
    exact hne (Handle.metakeys_inj hid (hempty'.trans hempty.symm))

end InitializedRocksDb

/-- `map_clear` of `Sled` clears the map, whatever its metakeys are. -/
theorem Sled.mapClear_only [Message V] (db : Sled) (h : Handle IK N) :
    ∃ db', db.mapClear h = .ok db' ∧ ClearsOnly h (db.mapGet (K := K) (V := V)) db'.mapGet := by
  have hget : ∀ (db : Sled) (h' : Handle IK N) (k : K),
      (db.mapGet h' k : Result (Option V)) = readValue (db.get h'.id (h'.entryKey k)) := by
    intro db h' k
    unfold mapGet
    rw [Handle.serializeMetakeysAndKey_eq, ok_bind]
    rfl
  refine ⟨db.removePrefix h.id h.metakeys, ?_, fun k => ?_, fun h' hne k => ?_⟩
  · unfold mapClear
    rw [Handle.serializeMetakeys_eq, ok_bind]
    rfl
  · rw [hget]
    unfold get
    rw [getElem?_removePrefix, if_pos ((metakeys_prefix_iff rfl).mpr rfl)]
    rfl
  · rw [hget, hget]
    unfold get
    by_cases hid : h'.id = h.id
    · rw [hid, getElem?_removePrefix, if_neg]
      exact fun hpre => hne ((metakeys_prefix_iff hid.symm).mp hpre).symm
    · simp [removePrefix, tree, setTree, hid]

/-- `map_clear` of `InMemory` clears the map, whatever its metakeys are. -/
theorem InMemory.mapClear_only [DecidableEq K] {ids : List String} {db : InMemory V}
    {maps : Handle IK N → FinMap K V} (hdb : HoldsMaps ids db maps) {h : Handle IK N}
    (hid : h.id ∈ ids) :
    ∃ db', db.mapClear h = .ok db' ∧ ClearsOnly h (db.mapGet (K := K)) db'.mapGet := by
  have hget : ∀ (db : InMemory V) (h' : Handle IK N) (k : K),
      db.mapGet h' k = db.get h'.id >>= fun m => pure m[h'.entryKey k]? := by
    intro db h' k
    unfold mapGet
    rw [Handle.serializeMetakeysAndKey_eq, ok_bind]
    rfl
  obtain ⟨m, hm, hf⟩ := hdb h.id hid
  obtain ⟨m', hm', hlook⟩ := retain_eq (length_of_family hf)
  have hset : (db.set h.id m').data h.id = some m' := by simp [set]
  refine ⟨db.set h.id m', ?_, fun k => ?_, fun h' hne k => ?_⟩
  · unfold mapClear
    rw [Handle.serializeMetakeys_eq, ok_bind, get_eq hm, ok_bind, hm']
    rfl
  · rw [hget, get_eq hset, ok_bind, hlook, if_pos ((metakeys_prefix_iff rfl).mpr rfl)]
    rfl
  · rw [hget, hget]
    by_cases heq : h'.id = h.id
    · rw [heq, get_eq hset, get_eq hm, ok_bind, ok_bind, hlook, if_neg]
      exact fun hpre => hne ((metakeys_prefix_iff heq.symm).mp hpre).symm
    · have hother : (db.set h.id m').get h'.id = db.get h'.id := by simp [get, set, heq]
      rw [hother]

namespace InitializedRocksDb

variable [Message V]

/-- **Rocks clears a map exactly if its metakeys do not end in `0xFF`.** On every contents of a
column family and for every non-empty prefix, `remove_prefix` returns and removes the keys with the
prefix and no others if and only if the last byte of the prefix is not `0xFF`; so for `map_clear`
and every handle with metakeys. Without metakeys `map_clear` drops and re-creates the column family,
which is exact for every registered state; and `Sled` and `InMemory` always clear exactly the map.
-/
theorem remove_prefix_exact_iff [DecidableEq K] {i : InitializedRocksDb} {id : String}
    {cf : ColumnFamily} (hcf : i.db.cfs id = some cf) :
    (∀ pre, pre ≠ [] → (RemovesExactly i id pre ↔ pre.getLast? ≠ some 255)) ∧
    (∀ h : Handle IK N, h.id = id → h.metakeys ≠ [] →
      ((∃ j, i.mapClear h = .ok j ∧ ClearsOnly h (i.mapGet (K := K) (V := V)) j.mapGet) ↔
        h.metakeys.getLast? ≠ some 255)) ∧
    (∀ h : Handle IK N, h.id = id → h.metakeys = [] → id ≠ "default" →
      (i.options.lookup id).isSome →
      ∃ j, i.mapClear h = .ok j ∧ ClearsOnly h (i.mapGet (K := K) (V := V)) j.mapGet) ∧
    (∀ (db : Sled) (h : Handle IK N),
      ∃ db', db.mapClear h = .ok db' ∧ ClearsOnly h (db.mapGet (K := K) (V := V)) db'.mapGet) ∧
    ∀ (ids : List String) (db : InMemory V) (maps : Handle IK N → FinMap K V) (h : Handle IK N),
      db.HoldsMaps ids maps → h.id ∈ ids →
      ∃ db', db.mapClear h = .ok db' ∧ ClearsOnly h (db.mapGet (K := K)) db'.mapGet := by
  refine ⟨fun pre hpre => ⟨?_, fun hlast => ?_⟩, fun h hid hpre => ⟨?_, fun hlast => ?_⟩, ?_,
    Sled.mapClear_only, fun ids db maps h hdb hid => InMemory.mapClear_only hdb hid⟩
  · rintro ⟨_, -, hj⟩ hlast
    exact removePrefix_ne_ok hcf hpre hlast _ hj
  · exact ⟨cf, hcf, removePrefix_eq hcf hpre hlast⟩
  · rintro ⟨j, hj, -⟩ hlast
    unfold mapClear at hj
    rw [Handle.serializeMetakeys_eq, ok_bind, hid] at hj
    exact removePrefix_ne_ok hcf hpre hlast j hj
  · subst hid
    refine ⟨{ i with db := i.db.setCf h.id (withoutPrefix cf h.metakeys) }, ?_,
      clearsOnly_withoutPrefix hcf rfl⟩
    unfold mapClear
    rw [Handle.serializeMetakeys_eq, ok_bind]
    exact removePrefix_eq hcf hpre hlast
  · rintro h rfl hempty hname hopts
    exact clearsOnly_empty hcf hname hopts hempty

/-- A state with the maps of the item keys `0x01` and `0xFF`, an entry in each. -/
def twoMapsCf : ColumnFamily :=
  ⟨none, fun k => if k = [0x01, 2, 8, 1] ∨ k = [0xFF, 2, 8, 1] then .put [2, 8, 1] else .absent⟩

/-- The backend with this state. -/
def twoMaps : InitializedRocksDb := ⟨Rocks.create.setCf "m" twoMapsCf, [("m", Options.default)]⟩

/-- The handle of the map of an item key in it. -/
def byteHandle (b : Prim 1) : Handle (Prim 1) Unit := ⟨"m", b, ()⟩

theorem remove_prefix_exact_iff_one :
    twoMaps.db.cfs "m" = some twoMapsCf ∧ RemovesExactly twoMaps "m" [0x01] ∧
      ∃ j, twoMaps.mapClear (byteHandle 1) = .ok j ∧
        ClearsOnly (byteHandle 1) (twoMaps.mapGet (K := Bool) (V := Bool)) j.mapGet := by
  have hcf : twoMaps.db.cfs "m" = some twoMapsCf := rfl
  have h := @remove_prefix_exact_iff Bool Bool (Prim 1) Unit _ _ _ _ _ _ _ _ _ _ hcf
  exact ⟨hcf, (h.1 [0x01] (by decide)).mpr (by decide),
    (h.2.1 (byteHandle 1) rfl (by decide)).mpr (by decide)⟩

/-- **The map of the item key `0xFF` cannot be cleared.** -/
theorem remove_prefix_overflows :
    twoMaps.mapClear (byteHandle 255) =
        .error (.panic "attempt to add with overflow") ∧
      ¬RemovesExactly twoMaps "m" [0xFF] ∧
      ¬∃ j, twoMaps.mapClear (byteHandle 255) = .ok j ∧
        ClearsOnly (byteHandle 255) (twoMaps.mapGet (K := Bool) (V := Bool)) j.mapGet := by
  have hpanic : twoMaps.mapClear (byteHandle 255) =
      .error (.panic "attempt to add with overflow") := rfl
  refine ⟨hpanic, ?_, ?_⟩
  · rintro ⟨_, -, hj⟩
    cases hj
  · rintro ⟨j, hj, -⟩
    rw [hpanic] at hj
    cases hj

end InitializedRocksDb

end maps

end Arcon.State
