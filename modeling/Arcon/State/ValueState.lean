import Arcon.State.Folding
import Arcon.Lib.Reference

/-!
# Value state (`rocks/value_ops.rs`, `sled/value_ops.rs`, `in_memory/value_ops.rs`)

A value state has one optional value for each handle. `value_set` returns the value before;
`value_fast_set` does not read it. The backends differ in how they come by the old value: RocksDB
has no `put` that returns it and reads it first, sled returns it from the insertion and decodes it
afterwards, the hash map hands out the old box. The operations of Faster are in `FasterOps`.

* `ValueCall.register`: a register, the object a value state is for its callers.
* `Rocks.value_step`, `Sled.value_step`, `InMemory.value_step`, `Faster.value_step`: a call on a
  store.
* **`value_refines_register`**: on all four backends the replies of every run are those of a
  register for every handle.
-/

namespace Arcon.State

open FixedBytes Slots Merging

variable {T IK N : Type} [Message T] [FixedBytes IK] [FixedBytes N]

/-- A register that may be empty. -/
def ValueCall.register {T : Type} : Reference (Option T) (ValueCall T) ValueCall.Reply where
  next v
    | .clear => none
    | .get => v
    | .set value | .fastSet value => some value
  reply v
    | .clear | .fastSet _ => ()
    | .get | .set _ => v

/-- A call on one handle. -/
abbrev ValueOp (T IK N : Type) := Handle IK N × ValueCall T

/-! ## RocksDB -/

namespace Rocks

section ops

variable (db : Rocks) (handle : Handle IK N)

/-- `register_value_handle`: the column family has no merge operator. -/
def registerValueHandle (db : Rocks) (id : String) : Rocks :=
  db.createColumnFamilyIfDoesntExist id none

/-- `value_clear`. -/
def valueClear : Result Rocks := do
  let key ← handle.serializeMetakeys
  db.remove handle.id key

/-- `value_get`. -/
def valueGet : Result (Option T) := do
  let key ← handle.serializeMetakeys
  readValue (← db.get handle.id key)

/-- `value_set`. -/
def valueSet (value : T) : Result (Rocks × Option T) := do
  let key ← handle.serializeMetakeys
  let old ← readValue (← db.get handle.id key)
  let db ← db.put handle.id key (protobuf.serialize value)
  pure (db, old)

/-- `value_fast_set`. -/
def valueFastSet (value : T) : Result Rocks := do
  let key ← handle.serializeMetakeys
  db.put handle.id key (protobuf.serialize value)

/-- A call. -/
def callValue : (c : ValueCall T) → Result (Rocks × c.Reply)
  | .clear => do
    let db ← db.valueClear handle
    pure (db, ())
  | .get => do
    let value ← db.valueGet handle
    pure (db, value)
  | .set value => db.valueSet handle value
  | .fastSet value => do
    let db ← db.valueFastSet handle value
    pure (db, ())

end ops

/-- A database with the handles of the states `ids` registered. -/
def values (ids : List String) : Rocks := ids.foldl registerValueHandle create

/-- The entry of a value: written, or not there; nothing is ever merged. -/
def ValueEntry (e : Option RocksMerge × Pending Bytes) (v : Option T) : Prop :=
  e.2 = (v.map protobuf.serialize).elim .absent .put

variable {ids : List String} {db : Rocks}

theorem keeps_values (ids : List String) :
    Keeps slot ValueEntry (fun h => h.id ∈ ids) (values ids)
      (fun _ : Handle IK N => (none : Option T)) := by
  intro h hid
  have hreg : ∀ db i id, (registerValueHandle db i).cfs id = _ := fun db i id =>
    createColumnFamilyIfDoesntExist_cfs db i id none
  refine ⟨(none, .absent), ?_, rfl⟩
  unfold slot values
  rw [foldl_getOrInsert hreg hid (.inl rfl)]
  rfl

/-- What is read at the key of a value. -/
theorem get_value {h : Handle IK N} {cf : ColumnFamily} {v : Option T}
    (hcf : db.cfs h.id = some cf)
    (hv : cf.data h.metakeys = (v.map protobuf.serialize).elim .absent .put) :
    db.get h.id h.metakeys = .ok (v.map protobuf.serialize) := by
  rw [get_eq hcf, hv]
  cases v <;> rfl

variable [LawfulFixedBytes IK] [LawfulFixedBytes N] [LawfulMessage T]

/-- **A call does on the entry what it does on the register.** -/
theorem value_step (reg : Handle IK N → Prop) (h : Handle IK N) (c : ValueCall T)
    {e : Option RocksMerge × Pending Bytes} {v : Option T} (he : db.slot h = some e)
    (hv : ValueEntry e v) :
    ∃ db' e', db.callValue h c = .ok (db', ValueCall.register.reply v c) ∧
      Replaces slot reg h e' db db' ∧ ValueEntry e' (ValueCall.register.next v c) := by
  obtain ⟨cf, hcf, rfl⟩ := Option.map_eq_some_iff.mp he
  have hget := get_value hcf hv
  cases c with
  | clear =>
    refine ⟨_, _, ?_, replaces_setCf hcf .absent reg, rfl⟩
    simp only [callValue, valueClear, Handle.serializeMetakeys_eq, ok_bind, remove_eq hcf,
      pure_eq_ok]
    rfl
  | get =>
    refine ⟨db, _, ?_, ⟨he, fun _ _ _ => rfl⟩, hv⟩
    simp only [callValue, valueGet, Handle.serializeMetakeys_eq, ok_bind, hget, readValue_map,
      pure_eq_ok]
    rfl
  | set value =>
    refine ⟨_, _, ?_, replaces_setCf hcf (.put (protobuf.serialize value)) reg, rfl⟩
    simp only [callValue, valueSet, Handle.serializeMetakeys_eq, ok_bind, hget, readValue_map,
      put_eq hcf, pure_eq_ok]
    rfl
  | fastSet value =>
    refine ⟨_, _, ?_, replaces_setCf hcf (.put (protobuf.serialize value)) reg, rfl⟩
    simp only [callValue, valueFastSet, Handle.serializeMetakeys_eq, ok_bind, put_eq hcf,
      pure_eq_ok]
    rfl

end Rocks

/-! ## sled -/

namespace Sled

section ops

variable (db : Sled) (handle : Handle IK N)

/-- `value_clear`. -/
def valueClear : Result Sled := do
  let key ← handle.serializeMetakeys
  pure (db.remove handle.id key).2

/-- `value_get`. -/
def valueGet : Result (Option T) := do
  let key ← handle.serializeMetakeys
  readValue (db.get handle.id key)

/-- `value_set`: the old bytes are decoded after the new ones are in. -/
def valueSet (value : T) : Result (Sled × Option T) := do
  let key ← handle.serializeMetakeys
  let (old, db) := db.put handle.id key (protobuf.serialize value)
  let old ← readValue old
  pure (db, old)

/-- `value_fast_set`. -/
def valueFastSet (value : T) : Result Sled := do
  let key ← handle.serializeMetakeys
  pure (db.put handle.id key (protobuf.serialize value)).2

/-- A call. -/
def callValue : (c : ValueCall T) → Result (Sled × c.Reply)
  | .clear => do
    let db ← db.valueClear handle
    pure (db, ())
  | .get => do
    let value ← db.valueGet handle
    pure (db, value)
  | .set value => db.valueSet handle value
  | .fastSet value => do
    let db ← db.valueFastSet handle value
    pure (db, ())

end ops

/-- The value of a handle in its tree. -/
def ValueEntry (e : Option SledMerge × Option Bytes) (v : Option T) : Prop :=
  e.2 = v.map protobuf.serialize

theorem keeps_create (reg : Handle IK N → Prop) :
    Keeps slot ValueEntry reg create (fun _ : Handle IK N => (none : Option T)) := by
  intro h _
  exact ⟨_, rfl, Std.TreeMap.getElem?_emptyc⟩

variable [LawfulFixedBytes IK] [LawfulFixedBytes N] [LawfulMessage T]

/-- **A call does on the tree what it does on the register.** -/
theorem value_step {db : Sled} (reg : Handle IK N → Prop) (h : Handle IK N) (c : ValueCall T)
    {e : Option SledMerge × Option Bytes} {v : Option T} (he : db.slot h = some e)
    (hv : ValueEntry e v) :
    ∃ db' e', db.callValue h c = .ok (db', ValueCall.register.reply v c) ∧
      Replaces slot reg h e' db db' ∧ ValueEntry e' (ValueCall.register.next v c) := by
  cases he
  have hget : (db.tree h.id).map[h.metakeys]? = v.map protobuf.serialize := hv
  cases c with
  | clear =>
    refine ⟨_, _, ?_, replaces_setTree (fun k hk => Tree.erase_of_ne hk) reg,
      Std.TreeMap.getElem?_erase_self⟩
    simp only [callValue, valueClear, Handle.serializeMetakeys_eq, ok_bind, pure_eq_ok]
    rfl
  | get =>
    refine ⟨db, _, ?_, ⟨rfl, fun _ _ _ => rfl⟩, hv⟩
    simp only [callValue, valueGet, Handle.serializeMetakeys_eq, ok_bind, get, hget, readValue_map,
      pure_eq_ok]
    rfl
  | set value =>
    refine ⟨_, _, ?_, replaces_setTree
      (fun k hk => Tree.insert_of_ne hk (protobuf.serialize value)) reg,
      Std.TreeMap.getElem?_insert_self⟩
    simp only [callValue, valueSet, Handle.serializeMetakeys_eq, ok_bind, put, hget, readValue_map,
      pure_eq_ok]
    rfl
  | fastSet value =>
    refine ⟨_, _, ?_, replaces_setTree
      (fun k hk => Tree.insert_of_ne hk (protobuf.serialize value)) reg,
      Std.TreeMap.getElem?_insert_self⟩
    simp only [callValue, valueFastSet, Handle.serializeMetakeys_eq, ok_bind, pure_eq_ok]
    rfl

end Sled

/-! ## In memory -/

namespace InMemory

variable {T : Type}

section ops

variable (db : InMemory T) (handle : Handle IK N)

/-- `value_clear`. -/
def valueClear : Result (InMemory T) := do
  let m ← db.get handle.id
  let key ← handle.serializeMetakeys
  pure (db.set handle.id (m.erase key))

/-- `value_get`. -/
def valueGet : Result (Option T) := do
  let m ← db.get handle.id
  let key ← handle.serializeMetakeys
  pure m[key]?

/-- `value_set`. -/
def valueSet (value : T) : Result (InMemory T × Option T) := do
  let key ← handle.serializeMetakeys
  let m ← db.get handle.id
  pure (db.set handle.id (m.insert key value), m[key]?)

/-- `value_fast_set`. -/
def valueFastSet (value : T) : Result (InMemory T) := do
  let key ← handle.serializeMetakeys
  let m ← db.get handle.id
  pure (db.set handle.id (m.insert key value))

/-- A call. -/
def callValue : (c : ValueCall T) → Result (InMemory T × c.Reply)
  | .clear => do
    let db ← db.valueClear handle
    pure (db, ())
  | .get => do
    let value ← db.valueGet handle
    pure (db, value)
  | .set value => db.valueSet handle value
  | .fastSet value => do
    let db ← db.valueFastSet handle value
    pure (db, ())

end ops

theorem keeps_values (ids : List String) :
    Keeps slot Eq (fun h => h.id ∈ ids) (registered T ids)
      (fun _ : Handle IK N => (none : Option T)) := by
  intro h hid
  refine ⟨none, ?_, rfl⟩
  unfold slot
  rw [registered_data T hid]
  exact congrArg some Std.HashMap.getElem?_empty

variable [LawfulFixedBytes IK] [LawfulFixedBytes N]

/-- **A call does on the hash map what it does on the register.** -/
theorem value_step {db : InMemory T} (reg : Handle IK N → Prop) (h : Handle IK N)
    (c : ValueCall T) {v : Option T} (he : db.slot h = some v) :
    ∃ db', db.callValue h c = .ok (db', ValueCall.register.reply v c) ∧
      Replaces slot reg h (ValueCall.register.next v c) db db' := by
  obtain ⟨m, hm, rfl⟩ := Option.map_eq_some_iff.mp he
  have hget := get_eq hm
  have hput : ∀ value : T, Replaces slot reg h (some value) db
      (db.set h.id (m.insert h.metakeys value)) := by
    intro value
    have hr := replaces_set (u := m.insert h.metakeys value) hm (fun k hk => ?_) reg
    · rwa [Std.HashMap.getElem?_insert_self] at hr
    · rw [Std.HashMap.getElem?_insert, if_neg]
      simpa using fun heq => hk heq.symm
  cases c with
  | clear =>
    have hr := replaces_set (u := m.erase h.metakeys) hm (fun k hk => ?_) reg
    · rw [Std.HashMap.getElem?_erase_self] at hr
      refine ⟨_, ?_, hr⟩
      simp only [callValue, valueClear, Handle.serializeMetakeys_eq, ok_bind, hget, pure_eq_ok]
      rfl
    · rw [Std.HashMap.getElem?_erase, if_neg]
      simpa using fun heq => hk heq.symm
  | get =>
    refine ⟨db, ?_, ⟨he, fun _ _ _ => rfl⟩⟩
    simp only [callValue, valueGet, Handle.serializeMetakeys_eq, ok_bind, hget, pure_eq_ok]
    rfl
  | set value =>
    refine ⟨_, ?_, hput value⟩
    simp only [callValue, valueSet, Handle.serializeMetakeys_eq, ok_bind, hget, pure_eq_ok]
    rfl
  | fastSet value =>
    refine ⟨_, ?_, hput value⟩
    simp only [callValue, valueFastSet, Handle.serializeMetakeys_eq, ok_bind, hget, pure_eq_ok]
    rfl

end InMemory

/-! ## FASTER -/

namespace Faster

/-- The record of a value. -/
def ValueEntry (r : Option FasterRecord) (v : Option T) : Prop :=
  r = v.map fun value => .bytes (protobuf.serialize value)

theorem keeps_values {reg : Handle IK N → Prop} :
    Keeps slot ValueEntry reg create (fun _ : Handle IK N => (none : Option T)) :=
  fun _ _ => ⟨none, rfl, rfl⟩

variable [LawfulFixedBytes IK] [LawfulFixedBytes N] [LawfulMessage T]

/-- **A call does on the record what it does on the register.** -/
theorem value_step {f : Faster} {ids : List String}
    (hfits : ∀ id ∈ ids, id.toUTF8.data.toList.length ≤ u64Max) {h : Handle IK N}
    (hid : h.id ∈ ids) (c : ValueCall T) {r : Option FasterRecord} {v : Option T}
    (hr : f.slot h = some r) (hv : ValueEntry r v) :
    ∃ f' r', c.exec h f = .ok (f', ValueCall.register.reply v c) ∧
      Replaces slot (fun h => h.id ∈ ids) h r' f f' ∧
      ValueEntry r' (ValueCall.register.next v c) := by
  cases hr
  have hget : f.get h.idMetakeys = .ok (v.map protobuf.serialize) := by
    unfold get
    rw [show f.db h.idMetakeys = _ from hv]
    cases v <;> rfl
  cases c with
  | clear =>
    refine ⟨_, _, ?_, replaces_setRecord hfits hid none, rfl⟩
    simp only [ValueCall.exec, valueClear, clear, noReply, Handle.serializeIdAndMetakeys_eq,
      ok_bind, pure_eq_ok]
    rfl
  | get =>
    refine ⟨f, _, ?_, ⟨rfl, fun _ _ _ => rfl⟩, hv⟩
    simp only [ValueCall.exec, valueGet, readOnly, Handle.serializeIdAndMetakeys_eq, ok_bind, hget,
      readValue_map, pure_eq_ok]
    rfl
  | set value =>
    refine ⟨_, _, ?_, replaces_setRecord hfits hid (some (.bytes (protobuf.serialize value))), rfl⟩
    simp only [ValueCall.exec, valueSet, Handle.serializeIdAndMetakeys_eq, ok_bind, hget,
      readValue_map, pure_eq_ok]
    rfl
  | fastSet value =>
    refine ⟨_, _, ?_, replaces_setRecord hfits hid (some (.bytes (protobuf.serialize value))), rfl⟩
    simp only [ValueCall.exec, valueFastSet, noReply, Handle.serializeIdAndMetakeys_eq, ok_bind,
      pure_eq_ok]
    rfl

end Faster

/-! ## Runs -/

section runs

variable [DecidableEq IK] [DecidableEq N] [LawfulFixedBytes IK] [LawfulFixedBytes N]
  [LawfulMessage T]

/-- One call of a run. -/
def Rocks.stepValue {T IK N : Type} [Message T] [FixedBytes IK] [FixedBytes N]
    (o : ValueOp T IK N) (db : Rocks) : Result (Rocks × o.2.Reply) := db.callValue o.1 o.2

@[inherit_doc Rocks.stepValue]
def Sled.stepValue {T IK N : Type} [Message T] [FixedBytes IK] [FixedBytes N]
    (o : ValueOp T IK N) (db : Sled) : Result (Sled × o.2.Reply) := db.callValue o.1 o.2

@[inherit_doc Rocks.stepValue]
def InMemory.stepValue {T IK N : Type} [FixedBytes IK] [FixedBytes N] (o : ValueOp T IK N)
    (db : InMemory T) : Result (InMemory T × o.2.Reply) := db.callValue o.1 o.2

@[inherit_doc Rocks.stepValue]
def Faster.stepValue {T IK N : Type} [Message T] [FixedBytes IK] [FixedBytes N]
    (o : ValueOp T IK N) (f : Faster) : Result (Faster × o.2.Reply) := o.2.exec o.1 f

/-- The calls of a run with the replies of a register for every handle. -/
def ValueOp.replies {T IK N : Type} [DecidableEq IK] [DecidableEq N] (ops : List (ValueOp T IK N)) :
    List (Σ o : ValueOp T IK N, o.2.Reply) :=
  ValueCall.register.slots.log (fun _ => none) ops

/-- **Value state is a register.** For every sequence of calls on the handles of registered states,
no call fails on any of the four backends, and each call returns what it returns on a register that
belongs to its handle alone. -/
theorem value_refines_register (ids : List String)
    (hfits : ∀ id ∈ ids, id.toUTF8.data.toList.length ≤ u64Max) (ops : List (ValueOp T IK N))
    (hids : ∀ o ∈ ops, o.1.id ∈ ids) :
    (∃ db, Footprint.run Rocks.stepValue (Rocks.values ids) ops = .ok (db, ValueOp.replies ops)) ∧
    (∃ db, Footprint.run Sled.stepValue Sled.create ops = .ok (db, ValueOp.replies ops)) ∧
    (∃ db, Footprint.run InMemory.stepValue (InMemory.registered T ids) ops =
      .ok (db, ValueOp.replies ops)) ∧
    ∃ f, Footprint.run Faster.stepValue Faster.create ops = .ok (f, ValueOp.replies ops) := by
  have hgood : ∀ done o rest, ops = done ++ o :: rest → o.1.id ∈ ids ∧ True :=
    fun done o rest heq => ⟨hids o (by simp [heq]), trivial⟩
  refine ⟨?_, ?_, ?_, ?_⟩
  · obtain ⟨db, hrun, _⟩ := Reference.run_slots Rocks.stepValue (G := fun _ _ => True)
      (fun db h c e v _ he hv _ => Rocks.value_step _ h c he hv) ops (Rocks.keeps_values ids) hgood
    exact ⟨db, hrun⟩
  · obtain ⟨db, hrun, _⟩ := Reference.run_slots Sled.stepValue (G := fun _ _ => True)
      (fun db h c e v _ he hv _ => Sled.value_step _ h c he hv) ops
      (Sled.keeps_create fun h => h.id ∈ ids) hgood
    exact ⟨db, hrun⟩
  · obtain ⟨db, hrun, _⟩ := Reference.run_slots InMemory.stepValue (G := fun _ _ => True)
      (fun db h c e v _ he hv _ => by
        subst hv
        obtain ⟨db', hcall, hrep⟩ := InMemory.value_step _ h c he
        exact ⟨db', _, hcall, hrep, rfl⟩)
      ops (InMemory.keeps_values ids) hgood
    exact ⟨db, hrun⟩
  · obtain ⟨f, hrun, _⟩ := Reference.run_slots Faster.stepValue (G := fun _ _ => True)
      (fun f h c r v hid hr hv _ => Faster.value_step hfits hid c hr hv) ops
      Faster.keeps_values hgood
    exact ⟨f, hrun⟩

end runs

/-- Calls on two namespaces of one state. -/
def registerRun : List (ValueOp Bool Unit Bool) :=
  [(⟨"v", (), true⟩, .set true), (⟨"v", (), false⟩, .get), (⟨"v", (), true⟩, .set false),
   (⟨"v", (), false⟩, .fastSet true), (⟨"v", (), true⟩, .clear), (⟨"v", (), false⟩, .get)]

theorem value_refines_register_two :
    (∀ o ∈ registerRun, o.1.id ∈ ["v"]) ∧
      ∃ db, Footprint.run Sled.stepValue Sled.create registerRun =
        .ok (db, ValueOp.replies registerRun) := by
  have hids : ∀ o ∈ registerRun, o.1.id ∈ ["v"] := by decide
  have hfits : ∀ id ∈ ["v"], id.toUTF8.data.toList.length ≤ u64Max := by decide
  exact ⟨hids, (value_refines_register ["v"] hfits registerRun hids).2.1⟩

end Arcon.State
