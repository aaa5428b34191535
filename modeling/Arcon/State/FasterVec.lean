import Arcon.State.ValueState

/-!
# List state on Faster (`faster/vec_ops.rs`)

A list is one record, and `rmw` changes it inside the store. The first `rmw` of a key stores the
modification as it is: after one `vec_append` the record is a `Push`, after `vec_add_all` a `Value`,
and `elems` reads both as lists. Nothing is ever removed from a list but all of it, so the two
variants that stand for no list do not occur here, unlike in the key lists of maps.

* `VecCall.list`: a list, the object a list state is for its callers.
* **`vec_refines_list_faster`**: the replies of every run are those of a list for every handle.
-/

namespace Arcon.State

open FixedBytes Slots

/-- A list. -/
def VecCall.list {T : Type} : Reference (List T) (VecCall T) VecCall.Reply where
  next l
    | .clear => []
    | .append value => l ++ [value]
    | .set value => value
    | .addAll values => l ++ values
    | .get | .iter | .len | .isEmpty => l
  reply l
    | .clear | .append _ | .set _ | .addAll _ => ()
    | .get => l
    | .iter => l.map .ok
    | .len => l.length
    | .isEmpty => l.isEmpty

variable {T IK N : Type} [Message T]

namespace Faster

/-- The record of a list: there may be none for the empty list. -/
def VecEntry (r : Option FasterRecord) (l : List T) : Prop :=
  (r = none ∧ l = []) ∨ ∃ v, r = some (.vecOps v) ∧ v.elems = .ok (l.map protobuf.serialize)

variable {f : Faster}

/-- What `get_vec` finds. -/
theorem getVec_entry {key : Bytes} {l : List T} (h : VecEntry (f.db key) l) :
    ∃ r, f.getVec key = .ok r ∧ (r = some (l.map protobuf.serialize) ∨ (r = none ∧ l = [])) := by
  obtain ⟨hnone, hl⟩ | ⟨v, hv, helems⟩ := h
  · exact ⟨none, by unfold getVec; rw [hnone], .inr ⟨rfl, hl⟩⟩
  · refine ⟨_, ?_, .inl rfl⟩
    unfold getVec
    rw [hv]
    simp only [helems, ok_bind, pure_eq_ok]

/-- `rmw` appends what its modification stands for. -/
theorem rmw_entry {key : Bytes} {l : List T} (values : List T) {m : FasterVecOps}
    (h : VecEntry (f.db key) l) (hm : m.elems = .ok (values.map protobuf.serialize))
    (hrmw : ∀ old res, FasterVecOps.elems old = .ok res →
      old.rmw m = .ok (.value (res ++ values.map protobuf.serialize))) :
    ∃ r, f.rmw key m = .ok (f.set key r) ∧ VecEntry r (l ++ values) := by
  obtain ⟨hnone, rfl⟩ | ⟨v, hv, helems⟩ := h
  · refine ⟨some (.vecOps m), ?_, .inr ⟨m, rfl, hm⟩⟩
    unfold rmw
    rw [hnone]
  · refine ⟨some (.vecOps (.value ((l ++ values).map protobuf.serialize))), ?_, .inr ⟨_, rfl, rfl⟩⟩
    unfold rmw
    rw [hv]
    simp only [hrmw v _ helems, ok_bind, pure_eq_ok, List.map_append]

/-- Decoding what was encoded. -/
theorem mapM_deserialize [LawfulMessage T] (l : List T) :
    (l.map protobuf.serialize).mapM (protobuf.deserialize (T := T)) = .ok l := by
  induction l with
  | nil => rfl
  | cons a l ih =>
    rw [List.map_cons, List.mapM_cons, ih]
    simp only [protobuf.deserialize_serialize, ok_bind, pure_eq_ok]

/-- The same one by one, as the iterator does it. -/
theorem map_deserialize [LawfulMessage T] (l : List T) :
    (l.map protobuf.serialize).map (protobuf.deserialize (T := T)) = l.map .ok := by
  rw [List.map_map]
  exact List.map_congr_left fun a _ => protobuf.deserialize_serialize a

variable [FixedBytes IK] [FixedBytes N] [LawfulFixedBytes IK] [LawfulFixedBytes N]
  [LawfulMessage T]

/-- **A call does on the record what it does on the list.** -/
theorem vec_step {ids : List String}
    (hfits : ∀ id ∈ ids, id.toUTF8.data.toList.length ≤ u64Max) {h : Handle IK N}
    (hid : h.id ∈ ids) (c : VecCall T) {r : Option FasterRecord} {l : List T}
    (hr : f.slot h = some r) (hl : VecEntry r l) :
    ∃ f' r', c.exec h f = .ok (f', VecCall.list.reply l c) ∧
      Replaces slot (fun h => h.id ∈ ids) h r' f f' ∧ VecEntry r' (VecCall.list.next l c) := by
  cases hr
  obtain ⟨stored, hget, hstored⟩ := getVec_entry hl
  have hsame : Replaces slot (fun h => h.id ∈ ids) h (f.db h.idMetakeys) f f :=
    ⟨rfl, fun _ _ _ => rfl⟩
  cases c with
  | clear =>
    refine ⟨_, _, ?_, replaces_setRecord hfits hid none, .inl ⟨rfl, rfl⟩⟩
    simp only [VecCall.exec, vecClear, clear, noReply, Handle.serializeIdAndMetakeys_eq, ok_bind,
      pure_eq_ok]
    rfl
  | append value =>
    obtain ⟨r', hrun, hentry⟩ := rmw_entry [value]
      (m := .push (protobuf.serialize value)) hl rfl fun old res hres => by
        simp only [FasterVecOps.rmw, hres, ok_bind, pure_eq_ok]
        rfl
    refine ⟨_, r', ?_, replaces_setRecord hfits hid r', hentry⟩
    simp only [VecCall.exec, vecAppend, vecPush, noReply, Handle.serializeIdAndMetakeys_eq, ok_bind,
      hrun, pure_eq_ok]
    rfl
  | addAll values =>
    obtain ⟨r', hrun, hentry⟩ := rmw_entry values
      (m := .value (values.map protobuf.serialize)) hl rfl fun old res hres => by
        simp only [FasterVecOps.rmw, hres, ok_bind, pure_eq_ok]
    refine ⟨_, r', ?_, replaces_setRecord hfits hid r', hentry⟩
    simp only [VecCall.exec, vecAddAll, vecPushAll, noReply, Handle.serializeIdAndMetakeys_eq,
      ok_bind, hrun, pure_eq_ok]
    rfl
  | set value =>
    refine ⟨_, _, ?_, replaces_setRecord hfits hid
      (some (.vecOps (.value (value.map protobuf.serialize)))), .inr ⟨_, rfl, rfl⟩⟩
    simp only [VecCall.exec, vecSetAll, noReply, Handle.serializeIdAndMetakeys_eq, ok_bind,
      pure_eq_ok]
    rfl
  | get =>
    refine ⟨f, _, ?_, hsame, hl⟩
    simp only [VecCall.exec, vecGet, readOnly, Handle.serializeIdAndMetakeys_eq, ok_bind, hget]
    obtain rfl | ⟨rfl, rfl⟩ := hstored
    · simp only [mapM_deserialize, pure_eq_ok]
      rfl
    · rfl
  | iter =>
    refine ⟨f, _, ?_, hsame, hl⟩
    simp only [VecCall.exec, vecIter, readOnly, Handle.serializeIdAndMetakeys_eq, ok_bind, hget]
    obtain rfl | ⟨rfl, rfl⟩ := hstored
    · simp only [map_deserialize, pure_eq_ok]
      rfl
    · rfl
  | len =>
    refine ⟨f, _, ?_, hsame, hl⟩
    simp only [VecCall.exec, vecLen, readOnly, Handle.serializeIdAndMetakeys_eq, ok_bind, hget,
      pure_eq_ok]
    obtain rfl | ⟨rfl, rfl⟩ := hstored
    · simp only [Option.map_some, Option.getD_some, List.length_map]
      rfl
    · rfl
  | isEmpty =>
    refine ⟨f, _, ?_, hsame, hl⟩
    simp only [VecCall.exec, vecIsEmpty, readOnly, Handle.serializeIdAndMetakeys_eq, ok_bind, hget,
      pure_eq_ok]
    obtain rfl | ⟨rfl, rfl⟩ := hstored
    · simp only [Option.map_some, Option.getD_some, List.isEmpty_map]
      rfl
    · rfl

end Faster

/-! ## Runs -/

/-- One call of a run. -/
def Faster.stepVec {T IK N : Type} [Message T] [FixedBytes IK] [FixedBytes N]
    (o : Handle IK N × VecCall T) (f : Faster) : Result (Faster × o.2.Reply) := o.2.exec o.1 f

theorem Faster.keeps_lists {reg : Handle IK N → Prop} [FixedBytes IK] [FixedBytes N] :
    Keeps slot VecEntry reg create (fun _ : Handle IK N => ([] : List T)) :=
  fun _ _ => ⟨none, rfl, .inl ⟨rfl, rfl⟩⟩

/-- **List state is a list.** For every sequence of calls on the handles of registered states no
call fails, and each call returns what it returns on a list that belongs to its handle alone. -/
theorem vec_refines_list_faster [DecidableEq IK] [DecidableEq N] [FixedBytes IK] [FixedBytes N]
    [LawfulFixedBytes IK] [LawfulFixedBytes N] [LawfulMessage T] (ids : List String)
    (hfits : ∀ id ∈ ids, id.toUTF8.data.toList.length ≤ u64Max)
    (ops : List (Handle IK N × VecCall T)) (hids : ∀ o ∈ ops, o.1.id ∈ ids) :
    ∃ f, Footprint.run Faster.stepVec Faster.create ops =
      .ok (f, VecCall.list.slots.log (fun _ => []) ops) := by
  obtain ⟨f, hrun, _⟩ := Reference.run_slots Faster.stepVec (G := fun _ _ => True)
    (fun f h c r l hid hr hl _ => Faster.vec_step hfits hid c hr hl) ops Faster.keeps_lists
    fun done o rest heq => ⟨hids o (by simp [heq]), trivial⟩
  exact ⟨f, hrun⟩

/-- An append that is the first to a key, and appends to a list. -/
def listRun : List (Handle Unit Bool × VecCall Bool) :=
  [(⟨"v", (), true⟩, .append true), (⟨"v", (), false⟩, .addAll [true, false]),
   (⟨"v", (), true⟩, .len), (⟨"v", (), false⟩, .append true), (⟨"v", (), false⟩, .get),
   (⟨"v", (), true⟩, .clear), (⟨"v", (), true⟩, .isEmpty)]

theorem vec_refines_list_faster_two :
    (∀ o ∈ listRun, o.1.id ∈ ["v"]) ∧
      ∃ f, Footprint.run Faster.stepVec Faster.create listRun =
        .ok (f, VecCall.list.slots.log (fun _ => []) listRun) := by
  have hids : ∀ o ∈ listRun, o.1.id ∈ ["v"] := by decide
  have hfits : ∀ id ∈ ["v"], id.toUTF8.data.toList.length ≤ u64Max := by decide
  exact ⟨hids, vec_refines_list_faster ["v"] hfits listRun hids⟩

end Arcon.State
