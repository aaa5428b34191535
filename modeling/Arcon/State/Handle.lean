import Arcon.State.Serialization

/-!
# State handles (`arcon_state/src/handles.rs`)

A handle names a piece of state: the id of the state, and inside it an item key and a namespace. The
backends store the state of a handle under the bytes of these. Of the fields of `Handle` the key
functions read `id`, `item_key` and `namespace`; `extra_data` belongs to reducers and aggregators,
and `registered` to `activate`, which refuses a handle that no backend knows.

* `serializeMetakeys_eq`, `serializeMetakeysAndKey_eq`: what the key functions return.
* **`metakeys_inj`**: within one state, handles with different metakeys have different prefixes.
* `readKey_eq`: the key is read back off the bytes it is stored under.
-/

namespace Arcon.State

open Bytes FixedBytes

/-- `Handle`. -/
@[ext] structure Handle (IK N : Type) where
  id : String
  itemKey : IK
  nspace : N
  deriving DecidableEq, Repr

namespace Handle

variable {IK N K : Type} [FixedBytes IK] [FixedBytes N] [Message K] (h : Handle IK N)

/-- `serialize_metakeys_into`. -/
def serializeMetakeysInto (dest : BufMut) : Result BufMut := do
  let dest ← serializeInto dest h.itemKey
  serializeInto dest h.nspace

/-- `serialize_metakeys`. -/
def serializeMetakeys : Result Bytes := do
  let dest ← h.serializeMetakeysInto (.vec [])
  pure dest.contents

/-- `serialize_metakeys_and_key_into`. -/
def serializeMetakeysAndKeyInto (key : K) (dest : BufMut) : Result BufMut := do
  let dest ← h.serializeMetakeysInto dest
  pure (protobuf.serializeInto dest key)

/-- `serialize_metakeys_and_key`. -/
def serializeMetakeysAndKey (key : K) : Result Bytes := do
  let dest ← h.serializeMetakeysAndKeyInto key (.vec [])
  pure dest.contents

/-- `id.as_bytes()`. -/
def idBytes : Bytes := h.id.toUTF8.data.toList

/-- `serialize_id_and_metakeys_into`. -/
def serializeIdAndMetakeysInto (dest : BufMut) : Result BufMut := do
  let dest ← serializeBytesInto dest h.idBytes
  h.serializeMetakeysInto dest

/-- `serialize_id_and_metakeys`. -/
def serializeIdAndMetakeys : Result Bytes := do
  let dest ← h.serializeIdAndMetakeysInto (.vec [])
  pure dest.contents

/-- `serialize_id_metakeys_and_key_into`. -/
def serializeIdMetakeysAndKeyInto (dest : BufMut) (key : K) : Result BufMut := do
  let dest ← h.serializeIdAndMetakeysInto dest
  pure (protobuf.serializeInto dest key)

/-- `serialize_id_metakeys_and_key`. -/
def serializeIdMetakeysAndKey (key : K) : Result Bytes := do
  let dest ← h.serializeIdMetakeysAndKeyInto (.vec []) key
  pure dest.contents

/-- `metakey_size`. -/
def metakeySize (_ : Handle IK N) : Nat := size IK + size N

/-! ## What they return -/

/-- The bytes of the item key and the namespace. -/
def metakeys : Bytes := encode h.itemKey ++ encode h.nspace

/-- The bytes in front of a key in a store that all states share. -/
def idMetakeys : Bytes := encode (usize h.idBytes.length) ++ h.idBytes ++ h.metakeys

variable [LawfulFixedBytes IK] [LawfulFixedBytes N]

theorem serializeMetakeysInto_vec (buf : Bytes) :
    h.serializeMetakeysInto (.vec buf) = .ok (.vec (buf ++ h.metakeys)) := by
  unfold serializeMetakeysInto metakeys
  rw [serializeInto_eq (.vec buf) h.itemKey rfl, ok_bind, BufMut.putSlice_vec,
    serializeInto_eq _ h.nspace rfl, BufMut.putSlice_vec, List.append_assoc]

@[simp] theorem serializeMetakeys_eq : h.serializeMetakeys = .ok h.metakeys := by
  unfold serializeMetakeys
  rw [serializeMetakeysInto_vec]
  rfl

@[simp] theorem serializeMetakeysAndKey_eq (key : K) :
    h.serializeMetakeysAndKey key = .ok (h.metakeys ++ protobuf.serialize key) := by
  unfold serializeMetakeysAndKey serializeMetakeysAndKeyInto
  rw [serializeMetakeysInto_vec]
  rfl

theorem serializeIdAndMetakeysInto_vec :
    h.serializeIdAndMetakeysInto (.vec []) = .ok (.vec h.idMetakeys) := by
  unfold serializeIdAndMetakeysInto serializeBytesInto
  dsimp only
  rw [BufMut.hasRoom_vec, if_pos rfl, serializeInto_eq _ _ rfl]
  exact serializeMetakeysInto_vec h _

@[simp] theorem serializeIdAndMetakeys_eq : h.serializeIdAndMetakeys = .ok h.idMetakeys := by
  unfold serializeIdAndMetakeys
  rw [serializeIdAndMetakeysInto_vec]
  rfl

@[simp] theorem serializeIdMetakeysAndKey_eq (key : K) :
    h.serializeIdMetakeysAndKey key = .ok (h.idMetakeys ++ protobuf.serialize key) := by
  unfold serializeIdMetakeysAndKey serializeIdMetakeysAndKeyInto
  rw [serializeIdAndMetakeysInto_vec]
  rfl

/-! ## Distinct handles -/

variable {h}

theorem length_metakeys : h.metakeys.length = h.metakeySize := by
  simp [metakeys, metakeySize]

/-- **The metakeys of a handle can be read off any string that starts with them.** -/
theorem metakeys_cancel {h' : Handle IK N} {r r' : Bytes}
    (heq : h.metakeys ++ r = h'.metakeys ++ r') :
    (h.itemKey = h'.itemKey ∧ h.nspace = h'.nspace) ∧ r = r' := by
  unfold metakeys at heq
  rw [List.append_assoc, List.append_assoc] at heq
  obtain ⟨hik, heq⟩ := delimits.cancel heq
  obtain ⟨hn, hr⟩ := delimits.cancel heq
  exact ⟨⟨hik, hn⟩, hr⟩

/-- **Handles of one state with the same metakeys are the same.** -/
theorem metakeys_inj {h' : Handle IK N} (hid : h.id = h'.id) (heq : h.metakeys = h'.metakeys) :
    h = h' := by
  have hr : h.metakeys ++ [] = h'.metakeys ++ [] := by rw [heq]
  obtain ⟨⟨hik, hn⟩, _⟩ := metakeys_cancel hr
  exact Handle.ext hid hik hn

end Handle

/-! ## Reading a key back -/

section readKey

variable (IK N : Type) {K : Type} [FixedBytes IK] [FixedBytes N] [Message K]

/-- The key behind the metakeys in the bytes an entry is stored under. -/
def readKey (dbKey : Bytes) : Result K := do
  let (_, cursor) ← deserializeFrom (α := IK) dbKey
  let (_, cursor) ← deserializeFrom (α := N) cursor
  let (key, _) ← protobuf.deserializeFrom cursor
  pure key

variable {IK N} [LawfulFixedBytes IK] [LawfulFixedBytes N] [LawfulMessage K]

theorem readKey_eq (h : Handle IK N) (key : K) :
    readKey IK N (h.metakeys ++ protobuf.serialize key) = .ok key := by
  have hkey := protobuf.delimits_message key []
  rw [List.append_nil] at hkey
  unfold readKey Handle.metakeys
  rw [List.append_assoc]
  simp only [delimits h.itemKey _, delimits h.nspace _, hkey, ok_bind, pure_eq_ok]

end readKey

end Arcon.State
