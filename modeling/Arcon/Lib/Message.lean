import Arcon.Lib.Protobuf

/-!
# Messages by their fields

A Protocol Buffers message is its fields one after the other. A field that has the default value of
its type is not written, so a reader starts from the message with all defaults and puts in what it
finds; fields it does not know are skipped. `Schema` is a message type given like that, and the only
thing to show of it is that reading its own fields back gives the message (`merges`).

* `Field.number`, `Field.text`: the two kinds of fields.
* **`Schema.decode_encode`**: a message with its length in front is read back, whatever follows it.
-/

namespace Bytes

/-! ## Fields -/

/-- The bytes of a text. -/
def utf8 (s : String) : Bytes := s.toByteArray.data.toList

/-- The text in some bytes. -/
def ofUtf8 (bs : Bytes) : Except String String :=
  match String.fromUTF8? ⟨bs.toArray⟩ with
  | some s => .ok s
  | none => .error "invalid string value: data is not UTF-8 encoded"

theorem ofUtf8_utf8 (s : String) : ofUtf8 (utf8 s) = .ok s := by
  have hbytes : (⟨(utf8 s).toArray⟩ : ByteArray) = s.toByteArray := rfl
  unfold ofUtf8
  rw [hbytes, String.fromUTF8?, dif_pos s.isValidUTF8]
  rfl

namespace Field

/-- A number of `w` bits, written unless it is 0. -/
def number {w : Nat} (num : Nat) (x : BitVec w) : List WireField :=
  if x = 0 then [] else [⟨num, .varint x.toNat⟩]

/-- A text, written unless it is empty. -/
def text (num : Nat) (s : String) : List WireField :=
  if s = "" then [] else [⟨num, .len (utf8 s)⟩]

/-- The number in a value; what does not fit is cut off. -/
def readNumber (w : Nat) : Value → Except String (BitVec w)
  | .varint n => .ok (BitVec.ofNat w n)
  | .len _ => .error "invalid wire type"

/-- The text in a value. -/
def readText : Value → Except String String
  | .varint _ => .error "invalid wire type"
  | .len payload => ofUtf8 payload

variable {T : Type} {merge : T → WireField → Except String T} {num : Nat} {t : T}

/-- A number is put in, or is there as the default. -/
theorem merge_number {w : Nat} {x : BitVec w} {f : BitVec w → T} (hzero : t = f 0)
    (hput : merge t ⟨num, .varint x.toNat⟩ = f <$> readNumber w (.varint x.toNat)) :
    (number num x).foldlM merge t = .ok (f x) := by
  unfold number
  split_ifs with hx
  · rw [hx, hzero]
    rfl
  · rw [List.foldlM_cons, hput, readNumber, BitVec.ofNat_toNat, BitVec.setWidth_eq]
    rfl

/-- A text is put in, or is there as the default. -/
theorem merge_text {s : String} {f : String → T} (hempty : t = f "")
    (hput : merge t ⟨num, .len (utf8 s)⟩ = f <$> readText (.len (utf8 s))) :
    (text num s).foldlM merge t = .ok (f s) := by
  unfold text
  split_ifs with hs
  · rw [hs, hempty]
    rfl
  · rw [List.foldlM_cons, hput, readText, ofUtf8_utf8]
    rfl

/-- Fields and then other fields. -/
theorem merge_append {t' t'' : T} {l l' : List WireField} (h : l.foldlM merge t = .ok t')
    (h' : l'.foldlM merge t' = .ok t'') : (l ++ l').foldlM merge t = .ok t'' := by
  rw [List.foldlM_append, h]
  exact h'

end Field

/-! ## Messages -/

/-- A message type. -/
structure Schema (T : Type) where
  default : T
  fields : T → List WireField
  merge : T → WireField → Except String T
  merges : ∀ a, (fields a).foldlM merge default = .ok a

namespace Schema

variable {T : Type} (schema : Schema T)

/-- The fields of a message. -/
def body (a : T) : Bytes := (schema.fields a).flatMap WireField.encode

/-- A message with its length in front. -/
def encode (a : T) : Bytes := toVarint (schema.body a).length ++ schema.body a

/-- Read a message. -/
def decode (bs : Bytes) : Except String (T × Bytes) :=
  match readVarint bs with
  | .error e => .error e
  | .ok (n, rest) =>
    if n ≤ rest.length then
      match readAll WireField.decode n (rest.take n) with
      | .error e => .error e
      | .ok fields =>
        match fields.foldlM schema.merge schema.default with
        | .error e => .error e
        | .ok a => .ok (a, rest.drop n)
    else .error "buffer underflow"

/-- **A message is read back.** -/
theorem decode_encode : Delimits schema.encode schema.decode := by
  intro a rest
  unfold encode decode
  rw [List.append_assoc, varint_delimits]
  dsimp only
  rw [if_pos (by simp), List.take_left, List.drop_left, body, WireField.readAll_encode]
  dsimp only
  rw [schema.merges]

theorem encode_ne_nil (a : T) : schema.encode a ≠ [] := by
  unfold encode
  exact fun h => toVarint_ne_nil _ (List.append_eq_nil_iff.mp h).1

end Schema

end Bytes
