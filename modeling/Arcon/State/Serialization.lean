import Arcon.Data
import Arcon.Lib.Bytes
import Mathlib.Data.Vector.Basic

/-!
# Serialization (`arcon_state/src/serialization.rs`)

Metakeys and lengths are stored with `fixed_bytes`: every value of a type takes `SIZE` bytes. Keys
and values are stored with `protobuf`, which puts their length in front.

`FixedBytes` is the trait with the four functions of the Rust and an instance for each type that has
one there; `LawfulFixedBytes` is what the backends rely on, proved of every instance. The encoder
and decoder of `prost` are not part of the repository: `Message` names them and `LawfulMessage` is
what is known of them.

A `Vec<u8>` grows when it is written to, and running out of memory is not modelled; so of the two
kinds of target only a slice can be too short.
-/

namespace Arcon.State

open Bytes

/-- A component of a path: text, or bytes that are no text. -/
inductive OsStr
  | utf8 (s : String)
  | other (bytes : Bytes)
  deriving DecidableEq, Repr

/-- `ArconStateError`, the variants that the modelled code returns. -/
inductive ArconStateError
  | io (message : String)
  | invalidPath (path : List OsStr)
  | unknownNode (unknownNode : String) (knownNodes : List String)
  | fixedBytesSerializationError (destLen needed : Nat)
  | fixedBytesDeserializationError (sourceLen needed : Nat)
  | protobufDecodeError
  | rocksMissingColumnFamily (cfName : String)
  | rocksMissingOptions (cfName : String)
  | rocksUninitialized (unknownCfs : List String)
  | rocksError (message : String)
  | sledError (message : String)
  | fasterErrorInRmw (cause : ArconStateError)
  deriving DecidableEq, Repr

/-- How a call into a backend ends other than by returning. -/
inductive Failure
  | err (e : ArconStateError)
  | panic (msg : String)
  | diverges
  deriving DecidableEq, Repr

/-- `Result`, where a call may also panic. -/
abbrev Result := Except Failure

@[simp] theorem ok_bind {α β : Type} (a : α) (f : α → Result β) :
    (Except.ok a : Result α) >>= f = f a := rfl

@[simp] theorem pure_eq_ok {α : Type} (a : α) : (pure a : Result α) = .ok a := rfl

/-! ## Targets -/

/-- What the backends write to through `bytes::BufMut`: a `Vec<u8>`, which grows at its end, or a
mutable slice, which is overwritten from its front; `filled` is the part already written. -/
inductive BufMut
  | vec (buf : Bytes)
  | slice (filled rest : Bytes)

namespace BufMut

/-- `remaining_mut() >= needed`. -/
def hasRoom : BufMut → Nat → Bool
  | vec _, _ => true
  | slice _ rest, needed => needed ≤ rest.length

/-- `remaining_mut()` of a slice. -/
def destLen : BufMut → Nat
  | vec _ => 0
  | slice _ rest => rest.length

/-- `put_slice`. -/
def putSlice : BufMut → Bytes → BufMut
  | vec buf, bytes => vec (buf ++ bytes)
  | slice filled rest, bytes => slice (filled ++ bytes) (rest.drop bytes.length)

/-- The bytes of the target, written or not. -/
def contents : BufMut → Bytes
  | vec buf => buf
  | slice filled rest => filled ++ rest

@[simp] theorem hasRoom_vec (buf : Bytes) (n : Nat) : (vec buf).hasRoom n = true := rfl

@[simp] theorem putSlice_vec (buf bytes : Bytes) : (vec buf).putSlice bytes = vec (buf ++ bytes) :=
  rfl

@[simp] theorem contents_vec (buf : Bytes) : (vec buf).contents = buf := rfl

theorem putSlice_append (t : BufMut) (a b : Bytes) :
    t.putSlice (a ++ b) = (t.putSlice a).putSlice b := by
  cases t with
  | vec buf => simp
  | slice filled rest => simp [putSlice]

@[simp] theorem putSlice_nil (t : BufMut) : t.putSlice [] = t := by
  cases t with
  | vec buf => simp
  | slice filled rest => simp [putSlice]

/-- Room for two writes is room for the first, and then for the second. -/
theorem hasRoom_add {t : BufMut} {m n : Nat} {a : Bytes} (ha : a.length = m)
    (h : t.hasRoom (m + n) = true) : t.hasRoom m = true ∧ (t.putSlice a).hasRoom n = true := by
  cases t with
  | vec buf => exact ⟨rfl, rfl⟩
  | slice filled rest =>
    simp only [hasRoom, putSlice, List.length_drop, decide_eq_true_eq] at h ⊢
    omega

end BufMut

/-! ## `fixed_bytes` -/

/-- The trait `FixedBytes`. -/
class FixedBytes (α : Type) where
  size : Nat
  serialize : α → Result Bytes
  serializeInto : BufMut → α → Result BufMut
  deserialize : Bytes → Result α
  deserializeFrom : Bytes → Result (α × Bytes)

open FixedBytes

/-- The bytes of a value. -/
def encode {α : Type} [FixedBytes α] (a : α) : Bytes :=
  match serialize a with
  | .ok bytes => bytes
  | .error _ => []

/-- What the backends rely on: a value takes `SIZE` bytes and is read back off them. -/
class LawfulFixedBytes (α : Type) [FixedBytes α] : Prop where
  serialize_eq (a : α) : serialize a = .ok (encode a)
  length_encode (a : α) : (encode a).length = size α
  serializeInto_eq (t : BufMut) (a : α) :
    t.hasRoom (size α) = true → serializeInto t a = .ok (t.putSlice (encode a))
  delimits : Delimits (encode (α := α)) (deserializeFrom (α := α))

export LawfulFixedBytes (serialize_eq length_encode serializeInto_eq delimits)

attribute [simp] length_encode

/-- A primitive of `w` bytes: an unsigned or signed integer, or the bits of a float. -/
abbrev Prim (w : Nat) := BitVec (8 * w)

/-- A `usize`. -/
abbrev usize (n : Nat) : Prim 8 := BitVec.ofNat (8 * 8) n

namespace Prim

variable {w : Nat}

/-- `to_le_bytes`. -/
def toLeBytes (x : Prim w) : Bytes := toLe w x.toNat

/-- `from_le_bytes`. -/
def fromLeBytes (bytes : Bytes) : Prim w := BitVec.ofNat (8 * w) (ofLe bytes)

/-- `impl_fixed_bytes!`. -/
instance : FixedBytes (Prim w) where
  size := w
  serialize x := .ok (toLeBytes x)
  serializeInto target x :=
    if target.hasRoom (toLeBytes x).length then .ok (target.putSlice (toLeBytes x))
    else .error (.err (.fixedBytesSerializationError target.destLen (toLeBytes x).length))
  deserialize bytes :=
    if bytes.length < w then .error (.err (.fixedBytesDeserializationError bytes.length w))
    -- `copy_from_slice` wants slices of one length
    else if bytes.length ≠ w then
      .error (.panic "source slice length does not match destination slice length")
    else .ok (fromLeBytes bytes)
  deserializeFrom source :=
    if source.length < w then .error (.err (.fixedBytesDeserializationError source.length w))
    else .ok (fromLeBytes (source.take w), source.drop w)

@[simp] theorem encode_eq (x : Prim w) : encode x = toLeBytes x := rfl

@[simp] theorem length_toLeBytes (x : Prim w) : (toLeBytes x).length = w := length_toLe _ _

theorem fromLeBytes_toLeBytes (x : Prim w) : fromLeBytes (toLeBytes x) = x := by
  have hlt : x.toNat < 256 ^ w := by
    have h := x.isLt
    rwa [pow_mul] at h
  simp [fromLeBytes, toLeBytes, ofLe_toLe hlt]

instance : LawfulFixedBytes (Prim w) where
  serialize_eq _ := rfl
  length_encode x := length_toLeBytes x
  serializeInto_eq t x h := by
    have h' : t.hasRoom (toLeBytes x).length = true := by rw [length_toLeBytes]; exact h
    simp only [serializeInto, h', if_true, encode_eq]
  delimits x rest := by
    have hlen : ¬(toLeBytes x ++ rest).length < w := by simp
    simp only [deserializeFrom, encode_eq, hlen, if_false]
    rw [List.take_left' (length_toLeBytes x), List.drop_left' (length_toLeBytes x),
      fromLeBytes_toLeBytes]

end Prim

theorem toNat_usize {n : Nat} (h : n ≤ u64Max) : (usize n).toNat = n := by
  rw [BitVec.toNat_ofNat]
  refine Nat.mod_eq_of_lt ?_
  unfold u64Max at h
  omega

/-- `a + b` on `usize`. -/
def addUsize (a b : Nat) : Result Nat :=
  match checkedAdd a b with
  | some c => .ok c
  | none => .error (.panic "attempt to add with overflow")

theorem addUsize_eq {a b : Nat} (h : a + b ≤ u64Max) : addUsize a b = .ok (a + b) := by
  simp [addUsize, checkedAdd, h]

instance : FixedBytes Unit where
  size := 0
  serialize _ := .ok []
  serializeInto target _ := .ok target
  deserialize _ := .ok ()
  deserializeFrom source := .ok ((), source)

instance : LawfulFixedBytes Unit where
  serialize_eq _ := rfl
  length_encode _ := rfl
  serializeInto_eq t _ _ := by rw [show encode () = [] from rfl, BufMut.putSlice_nil]; rfl
  delimits _ _ := rfl

/-- The byte of a `bool`. -/
def boolByte (b : Bool) : Prim 1 := if b then 1 else 0

instance : FixedBytes Bool where
  size := 1
  serialize b := serialize (boolByte b)
  serializeInto target b := serializeInto target (boolByte b)
  deserialize bytes := do
    let x : Prim 1 ← deserialize bytes
    pure (x != 0)
  deserializeFrom source := do
    let (x, rest) ← deserializeFrom (α := Prim 1) source
    pure (x != 0, rest)

instance : LawfulFixedBytes Bool where
  serialize_eq _ := rfl
  length_encode b := length_encode (boolByte b)
  serializeInto_eq t b h := serializeInto_eq t (boolByte b) h
  delimits b rest := by
    have h := delimits (boolByte b) rest
    have hb : (boolByte b != 0) = b := by cases b <;> rfl
    show (do let (x, rest) ← deserializeFrom (α := Prim 1) (encode (boolByte b) ++ rest)
             pure (x != 0, rest)) = _
    simp only [h, ok_bind, hb, pure_eq_ok]

section tuples

variable {α β : Type} [FixedBytes α] [FixedBytes β]

/-- `impl_fixed_bytes_for_tuples!`; a longer tuple is a pair of its first component and the rest. -/
instance : FixedBytes (α × β) where
  size := size α + size β
  serialize p := do
    let target ← serializeInto (.vec []) p.1
    let target ← serializeInto target p.2
    pure target.contents
  serializeInto target p := do
    let target ← serializeInto target p.1
    serializeInto target p.2
  deserialize bytes := do
    let (a, rest) ← deserializeFrom bytes
    let (b, _) ← deserializeFrom rest
    pure (a, b)
  deserializeFrom source := do
    let (a, rest) ← deserializeFrom source
    let (b, rest) ← deserializeFrom rest
    pure ((a, b), rest)

variable [LawfulFixedBytes α] [LawfulFixedBytes β]

theorem serialize_pair (p : α × β) : serialize p = .ok (encode p.1 ++ encode p.2) := by
  show (do let target ← serializeInto (.vec []) p.1
           let target ← serializeInto target p.2
           pure target.contents) = _
  rw [serializeInto_eq _ _ rfl, ok_bind, BufMut.putSlice_vec, serializeInto_eq _ _ rfl]
  rfl

@[simp] theorem encode_pair (p : α × β) : encode p = encode p.1 ++ encode p.2 := by
  rw [encode, serialize_pair]

instance : LawfulFixedBytes (α × β) where
  serialize_eq p := by rw [encode_pair, serialize_pair]
  length_encode p := by
    rw [encode_pair, List.length_append, length_encode, length_encode]
    rfl
  serializeInto_eq t p h := by
    obtain ⟨h₁, h₂⟩ := BufMut.hasRoom_add (length_encode p.1) h
    show (do let target ← serializeInto t p.1
             serializeInto target p.2) = _
    rw [serializeInto_eq t p.1 h₁, encode_pair, BufMut.putSlice_append]
    exact serializeInto_eq _ p.2 h₂
  delimits p rest := by
    show (do let (a, rest) ← deserializeFrom (α := α) (encode p ++ rest)
             let (b, rest) ← deserializeFrom (α := β) rest
             pure ((a, b), rest)) = _
    rw [encode_pair, List.append_assoc]
    simp only [delimits p.1 _, delimits p.2 _, ok_bind, pure_eq_ok]

end tuples

section arrays

variable {α : Type} [FixedBytes α]

/-- The loop of an array's `serialize_into`. -/
def serializeElems (target : BufMut) : List α → Result BufMut
  | [] => .ok target
  | x :: xs => do
    let target ← serializeInto target x
    serializeElems target xs

/-- The loop of an array's `deserialize_from`. -/
def deserializeElems : (n : Nat) → Bytes → Result (List.Vector α n × Bytes)
  | 0, source => .ok (List.Vector.nil, source)
  | n + 1, source => do
    let (x, rest) ← deserializeFrom source
    let (xs, rest) ← deserializeElems n rest
    pure (List.Vector.cons x xs, rest)

instance {n : Nat} : FixedBytes (List.Vector α n) where
  size := size α * n
  serialize xs := do
    let buf ← serializeElems (.vec []) xs.toList
    pure buf.contents
  serializeInto target xs := serializeElems target xs.toList
  deserialize bytes := do
    let (xs, _) ← deserializeElems n bytes
    pure xs
  deserializeFrom source := deserializeElems n source

variable [LawfulFixedBytes α]

theorem serializeElems_eq (xs : List α) (t : BufMut)
    (h : t.hasRoom (size α * xs.length) = true) :
    serializeElems t xs = .ok (t.putSlice (xs.flatMap encode)) := by
  induction xs generalizing t with
  | nil => rw [List.flatMap_nil, BufMut.putSlice_nil]; rfl
  | cons x xs ih =>
    rw [List.length_cons, Nat.mul_succ, Nat.add_comm] at h
    obtain ⟨h₁, h₂⟩ := BufMut.hasRoom_add (length_encode x) h
    show (do let target ← serializeInto t x
             serializeElems target xs) = _
    rw [serializeInto_eq t x h₁, List.flatMap_cons, BufMut.putSlice_append]
    exact ih _ h₂

@[simp] theorem encode_array {n : Nat} (xs : List.Vector α n) :
    encode xs = xs.toList.flatMap encode := by
  have hs : serialize xs = .ok (xs.toList.flatMap encode) := by
    show (do let buf ← serializeElems (.vec []) xs.toList
             pure buf.contents) = _
    rw [serializeElems_eq _ _ rfl]
    rfl
  rw [encode, hs]

theorem length_flatMap_encode (xs : List α) : (xs.flatMap encode).length = size α * xs.length := by
  induction xs with
  | nil => rfl
  | cons x xs ih =>
    rw [List.flatMap_cons, List.length_append, ih, length_encode, List.length_cons, Nat.mul_succ,
      Nat.add_comm]

theorem deserializeElems_eq {n : Nat} (xs : List.Vector α n) (rest : Bytes) :
    deserializeElems n (xs.toList.flatMap encode ++ rest) = .ok (xs, rest) := by
  induction n with
  | zero => rw [List.Vector.eq_nil xs]; rfl
  | succ n ih =>
    obtain ⟨x, xs, rfl⟩ := List.Vector.exists_eq_cons xs
    rw [List.Vector.toList_cons, List.flatMap_cons, List.append_assoc]
    show (do let (x, rest) ← deserializeFrom (α := α)
               (encode x ++ (xs.toList.flatMap encode ++ rest))
             let (xs, rest) ← deserializeElems (α := α) n rest
             pure (List.Vector.cons x xs, rest)) = _
    simp only [delimits x _, ih xs, ok_bind, pure_eq_ok]

instance {n : Nat} : LawfulFixedBytes (List.Vector α n) where
  serialize_eq xs := by
    show (do let buf ← serializeElems (.vec []) xs.toList
             pure buf.contents) = _
    rw [serializeElems_eq _ _ rfl, encode_array]
    rfl
  length_encode xs := by
    rw [encode_array, length_flatMap_encode, List.Vector.toList_length]
    rfl
  serializeInto_eq t xs h := by
    rw [encode_array]
    exact serializeElems_eq xs.toList t (by rw [List.Vector.toList_length]; exact h)
  delimits xs rest := by
    rw [encode_array]
    exact deserializeElems_eq xs rest

end arrays

/-- `serialize_bytes_into`: a length, then the bytes. -/
def serializeBytesInto (target : BufMut) (payload : Bytes) : Result BufMut := do
  let needed := size (Prim 8) + payload.length
  if target.hasRoom needed then
    let target ← serializeInto target (usize payload.length)
    pure (target.putSlice payload)
  else .error (.err (.fixedBytesSerializationError target.destLen needed))

/-- `deserialize_bytes_from`. -/
def deserializeBytesFrom (source : Bytes) : Result (Bytes × Bytes) := do
  let (len, source) ← deserializeFrom (α := Prim 8) source
  if source.length < len.toNat then
    .error (.err (.fixedBytesDeserializationError source.length len.toNat))
  else pure (source.take len.toNat, source.drop len.toNat)

/-! ## `protobuf` -/

/-- A `prost::Message`: its length-delimited encoding, and the decoder, which has no value where
`prost` returns a `DecodeError`. -/
class Message (T : Type) where
  encodeLengthDelimited : T → Bytes
  decodeLengthDelimited : Bytes → Option (T × Bytes)

namespace protobuf

variable {T : Type} [Message T]

/-- `protobuf::serialize`. -/
def serialize (payload : T) : Bytes := Message.encodeLengthDelimited payload

/-- `protobuf::serialize_into`. -/
def serializeInto (target : BufMut) (payload : T) : BufMut :=
  target.putSlice (Message.encodeLengthDelimited payload)

/-- `protobuf::deserialize_from`. -/
def deserializeFrom (source : Bytes) : Result (T × Bytes) :=
  match Message.decodeLengthDelimited source with
  | some r => .ok r
  | none => .error (.err .protobufDecodeError)

/-- `protobuf::deserialize`. -/
def deserialize (bytes : Bytes) : Result T := do
  let (payload, _) ← deserializeFrom bytes
  pure payload

end protobuf

/-- What is known of `prost`: a value is read back whatever follows it, and its encoding holds at
least the length. -/
class LawfulMessage (T : Type) [Message T] : Prop where
  round_trip (a : T) (rest : Bytes) :
    Message.decodeLengthDelimited (Message.encodeLengthDelimited a ++ rest) = some (a, rest)
  encode_ne_nil (a : T) : Message.encodeLengthDelimited a ≠ []

namespace protobuf

variable {T : Type} [Message T] [LawfulMessage T]

theorem delimits_message : Delimits (serialize (T := T)) (deserializeFrom (T := T)) := by
  intro a rest
  unfold deserializeFrom serialize
  rw [LawfulMessage.round_trip a rest]

@[simp] theorem deserialize_serialize (a : T) : deserialize (serialize a) = .ok a := by
  have h := delimits_message a []
  rw [List.append_nil] at h
  unfold deserialize
  simp only [h, ok_bind, pure_eq_ok]

end protobuf

/-- `bool` as a message (`prost` wraps it in a message with one field): the default is left out. -/
instance : Message Bool where
  encodeLengthDelimited b := if b then [2, 8, 1] else [0]
  decodeLengthDelimited
    | 0 :: rest => some (false, rest)
    | 2 :: 8 :: x :: rest => some (x != 0, rest)
    | _ => none

instance : LawfulMessage Bool where
  round_trip b rest := by cases b <;> rfl
  encode_ne_nil b := by cases b <;> simp [Message.encodeLengthDelimited]

end Arcon.State
