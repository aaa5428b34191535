import Arcon.Lib.Chunks
import Arcon.Lib.Protobuf
import Arcon.Operator

/-!
# In-flight data (`arcon/src/data/flight_serde.rs`)

The serialisers of messages between machines and their deserialisers, as `Node::receive_network`
calls them on what the network hands over: a buffer in chunks.

The two formats are libraries and parameters here (`Codecs`): protobuf (`prost`, the encoding and
the decoding of a `RawArconMessage`) for `FlightSerde::Reliable` and the memory image of
`abomonation` for `FlightSerde::Unsafe`. `Codecs.Faithful` is what is documented of them: a whole
encoding is read back, and one that is cut short is not; a protobuf reader takes an absent field for
its default, so there the message without its sender field is the message when the sender is 0.
`wire` is the protobuf encoding of the two fields of a message, with the encoding of an event as its
parameter, and `wire_faithful` shows it to be like that.

`deserialise` runs on the buffer and may panic (`Crash`); `put_u32` and the encoders append to a
buffer with room, as `size_hint` reserves it.

* **`flight_round_trip_iff`**: what is sent is received exactly when the decoder's bytes come in one
  chunk: all of them for protobuf, all behind the four bytes of the version for the memory image.
  The deserialisers return exactly when there are four bytes for the version; protobuf always does.
* **`receiveNetwork_iff`**: the messages that a node is handed.
-/

namespace Arcon.Flight

open Bytes

/-- `FlightSerde`. -/
inductive FlightSerde
  | unsafeSerde
  | reliableSerde
  deriving DecidableEq, Repr

/-- `ArconEventWrapper`. -/
structure ArconEventWrapper (A : Type) where
  inner : Option (ArconEvent A)
  deriving DecidableEq, Repr

/-- `RawArconMessage` on its way, with the events still wrapped. -/
structure RawMessage (A : Type) where
  events : List (ArconEventWrapper A)
  sender : NodeID
  deriving DecidableEq, Repr

/-- `SerError`, as far as it occurs here. -/
inductive SerError
  | invalidData (msg : String)
  deriving DecidableEq, Repr

/-- The constants of an `ArconType`. -/
structure ArconType where
  unsafeSerId : Nat
  reliableSerId : Nat
  versionId : UInt32
  deriving DecidableEq, Repr

/-- `SER_ID` of either format. -/
def ArconType.serId (t : ArconType) : FlightSerde → Nat
  | .unsafeSerde => t.unsafeSerId
  | .reliableSerde => t.reliableSerId

/-- `prost` (`encode` and `decode`, with the text of a `DecodeError`) and `abomonation` (`entomb`
and `exhume`, with what is left of the bytes) on messages. -/
structure Codecs (A : Type) where
  encode : RawMessage A → Bytes
  decode : Bytes → Except String (RawMessage A)
  entomb : RawMessage A → Bytes
  exhume : Bytes → Option (RawMessage A × Bytes)

section model

variable {A : Type} (c : Codecs A) (t : ArconType)

/-- The big-endian bytes of a `u32`. -/
def toBytes (n : UInt32) : Bytes := (toLe 4 n.toNat).reverse

/-- The `u32` with these big-endian bytes. -/
def ofBytes (bs : Bytes) : UInt32 := UInt32.ofNat (ofLe bs.reverse)

/-- `Buf::get_u32`. -/
def getU32 : EStateM Crash Buf UInt32 := fun b =>
  if b.remaining < 4 then .error (.panic "assertion failed: self.remaining() >= dst.len()") b
  else .ok (ofBytes (b.copy 4).1) (b.copy 4).2

/-- `ReliableSerde::serialise`. -/
def ReliableSerde.serialise (m : RawMessage A) : Bytes := c.encode m

/-- `ReliableSerde::deserialise`. -/
def ReliableSerde.deserialise : EStateM Crash Buf (Except SerError (RawMessage A)) := do
  let buf ← get
  return (c.decode buf.chunk).mapError SerError.invalidData

/-- `UnsafeSerde::serialise`. -/
def UnsafeSerde.serialise (m : RawMessage A) : Bytes := toBytes t.versionId ++ c.entomb m

/-- `UnsafeSerde::deserialise`. -/
def UnsafeSerde.deserialise : EStateM Crash Buf (Except SerError (RawMessage A)) := do
  let versionId ← getU32
  if versionId ≠ t.versionId then
    return .error (.invalidData ("Mismatch on ArconType version. Got " ++ toString versionId ++
      " while expecting " ++ toString t.versionId))
  else
    let buf ← get
    match c.exhume buf.chunk with
    | some (msg, _) => return .ok msg
    | none => return .error (.invalidData "Failed to decode flight data")

/-- `serialise` of either format. -/
def serialise : FlightSerde → RawMessage A → Bytes
  | .unsafeSerde => UnsafeSerde.serialise c t
  | .reliableSerde => ReliableSerde.serialise c

/-- `deserialise` of either format. -/
def deserialise : FlightSerde → EStateM Crash Buf (Except SerError (RawMessage A))
  | .unsafeSerde => UnsafeSerde.deserialise c t
  | .reliableSerde => ReliableSerde.deserialise c

/-- `Node::receive_network`: the message for `handle_raw_msg`, or `none` where an error is
logged. -/
def receiveNetwork (serId : Nat) : EStateM Crash Buf (Option (RawMessage A)) :=
  if serId = t.reliableSerId then return (← deserialise c t .reliableSerde).toOption
  else if serId = t.unsafeSerId then return (← deserialise c t .unsafeSerde).toOption
  else throw (.panic "Unexpected deserialiser")

/-- `deserialise` returns `Ok(m)`. -/
def Returns (s : FlightSerde) (b : Buf) (m : RawMessage A) : Prop :=
  ∃ b', deserialise c t s b = .ok (.ok m) b'

/-- What is documented of the format's library on a message: the whole encoding is read back, and a
part of it is not, but for an absent sender field, which stands for sender 0. -/
def Codecs.Faithful (m : RawMessage A) : FlightSerde → Prop
  | .unsafeSerde => (∃ rest, c.exhume (c.entomb m) = some (m, rest)) ∧
      ∀ p, p <+: c.entomb m → p ≠ c.entomb m → c.exhume p = none
  | .reliableSerde => c.decode (c.encode m) = .ok m ∧
      ∀ p, p <+: c.encode m → p ≠ c.encode m →
        (c.decode p = .ok m ↔ m.sender = 0 ∧ p.length + 2 = (c.encode m).length)

/-- The bytes that the format's library reads lie in one chunk (or, for protobuf, all but those of
an absent sender). -/
def InOneChunk (m : RawMessage A) (b : Buf) : FlightSerde → Prop
  | .unsafeSerde => b.StartsWithin 4
  | .reliableSerde => b.StartsWithin 0 ∨ (m.sender = 0 ∧ b.chunk.length + 2 = b.remaining)

/-- There are enough bytes for the fixed part of the format. -/
def LongEnough (b : Buf) : FlightSerde → Prop
  | .unsafeSerde => 4 ≤ b.remaining
  | .reliableSerde => True

end model

/-! ## The round trip -/

section roundTrip

variable {A : Type} {c : Codecs A} {t : ArconType} {m : RawMessage A} {b : Buf}

theorem length_toBytes (n : UInt32) : (toBytes n).length = 4 := by
  simp [toBytes]

theorem ofBytes_toBytes (n : UInt32) : ofBytes (toBytes n) = n := by
  have hlt : n.toNat < 256 ^ 4 := n.toNat_lt
  rw [ofBytes, toBytes, List.reverse_reverse, ofLe_toLe hlt, UInt32.ofNat_toNat]

theorem returns_reliable_iff :
    Returns c t .reliableSerde b m ↔ c.decode b.chunk = .ok m := by
  constructor
  · rintro ⟨b', h⟩
    have hm : (c.decode b.chunk).mapError SerError.invalidData = .ok m := by
      injection h
    cases hdec : c.decode b.chunk with
    | error e => simp [hdec, Except.mapError] at hm
    | ok m' =>
      rw [hdec] at hm
      injection hm with hm
      rw [hm]
  · intro h
    refine ⟨b, ?_⟩
    show EStateM.Result.ok ((c.decode b.chunk).mapError SerError.invalidData) b = _
    rw [h]
    rfl

theorem deserialise_image_short (hlen : b.remaining < 4) :
    deserialise c t .unsafeSerde b =
      .error (.panic "assertion failed: self.remaining() >= dst.len()") b := by
  have hget : getU32 b = .error (.panic "assertion failed: self.remaining() >= dst.len()") b := by
    rw [getU32, if_pos hlen]
  show EStateM.bind getU32 _ b = _
  rw [EStateM.bind, hget]

/-- Behind the version, the reply depends on the current chunk. -/
theorem deserialise_image_long (hlen : ¬ b.remaining < 4) :
    deserialise c t .unsafeSerde b =
      .ok (if ofBytes (b.copy 4).1 ≠ t.versionId then
          .error (.invalidData ("Mismatch on ArconType version. Got " ++
            toString (ofBytes (b.copy 4).1) ++ " while expecting " ++ toString t.versionId))
        else match c.exhume (b.copy 4).2.chunk with
          | some (msg, _) => .ok msg
          | none => .error (.invalidData "Failed to decode flight data")) (b.copy 4).2 := by
  have hget : getU32 b = .ok (ofBytes (b.copy 4).1) (b.copy 4).2 := by
    rw [getU32, if_neg hlen]
  show EStateM.bind getU32 _ b = _
  rw [EStateM.bind, hget]
  simp only
  split_ifs with hversion
  · rfl
  · rw [Exec.get_bind]
    cases hex : c.exhume (b.copy 4).2.chunk with
    | none => rfl
    | some mr => rfl

/-- The version of a message that was sent is read, whatever its chunks are. -/
theorem deserialise_image (h : b.whole = serialise c t .unsafeSerde m) :
    deserialise c t .unsafeSerde b = .ok (match c.exhume (b.copy 4).2.chunk with
      | some (msg, _) => .ok msg
      | none => .error (.invalidData "Failed to decode flight data")) (b.copy 4).2 := by
  have hwhole : b.whole = toBytes t.versionId ++ c.entomb m := h
  have hlen : ¬ b.remaining < 4 := by
    rw [Buf.remaining, hwhole, List.length_append, length_toBytes]
    omega
  have hversion : ofBytes (b.copy 4).1 = t.versionId := by
    rw [Buf.copy_fst, hwhole, ← length_toBytes t.versionId, List.take_left, ofBytes_toBytes]
  rw [deserialise_image_long hlen, if_neg (not_not.mpr hversion)]

theorem returns_image_iff (h : b.whole = serialise c t .unsafeSerde m) (m' : RawMessage A) :
    Returns c t .unsafeSerde b m' ↔ ∃ rest, c.exhume (b.copy 4).2.chunk = some (m', rest) := by
  unfold Returns
  rw [deserialise_image h]
  cases hex : c.exhume (b.copy 4).2.chunk with
  | none => simp
  | some mr =>
    obtain ⟨msg, rest⟩ := mr
    simp

/-- The protobuf decoder sees the current chunk of the encoding. -/
theorem returns_reliable_iff_inOneChunk (hf : c.Faithful m .reliableSerde)
    (h : b.whole = serialise c t .reliableSerde m) :
    Returns c t .reliableSerde b m ↔ InOneChunk m b .reliableSerde := by
  have hwhole : b.whole = c.encode m := h
  obtain ⟨hok, hcut⟩ := hf
  rw [returns_reliable_iff, InOneChunk, ← Buf.chunk_eq_iff, Buf.remaining, hwhole]
  by_cases hchunk : b.chunk = c.encode m
  · rw [hchunk, hok]
    simp
  · have hpre : b.chunk <+: c.encode m := hwhole ▸ b.chunk_isPrefix_whole
    rw [hcut b.chunk hpre hchunk]
    simp [hchunk]

/-- The image is read off what the chunk of the fifth byte holds. -/
theorem returns_image_iff_inOneChunk (hf : c.Faithful m .unsafeSerde)
    (h : b.whole = serialise c t .unsafeSerde m) :
    Returns c t .unsafeSerde b m ↔ InOneChunk m b .unsafeSerde := by
  have hdrop : b.whole.drop 4 = c.entomb m := by
    have hwhole : b.whole = toBytes t.versionId ++ c.entomb m := h
    rw [hwhole, ← length_toBytes t.versionId, List.drop_left]
  obtain ⟨hok, hcut⟩ := hf
  rw [returns_image_iff h, InOneChunk, ← Buf.chunk_copy_eq_iff, hdrop]
  constructor
  · rintro ⟨rest, hex⟩
    by_contra hchunk
    have hpre : (b.copy 4).2.chunk <+: c.entomb m := by
      rw [← hdrop, ← Buf.whole_copy]
      exact (b.copy 4).2.chunk_isPrefix_whole
    rw [hcut _ hpre hchunk] at hex
    cases hex
  · intro hchunk
    rw [hchunk]
    exact hok

/-- Whether the deserialisers return at all is a matter of the four bytes of the version. -/
theorem deserialise_returns_iff (s : FlightSerde) :
    (∃ r b', deserialise c t s b = .ok r b') ↔ LongEnough b s := by
  cases s with
  | reliableSerde => exact ⟨fun _ => trivial, fun _ => ⟨_, b, rfl⟩⟩
  | unsafeSerde =>
    by_cases hlen : b.remaining < 4
    · rw [deserialise_image_short hlen]
      constructor
      · rintro ⟨r, b', h⟩
        cases h
      · intro h
        exact absurd hlen (Nat.not_lt.mpr h)
    · rw [deserialise_image_long hlen]
      exact ⟨fun _ => Nat.le_of_not_lt hlen, fun _ => ⟨_, _, rfl⟩⟩

theorem returns_iff_inOneChunk (s : FlightSerde) (hf : c.Faithful m s)
    (h : b.whole = serialise c t s m) : Returns c t s b m ↔ InOneChunk m b s := by
  cases s with
  | reliableSerde => exact returns_reliable_iff_inOneChunk hf h
  | unsafeSerde => exact returns_image_iff_inOneChunk hf h

/-- **The round trip, for any chunks.** What was sent is received exactly when the bytes that the
decoder reads lie in one chunk; and on any bytes at all, the deserialisers return exactly when there
are enough of them for the version. -/
theorem flight_round_trip_iff (c : Codecs A) (t : ArconType) (s : FlightSerde) (m : RawMessage A)
    (hf : c.Faithful m s) :
    (∀ b : Buf, b.whole = serialise c t s m → (Returns c t s b m ↔ InOneChunk m b s)) ∧
      ∀ b : Buf, (∃ r b', deserialise c t s b = .ok r b') ↔ LongEnough b s := by
  exact ⟨fun b h => returns_iff_inOneChunk s hf h, fun b => deserialise_returns_iff s⟩

theorem receiveNetwork_serId (hids : t.unsafeSerId ≠ t.reliableSerId) (s : FlightSerde) :
    receiveNetwork c t (t.serId s) = do return (← deserialise c t s).toOption := by
  cases s with
  | reliableSerde => rw [receiveNetwork, ArconType.serId, if_pos rfl]
  | unsafeSerde => rw [receiveNetwork, ArconType.serId, if_neg hids, if_pos rfl]

/-- **What a node is handed.** A message under the identifier of its format reaches `handle_raw_msg`
exactly when the bytes that the decoder reads lie in one chunk. -/
theorem receiveNetwork_iff (hids : t.unsafeSerId ≠ t.reliableSerId) (s : FlightSerde)
    (hf : c.Faithful m s) (h : b.whole = serialise c t s m) :
    (∃ b', receiveNetwork c t (t.serId s) b = .ok (some m) b') ↔ InOneChunk m b s := by
  rw [receiveNetwork_serId hids, ← returns_iff_inOneChunk s hf h, Returns]
  show (∃ b', EStateM.bind (deserialise c t s) _ b = .ok (some m) b') ↔ _
  unfold EStateM.bind
  cases deserialise c t s b with
  | error e b' => simp
  | ok r b' => cases r <;> simp [pure, EStateM.pure, Except.toOption]

end roundTrip

/-! ## The protobuf encoding of a message -/

section wire

variable {A : Type} (event : ArconEventWrapper A → Bytes)
  (unevent : Bytes → Except String (ArconEventWrapper A))

/-- `NodeID { id }` and `Watermark { timestamp }`: a default value is left out. -/
def number (n : Nat) : Bytes := if n = 0 then [] else (WireField.mk 1 (.varint n)).encode

/-- Merge a field into a message of one number. -/
def mergeNumber (n : Nat) (f : WireField) : Except String Nat :=
  if f.num = 1 then
    match f.value with
    | .varint n => .ok n
    | .len _ => .error "invalid wire type"
  else .ok n

/-- Read a message of one number, on top of a value it has already. -/
def readNumber (n : Nat) (bs : Bytes) : Except String Nat := do
  let fs ← readAll WireField.decode bs.length bs
  fs.foldlM mergeNumber n

/-- The fields of a message: the events, and the sender, which is required. -/
def fields (m : RawMessage A) : List WireField :=
  m.events.map (fun e => ⟨1, .len (event e)⟩) ++ [⟨2, .len (number m.sender)⟩]

/-- Merge a field into a message; fields that are not known are skipped. -/
def mergeField (m : RawMessage A) (f : WireField) : Except String (RawMessage A) :=
  match f.num, f.value with
  | 1, .len payload => (unevent payload).map fun e => { m with events := m.events ++ [e] }
  | 2, .len payload => (readNumber m.sender payload).map fun sender => { m with sender }
  | 1, .varint _ => .error "invalid wire type"
  | 2, .varint _ => .error "invalid wire type"
  | _, _ => .ok m

/-- `prost` on messages, from the encoding of their events, with any memory image. -/
def wire (entomb : RawMessage A → Bytes) (exhume : Bytes → Option (RawMessage A × Bytes)) :
    Codecs A where
  encode m := (fields event m).flatMap WireField.encode
  decode bs := do
    let fs ← readAll WireField.decode bs.length bs
    fs.foldlM (mergeField unevent) ⟨[], 0⟩
  entomb
  exhume

variable {event unevent} {m : RawMessage A}

theorem foldlM_events (es : List (ArconEventWrapper A)) (h : ∀ e ∈ es, unevent (event e) = .ok e)
    (m : RawMessage A) :
    (es.map fun e => WireField.mk 1 (.len (event e))).foldlM (mergeField unevent) m =
      .ok { m with events := m.events ++ es } := by
  induction es generalizing m with
  | nil => simp [pure, Except.pure]
  | cons e es ih =>
    rw [List.map_cons, List.foldlM_cons]
    simp only [mergeField, h e (by simp), Except.map, bind, Except.bind]
    rw [ih fun e' he' => h e' (by simp [he'])]
    simp

theorem readNumber_number (n : Nat) : readNumber 0 (number n) = .ok n := by
  unfold readNumber number
  split_ifs with hn
  · rw [readAll_nil, hn]
    rfl
  · have hread := WireField.readAll_encode [⟨1, .varint n⟩]
    rw [List.flatMap_singleton] at hread
    rw [hread]
    rfl

variable {entomb : RawMessage A → Bytes} {exhume : Bytes → Option (RawMessage A × Bytes)}

theorem wire_decode_fields (fs : List WireField) :
    (wire event unevent entomb exhume).decode (fs.flatMap WireField.encode) =
      fs.foldlM (mergeField unevent) ⟨[], 0⟩ := by
  show (readAll WireField.decode _ _ >>= _) = _
  rw [WireField.readAll_encode]
  rfl

/-- **The protobuf encoding is faithful**, if the one of the events is: cut short, it is read up to
the cut or refused, and only the field of sender 0 is not missed. -/
theorem wire_faithful (h : ∀ e ∈ m.events, unevent (event e) = .ok e) :
    (wire event unevent entomb exhume).Faithful m .reliableSerde := by
  have hencode : (wire event unevent entomb exhume).encode m =
      (m.events.map fun e => WireField.mk 1 (.len (event e))).flatMap WireField.encode ++
        (WireField.mk 2 (.len (number m.sender))).encode := by
    show (fields event m).flatMap WireField.encode = _
    rw [fields, List.flatMap_append, List.flatMap_singleton]
  have hevents : (wire event unevent entomb exhume).decode
      ((m.events.map fun e => WireField.mk 1 (.len (event e))).flatMap WireField.encode) =
        .ok ⟨m.events, 0⟩ := by
    rw [wire_decode_fields, foldlM_events m.events h]
    rfl
  have hlast : m.sender = 0 → (WireField.mk 2 (.len (number m.sender))).encode.length = 2 := by
    intro hs
    rw [hs]
    rfl
  refine ⟨?_, fun p hpre hne => ⟨fun hdec => ?_, fun ⟨hs, hlen⟩ => ?_⟩⟩
  · show (wire event unevent entomb exhume).decode ((fields event m).flatMap WireField.encode) = _
    rw [wire_decode_fields, fields, List.foldlM_append, foldlM_events m.events h]
    show [_].foldlM (mergeField unevent) _ = _
    simp only [List.foldlM_cons, mergeField, readNumber_number]
    rfl
  · cases hread : readAll WireField.decode p.length p with
    | error e =>
      have hdec' : (readAll WireField.decode p.length p >>=
        fun fs => fs.foldlM (mergeField unevent) ⟨[], 0⟩) = .ok m := hdec
      simp [hread, bind, Except.bind] at hdec'
    | ok gs =>
      obtain ⟨hgs, hp⟩ := readAll_start WireField.decode_delimits WireField.decode_extends
        WireField.encode_ne_nil hpre p.length le_rfl hread
      -- all that was read is events, since the last field is not whole
      have hgs' : gs <+: m.events.map fun e => WireField.mk 1 (.len (event e)) := by
        rcases List.prefix_concat_iff.mp hgs with hall | hsome
        · exact absurd (by rw [hp, hall]; rfl) hne
        · exact hsome
      obtain ⟨k, hk⟩ : ∃ k, gs = (m.events.take k).map fun e => WireField.mk 1 (.len (event e)) :=
        ⟨gs.length, by rw [List.map_take]; exact List.prefix_iff_eq_take.mp hgs'⟩
      rw [hp, wire_decode_fields, hk,
        foldlM_events _ (fun e he => h e (List.mem_of_mem_take he))] at hdec
      injection hdec with hm
      have hs : m.sender = 0 := by rw [← hm]
      have htake : m.events.take k = m.events := by
        conv_rhs => rw [← hm]
        rfl
      refine ⟨hs, ?_⟩
      rw [hencode, List.length_append, hlast hs, hp, hk, htake]
  · have hp : p =
        (m.events.map fun e => WireField.mk 1 (.len (event e))).flatMap WireField.encode := by
      rw [hencode, List.length_append, hlast hs] at hlen
      rw [hencode] at hpre
      have htake := List.prefix_iff_eq_take.mp hpre
      rwa [List.take_left' (by omega)] at htake
    rw [hp, hevents, ← hs]

end wire

/-! ## Messages that are split -/

/-- The protobuf encoding of a watermark event; the other events are not needed below. -/
def watermarkEvent {A : Type} (e : ArconEventWrapper A) : Bytes :=
  match e.inner with
  | some (.watermark w) => (WireField.mk 2 (.len (number w))).encode
  | _ => []

/-- Read a watermark event. -/
def readWatermarkEvent {A : Type} (bs : Bytes) : Except String (ArconEventWrapper A) := do
  match ← readAll WireField.decode bs.length bs with
  | [⟨2, .len payload⟩] => return ⟨some (.watermark (← readNumber 0 payload))⟩
  | _ => .error "invalid tag value"

/-- The memory image of a message without events: the pointer, the capacity and the length of the
vector, the sender, and the padding. -/
def emptyImage {A : Type} (m : RawMessage A) : Bytes :=
  toLe 8 8 ++ (toLe 8 0 ++ (toLe 8 0 ++ (toLe 4 m.sender ++ toLe 4 0)))

/-- Read the image of a message without events. -/
def readEmptyImage {A : Type} (bs : Bytes) : Option (RawMessage A × Bytes) :=
  if 32 ≤ bs.length ∧ ofLe ((bs.drop 16).take 8) = 0 then
    some (⟨[], ofLe ((bs.drop 24).take 4)⟩, bs.drop 32)
  else none

/-- The two formats on watermark messages and on messages without events. -/
def sample : Codecs Nat := wire watermarkEvent readWatermarkEvent emptyImage readEmptyImage

/-- `u32` as an `ArconType`. -/
def u32Type : ArconType := ⟨50, 51, 1⟩

theorem sample_protobuf : sample.Faithful ⟨[⟨some (.watermark 7)⟩], 1⟩ .reliableSerde := by
  apply wire_faithful
  simp only [List.mem_singleton, forall_eq]
  rfl

theorem sample_image : sample.Faithful ⟨[], 1⟩ .unsafeSerde := by
  refine ⟨⟨[], rfl⟩, fun p hpre hne => ?_⟩
  have hlen : p.length < 32 := by
    have hle : p.length ≤ 32 := hpre.length_le
    rcases Nat.lt_or_eq_of_le hle with hlt | heq
    · exact hlt
    · exact absurd (hpre.eq_of_length heq) hne
  show readEmptyImage p = none
  rw [readEmptyImage, if_neg (by omega)]

/-- In one chunk, and with the version in a chunk of its own, messages are received. -/
theorem flight_round_trip_iff_two :
    Returns sample u32Type .reliableSerde ⟨[[10, 4, 18, 2, 8, 7, 18, 2, 8, 1]], by decide⟩
        ⟨[⟨some (.watermark 7)⟩], 1⟩ ∧
      Returns sample u32Type .unsafeSerde ⟨[[0, 0, 0, 1], emptyImage (A := Nat) ⟨[], 1⟩], by decide⟩
        ⟨[], 1⟩ := by
  constructor
  · exact ((flight_round_trip_iff sample u32Type .reliableSerde _ sample_protobuf).1 _ rfl).mpr
      (Or.inl (by decide))
  · exact ((flight_round_trip_iff sample u32Type .unsafeSerde _ sample_image).1 _ rfl).mpr
      (by show Buf.StartsWithin 4 _; decide)

/-- **Splits and short input.** A watermark of sender 1 whose sender field comes in a chunk of its
own is received as one of sender 0; a memory image that is split is not received; and three bytes
make `UnsafeSerde::deserialise` panic. -/
theorem flight_round_trip_split :
    (∃ b b' : Buf, b.whole = serialise sample u32Type .reliableSerde ⟨[⟨some (.watermark 7)⟩], 1⟩ ∧
        deserialise sample u32Type .reliableSerde b = .ok (.ok ⟨[⟨some (.watermark 7)⟩], 0⟩) b') ∧
      (∃ b b' : Buf, b.whole = serialise sample u32Type .unsafeSerde ⟨[], 1⟩ ∧
        deserialise sample u32Type .unsafeSerde b =
          .ok (.error (.invalidData "Failed to decode flight data")) b') ∧
      ∃ b b' : Buf, b.whole <+: serialise sample u32Type .unsafeSerde ⟨[], 1⟩ ∧
        deserialise sample u32Type .unsafeSerde b =
          .error (.panic "assertion failed: self.remaining() >= dst.len()") b' := by
  refine ⟨⟨⟨[[10, 4, 18, 2, 8, 7], [18, 2, 8, 1]], by decide⟩, _, rfl, rfl⟩,
    ⟨⟨[[0, 0, 0, 1] ++ toLe 8 8, (emptyImage (A := Nat) ⟨[], 1⟩).drop 8], by decide⟩, _, rfl, rfl⟩,
    ⟨⟨[[0, 0, 0]], by decide⟩, _, by decide, rfl⟩⟩

end Arcon.Flight
