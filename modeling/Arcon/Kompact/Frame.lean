import Mathlib.Data.List.DropRight
import Arcon.Lib.ByteBuf

/-!
# Kompact frames (`kompact-extension/.../netty/KompactEncoder.scala`, `KompactDecoder.scala`)

The frames in which the operational plane and the executors exchange envelopes. The encoder writes a
header, the two actor paths, the serialiser's identifier and the protobuf bytes of the envelope, and
Netty puts the length of it all in front (`LengthFieldPrepender`, its own four bytes counted). The
decoder reads them back. Both catch every exception: the encoder then leaves what it has written,
and the decoder emits nothing.

Strings of the JVM are UTF-16: `length` counts code units (`utf16Length`), `getBytes` is UTF-8, and
`toString(UTF_8)` replaces what is not UTF-8, in a way (`replaced`) that nothing here depends on.
`Byte`s are signed, and `Byte.parseByte` accepts the decimal digits of all scripts
(`Character.digit`), which are those of Unicode 6.2 here (Java 8). A `ByteBuf` holds at most
`Int.MaxValue` bytes. The generated protobuf code is a parameter (`Generated`); an array has at most
`Int.MaxValue` bytes.

`Arcon.Kompact.RoundTrip` says which frames are decoded to the envelope they were encoded from.
-/

namespace Arcon.Kompact

open Bytes

/-- The exceptions that occur. -/
inductive Exception
  | noSuchElement
  | numberFormat (s : String)
  | indexOutOfBounds
  | invalidProtocolBuffer (msg : String)
  deriving DecidableEq, Repr

/-- `KompactAkkaPath`. -/
structure KompactAkkaPath where
  path : String
  ip : String
  port : Int
  deriving DecidableEq, Repr

/-- `KompactAkkaEnvelope`. -/
structure KompactAkkaEnvelope (M : Type) where
  src : Option KompactAkkaPath
  dst : Option KompactAkkaPath
  msg : Option M
  deriving DecidableEq, Repr

/-- `Int.MaxValue`, the largest size of arrays and of buffers. -/
def maxCapacity : Nat := 2 ^ 31 - 1

/-- The protobuf code for envelopes. -/
structure Generated (M : Type) where
  toByteArray : KompactAkkaEnvelope M → Bytes
  parseFrom : Bytes → Except String (KompactAkkaEnvelope M)
  isArray : ∀ env, (toByteArray env).length ≤ maxCapacity

/-! ## Strings -/

/-- The code units of a character. -/
def codeUnits (c : Char) : Nat := if c.toNat < 0x10000 then 1 else 2

/-- `String.length`. -/
def utf16Length (s : String) : Nat := (s.toList.map codeUnits).sum

/-- `String.getBytes`. -/
def getBytes (s : String) : Bytes := s.toList.flatMap String.utf8EncodeChar

/-- `ByteBuf.toString(UTF_8)`. -/
def toStringUtf8 (replaced : Bytes → String) (bs : Bytes) : String :=
  (String.fromUTF8? ⟨bs.toArray⟩).getD (replaced bs)

/-- `String.split(separator)`: empty strings at the end are dropped, unless nothing was split. -/
def split (s : String) (separator : Char) : List (List Char) :=
  if separator ∈ s.toList then (s.toList.splitOn separator).rdropWhile List.isEmpty
  else [s.toList]

/-- The zeros of the scripts that have decimal digits, as far as they are one code unit. -/
def Character.zeros : List Nat :=
  [0x0030, 0x0660, 0x06F0, 0x07C0, 0x0966, 0x09E6, 0x0A66, 0x0AE6, 0x0B66, 0x0BE6, 0x0C66, 0x0CE6,
    0x0D66, 0x0E50, 0x0ED0, 0x0F20, 0x1040, 0x1090, 0x17E0, 0x1810, 0x1946, 0x19D0, 0x1A80, 0x1A90,
    0x1B50, 0x1BB0, 0x1C40, 0x1C50, 0xA620, 0xA8D0, 0xA900, 0xA9D0, 0xAA50, 0xABF0, 0xFF10]

/-- `Character.digit(c, 10)`. The two code units of a character beyond are no digits. -/
def Character.digit (c : Char) : Option Nat :=
  (zeros.find? fun z => z ≤ c.toNat ∧ c.toNat < z + 10).map fun z => c.toNat - z

/-- The number that some digits stand for. -/
def parseDigits (cs : List Char) : Option Nat :=
  if cs = [] then none else (cs.mapM Character.digit).map fun ds => ds.foldl (10 * · + ·) 0

/-- `Integer.parseInt`, on numbers of any size. -/
def parseInt : List Char → Option Int
  | '-' :: cs => (parseDigits cs).map fun n => -(n : Int)
  | '+' :: cs => (parseDigits cs).map fun n => (n : Int)
  | cs => (parseDigits cs).map fun n => (n : Int)

/-- `toByte`. -/
def toByte (cs : List Char) : Except Exception UInt8 :=
  match parseInt cs with
  | some v =>
    if -128 ≤ v ∧ v ≤ 127 then .ok (UInt8.ofNat (v % 256).toNat)
    else .error (.numberFormat (String.ofList cs))
  | none => .error (.numberFormat (String.ofList cs))

/-! ## The encoder -/

/-- `ByteBuf.writeBytes`. -/
def writeBytes (bs : Bytes) : EStateM Exception Bytes Unit := push maxCapacity .indexOutOfBounds bs

/-- `ByteBuf.writeByte`. -/
def writeByte (v : Int) : EStateM Exception Bytes Unit := writeBytes (toBeSigned 1 v)

/-- `ByteBuf.writeShort`. -/
def writeShort (v : Int) : EStateM Exception Bytes Unit := writeBytes (toBeSigned 2 v)

/-- `ByteBuf.writeInt`. -/
def writeInt (v : Int) : EStateM Exception Bytes Unit := writeBytes (toBeSigned 4 v)

/-- `ByteBuf.writeLong`. -/
def writeLong (v : Int) : EStateM Exception Bytes Unit := writeBytes (toBeSigned 8 v)

/-- `Option.get`. -/
def getOption {α : Type} : Option α → EStateM Exception Bytes α
  | some a => pure a
  | none => throw .noSuchElement

/-- A computation that does not touch the buffer. -/
def lift {α : Type} : Except Exception α → EStateM Exception Bytes α
  | .ok a => pure a
  | .error e => throw e

/-- `Frame.frameType`. -/
def frameType : Int := 0x02

/-- `Frame.magicNumber`. -/
def magicNumber : Int := 0xC0A1BA11

/-- `ProtoSerIdent`. -/
def protoSerIdent : Int := 20

/-- `seqNum`, which is never changed. -/
def seqNum : Int := 0

/-- `sizeOfNamedPath`. -/
def sizeOfNamedPath (p : KompactAkkaPath) : Nat := 1 + 4 + 2 + 2 + utf16Length p.path

/-- `serializeActorpath`. -/
def serializeActorpath (p : KompactAkkaPath) : EStateM Exception Bytes Unit := do
  let field : Int := 129
  writeByte field
  let ips ← lift ((split p.ip '.').mapM toByte)
  writeBytes ips
  writeShort p.port
  writeShort (utf16Length p.path)
  writeBytes (getBytes p.path)

section codec

variable {M : Type} (gen : Generated M) (replaced : Bytes → String)

/-- The body of `encode`. -/
def encodeBody (msg : KompactAkkaEnvelope M) : EStateM Exception Bytes Unit := do
  let src ← getOption msg.src
  let dst ← getOption msg.dst
  let streamId : Int := 1
  let payloadLen := sizeOfNamedPath src + sizeOfNamedPath dst + 8 + (gen.toByteArray msg).length
  writeInt magicNumber
  writeByte frameType
  writeInt streamId
  writeInt seqNum
  writeInt payloadLen
  serializeActorpath src
  serializeActorpath dst
  writeLong protoSerIdent
  writeBytes (gen.toByteArray msg)

/-- `KompactEncoder.encode` into a new buffer. -/
def encode (msg : KompactAkkaEnvelope M) : Bytes := Exec.final (encodeBody gen msg [])

/-- `LengthFieldPrepender`. -/
def prepend (bs : Bytes) : Bytes := toBe 4 (bs.length + 4) ++ bs

/-- The frame of an envelope. -/
def frame (msg : KompactAkkaEnvelope M) : Bytes := prepend (encode gen msg)

/-! ## The decoder -/

/-- `ByteBuf.readBytes`. -/
def readBytes (n : Nat) : EStateM Exception Bytes Bytes := pull .indexOutOfBounds n

/-- `ByteBuf.readByte`. -/
def readByte : EStateM Exception Bytes Int := pullSigned .indexOutOfBounds 1

/-- `ByteBuf.readUnsignedShort`. -/
def readUnsignedShort : EStateM Exception Bytes Nat := pullUnsigned .indexOutOfBounds 2

/-- `ByteBuf.readInt`. -/
def readInt : EStateM Exception Bytes Int := pullSigned .indexOutOfBounds 4

/-- `ByteBuf.readLong`. -/
def readLong : EStateM Exception Bytes Int := pullSigned .indexOutOfBounds 8

/-- The two digits of a byte in hexadecimal. -/
def hexDigits (b : UInt8) : List Char := [(b.toNat / 16).digitChar, (b.toNat % 16).digitChar]

/-- `UUID.toString`. -/
def uuidToString (data : Bytes) : String :=
  String.ofList (['-'].intercalate
    [(data.take 4).flatMap hexDigits, ((data.drop 4).take 2).flatMap hexDigits,
      ((data.drop 6).take 2).flatMap hexDigits, ((data.drop 8).take 2).flatMap hexDigits,
      (data.drop 10).flatMap hexDigits])

/-- `mkString(".")` of some bytes as `Int`s. -/
def mkString (ips : List Int) : String := ".".intercalate (ips.map toString)

/-- `(field & (1 << 7)) != 0`. -/
def isNamedPath (field : Int) : Bool := (field % 256).toNat &&& (1 <<< 7) != 0

/-- `deserializeActorpath`. -/
def deserializeActorpath : EStateM Exception Bytes KompactAkkaPath := do
  let field ← readByte
  let ip1 ← readByte
  let ip2 ← readByte
  let ip3 ← readByte
  let ip4 ← readByte
  let ipAddr := mkString [ip1, ip2, ip3, ip4]
  let port ← readUnsignedShort
  if isNamedPath field then
    let namedLength ← readUnsignedShort
    let target ← readBytes namedLength
    return ⟨toStringUtf8 replaced target, ipAddr, port⟩
  else
    let data ← readBytes 16
    return ⟨uuidToString data, ipAddr, port⟩

/-- The fields in front of the actor paths. -/
structure Header where
  frameLen : Int
  magicNum : Int
  frameTyp : Int
  streamId : Int
  seqNum : Int
  payloadLen : Int
  deriving DecidableEq, Repr

/-- The reads of `decode` up to `payloadLen`. -/
def readHeader : EStateM Exception Bytes Header := do
  let frameLen ← readInt
  let magicNum ← readInt
  let frameTyp ← readByte
  let streamId ← readInt
  let seqNum ← readInt
  let payloadLen ← readInt
  return ⟨frameLen, magicNum, frameTyp, streamId, seqNum, payloadLen⟩

/-- The reads of `decode` up to the actor paths. -/
def readPaths : EStateM Exception Bytes (KompactAkkaPath × KompactAkkaPath) := do
  let _ ← readHeader
  let src ← deserializeActorpath replaced
  let dest ← deserializeActorpath replaced
  return (src, dest)

/-- The body of `decode`. -/
def decodeBody : EStateM Exception Bytes (KompactAkkaEnvelope M) := do
  let _ ← readPaths replaced
  let _serIdent ← readLong
  let readable ← get
  let array ← readBytes readable.length
  match gen.parseFrom array with
  | .ok msg => return msg
  | .error err => throw (.invalidProtocolBuffer err)

/-- `KompactDecoder.decode`: the messages that it emits. -/
def decode (source : Bytes) : List (KompactAkkaEnvelope M) :=
  match decodeBody gen replaced source with
  | .ok msg _ => [msg]
  | .error _ _ => []

end codec

end Arcon.Kompact
