import Arcon.Kompact.RoundTrip

/-!
# A failed `encode` (`kompact-extension/.../netty/KompactEncoder.scala`)

`encode` writes to the buffer it is given as it goes along, and catches every exception: Netty takes
what is in the buffer for the message, puts its length in front and sends it. Missing paths are
noticed before anything is written. An address that is not four signed bytes is noticed in the
middle of the paths, and a buffer that is full wherever it is.

* `appends_path`, `appends_envelope`: when an envelope is written, and that nothing is taken back.
* `atomic_iff_of_room`: behind the magic number every failure leaves something.
* **`encode_atomic_iff`**: a failed `encode` leaves the buffer as it was exactly if a path is
  missing, or there is no room for the magic number, or it does not fail at all.
* `encode_torn`: a frame for 10.0.0.200.
-/

namespace Arcon.Kompact

open Bytes Exec

section atomic

variable {M : Type} (gen : Generated M)

/-- `KompactEncoder.encode` into a buffer with some content. -/
def encodeInto (msg : KompactAkkaEnvelope M) (outBuf : Bytes) : Bytes :=
  final (encodeBody gen msg outBuf)

theorem encode_eq_encodeInto (msg : KompactAkkaEnvelope M) :
    encode gen msg = encodeInto gen msg [] := rfl

/-- An `encode` that fails leaves the buffer as it was. -/
def Atomic (msg : KompactAkkaEnvelope M) (outBuf : Bytes) : Prop :=
  isOk (encodeBody gen msg outBuf) = false → encodeInto gen msg outBuf = outBuf

/-- `p.ip.split('.').map(_.toByte)`. -/
def ips (p : KompactAkkaPath) : Except Exception Bytes := (split p.ip '.').mapM toByte

/-- All parts of the address are signed bytes. -/
def Numeric (p : KompactAkkaPath) : Prop := ∃ bs, ips p = .ok bs

/-- The bytes that a path takes. -/
def pathSize (p : KompactAkkaPath) : Nat :=
  5 + (match ips p with | .ok bs => bs.length | .error _ => 0) + (getBytes p.path).length

/-- The bytes that an envelope takes behind the magic number. -/
def restSize (msg : KompactAkkaEnvelope M) (src dst : KompactAkkaPath) : Nat :=
  21 + pathSize src + pathSize dst + (gen.toByteArray msg).length

variable {gen} {msg : KompactAkkaEnvelope M} {src dst : KompactAkkaPath}

theorem appends_write (bs : Bytes) : Appends maxCapacity (writeBytes bs) True bs.length :=
  appends_push _ bs

/-- **A path** is written exactly if its address is numeric and there is room for it. -/
theorem appends_path (p : KompactAkkaPath) :
    Appends maxCapacity (serializeActorpath p) (Numeric p) (pathSize p) := by
  unfold serializeActorpath Numeric pathSize
  rw [show (split p.ip '.').mapM toByte = ips p from rfl]
  cases hips : ips p with
  | error e =>
    have hthrow : Appends maxCapacity (lift (.error e) >>= fun bs : Bytes => do
        writeBytes bs
        writeShort p.port
        writeShort (utf16Length p.path)
        writeBytes (getBytes p.path)) False (4 + (getBytes p.path).length) := appends_throw e _
    refine ((appends_write (toBeSigned 1 129)).seq hthrow).of_iff (by simp) ?_
    simp only [length_toBeSigned]
    omega
  | ok bs =>
    have hrest := (appends_write bs).seq ((appends_write (toBeSigned 2 p.port)).seq
      ((appends_write (toBeSigned 2 (utf16Length p.path))).seq (appends_write (getBytes p.path))))
    refine ((appends_write (toBeSigned 1 129)).seq hrest).of_iff (by simp) ?_
    simp only [length_toBeSigned]
    omega

/-- What `encode` does behind the magic number. -/
theorem appends_envelope (msg : KompactAkkaEnvelope M) (src dst : KompactAkkaPath) (n : Int) :
    Appends maxCapacity (do
      writeByte frameType
      writeInt 1
      writeInt seqNum
      writeInt n
      serializeActorpath src
      serializeActorpath dst
      writeLong protoSerIdent
      writeBytes (gen.toByteArray msg)) (Numeric src ∧ Numeric dst) (restSize gen msg src dst) := by
  have hend := (appends_path src).seq ((appends_path dst).seq
    ((appends_write (toBeSigned 8 protoSerIdent)).seq (appends_write (gen.toByteArray msg))))
  refine ((appends_write (toBeSigned 1 frameType)).seq ((appends_write (toBeSigned 4 1)).seq
    ((appends_write (toBeSigned 4 seqNum)).seq
      ((appends_write (toBeSigned 4 n)).seq hend)))).of_iff ?_ ?_
  · simp
  · unfold restSize
    simp only [length_toBeSigned]
    omega

/-- `encode` with both paths: the magic number, and the rest. -/
theorem encodeBody_eq (hs : msg.src = some src) (hd : msg.dst = some dst) :
    encodeBody gen msg = writeInt magicNumber >>= fun _ => (do
      writeByte frameType
      writeInt 1
      writeInt seqNum
      writeInt (payloadLen gen msg src dst)
      serializeActorpath src
      serializeActorpath dst
      writeLong protoSerIdent
      writeBytes (gen.toByteArray msg)) := by
  unfold encodeBody
  rw [hs, hd]
  rfl

variable {outBuf : Bytes}

/-- A path that is missing is noticed before anything is written. -/
theorem atomic_of_missing (h : msg.src = none ∨ msg.dst = none) : Atomic gen msg outBuf := by
  intro _
  unfold encodeInto encodeBody
  rcases h with hs | hd
  · rw [hs]
    rfl
  · rw [hd]
    cases msg.src <;> rfl

/-- So is a buffer without room for the magic number. -/
theorem atomic_of_full (hs : msg.src = some src) (hd : msg.dst = some dst)
    (hfull : ¬outBuf.length + 4 ≤ maxCapacity) : Atomic gen msg outBuf := by
  have hmagic : writeInt magicNumber outBuf = .error .indexOutOfBounds outBuf :=
    if_neg (by rwa [length_toBeSigned])
  intro _
  unfold encodeInto
  rw [encodeBody_eq hs hd, bind_error hmagic]
  rfl

/-- Behind the magic number nothing is taken back, so nothing may fail. -/
theorem atomic_iff_of_room (hs : msg.src = some src) (hd : msg.dst = some dst)
    (hroom : outBuf.length + 4 ≤ maxCapacity) :
    Atomic gen msg outBuf ↔ (Numeric src ∧ Numeric dst) ∧
      outBuf.length + 4 + restSize gen msg src dst ≤ maxCapacity := by
  have hmagic : writeInt magicNumber outBuf = .ok () (outBuf ++ toBeSigned 4 magicNumber) :=
    if_pos (by rwa [length_toBeSigned])
  have hrest : Appends maxCapacity _ _ (restSize gen msg src dst) :=
    appends_envelope msg src dst (payloadLen gen msg src dst)
  have hok := hrest.isOk_iff (outBuf ++ toBeSigned 4 magicNumber)
  have hstays := (hrest.isPrefix_final (outBuf ++ toBeSigned 4 magicNumber)).length_le
  rw [List.length_append, length_toBeSigned] at hok hstays
  unfold Atomic encodeInto
  rw [encodeBody_eq hs hd, bind_ok hmagic]
  constructor
  · intro h
    refine hok.mp ?_
    by_contra hfail
    rw [h (Bool.eq_false_iff.mpr hfail)] at hstays
    omega
  · intro hreturns hfail
    rw [hok.mpr hreturns] at hfail
    cases hfail

/-- **When a failed `encode` leaves the buffer alone.** For every envelope and every content of the
buffer: exactly if a path is missing, or there is no room for the magic number, or nothing fails
because both addresses are numeric and there is room for all. -/
theorem encode_atomic_iff (gen : Generated M) (msg : KompactAkkaEnvelope M) (outBuf : Bytes) :
    Atomic gen msg outBuf ↔ msg.src = none ∨ msg.dst = none ∨ maxCapacity < outBuf.length + 4 ∨
      ∃ src dst, msg.src = some src ∧ msg.dst = some dst ∧ Numeric src ∧ Numeric dst ∧
        outBuf.length + 4 + restSize gen msg src dst ≤ maxCapacity := by
  cases hs : msg.src with
  | none => exact iff_of_true (atomic_of_missing (.inl hs)) (.inl rfl)
  | some src =>
    cases hd : msg.dst with
    | none => exact iff_of_true (atomic_of_missing (.inr hd)) (.inr (.inl rfl))
    | some dst =>
      by_cases hroom : outBuf.length + 4 ≤ maxCapacity
      swap
      · exact iff_of_true (atomic_of_full hs hd hroom) (.inr (.inr (.inl (not_le.mp hroom))))
      rw [atomic_iff_of_room hs hd hroom]
      constructor
      · rintro ⟨⟨hsrc, hdst⟩, hfits⟩
        exact .inr (.inr (.inr ⟨src, dst, rfl, rfl, hsrc, hdst, hfits⟩))
      · rintro (hnone | hnone | hfull | ⟨src', dst', hsrc, hdst, hnum, hnum', hfits⟩)
        · cases hnone
        · cases hnone
        · omega
        · cases hsrc
          cases hdst
          exact ⟨⟨hnum, hnum'⟩, hfits⟩

end atomic

/-- **A torn frame.** The address 10.0.0.200 of the second path is noticed when the header and the
first path are written: 35 bytes are left in the buffer, and sent. -/
theorem encode_torn :
    isOk (encodeBody addressing ⟨some executor, some remoteExecutor, none⟩ []) = false ∧
      (encodeInto addressing ⟨some executor, some remoteExecutor, none⟩ []).length = 35 ∧
      ¬Atomic addressing ⟨some executor, some remoteExecutor, none⟩ [] := by
  have hfail : isOk (encodeBody addressing ⟨some executor, some remoteExecutor, none⟩ []) =
      false := by
    decide +kernel
  have hlen :
      (encodeInto addressing ⟨some executor, some remoteExecutor, none⟩ []).length = 35 := by
    decide +kernel
  refine ⟨hfail, hlen, fun h => ?_⟩
  rw [h hfail] at hlen
  cases hlen

end Arcon.Kompact
