import Arcon.State.Keyspace

/-!
# The two decoders of a fixed-size type (`serialization.rs`)

Every `FixedBytes` type is written by two functions and read by two: `deserialize` takes a slice,
`deserialize_from` takes `SIZE` bytes off the front of a buffer. Tuples and arrays read a slice by
taking the buffer route, and `()` reads nothing. The primitives, and `bool` through `u8`, copy the
slice into an array of `SIZE` bytes; their check lets longer slices pass, and `copy_from_slice`
panics on them.

`Takes n` says what a reader makes of any number of bytes; it is kept by reading one thing after
another, and so `deserialize_from` of every type takes `SIZE` bytes (`MetaType.takes`).

* **`fixed_bytes_round_trip`**: all four functions agree on what a value is written as.
* **`decoders_agree_iff`**: the two decoders agree on a slice unless the type is a primitive or
  `bool` and the slice is longer than `SIZE`.
-/

namespace Arcon.State

open Bytes FixedBytes

/-! ## Reading off the front -/

/-- A reader that takes `n` bytes: on fewer it returns an error, and else it leaves the others. -/
structure Takes {α : Type} (n : Nat) (read : Bytes → Result (α × Bytes)) : Prop where
  short : ∀ source : Bytes, source.length < n → ∃ sourceLen needed, sourceLen < needed ∧
    read source = .error (.err (.fixedBytesDeserializationError sourceLen needed))
  long : ∀ source : Bytes, n ≤ source.length → ∃ a, read source = .ok (a, source.drop n)

namespace Takes

variable {α β γ : Type} {m n : Nat} {read : Bytes → Result (α × Bytes)}
  {next : Bytes → Result (β × Bytes)}

theorem map (h : Takes n read) (f : α → β) :
    Takes n fun source => do
      let (a, rest) ← read source
      pure (f a, rest) where
  short source hlt := by
    obtain ⟨sourceLen, needed, hneeded, herr⟩ := h.short source hlt
    exact ⟨sourceLen, needed, hneeded, by rw [herr]; rfl⟩
  long source hle := by
    obtain ⟨a, ha⟩ := h.long source hle
    exact ⟨f a, by rw [ha]; rfl⟩

/-- One reader after the other. If the bytes are enough for the first only, the second fails. -/
theorem seq (h : Takes m read) (h' : Takes n next) (f : α → β → γ) :
    Takes (m + n) fun source => do
      let (a, rest) ← read source
      let (b, rest) ← next rest
      pure (f a b, rest) where
  short source hlt := by
    by_cases hfst : source.length < m
    · obtain ⟨sourceLen, needed, hneeded, herr⟩ := h.short source hfst
      exact ⟨sourceLen, needed, hneeded, by rw [herr]; rfl⟩
    · obtain ⟨a, ha⟩ := h.long source (Nat.not_lt.mp hfst)
      have hrest : (source.drop m).length < n := by
        rw [List.length_drop]
        omega
      obtain ⟨sourceLen, needed, hneeded, herr⟩ := h'.short _ hrest
      refine ⟨sourceLen, needed, hneeded, ?_⟩
      rw [ha, ok_bind]
      dsimp only
      rw [herr]
      rfl
  long source hle := by
    obtain ⟨a, ha⟩ := h.long source (by omega)
    have hrest : n ≤ (source.drop m).length := by
      rw [List.length_drop]
      omega
    obtain ⟨b, hb⟩ := h'.long _ hrest
    refine ⟨f a b, ?_⟩
    rw [ha, ok_bind]
    dsimp only
    rw [hb, List.drop_drop]
    rfl

end Takes

theorem Prim.takes (w : Nat) : Takes w (deserializeFrom (α := Prim w)) where
  short source h := ⟨source.length, w, h, if_pos h⟩
  long source h := ⟨fromLeBytes (source.take w), if_neg (Nat.not_lt.mpr h)⟩

/-- The loop of an array takes as many bytes as its turns together. -/
theorem takes_deserializeElems {α : Type} [FixedBytes α]
    (h : Takes (size α) (deserializeFrom (α := α))) (n : Nat) :
    Takes (size α * n) (deserializeElems (α := α) n) := by
  induction n with
  | zero => exact ⟨fun _ hlt => absurd hlt (Nat.not_lt_zero _), fun _ _ => ⟨_, rfl⟩⟩
  | succ n ih =>
    have hsize : size α * (n + 1) = size α + size α * n := by rw [Nat.mul_succ, Nat.add_comm]
    rw [hsize]
    exact h.seq ih List.Vector.cons

/-- **Every type takes `SIZE` bytes**, by induction over how it is built. -/
theorem MetaType.takes (t : MetaType) : Takes (size t.Val) (deserializeFrom (α := t.Val)) := by
  induction t with
  | prim w => exact Prim.takes w
  | unit => exact ⟨fun _ hlt => absurd hlt (Nat.not_lt_zero _), fun _ _ => ⟨(), rfl⟩⟩
  | bool => exact (Prim.takes 1).map (· != 0)
  | tuple fst snd ihfst ihsnd => exact ihfst.seq ihsnd Prod.mk
  | array elem n ih => exact takes_deserializeElems ih n

/-! ## Reading a slice -/

/-- A slice read through `deserialize_from`, as tuples and arrays do; what is left is dropped. -/
def readFront (α : Type) [FixedBytes α] (bytes : Bytes) : Result α := do
  let (a, _) ← deserializeFrom bytes
  pure a

/-- The types whose `deserialize` copies the slice into an array: the primitives and `bool`. -/
def MetaType.CopiesSlice : MetaType → Prop
  | prim _ | bool => True
  | unit | tuple _ _ | array _ _ => False

instance : (t : MetaType) → Decidable t.CopiesSlice
  | .prim _ | .bool => .isTrue trivial
  | .unit | .tuple _ _ | .array _ _ => .isFalse id

section prim

variable {w : Nat} {bytes : Bytes}

theorem Prim.deserialize_of_le (h : bytes.length ≤ w) :
    deserialize (α := Prim w) bytes = readFront (Prim w) bytes := by
  unfold readFront
  by_cases hlt : bytes.length < w
  · simp only [deserialize, deserializeFrom, hlt, if_true]
    rfl
  · have heq : bytes.length = w := by omega
    simp only [deserialize, deserializeFrom, heq, Nat.lt_irrefl, if_false, ne_eq, not_true]
    rw [ok_bind, List.take_of_length_le h]
    rfl

theorem Prim.deserialize_of_lt (h : w < bytes.length) : deserialize (α := Prim w) bytes =
    .error (.panic "source slice length does not match destination slice length") := by
  have hlt : ¬bytes.length < w := by omega
  have hne : bytes.length ≠ w := by omega
  simp only [deserialize, hlt, if_false, hne, ne_eq, not_false_iff, if_true]

theorem deserialize_bool (bytes : Bytes) : deserialize (α := Bool) bytes = (do
    let x ← deserialize (α := Prim 1) bytes
    pure (x != 0)) := rfl

end prim

namespace MetaType

variable {bytes : Bytes}

/-- **What `deserialize` reads**, where it does not copy or the slice is not too long. -/
theorem deserialize_eq {t : MetaType} (h : t.CopiesSlice → bytes.length ≤ size t.Val) :
    deserialize bytes = readFront t.Val bytes := by
  cases t with
  | prim w => exact Prim.deserialize_of_le (h trivial)
  | unit => rfl
  | bool =>
    have hread : deserialize (α := Bool) bytes = readFront Bool bytes := by
      rw [deserialize_bool, Prim.deserialize_of_le (w := 1) (h trivial)]
      unfold readFront
      show _ = (deserializeFrom (α := Prim 1) bytes >>= fun r => pure (r.1 != 0, r.2)) >>=
        fun r => pure r.1
      cases deserializeFrom (α := Prim 1) bytes <;> rfl
    exact hread
  | tuple fst snd =>
    have hread : deserialize (α := fst.Val × snd.Val) bytes =
        readFront (fst.Val × snd.Val) bytes := by
      unfold readFront
      show (deserializeFrom (α := fst.Val) bytes >>= fun r =>
          deserializeFrom (α := snd.Val) r.2 >>= fun r' => pure (r.1, r'.1)) =
        (deserializeFrom (α := fst.Val) bytes >>= fun r =>
          deserializeFrom (α := snd.Val) r.2 >>= fun r' => pure ((r.1, r'.1), r'.2)) >>=
            fun r => pure r.1
      cases deserializeFrom (α := fst.Val) bytes with
      | error e => rfl
      | ok r => cases hsnd : deserializeFrom (α := snd.Val) r.2 <;> simp [hsnd]
    exact hread
  | array elem n => rfl

/-- **A slice that is too long does not fit the array it is copied into.** -/
theorem deserialize_panics {t : MetaType} (hcopies : t.CopiesSlice)
    (hlong : size t.Val < bytes.length) : deserialize (α := t.Val) bytes =
      .error (.panic "source slice length does not match destination slice length") := by
  cases t with
  | prim w => exact Prim.deserialize_of_lt hlong
  | bool =>
    have hpanic : deserialize (α := Bool) bytes =
        .error (.panic "source slice length does not match destination slice length") := by
      rw [deserialize_bool, Prim.deserialize_of_lt (w := 1) hlong]
      rfl
    exact hpanic
  | unit => exact hcopies.elim
  | tuple fst snd => exact hcopies.elim
  | array elem n => exact hcopies.elim

end MetaType

/-! ## Round trip -/

/-- **What is written is read back.** For every type built from the primitives, `bool` and `()` by
tuples and arrays, and every value of it: `serialize` gives `SIZE` bytes; `serialize_into` appends
these bytes to every target with room for them; `deserialize` reads the value back;
`deserialize_from` reads it back in front of any other bytes and leaves these; and on fewer than
`SIZE` bytes `deserialize_from` returns an error. -/
theorem fixed_bytes_round_trip (t : MetaType) (x : t.Val) :
    ∃ bytes, serialize x = .ok bytes ∧ bytes.length = size t.Val ∧
      (∀ target : BufMut, target.hasRoom (size t.Val) = true →
        serializeInto target x = .ok (target.putSlice bytes)) ∧
      deserialize bytes = .ok x ∧
      (∀ rest, deserializeFrom (bytes ++ rest) = .ok (x, rest)) ∧
      ∀ source : Bytes, source.length < size t.Val →
        ∃ e, deserializeFrom (α := t.Val) source = .error (.err e) := by
  have hlen : (encode x).length = size t.Val := length_encode x
  refine ⟨encode x, serialize_eq x, hlen, fun target hroom => serializeInto_eq target x hroom, ?_,
    fun rest => delimits x rest, fun source hshort => ?_⟩
  · have hfront := delimits x []
    rw [List.append_nil] at hfront
    rw [MetaType.deserialize_eq fun _ => hlen.le]
    unfold readFront
    rw [hfront]
    rfl
  · obtain ⟨sourceLen, needed, -, herr⟩ := t.takes.short source hshort
    exact ⟨_, herr⟩

/-- The payload of `test_fixed_bytes`. -/
example : serialize (α := Prim 1 × Prim 8 × Prim 2)
    (255, 0xDEADBEEFCAFEBABE, BitVec.ofInt 16 (-128)) =
      .ok [255, 0xBE, 0xBA, 0xFE, 0xCA, 0xEF, 0xBE, 0xAD, 0xDE, 128, 255] := by
  rfl

/-! ## Agreement -/

/-- The two decoders agree on these bytes: `deserialize` does not panic, and it returns the value or
an error that `deserialize_from` returns. -/
structure DecodersAgree (α : Type) [FixedBytes α] (bytes : Bytes) : Prop where
  noPanic : ∀ msg, deserialize (α := α) bytes ≠ .error (.panic msg)
  ok : ∀ a : α, deserialize bytes = .ok a ↔ ∃ rest, deserializeFrom bytes = .ok (a, rest)
  err : (∃ e, deserialize (α := α) bytes = .error (.err e)) ↔
    ∃ e, deserializeFrom (α := α) bytes = .error (.err e)

/-- They agree where `deserialize` takes the other way. -/
theorem decodersAgree_of_readFront {α : Type} [FixedBytes α]
    (htakes : Takes (size α) (deserializeFrom (α := α))) {bytes : Bytes}
    (h : deserialize bytes = readFront α bytes) : DecodersAgree α bytes := by
  unfold readFront at h
  by_cases hshort : bytes.length < size α
  · obtain ⟨sourceLen, needed, -, herr⟩ := htakes.short bytes hshort
    rw [herr] at h
    refine ⟨fun msg hpanic => ?_, fun a => ?_, fun _ => ⟨_, herr⟩, fun _ => ⟨_, h⟩⟩
    · cases h.symm.trans hpanic
    · constructor
      · intro hok
        cases h.symm.trans hok
      · rintro ⟨rest, hok⟩
        cases herr.symm.trans hok
  · obtain ⟨a, ha⟩ := htakes.long bytes (Nat.not_lt.mp hshort)
    rw [ha] at h
    refine ⟨fun msg hpanic => ?_, fun b => ?_, ?_⟩
    · cases h.symm.trans hpanic
    · constructor
      · intro hok
        cases h.symm.trans hok
        exact ⟨_, ha⟩
      · rintro ⟨rest, hok⟩
        cases ha.symm.trans hok
        exact h
    · constructor
      · rintro ⟨e, herr⟩
        cases h.symm.trans herr
      · rintro ⟨e, herr⟩
        cases ha.symm.trans herr

/-- **When the two decoders agree.** For every type and every slice: `deserialize` does not panic
and returns what `deserialize_from` does if and only if the type is `()`, a tuple or an array, or
the slice has at most `SIZE` bytes. -/
theorem decoders_agree_iff (t : MetaType) (bytes : Bytes) :
    DecodersAgree t.Val bytes ↔ (t.CopiesSlice → bytes.length ≤ size t.Val) := by
  constructor
  · intro hagree hcopies
    by_contra hlong
    exact hagree.noPanic _ (MetaType.deserialize_panics hcopies (Nat.not_le.mp hlong))
  · intro h
    exact decodersAgree_of_readFront t.takes (MetaType.deserialize_eq h)

/-- **A `u8` cannot be read from two bytes**, though a buffer of two bytes can be read from. -/
theorem decoders_disagree :
    deserialize (α := (MetaType.prim 1).Val) [42, 0] =
        .error (.panic "source slice length does not match destination slice length") ∧
      deserializeFrom (α := (MetaType.prim 1).Val) [42, 0] = .ok ((42 : Prim 1), [0]) ∧
      ¬DecodersAgree (MetaType.prim 1).Val [42, 0] :=
  ⟨rfl, rfl, fun h => h.noPanic _ rfl⟩

end Arcon.State
