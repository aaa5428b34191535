import Arcon.State.FasterIndex
import Mathlib.Order.CompletePartialOrder

/-!
# The keys of all states together

Faster keeps all states in one store, so the keys of different states meet there. What a program
fixes once for each state id is a `Schema`: the types of item key and namespace, and the type of the
state. Under a schema a `Slot` is a piece of state (an id with an item key and a namespace of the
types that belong to it), and an `Entry` is a slot of a map state with a key.

A key starts with the length of the id and the id, so keys of different states differ there
(`id_cancel`); after that the types are the same on both sides, and the metakeys are read off one by
one. `MetaType` lists the types that `serialization.rs` implements `FixedBytes` for.

* **`Slot.cancel`**: two strings that start with the keys of slots start with the same slot.
* **`keysApart`**: no two slots or entries share a key.
-/

namespace Arcon.State

open Bytes FixedBytes

/-! ## Metakey types -/

/-- The types with an `impl FixedBytes`: the primitives by their size, and what is built from them.
A longer tuple is a pair of its first component and the rest. -/
inductive MetaType
  | prim (size : Nat)
  | unit
  | bool
  | tuple (fst snd : MetaType)
  | array (elem : MetaType) (n : Nat)
  deriving DecidableEq, Repr

namespace MetaType

/-- The values of a type. -/
def Val : MetaType → Type
  | prim size => Prim size
  | unit => Unit
  | bool => Bool
  | tuple fst snd => fst.Val × snd.Val
  | array elem n => List.Vector elem.Val n

instance fixedBytes : (t : MetaType) → FixedBytes t.Val
  | prim size => inferInstanceAs (FixedBytes (Prim size))
  | unit => inferInstanceAs (FixedBytes Unit)
  | bool => inferInstanceAs (FixedBytes Bool)
  | tuple fst snd =>
    have := fixedBytes fst
    have := fixedBytes snd
    inferInstanceAs (FixedBytes (fst.Val × snd.Val))
  | array elem n =>
    have := fixedBytes elem
    inferInstanceAs (FixedBytes (List.Vector elem.Val n))

/-- **Every metakey type keeps the laws**, by recursion over how it is built. -/
instance lawful : (t : MetaType) → LawfulFixedBytes t.Val
  | prim size => inferInstanceAs (LawfulFixedBytes (Prim size))
  | unit => inferInstanceAs (LawfulFixedBytes Unit)
  | bool => inferInstanceAs (LawfulFixedBytes Bool)
  | tuple fst snd =>
    have := lawful fst
    have := lawful snd
    inferInstanceAs (LawfulFixedBytes (fst.Val × snd.Val))
  | array elem n =>
    have := lawful elem
    inferInstanceAs (LawfulFixedBytes (List.Vector elem.Val n))

instance decEq : (t : MetaType) → DecidableEq t.Val
  | prim size => inferInstanceAs (DecidableEq (Prim size))
  | unit => inferInstanceAs (DecidableEq Unit)
  | bool => inferInstanceAs (DecidableEq Bool)
  | tuple fst snd =>
    have := decEq fst
    have := decEq snd
    inferInstanceAs (DecidableEq (fst.Val × snd.Val))
  | array elem n =>
    have := decEq elem
    inferInstanceAs (DecidableEq (List.Vector elem.Val n))

end MetaType

/-! ## State types -/

/-- The trait `Aggregator`. Merging accumulators and reading one are code of the program that may
panic. -/
structure Aggregator where
  Input : Type
  Accumulator : Type
  Output : Type
  [input : Message Input]
  [accumulator : Message Accumulator]
  createAccumulator : Accumulator
  add : Accumulator → Input → Accumulator
  mergeAccumulators : Accumulator → Accumulator → Result Accumulator
  accumulatorIntoResult : Accumulator → Result Output

/-- The types that implement `StateType`, with the extra data of a handle. -/
inductive StateType : Type 1
  | value (T : Type) [Message T]
  | map (K V : Type) [Message K] [LawfulMessage K] [Message V]
  | vec (T : Type) [Message T]
  | reducer (T : Type) [Message T] (reduce : T → T → T)
  | aggregator (A : Aggregator)

namespace StateType

/-- The keys of a map state; other states have none. -/
def Key : StateType → Type
  | map K _ => K
  | value _ | vec _ | reducer _ _ | aggregator _ => Empty

instance : (st : StateType) → Message st.Key
  | @map _ _ hK _ _ => hK
  | value _ | vec _ | reducer _ _ | aggregator _ => ⟨Empty.elim, fun _ => none⟩

instance : (st : StateType) → LawfulMessage st.Key
  | @map _ _ _ hK _ => hK
  | value _ | vec _ | reducer _ _ | aggregator _ => ⟨fun a => a.elim, fun a => a.elim⟩

end StateType

/-- What a program fixes for each state id. -/
structure Schema where
  itemKey : String → MetaType
  nspace : String → MetaType
  state : String → StateType

variable {S : Schema}

/-- A piece of state. The length of an id is a `usize`. -/
structure Slot (S : Schema) where
  id : String
  fits : id.toUTF8.data.toList.length ≤ u64Max
  itemKey : (S.itemKey id).Val
  nspace : (S.nspace id).Val
  deriving DecidableEq

namespace Slot

/-- The handle of a slot. -/
def handle (s : Slot S) : Handle (S.itemKey s.id).Val (S.nspace s.id).Val :=
  ⟨s.id, s.itemKey, s.nspace⟩

/-- The keys of the slot's state. -/
abbrev Key (s : Slot S) : Type := (S.state s.id).Key

end Slot

/-- A slot of a map state and a key. -/
abbrev Entry (S : Schema) := Σ s : Slot S, s.Key

/-! ## Reading the id -/

/-- The part of the key space that belongs to a handle: the keys that start with its own. -/
def Handle.region {IK N : Type} [FixedBytes IK] [FixedBytes N] (h : Handle IK N) : Set Bytes :=
  {x | h.idMetakeys <+: x}

/-- **The id can be read off any string that starts with it**, whatever types come after it. -/
theorem id_cancel {IK N IK' N' : Type} [FixedBytes IK] [FixedBytes N] [FixedBytes IK']
    [FixedBytes N'] {h : Handle IK N} {h' : Handle IK' N'} (hlen : h.idBytes.length ≤ u64Max)
    (hlen' : h'.idBytes.length ≤ u64Max) {r r' : Bytes}
    (heq : h.idMetakeys ++ r = h'.idMetakeys ++ r') :
    h.id = h'.id ∧ h.metakeys ++ r = h'.metakeys ++ r' := by
  unfold Handle.idMetakeys at heq
  simp only [List.append_assoc] at heq
  obtain ⟨husize, heq⟩ := delimits.cancel heq
  have hbytes : h.idBytes.length = h'.idBytes.length := by
    rw [← toNat_usize hlen, ← toNat_usize hlen', husize]
  obtain ⟨hid, hrest⟩ := List.append_inj heq hbytes
  have hutf : h.id.toUTF8 = h'.id.toUTF8 := ByteArray.ext (Array.ext' hid)
  exact ⟨String.toByteArray_inj.mp hutf, hrest⟩

namespace Slot

/-- Two slots of one state whose metakeys start a string. -/
theorem metakeys_cancel {s t : Slot S} (hid : s.id = t.id) {r r' : Bytes}
    (heq : s.handle.metakeys ++ r = t.handle.metakeys ++ r') : s = t ∧ r = r' := by
  obtain ⟨id, fits, ik, n⟩ := s
  obtain ⟨id', fits', ik', n'⟩ := t
  obtain rfl : id = id' := hid
  obtain ⟨⟨hik, hn⟩, hr⟩ := Handle.metakeys_cancel heq
  obtain rfl : ik = ik' := hik
  obtain rfl : n = n' := hn
  exact ⟨rfl, hr⟩

/-- **The slot can be read off any string that starts with its key.** -/
theorem cancel {s t : Slot S} {r r' : Bytes}
    (heq : s.handle.idMetakeys ++ r = t.handle.idMetakeys ++ r') : s = t ∧ r = r' := by
  have hfits : t.handle.idBytes.length ≤ u64Max := t.fits
  obtain ⟨hid, hrest⟩ := id_cancel (h := s.handle) s.fits hfits heq
  exact metakeys_cancel hid hrest

/-- **The parts of different slots have no key in common.** -/
theorem region_disjoint {s t : Slot S} (hne : s ≠ t) :
    Disjoint s.handle.region t.handle.region := by
  rw [Set.disjoint_left]
  rintro x ⟨r, hr⟩ ⟨r', hr'⟩
  exact hne (cancel (hr.trans hr'.symm)).1

end Slot

/-! ## No two keys are the same -/

/-- What the key functions give for the slots and entries of a schema. -/
structure KeysApart (S : Schema) : Prop where
  /-- Different slots have different keys. -/
  prefixKeys : ∀ s : Slot S, ∃ b, s.handle.serializeIdAndMetakeys = .ok b ∧
    ∀ t : Slot S, t.handle.serializeIdAndMetakeys = .ok b → t = s
  /-- Different entries have different keys, also in different states. -/
  entryKeys : ∀ e : Entry S, ∃ b, e.1.handle.serializeIdMetakeysAndKey e.2 = .ok b ∧
    ∀ e' : Entry S, e'.1.handle.serializeIdMetakeysAndKey e'.2 = .ok b → e' = e
  /-- A value, a list, an aggregate or a key list is never stored where an entry is. -/
  prefixKey_ne_entryKey : ∀ (s : Slot S) (e : Entry S),
    s.handle.serializeIdAndMetakeys ≠ e.1.handle.serializeIdMetakeysAndKey e.2
  /-- The same for the backends with a table for each state. -/
  localKeys : ∀ e : Entry S, ∃ b, e.1.handle.serializeMetakeysAndKey e.2 = .ok b ∧
    ∀ e' : Entry S, e'.1.id = e.1.id →
      e'.1.handle.serializeMetakeysAndKey e'.2 = .ok b → e' = e
  /-- The entries of a slot are the ones under its prefix. -/
  prefix_iff : ∀ (s : Slot S) (e : Entry S), s.id = e.1.id → ∃ p b,
    s.handle.serializeMetakeys = .ok p ∧ e.1.handle.serializeMetakeysAndKey e.2 = .ok b ∧
      (p <+: b ↔ e.1 = s)

/-- Entries with the same key, where what stands before the key tells the slot. -/
theorem entry_eq (enc : Slot S → Bytes) {e e' : Entry S}
    (hcancel : ∀ {r r' : Bytes}, enc e.1 ++ r = enc e'.1 ++ r' → e.1 = e'.1 ∧ r = r')
    (heq : enc e.1 ++ protobuf.serialize e.2 = enc e'.1 ++ protobuf.serialize e'.2) : e = e' := by
  obtain ⟨s, k⟩ := e
  obtain ⟨t, k'⟩ := e'
  obtain ⟨hst, hkey⟩ := hcancel heq
  dsimp only at hst hkey
  subst hst
  rw [protobuf.delimits_message.injective hkey]

theorem keysApart (S : Schema) : KeysApart S where
  prefixKeys s := by
    refine ⟨_, s.handle.serializeIdAndMetakeys_eq, fun t ht => ?_⟩
    rw [Handle.serializeIdAndMetakeys_eq] at ht
    injection ht with heq
    have happ : s.handle.idMetakeys ++ [] = t.handle.idMetakeys ++ [] := by rw [heq]
    exact (Slot.cancel happ).1.symm
  entryKeys e := by
    refine ⟨_, e.1.handle.serializeIdMetakeysAndKey_eq e.2, fun e' he' => ?_⟩
    rw [Handle.serializeIdMetakeysAndKey_eq] at he'
    injection he' with heq
    exact entry_eq (fun s => s.handle.idMetakeys) Slot.cancel heq
  prefixKey_ne_entryKey s e := by
    rw [Handle.serializeIdAndMetakeys_eq, Handle.serializeIdMetakeysAndKey_eq]
    intro heq
    injection heq with heq
    have hr : s.handle.idMetakeys ++ [] = e.1.handle.idMetakeys ++ protobuf.serialize e.2 := by
      rw [List.append_nil, heq]
    exact LawfulMessage.encode_ne_nil e.2 (Slot.cancel hr).2.symm
  localKeys e := by
    refine ⟨_, e.1.handle.serializeMetakeysAndKey_eq e.2, fun e' hid he' => ?_⟩
    rw [Handle.serializeMetakeysAndKey_eq] at he'
    injection he' with heq
    exact entry_eq (fun s => s.handle.metakeys) (Slot.metakeys_cancel hid) heq
  prefix_iff s e hid := by
    refine ⟨_, _, s.handle.serializeMetakeys_eq, e.1.handle.serializeMetakeysAndKey_eq e.2, ?_⟩
    constructor
    · rintro ⟨r, hr⟩
      exact (Slot.metakeys_cancel hid hr).1.symm
    · intro heq
      rw [← heq]
      exact List.prefix_append _ _

end Arcon.State
