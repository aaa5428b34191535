import Arcon.State.MapOps
import Arcon.Lib.Listing

/-!
# The entries of a family of maps

The reference keeps a finite map for every handle (`MapOp.maps`). The store of a state has the
entries of all of them, each under the metakeys of its handle followed by the key: `Family` says
that the store has these and no others. Since the metakeys of the handles of one state have one
length and can be read off the front, the entries that start with the metakeys of a handle are the
map of that handle, and no operation on one handle meets the entries of another.

* `Family.insert`, `Family.remove`, `Family.clear`: the updates of a store.
* **`Family.scan`**: the entries with the metakeys of a handle are its map.
-/

namespace Arcon.State

open FixedBytes Listing

variable {K V IK N : Type} [Message K] [FixedBytes IK] [FixedBytes N]

/-! ## Operations and their meaning -/

/-- The operations that change a map. -/
inductive MapOp (K V IK N : Type)
  | insert (handle : Handle IK N) (key : K) (value : V)
  | fastInsert (handle : Handle IK N) (key : K) (value : V)
  | insertAll (handle : Handle IK N) (pairs : List (K × V))
  | remove (handle : Handle IK N) (key : K)
  | fastRemove (handle : Handle IK N) (key : K)
  | clear (handle : Handle IK N)

/-- A finite map. -/
abbrev FinMap (K V : Type) := Finmap fun _ : K => V

namespace MapOp

/-- The handle an operation is on. -/
def handle : MapOp K V IK N → Handle IK N
  | insert h _ _ | fastInsert h _ _ | insertAll h _ | remove h _ | fastRemove h _ | clear h => h

variable [DecidableEq K]

/-- The operation on a finite map. -/
def onMap (m : FinMap K V) : MapOp K V IK N → FinMap K V
  | insert _ k v | fastInsert _ k v => m.insert k v
  | insertAll _ pairs => pairs.foldl (fun m e => m.insert e.1 e.2) m
  | remove _ k | fastRemove _ k => m.erase k
  | clear _ => ∅

/-- What the operation returns: the value before, for the two that return one. -/
def returns (m : FinMap K V) : MapOp K V IK N → Option (Option V)
  | insert _ k _ | remove _ k => some (m.lookup k)
  | fastInsert .. | insertAll .. | fastRemove .. | clear _ => none

variable [DecidableEq IK] [DecidableEq N]

/-- The operation on a finite map for every handle. -/
def apply (maps : Handle IK N → FinMap K V) (o : MapOp K V IK N) : Handle IK N → FinMap K V :=
  Function.update maps o.handle (o.onMap (maps o.handle))

/-- The maps after a sequence of operations. -/
def maps (ops : List (MapOp K V IK N)) : Handle IK N → FinMap K V :=
  ops.foldl apply fun _ => ∅

end MapOp

/-! ## The entries of a family of maps -/

/-- The bytes the entry of a key is stored under. -/
def Handle.entryKey (h : Handle IK N) (k : K) : Bytes := h.metakeys ++ protobuf.serialize k

section keys

variable [LawfulFixedBytes IK] [LawfulFixedBytes N] {h h' : Handle IK N} {k k' : K}
  (hid : h.id = h'.id)
include hid

/-- An entry key starts with the metakeys of its own handle only. -/
theorem metakeys_prefix_iff : h.metakeys <+: h'.entryKey k ↔ h = h' := by
  refine ⟨fun ⟨r, hr⟩ => ?_, fun heq => ⟨protobuf.serialize k, by rw [heq]; rfl⟩⟩
  obtain ⟨⟨hik, hn⟩, _⟩ := Handle.metakeys_cancel hr
  exact Handle.ext hid hik hn

variable [LawfulMessage K]

/-- **An entry key names its handle and its key.** -/
theorem entryKey_inj (heq : h.entryKey k = h'.entryKey k') : h = h' ∧ k = k' := by
  obtain ⟨⟨hik, hn⟩, hk⟩ := Handle.metakeys_cancel heq
  exact ⟨Handle.ext hid hik hn, protobuf.delimits_message.injective hk⟩

end keys

section family

variable {β : Type} {c : V → β} {id : String} {look : Bytes → Option β}
  [DecidableEq K] {maps : Handle IK N → FinMap K V}

/-- The store of the state `id` has the entries of its maps, values in the form `c`, and no
others. -/
structure Family (c : V → β) (id : String) (look : Bytes → Option β)
    (maps : Handle IK N → FinMap K V) : Prop where
  lookup : ∀ h : Handle IK N, h.id = id → ∀ k, look (h.entryKey k) = ((maps h).lookup k).map c
  range : ∀ b, (look b).isSome → ∃ (h : Handle IK N) (k : K), h.id = id ∧ b = h.entryKey k

/-- The maps of another state are left alone. -/
theorem Family.other [DecidableEq IK] [DecidableEq N] (hf : Family c id look maps)
    {h : Handle IK N} (hid : h.id ≠ id) (m : FinMap K V) :
    Family c id look (Function.update maps h m) where
  lookup h' hid' k := by
    have hne : h' ≠ h := fun heq => hid (by rw [← heq, hid'])
    rw [Function.update_of_ne hne, hf.lookup h' hid' k]
  range := hf.range

variable [LawfulFixedBytes IK] [LawfulFixedBytes N] [LawfulMessage K]

namespace Family

variable (hf : Family c id look maps) {h : Handle IK N} (hid : h.id = id)

section update

variable [DecidableEq IK] [DecidableEq N]
include hf hid

/-- One entry of a map changes. -/
theorem update {look' : Bytes → Option β} {m : FinMap K V} {k : K}
    (hsame : ∀ b, b ≠ h.entryKey k → look' b = look b)
    (hk : look' (h.entryKey k) = (m.lookup k).map c)
    (hm : ∀ k', k' ≠ k → m.lookup k' = (maps h).lookup k') :
    Family c id look' (Function.update maps h m) where
  lookup h' hid' k' := by
    by_cases hh : h' = h
    · subst hh
      rw [Function.update_self]
      by_cases hkk : k' = k
      · rw [hkk, hk]
      · rw [hsame _ fun heq => hkk (entryKey_inj rfl heq).2, hf.lookup h' hid', hm k' hkk]
    · rw [Function.update_of_ne hh,
        hsame _ fun heq => hh (entryKey_inj (hid'.trans hid.symm) heq).1, hf.lookup h' hid']
  range b hb := by
    by_cases heq : b = h.entryKey k
    · exact ⟨h, k, hid, heq⟩
    · exact hf.range b (by rwa [← hsame b heq])

theorem insert {r : Bytes → Option β} {k : K} {v : V}
    (hlook : ∀ b, r b = if b = h.entryKey k then some (c v) else look b) :
    Family c id r (Function.update maps h ((maps h).insert k v)) := by
  refine hf.update hid (k := k) (fun b hb => by rw [hlook, if_neg hb]) ?_ fun k' hk' => ?_
  · rw [hlook, if_pos rfl, Finmap.lookup_insert]
    rfl
  · rw [Finmap.lookup_insert_of_ne _ hk']

theorem remove {look' : Bytes → Option β} {k : K}
    (hlook : ∀ b, look' b = if b = h.entryKey k then none else look b) :
    Family c id look' (Function.update maps h ((maps h).erase k)) := by
  refine hf.update hid (k := k) (fun b hb => by rw [hlook, if_neg hb]) ?_ fun k' hk' => ?_
  · rw [hlook, if_pos rfl, Finmap.lookup_erase]
    rfl
  · rw [Finmap.lookup_erase_ne hk']

omit hf in
/-- Several entries, one after the other. -/
theorem insertAll {look : Bytes → Option β} {maps : Handle IK N → FinMap K V}
    (hf : Family c id look maps) {σ : Type} {r : σ → Bytes → Option β} {put : σ → K × V → σ}
    (hput : ∀ s e b, r (put s e) b = if b = h.entryKey e.1 then some (c e.2) else r s b)
    (pairs : List (K × V)) (s : σ) (hs : r s = look) :
    Family c id (r (pairs.foldl put s))
      (Function.update maps h (pairs.foldl (fun m e => m.insert e.1 e.2) (maps h))) := by
  induction pairs generalizing s look maps with
  | nil => rw [List.foldl_nil, List.foldl_nil, Function.update_eq_self, hs]; exact hf
  | cons e pairs ih =>
    have hf' := hf.insert hid (r := r (put s e)) (k := e.1) (v := e.2)
      (fun b => by rw [hput, hs])
    have hall := ih hf' (put s e) rfl
    rw [Function.update_self, Function.update_idem] at hall
    exact hall

omit [LawfulMessage K] in
/-- All entries with the metakeys of a handle go away. -/
theorem clear {look' : Bytes → Option β}
    (hlook : ∀ b, look' b = if h.metakeys <+: b then none else look b) :
    Family c id look' (Function.update maps h ∅) where
  lookup h' hid' k' := by
    rw [hlook]
    by_cases hh : h' = h
    · rw [if_pos ((metakeys_prefix_iff (hid.trans hid'.symm)).mpr hh.symm), hh,
        Function.update_self, Finmap.lookup_empty]
      rfl
    · rw [if_neg fun hp => hh ((metakeys_prefix_iff (hid.trans hid'.symm)).mp hp).symm,
        Function.update_of_ne hh, hf.lookup h' hid']
  range b hb := by
    rw [hlook] at hb
    split_ifs at hb with hp
    · cases hb
    · exact hf.range b hb

end update

include hf hid

/-- **The entries with the metakeys of a handle** are its map. -/
theorem scan (hc : Function.Injective c) {l : List (Bytes × β)} (hl : Lists l look) :
    ∃ es : List (K × V), (l.filter fun e => h.metakeys.isPrefixOf e.1) =
        es.map (fun e => (h.entryKey e.1, c e.2)) ∧ Lists es ((maps h).lookup ·) := by
  refine (hl.filter h.metakeys.isPrefixOf).pull (fun k k' heq => (entryKey_inj rfl heq).2) hc
    (fun k => ?_) fun b hb => ?_
  · have hp : h.metakeys.isPrefixOf (h.entryKey k) = true :=
      List.isPrefixOf_iff_prefix.mpr ⟨_, rfl⟩
    rw [hp, if_pos rfl, hf.lookup h hid]
  · by_cases hp : h.metakeys.isPrefixOf b = true
    · rw [hp, if_pos rfl] at hb
      obtain ⟨h', k, hid', rfl⟩ := hf.range b hb
      have hh := (metakeys_prefix_iff (hid.trans hid'.symm)).mp (List.isPrefixOf_iff_prefix.mp hp)
      exact ⟨k, by rw [hh]⟩
    · rw [if_neg hp] at hb
      cases hb

end Family

end family

end Arcon.State
