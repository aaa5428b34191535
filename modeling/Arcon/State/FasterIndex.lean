import Arcon.State.Faster
import Arcon.State.MapRefine

/-!
# The key list of a map on Faster

The list of keys is a second structure beside the entries, and `rmw` of a removal on a record that
does not exist stores the removal itself: a variant that stands for no list, at which the next
`get_vec` or `rmw` panics. The record exists from the first insertion on, until `map_clear` deletes
it.

* `FasterHolds`: the entries are those of the maps, and the key list of a map that was written since
  the start or the last `map_clear` has each of its keys once.
* **`index_agrees_iff`**: list and reads agree with the reference throughout a run exactly if every
  removal is on a map that was written before.
-/

namespace Arcon.State

open FixedBytes Listing

variable {K V IK N : Type} [Message K] [FixedBytes IK] [FixedBytes N]

/-! ## Operations -/

namespace MapOp

variable {K V IK N : Type}

/-- A removal of a key. -/
def isRemove : MapOp K V IK N → Bool
  | remove .. | fastRemove .. => true
  | insert .. | fastInsert .. | insertAll .. | clear _ => false

/-- Whether the key list exists after the operation, if `w` says so before. -/
def writes (w : Bool) : MapOp K V IK N → Bool
  | insert .. | fastInsert .. => true
  | insertAll _ pairs => w || !pairs.isEmpty
  | remove .. | fastRemove .. => w
  | clear _ => false

variable [DecidableEq IK] [DecidableEq N]

/-- `writes` for the handle of the operation. -/
def mark (w : Handle IK N → Bool) (o : MapOp K V IK N) : Handle IK N → Bool :=
  Function.update w o.handle (o.writes (w o.handle))

/-- The maps with an insertion since the start or the last `map_clear`. -/
def written (ops : List (MapOp K V IK N)) : Handle IK N → Bool :=
  ops.foldl mark fun _ => false

/-- Every removal is on a map that was written before. -/
def Guarded (ops : List (MapOp K V IK N)) : Prop :=
  ∀ done o rest, ops = done ++ o :: rest → o.isRemove = true → written done o.handle = true

theorem guarded_nil : Guarded ([] : List (MapOp K V IK N)) := by
  intro done o rest heq _
  simp at heq

theorem Guarded.of_prefix {ops done : List (MapOp K V IK N)} (hg : Guarded ops)
    (hp : done <+: ops) : Guarded done := by
  obtain ⟨rest, rfl⟩ := hp
  intro d o r heq hr
  exact hg d o (r ++ rest) (by rw [heq]; simp) hr

theorem Guarded.snoc {ops : List (MapOp K V IK N)} {o : MapOp K V IK N} (hg : Guarded ops)
    (ho : o.isRemove = true → written ops o.handle = true) : Guarded (ops ++ [o]) := by
  intro done o' rest heq hr
  rcases List.eq_nil_or_concat rest with rfl | ⟨rest, e, rfl⟩
  · obtain ⟨rfl, h⟩ := List.append_inj' heq rfl
    obtain rfl : o = o' := by simpa using h
    exact ho hr
  · refine hg done o' rest ?_ hr
    have h : ops ++ [o] = (done ++ o' :: rest) ++ [e] := by rw [heq]; simp
    exact (List.append_inj' h rfl).1

end MapOp

/-- One operation of a run. -/
def Faster.stepMap [Message V] (f : Faster) : MapOp K V IK N → Result Faster
  | .insert h k v => do
    let (f, _) ← f.mapInsert h k v
    pure f
  | .fastInsert h k v => f.mapFastInsert h k v
  | .insertAll h pairs => Faster.mapInsertAll h f pairs
  | .remove h k => do
    let (f, _) ← f.mapRemove (V := V) h k
    pure f
  | .fastRemove h k => f.mapFastRemove h k
  | .clear h => f.mapClear h

/-! ## Keys -/

/-- The bytes the entry of a key is stored under. -/
def Handle.idEntryKey (h : Handle IK N) (k : K) : Bytes := h.idMetakeys ++ protobuf.serialize k

section keys

variable [LawfulFixedBytes IK] [LawfulFixedBytes N] {h h' : Handle IK N} {k k' : K}

theorem idMetakeys_cancel (hid : h.id = h'.id) {r s : Bytes}
    (heq : h.idMetakeys ++ r = h'.idMetakeys ++ s) : h = h' ∧ r = s := by
  unfold Handle.idMetakeys Handle.idBytes at heq
  simp only [hid, List.append_assoc] at heq
  obtain ⟨⟨hik, hn⟩, hr⟩ :=
    Handle.metakeys_cancel (List.append_cancel_left (List.append_cancel_left heq))
  exact ⟨Handle.ext hid hik hn, hr⟩

theorem idMetakeys_inj (hid : h.id = h'.id) (heq : h.idMetakeys = h'.idMetakeys) : h = h' :=
  (idMetakeys_cancel hid (r := []) (s := []) (by rw [heq])).1

theorem length_idMetakeys (hid : h.id = h'.id) : h.idMetakeys.length = h'.idMetakeys.length := by
  unfold Handle.idMetakeys Handle.idBytes
  simp only [hid, List.length_append, Handle.length_metakeys]
  rfl

variable [LawfulMessage K]

theorem idEntryKey_inj (hid : h.id = h'.id) (heq : h.idEntryKey k = h'.idEntryKey k') :
    h = h' ∧ k = k' := by
  obtain ⟨hh, hk⟩ := idMetakeys_cancel hid heq
  exact ⟨hh, protobuf.delimits_message.injective hk⟩

/-- An entry is never stored where a key list is. -/
theorem idEntryKey_ne (hid : h.id = h'.id) : h.idEntryKey k ≠ h'.idMetakeys := by
  intro heq
  have hpos : 0 < (protobuf.serialize k).length :=
    List.length_pos_of_ne_nil (LawfulMessage.encode_ne_nil k)
  have hlen : (h.idEntryKey k).length = h'.idMetakeys.length := by rw [heq]
  rw [Handle.idEntryKey, List.length_append, length_idMetakeys hid] at hlen
  omega

theorem Faster.readKey_eq (hlen : h.idBytes.length ≤ u64Max) (k : K) :
    Faster.readKey K IK N (h.idEntryKey k) = .ok k := by
  have hread : deserializeBytesFrom (h.idEntryKey k) =
      .ok (h.idBytes, h.metakeys ++ protobuf.serialize k) := by
    have hrest : h.idEntryKey k = encode (usize h.idBytes.length) ++
        (h.idBytes ++ (h.metakeys ++ protobuf.serialize k)) := by
      simp [Handle.idEntryKey, Handle.idMetakeys]
    unfold deserializeBytesFrom
    rw [hrest]
    simp only [delimits (usize h.idBytes.length) _, ok_bind, toNat_usize hlen]
    rw [if_neg (by simp), List.take_left' rfl, List.drop_left' rfl]
    rfl
  unfold Faster.readKey
  simp only [hread, ok_bind]
  exact State.readKey_eq h k

end keys

/-! ## The invariant -/

section invariant

/-- The key list stored for a handle denotes the keys of `m`, each once; a map without a list is
empty. -/
def Faster.IndexDenotes (f : Faster) (h : Handle IK N) (m : FinMap K V) : Prop :=
  ∃ ks : List K, ks.Nodup ∧ (∀ k, k ∈ ks ↔ k ∈ m) ∧
    (f.getVec h.idMetakeys = .ok (some (ks.map h.idEntryKey)) ∨
      (f.getVec h.idMetakeys = .ok none ∧ ks = []))

/-- The record of the key list: none before the first insertion, then a variant that stands for a
list. -/
def Faster.Index (f : Faster) (h : Handle IK N) (m : FinMap K V) : Bool → Prop
  | false => f.db h.idMetakeys = none ∧ m = ∅
  | true => ∃ (v : FasterVecOps) (ks : List K), f.db h.idMetakeys = some (.vecOps v) ∧
      v.elems = .ok (ks.map h.idEntryKey) ∧ ks.Nodup ∧ ∀ k, k ∈ ks ↔ k ∈ m

theorem Faster.Index.denotes {f : Faster} {h : Handle IK N} {m : FinMap K V} {w : Bool}
    (hi : f.Index h m w) : f.IndexDenotes h m := by
  unfold IndexDenotes getVec
  cases w with
  | false =>
    obtain ⟨hnone, rfl⟩ := hi
    exact ⟨[], List.nodup_nil, fun k => by simp [Finmap.notMem_empty], .inr ⟨by rw [hnone], rfl⟩⟩
  | true =>
    obtain ⟨v, ks, hv, helems, hnodup, hmem⟩ := hi
    refine ⟨ks, hnodup, hmem, .inl ?_⟩
    rw [hv]
    simp only [helems, ok_bind, pure_eq_ok]

variable [Message V] [DecidableEq K]

/-- The store holds the entries of the maps and their key lists. -/
structure FasterHolds (id : String) (f : Faster) (maps : Handle IK N → FinMap K V)
    (w : Handle IK N → Bool) : Prop where
  entries : ∀ h, h.id = id → ∀ k,
    f.db (h.idEntryKey k) = ((maps h).lookup k).map fun v => .bytes (protobuf.serialize v)
  index : ∀ h, h.id = id → f.Index h (maps h) (w h)

variable {id : String} {f : Faster} {maps : Handle IK N → FinMap K V} {w : Handle IK N → Bool}

theorem fasterHolds_create :
    FasterHolds id Faster.create (fun _ : Handle IK N => (∅ : FinMap K V)) fun _ => false :=
  ⟨fun _ _ _ => by rw [Finmap.lookup_empty]; rfl, fun _ _ => ⟨rfl, rfl⟩⟩

theorem FasterHolds.get_eq (hf : FasterHolds id f maps w) {h : Handle IK N} (hid : h.id = id)
    (k : K) : f.get (h.idEntryKey k) = .ok (((maps h).lookup k).map protobuf.serialize) := by
  unfold Faster.get
  rw [hf.entries h hid k]
  cases (maps h).lookup k <;> rfl

variable [LawfulFixedBytes IK] [LawfulFixedBytes N] [LawfulMessage K]

namespace FasterHolds

variable (hf : FasterHolds id f maps w) {h : Handle IK N} (hid : h.id = id)

section update

variable [DecidableEq IK] [DecidableEq N]
include hf hid

/-- What belongs to one handle changes. -/
theorem update {f' : Faster} {m : FinMap K V} {b : Bool}
    (hsame : ∀ x, x ≠ h.idMetakeys → (∀ k : K, x ≠ h.idEntryKey k) → f'.db x = f.db x)
    (hentries : ∀ k, f'.db (h.idEntryKey k) =
      (m.lookup k).map fun v => .bytes (protobuf.serialize v))
    (hindex : f'.Index h m b) :
    FasterHolds id f' (Function.update maps h m) (Function.update w h b) where
  entries h' hid' k := by
    by_cases hh : h' = h
    · rw [hh, Function.update_self]
      exact hentries k
    · have hids := hid'.trans hid.symm
      rw [Function.update_of_ne hh, hsame _ (idEntryKey_ne hids)
        fun k' heq => hh (idEntryKey_inj hids heq).1, hf.entries h' hid' k]
  index h' hid' := by
    by_cases hh : h' = h
    · rw [hh, Function.update_self, Function.update_self]
      exact hindex
    · have hids := hid'.trans hid.symm
      have hrec : f'.db h'.idMetakeys = f.db h'.idMetakeys :=
        hsame _ (fun heq => hh (idMetakeys_inj hids heq))
          fun k heq => idEntryKey_ne hids.symm heq.symm
      rw [Function.update_of_ne hh, Function.update_of_ne hh]
      have hi := hf.index h' hid'
      cases hw : w h' with
      | false =>
        rw [hw] at hi
        exact ⟨by rw [hrec]; exact hi.1, hi.2⟩
      | true =>
        rw [hw] at hi
        obtain ⟨v, ks, hv, hrest⟩ := hi
        exact ⟨v, ks, by rw [hrec]; exact hv, hrest⟩

/-- An entry and the key list change together. -/
theorem update_entry {m : FinMap K V} {k : K} {r : Option FasterRecord} {v : FasterVecOps}
    {ks : List K} (hm : ∀ k', k' ≠ k → m.lookup k' = (maps h).lookup k')
    (hr : r = (m.lookup k).map fun v => .bytes (protobuf.serialize v))
    (helems : v.elems = .ok (ks.map h.idEntryKey)) (hnodup : ks.Nodup)
    (hmem : ∀ k', k' ∈ ks ↔ k' ∈ m) :
    FasterHolds id ((f.set (h.idEntryKey k) r).set h.idMetakeys (some (.vecOps v)))
      (Function.update maps h m) (Function.update w h true) := by
  refine hf.update hid (fun x hx hxk => ?_) (fun k' => ?_) ⟨v, ks, ?_, helems, hnodup, hmem⟩
  · simp [Faster.set, hx, hxk k]
  · have hne : h.idEntryKey k' ≠ h.idMetakeys := idEntryKey_ne rfl
    by_cases hk : k' = k
    · subst hk
      simp [Faster.set, hne, hr]
    · have hkey : h.idEntryKey k' ≠ h.idEntryKey k := fun heq => hk (idEntryKey_inj rfl heq).2
      simp [Faster.set, hne, hkey, hf.entries h hid k', hm k' hk]
  · simp [Faster.set]

/-- **An insertion keeps the key list.** -/
theorem mapFastInsert (k : K) (v : V) :
    ∃ f', f.mapFastInsert h k v = .ok f' ∧
      FasterHolds id f' (Function.update maps h ((maps h).insert k v))
        (Function.update w h true) := by
  have hput : (f.put (h.idEntryKey k) (protobuf.serialize v)).db h.idMetakeys =
      f.db h.idMetakeys := by
    have hne : h.idMetakeys ≠ h.idEntryKey k := fun heq => idEntryKey_ne rfl heq.symm
    simp [Faster.put, Faster.set, hne]
  have hexec : f.mapFastInsert h k v =
      (f.put (h.idEntryKey k) (protobuf.serialize v)).rmw h.idMetakeys
        (.pushIfAbsent (h.idEntryKey k)) := by
    simp only [Faster.mapFastInsert, Handle.serializeIdMetakeysAndKey_eq,
      Handle.serializeIdAndMetakeys_eq, ok_bind]
    rfl
  have hupd : ∀ (l : FasterVecOps) (ks : List K), l.elems = .ok (ks.map h.idEntryKey) →
      ks.Nodup → (∀ k', k' ∈ ks ↔ k' = k ∨ k' ∈ maps h) →
      FasterHolds id ((f.put (h.idEntryKey k) (protobuf.serialize v)).set h.idMetakeys
        (some (.vecOps l))) (Function.update maps h ((maps h).insert k v))
        (Function.update w h true) := fun l ks helems hnodup hmem =>
    hf.update_entry hid (fun k' hk' => Finmap.lookup_insert_of_ne _ hk')
      (by rw [Finmap.lookup_insert]; rfl) helems hnodup fun k' => by rw [hmem, Finmap.mem_insert]
  rw [hexec]
  unfold Faster.rmw
  rw [hput]
  have hi := hf.index h hid
  cases hw : w h with
  | false =>
    rw [hw] at hi
    obtain ⟨hnone, hempty⟩ := hi
    rw [hnone]
    refine ⟨_, rfl, hupd _ [k] rfl (List.nodup_singleton k) fun k' => ?_⟩
    simp [hempty, Finmap.notMem_empty]
  | true =>
    rw [hw] at hi
    obtain ⟨l, ks, hl, helems, hnodup, hmem⟩ := hi
    rw [hl]
    have hin : h.idEntryKey k ∈ ks.map h.idEntryKey ↔ k ∈ ks := by
      refine ⟨fun hin => ?_, fun hk => List.mem_map.mpr ⟨k, hk, rfl⟩⟩
      obtain ⟨k', hk', heq⟩ := List.mem_map.mp hin
      rwa [← (idEntryKey_inj rfl heq).2]
    simp only [FasterVecOps.rmw, helems, ok_bind, pure_eq_ok]
    by_cases hk : k ∈ ks
    · rw [if_pos (hin.mpr hk)]
      refine ⟨_, rfl, hupd _ ks rfl hnodup fun k' => ?_⟩
      rw [hmem]
      exact ⟨.inr, fun hor => hor.elim (fun heq => by rw [heq, ← hmem]; exact hk) fun h => h⟩
    · rw [if_neg fun h => hk (hin.mp h)]
      refine ⟨_, rfl, hupd _ (ks ++ [k]) (by simp [FasterVecOps.elems]) ?_ fun k' => ?_⟩
      · exact List.nodup_append.mpr ⟨hnodup, List.nodup_singleton k, fun a ha b hb heq => by
          rw [List.mem_singleton] at hb
          exact hk (by rw [← hb, ← heq]; exact ha)⟩
      · simp [hmem, or_comm]

/-- **A removal keeps the key list of a map that was written.** -/
theorem mapFastRemove (hw : w h = true) (k : K) :
    ∃ f', f.mapFastRemove h k = .ok f' ∧
      FasterHolds id f' (Function.update maps h ((maps h).erase k))
        (Function.update w h true) := by
  have hremove : (f.remove (h.idEntryKey k)).db h.idMetakeys = f.db h.idMetakeys := by
    have hne : h.idMetakeys ≠ h.idEntryKey k := fun heq => idEntryKey_ne rfl heq.symm
    simp [Faster.remove, Faster.set, hne]
  have hexec : f.mapFastRemove h k =
      (f.remove (h.idEntryKey k)).rmw h.idMetakeys (.remove (h.idEntryKey k)) := by
    simp only [Faster.mapFastRemove, Handle.serializeIdMetakeysAndKey_eq,
      Handle.serializeIdAndMetakeys_eq, ok_bind]
    rfl
  have hi := hf.index h hid
  rw [hw] at hi
  obtain ⟨l, ks, hl, helems, hnodup, hmem⟩ := hi
  have herase : (ks.map h.idEntryKey).erase (h.idEntryKey k) = (ks.erase k).map h.idEntryKey :=
    (List.map_erase (fun a b heq => (idEntryKey_inj rfl heq).2) ks).symm
  refine ⟨(f.remove (h.idEntryKey k)).set h.idMetakeys
    (some (.vecOps (.value ((ks.erase k).map h.idEntryKey)))), ?_, ?_⟩
  · rw [hexec]
    unfold Faster.rmw
    rw [hremove, hl]
    simp only [FasterVecOps.rmw_remove helems, ok_bind, pure_eq_ok, herase]
  · refine hf.update_entry hid (fun k' hk' => Finmap.lookup_erase_ne hk')
      (by rw [Finmap.lookup_erase]; rfl) rfl (hnodup.erase k) fun k' => ?_
    rw [hnodup.mem_erase_iff, hmem, Finmap.mem_erase]

/-- **`map_clear` deletes the entries and the key list.** -/
theorem mapClear :
    ∃ f', f.mapClear h = .ok f' ∧
      FasterHolds id f' (Function.update maps h ∅) (Function.update w h false) := by
  have hi := hf.index h hid
  cases hw : w h with
  | false =>
    rw [hw] at hi
    obtain ⟨hnone, hempty⟩ := hi
    refine ⟨f, ?_, ?_⟩
    · simp only [Faster.mapClear, Handle.serializeIdAndMetakeys_eq, ok_bind, Faster.getVec, hnone,
        pure_eq_ok]
    · rw [← hempty, ← hw, Function.update_eq_self, Function.update_eq_self]
      exact hf
  | true =>
    rw [hw] at hi
    obtain ⟨l, ks, hl, helems, hnodup, hmem⟩ := hi
    refine ⟨(ks.map h.idEntryKey).foldl Faster.remove (f.remove h.idMetakeys), ?_, ?_⟩
    · simp only [Faster.mapClear, Handle.serializeIdAndMetakeys_eq, ok_bind, Faster.getVec, hl,
        helems, pure_eq_ok]
    · refine hf.update hid (fun x hx hxk => ?_) (fun k => ?_) ⟨?_, rfl⟩
      · rw [Faster.foldl_remove_db, if_neg]
        · simp [Faster.remove, Faster.set, hx]
        · intro hin
          obtain ⟨k, _, hk⟩ := List.mem_map.mp hin
          exact hxk k hk.symm
      · rw [Faster.foldl_remove_db, Finmap.lookup_empty]
        split_ifs with hin
        · rfl
        · have hk : k ∉ maps h := fun hk =>
            hin (List.mem_map.mpr ⟨k, (hmem k).mpr hk, rfl⟩)
          have hne : h.idEntryKey k ≠ h.idMetakeys := idEntryKey_ne rfl
          rw [← Finmap.lookup_eq_none] at hk
          simp [Faster.remove, Faster.set, hne, hf.entries h hid k, hk]
      · rw [Faster.foldl_remove_db]
        simp [Faster.remove, Faster.set]

end update

variable [DecidableEq IK] [DecidableEq N]
include hf

theorem mapInsertAll (hid : h.id = id) (pairs : List (K × V)) :
    ∃ f', Faster.mapInsertAll h f pairs = .ok f' ∧
      FasterHolds id f'
        (Function.update maps h (pairs.foldl (fun m e => m.insert e.1 e.2) (maps h)))
        (Function.update w h (w h || !pairs.isEmpty)) := by
  induction pairs generalizing f maps w with
  | nil =>
    refine ⟨f, rfl, ?_⟩
    simpa using hf
  | cons e pairs ih =>
    obtain ⟨k, v⟩ := e
    obtain ⟨f₁, hf₁, hholds⟩ := hf.mapFastInsert hid k v
    obtain ⟨f', hf', hholds'⟩ := ih hholds
    refine ⟨f', ?_, ?_⟩
    · unfold Faster.mapInsertAll
      rw [List.foldlM_cons]
      dsimp only
      rw [hf₁, ok_bind]
      exact hf'
    · simpa [Function.update_idem] using hholds'

variable [LawfulMessage V]

theorem mapInsert (hid : h.id = id) (k : K) (v : V) :
    ∃ f', f.mapInsert h k v = .ok (f', (maps h).lookup k) ∧
      FasterHolds id f' (Function.update maps h ((maps h).insert k v))
        (Function.update w h true) := by
  obtain ⟨f', hf', hholds⟩ := hf.mapFastInsert hid k v
  have hget : f.get (h.idMetakeys ++ protobuf.serialize k) = _ := hf.get_eq hid k
  simp only [Faster.mapFastInsert, Handle.serializeIdMetakeysAndKey_eq,
    Handle.serializeIdAndMetakeys_eq, ok_bind] at hf'
  refine ⟨f', ?_, hholds⟩
  simp only [Faster.mapInsert, Handle.serializeIdMetakeysAndKey_eq,
    Handle.serializeIdAndMetakeys_eq, ok_bind, hget, readValue_map, hf', pure_eq_ok]

theorem mapRemove (hid : h.id = id) (hw : w h = true) (k : K) :
    ∃ f', f.mapRemove h k = .ok (f', (maps h).lookup k) ∧
      FasterHolds id f' (Function.update maps h ((maps h).erase k))
        (Function.update w h true) := by
  obtain ⟨f', hf', hholds⟩ := hf.mapFastRemove hid hw k
  have hget : f.get (h.idMetakeys ++ protobuf.serialize k) = _ := hf.get_eq hid k
  simp only [Faster.mapFastRemove, Handle.serializeIdMetakeysAndKey_eq,
    Handle.serializeIdAndMetakeys_eq, ok_bind] at hf'
  refine ⟨f', ?_, hholds⟩
  simp only [Faster.mapRemove, Handle.serializeIdMetakeysAndKey_eq,
    Handle.serializeIdAndMetakeys_eq, ok_bind, hget, readValue_map, hf', pure_eq_ok]

/-- **Every operation keeps entries and key lists**, a removal where there is a list. -/
theorem step {o : MapOp K V IK N} (hid : o.handle.id = id)
    (hguard : o.isRemove = true → w o.handle = true) :
    ∃ f', f.stepMap o = .ok f' ∧ FasterHolds id f' (o.apply maps) (o.mark w) := by
  unfold MapOp.apply MapOp.mark
  cases o with
  | insert h k v =>
    obtain ⟨f', hf', hholds⟩ := hf.mapInsert (h := h) hid k v
    exact ⟨f', by simp only [Faster.stepMap, hf', ok_bind, pure_eq_ok], hholds⟩
  | fastInsert h k v => exact hf.mapFastInsert hid k v
  | insertAll h pairs => exact hf.mapInsertAll hid pairs
  | remove h k =>
    have hw : w h = true := hguard rfl
    obtain ⟨f', hf', hholds⟩ := hf.mapRemove (h := h) hid hw k
    rw [← hw] at hholds
    exact ⟨f', by simp only [Faster.stepMap, hf', ok_bind, pure_eq_ok], hholds⟩
  | fastRemove h k =>
    have hw : w h = true := hguard rfl
    obtain ⟨f', hf', hholds⟩ := hf.mapFastRemove (h := h) hid hw k
    rw [← hw] at hholds
    exact ⟨f', hf', hholds⟩
  | clear h => exact hf.mapClear hid

omit [DecidableEq IK] [DecidableEq N] in
/-- The reads of a handle show its map. -/
theorem shows_map (hid : h.id = id) (hlen : h.idBytes.length ≤ u64Max) :
    ShowsMap (f.mapGet h) (f.mapContains h) (f.mapLen h) (f.mapIsEmpty h) (f.mapKeys h)
      (f.mapValues h) (f.mapIter h) (maps h) := by
  obtain ⟨ks, hnodup, hmem, hvec⟩ := (hf.index h hid).denotes
  obtain ⟨es, hes, hks⟩ := Lists.exists_of_keys hnodup hmem
  have hget : ∀ k, f.get (h.idMetakeys ++ protobuf.serialize k) =
      .ok (((maps h).lookup k).map protobuf.serialize) := hf.get_eq hid
  -- the list the iterators run over, whether it is stored or not
  obtain ⟨keys, hkeys, hkeysD, hlenD, hemptyD⟩ : ∃ keys, f.getVec h.idMetakeys = .ok keys ∧
      keys.getD [] = es.map (fun e => h.idEntryKey e.1) ∧
      (keys.map List.length).getD 0 = es.length ∧
      (keys.map List.isEmpty).getD true = es.isEmpty := by
    have hmap : ks.map h.idEntryKey = es.map fun e => h.idEntryKey e.1 := by
      rw [← hks, List.map_map]
      rfl
    obtain hvec | ⟨hvec, hnil⟩ := hvec
    · refine ⟨_, hvec, hmap, ?_, ?_⟩
      · simp [hmap]
      · simp [hmap]
    · rw [hnil, List.map_eq_nil_iff] at hks
      exact ⟨_, hvec, by simp [hks], by simp [hks], by simp [hks]⟩
  have hpresent : ∀ e ∈ es, f.getPresent (h.idEntryKey e.1) = .ok (protobuf.serialize e.2) := by
    intro e he
    have hv : (maps h).lookup e.1 = some e.2 := (hes.2 e.1 e.2).mp he
    simp only [Faster.getPresent, hf.get_eq hid e.1, hv, Option.map_some, ok_bind, pure_eq_ok]
  have hkey : ∀ e : K × V, Faster.readKey K IK N (h.idEntryKey e.1) = .ok e.1 := fun e =>
    Faster.readKey_eq hlen e.1
  refine ⟨fun k => ?_, fun k => ?_, ?_, ⟨es.isEmpty, ?_, eq_empty_iff_lists hes⟩,
    ⟨es.map Prod.fst, ?_, hes.keys_eq⟩, ⟨es.map Prod.snd, ?_, ?_⟩, ⟨es, ?_, hes.entries⟩⟩
  · simp only [Faster.mapGet, Handle.serializeIdMetakeysAndKey_eq, ok_bind, hget, readValue_map]
  · simp only [Faster.mapContains, Handle.serializeIdMetakeysAndKey_eq, ok_bind, hget, pure_eq_ok,
      Option.isSome_map]
  · simp only [Faster.mapLen, Handle.serializeIdAndMetakeys_eq, ok_bind, hkeys, pure_eq_ok]
    rw [hlenD, hes.length_eq]
  · simp only [Faster.mapIsEmpty, Handle.serializeIdAndMetakeys_eq, ok_bind, hkeys, pure_eq_ok]
    rw [hemptyD]
  · simp only [Faster.mapKeys, Handle.serializeIdAndMetakeys_eq, ok_bind, hkeys, hkeysD, pure_eq_ok,
      List.map_map, Function.comp_def, hkey]
  · simp only [Faster.mapValues, Handle.serializeIdAndMetakeys_eq, ok_bind, hkeys, hkeysD,
      pure_eq_ok, List.map_map]
    congr 1
    refine List.map_congr_left fun e he => ?_
    simp only [Function.comp_def, hpresent e he, ok_bind, protobuf.deserialize_serialize]
  · rw [← hes.entries, Multiset.map_coe]
  · simp only [Faster.mapIter, Handle.serializeIdAndMetakeys_eq, ok_bind, hkeys, hkeysD,
      pure_eq_ok, List.map_map]
    congr 1
    refine List.map_congr_left fun e he => ?_
    simp only [Function.comp_def, hpresent e he, ok_bind, hkey, protobuf.deserialize_serialize]

end FasterHolds

end invariant

/-! ## Runs -/

section runs

variable [Message V] [DecidableEq K] [DecidableEq IK] [DecidableEq N] {id : String}

/-- After these operations on a new store, key lists and reads agree with the reference, for every
handle of the state `id`. -/
def Faster.Agrees (id : String) (ops : List (MapOp K V IK N)) : Prop :=
  ∃ f, ops.foldlM Faster.stepMap Faster.create = .ok f ∧ ∀ h : Handle IK N, h.id = id →
    f.IndexDenotes h (MapOp.maps ops h) ∧
    ShowsMap (f.mapGet h) (f.mapContains h) (f.mapLen h) (f.mapIsEmpty h) (f.mapKeys h)
      (f.mapValues h) (f.mapIter h) (MapOp.maps ops h)

variable [LawfulFixedBytes IK] [LawfulFixedBytes N] [LawfulMessage K] [LawfulMessage V]

/-- A guarded run ends in a store that holds the maps. -/
theorem MapOp.Guarded.holds {ops : List (MapOp K V IK N)} (hg : Guarded ops)
    (hids : ∀ o ∈ ops, o.handle.id = id) :
    ∃ f, ops.foldlM Faster.stepMap Faster.create = .ok f ∧
      FasterHolds id f (MapOp.maps ops) (MapOp.written ops) := by
  have hpair : ∀ (ops : List (MapOp K V IK N)) maps w,
      (ops.foldl (fun (s : (Handle IK N → FinMap K V) × (Handle IK N → Bool)) o =>
        (o.apply s.1, o.mark s.2)) (maps, w)) =
      (ops.foldl MapOp.apply maps, ops.foldl MapOp.mark w) := by
    intro ops
    induction ops with
    | nil => exact fun _ _ => rfl
    | cons o ops ih => exact fun maps w => ih _ _
  obtain ⟨f, hf, hholds⟩ := foldlM_follows
    (I := fun f (s : (Handle IK N → FinMap K V) × (Handle IK N → Bool)) =>
      FasterHolds id f s.1 s.2)
    (g := fun s o => (o.apply s.1, o.mark s.2))
    (G := fun s o => o.handle.id = id ∧ (o.isRemove = true → s.2 o.handle = true))
    (fun f s o hf hgood => hf.step hgood.1 hgood.2) ops fasterHolds_create
    (fun done o rest heq => ⟨hids o (by simp [heq]), fun hr => by
      rw [hpair]
      exact hg done o rest heq hr⟩)
  rw [hpair] at hholds
  exact ⟨f, hf, hholds⟩

omit [DecidableEq IK] [DecidableEq N] in
/-- An unguarded removal is stored in the place of the key list, and reading the list panics. -/
theorem FasterHolds.mapLen_of_unguarded {f : Faster} {maps : Handle IK N → FinMap K V}
    {w : Handle IK N → Bool} (hf : FasterHolds id f maps w) {o : MapOp K V IK N}
    (hid : o.handle.id = id) (hw : w o.handle = false) (hr : o.isRemove = true) :
    ∃ f', f.stepMap o = .ok f' ∧
      f'.mapLen o.handle = .error (.panic "invalid faster vec ops value") := by
  have hfast : ∀ (h : Handle IK N) (k : K), f.db h.idMetakeys = none →
      (f.remove (h.idEntryKey k)).vecRemove h.idMetakeys (h.idEntryKey k) =
        .ok ((f.remove (h.idEntryKey k)).set h.idMetakeys
          (some (.vecOps (.remove (h.idEntryKey k))))) := by
    intro h k hnone
    have hne : h.idMetakeys ≠ h.idEntryKey k := fun heq => idEntryKey_ne rfl heq.symm
    have hdb : (f.remove (h.idEntryKey k)).db h.idMetakeys = none := by
      simp [Faster.remove, Faster.set, hne, hnone]
    unfold Faster.vecRemove Faster.rmw
    rw [hdb]
  have hlen : ∀ (h : Handle IK N) (f₀ : Faster) (e : Bytes),
      (f₀.set h.idMetakeys (some (.vecOps (.remove e)))).mapLen h =
        .error (.panic "invalid faster vec ops value") := by
    intro h f₀ e
    simp only [Faster.mapLen, Handle.serializeIdAndMetakeys_eq, ok_bind, Faster.getVec, Faster.set,
      if_true]
    rfl
  have hi := hf.index o.handle hid
  rw [hw] at hi
  cases o with
  | remove h k =>
    have hget : f.get (h.idMetakeys ++ protobuf.serialize k) = _ := hf.get_eq (h := h) hid k
    refine ⟨_, ?_, hlen h (f.remove (h.idEntryKey k)) (h.idEntryKey k)⟩
    have hrem := hfast h k hi.1
    unfold Handle.idEntryKey at hrem
    simp only [Faster.stepMap, Faster.mapRemove, Handle.serializeIdMetakeysAndKey_eq,
      Handle.serializeIdAndMetakeys_eq, ok_bind, hget, readValue_map, hrem, pure_eq_ok]
    rfl
  | fastRemove h k =>
    refine ⟨_, ?_, hlen h (f.remove (h.idEntryKey k)) (h.idEntryKey k)⟩
    simp only [Faster.stepMap, Faster.mapFastRemove, Handle.serializeIdMetakeysAndKey_eq,
      Handle.serializeIdAndMetakeys_eq, ok_bind]
    exact hfast h k hi.1
  | insert _ _ _ => cases hr
  | fastInsert _ _ _ => cases hr
  | insertAll _ _ => cases hr
  | clear _ => cases hr

/-- **When the key list is right.** For every sequence of operations on the handles of a state: key
lists and reads agree with the reference after each of them exactly if every removal is on a map
that was written since the start or the last `map_clear`. -/
theorem index_agrees_iff (id : String) (hlen : id.toUTF8.data.toList.length ≤ u64Max)
    (ops : List (MapOp K V IK N)) (hids : ∀ o ∈ ops, o.handle.id = id) :
    (∀ done, done <+: ops → Faster.Agrees id done) ↔ MapOp.Guarded ops := by
  constructor
  · intro hagrees
    induction ops using List.reverseRecOn with
    | nil => exact MapOp.guarded_nil
    | append_singleton ops o ih =>
      have hg := ih (fun o' ho' => hids o' (by simp [ho'])) fun done hp =>
        hagrees done (hp.trans (List.prefix_append _ _))
      refine hg.snoc fun hr => ?_
      by_contra hw
      -- there is no key list yet, and the removal is stored in its place
      obtain ⟨f, hf, hholds⟩ := hg.holds fun o' ho' => hids o' (by simp [ho'])
      obtain ⟨f', hf', hpanic⟩ := hholds.mapLen_of_unguarded (hids o (by simp))
        (by simpa using hw) hr
      obtain ⟨f₁, hf₁, hall⟩ := hagrees (ops ++ [o]) (List.prefix_refl _)
      rw [List.foldlM_append, hf, ok_bind, List.foldlM_cons, hf', ok_bind] at hf₁
      cases hf₁
      have hok := (hall o.handle (hids o (by simp))).2.len
      rw [hpanic] at hok
      cases hok
  · intro hg done hp
    obtain ⟨f, hf, hholds⟩ := (hg.of_prefix hp).holds fun o ho => hids o (hp.subset ho)
    refine ⟨f, hf, fun h hid => ⟨(hholds.index h hid).denotes, hholds.shows_map hid ?_⟩⟩
    rw [Handle.idBytes, hid]
    exact hlen

end runs

/-- A map of a state without metakeys. -/
def plainMap : Handle Unit Unit := ⟨"m", (), ()⟩

/-- A run that removes only from a map that was written. -/
def guardedRun : List (MapOp Bool Bool Unit Unit) :=
  [.insert plainMap true true, .remove plainMap false, .clear plainMap,
   .insertAll plainMap [(false, true)], .fastRemove plainMap false]

theorem guarded_guardedRun : MapOp.Guarded guardedRun := by
  have h₀ : MapOp.Guarded ([] : List (MapOp Bool Bool Unit Unit)) := MapOp.guarded_nil
  have h₁ := h₀.snoc (o := .insert plainMap true true) (by decide)
  have h₂ := h₁.snoc (o := .remove plainMap false) (by decide)
  have h₃ := h₂.snoc (o := .clear plainMap) (by decide)
  have h₄ := h₃.snoc (o := .insertAll plainMap [(false, true)]) (by decide)
  exact h₄.snoc (o := .fastRemove plainMap false) (by decide)

theorem index_agrees_guarded :
    MapOp.Guarded guardedRun ∧ ∀ done, done <+: guardedRun → Faster.Agrees "m" done :=
  ⟨guarded_guardedRun,
    (index_agrees_iff "m" (by decide) guardedRun (by decide)).mpr guarded_guardedRun⟩

/-- **A removal from a map that was never written.** It succeeds, and then the length of the map
cannot be read. -/
theorem unwritten_remove_panics :
    (∃ f, ([.remove plainMap true] : List (MapOp Bool Bool Unit Unit)).foldlM Faster.stepMap
        Faster.create = .ok f ∧
      f.mapLen plainMap = .error (.panic "invalid faster vec ops value")) ∧
    ¬Faster.Agrees "m" ([.remove plainMap true] : List (MapOp Bool Bool Unit Unit)) := by
  have hpanic : ∃ f, ([.remove plainMap true] : List (MapOp Bool Bool Unit Unit)).foldlM
      Faster.stepMap Faster.create = .ok f ∧
      f.mapLen plainMap = .error (.panic "invalid faster vec ops value") := ⟨_, rfl, rfl⟩
  refine ⟨hpanic, fun ⟨f, hf, hall⟩ => ?_⟩
  obtain ⟨f', hf', hlen⟩ := hpanic
  rw [hf] at hf'
  cases hf'
  have hok := (hall plainMap rfl).2.len
  rw [hlen] at hok
  cases hok

end Arcon.State
