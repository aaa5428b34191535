import Arcon.Nexmark.Q3
import Arcon.Node.Function
import Arcon.State.FasterVec
import Arcon.State.VecRefine

/-!
# Query 3 on the four backends

The person of a seller and the auctions that wait for him are under two ids of one backend. A call
under one id leaves what is under the other alone: in RocksDB and sled they are in two column
families or trees, in Faster under two kinds of keys of one table, and the in-memory backend has a
hash map for each id.

* `OnSlots`: a backend that keeps a value and a list in slots for the handles.
* `Rocks.q3`, `Sled.q3`, `Faster.q3`, `InMemory.q3`: what the query uses of the backends.
* **`q3_results`**: on all of them the query never fails, and puts out for each event the rows of
  the sales that the events before it say.
* **`q3_joins_on_time`**: on a node, if no two persons have the same id, the results are the rows of
  the pairs of a person and an auction that match, one for each pair.

The results are stated on pairs: a row does not always say which auction it is about (`Sale.row`).

Out of scope: errors of the stores themselves. RocksDB, sled and FASTER do what their documentation
says, and no call of theirs fails for a reason outside this program, such as a full disk.
-/

namespace Arcon.Nexmark

open State Slots FixedBytes

/-! ## Values and lists in slots -/

/-- The handles of the query. -/
def Mine (h : Handle U32 Unit) : Prop := h.id ∈ ["person", "pending_auctions"]

theorem mine_person {h : Handle U32 Unit} (hid : h.id = "person") : Mine h := by
  simp [Mine, hid]

theorem mine_pending {h : Handle U32 Unit} (hid : h.id = "pending_auctions") : Mine h := by
  simp [Mine, hid]

/-- A backend that keeps what belongs to a handle in a slot. `V` says which value is in a slot, and
`L` which list. -/
structure OnSlots {B E : Type} (sb : Q3Backend B) (look : B → Handle U32 Unit → Option E)
    (V : E → Option Person → Prop) (L : E → List Auction → Prop) : Prop where
  valueGet : ∀ {db vals} {h : Handle U32 Unit}, Keeps look V (·.id = "person") db vals →
    h.id = "person" → sb.valueGet h db = .ok (vals h)
  valueSet : ∀ {db vals} {h : Handle U32 Unit}, Keeps look V (·.id = "person") db vals →
    h.id = "person" → ∀ p, ∃ db' e, sb.valueSet h p db = .ok (db', vals h) ∧
      Replaces look Mine h e db db' ∧ V e (some p)
  vecIsEmpty : ∀ {db lists} {h : Handle U32 Unit},
    Keeps look L (·.id = "pending_auctions") db lists → h.id = "pending_auctions" →
    (lists h).length ≤ u64Max → sb.vecIsEmpty h db = .ok (lists h).isEmpty
  vecGet : ∀ {db lists} {h : Handle U32 Unit},
    Keeps look L (·.id = "pending_auctions") db lists → h.id = "pending_auctions" →
    (lists h).length ≤ u64Max → sb.vecGet h db = .ok (lists h)
  vecClear : ∀ {db lists} {h : Handle U32 Unit},
    Keeps look L (·.id = "pending_auctions") db lists → h.id = "pending_auctions" →
    ∃ db' e, sb.vecClear h db = .ok db' ∧ Replaces look Mine h e db db' ∧ L e []
  vecAppend : ∀ {db lists} {h : Handle U32 Unit},
    Keeps look L (·.id = "pending_auctions") db lists → h.id = "pending_auctions" →
    ∀ a, (lists h).length < u64Max →
    ∃ db' e, sb.vecAppend h a db = .ok db' ∧ Replaces look Mine h e db db' ∧ L e (lists h ++ [a])

section slots

variable {B E : Type} {sb : Q3Backend B} {look : B → Handle U32 Unit → Option E}
  {V : E → Option Person → Prop} {L : E → List Auction → Prop}

/-- The slots stand for the tables of the join. -/
structure Tabled (look : B → Handle U32 Unit → Option E) (V : E → Option Person → Prop)
    (L : E → List Auction → Prop) (db : B) (t : StreamJoin.Tables U32 Person Auction) : Prop where
  rows : Keeps look V (·.id = "person") db fun h => t.rows h.itemKey
  waiting : Keeps look L (·.id = "pending_auctions") db fun h => t.waiting h.itemKey
  fits : ∀ k, (t.waiting k).length ≤ u64Max

theorem update_itemKey {α : Type} (f : U32 → α) {h h' : Handle U32 Unit} (hid : h'.id = h.id)
    (a : α) :
    Function.update (fun h => f h.itemKey) h a h' = Function.update f h.itemKey a h'.itemKey := by
  obtain ⟨id, k, _⟩ := h
  obtain ⟨id', k', _⟩ := h'
  dsimp only at hid
  subst hid
  by_cases hk : k' = k
  · rw [hk]
    simp
  · rw [Function.update_of_ne hk, Function.update_of_ne (by simpa using hk)]

/-- A table of one id after one of its slots got a new value. -/
theorem keeps_update {A : Type} {Good : E → A → Prop} {id : String} {db db' : B} {f : U32 → A}
    (hs : Keeps look Good (·.id = id) db fun h => f h.itemKey)
    (hid : id ∈ ["person", "pending_auctions"]) {k : U32} {e : E} {a : A}
    (hr : Replaces look Mine ⟨id, k, ()⟩ e db db') (hg : Good e a) :
    Keeps look Good (·.id = id) db' fun h => Function.update f k a h.itemKey := by
  have hmine : Replaces look (·.id = id) ⟨id, k, ()⟩ e db db' :=
    ⟨hr.self, fun h' hh' => hr.others h' (by rw [Mine, hh']; exact hid)⟩
  refine (hs.replace hmine hg).congr fun h' hh' => ?_
  exact update_itemKey f (h := ⟨id, k, ()⟩) hh' a

/-- A change under one id says nothing about the other. -/
theorem keeps_other {A : Type} {Good : E → A → Prop} {id id' : String} {db db' : B}
    {vals : Handle U32 Unit → A} (hs : Keeps look Good (·.id = id') db vals)
    (hid' : id' ∈ ["person", "pending_auctions"]) (hne : id' ≠ id) {k : U32} {e : E}
    (hr : Replaces look Mine ⟨id, k, ()⟩ e db db') : Keeps look Good (·.id = id') db' vals := by
  refine hs.frame hr fun h' hh' => ⟨by rw [Mine, hh']; exact hid', fun heq => hne ?_⟩
  rw [← hh', heq]

/-- **A backend with slots keeps the tables.** -/
theorem OnSlots.implements (hsb : OnSlots sb look V L) : Implements sb (Tabled look V L) where
  valueGet := fun hdb k => hsb.valueGet hdb.rows rfl
  valueSet := fun {db t} hdb k p => by
    obtain ⟨db', e, hcall, hr, he⟩ := hsb.valueSet hdb.rows (h := ⟨"person", k, ()⟩) rfl p
    exact ⟨db', hcall, keeps_update hdb.rows (by simp) hr he,
      keeps_other hdb.waiting (by simp) (by decide) hr, hdb.fits⟩
  vecIsEmpty := fun hdb k => hsb.vecIsEmpty hdb.waiting rfl (hdb.fits k)
  vecGet := fun hdb k => hsb.vecGet hdb.waiting rfl (hdb.fits k)
  vecClear := fun {db t} hdb k => by
    obtain ⟨db', e, hcall, hr, he⟩ :=
      hsb.vecClear hdb.waiting (h := ⟨"pending_auctions", k, ()⟩) rfl
    refine ⟨db', hcall, keeps_other hdb.rows (by simp) (by decide) hr,
      keeps_update hdb.waiting (by simp) hr he, fun k' => ?_⟩
    dsimp only
    by_cases hk : k' = k
    · rw [hk, Function.update_self]
      exact Nat.zero_le _
    · rw [Function.update_of_ne hk]
      exact hdb.fits k'
  vecAppend := fun {db t} hdb k a hlen => by
    obtain ⟨db', e, hcall, hr, he⟩ :=
      hsb.vecAppend hdb.waiting (h := ⟨"pending_auctions", k, ()⟩) rfl a hlen
    refine ⟨db', hcall, keeps_other hdb.rows (by simp) (by decide) hr,
      keeps_update hdb.waiting (by simp) hr he, fun k' => ?_⟩
    dsimp only
    by_cases hk : k' = k
    · rw [hk, Function.update_self, List.length_append]
      exact hlen
    · rw [Function.update_of_ne hk]
      exact hdb.fits k'

end slots

/-! ## The backends -/

/-- The query on RocksDB. -/
def Rocks.q3 : Q3Backend Rocks where
  valueGet h db := db.valueGet h
  valueSet h p db := db.valueSet h p
  vecIsEmpty h db := db.vecIsEmpty h
  vecGet h db := db.vecGet h
  vecClear h db := db.vecClear h
  vecAppend h a db := db.vecAppend h a

/-- The query on sled. -/
def Sled.q3 : Q3Backend Sled where
  valueGet h db := db.valueGet h
  valueSet h p db := db.valueSet h p
  vecIsEmpty h db := db.vecIsEmpty h
  vecGet h db := db.vecGet h
  vecClear h db := db.vecClear h
  vecAppend h a db := db.vecAppend h a

/-- The query on Faster. -/
def Faster.q3 : Q3Backend Faster where
  valueGet h f := f.valueGet h
  valueSet h p f := f.valueSet h p
  vecIsEmpty h f := f.vecIsEmpty h
  vecGet h f := f.vecGet h
  vecClear h f := f.vecClear h
  vecAppend h a f := f.vecAppend h a

/-- The query in memory. The backend keeps boxed values of any type; those under the two ids are of
two types and in two hash maps. -/
def InMemory.q3 : Q3Backend (InMemory Person × InMemory (List Auction)) where
  valueGet h db := db.1.valueGet h
  valueSet h p db := do
    let (persons, old) ← db.1.valueSet h p
    pure ((persons, db.2), old)
  vecIsEmpty h db := db.2.vecIsEmpty h
  vecGet h db := db.2.vecGet h
  vecClear h db := do
    let auctions ← db.2.vecClear h
    pure (db.1, auctions)
  vecAppend h a db := do
    let auctions ← db.2.vecAppend h a
    pure (db.1, auctions)

/-- The reply of a call that came with a store. -/
theorem ok_of_reply {B α : Type} {x : Result α} {db db' : B} {a : α}
    (h : (do let r ← x; pure (db, r) : Result (B × α)) = .ok (db', a)) : x = .ok a := by
  cases x with
  | error e => cases h
  | ok r =>
    cases h
    rfl

/-- The store of a call that has no reply. -/
theorem ok_of_store {B : Type} {x : Result B} {db : B} {u : Unit}
    (h : (do let db ← x; pure (db, ()) : Result (B × Unit)) = .ok (db, u)) : x = .ok db := by
  cases x with
  | error e => cases h
  | ok r =>
    cases h
    rfl

namespace Rocks

/-- The entry of a list. -/
def VecEntry (e : Option RocksMerge × Merging.Pending Bytes) (l : List Auction) : Prop :=
  e.1 = some State.Rocks.vecMerge ∧ e.2.Holds VecDenotes (FreeMonoid.ofList l)

theorem keeps_iff_holds {db : Rocks} {lists : Handle U32 Unit → List Auction} {id : String} :
    Keeps State.Rocks.slot VecEntry (·.id = id) db lists ↔ State.Rocks.Holds [id] db lists := by
  constructor
  · intro hdb h hid
    obtain ⟨e, he, hop, hl⟩ := hdb h (List.mem_singleton.mp hid)
    obtain ⟨cf, hcf, rfl⟩ := Option.map_eq_some_iff.mp he
    exact ⟨cf, hcf, hop, hl⟩
  · intro hdb h hid
    obtain ⟨cf, hcf, hop, hl⟩ := hdb h (List.mem_singleton.mpr hid)
    exact ⟨_, by rw [State.Rocks.slot, hcf]; rfl, hop, hl⟩

theorem onSlots : OnSlots q3 State.Rocks.slot State.Rocks.ValueEntry VecEntry where
  valueGet := fun {db vals h} hdb hid => by
    obtain ⟨e, he, hv⟩ := hdb h hid
    obtain ⟨db', e', hcall, -⟩ := State.Rocks.value_step (fun _ => True) h .get he hv
    exact ok_of_reply hcall
  valueSet := fun {db vals h} hdb hid p => by
    obtain ⟨e, he, hv⟩ := hdb h hid
    obtain ⟨db', e', hcall, hr, hv'⟩ := State.Rocks.value_step Mine h (.set p) he hv
    exact ⟨db', e', hcall, hr, hv'⟩
  vecIsEmpty := fun {db lists h} hdb hid hlen => by
    refine (State.Rocks.shows (keeps_iff_holds.mp hdb) ?_ hlen).isEmpty
    rw [hid]
    exact List.mem_cons_self
  vecGet := fun {db lists h} hdb hid hlen => by
    refine (State.Rocks.shows (keeps_iff_holds.mp hdb) ?_ hlen).get
    rw [hid]
    exact List.mem_cons_self
  vecClear := fun {db lists h} hdb hid => by
    obtain ⟨e, he, hop, hl⟩ := hdb h hid
    obtain ⟨cf, hcf, rfl⟩ := Option.map_eq_some_iff.mp he
    refine ⟨_, _, ?_, State.Rocks.replaces_setCf hcf .absent Mine, hop, Merging.holds_absent⟩
    simp only [q3, State.Rocks.vecClear, Handle.serializeMetakeys_eq, ok_bind]
    exact State.Rocks.remove_eq hcf _
  vecAppend := fun {db lists h} hdb hid a hlen => by
    obtain ⟨e, he, hop, hl⟩ := hdb h hid
    obtain ⟨cf, hcf, rfl⟩ := Option.map_eq_some_iff.mp he
    refine ⟨_, _, ?_,
      State.Rocks.replaces_setCf hcf ((cf.data h.metakeys).push (storage [a])) Mine, hop,
      Merging.holds_push hl (b := storage [a]) rfl⟩
    simp only [q3, State.Rocks.vecAppend, Handle.serializeMetakeys_eq, appendOperand_eq, ok_bind]
    exact State.Rocks.mergeCf_eq hcf _ _

end Rocks

namespace Sled

/-- The entry of a list. -/
def VecEntry (e : Option SledMerge × Option Bytes) (l : List Auction) : Prop :=
  e.1 = some State.Sled.vecMerge ∧ Reads e.2 l

theorem keeps_iff_holds {db : Sled} {lists : Handle U32 Unit → List Auction} {id : String} :
    Keeps State.Sled.slot VecEntry (·.id = id) db lists ↔ State.Sled.Holds [id] db lists := by
  constructor
  · intro hdb h hid
    obtain ⟨e, he, hentry⟩ := hdb h (List.mem_singleton.mp hid)
    cases he
    exact hentry
  · intro hdb h hid
    exact ⟨_, rfl, hdb h (List.mem_singleton.mpr hid)⟩

theorem onSlots : OnSlots q3 State.Sled.slot State.Sled.ValueEntry VecEntry where
  valueGet := fun {db vals h} hdb hid => by
    obtain ⟨e, he, hv⟩ := hdb h hid
    obtain ⟨db', e', hcall, -⟩ := State.Sled.value_step (fun _ => True) h .get he hv
    exact ok_of_reply hcall
  valueSet := fun {db vals h} hdb hid p => by
    obtain ⟨e, he, hv⟩ := hdb h hid
    obtain ⟨db', e', hcall, hr, hv'⟩ := State.Sled.value_step Mine h (.set p) he hv
    exact ⟨db', e', hcall, hr, hv'⟩
  vecIsEmpty := fun {db lists h} hdb hid hlen => by
    refine (State.Sled.shows (keeps_iff_holds.mp hdb) ?_ hlen).isEmpty
    rw [hid]
    exact List.mem_cons_self
  vecGet := fun {db lists h} hdb hid hlen => by
    refine (State.Sled.shows (keeps_iff_holds.mp hdb) ?_ hlen).get
    rw [hid]
    exact List.mem_cons_self
  vecClear := fun {db lists h} hdb hid => by
    obtain ⟨e, he, hop, hl⟩ := hdb h hid
    cases he
    refine ⟨_, _, ?_, State.Sled.replaces_setTree (fun k hk => Tree.erase_of_ne hk) Mine, hop,
      .inr ⟨Std.TreeMap.getElem?_erase_self, rfl⟩⟩
    simp only [q3, State.Sled.vecClear, Handle.serializeMetakeys_eq, ok_bind]
    rfl
  vecAppend := fun {db lists h} hdb hid a hlen => by
    obtain ⟨e, he, hop, hl⟩ := hdb h hid
    cases he
    have hlen : (lists h ++ [a]).length ≤ u64Max := by
      rw [List.length_append]
      exact hlen
    have hmerge : State.Sled.vecMerge h.metakeys (db.tree h.id).map[h.metakeys]? (storage [a]) =
        .ok (some (storage (lists h ++ [a]))) := by
      obtain hr | ⟨hr, hnil⟩ := hl
      · rw [show (db.tree h.id).map[h.metakeys]? = some (storage (lists h)) from hr]
        exact sled_vecMerge_eq _ _ _ hlen
      · rw [show (db.tree h.id).map[h.metakeys]? = none from hr]
        rw [hnil, List.nil_append] at hlen ⊢
        exact sled_vecMerge_none _ _ hlen
    refine ⟨_, _, ?_, State.Sled.replaces_setTree
      (fun k hk => Tree.insert_of_ne hk (storage (lists h ++ [a]))) Mine, hop,
      .inl Std.TreeMap.getElem?_insert_self⟩
    simp only [q3, State.Sled.vecAppend, Handle.serializeMetakeys_eq, appendOperand_eq, ok_bind]
    rw [Tree.merge_eq hop hmerge]
    rfl

end Sled

namespace Faster

/-- The ids of the query are short. -/
theorem fits : ∀ id ∈ ["person", "pending_auctions"], id.toUTF8.data.toList.length ≤ u64Max := by
  decide

theorem onSlots : OnSlots q3 State.Faster.slot State.Faster.ValueEntry State.Faster.VecEntry where
  valueGet := fun {db vals h} hdb hid => by
    obtain ⟨e, he, hv⟩ := hdb h hid
    obtain ⟨db', e', hcall, -⟩ := State.Faster.value_step fits (mine_person hid) .get he hv
    exact ok_of_reply hcall
  valueSet := fun {db vals h} hdb hid p => by
    obtain ⟨e, he, hv⟩ := hdb h hid
    obtain ⟨db', e', hcall, hr, hv'⟩ :=
      State.Faster.value_step fits (mine_person hid) (.set p) he hv
    exact ⟨db', e', hcall, hr, hv'⟩
  vecIsEmpty := fun {db lists h} hdb hid _ => by
    obtain ⟨e, he, hl⟩ := hdb h hid
    obtain ⟨db', e', hcall, -⟩ := State.Faster.vec_step fits (mine_pending hid) .isEmpty he hl
    exact ok_of_reply hcall
  vecGet := fun {db lists h} hdb hid _ => by
    obtain ⟨e, he, hl⟩ := hdb h hid
    obtain ⟨db', e', hcall, -⟩ := State.Faster.vec_step fits (mine_pending hid) .get he hl
    exact ok_of_reply hcall
  vecClear := fun {db lists h} hdb hid => by
    obtain ⟨e, he, hl⟩ := hdb h hid
    obtain ⟨db', e', hcall, hr, hl'⟩ := State.Faster.vec_step fits (mine_pending hid) .clear he hl
    exact ⟨db', e', ok_of_store hcall, hr, hl'⟩
  vecAppend := fun {db lists h} hdb hid a _ => by
    obtain ⟨e, he, hl⟩ := hdb h hid
    obtain ⟨db', e', hcall, hr, hl'⟩ :=
      State.Faster.vec_step fits (mine_pending hid) (.append a) he hl
    exact ⟨db', e', ok_of_store hcall, hr, hl'⟩

end Faster

namespace InMemory

/-- The slots of both hash maps. -/
def slots (db : InMemory Person × InMemory (List Auction)) (h : Handle U32 Unit) :
    Option (Option (Option Person) × Option (Option (List Auction))) :=
  some (db.1.slot h, db.2.slot h)

/-- The value in a slot. -/
def ValueEntry (e : Option (Option Person) × Option (Option (List Auction))) (v : Option Person) :
    Prop :=
  e.1 = some v

/-- The list in a slot. -/
def VecEntry (e : Option (Option Person) × Option (Option (List Auction))) (l : List Auction) :
    Prop :=
  ∃ r, e.2 = some r ∧ r.getD [] = l

theorem holds_of_keeps {db : InMemory Person × InMemory (List Auction)}
    {lists : Handle U32 Unit → List Auction} {id : String}
    (hdb : Keeps slots VecEntry (·.id = id) db lists) : State.InMemory.Holds [id] db.2 lists := by
  intro h hid
  obtain ⟨e, he, r, hr, hl⟩ := hdb h (List.mem_singleton.mp hid)
  cases he
  obtain ⟨m, hm, rfl⟩ := Option.map_eq_some_iff.mp hr
  exact ⟨m, hm, by rw [Std.HashMap.getD_eq_getD_getElem?, hl]⟩

theorem replaces_auctions {persons : InMemory Person} {db db' : InMemory (List Auction)}
    {h : Handle U32 Unit} {r : Option (List Auction)}
    (hr : Replaces State.InMemory.slot Mine h r db db') :
    Replaces slots Mine h (persons.slot h, some r) (persons, db) (persons, db') := by
  refine ⟨congrArg (fun r => some (persons.slot h, r)) hr.self, fun h' hmine hne => ?_⟩
  rw [slots, slots, hr.others h' hmine hne]

theorem onSlots : OnSlots q3 slots ValueEntry VecEntry where
  valueGet := fun {db vals h} hdb hid => by
    obtain ⟨e, he, hv⟩ := hdb h hid
    cases he
    obtain ⟨db', hcall, -⟩ := State.InMemory.value_step (fun _ => True) h .get hv
    exact ok_of_reply hcall
  valueSet := fun {db vals h} hdb hid p => by
    obtain ⟨e, he, hv⟩ := hdb h hid
    cases he
    obtain ⟨db', hcall, hr⟩ := State.InMemory.value_step Mine h (.set p) hv
    refine ⟨(db', db.2), _, ?_, ⟨rfl, fun h' hmine hne => ?_⟩, hr.self⟩
    · show (do let (persons, old) ← db.1.valueSet h p; _) = _
      rw [show db.1.valueSet h p = _ from hcall]
      rfl
    · rw [slots, slots, hr.others h' hmine hne]
  vecIsEmpty := fun {db lists h} hdb hid _ => by
    refine (State.InMemory.shows (holds_of_keeps hdb) ?_).isEmpty
    rw [hid]
    exact List.mem_cons_self
  vecGet := fun {db lists h} hdb hid _ => by
    refine (State.InMemory.shows (holds_of_keeps hdb) ?_).get
    rw [hid]
    exact List.mem_cons_self
  vecClear := fun {db lists h} hdb hid => by
    obtain ⟨e, he, r, hr, hl⟩ := hdb h hid
    cases he
    obtain ⟨m, hm, rfl⟩ := Option.map_eq_some_iff.mp hr
    have hrep := State.InMemory.replaces_set (u := m.erase h.metakeys) hm (fun k hk => by
      rw [Std.HashMap.getElem?_erase, if_neg]
      simpa using fun heq => hk heq.symm) Mine
    refine ⟨(db.1, _), _, ?_, replaces_auctions hrep, _, rfl, ?_⟩
    · simp only [q3, State.InMemory.vecClear, Handle.serializeMetakeys_eq,
        State.InMemory.get_eq hm, ok_bind, pure_eq_ok]
    · rw [Std.HashMap.getElem?_erase_self]
      rfl
  vecAppend := fun {db lists h} hdb hid a _ => by
    obtain ⟨e, he, r, hr, hl⟩ := hdb h hid
    cases he
    obtain ⟨m, hm, rfl⟩ := Option.map_eq_some_iff.mp hr
    have hrep := State.InMemory.replaces_set
      (u := m.insert h.metakeys (m.getD h.metakeys [] ++ [a])) hm (fun k hk => by
        rw [Std.HashMap.getElem?_insert, if_neg]
        simpa using fun heq => hk heq.symm) Mine
    refine ⟨(db.1, _), _, ?_, replaces_auctions hrep, _, rfl, ?_⟩
    · simp only [q3, State.InMemory.vecAppend, Handle.serializeMetakeys_eq,
        State.InMemory.get_eq hm, ok_bind, pure_eq_ok]
    · rw [Std.HashMap.getElem?_insert_self, Option.getD_some, Std.HashMap.getD_eq_getD_getElem?, hl]

end InMemory

/-! ## Runs -/

/-- `register_states` of the bundle. -/
def Rocks.registered : Rocks :=
  (State.Rocks.create.registerValueHandle "person").registerVecHandle "pending_auctions"

@[inherit_doc Rocks.registered]
def Sled.registered : Sled := State.Sled.create.registerVecHandle "pending_auctions"

@[inherit_doc Rocks.registered]
def InMemory.registered : InMemory Person × InMemory (List Auction) :=
  (State.InMemory.registered Person ["person"],
    State.InMemory.registered (List Auction) ["pending_auctions"])

section start

variable {B E : Type} {look : B → Handle U32 Unit → Option E} {V : E → Option Person → Prop}
  {L : E → List Auction → Prop}

/-- Nothing is stored. -/
theorem tabled_empty {db : B} (hrows : Keeps look V (·.id = "person") db fun _ => none)
    (hwaiting : Keeps look L (·.id = "pending_auctions") db fun _ => []) :
    Tabled look V L db .empty :=
  ⟨hrows, hwaiting, fun _ => Nat.zero_le _⟩

theorem Rocks.tabled : Tabled State.Rocks.slot State.Rocks.ValueEntry Rocks.VecEntry
    Rocks.registered .empty := by
  refine tabled_empty (fun h hid => ⟨(none, .absent), ?_, rfl⟩)
    (fun h hid => ⟨(some State.Rocks.vecMerge, .absent), ?_, rfl, Merging.holds_absent⟩)
  · rw [State.Rocks.slot, hid]
    rfl
  · rw [State.Rocks.slot, hid]
    rfl

theorem Sled.tabled : Tabled State.Sled.slot State.Sled.ValueEntry Sled.VecEntry
    Sled.registered .empty := by
  refine tabled_empty (fun h hid => ⟨_, rfl, ?_⟩) (fun h hid => ⟨_, rfl, ?_, .inr ⟨?_, rfl⟩⟩)
  · rw [hid]
    exact Std.TreeMap.getElem?_emptyc
  · rw [hid]
    rfl
  · rw [hid]
    exact Std.TreeMap.getElem?_emptyc

theorem Faster.tabled : Tabled State.Faster.slot State.Faster.ValueEntry State.Faster.VecEntry
    State.Faster.create .empty :=
  tabled_empty State.Faster.keeps_values State.Faster.keeps_lists

theorem InMemory.tabled : Tabled InMemory.slots InMemory.ValueEntry InMemory.VecEntry
    InMemory.registered .empty := by
  refine tabled_empty (fun h hid => ⟨_, rfl, ?_⟩) (fun h hid => ⟨_, rfl, none, ?_, rfl⟩)
  · obtain ⟨e, he, rfl⟩ := State.InMemory.keeps_values (T := Person) ["person"] h (by simp [hid])
    exact he
  · obtain ⟨e, he, rfl⟩ :=
      State.InMemory.keeps_values (T := List Auction) ["pending_auctions"] h (by simp [hid])
    exact he

end start

/-- The rows of the two streams. -/
def rows (es : List (ArconElement PersonOrAuctionInner)) : List (Person ⊕ Auction) :=
  es.map (·.data.row)

theorem stands_new {B : Type} {R : B → StreamJoin.Tables U32 Person Auction → Prop} {db : B}
    (hdb : R db .empty) : Stands R (.new db) .empty := ⟨hdb, rfl, rfl⟩

theorem flatmapFn_fresh {B E : Type} {sb : Q3Backend B} {look : B → Handle U32 Unit → Option E}
    {V : E → Option Person → Prop} {L : E → List Auction → Prop} (hsb : OnSlots sb look V L)
    {db : B} (hdb : Tabled look V L db .empty) (es : List (ArconElement PersonOrAuctionInner))
    (hlen : es.length ≤ u64Max) :
    ∃ outs s, transduce (flatmapFn sb) (es.map asInput) (.new db) = .ok outs s ∧
      outs.map (·.data) = (join.results .empty (rows es)).map Sale.row :=
  flatmapFn_runs hsb.implements (stands_new hdb) es fun _ => (Nat.zero_add es.length).trans_le hlen

/-- An event as it comes to the source. -/
def asEvent (e : ArconElement Event) : ArconElement NEXMarkEvent := ⟨⟨some e.data⟩, e.timestamp⟩

/-- The persons of Oregon and all auctions. -/
def select (e : ArconElement Event) : Option (ArconElement PersonOrAuctionInner) :=
  match e.data with
  | .person p => if p.state = "OR" then some ⟨.person p, e.timestamp⟩ else none
  | .auction a => some ⟨.auction a, e.timestamp⟩
  | .bid _ => none

/-- What the source hands on. -/
theorem transduce_personOrAuctionFilterMap (es : List (ArconElement Event)) :
    transduce personOrAuctionFilterMap (es.map asEvent) () =
      .ok ((es.filterMap select).map asInput) () := by
  induction es with
  | nil => rfl
  | cons e es ih =>
    have hone : personOrAuctionFilterMap ⟨some e.data⟩ () =
        .ok ((select e).toList.map fun e => (asInput e).data) () := by
      unfold personOrAuctionFilterMap select
      cases e.data with
      | person p => dsimp only; split_ifs <;> rfl
      | auction a => rfl
      | bid b => rfl
    have hts : ∀ e' ∈ select e, e'.timestamp = e.timestamp := by
      unfold select
      cases e.data with
      | person p => dsimp only; split_ifs <;> simp
      | auction a => simp
      | bid b => simp
    refine (Exec.bind_ok hone).trans ((Exec.bind_ok ih).trans ?_)
    rw [List.filterMap_cons]
    cases hsel : select e with
    | none => rfl
    | some e' =>
      have hts : (asEvent e).timestamp = e'.timestamp := (hts e' hsel).symm
      rw [hts]
      rfl

/-- The source and the node of the query, on a fresh backend, never fail on these events, and put
out these results. -/
def Answers {B : Type} (sb : Q3Backend B) (db : B) (es : List (ArconElement Event))
    (rs : List Q3Result) : Prop :=
  ∃ inputs outs s, transduce personOrAuctionFilterMap (es.map asEvent) () = .ok inputs () ∧
    transduce (flatmapFn sb) inputs (.new db) = .ok outs s ∧ outs.map (·.data) = rs

theorem answers {B E : Type} {sb : Q3Backend B} {look : B → Handle U32 Unit → Option E}
    {V : E → Option Person → Prop} {L : E → List Auction → Prop} (hsb : OnSlots sb look V L)
    {db : B} (hdb : Tabled look V L db .empty) (es : List (ArconElement Event))
    (hlen : es.length ≤ u64Max) :
    Answers sb db es ((join.joinedFrom [] (rows (es.filterMap select))).map Sale.row) := by
  obtain ⟨outs, s, hrun, hdata⟩ := flatmapFn_fresh hsb hdb (es.filterMap select)
    ((List.length_filterMap_le ..).trans hlen)
  rw [StreamJoin.results_eq StreamJoin.holds_empty] at hdata
  exact ⟨_, outs, s, transduce_personOrAuctionFilterMap es, hrun, hdata⟩

/-- The rows of the sales, event by event. -/
def saleRows (es : List (ArconElement Event)) : List Q3Result :=
  (join.joinedFrom [] (rows (es.filterMap select))).map Sale.row

/-- **Query 3, event by event.** For every sequence of events, on all four backends, the query never
fails and puts out the rows of its sales. Bids and persons of other states than Oregon make no sale.
An auction makes one with the last person of its seller's id among the events before it, if there is
one and the category is 10; a person that is the first of his id makes one with each auction of
category 10 that he sells among the events before him, and their rows have his own id for the id of
the auction; a later person of the same id makes none. -/
theorem q3_results (es : List (ArconElement Event)) (hlen : es.length ≤ u64Max) :
    Answers Rocks.q3 Rocks.registered es (saleRows es) ∧
    Answers Sled.q3 Sled.registered es (saleRows es) ∧
    Answers Faster.q3 State.Faster.create es (saleRows es) ∧
    Answers InMemory.q3 InMemory.registered es (saleRows es) :=
  ⟨answers Rocks.onSlots Rocks.tabled es hlen, answers Sled.onSlots Sled.tabled es hlen,
    answers Faster.onSlots Faster.tabled es hlen, answers InMemory.onSlots InMemory.tabled es hlen⟩

/-- A person twice, with an auction before, between and after, and one of another state. -/
def returning : List (ArconElement Event) :=
  [⟨.auction ⟨7, "a", "b", 1, 2, 3, 4, 5, 10⟩, some 1⟩,
   ⟨.person ⟨5, "x", "e", "c", "p", "WA", 1⟩, some 1⟩,
   ⟨.person ⟨5, "n", "e", "c", "p", "OR", 1⟩, some 2⟩,
   ⟨.auction ⟨8, "a", "b", 1, 2, 3, 4, 5, 10⟩, some 3⟩,
   ⟨.person ⟨5, "m", "e", "c", "q", "OR", 1⟩, some 4⟩,
   ⟨.auction ⟨9, "a", "b", 1, 2, 3, 4, 5, 10⟩, some 5⟩]

theorem q3_results_returning :
    returning.length ≤ u64Max ∧ Answers Rocks.q3 Rocks.registered returning
      [⟨"n", "p", "OR", 5⟩, ⟨"n", "p", "OR", 8⟩, ⟨"m", "q", "OR", 9⟩] := by
  have hlen : returning.length ≤ u64Max := by decide
  have hspec : saleRows returning =
      [⟨"n", "p", "OR", 5⟩, ⟨"n", "p", "OR", 8⟩, ⟨"m", "q", "OR", 9⟩] := by decide
  exact ⟨hlen, hspec ▸ (q3_results returning hlen).1⟩

/-! ## On a node -/

/-- `q3_node`: the operator of the node. -/
def q3Node {B : Type} (sb : Q3Backend B) :
    Operator (Q3State B) Empty PersonOrAuction Q3Result :=
  FlatMap.stateful (flatmapFn sb)

/-- The function panics on an event without content. -/
theorem wp_transduce {B : Type} (sb : Q3Backend B) (xs : List (ArconElement PersonOrAuction))
    (s : Q3State B) :
    Exec.wp (transduce (flatmapFn sb) xs) (fun _ _ => ∃ es : List _, xs = es.map asInput)
      (fun _ _ => True) s := by
  induction xs generalizing s with
  | nil => exact ⟨[], rfl⟩
  | cons x xs ih =>
    obtain ⟨⟨inner⟩, ts⟩ := x
    cases inner with
    | none => exact trivial
    | some data =>
      refine Exec.wp_bind.mpr (Exec.wp_intro (fun result s' _ => ?_) fun _ _ _ => trivial)
      refine Exec.wp_bind.mpr (Exec.wp_mono (ih s') (fun rest s'' hes => ?_) fun _ _ _ => trivial)
      obtain ⟨es, rfl⟩ := hes
      exact ⟨⟨data, ts⟩ :: es, rfl⟩

/-- A node with the query on this backend joins the elements on time. -/
def JoinsOnTime {B : Type} (sb : Q3Backend B) (db : B) : Prop :=
  ∀ (n : Node (Q3State B) Empty PersonOrAuction Q3Result)
    (s₀ s : NodeSt (Q3State B) Unit PersonOrAuction Q3Result Empty Unit)
    (ds : List (Node.Delivery PersonOrAuction)),
    n.operator = q3Node sb → Control.Fresh n s₀ → s₀.ctx.operator = .new db →
    Node.run n ds s₀ = .ok () s → (onTime (iterated s.ctx.log)).length ≤ u64Max →
    ∃ es : List _, onTime (iterated s.ctx.log) = es.map asInput ∧
      ((join.keys (rows es)).Nodup → ∃ outs : List (ArconElement Q3Result),
        (handed s.ctx.log).filter (!·.isControl) = outs.map .element ∧
        outs.map (·.data) = (join.nestedLoop [] (rows es)).map Sale.row)

theorem joinsOnTime {B E : Type} {sb : Q3Backend B} {look : B → Handle U32 Unit → Option E}
    {V : E → Option Person → Prop} {L : E → List Auction → Prop} (hsb : OnSlots sb look V L)
    {db : B} (hdb : Tabled look V L db .empty) : JoinsOnTime sb db := by
  intro n s₀ s ds hop hfresh hstart hrun hlen
  obtain ⟨outs, htrans, hout⟩ := Node.transduces_flatMap _ n s₀ s ds hop hfresh hrun
  rw [hstart] at htrans
  obtain ⟨es, hes⟩ := Exec.wp_ok (wp_transduce sb _ _) htrans
  refine ⟨es, hes, fun hnodup => ⟨outs, hout, ?_⟩⟩
  rw [hes] at htrans hlen
  rw [List.length_map] at hlen
  obtain ⟨outs', s', htrans', hdata⟩ := flatmapFn_fresh hsb hdb es hlen
  rw [htrans] at htrans'
  cases htrans'
  rw [hdata]
  exact congrArg (List.map Sale.row)
    (StreamJoin.results_nestedLoop StreamJoin.holds_empty (rows es) hnodup)

/-- **Query 3 is a join.** After every run of a node with the query that does not panic, with any
messages from any channels in any order and on any of the four backends: all elements on time have
content, and if no two persons among them have the same id, then the results are the rows of the
pairs of a person and an auction of category 10 that he sells, each pair once, in the order in which
the later of the two was handled. The row of a pair whose auction came first has the id of the
person in place of the id of the auction. -/
theorem q3_joins_on_time :
    JoinsOnTime Rocks.q3 Rocks.registered ∧ JoinsOnTime Sled.q3 Sled.registered ∧
    JoinsOnTime Faster.q3 State.Faster.create ∧ JoinsOnTime InMemory.q3 InMemory.registered :=
  ⟨joinsOnTime Rocks.onSlots Rocks.tabled, joinsOnTime Sled.onSlots Sled.tabled,
    joinsOnTime Faster.onSlots Faster.tabled, joinsOnTime InMemory.onSlots InMemory.tabled⟩

/-- A node with the query on Faster. -/
def fasterNode : Node (Q3State Faster) Empty PersonOrAuction Q3Result where
  id := 0
  inChannels := [1]
  operator := q3Node Faster.q3
  checkpointDir := some "/tmp"
  checkpointFails _ := false

/-- It, started on an empty backend. -/
def fasterStart : NodeSt (Q3State Faster) Unit PersonOrAuction Q3Result Empty Unit where
  state := ⟨[1].foldl Node.initWatermark ∅, some 0, some 0, ∅, []⟩
  ctx := ⟨.new State.Faster.create, (), []⟩
  metrics := { NodeMetrics.new with inboundChannels := 1 }
  borrowed _ := false
  checkpoints := []

/-- An auction, its seller and another auction of his. -/
def sales : List (ArconElement PersonOrAuctionInner) :=
  [⟨.auction ⟨7, "a", "b", 1, 2, 3, 4, 5, 10⟩, none⟩,
   ⟨.person ⟨5, "n", "e", "c", "p", "OR", 1⟩, none⟩,
   ⟨.auction ⟨8, "a", "b", 1, 2, 3, 4, 5, 10⟩, none⟩]

theorem q3_joins_on_time_sales :
    (join.keys (rows sales)).Nodup ∧ ∃ s, Node.run fasterNode
        (sales.map fun e => .onLocal (.element ⟨some e.data⟩ e.timestamp 1)) fasterStart =
          .ok () s ∧
      ∃ outs : List (ArconElement Q3Result),
        (handed s.ctx.log).filter (!·.isControl) = outs.map .element ∧
        outs.map (·.data) = (join.nestedLoop [] (rows sales)).map Sale.row := by
  have hrun := Exec.eq_ok_of_isOk (r := Node.run fasterNode
    (sales.map fun e => .onLocal (.element ⟨some e.data⟩ e.timestamp 1)) fasterStart)
    (by decide +kernel)
  have hnodup : (join.keys (rows sales)).Nodup := by decide
  have htime : onTime (iterated (Exec.final (Node.run fasterNode
      (sales.map fun e => .onLocal (.element ⟨some e.data⟩ e.timestamp 1)) fasterStart)).ctx.log) =
      sales.map asInput := by decide +kernel
  obtain ⟨es, hes, houts⟩ := q3_joins_on_time.2.2.1 fasterNode fasterStart _ _ rfl ⟨_, (), rfl⟩ rfl
    hrun (by rw [htime]; decide)
  have hsales : es = sales := by
    refine List.map_injective_iff.mpr (fun e e' h => ?_) (hes.symm.trans htime)
    cases e
    cases e'
    cases h
    rfl
  subst hsales
  exact ⟨hnodup, _, hrun, houts hnodup⟩

end Arcon.Nexmark
