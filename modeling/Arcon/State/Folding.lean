import Arcon.Lib.Slots
import Arcon.State.FasterIsolation

/-!
# States that fold what they are given

A reducer and an aggregator are given values one by one and keep what a function makes of them. What
they stand for is the list of the values since the last `clear` (`FoldOp.lists`); how they keep it
differs: a full value and pending operands on RocksDB, a value that a merge operator rewrites on
sled, a boxed value in memory, a record that `rmw` rewrites on FASTER. Each backend has one slot for
each handle (`slot`), and an operation replaces the slot of its handle and no other.

RocksDB also merges pending operands on its own. `tryPartialMerge` and `tryFullMerge` fail where the
operator panics or returns `None`, so a run that succeeds is one in which it did neither.

* `Rocks.FoldsInto`, `Sled.FoldsInto`, `InMemory.FoldsInto`, `Faster.FoldsInto`: what the functions
  of a state have to do to one slot.
* **`Rocks.run_keeps`** and its siblings: then every run follows the lists.
-/

namespace Arcon.State

open FixedBytes Merging Slots

/-! ## Operations and their meaning -/

/-- The operations that change a reducer or an aggregator. -/
inductive FoldOp (T IK N : Type)
  | add (handle : Handle IK N) (value : T)
  | clear (handle : Handle IK N)

namespace FoldOp

variable {T IK N : Type}

/-- The handle an operation is on. -/
def handle : FoldOp T IK N → Handle IK N
  | add h _ | clear h => h

/-- The values since the last `clear`. -/
def onList (l : List T) : FoldOp T IK N → List T
  | add _ value => l ++ [value]
  | clear _ => []

variable [DecidableEq IK] [DecidableEq N]

/-- The operation on a list for every handle. -/
def apply (lists : Handle IK N → List T) (o : FoldOp T IK N) : Handle IK N → List T :=
  Function.update lists o.handle (o.onList (lists o.handle))

/-- The lists after a sequence of operations. -/
def lists (ops : List (FoldOp T IK N)) : Handle IK N → List T :=
  ops.foldl apply fun _ => []

end FoldOp

/-- What happens to a RocksDB: an operation, or a merge the database does on its own. The keys in
the column family of a state are those of its handles. -/
inductive FoldEvent (T IK N : Type)
  | op (o : FoldOp T IK N)
  | partialMerge (handle : Handle IK N) (i n : Nat)
  | fullMerge (handle : Handle IK N) (n : Nat)

namespace FoldEvent

variable {T IK N : Type}

/-- The handle whose entry is changed. -/
def handle : FoldEvent T IK N → Handle IK N
  | op o => o.handle
  | partialMerge h _ _ | fullMerge h _ => h

/-- The operation of an event. -/
def op? : FoldEvent T IK N → Option (FoldOp T IK N)
  | op o => some o
  | partialMerge .. | fullMerge .. => none

/-- The operations of a run, in order. -/
def ops (events : List (FoldEvent T IK N)) : List (FoldOp T IK N) := events.filterMap op?

theorem handle_mem_of_ops {events : List (FoldEvent T IK N)} {ids : List String}
    (hids : ∀ e ∈ events, e.handle.id ∈ ids) : ∀ o ∈ ops events, o.handle.id ∈ ids := by
  intro o ho
  obtain ⟨e, he, hop⟩ := List.mem_filterMap.mp ho
  cases e with
  | op o' =>
    cases hop
    exact hids _ he
  | partialMerge h i n => cases hop
  | fullMerge h n => cases hop

variable [DecidableEq IK] [DecidableEq N]

/-- What an event means for the lists. -/
def apply (lists : Handle IK N → List T) (e : FoldEvent T IK N) : Handle IK N → List T :=
  match e.op? with
  | some o => o.apply lists
  | none => lists

theorem lists_ops (events : List (FoldEvent T IK N)) :
    FoldOp.lists (ops events) = events.foldl apply fun _ => [] := by
  unfold FoldOp.lists ops
  rw [List.foldl_filterMap]
  congr 1
  funext lists e
  cases e <;> rfl

end FoldEvent

variable {T IK N : Type} [FixedBytes IK] [FixedBytes N]

/-! ## RocksDB -/

namespace Rocks

variable (db : Rocks)

/-- One event, where `exec` runs an operation. -/
def foldStep (exec : Rocks → FoldOp T IK N → Result Rocks) (db : Rocks) :
    FoldEvent T IK N → Result Rocks
  | .op o => exec db o
  | .partialMerge h i n => db.tryPartialMerge h.id h.metakeys i n
  | .fullMerge h n => db.tryFullMerge h.id h.metakeys n

/-- A database with column families for the states `ids`, all with one operator. -/
def withOperator (op : RocksMerge) (ids : List String) : Rocks :=
  ids.foldl (fun db id => db.createColumnFamilyIfDoesntExist id (some op)) create

/-- What a handle has in the database: the operator of the state and the entry. -/
def slot (h : Handle IK N) : Option (Option RocksMerge × Pending Bytes) :=
  (db.cfs h.id).map fun cf => (cf.mergeOperator, cf.data h.metakeys)

/-- What the operator of a state and the operands of its values have to do to an entry, for it to
stand for the list of the values. -/
structure FoldsInto (op : RocksMerge) (operand : T → Bytes) (Good : Pending Bytes → List T → Prop) :
    Prop where
  absent : Good .absent []
  push : ∀ p l v, Good p l → Good (p.push (operand v)) (l ++ [v])
  combine : ∀ cf key p l i n, cf.mergeOperator = some op → Good p l →
    ∃ p', p.combine (ColumnFamily.merge cf key) i n = .ok p' ∧ Good p' l
  settle : ∀ cf key p l n, cf.mergeOperator = some op → Good p l →
    ∃ p', p.settle (ColumnFamily.merge cf key) n = .ok p' ∧ Good p' l

variable {db} {op : RocksMerge} {operand : T → Bytes} {Good : Pending Bytes → List T → Prop}
  {ids : List String} {lists : Handle IK N → List T}

/-- Every handle of the states `ids` has its list. -/
def KeepsLists (op : RocksMerge) (Good : Pending Bytes → List T → Prop) (ids : List String)
    (db : Rocks) (lists : Handle IK N → List T) : Prop :=
  Keeps slot (fun e l => e.1 = some op ∧ Good e.2 l) (fun h => h.id ∈ ids) db lists

theorem KeepsLists.cf (hdb : KeepsLists op Good ids db lists) {h : Handle IK N} (hid : h.id ∈ ids) :
    ∃ cf, db.cfs h.id = some cf ∧ cf.mergeOperator = some op ∧
      Good (cf.data h.metakeys) (lists h) := by
  obtain ⟨e, he, hop, hgood⟩ := hdb h hid
  unfold slot at he
  obtain ⟨cf, hcf, rfl⟩ := Option.map_eq_some_iff.mp he
  exact ⟨cf, hcf, hop, hgood⟩

section runs

variable [LawfulFixedBytes IK] [LawfulFixedBytes N]

/-- A new entry at the key of a handle. -/
theorem replaces_setCf {h : Handle IK N} {cf : ColumnFamily} (hcf : db.cfs h.id = some cf)
    (p : Pending Bytes) (reg : Handle IK N → Prop) :
    Replaces slot reg h (cf.mergeOperator, p) db (db.setCf h.id (cf.set h.metakeys p)) := by
  refine ⟨by simp [slot, setCf, ColumnFamily.set], fun h' _ hne => ?_⟩
  unfold slot
  by_cases hid : h'.id = h.id
  · have hkey : h'.metakeys ≠ h.metakeys := fun hkey => hne (Handle.metakeys_inj hid hkey)
    simp [setCf, ColumnFamily.set, hid, hkey, hcf]
  · simp [setCf, hid]

variable [DecidableEq IK] [DecidableEq N]

/-- A new entry for a handle that stands for a new list. -/
theorem KeepsLists.replace (hdb : KeepsLists op Good ids db lists) {h : Handle IK N}
    {cf : ColumnFamily} (hcf : db.cfs h.id = some cf) (hop : cf.mergeOperator = some op)
    {p : Pending Bytes} {l : List T} (hp : Good p l) :
    KeepsLists op Good ids (db.setCf h.id (cf.set h.metakeys p)) (Function.update lists h l) :=
  Keeps.replace hdb (replaces_setCf hcf p _) ⟨hop, hp⟩

/-- The entry of a handle is written in another way. -/
theorem KeepsLists.rework (hdb : KeepsLists op Good ids db lists) {h : Handle IK N}
    {cf : ColumnFamily} (hcf : db.cfs h.id = some cf) (hop : cf.mergeOperator = some op)
    {p : Pending Bytes} (hp : Good p (lists h)) :
    KeepsLists op Good ids (db.setCf h.id (cf.set h.metakeys p)) lists := by
  have hkeeps := hdb.replace hcf hop hp
  rwa [Function.update_eq_self] at hkeeps

/-- What the database does to a key on its own changes nothing. -/
theorem KeepsLists.treat (hdb : KeepsLists op Good ids db lists) {h : Handle IK N}
    (hid : h.id ∈ ids) {treat : ColumnFamily → Pending Bytes → Result (Pending Bytes)}
    (htreat : ∀ cf, cf.mergeOperator = some op → ∀ p, Good p (lists h) →
      ∃ p', treat cf p = .ok p' ∧ Good p' (lists h)) :
    ∃ db', db.rework h.id h.metakeys treat = .ok db' ∧ KeepsLists op Good ids db' lists := by
  obtain ⟨cf, hcf, hop, hgood⟩ := hdb.cf hid
  obtain ⟨p, hp, hgood'⟩ := htreat cf hop _ hgood
  refine ⟨_, ?_, hdb.rework hcf hop hgood'⟩
  rw [rework_eq hcf, hp]
  rfl

omit [DecidableEq IK] [DecidableEq N] [LawfulFixedBytes IK] [LawfulFixedBytes N] in
theorem keepsLists_withOperator (hfold : FoldsInto op operand Good) (ids : List String) :
    KeepsLists op Good ids (withOperator op ids) (fun _ : Handle IK N => ([] : List T)) := by
  have hreg := fun db i id => createColumnFamilyIfDoesntExist_cfs db i id (some op)
  intro h hid
  refine ⟨(some op, .absent), ?_, rfl, hfold.absent⟩
  unfold slot withOperator
  rw [foldl_getOrInsert hreg hid (.inl rfl)]
  rfl

/-- **A RocksDB follows the lists through every run**, whatever it merges in between, and no merge
fails. -/
theorem run_keeps (exec : Rocks → FoldOp T IK N → Result Rocks)
    (hadd : ∀ db h v, exec db (.add h v) = db.mergeCf h.id h.metakeys (operand v))
    (hclear : ∀ db h, exec db (.clear h) = db.remove h.id h.metakeys)
    (hfold : FoldsInto op operand Good) {events : List (FoldEvent T IK N)}
    (hids : ∀ e ∈ events, e.handle.id ∈ ids) :
    ∃ db, events.foldlM (foldStep exec) (withOperator op ids) = .ok db ∧
      KeepsLists op Good ids db (FoldOp.lists (FoldEvent.ops events)) := by
  rw [FoldEvent.lists_ops]
  refine foldlM_follows (G := fun _ e => e.handle.id ∈ ids) (fun db lists e hdb hid => ?_) events
    (keepsLists_withOperator hfold ids) (fun done e rest heq => hids e (by simp [heq]))
  cases e with
  | op o =>
    obtain ⟨cf, hcf, hop, hgood⟩ := hdb.cf hid
    cases o with
    | add h v =>
      have hrun : exec db (.add h v) = _ := (hadd db h v).trans (mergeCf_eq hcf _ _)
      exact ⟨_, hrun, hdb.replace hcf hop (hfold.push _ _ v hgood)⟩
    | clear h =>
      have hrun : exec db (.clear h) = _ := (hclear db h).trans (remove_eq hcf _)
      exact ⟨_, hrun, hdb.replace hcf hop hfold.absent⟩
  | partialMerge h i n =>
    exact hdb.treat hid fun cf hop p hp => hfold.combine cf h.metakeys p _ i n hop hp
  | fullMerge h n =>
    exact hdb.treat hid fun cf hop p hp => hfold.settle cf h.metakeys p _ n hop hp

end runs

end Rocks

/-! ## sled -/

namespace Sled

/-- A database with the operator `op` in the trees of the states `ids`. -/
def withOperator (op : SledMerge) (ids : List String) : Sled :=
  ids.foldl (fun db id => db.setTree id { db.tree id with mergeOperator := some op }) create

/-- What a handle has in the database: the operator of the tree and the value. -/
def slot (db : Sled) (h : Handle IK N) : Option (Option SledMerge × Option Bytes) :=
  some ((db.tree h.id).mergeOperator, db.get h.id h.metakeys)

/-- What the operator of a state has to do to a value, for it to stand for the list. -/
structure FoldsInto (op : SledMerge) (operand : T → Bytes) (Good : Option Bytes → List T → Prop) :
    Prop where
  none : Good none []
  merge : ∀ key r l v, Good r l →
    ∃ b, op key r (operand v) = .ok (some b) ∧ Good (some b) (l ++ [v])

variable {op : SledMerge} {operand : T → Bytes} {Good : Option Bytes → List T → Prop}
  {ids : List String} {db : Sled} {lists : Handle IK N → List T}

/-- Every handle of the states `ids` has its list. -/
def KeepsLists (op : SledMerge) (Good : Option Bytes → List T → Prop) (ids : List String)
    (db : Sled) (lists : Handle IK N → List T) : Prop :=
  Keeps slot (fun e l => e.1 = some op ∧ Good e.2 l) (fun h => h.id ∈ ids) db lists

theorem KeepsLists.get (hdb : KeepsLists op Good ids db lists) {h : Handle IK N}
    (hid : h.id ∈ ids) :
    (db.tree h.id).mergeOperator = some op ∧ Good (db.get h.id h.metakeys) (lists h) := by
  obtain ⟨e, he, hop, hgood⟩ := hdb h hid
  cases he
  exact ⟨hop, hgood⟩

theorem foldl_setOperator (ids : List String) (db : Sled) (id : String) :
    (ids.foldl (fun db id => db.setTree id { db.tree id with mergeOperator := some op }) db).tree id
      = ⟨if id ∈ ids then some op else (db.tree id).mergeOperator, (db.tree id).map⟩ := by
  induction ids generalizing db with
  | nil => rfl
  | cons i ids ih =>
    rw [List.foldl_cons, ih]
    by_cases h : id = i
    · subst h
      simp [setTree, tree]
    · simp [setTree, tree, h]

theorem keepsLists_withOperator (hfold : FoldsInto op operand Good) (ids : List String) :
    KeepsLists op Good ids (withOperator op ids) (fun _ : Handle IK N => ([] : List T)) := by
  intro h hid
  have htree : (withOperator op ids).tree h.id = _ := foldl_setOperator ids create h.id
  refine ⟨(some op, none), ?_, rfl, hfold.none⟩
  unfold slot get
  rw [htree, if_pos hid]
  exact congrArg (fun r => some (some op, r)) Std.TreeMap.getElem?_emptyc

variable [LawfulFixedBytes IK] [LawfulFixedBytes N]

/-- The tree of a handle changes at the key of the handle. -/
theorem replaces_setTree {h : Handle IK N} {m : Std.TreeMap Bytes Bytes}
    (hsame : ∀ k, k ≠ h.metakeys → m[k]? = (db.tree h.id).map[k]?) (reg : Handle IK N → Prop) :
    Replaces slot reg h ((db.tree h.id).mergeOperator, m[h.metakeys]?) db
      (db.setTree h.id { db.tree h.id with map := m }) := by
  refine ⟨by simp [slot, get, tree, setTree], fun h' _ hne => ?_⟩
  unfold slot get
  by_cases hid : h'.id = h.id
  · have hkey : h'.metakeys ≠ h.metakeys := fun hkey => hne (Handle.metakeys_inj hid hkey)
    have hm := hsame h'.metakeys hkey
    simp only [tree, setTree, hid, if_true] at hm ⊢
    rw [hm]
  · simp [tree, setTree, hid]

variable [DecidableEq IK] [DecidableEq N]

/-- **sled follows the lists through every run.** -/
theorem run_keeps (exec : Sled → FoldOp T IK N → Result Sled)
    (hadd : ∀ (db : Sled) h v, exec db (.add h v) = do
      let tree ← (db.tree h.id).merge h.metakeys (operand v)
      pure (db.setTree h.id tree))
    (hclear : ∀ (db : Sled) h, exec db (.clear h) = .ok (db.remove h.id h.metakeys).2)
    (hfold : FoldsInto op operand Good) {ops : List (FoldOp T IK N)}
    (hids : ∀ o ∈ ops, o.handle.id ∈ ids) :
    ∃ db, ops.foldlM exec (withOperator op ids) = .ok db ∧
      KeepsLists op Good ids db (FoldOp.lists ops) := by
  unfold FoldOp.lists
  refine foldlM_follows (G := fun _ o => o.handle.id ∈ ids) (fun db lists o hdb hid => ?_) ops
    (keepsLists_withOperator hfold ids) (fun done o rest heq => hids o (by simp [heq]))
  obtain ⟨hop, hgood⟩ := hdb.get hid
  cases o with
  | add h v =>
    obtain ⟨b, hb, hgood'⟩ := hfold.merge h.metakeys _ _ v hgood
    have hmerge : (db.tree h.id).merge h.metakeys (operand v) = _ := Tree.merge_eq hop hb
    refine ⟨_, (hadd db h v).trans (by rw [hmerge]; rfl), Keeps.replace hdb
      (replaces_setTree (fun k hk => Tree.insert_of_ne hk b) _) ⟨hop, ?_⟩⟩
    rw [Std.TreeMap.getElem?_insert_self]
    exact hgood'
  | clear h =>
    refine ⟨_, hclear db h, Keeps.replace hdb
      (replaces_setTree (fun k hk => Tree.erase_of_ne hk) _) ⟨hop, ?_⟩⟩
    rw [Std.TreeMap.getElem?_erase_self]
    exact hfold.none

end Sled

/-! ## In memory -/

namespace InMemory

variable {S : Type}

/-- What a handle has in the hash map of its state. -/
def slot (db : InMemory S) (h : Handle IK N) : Option (Option S) :=
  (db.data h.id).map fun m => m[h.metakeys]?

/-- What a new value makes of the stored one, for it to stand for the list. -/
structure FoldsInto (add : Option S → T → S) (Good : Option S → List T → Prop) : Prop where
  none : Good none []
  add : ∀ r l v, Good r l → Good (some (add r v)) (l ++ [v])

variable {add : Option S → T → S} {Good : Option S → List T → Prop} {ids : List String}
  {db : InMemory S} {lists : Handle IK N → List T}

/-- Every handle of the states `ids` has its list. -/
def KeepsLists (Good : Option S → List T → Prop) (ids : List String) (db : InMemory S)
    (lists : Handle IK N → List T) : Prop :=
  Keeps slot Good (fun h => h.id ∈ ids) db lists

theorem KeepsLists.map (hdb : KeepsLists Good ids db lists) {h : Handle IK N} (hid : h.id ∈ ids) :
    ∃ m, db.data h.id = some m ∧ Good m[h.metakeys]? (lists h) := by
  obtain ⟨e, he, hgood⟩ := hdb h hid
  unfold slot at he
  obtain ⟨m, hm, rfl⟩ := Option.map_eq_some_iff.mp he
  exact ⟨m, hm, hgood⟩

theorem keepsLists_registered (hfold : FoldsInto add Good) (ids : List String) :
    KeepsLists Good ids (registered S ids) (fun _ : Handle IK N => ([] : List T)) := by
  intro h hid
  refine ⟨none, ?_, hfold.none⟩
  unfold slot
  rw [registered_data S hid]
  exact congrArg some Std.HashMap.getElem?_empty

variable [LawfulFixedBytes IK] [LawfulFixedBytes N]

/-- The hash map of a handle changes at the key of the handle. -/
theorem replaces_set {h : Handle IK N} {m u : Std.HashMap Bytes S} (hm : db.data h.id = some m)
    (hsame : ∀ k, k ≠ h.metakeys → u[k]? = m[k]?) (reg : Handle IK N → Prop) :
    Replaces slot reg h u[h.metakeys]? db (db.set h.id u) := by
  refine ⟨by simp [slot, set], fun h' _ hne => ?_⟩
  unfold slot
  by_cases hid : h'.id = h.id
  · have hkey : h'.metakeys ≠ h.metakeys := fun hkey => hne (Handle.metakeys_inj hid hkey)
    simp [set, hid, hm, hsame _ hkey]
  · simp [set, hid]

variable [DecidableEq IK] [DecidableEq N]

section exec

variable (exec : InMemory S → FoldOp T IK N → Result (InMemory S))
  (hadd : ∀ (db : InMemory S) h v m, db.data h.id = some m → exec db (.add h v) =
    .ok (db.set h.id (m.insert h.metakeys (add m[h.metakeys]? v))))
  (hclear : ∀ (db : InMemory S) h m, db.data h.id = some m →
    exec db (.clear h) = .ok (db.set h.id (m.erase h.metakeys)))
  (hfold : FoldsInto add Good)
include hadd hclear hfold

/-- **An operation does on the hash maps what it does on the lists.** -/
theorem keepsLists_exec (hdb : KeepsLists Good ids db lists) {o : FoldOp T IK N}
    (hid : o.handle.id ∈ ids) :
    ∃ db', exec db o = .ok db' ∧ KeepsLists Good ids db' (o.apply lists) := by
  obtain ⟨m, hm, hgood⟩ := hdb.map hid
  cases o with
  | add h v =>
    refine ⟨_, hadd db h v m hm, Keeps.replace hdb (replaces_set hm (fun k hk => ?_) _) ?_⟩
    · dsimp only [FoldOp.handle] at hk
      rw [Std.HashMap.getElem?_insert, if_neg]
      simpa using fun heq => hk heq.symm
    · dsimp only [FoldOp.handle, FoldOp.onList]
      rw [Std.HashMap.getElem?_insert_self]
      exact hfold.add _ _ v hgood
  | clear h =>
    refine ⟨_, hclear db h m hm, Keeps.replace hdb (replaces_set hm (fun k hk => ?_) _) ?_⟩
    · dsimp only [FoldOp.handle] at hk
      rw [Std.HashMap.getElem?_erase, if_neg]
      simpa using fun heq => hk heq.symm
    · dsimp only [FoldOp.handle, FoldOp.onList]
      rw [Std.HashMap.getElem?_erase_self]
      exact hfold.none

/-- **The hash maps follow the lists through every run.** -/
theorem run_keeps {ops : List (FoldOp T IK N)} (hids : ∀ o ∈ ops, o.handle.id ∈ ids) :
    ∃ db, ops.foldlM exec (registered S ids) = .ok db ∧
      KeepsLists Good ids db (FoldOp.lists ops) := by
  unfold FoldOp.lists
  refine foldlM_follows (G := fun _ o => o.handle.id ∈ ids) (fun db lists o hdb hid => ?_) ops
    (keepsLists_registered hfold ids) (fun done o rest heq => hids o (by simp [heq]))
  exact keepsLists_exec exec hadd hclear hfold hdb hid

end exec

end InMemory

/-! ## FASTER -/

namespace Faster

/-- The record of a handle. -/
def slot (f : Faster) (h : Handle IK N) : Option (Option FasterRecord) := some (f.db h.idMetakeys)

/-- What the registered functions have to do to a record, for it to stand for the list. -/
structure FoldsInto (fns : String → Option AggregatorFn) (operand : T → Bytes) (ids : List String)
    (Good : Option FasterRecord → List T → Prop) : Prop where
  none : Good none []
  aggregate : ∀ id ∈ ids, ∀ r l v, Good r l →
    ∃ r', aggregateRecord fns (operand v) id r = .ok r' ∧ Good (some r') (l ++ [v])

variable {fns : String → Option AggregatorFn} {operand : T → Bytes} {ids : List String}
  {Good : Option FasterRecord → List T → Prop} {f : Faster} {lists : Handle IK N → List T}

/-- Every handle of the states `ids` has its list. -/
def KeepsLists (Good : Option FasterRecord → List T → Prop) (ids : List String) (f : Faster)
    (lists : Handle IK N → List T) : Prop :=
  Keeps slot Good (fun h => h.id ∈ ids) f lists

theorem KeepsLists.record (hf : KeepsLists Good ids f lists) {h : Handle IK N} (hid : h.id ∈ ids) :
    Good (f.db h.idMetakeys) (lists h) := by
  obtain ⟨e, he, hgood⟩ := hf h hid
  cases he
  exact hgood

variable [LawfulFixedBytes IK] [LawfulFixedBytes N]

/-- All states share the store; the record of a handle is its own. The length of an id is a
`usize`. -/
theorem replaces_setRecord (hfits : ∀ id ∈ ids, id.toUTF8.data.toList.length ≤ u64Max)
    {h : Handle IK N} (hid : h.id ∈ ids) (r : Option FasterRecord) :
    Replaces slot (fun h => h.id ∈ ids) h r f (f.set h.idMetakeys r) := by
  refine ⟨by simp [slot, set], fun h' hid' hne => ?_⟩
  have hkey : h'.idMetakeys ≠ h.idMetakeys := by
    intro hkey
    have happ : h'.idMetakeys ++ [] = h.idMetakeys ++ [] := by rw [hkey]
    have heq := (id_cancel (hfits _ hid') (hfits _ hid) happ).1
    exact hne (idMetakeys_inj heq hkey)
  simp [slot, set, hkey]

variable [DecidableEq IK] [DecidableEq N]

/-- **FASTER follows the lists through every run.** -/
theorem run_keeps (exec : Faster → FoldOp T IK N → Result Faster)
    (hadd : ∀ (f : Faster) h v, exec f (.add h v) =
      f.aggregate fns h.idMetakeys (operand v) h.id)
    (hclear : ∀ (f : Faster) h, exec f (.clear h) = .ok (f.remove h.idMetakeys))
    (hfold : FoldsInto fns operand ids Good)
    (hfits : ∀ id ∈ ids, id.toUTF8.data.toList.length ≤ u64Max) {ops : List (FoldOp T IK N)}
    (hids : ∀ o ∈ ops, o.handle.id ∈ ids) :
    ∃ f, ops.foldlM exec create = .ok f ∧ KeepsLists Good ids f (FoldOp.lists ops) := by
  unfold FoldOp.lists
  refine foldlM_follows (G := fun _ o => o.handle.id ∈ ids) (fun f lists o hf hid => ?_) ops
    (fun h _ => ⟨none, rfl, hfold.none⟩) (fun done o rest heq => hids o (by simp [heq]))
  have hgood := hf.record hid
  cases o with
  | add h v =>
    obtain ⟨r, hr, hgood'⟩ := hfold.aggregate h.id hid _ _ v hgood
    refine ⟨_, (hadd f h v).trans ?_, Keeps.replace hf (replaces_setRecord hfits hid _) hgood'⟩
    rw [aggregate_eq, show aggregateRecord fns (operand v) h.id (f.db h.idMetakeys) = _ from hr]
    rfl
  | clear h =>
    exact ⟨_, hclear f h, Keeps.replace hf (replaces_setRecord hfits hid _) hfold.none⟩

end Faster

end Arcon.State
