import Arcon.State.VecFormat

/-!
# Stores that hold lists

The reference keeps a plain list for every handle and gives the four operations their obvious
meaning on it (`VecOp.apply`). Each backend runs the operations on its own store; on RocksDB the
database merges pending operands between them as it likes.

* `Rocks.Holds`, `Sled.Holds`, `InMemory.Holds`: the store stands for the lists.
* **`Rocks.holds_exec`**, `Sled.holds_exec`, `InMemory.holds_exec`: an operation does on the store
  what it does on the list.
* **`Rocks.holds_partialMerge`**, **`Rocks.holds_fullMerge`**: what the database does on its own
  changes nothing.
-/

namespace Arcon.State

open FixedBytes Merging

variable {T IK N : Type} [Message T] [FixedBytes IK] [FixedBytes N]

/-! ## Operations and their meaning -/

/-- The operations that change a vector. -/
inductive VecOp (T IK N : Type)
  | append (handle : Handle IK N) (value : T)
  | addAll (handle : Handle IK N) (values : List T)
  | set (handle : Handle IK N) (value : List T)
  | clear (handle : Handle IK N)

namespace VecOp

/-- The handle an operation is on. -/
def handle : VecOp T IK N → Handle IK N
  | append h _ | addAll h _ | set h _ | clear h => h

/-- The operation on a plain list. -/
def onList (l : List T) : VecOp T IK N → List T
  | append _ value => l ++ [value]
  | addAll _ values => l ++ values
  | set _ value => value
  | clear _ => []

variable [DecidableEq IK] [DecidableEq N]

/-- The operation on a list for every handle. -/
def apply (lists : Handle IK N → List T) (o : VecOp T IK N) : Handle IK N → List T :=
  Function.update lists o.handle (o.onList (lists o.handle))

/-- The lists after a sequence of operations. -/
def lists (ops : List (VecOp T IK N)) : Handle IK N → List T :=
  ops.foldl apply fun _ => []

end VecOp

/-- The operation on `Rocks`. -/
def Rocks.exec (db : Rocks) : VecOp T IK N → Result Rocks
  | .append h value => db.vecAppend h value
  | .addAll h values => db.vecAddAll h values
  | .set h value => db.vecSet h value
  | .clear h => db.vecClear h

/-- The operation on `Sled`. -/
def Sled.exec (db : Sled) : VecOp T IK N → Result Sled
  | .append h value => db.vecAppend h value
  | .addAll h values => db.vecAddAll h values
  | .set h value => db.vecSet h value
  | .clear h => db.vecClear h

/-- The operation on `InMemory`. -/
def InMemory.exec {T : Type} (db : InMemory (List T)) : VecOp T IK N → Result (InMemory (List T))
  | .append h value => db.vecAppend h value
  | .addAll h values => db.vecAddAll h values
  | .set h value => db.vecSet h value
  | .clear h => db.vecClear h

/-- What happens to a RocksDB: an operation, or a merge the database does on its own. -/
inductive RocksEvent (T IK N : Type)
  | op (o : VecOp T IK N)
  | partialMerge (cfName : String) (key : Bytes) (i n : Nat)
  | fullMerge (cfName : String) (key : Bytes) (n : Nat)

/-- The operation of an event. -/
def RocksEvent.op? {T IK N : Type} : RocksEvent T IK N → Option (VecOp T IK N)
  | op o => some o
  | partialMerge .. | fullMerge .. => none

/-- One event. -/
def Rocks.step (db : Rocks) : RocksEvent T IK N → Result Rocks
  | .op o => db.exec o
  | .partialMerge cfName key i n => .ok (db.partialMerge cfName key i n)
  | .fullMerge cfName key n => .ok (db.fullMerge cfName key n)

/-! ## Rocks -/

namespace Rocks

/-- Every handle of the states `ids` has its list, as the value and the pending operands that
stand for it. -/
def Holds (ids : List String) (db : Rocks) (lists : Handle IK N → List T) : Prop :=
  ∀ h : Handle IK N, h.id ∈ ids → ∃ cf, db.cfs h.id = some cf ∧ cf.mergeOperator = some vecMerge ∧
    (cf.data h.metakeys).Holds VecDenotes (FreeMonoid.ofList (lists h))

variable {ids : List String} {db : Rocks} {lists : Handle IK N → List T}

section update

variable [DecidableEq IK] [DecidableEq N] [LawfulFixedBytes IK] [LawfulFixedBytes N]

/-- A new entry for a handle that stands for a new list. -/
theorem holds_setCf (hdb : Holds ids db lists) {h : Handle IK N} {cf : ColumnFamily}
    {p : Pending Bytes} {l : List T} (hcf : db.cfs h.id = some cf)
    (hop : cf.mergeOperator = some vecMerge) (hp : p.Holds VecDenotes (FreeMonoid.ofList l)) :
    Holds ids (db.setCf h.id (cf.set h.metakeys p)) (Function.update lists h l) := by
  intro h' hid'
  by_cases hid : h'.id = h.id
  · refine ⟨cf.set h.metakeys p, by simp [setCf, hid], hop, ?_⟩
    by_cases hkey : h'.metakeys = h.metakeys
    · obtain rfl := Handle.metakeys_inj hid hkey
      simpa [ColumnFamily.set] using hp
    · have hne : h' ≠ h := fun heq => hkey (by rw [heq])
      obtain ⟨cf', hcf', _, hp'⟩ := hdb h' hid'
      rw [hid, hcf] at hcf'
      obtain rfl := Option.some.inj hcf'
      simpa [ColumnFamily.set, hkey, Function.update_of_ne hne] using hp'
  · have hne : h' ≠ h := fun heq => hid (by rw [heq])
    rw [Function.update_of_ne hne]
    simpa [setCf, hid] using hdb h' hid'

/-- **An operation does on the store what it does on the list.** -/
theorem holds_exec (hdb : Holds ids db lists) (o : VecOp T IK N) (hid : o.handle.id ∈ ids)
    (hlen : (o.onList (lists o.handle)).length ≤ u64Max) :
    ∃ db', db.exec o = .ok db' ∧ Holds ids db' (o.apply lists) := by
  obtain ⟨cf, hcf, hop, hp⟩ := hdb o.handle hid
  unfold VecOp.apply
  cases o with
  | append h value =>
    refine ⟨_, ?_, holds_setCf hdb hcf hop (holds_push hp (b := storage [value]) rfl)⟩
    simp only [exec, vecAppend, Handle.serializeMetakeys_eq, appendOperand_eq, ok_bind]
    exact mergeCf_eq hcf _ _
  | addAll h values =>
    have hlen' : values.length ≤ u64Max := by
      simp only [VecOp.onList, List.length_append] at hlen
      omega
    refine ⟨_, ?_, holds_setCf hdb hcf hop (holds_push hp (b := storage values) rfl)⟩
    simp only [exec, vecAddAll, Handle.serializeMetakeys_eq, addAllOperand_eq values hlen', ok_bind]
    exact mergeCf_eq hcf _ _
  | set h value =>
    refine ⟨_, ?_, holds_setCf hdb hcf hop (holds_put (b := storage value) rfl)⟩
    simp only [exec, vecSet, Handle.serializeMetakeys_eq, setStorage_eq, ok_bind]
    exact put_eq hcf _ _
  | clear h =>
    refine ⟨_, ?_, holds_setCf hdb hcf hop holds_absent⟩
    simp only [exec, vecClear, Handle.serializeMetakeys_eq, ok_bind]
    exact remove_eq hcf _

end update

/-- A key is treated anew without a change of what it stands for. -/
theorem holds_rework (hdb : Holds ids db lists) {id : String} {key : Bytes} {db' : Rocks}
    {treat : ColumnFamily → Pending Bytes → Result (Pending Bytes)}
    (htreat : ∀ cf, cf.mergeOperator = some vecMerge → ∀ (h : Handle IK N) p,
      p.Holds VecDenotes (FreeMonoid.ofList (lists h)) →
        ∃ p', treat cf p = .ok p' ∧ p'.Holds VecDenotes (FreeMonoid.ofList (lists h)))
    (h : db.rework id key treat = .ok db') : Holds ids db' lists := by
  cases hcf : db.cfs id with
  | none =>
    unfold rework at h
    rw [hcf] at h
    cases h
    exact hdb
  | some cf =>
    rw [rework_eq hcf] at h
    cases hp : treat cf (cf.data key) with
    | error e =>
      rw [hp] at h
      cases h
    | ok p =>
      rw [hp] at h
      cases h
      intro h hid
      obtain ⟨cf', hcf', hop, hold⟩ := hdb h hid
      by_cases heq : h.id = id
      · rw [heq, hcf] at hcf'
        obtain rfl := Option.some.inj hcf'
        refine ⟨cf.set key p, by simp [setCf, heq], hop, ?_⟩
        by_cases hkey : h.metakeys = key
        · rw [hkey] at hold
          obtain ⟨p', hp', hnew⟩ := htreat cf hop h _ hold
          cases hp.symm.trans hp'
          simpa [ColumnFamily.set, hkey] using hnew
        · simpa [ColumnFamily.set, hkey] using hold
      · exact ⟨cf', by simpa [setCf, heq] using hcf', hop, hold⟩

/-- What the database does on its own changes nothing. -/
theorem holds_partialMerge (hdb : Holds ids db lists) (hlen : ∀ h, (lists h).length ≤ u64Max)
    (id : String) (key : Bytes) (i n : Nat) : Holds ids (db.partialMerge id key i n) lists := by
  unfold partialMerge
  cases h : db.tryPartialMerge id key i n with
  | error e => exact hdb
  | ok db' =>
    exact holds_rework hdb (fun cf hop h p hp =>
      holds_combine (folds_vecMerge hop key) hp (hlen h) i n) h

theorem holds_fullMerge (hdb : Holds ids db lists) (hlen : ∀ h, (lists h).length ≤ u64Max)
    (id : String) (key : Bytes) (n : Nat) : Holds ids (db.fullMerge id key n) lists := by
  unfold fullMerge
  cases h : db.tryFullMerge id key n with
  | error e => exact hdb
  | ok db' =>
    exact holds_rework hdb (fun cf hop h p hp =>
      holds_settle (folds_vecMerge hop key) hp (hlen h) n) h

/-- A database with the handles of the states `ids` registered. -/
def registered (ids : List String) : Rocks := ids.foldl registerVecHandle create

theorem holds_registered (ids : List String) :
    Holds ids (registered ids) (fun _ : Handle IK N => ([] : List T)) := by
  intro h hid
  have hreg := fun db i id => createColumnFamilyIfDoesntExist_cfs db i id (some vecMerge)
  exact ⟨_, foldl_getOrInsert hreg hid (.inl rfl), rfl, holds_absent⟩

/-- What the store returns for a handle. -/
theorem reads_of_holds (hdb : Holds ids db lists) {h : Handle IK N} (hid : h.id ∈ ids)
    (hlen : (lists h).length ≤ u64Max) :
    ∃ r, db.get h.id h.metakeys = .ok r ∧ Reads r (lists h) := by
  obtain ⟨cf, hcf, hop, hp⟩ := hdb h hid
  have hget := get_eq hcf h.metakeys
  obtain ⟨r, hr, hden⟩ | ⟨hr, hone⟩ := value_of_holds (folds_vecMerge hop h.metakeys) hp hlen
  · refine ⟨some r, by rw [hget, hr], .inl ?_⟩
    rw [show r = storage (lists h) from hden]
  · exact ⟨none, by rw [hget, hr], .inr ⟨rfl, hone⟩⟩

end Rocks

/-! ## Sled -/

namespace Sled

/-- Every handle of the states `ids` has its list. -/
def Holds (ids : List String) (db : Sled) (lists : Handle IK N → List T) : Prop :=
  ∀ h : Handle IK N, h.id ∈ ids → (db.tree h.id).mergeOperator = some vecMerge ∧
    Reads (db.get h.id h.metakeys) (lists h)

variable {ids : List String} {db : Sled} {lists : Handle IK N → List T}

/-- A database with the handles of the states `ids` registered. -/
def registered (ids : List String) : Sled := ids.foldl registerVecHandle create

theorem foldl_registerVecHandle (ids : List String) (db : Sled) (id : String) :
    (ids.foldl registerVecHandle db).tree id =
      ⟨if id ∈ ids then some vecMerge else (db.tree id).mergeOperator, (db.tree id).map⟩ := by
  induction ids generalizing db with
  | nil => rfl
  | cons i ids ih =>
    rw [List.foldl_cons, ih]
    by_cases h : id = i
    · subst h
      simp [registerVecHandle, setTree, tree]
    · simp [registerVecHandle, setTree, tree, h]

theorem holds_registered (ids : List String) :
    Holds ids (registered ids) (fun _ : Handle IK N => ([] : List T)) := by
  intro h hid
  have htree := foldl_registerVecHandle ids create h.id
  refine ⟨?_, .inr ⟨?_, rfl⟩⟩
  · rw [registered, htree, if_pos hid]
  · rw [get, registered, htree]
    exact Std.TreeMap.getElem?_emptyc

variable [DecidableEq IK] [DecidableEq N] [LawfulFixedBytes IK] [LawfulFixedBytes N]

/-- A new value for a handle, or none, that stands for a new list. -/
theorem holds_setTree (hdb : Holds ids db lists) {h : Handle IK N} {m : Std.TreeMap Bytes Bytes}
    {l : List T} (hsame : ∀ k, k ≠ h.metakeys → m[k]? = (db.tree h.id).map[k]?)
    (hread : Reads m[h.metakeys]? l) :
    Holds ids (db.setTree h.id { db.tree h.id with map := m }) (Function.update lists h l) := by
  intro h' hid'
  obtain ⟨hop, hread'⟩ := hdb h' hid'
  by_cases hid : h'.id = h.id
  · rw [hid] at hop
    unfold get tree at hread'
    rw [hid] at hread'
    refine ⟨by simpa [tree, setTree, hid] using hop, ?_⟩
    by_cases hkey : h'.metakeys = h.metakeys
    · obtain rfl := Handle.metakeys_inj hid hkey
      simpa [get, tree, setTree] using hread
    · have hne : h' ≠ h := fun heq => hkey (by rw [heq])
      rw [Function.update_of_ne hne]
      have hm := hsame h'.metakeys hkey
      simp only [get, tree, setTree, hid, if_true] at hm ⊢
      rw [hm]
      exact hread'
  · have hne : h' ≠ h := fun heq => hid (by rw [heq])
    rw [Function.update_of_ne hne]
    exact ⟨by simpa [tree, setTree, hid] using hop, by simpa [get, tree, setTree, hid] using hread'⟩

/-- The operator of the tree appends what it is given. -/
theorem holds_merge (hdb : Holds ids db lists) {h : Handle IK N} (hid : h.id ∈ ids) {l : List T}
    (hlen : (lists h ++ l).length ≤ u64Max) :
    ∃ t, (db.tree h.id).merge h.metakeys (storage l) = .ok t ∧
      Holds ids (db.setTree h.id t) (Function.update lists h (lists h ++ l)) := by
  obtain ⟨hop, hread⟩ := hdb h hid
  have hmerge : vecMerge h.metakeys (db.tree h.id).map[h.metakeys]? (storage l) =
      .ok (some (storage (lists h ++ l))) := by
    obtain hr | ⟨hr, hnil⟩ := hread
    · rw [show (db.tree h.id).map[h.metakeys]? = some (storage (lists h)) from hr]
      exact sled_vecMerge_eq _ _ _ hlen
    · rw [show (db.tree h.id).map[h.metakeys]? = none from hr]
      rw [hnil, List.nil_append] at hlen ⊢
      exact sled_vecMerge_none _ _ hlen
  exact ⟨_, Tree.merge_eq hop hmerge, holds_setTree hdb (fun k hk => Tree.insert_of_ne hk _)
    (.inl Std.TreeMap.getElem?_insert_self)⟩

/-- **An operation does on the store what it does on the list.** -/
theorem holds_exec (hdb : Holds ids db lists) (o : VecOp T IK N) (hid : o.handle.id ∈ ids)
    (hlen : (o.onList (lists o.handle)).length ≤ u64Max) :
    ∃ db', db.exec o = .ok db' ∧ Holds ids db' (o.apply lists) := by
  unfold VecOp.apply
  cases o with
  | append h value =>
    obtain ⟨t, ht, hdb'⟩ := holds_merge hdb hid hlen
    refine ⟨_, ?_, hdb'⟩
    simp only [exec, vecAppend, Handle.serializeMetakeys_eq, appendOperand_eq, ok_bind]
    rw [show (db.tree h.id).merge h.metakeys (storage [value]) = .ok t from ht]
    rfl
  | addAll h values =>
    have hlen' : values.length ≤ u64Max := by
      simp only [VecOp.onList, List.length_append] at hlen
      omega
    obtain ⟨t, ht, hdb'⟩ := holds_merge hdb hid hlen
    refine ⟨_, ?_, hdb'⟩
    simp only [exec, vecAddAll, Handle.serializeMetakeys_eq, addAllOperand_eq values hlen', ok_bind]
    rw [show (db.tree h.id).merge h.metakeys (storage values) = .ok t from ht]
    rfl
  | set h value =>
    refine ⟨_, ?_, holds_setTree hdb (fun k hk => Tree.insert_of_ne hk (storage value))
      (.inl Std.TreeMap.getElem?_insert_self)⟩
    simp only [exec, vecSet, Handle.serializeMetakeys_eq, setStorage_eq, ok_bind]
    rfl
  | clear h =>
    refine ⟨_, ?_, holds_setTree hdb (fun k hk => Tree.erase_of_ne hk)
      (.inr ⟨Std.TreeMap.getElem?_erase_self, rfl⟩)⟩
    simp only [exec, vecClear, Handle.serializeMetakeys_eq, ok_bind]
    rfl

end Sled

/-! ## In memory -/

namespace InMemory

variable {T : Type}

/-- Every handle of the states `ids` has its list. -/
def Holds (ids : List String) (db : InMemory (List T)) (lists : Handle IK N → List T) : Prop :=
  ∀ h : Handle IK N, h.id ∈ ids → ∃ m, db.data h.id = some m ∧ m.getD h.metakeys [] = lists h

variable {ids : List String} {db : InMemory (List T)} {lists : Handle IK N → List T}

theorem holds_registered (ids : List String) :
    Holds ids (registered (List T) ids) (fun _ : Handle IK N => ([] : List T)) := by
  intro h hid
  exact ⟨∅, registered_data _ hid, Std.HashMap.getD_empty⟩

variable [DecidableEq IK] [DecidableEq N] [LawfulFixedBytes IK] [LawfulFixedBytes N]

/-- A new list for a handle. -/
theorem holds_set (hdb : Holds ids db lists) {h : Handle IK N} {m u : Std.HashMap Bytes (List T)}
    (hm : db.data h.id = some m) {l : List T}
    (hsame : ∀ k, k ≠ h.metakeys → u.getD k [] = m.getD k []) (hl : u.getD h.metakeys [] = l) :
    Holds ids (db.set h.id u) (Function.update lists h l) := by
  intro h' hid'
  obtain ⟨m₀, hm₀, hl₀⟩ := hdb h' hid'
  by_cases hid : h'.id = h.id
  · rw [hid, hm] at hm₀
    obtain rfl := Option.some.inj hm₀
    refine ⟨u, by simp [set, hid], ?_⟩
    by_cases hkey : h'.metakeys = h.metakeys
    · obtain rfl := Handle.metakeys_inj hid hkey
      rw [Function.update_self, hl]
    · have hne : h' ≠ h := fun heq => hkey (by rw [heq])
      rw [Function.update_of_ne hne, hsame _ hkey, hl₀]
  · have hne : h' ≠ h := fun heq => hid (by rw [heq])
    exact ⟨m₀, by simpa [set, hid] using hm₀, by rw [Function.update_of_ne hne, hl₀]⟩

theorem getD_insert_ne {S : Type} {m : Std.HashMap Bytes S} {key k : Bytes} (h : k ≠ key)
    (value d : S) : (m.insert key value).getD k d = m.getD k d := by
  rw [Std.HashMap.getD_insert, if_neg]
  simpa using fun heq => h heq.symm

/-- **An operation does on the store what it does on the list.** -/
theorem holds_exec (hdb : Holds ids db lists) (o : VecOp T IK N) (hid : o.handle.id ∈ ids) :
    ∃ db', db.exec o = .ok db' ∧ Holds ids db' (o.apply lists) := by
  obtain ⟨m, hm, hl⟩ := hdb o.handle hid
  have hget := get_eq hm
  unfold VecOp.apply
  cases o with
  | append h value =>
    refine ⟨_, ?_, holds_set hdb hm
      (fun k hk => getD_insert_ne hk (m.getD h.metakeys [] ++ [value]) [])
      (by rw [Std.HashMap.getD_insert_self]; exact congrArg (· ++ [value]) hl)⟩
    simp only [exec, vecAppend, Handle.serializeMetakeys_eq, ok_bind]
    rw [show db.get h.id = .ok m from hget]
    rfl
  | addAll h values =>
    refine ⟨_, ?_, holds_set hdb hm
      (fun k hk => getD_insert_ne hk (m.getD h.metakeys [] ++ values) [])
      (by rw [Std.HashMap.getD_insert_self]; exact congrArg (· ++ values) hl)⟩
    simp only [exec, vecAddAll, Handle.serializeMetakeys_eq, ok_bind]
    rw [show db.get h.id = .ok m from hget]
    rfl
  | set h value =>
    refine ⟨_, ?_, holds_set hdb hm (fun k hk => getD_insert_ne hk value [])
      Std.HashMap.getD_insert_self⟩
    simp only [exec, vecSet, Handle.serializeMetakeys_eq, ok_bind]
    rw [show db.get h.id = .ok m from hget]
    rfl
  | clear h =>
    refine ⟨_, ?_, holds_set hdb hm (u := m.erase h.metakeys) (fun k hk => ?_)
      Std.HashMap.getD_erase_self⟩
    · simp only [exec, vecClear, Handle.serializeMetakeys_eq, ok_bind]
      rw [show db.get h.id = .ok m from hget]
      rfl
    · rw [Std.HashMap.getD_erase, if_neg]
      simpa using fun heq => hk heq.symm

end InMemory

end Arcon.State
