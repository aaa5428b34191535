import Arcon.State.VecStores
import Mathlib.Data.List.Induction

/-!
# Vec state is a list

A run on RocksDB is a list of `RocksEvent`s, operations and merges of the database in any order; the
other backends run the operations alone.

* `Rocks.shows`, `Sled.shows`, `InMemory.shows`: what the four reads of a handle return.
* **`vec_refines_list`**: after every run, all reads of all handles agree with the reference, on the
  three backends.
-/

namespace Arcon.State

open FixedBytes Merging

variable {T IK N : Type} [Message T] [FixedBytes IK] [FixedBytes N]

/-! ## Reads -/

/-- What the four reads of a handle show: this list. -/
structure ShowsList {T : Type} (get : Result (List T)) (iter : Nat → Result (List (Result T)))
    (len : Result Nat) (isEmpty : Result Bool) (l : List T) : Prop where
  get : get = .ok l
  /-- The first items of the iterator, and no more than there are elements. -/
  iter : ∀ n, iter n = .ok ((l.map .ok).take n)
  len : len = .ok l.length
  isEmpty : isEmpty = .ok l.isEmpty

section reads

theorem isEmpty_eq {α : Type} (l : List α) : (l.length == 0) = l.isEmpty := by cases l <;> rfl

variable {ids : List String} {lists : Handle IK N → List T} {h : Handle IK N}
  [LawfulFixedBytes IK] [LawfulFixedBytes N]

variable [LawfulMessage T]

/-- The reads of a handle on `Rocks`. -/
theorem Rocks.shows {db : Rocks} (hdb : Holds ids db lists) (hid : h.id ∈ ids)
    (hlen : (lists h).length ≤ u64Max) :
    ShowsList (db.vecGet h) (fun n => do pure ((← db.vecIter h).take T n)) (db.vecLen h)
      (db.vecIsEmpty h) (lists h) := by
  obtain ⟨r, hget, hr⟩ := reads_of_holds hdb hid hlen
  have hvecLen : db.vecLen h = .ok (lists h).length := by
    unfold vecLen
    simp only [Handle.serializeMetakeys_eq, ok_bind, hget]
    obtain rfl | ⟨rfl, hnil⟩ := hr
    · have hne : (storage (lists h)).isEmpty = false := by
        rw [List.isEmpty_eq_false_iff]
        exact storage_ne_nil _
      have hsize : ¬(storage (lists h)).length < size (Prim 8) := by
        rw [storage, List.length_append, length_encode]
        omega
      simp only [hne, Bool.false_eq_true, if_false, hsize, deserializeFrom_storage, ok_bind,
        toNat_usize hlen, pure_eq_ok]
    · rw [hnil]
      rfl
  refine ⟨?_, fun n => ?_, hvecLen, ?_⟩
  · unfold vecGet
    simp only [Handle.serializeMetakeys_eq, ok_bind, hget]
    exact readVec_eq hr hlen
  · unfold vecIter
    simp only [Handle.serializeMetakeys_eq, ok_bind, hget]
    exact iterVec_take hr n
  · unfold vecIsEmpty
    rw [hvecLen, ok_bind, isEmpty_eq]
    rfl

/-- The reads of a handle on `Sled`. -/
theorem Sled.shows {db : Sled} (hdb : Holds ids db lists) (hid : h.id ∈ ids)
    (hlen : (lists h).length ≤ u64Max) :
    ShowsList (db.vecGet h) (fun n => do pure ((← db.vecIter h).take T n)) (db.vecLen h)
      (db.vecIsEmpty h) (lists h) := by
  obtain ⟨_, hr⟩ := hdb h hid
  have hvecLen : db.vecLen h = .ok (lists h).length := by
    unfold vecLen
    simp only [Handle.serializeMetakeys_eq, ok_bind]
    obtain hr | ⟨hr, hnil⟩ := hr
    · have hne : (storage (lists h)).isEmpty = false := by
        rw [List.isEmpty_eq_false_iff]
        exact storage_ne_nil _
      simp only [hr, hne, Bool.false_eq_true, if_false, deserializeFrom_storage, ok_bind,
        toNat_usize hlen, pure_eq_ok]
    · rw [hr, hnil]
      rfl
  refine ⟨?_, fun n => ?_, hvecLen, ?_⟩
  · unfold vecGet
    simp only [Handle.serializeMetakeys_eq, ok_bind]
    exact readVec_eq hr hlen
  · unfold vecIter
    simp only [Handle.serializeMetakeys_eq, ok_bind]
    exact iterVec_take hr n
  · unfold vecIsEmpty
    rw [hvecLen, ok_bind, isEmpty_eq]
    rfl

omit [Message T] [LawfulMessage T] in
/-- The reads of a handle on `InMemory`. -/
theorem InMemory.shows {db : InMemory (List T)} (hdb : Holds ids db lists) (hid : h.id ∈ ids) :
    ShowsList (db.vecGet h) (fun n => do pure ((← db.vecIter h).take n)) (db.vecLen h)
      (db.vecIsEmpty h) (lists h) := by
  obtain ⟨m, hm, hl⟩ := hdb h hid
  have hget := get_eq hm
  refine ⟨?_, fun n => ?_, ?_, ?_⟩
  · simp only [vecGet, Handle.serializeMetakeys_eq, ok_bind, hget, hl, pure_eq_ok]
  · simp only [vecIter, Handle.serializeMetakeys_eq, ok_bind, hget, hl, pure_eq_ok]
  · simp only [vecLen, Handle.serializeMetakeys_eq, ok_bind, hget, hl, pure_eq_ok]
  · simp only [vecIsEmpty, Handle.serializeMetakeys_eq, ok_bind, hget, hl, pure_eq_ok]

end reads

/-! ## Runs -/

/-- The operations of a run, in order. -/
def vecOps {T IK N : Type} (events : List (RocksEvent T IK N)) : List (VecOp T IK N) :=
  events.filterMap RocksEvent.op?

section meaning

variable {T IK N : Type} [DecidableEq IK] [DecidableEq N] {ids : List String}

/-- What an event means for the lists. -/
def RocksEvent.apply (lists : Handle IK N → List T) (e : RocksEvent T IK N) :
    Handle IK N → List T :=
  match e.op? with
  | some o => o.apply lists
  | none => lists

theorem lists_vecOps (events : List (RocksEvent T IK N)) :
    VecOp.lists (vecOps events) = events.foldl RocksEvent.apply fun _ => [] := by
  unfold VecOp.lists vecOps
  rw [List.foldl_filterMap]
  congr 1
  funext lists e
  cases e <;> rfl

theorem lists_snoc (ops : List (VecOp T IK N)) (o : VecOp T IK N) :
    VecOp.lists (ops ++ [o]) = o.apply (VecOp.lists ops) := by
  unfold VecOp.lists
  rw [List.foldl_append]
  rfl

/-- The operations are on registered states and never make a list longer than a `Vec` can be. -/
def Feasible (ids : List String) (ops : List (VecOp T IK N)) : Prop :=
  (∀ o ∈ ops, o.handle.id ∈ ids) ∧ ∀ done, done <+: ops → ∀ h, (VecOp.lists done h).length ≤ u64Max

theorem Feasible.next {ops done rest : List (VecOp T IK N)} {o : VecOp T IK N}
    (hf : Feasible ids ops) (heq : ops = done ++ o :: rest) :
    o.handle.id ∈ ids ∧ (o.onList (VecOp.lists done o.handle)).length ≤ u64Max := by
  refine ⟨hf.1 o (by simp [heq]), ?_⟩
  have h := hf.2 (done ++ [o]) ⟨rest, by simp [heq]⟩ o.handle
  rw [lists_snoc, VecOp.apply, Function.update_self] at h
  exact h

/-- No list is longer than all that was ever written. -/
theorem length_lists_le (ops : List (VecOp T IK N)) (h : Handle IK N) :
    (VecOp.lists ops h).length ≤ (ops.map fun o => (o.onList []).length).sum := by
  induction ops using List.reverseRecOn generalizing h with
  | nil => exact Nat.le_refl 0
  | append_singleton ops o ih =>
    rw [lists_snoc, List.map_append, List.sum_append, List.map_singleton, List.sum_singleton]
    unfold VecOp.apply
    by_cases heq : h = o.handle
    · rw [heq, Function.update_self]
      have hle := ih o.handle
      cases o <;> simp only [VecOp.onList, List.length_append, List.length_nil] at hle ⊢ <;> omega
    · rw [Function.update_of_ne heq]
      exact (ih h).trans (Nat.le_add_right _ _)

end meaning

section runs

variable [DecidableEq IK] [DecidableEq N] {ids : List String} [LawfulFixedBytes IK]
  [LawfulFixedBytes N]

/-- **A RocksDB follows the lists through every run**, whatever it merges in between. -/
theorem Rocks.run_holds {events : List (RocksEvent T IK N)} (hf : Feasible ids (vecOps events)) :
    ∃ db, events.foldlM Rocks.step (Rocks.registered ids) = .ok db ∧
      Rocks.Holds ids db (VecOp.lists (vecOps events)) := by
  rw [lists_vecOps]
  refine foldlM_follows (G := fun lists e => (∀ h, (lists h).length ≤ u64Max) ∧
    ∀ o, e.op? = some o → o.handle.id ∈ ids ∧ (o.onList (lists o.handle)).length ≤ u64Max)
    (fun db lists e hdb hgood => ?_) events (Rocks.holds_registered ids)
    (fun done e rest heq => ?_)
  · cases e with
    | op o => exact Rocks.holds_exec hdb o (hgood.2 o rfl).1 (hgood.2 o rfl).2
    | partialMerge id key i n => exact ⟨_, rfl, Rocks.holds_partialMerge hdb hgood.1 id key i n⟩
    | fullMerge id key n => exact ⟨_, rfl, Rocks.holds_fullMerge hdb hgood.1 id key n⟩
  · have hops : vecOps events = vecOps done ++ vecOps (e :: rest) := by
      rw [heq, vecOps, List.filterMap_append]
      rfl
    rw [← lists_vecOps]
    refine ⟨hf.2 _ ⟨_, hops.symm⟩, fun o ho => ?_⟩
    have hnext : vecOps events = vecOps done ++ o :: vecOps rest := by
      rw [hops, vecOps, vecOps, List.filterMap_cons, ho]
      rfl
    exact hf.next hnext

/-- sled follows the lists. -/
theorem Sled.run_holds {ops : List (VecOp T IK N)} (hf : Feasible ids ops) :
    ∃ db, ops.foldlM Sled.exec (Sled.registered ids) = .ok db ∧
      Sled.Holds ids db (VecOp.lists ops) := by
  unfold VecOp.lists
  refine foldlM_follows (G := fun lists o => o.handle.id ∈ ids ∧
    (o.onList (lists o.handle)).length ≤ u64Max) (fun _ _ o hdb hgood => ?_) ops
    (Sled.holds_registered ids) (fun _ _ _ heq => hf.next heq)
  exact Sled.holds_exec hdb o hgood.1 hgood.2

omit [Message T] in
/-- The hash maps follow the lists. -/
theorem InMemory.run_holds {ops : List (VecOp T IK N)} (hf : Feasible ids ops) :
    ∃ db, ops.foldlM InMemory.exec (InMemory.registered (List T) ids) = .ok db ∧
      InMemory.Holds ids db (VecOp.lists ops) := by
  unfold VecOp.lists
  refine foldlM_follows (G := fun _ o => o.handle.id ∈ ids) (fun _ _ o hdb hgood => ?_) ops
    (InMemory.holds_registered ids) (fun _ _ _ heq => (hf.next heq).1)
  exact InMemory.holds_exec hdb o hgood

variable [LawfulMessage T]

/-- **Vec state is a list.** For every sequence of operations on registered handles whose lists are
no longer than a `Vec` can be, and every way in which RocksDB merges pending operands in between: no
operation and no read fails on `Rocks`, `Sled` or `InMemory`, and for every handle the reads show
the list that the operations give on a plain list. -/
theorem vec_refines_list (ids : List String) (events : List (RocksEvent T IK N))
    (hf : Feasible ids (vecOps events)) :
    ∃ rocks sled mem,
      events.foldlM Rocks.step (Rocks.registered ids) = .ok rocks ∧
      (vecOps events).foldlM Sled.exec (Sled.registered ids) = .ok sled ∧
      (vecOps events).foldlM InMemory.exec (InMemory.registered (List T) ids) = .ok mem ∧
      ∀ h : Handle IK N, h.id ∈ ids →
        ShowsList (rocks.vecGet h) (fun n => do pure ((← rocks.vecIter h).take T n))
          (rocks.vecLen h) (rocks.vecIsEmpty h) (VecOp.lists (vecOps events) h) ∧
        ShowsList (sled.vecGet h) (fun n => do pure ((← sled.vecIter h).take T n))
          (sled.vecLen h) (sled.vecIsEmpty h) (VecOp.lists (vecOps events) h) ∧
        ShowsList (mem.vecGet h) (fun n => do pure ((← mem.vecIter h).take n))
          (mem.vecLen h) (mem.vecIsEmpty h) (VecOp.lists (vecOps events) h) := by
  obtain ⟨rocks, hrocks, hholds⟩ := Rocks.run_holds hf
  obtain ⟨sled, hsled, hholds'⟩ := Sled.run_holds hf
  obtain ⟨mem, hmem, hholds''⟩ := InMemory.run_holds hf
  refine ⟨rocks, sled, mem, hrocks, hsled, hmem, fun h hid => ?_⟩
  have hlen := hf.2 _ (List.prefix_refl _) h
  exact ⟨Rocks.shows hholds hid hlen, Sled.shows hholds' hid hlen, InMemory.shows hholds'' hid⟩

end runs

/-- A run with an empty `vec_add_all`, a partial merge without a value and a full merge. -/
def mergedRun : List (RocksEvent Bool Unit Bool) :=
  [.op (.append ⟨"v", (), true⟩ true), .op (.addAll ⟨"v", (), true⟩ []),
   .op (.addAll ⟨"v", (), true⟩ [false, true]), .op (.set ⟨"v", (), false⟩ [true]),
   .partialMerge "v" [1] 1 2, .fullMerge "v" [1] 1, .op (.append ⟨"v", (), true⟩ false),
   .op (.clear ⟨"v", (), false⟩)]

theorem feasible_mergedRun : Feasible ["v"] (vecOps mergedRun) := by
  refine ⟨by decide, fun done hdone h => ?_⟩
  obtain ⟨rest, hrest⟩ := hdone
  have hsum : ((vecOps mergedRun).map fun o => (o.onList ([] : List Bool)).length).sum = 5 := by
    decide
  rw [← hrest, List.map_append, List.sum_append] at hsum
  have hle := length_lists_le done h
  unfold u64Max
  omega

theorem vec_refines_list_merged :
    Feasible ["v"] (vecOps mergedRun) ∧
      ∃ rocks : Rocks, mergedRun.foldlM Rocks.step (Rocks.registered ["v"]) = .ok rocks ∧
        rocks.vecGet (⟨"v", (), true⟩ : Handle Unit Bool) =
          .ok (VecOp.lists (vecOps mergedRun) ⟨"v", (), true⟩) := by
  obtain ⟨rocks, _, _, hrun, _, _, hreads⟩ := vec_refines_list ["v"] mergedRun feasible_mergedRun
  exact ⟨feasible_mergedRun, rocks, hrun, (hreads ⟨"v", (), true⟩ (by decide)).1.get⟩

end Arcon.State
