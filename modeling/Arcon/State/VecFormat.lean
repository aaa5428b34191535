import Arcon.State.VecOps
import Mathlib.Algebra.FreeMonoid.Basic

/-!
# The stored vector

`storage l` is the one byte string that stands for the list `l`. Every writer produces it for what
it writes, the merge operators produce it for the concatenation of what they merge, and the readers
take it apart again. A list is stored with its length in a `usize`, so the length has to fit one;
the length of a `Vec` does.

* `appendOperand_eq`, `addAllOperand_eq`, `setStorage_eq`: the writers.
* **`mergeOperands_eq`**, **`folds_vecMerge`**: the merge operators concatenate.
* **`readVec_eq`**, `iterVec_take`: the readers; the sanity check of `vec_get` passes.
-/

namespace Arcon.State

open Bytes FixedBytes Merging

variable {T : Type} [Message T]

/-- The elements of a list, one after the other. -/
def body (l : List T) : Bytes := l.flatMap protobuf.serialize

/-- A list as it is stored. -/
def storage (l : List T) : Bytes := encode (usize l.length) ++ body l

@[simp] theorem body_nil : body ([] : List T) = [] := rfl

@[simp] theorem body_cons (a : T) (l : List T) : body (a :: l) = protobuf.serialize a ++ body l :=
  rfl

@[simp] theorem body_append (l l' : List T) : body (l ++ l') = body l ++ body l' :=
  List.flatMap_append

theorem storage_ne_nil (l : List T) : storage l ≠ [] := by
  intro h
  have hlen : (storage l).length = 0 := by rw [h]; rfl
  rw [storage, List.length_append, length_encode] at hlen
  exact absurd hlen (by simp [size])

/-- The length is read off the front of a stored list. -/
theorem deserializeFrom_storage (l : List T) :
    deserializeFrom (α := Prim 8) (storage l) = .ok (usize l.length, body l) :=
  delimits _ _

/-! ## The writers -/

theorem serializeInto_vec (buf : Bytes) (a : T) :
    protobuf.serializeInto (.vec buf) a = .vec (buf ++ protobuf.serialize a) := rfl

theorem appendOperand_eq (a : T) : appendOperand a = .ok (storage [a]) := by
  unfold appendOperand
  rw [serializeInto_eq _ _ rfl]
  simp only [storage, body_cons, body_nil, List.append_nil]
  rfl

theorem foldl_serializeInto (l : List T) (buf : Bytes) :
    l.foldl protobuf.serializeInto (.vec buf) = .vec (buf ++ body l) := by
  induction l generalizing buf with
  | nil => simp
  | cons a l ih => rw [List.foldl_cons, serializeInto_vec, ih, body_cons, List.append_assoc]

theorem setStorage_eq (l : List T) : setStorage l = .ok (storage l) := by
  unfold setStorage
  rw [serializeInto_eq _ _ rfl, ok_bind, BufMut.putSlice_vec, foldl_serializeInto]
  rfl

theorem addAllLoop_eq (l : List T) (buf : Bytes) (len : Nat) (h : len + l.length ≤ u64Max) :
    addAllLoop (.vec buf) len l = .ok (.vec (buf ++ body l), len + l.length) := by
  induction l generalizing buf len with
  | nil => simp [addAllLoop]
  | cons a l ih =>
    rw [List.length_cons] at h
    unfold addAllLoop
    rw [addUsize_eq (show len + 1 ≤ u64Max by omega), ok_bind, serializeInto_vec,
      ih _ _ (show len + 1 + l.length ≤ u64Max by omega), body_cons,
      List.append_assoc, List.length_cons, Nat.add_right_comm, Nat.add_assoc]

/-- Filling in a reserved length. -/
theorem serializeInto_slice (n m : Nat) (rest : Bytes) :
    serializeInto (.slice [] (encode (usize m) ++ rest)) (usize n) =
      .ok (.slice (encode (usize n)) rest) := by
  have hroom : (BufMut.slice [] (encode (usize m) ++ rest)).hasRoom (size (Prim 8)) = true := by
    simp [BufMut.hasRoom, size]
  rw [serializeInto_eq _ _ hroom]
  simp [BufMut.putSlice]

theorem addAllOperand_eq (l : List T) (h : l.length ≤ u64Max) :
    addAllOperand l = .ok (storage l) := by
  unfold addAllOperand
  rw [serializeInto_eq _ _ rfl, ok_bind, BufMut.putSlice_vec, List.nil_append,
    addAllLoop_eq l _ 0 (by omega), ok_bind, Nat.zero_add]
  simp only [BufMut.contents_vec]
  rw [serializeInto_slice]
  rfl

/-! ## The merge operators -/

theorem getLen_storage (l : List T) (h : l.length ≤ u64Max) :
    getLen (storage l) = some (l.length, body l) := by
  unfold getLen
  rw [deserializeFrom_storage]
  dsimp only
  rw [toNat_usize h]

theorem mergeLoop_eq (ls : List (List T)) (buf : Bytes) (len : Nat)
    (h : len + ls.flatten.length ≤ u64Max) :
    mergeLoop (.vec buf) len (ls.map storage) =
      .ok (some (.vec (buf ++ body ls.flatten), len + ls.flatten.length)) := by
  induction ls generalizing buf len with
  | nil => simp [mergeLoop]
  | cons l ls ih =>
    rw [List.flatten_cons, List.length_append] at h
    rw [List.map_cons]
    unfold mergeLoop
    rw [getLen_storage l (by omega)]
    dsimp only
    rw [addUsize_eq (show len + l.length ≤ u64Max by omega), ok_bind, BufMut.putSlice_vec,
      ih _ _ (by omega), List.flatten_cons, body_append, List.append_assoc, List.length_append,
      Nat.add_assoc]

/-- **The merge operators concatenate.** -/
theorem mergeOperands_eq (ls : List (List T)) (h : ls.flatten.length ≤ u64Max) :
    mergeOperands (ls.map storage) = .ok (some (storage ls.flatten)) := by
  unfold mergeOperands
  rw [serializeInto_eq _ _ rfl]
  dsimp only [BufMut.putSlice_vec]
  rw [List.nil_append, mergeLoop_eq ls _ 0 (by omega), ok_bind, Nat.zero_add]
  simp only [BufMut.contents_vec]
  rw [serializeInto_slice]
  rfl

/-- A byte string stands for the list whose storage it is. -/
def VecDenotes (b : Bytes) (x : FreeMonoid T) : Prop := b = storage x.toList

theorem map_storage_of_denotes {ops : List Bytes} {as : List (FreeMonoid T)}
    (h : List.Forall₂ VecDenotes ops as) : ops = (as.map FreeMonoid.toList).map storage := by
  induction h with
  | nil => rfl
  | cons hd _ ih => rw [List.map_cons, List.map_cons, ← ih, hd]

/-- **RocksDB may group the operands of a vector as it likes.** -/
theorem folds_vecMerge {cf : ColumnFamily} (hop : cf.mergeOperator = some Rocks.vecMerge)
    (key : Bytes) :
    Folds VecDenotes (cf.merge key) (fun x : FreeMonoid T => x.toList.length ≤ u64Max) where
  prod base ops a as _ hbase hops hfit := by
    obtain ⟨bs, hbs, hprod⟩ := hbase.append hops
    rw [← hprod] at hfit ⊢
    refine ⟨storage bs.prod.toList, ?_, rfl⟩
    rw [FreeMonoid.toList_prod] at hfit ⊢
    unfold ColumnFamily.merge
    rw [hop]
    dsimp only [Rocks.vecMerge]
    rw [map_storage_of_denotes hbs, mergeOperands_eq _ hfit]
    rfl
  factor a b c hfit := by
    rw [FreeMonoid.toList_mul, FreeMonoid.toList_mul, List.length_append,
      List.length_append] at hfit
    omega

theorem sled_vecMerge_eq (key : Bytes) (l l' : List T) (h : (l ++ l').length ≤ u64Max) :
    Sled.vecMerge key (some (storage l)) (storage l') = .ok (some (storage (l ++ l'))) := by
  have h' : ([l, l'] : List (List T)).flatten = l ++ l' := by simp
  rw [← h'] at h ⊢
  exact mergeOperands_eq [l, l'] h

theorem sled_vecMerge_none (key : Bytes) (l : List T) (h : l.length ≤ u64Max) :
    Sled.vecMerge key none (storage l) = .ok (some (storage l)) := by
  have h' : ([l] : List (List T)).flatten = l := by simp
  have hm := mergeOperands_eq [l] (by rw [h']; exact h)
  rw [h'] at hm
  exact hm

/-! ## The readers -/

variable [LawfulMessage T]

theorem length_le_body (l : List T) : l.length ≤ (body l).length := by
  induction l with
  | nil => exact Nat.le_refl 0
  | cons a l ih =>
    have hpos : 0 < (protobuf.serialize a).length :=
      List.length_pos_of_ne_nil (LawfulMessage.encode_ne_nil a)
    rw [body_cons, List.length_append, List.length_cons]
    omega

theorem body_cons_ne_nil (a : T) (l : List T) : body (a :: l) ≠ [] := by
  intro h
  have hlen := length_le_body (a :: l)
  rw [h] at hlen
  exact absurd hlen (by simp)

theorem readAll_body (l : List T) (n : Nat) (h : l.length ≤ n) : readAll n (body l) = .ok l := by
  induction l generalizing n with
  | nil => cases n <;> rfl
  | cons a l ih =>
    obtain ⟨n, rfl⟩ : ∃ m, n = m + 1 := ⟨n - 1, by simp at h; omega⟩
    obtain ⟨b, bs, hbs⟩ := List.exists_cons_of_ne_nil (body_cons_ne_nil a l)
    rw [hbs]
    unfold readAll
    rw [← hbs, body_cons, protobuf.delimits_message a (body l)]
    simp only [ok_bind, ih n (by simpa using h), pure_eq_ok]

/-- What a store may return for a list: its storage, or nothing for the empty one. -/
def Reads (r : Option Bytes) (l : List T) : Prop := r = some (storage l) ∨ (r = none ∧ l = [])

variable {r : Option Bytes} {l : List T}

/-- **`vec_get` returns the list**; its sanity check passes. -/
theorem readVec_eq (hr : Reads r l) (h : l.length ≤ u64Max) : readVec r = .ok l := by
  obtain rfl | ⟨rfl, rfl⟩ := hr
  · unfold readVec
    simp only [deserializeFrom_storage, ok_bind, readAll_body l _ (length_le_body l),
      toNat_usize h, if_true, pure_eq_ok]
  · rfl

theorem next_body (front : Bytes) (a : T) (l : List T) :
    VecIter.next T ⟨front ++ body (a :: l), front.length⟩ =
      (some (.ok a), ⟨front ++ protobuf.serialize a ++ body l,
        (front ++ protobuf.serialize a).length⟩) := by
  have hne : (body (a :: l)).isEmpty = false := by
    rw [List.isEmpty_eq_false_iff]
    exact body_cons_ne_nil a l
  unfold VecIter.next
  dsimp only
  rw [List.drop_left' rfl, hne, body_cons, protobuf.delimits_message a (body l)]
  simp only [Bool.false_eq_true, if_false, Prod.mk.injEq, VecIter.mk.injEq, true_and,
    List.length_append, List.append_assoc]
  omega

theorem take_body (l : List T) (front : Bytes) (n : Nat) :
    VecIter.take T n ⟨front ++ body l, front.length⟩ = (l.map .ok).take n := by
  induction l generalizing front n with
  | nil =>
    cases n with
    | zero => rfl
    | succ n => simp [VecIter.take, VecIter.next]
  | cons a l ih =>
    cases n with
    | zero => rfl
    | succ n =>
      rw [VecIter.take, next_body front a l]
      dsimp only
      rw [ih, List.map_cons, List.take_succ_cons]

/-- **`vec_iter` yields the elements in order** and then ends. -/
theorem iterVec_take (hr : Reads r l) (n : Nat) :
    (do let it ← iterVec r
        pure (it.take T n) : Result (List (Result T))) = .ok ((l.map .ok).take n) := by
  obtain rfl | ⟨rfl, rfl⟩ := hr
  · have hlen : (storage l).length - (body l).length = (encode (usize l.length)).length := by
      rw [storage, List.length_append, Nat.add_sub_cancel]
    unfold iterVec
    simp only [deserializeFrom_storage, ok_bind, pure_eq_ok, hlen]
    rw [storage, take_body]
  · cases n <;> rfl

end Arcon.State
