import Arcon.State.AggregatorOps
import Mathlib.Algebra.FreeMonoid.Basic

/-!
# Aggregator state is a fold

A stored slice is an `Item`: a value or an accumulator, with its marker in front. On items the merge
operators of Rocks and Sled and the function of Faster are one fold (`mergeItems`), which starts
with the first item and takes in the others; the bytes are gone after `mergeSlices_bytes` and
`makeAggregateFn_bytes`.

An item stands for a list of values (`Item.Denotes`). If `merge_accumulators` is what the trait
wants it to be (`Aggregator.Merges`), a merge of items stands for the concatenation of their lists,
so it does not matter in which groups RocksDB merges.

* **`aggregator_refines_fold`**: on Rocks, Sled and in memory, in every run and whatever RocksDB
  merges, `aggregator_get` gives the result of the left fold; every merge gives an accumulator.
* **`aggregator_fold_iff`**: on Faster it does if and only if there was not exactly one value: the
  store keeps the first operand as it came, a value, and `aggregator_get` asserts an accumulator.
-/

namespace Arcon.State

open FixedBytes Merging

variable {IK N : Type} [FixedBytes IK] [FixedBytes N] {A : Aggregator}

/-! ## Items -/

/-- The accumulator of a list of values. -/
def Aggregator.fold (A : Aggregator) (l : List A.Input) : A.Accumulator :=
  l.foldl A.add A.createAccumulator

/-- Accumulators are merged into the one of all values. -/
def Aggregator.Merges (A : Aggregator) : Prop :=
  ∀ xs ys, A.mergeAccumulators (A.fold xs) (A.fold ys) = .ok (A.fold (xs ++ ys))

theorem Aggregator.fold_append (xs ys : List A.Input) :
    A.fold (xs ++ ys) = ys.foldl A.add (A.fold xs) :=
  List.foldl_append

theorem Aggregator.fold_concat (l : List A.Input) (v : A.Input) :
    A.fold (l ++ [v]) = A.add (A.fold l) v := by
  rw [fold_append]
  rfl

variable (A) in
/-- A stored slice. -/
inductive Item
  | value (v : A.Input)
  | acc (a : A.Accumulator)

namespace Item

/-- The slice with its marker. -/
def bytes : Item A → Bytes
  | value v => valueMarker :: protobuf.serialize v
  | acc a => accumulatorMarker :: protobuf.serialize a

/-- The accumulator of a first item. -/
def start : Item A → A.Accumulator
  | value v => A.add A.createAccumulator v
  | acc a => a

/-- A further item. -/
def absorb (a : A.Accumulator) : Item A → Result A.Accumulator
  | value v => .ok (A.add a v)
  | acc b => A.mergeAccumulators a b

/-- The item stands for this list of values. -/
def Denotes : Item A → List A.Input → Prop
  | value v, l => l = [v]
  | acc a, l => a = A.fold l

end Item

/-- What the merge of a list of items computes. -/
def mergeItems : List (Item A) → Result A.Accumulator
  | [] => .ok A.createAccumulator
  | i :: is => is.foldlM Item.absorb i.start

section bytes

variable [LawfulMessage A.Input] [LawfulMessage A.Accumulator]

theorem startSlice_bytes (i : Item A) : startSlice A (some i.bytes) = some i.start := by
  cases i with
  | value v =>
    have hne : valueMarker ≠ accumulatorMarker := by decide
    simp [startSlice, Item.bytes, Item.start, hne, Except.toOption]
  | acc a => simp [startSlice, Item.bytes, Item.start, Except.toOption]

theorem absorbSlice_bytes (a : A.Accumulator) (i : Item A) :
    absorbSlice A a i.bytes = (do pure (some (← i.absorb a))) := by
  cases i with
  | value v =>
    have hne : valueMarker ≠ accumulatorMarker := by decide
    simp [absorbSlice, Item.bytes, Item.absorb, hne, Except.toOption]
  | acc b => simp [absorbSlice, Item.bytes, Item.absorb, Except.toOption]

theorem absorbSlices_bytes (a : A.Accumulator) (is : List (Item A)) :
    absorbSlices A a (is.map Item.bytes) = (do pure (some (← is.foldlM Item.absorb a))) := by
  induction is generalizing a with
  | nil => rfl
  | cons i is ih =>
    rw [List.map_cons, absorbSlices, absorbSlice_bytes, List.foldlM_cons]
    cases i.absorb a with
    | error e => rfl
    | ok b => exact ih b

/-- **The operators of Rocks and Sled merge items.** -/
theorem mergeSlices_bytes (is : List (Item A)) :
    mergeSlices A (is.map Item.bytes) = (do pure (some (Item.acc (← mergeItems is)).bytes)) := by
  cases is with
  | nil => rfl
  | cons i is =>
    unfold mergeSlices mergeItems
    rw [List.map_cons, List.head?_cons, startSlice_bytes, List.tail_cons]
    dsimp only
    rw [absorbSlices_bytes]
    cases is.foldlM Item.absorb i.start <;> rfl

/-- **The function of Faster merges two items.** -/
theorem makeAggregateFn_bytes (i j : Item A) :
    makeAggregateFn A i.bytes j.bytes = (do pure (Item.acc (← mergeItems [i, j])).bytes) := by
  have hne : valueMarker ≠ accumulatorMarker := by decide
  have hstart : mergeItems [i, j] = j.absorb i.start := by
    rw [mergeItems, List.foldlM_cons]
    cases j.absorb i.start <;> rfl
  rw [hstart]
  unfold makeAggregateFn
  cases i with
  | value v =>
    cases j with
    | value w => simp [Item.bytes, Item.absorb, Item.start, hne]
    | acc b => simp [Item.bytes, Item.absorb, Item.start, hne]
  | acc a =>
    cases j with
    | value w => simp [Item.bytes, Item.absorb, Item.start, hne]
    | acc b => simp [Item.bytes, Item.absorb, Item.start]

end bytes

/-! ## Lists of values -/

section merges

variable (hA : A.Merges)

theorem Item.start_of_denotes {i : Item A} {l : List A.Input} (h : i.Denotes l) :
    i.start = A.fold l := by
  cases i with
  | value v =>
    cases h
    rfl
  | acc a => exact h

include hA in
theorem Item.absorb_of_denotes {i : Item A} {l : List A.Input} (h : i.Denotes l)
    (xs : List A.Input) : i.absorb (A.fold xs) = .ok (A.fold (xs ++ l)) := by
  cases i with
  | value v =>
    cases h
    rw [Aggregator.fold_concat]
    rfl
  | acc a =>
    cases h
    exact hA xs l

include hA in
theorem foldlM_absorb {is : List (Item A)} {ls : List (List A.Input)}
    (h : List.Forall₂ Item.Denotes is ls) (xs : List A.Input) :
    is.foldlM Item.absorb (A.fold xs) = .ok (A.fold (xs ++ ls.flatten)) := by
  induction h generalizing xs with
  | nil => simp
  | cons hd _ ih =>
    rw [List.foldlM_cons, Item.absorb_of_denotes hA hd, ok_bind, ih, List.flatten_cons,
      List.append_assoc]

include hA in
/-- **A merge stands for all values of its items, in order.** -/
theorem mergeItems_eq {is : List (Item A)} {ls : List (List A.Input)}
    (h : List.Forall₂ Item.Denotes is ls) : mergeItems is = .ok (A.fold ls.flatten) := by
  cases h with
  | nil => rfl
  | cons hd htl =>
    rw [mergeItems, Item.start_of_denotes hd, foldlM_absorb hA htl]
    rfl

end merges

/-- The bytes of an item that stands for these values. -/
def AggDenotes (b : Bytes) (x : FreeMonoid A.Input) : Prop :=
  ∃ i : Item A, b = i.bytes ∧ i.Denotes x.toList

theorem items_of_denotes {ops : List Bytes} {as : List (FreeMonoid A.Input)}
    (h : List.Forall₂ AggDenotes ops as) :
    ∃ is : List (Item A), ops = is.map Item.bytes ∧
      List.Forall₂ Item.Denotes is (as.map FreeMonoid.toList) := by
  induction h with
  | nil => exact ⟨[], rfl, .nil⟩
  | cons hd _ ih =>
    obtain ⟨i, rfl, hi⟩ := hd
    obtain ⟨is, rfl, his⟩ := ih
    exact ⟨i :: is, rfl, .cons hi his⟩

/-- An accumulator, as every merge leaves it. -/
def IsAccumulator (b : Bytes) : Prop := b.head? = some accumulatorMarker

theorem eq_acc_of_denotes {b : Bytes} {x : FreeMonoid A.Input} (hb : AggDenotes b x)
    (hacc : IsAccumulator b) : b = (Item.acc (A.fold x.toList)).bytes := by
  obtain ⟨i, rfl, hi⟩ := hb
  cases i with
  | value v => exact absurd hacc (by simp [IsAccumulator, Item.bytes]; decide)
  | acc a =>
    cases hi
    rfl

/-- Whatever is merged, the operator leaves an accumulator. -/
theorem isAccumulator_mergeSlices {slices : List Bytes} {r : Bytes}
    (h : mergeSlices A slices = .ok (some r)) : IsAccumulator r := by
  unfold mergeSlices at h
  cases hstart : startSlice A slices.head? with
  | none =>
    rw [hstart] at h
    cases h
  | some a =>
    rw [hstart] at h
    dsimp only at h
    cases hrest : absorbSlices A a slices.tail with
    | error e =>
      rw [hrest] at h
      cases h
    | ok o =>
      rw [hrest] at h
      cases o with
      | none => cases h
      | some acc =>
        cases h
        rfl

section rocks

variable {cf : ColumnFamily} (hop : cf.mergeOperator = some (Rocks.makeAggregatorMerge A))
  (key : Bytes)
include hop

theorem isAccumulator_merge (base : Option Bytes) (ops : List Bytes) (r : Bytes)
    (h : cf.merge key base ops = .ok r) : IsAccumulator r := by
  unfold ColumnFamily.merge at h
  rw [hop] at h
  dsimp only [Rocks.makeAggregatorMerge] at h
  cases hmerge : mergeSlices A (base.toList ++ ops) with
  | error e =>
    rw [hmerge] at h
    cases h
  | ok o =>
    rw [hmerge] at h
    cases o with
    | none => cases h
    | some b =>
      cases h
      exact isAccumulator_mergeSlices hmerge

variable [LawfulMessage A.Input] [LawfulMessage A.Accumulator]

/-- The operator of a column family on items. -/
theorem merge_bytes {base : Option Bytes} {ops : List Bytes} {is : List (Item A)}
    (h : base.toList ++ ops = is.map Item.bytes) :
    cf.merge key base ops = (do pure (Item.acc (← mergeItems is)).bytes) := by
  unfold ColumnFamily.merge
  rw [hop]
  dsimp only [Rocks.makeAggregatorMerge]
  rw [h, mergeSlices_bytes]
  cases mergeItems is <;> rfl

/-- **RocksDB may group the values as it likes.** -/
theorem folds_aggregatorMerge (hA : A.Merges) :
    Folds (AggDenotes (A := A)) (cf.merge key) fun _ => True where
  prod base ops a as _ hbase hops _ := by
    obtain ⟨bs, hbs, hprod⟩ := hbase.append hops
    obtain ⟨is, his, hden⟩ := items_of_denotes hbs
    refine ⟨_, by rw [merge_bytes hop key his, mergeItems_eq hA hden]; rfl, .acc _, rfl, ?_⟩
    rw [← hprod, FreeMonoid.toList_prod]
    rfl
  factor _ _ _ h := h

end rocks

/-! ## What the stores keep -/

section stores

variable [LawfulMessage A.Input] [LawfulMessage A.Accumulator]

/-- An entry of RocksDB stands for these values, and what it has merged into the full value is an
accumulator. -/
def EntryHolds (p : Pending Bytes) (l : List A.Input) : Prop :=
  p.Holds AggDenotes (FreeMonoid.ofList l) ∧ p.Settled IsAccumulator

theorem Rocks.foldsInto_aggregator (hA : A.Merges) :
    Rocks.FoldsInto (Rocks.makeAggregatorMerge A) (valueOperand A) EntryHolds where
  absent := ⟨holds_absent, settled_absent⟩
  push _ _ v h := ⟨holds_push h.1 (y := FreeMonoid.of v) ⟨.value v, rfl, rfl⟩, h.2⟩
  combine cf key p l i n hop h := by
    obtain ⟨p', hp', hholds⟩ := holds_combine (folds_aggregatorMerge hop key hA) h.1 trivial i n
    exact ⟨p', hp', hholds, settled_combine h.2 hp'⟩
  settle cf key p l n hop h := by
    obtain ⟨p', hp', hholds⟩ := holds_settle (folds_aggregatorMerge hop key hA) h.1 trivial n
    exact ⟨p', hp', hholds, settled_settle (isAccumulator_merge hop key) h.2 hp'⟩

/-- A value of sled is the accumulator of these values. -/
def ValueHolds (r : Option Bytes) (l : List A.Input) : Prop :=
  (r = none ∧ l = []) ∨ r = some (Item.acc (A.fold l)).bytes

theorem Sled.foldsInto_aggregator :
    Sled.FoldsInto (Sled.makeAggregatorMerge A) (valueOperand A) ValueHolds where
  none := .inl ⟨rfl, rfl⟩
  merge key r l v h := by
    have hitems : ∃ is : List (Item A), r.toList ++ [valueOperand A v] = is.map Item.bytes ∧
        mergeItems is = .ok (A.fold (l ++ [v])) := by
      rcases h with ⟨rfl, rfl⟩ | rfl
      · exact ⟨[.value v], rfl, rfl⟩
      · exact ⟨[.acc (A.fold l), .value v], rfl, by rw [Aggregator.fold_concat]; rfl⟩
    obtain ⟨is, his, hmerge⟩ := hitems
    refine ⟨_, ?_, .inr rfl⟩
    unfold Sled.makeAggregatorMerge
    rw [his, mergeSlices_bytes, hmerge]
    rfl

/-- A boxed accumulator is the one of these values. -/
def BoxHolds (r : Option A.Accumulator) (l : List A.Input) : Prop :=
  r.getD A.createAccumulator = A.fold l

omit [LawfulMessage A.Input] [LawfulMessage A.Accumulator] in
theorem InMemory.foldsInto_aggregator :
    InMemory.FoldsInto (fun r v => A.add (r.getD A.createAccumulator) v) (BoxHolds (A := A)) where
  none := rfl
  add r l v h := by
    unfold BoxHolds at h ⊢
    rw [Option.getD_some, h, Aggregator.fold_concat]

/-! ## Reads -/

omit [LawfulMessage A.Input] in
theorem readAggregate_acc (a : A.Accumulator) :
    readAggregate A (some (Item.acc a).bytes) = A.accumulatorIntoResult a := by
  unfold readAggregate Item.bytes
  simp

variable {h : Handle IK N} {ids : List String} {lists : Handle IK N → List A.Input}
  [LawfulFixedBytes IK] [LawfulFixedBytes N]

omit [LawfulMessage A.Input] [LawfulMessage A.Accumulator] in
theorem Rocks.aggregatorAggregate_eq {db : Rocks} {cf : ColumnFamily} (hcf : db.cfs h.id = some cf)
    (v : A.Input) : db.aggregatorAggregate A h v = .ok (db.setCf h.id
      (cf.set h.metakeys ((cf.data h.metakeys).push (valueOperand A v)))) := by
  unfold aggregatorAggregate
  rw [Handle.serializeMetakeys_eq, ok_bind]
  exact mergeCf_eq hcf _ _

theorem Rocks.aggregatorGet_eq (hA : A.Merges) {db : Rocks}
    (hdb : KeepsLists (makeAggregatorMerge A) EntryHolds ids db lists) (hid : h.id ∈ ids) :
    db.aggregatorGet A h = A.accumulatorIntoResult (A.fold (lists h)) := by
  obtain ⟨cf, hcf, hop, hholds, hsettled⟩ := hdb.cf hid
  unfold aggregatorGet
  rw [Handle.serializeMetakeys_eq, ok_bind, get_eq hcf]
  obtain ⟨r, hr, hden⟩ | ⟨hr, hone⟩ :=
    value_of_holds (folds_aggregatorMerge hop h.metakeys hA) hholds trivial
  · have hacc := value_settled (isAccumulator_merge hop h.metakeys) hsettled hr
    rw [hr, ok_bind, eq_acc_of_denotes hden hacc, readAggregate_acc]
    rfl
  · rw [hr, ok_bind, show lists h = [] from hone]
    rfl

omit [LawfulMessage A.Input] in
theorem Sled.aggregatorGet_eq {db : Sled}
    (hdb : KeepsLists (makeAggregatorMerge A) ValueHolds ids db lists) (hid : h.id ∈ ids) :
    db.aggregatorGet A h = A.accumulatorIntoResult (A.fold (lists h)) := by
  unfold aggregatorGet
  rw [Handle.serializeMetakeys_eq, ok_bind]
  rcases (hdb.get hid).2 with ⟨hr, hnil⟩ | hr
  · rw [hr, hnil]
    rfl
  · rw [hr, readAggregate_acc]

omit [LawfulMessage A.Input] [LawfulMessage A.Accumulator] in
theorem InMemory.aggregatorGet_eq {db : InMemory A.Accumulator}
    (hdb : KeepsLists BoxHolds ids db lists) (hid : h.id ∈ ids) :
    db.aggregatorGet A h = A.accumulatorIntoResult (A.fold (lists h)) := by
  obtain ⟨m, hm, hbox⟩ := hdb.map hid
  unfold aggregatorGet
  rw [Handle.serializeMetakeys_eq, ok_bind, get_eq hm, ok_bind, ← hbox]
  cases m[h.metakeys]? <;> rfl

section runs

variable [DecidableEq IK] [DecidableEq N]

omit [LawfulMessage A.Input] [LawfulMessage A.Accumulator] in
/-- An operation does on the accumulators in memory what it does on the lists. -/
theorem InMemory.keeps_execAggregator {db : InMemory A.Accumulator}
    (hdb : KeepsLists BoxHolds ids db lists) {o : FoldOp A.Input IK N} (hid : o.handle.id ∈ ids) :
    ∃ db', db.execAggregator A o = .ok db' ∧ KeepsLists BoxHolds ids db' (o.apply lists) := by
  refine keepsLists_exec (InMemory.execAggregator A) (fun db h v m hm => ?_) (fun db h m hm => ?_)
    foldsInto_aggregator hdb hid
  · simp only [execAggregator, aggregatorAggregate, Handle.serializeMetakeys_eq, ok_bind,
      get_eq hm, pure_eq_ok]
  · simp only [execAggregator, aggregatorClear, Handle.serializeMetakeys_eq, ok_bind, get_eq hm,
      pure_eq_ok]

omit [LawfulMessage A.Input] [LawfulMessage A.Accumulator] in
/-- The accumulators in memory follow the lists. -/
theorem InMemory.run_aggregator {ops : List (FoldOp A.Input IK N)}
    (hids : ∀ o ∈ ops, o.handle.id ∈ ids) :
    ∃ mem, ops.foldlM (InMemory.execAggregator A) (registered A.Accumulator ids) = .ok mem ∧
      KeepsLists BoxHolds ids mem (FoldOp.lists ops) := by
  unfold FoldOp.lists
  refine foldlM_follows (G := fun _ o => o.handle.id ∈ ids) (fun db lists o hdb hid => ?_) ops
    (keepsLists_registered foldsInto_aggregator ids) (fun done o rest heq => hids o (by simp [heq]))
  exact keeps_execAggregator hdb hid

end runs

/-! ## Every merge gives an accumulator -/

/-- What is stored for a handle as a full value is an accumulator, and so is what the operator gives
for every run of its pending operands and for the full value with the first of them. -/
structure MergesToAccumulators (db : Rocks) (h : Handle IK N) : Prop where
  stored : ∀ cf, db.cfs h.id = some cf → (cf.data h.metakeys).Settled IsAccumulator
  partialMerge : ∀ cf op i n, db.cfs h.id = some cf → cf.mergeOperator = some op → 0 < n →
    i + n ≤ (cf.data h.metakeys).operands.length →
    ∃ r, op h.metakeys none (((cf.data h.metakeys).operands.drop i).take n) = .ok (some r) ∧
      IsAccumulator r
  fullMerge : ∀ cf op n, db.cfs h.id = some cf → cf.mergeOperator = some op → 0 < n →
    n ≤ (cf.data h.metakeys).operands.length →
    ∃ r, op h.metakeys (cf.data h.metakeys).base ((cf.data h.metakeys).operands.take n) =
      .ok (some r) ∧ IsAccumulator r

theorem exists_mergeSlices (hA : A.Merges) {slices : List Bytes} {as : List (FreeMonoid A.Input)}
    (hden : List.Forall₂ AggDenotes slices as) :
    ∃ r, mergeSlices A slices = .ok (some r) ∧ IsAccumulator r := by
  obtain ⟨is, rfl, his⟩ := items_of_denotes hden
  have hmerge := mergeSlices_bytes is
  rw [mergeItems_eq hA his, ok_bind, pure_eq_ok] at hmerge
  exact ⟨_, hmerge, isAccumulator_mergeSlices hmerge⟩

omit [LawfulFixedBytes IK] [LawfulFixedBytes N] in
theorem Rocks.mergesToAccumulators (hA : A.Merges) {db : Rocks}
    (hdb : KeepsLists (makeAggregatorMerge A) EntryHolds ids db lists) (hid : h.id ∈ ids) :
    MergesToAccumulators db h := by
  obtain ⟨cf, hcf, hop, ⟨a, as, hbase, hops, -⟩, hsettled⟩ := hdb.cf hid
  refine ⟨?_, ?_, ?_⟩
  · intro cf' hcf'
    cases hcf.symm.trans hcf'
    exact hsettled
  · intro cf' op i n hcf' hop' _ _
    cases hcf.symm.trans hcf'
    cases hop.symm.trans hop'
    exact exists_mergeSlices hA (List.forall₂_take n (List.forall₂_drop i hops))
  · intro cf' op n hcf' hop' _ _
    cases hcf.symm.trans hcf'
    cases hop.symm.trans hop'
    unfold makeAggregatorMerge
    cases hb : (cf.data h.metakeys).base with
    | none => exact exists_mergeSlices hA (List.forall₂_take n hops)
    | some b =>
      rw [hb] at hbase
      exact exists_mergeSlices hA (.cons hbase (List.forall₂_take n hops))

variable [DecidableEq IK] [DecidableEq N]

/-- **Aggregator state is the left fold of its values.** For every aggregator whose accumulators
merge as they should, every sequence of `aggregator_aggregate` and `aggregator_clear` on registered
handles and every way in which RocksDB merges pending operands in between: no operation and no merge
fails, `aggregator_get` on `Rocks`, `Sled` and `InMemory` gives the result of the left fold over the
values since the last clear, and every merge gives an accumulator with its marker in front. -/
theorem aggregator_refines_fold (hA : A.Merges) (ids : List String)
    (events : List (FoldEvent A.Input IK N)) (hids : ∀ e ∈ events, e.handle.id ∈ ids) :
    ∃ rocks sled mem,
      events.foldlM (Rocks.foldStep (Rocks.execAggregator A)) (Rocks.aggregators A ids) =
        .ok rocks ∧
      (FoldEvent.ops events).foldlM (Sled.execAggregator A) (Sled.aggregators A ids) = .ok sled ∧
      (FoldEvent.ops events).foldlM (InMemory.execAggregator A)
        (InMemory.registered A.Accumulator ids) = .ok mem ∧
      ∀ h : Handle IK N, h.id ∈ ids →
        rocks.aggregatorGet A h =
          A.accumulatorIntoResult (A.fold (FoldOp.lists (FoldEvent.ops events) h)) ∧
        sled.aggregatorGet A h =
          A.accumulatorIntoResult (A.fold (FoldOp.lists (FoldEvent.ops events) h)) ∧
        mem.aggregatorGet A h =
          A.accumulatorIntoResult (A.fold (FoldOp.lists (FoldEvent.ops events) h)) ∧
        MergesToAccumulators rocks h := by
  have hops : ∀ o ∈ FoldEvent.ops events, o.handle.id ∈ ids := FoldEvent.handle_mem_of_ops hids
  obtain ⟨rocks, hrocks, hkeeps⟩ := Rocks.run_keeps (Rocks.execAggregator A)
    (fun db h v => by
      simp only [Rocks.execAggregator, Rocks.aggregatorAggregate, Handle.serializeMetakeys_eq,
        ok_bind])
    (fun db h => by
      simp only [Rocks.execAggregator, Rocks.aggregatorClear, Handle.serializeMetakeys_eq, ok_bind])
    (Rocks.foldsInto_aggregator hA) hids
  obtain ⟨sled, hsled, hkeeps'⟩ := Sled.run_keeps (Sled.execAggregator A)
    (fun db h v => by
      simp only [Sled.execAggregator, Sled.aggregatorAggregate, Handle.serializeMetakeys_eq,
        ok_bind])
    (fun db h => by
      simp only [Sled.execAggregator, Sled.aggregatorClear, Handle.serializeMetakeys_eq, ok_bind,
        pure_eq_ok])
    Sled.foldsInto_aggregator hops
  obtain ⟨mem, hmem, hkeeps''⟩ := InMemory.run_aggregator (A := A) hops
  refine ⟨rocks, sled, mem, hrocks, hsled, hmem, fun h hid => ⟨?_, ?_, ?_, ?_⟩⟩
  · exact Rocks.aggregatorGet_eq hA hkeeps hid
  · exact Sled.aggregatorGet_eq hkeeps' hid
  · exact InMemory.aggregatorGet_eq hkeeps'' hid
  · exact Rocks.mergesToAccumulators hA hkeeps hid

end stores

/-- The parity of the values that are `true`. -/
def parity : Aggregator where
  Input := Bool
  Accumulator := Bool
  Output := Bool
  createAccumulator := false
  add := xor
  mergeAccumulators a b := .ok (xor a b)
  accumulatorIntoResult := .ok

instance : LawfulMessage parity.Input := inferInstanceAs (LawfulMessage Bool)

instance : LawfulMessage parity.Accumulator := inferInstanceAs (LawfulMessage Bool)

theorem parity_merges : parity.Merges := by
  intro xs ys
  have hfold : ∀ (ys : List Bool) (a : Bool), ys.foldl xor a = xor a (ys.foldl xor false) := by
    intro ys
    induction ys with
    | nil => simp
    | cons y ys ih =>
      intro a
      rw [List.foldl_cons, List.foldl_cons, ih, ih (xor false y)]
      simp
  unfold Aggregator.fold
  rw [List.foldl_append]
  exact congrArg Except.ok (hfold ys _).symm

/-- Values, a merge of two of them without a full value, a full merge, another value and a clear. -/
def groupedRun : List (FoldEvent parity.Input Unit Bool) :=
  [.op (.add ⟨"a", (), true⟩ true), .op (.add ⟨"a", (), true⟩ true),
   .op (.add ⟨"a", (), true⟩ true), .op (.add ⟨"a", (), false⟩ true),
   .partialMerge ⟨"a", (), true⟩ 1 2, .fullMerge ⟨"a", (), true⟩ 2,
   .op (.add ⟨"a", (), true⟩ false), .op (.clear ⟨"a", (), false⟩)]

theorem aggregator_refines_fold_grouped :
    parity.Merges ∧ (∀ e ∈ groupedRun, e.handle.id ∈ ["a"]) ∧
      ∃ rocks : Rocks, groupedRun.foldlM (Rocks.foldStep (Rocks.execAggregator parity))
          (Rocks.aggregators parity ["a"]) = .ok rocks ∧
        rocks.aggregatorGet parity (⟨"a", (), true⟩ : Handle Unit Bool) = .ok true := by
  have hids : ∀ e ∈ groupedRun, e.handle.id ∈ ["a"] := by decide
  obtain ⟨rocks, _, _, hrun, _, _, hreads⟩ :=
    aggregator_refines_fold parity_merges ["a"] groupedRun hids
  refine ⟨parity_merges, hids, rocks, hrun, (hreads ⟨"a", (), true⟩ (by decide)).1.trans ?_⟩
  have hlist : FoldOp.lists (FoldEvent.ops groupedRun) ⟨"a", (), true⟩ =
      [true, true, true, false] := rfl
  rw [hlist]
  rfl

/-! ## Faster -/

namespace Faster

/-- A record stands for these values: the first is kept as it came, with its own marker. -/
def RecordHolds (r : Option FasterRecord) (l : List A.Input) : Prop :=
  (r = none ∧ l = []) ∨
  (∃ v id, r = some (.agg (.modify (Item.value v).bytes id)) ∧ l = [v]) ∨
  (r = some (.agg (.value (Item.acc (A.fold l)).bytes)) ∧ 2 ≤ l.length)

section lawful

variable [LawfulMessage A.Input] [LawfulMessage A.Accumulator]

theorem foldsInto_aggregator (ids : List String) :
    FoldsInto (aggregatorFns A ids) (valueOperand A) ids RecordHolds where
  none := .inl ⟨rfl, rfl⟩
  aggregate id hid r l v h := by
    have hfn : aggregatorFns A ids id = some (makeAggregateFn A) := if_pos hid
    unfold aggregateRecord
    rw [hfn]
    dsimp only
    rcases h with ⟨rfl, rfl⟩ | ⟨w, id', rfl, rfl⟩ | ⟨rfl, hlen⟩
    · exact ⟨_, rfl, .inr (.inl ⟨v, id, rfl, rfl⟩)⟩
    · have hfold : makeAggregateFn A (Item.value w).bytes (valueOperand A v) =
          .ok (Item.acc (A.fold [w, v])).bytes := makeAggregateFn_bytes (.value w) (.value v)
      refine ⟨.agg (.value (Item.acc (A.fold [w, v])).bytes), ?_, .inr (.inr ⟨rfl, by simp⟩)⟩
      simp only [FasterAgg.rmw, hfold, ok_bind, pure_eq_ok]
    · have hfold : makeAggregateFn A (Item.acc (A.fold l)).bytes (valueOperand A v) =
          .ok (Item.acc (A.fold (l ++ [v]))).bytes := by
        rw [Aggregator.fold_concat]
        exact makeAggregateFn_bytes (.acc (A.fold l)) (.value v)
      refine ⟨.agg (.value (Item.acc (A.fold (l ++ [v]))).bytes), ?_, .inr (.inr ⟨rfl, ?_⟩)⟩
      · simp only [FasterAgg.rmw, hfold, ok_bind, pure_eq_ok]
      · rw [List.length_append]
        omega

variable [LawfulFixedBytes IK] [LawfulFixedBytes N] {ids : List String} {f : Faster}
  {lists : Handle IK N → List A.Input} {h : Handle IK N}

omit [LawfulMessage A.Input] in
/-- What `aggregator_get` returns: for a single value the marker is not the one it asserts. -/
theorem aggregatorGet_eq (hf : KeepsLists RecordHolds ids f lists) (hid : h.id ∈ ids) :
    f.aggregatorGet h A = if (lists h).length = 1 then
        .error (.panic "assertion failed: `(left == right)`")
      else A.accumulatorIntoResult (A.fold (lists h)) := by
  have hne : valueMarker ≠ accumulatorMarker := by decide
  unfold aggregatorGet
  rw [Handle.serializeIdAndMetakeys_eq, ok_bind]
  unfold getAgg
  rcases hf.record hid with ⟨hr, hl⟩ | ⟨v, id, hr, hl⟩ | ⟨hr, hlen⟩
  · rw [hr, hl]
    rfl
  · rw [hr, hl]
    simp [Item.bytes, hne]
  · rw [hr, if_neg (by omega)]
    simp [Item.bytes]

variable [DecidableEq IK] [DecidableEq N]

/-- **Faster gives the fold unless there was exactly one value.** For every aggregator and every
sequence of `aggregator_aggregate` and `aggregator_clear` on registered handles: the operations
succeed, and where the accumulator of the values since the last clear has a result, `InMemory`
returns it, and `Faster` returns it if and only if the values are not exactly one; for exactly one
the assertion in `aggregator_get` fails. -/
theorem aggregator_fold_iff (A : Aggregator) [LawfulMessage A.Input]
    [LawfulMessage A.Accumulator] (ids : List String)
    (hfits : ∀ id ∈ ids, id.toUTF8.data.toList.length ≤ u64Max)
    (ops : List (FoldOp A.Input IK N)) (hids : ∀ o ∈ ops, o.handle.id ∈ ids) :
    ∃ f mem, ops.foldlM (Faster.execAggregator A (aggregatorFns A ids)) create = .ok f ∧
      ops.foldlM (InMemory.execAggregator A) (InMemory.registered A.Accumulator ids) = .ok mem ∧
      ∀ h : Handle IK N, h.id ∈ ids → ∀ r,
        A.accumulatorIntoResult (A.fold (FoldOp.lists ops h)) = .ok r →
        mem.aggregatorGet A h = .ok r ∧
        (f.aggregatorGet h A = .ok r ↔ (FoldOp.lists ops h).length ≠ 1) := by
  obtain ⟨f, hf, hkeeps⟩ := run_keeps (Faster.execAggregator A (aggregatorFns A ids))
    (fun f h v => by
      simp only [execAggregator, aggregatorAggregate, Handle.serializeIdAndMetakeys_eq, ok_bind]
      rfl)
    (fun f h => by
      simp only [execAggregator, aggregatorClear, clear, Handle.serializeIdAndMetakeys_eq, ok_bind,
        pure_eq_ok])
    (foldsInto_aggregator ids) hfits hids
  obtain ⟨mem, hmem, hkeeps'⟩ := InMemory.run_aggregator (A := A) hids
  refine ⟨f, mem, hf, hmem, fun h hid r hr => ⟨?_, ?_⟩⟩
  · rw [InMemory.aggregatorGet_eq hkeeps' hid, hr]
  · rw [aggregatorGet_eq hkeeps hid]
    constructor
    · intro hget hone
      rw [if_pos hone] at hget
      cases hget
    · intro hne
      rw [if_neg hne, hr]

end lawful

/-- The handle of a plain aggregator. -/
def plainAggregator : Handle Unit Unit := ⟨"a", (), ()⟩

theorem aggregator_fold_iff_two :
    (∀ id ∈ ["a"], id.toUTF8.data.toList.length ≤ u64Max) ∧
      ∃ f : Faster, ([.add plainAggregator true, .add plainAggregator false] :
          List (FoldOp parity.Input Unit Unit)).foldlM
            (Faster.execAggregator parity (aggregatorFns parity ["a"])) create = .ok f ∧
        f.aggregatorGet plainAggregator parity = .ok true := by
  have hfits : ∀ id ∈ ["a"], id.toUTF8.data.toList.length ≤ u64Max := by decide
  have hids : ∀ o ∈ ([.add plainAggregator true, .add plainAggregator false] :
      List (FoldOp parity.Input Unit Unit)), o.handle.id ∈ ["a"] := by decide
  obtain ⟨f, _, hf, _, hget⟩ := aggregator_fold_iff parity ["a"] hfits _ hids
  exact ⟨hfits, f, hf, ((hget plainAggregator (by decide) true rfl).2).mpr (by decide)⟩

/-- **One value cannot be read back.** -/
theorem aggregator_single_panics :
    ∃ f : Faster, ([.add plainAggregator true] : List (FoldOp parity.Input Unit Unit)).foldlM
        (Faster.execAggregator parity (aggregatorFns parity ["a"])) create = .ok f ∧
      f.aggregatorGet plainAggregator parity =
        .error (.panic "assertion failed: `(left == right)`") ∧
      f.aggregatorGet plainAggregator parity ≠
        parity.accumulatorIntoResult (parity.fold [true]) :=
  ⟨_, rfl, rfl, nofun⟩

end Faster

end Arcon.State
