import Arcon.State.Folding
import Mathlib.Algebra.FreeMonoid.Basic

/-!
# Reducer state (`reducer_ops.rs` of the four backends)

A reducer keeps one value and replaces it by `f(old, new)`; the first value is kept as it is. Rocks
and Sled leave this to a merge operator, which decodes what it is given and folds it from the left
(`mergeReduced`); Faster to the function that `rmw` calls; `InMemory` does it in place.

What RocksDB merges may be the results of earlier merges, so there the grouping matters unless `f`
is associative. The order of the arguments always does.

* **`reducer_refines_fold`**: for an associative `f` all four backends return `f(..f(x_1, x_2)..,
  x_n)` of the values since the last clear, whatever RocksDB merges.
-/

namespace Arcon.State

open FixedBytes Merging

variable {T IK N : Type} [Message T] [FixedBytes IK] [FixedBytes N] (f : T → T → T)

/-- The `try_fold` of the merge operators, over the value so far. -/
def reduceSlices : Option T → List Bytes → Result (Option T)
  | acc, [] => .ok acc
  | none, bytes :: slices => do
    let value ← protobuf.deserialize bytes
    reduceSlices (some value) slices
  | some old, bytes :: slices => do
    let value ← protobuf.deserialize bytes
    reduceSlices (some (f old value)) slices

/-- The body of the merge operators, on the slices in order. -/
def mergeReduced (slices : List Bytes) : Result (Option Bytes) :=
  match reduceSlices f none slices with
  | .ok (some v) => .ok (some (protobuf.serialize v))
  -- reducing state merge result is None
  | .ok none => .ok none
  | .error _ => .ok none

/-! ## Rocks -/

namespace Rocks

/-- `make_reducer_merge`. -/
def makeReducerMerge : RocksMerge := fun _key first rest => mergeReduced f (first.toList ++ rest)

/-- `register_reducer_handle`, for all states `ids`. -/
def reducers (ids : List String) : Rocks := withOperator (makeReducerMerge f) ids

variable (db : Rocks) (handle : Handle IK N)

/-- `reducer_clear`. -/
def reducerClear : Result Rocks := do
  let key ← handle.serializeMetakeys
  db.remove handle.id key

/-- `reducer_get`. -/
def reducerGet : Result (Option T) := do
  let key ← handle.serializeMetakeys
  readValue (← db.get handle.id key)

/-- `reducer_reduce`. -/
def reducerReduce (value : T) : Result Rocks := do
  let key ← handle.serializeMetakeys
  db.mergeCf handle.id key (protobuf.serialize value)

/-- The operation on `Rocks`. -/
def execReducer : FoldOp T IK N → Result Rocks
  | .add h value => db.reducerReduce h value
  | .clear h => db.reducerClear h

end Rocks

/-! ## Sled -/

namespace Sled

/-- `make_reducer_merge`. -/
def makeReducerMerge : SledMerge := fun _key existent new =>
  mergeReduced f (existent.toList ++ [new])

/-- `register_reducer_handle`, for all states `ids`. -/
def reducers (ids : List String) : Sled := withOperator (makeReducerMerge f) ids

variable (db : Sled) (handle : Handle IK N)

/-- `reducer_clear`. -/
def reducerClear : Result Sled := do
  let key ← handle.serializeMetakeys
  pure (db.remove handle.id key).2

/-- `reducer_get`. -/
def reducerGet : Result (Option T) := do
  let key ← handle.serializeMetakeys
  readValue (db.get handle.id key)

/-- `reducer_reduce`. -/
def reducerReduce (value : T) : Result Sled := do
  let key ← handle.serializeMetakeys
  let tree ← (db.tree handle.id).merge key (protobuf.serialize value)
  pure (db.setTree handle.id tree)

/-- The operation on `Sled`. -/
def execReducer : FoldOp T IK N → Result Sled
  | .add h value => db.reducerReduce h value
  | .clear h => db.reducerClear h

end Sled

/-! ## In memory -/

namespace InMemory

variable {T : Type} (f : T → T → T) (db : InMemory T) (handle : Handle IK N)

/-- `reducer_clear`. -/
def reducerClear : Result (InMemory T) := do
  let key ← handle.serializeMetakeys
  let m ← db.get handle.id
  pure (db.set handle.id (m.erase key))

/-- `reducer_get`. -/
def reducerGet : Result (Option T) := do
  let key ← handle.serializeMetakeys
  let m ← db.get handle.id
  pure m[key]?

/-- `reducer_reduce`. -/
def reducerReduce (value : T) : Result (InMemory T) := do
  let key ← handle.serializeMetakeys
  let m ← db.get handle.id
  match m[key]? with
  | none => pure (db.set handle.id (m.insert key value))
  | some old => pure (db.set handle.id (m.insert key (f old value)))

/-- The operation on `InMemory`. -/
def execReducer : FoldOp T IK N → Result (InMemory T)
  | .add h value => db.reducerReduce f h value
  | .clear h => db.reducerClear h

end InMemory

/-! ## Faster -/

namespace Faster

/-- `register_reducer_handle`, for all states `ids`: the functions in `aggregate_fns`. -/
def reducerFns (ids : List String) : String → Option AggregatorFn :=
  fun id => if id ∈ ids then some (makeReduceFn f) else none

variable (fns : String → Option AggregatorFn) (store : Faster)

/-- The operation on `Faster`. -/
def execReducer : FoldOp T IK N → Result Faster
  | .add h value => store.reducerReduce h fns value
  | .clear h => store.reducerClear h

end Faster

/-! ## The reduction of a list -/

/-- `f(..f(f(x_1, x_2), x_3).., x_n)`, and nothing for no values. -/
def reduced {T : Type} (f : T → T → T) : List T → Option T
  | [] => none
  | x :: xs => some (xs.foldl f x)

section reduced

omit [Message T]
variable {f} {l l' : List T} {a b v : T}

theorem reduced_concat (h : reduced f l = some a) : reduced f (l ++ [v]) = some (f a v) := by
  cases l with
  | nil => cases h
  | cons x xs =>
    cases h
    rw [List.cons_append, reduced, List.foldl_append]
    rfl

/-- Two values that stand for lists are reduced to the one for both. -/
theorem reduced_append (hf : ∀ a b c, f (f a b) c = f a (f b c)) (h : reduced f l = some a)
    (h' : reduced f l' = some b) : reduced f (l ++ l') = some (f a b) := by
  have hassoc : Std.Associative f := ⟨hf⟩
  cases l with
  | nil => cases h
  | cons x xs =>
    cases l' with
    | nil => cases h'
    | cons y ys =>
      cases h
      cases h'
      rw [List.cons_append, reduced, List.foldl_append, List.foldl_cons, List.foldl_assoc]

end reduced

/-! ## What the stores keep -/

section stores

variable {f} [LawfulMessage T]

variable (f) in
/-- The bytes of the reduction of these values, of which there is at least one. -/
def RedDenotes (b : Bytes) (x : FreeMonoid T) : Prop :=
  ∃ v, reduced f x.toList = some v ∧ b = protobuf.serialize v

/-- The loop goes on from the reduction of the values before. -/
theorem reduceSlices_eq (hf : ∀ a b c, f (f a b) c = f a (f b c)) {slices : List Bytes}
    {as : List (FreeMonoid T)} (h : List.Forall₂ (RedDenotes f) slices as) {l : List T} {a : T}
    (hl : reduced f l = some a) :
    ∃ v, reduceSlices f (some a) slices = .ok (some v) ∧
      reduced f (l ++ as.prod.toList) = some v := by
  induction h generalizing l a with
  | nil => exact ⟨a, rfl, by simpa using hl⟩
  | @cons b x slices as hd _ ih =>
    obtain ⟨v, hv, rfl⟩ := hd
    obtain ⟨w, hw, hred⟩ := ih (reduced_append hf hl hv)
    refine ⟨w, ?_, ?_⟩
    · rw [reduceSlices, protobuf.deserialize_serialize, ok_bind, hw]
    · rw [List.prod_cons, FreeMonoid.toList_mul, ← List.append_assoc, hred]

/-- **The operators reduce what they are given.** -/
theorem mergeReduced_eq (hf : ∀ a b c, f (f a b) c = f a (f b c)) {slices : List Bytes}
    {as : List (FreeMonoid T)} (hne : slices ≠ []) (h : List.Forall₂ (RedDenotes f) slices as) :
    ∃ v, mergeReduced f slices = .ok (some (protobuf.serialize v)) ∧
      reduced f as.prod.toList = some v := by
  cases h with
  | nil => exact absurd rfl hne
  | @cons b x slices as hd htl =>
    obtain ⟨v, hv, rfl⟩ := hd
    obtain ⟨w, hw, hred⟩ := reduceSlices_eq hf htl hv
    refine ⟨w, ?_, by rw [List.prod_cons, FreeMonoid.toList_mul, hred]⟩
    unfold mergeReduced
    rw [reduceSlices, protobuf.deserialize_serialize, ok_bind, hw]

/-- **RocksDB may group the values as it likes.** -/
theorem folds_reducerMerge (hf : ∀ a b c, f (f a b) c = f a (f b c)) {cf : ColumnFamily}
    (hop : cf.mergeOperator = some (Rocks.makeReducerMerge f)) (key : Bytes) :
    Folds (RedDenotes f) (cf.merge key) fun _ => True where
  prod base ops a as hne hbase hops _ := by
    obtain ⟨bs, hbs, hprod⟩ := hbase.append hops
    obtain ⟨v, hv, hred⟩ := mergeReduced_eq hf (by simp [hne]) hbs
    refine ⟨protobuf.serialize v, ?_, v, by rw [← hprod, hred], rfl⟩
    unfold ColumnFamily.merge
    rw [hop]
    dsimp only [Rocks.makeReducerMerge]
    rw [hv]
    rfl
  factor _ _ _ h := h

theorem Rocks.foldsInto_reducer (hf : ∀ a b c, f (f a b) c = f a (f b c)) :
    Rocks.FoldsInto (Rocks.makeReducerMerge f) protobuf.serialize
      fun p (l : List T) => p.Holds (RedDenotes f) (FreeMonoid.ofList l) where
  absent := holds_absent
  push _ _ v h := holds_push h (y := FreeMonoid.of v) ⟨v, rfl, rfl⟩
  combine _ key _ _ i n hop h := holds_combine (folds_reducerMerge hf hop key) h trivial i n
  settle _ key _ _ n hop h := holds_settle (folds_reducerMerge hf hop key) h trivial n

theorem Sled.foldsInto_reducer :
    Sled.FoldsInto (Sled.makeReducerMerge f) protobuf.serialize
      fun r (l : List T) => r = (reduced f l).map protobuf.serialize where
  none := rfl
  merge key r l v h := by
    subst h
    unfold Sled.makeReducerMerge mergeReduced
    cases hl : reduced f l with
    | none =>
      have hnil : l = [] := by
        cases l with
        | nil => rfl
        | cons x xs => cases hl
      subst hnil
      exact ⟨protobuf.serialize v, by simp [reduceSlices], rfl⟩
    | some a =>
      exact ⟨protobuf.serialize (f a v), by simp [reduceSlices], by rw [reduced_concat hl]; rfl⟩

/-- What a new value makes of the stored one, in memory. -/
def reduceBox {T : Type} (f : T → T → T) (r : Option T) (value : T) : T :=
  match r with
  | none => value
  | some old => f old value

omit [Message T] [LawfulMessage T] in
theorem InMemory.foldsInto_reducer :
    InMemory.FoldsInto (reduceBox f) fun r (l : List T) => r = reduced f l where
  none := rfl
  add r l v h := by
    subst h
    cases hl : reduced f l with
    | none =>
      cases l with
      | nil => rfl
      | cons x xs => cases hl
    | some a => exact (reduced_concat hl).symm

variable (f) in
/-- A record stands for these values; the first was kept as it came. -/
def Faster.ReducedRecord (r : Option FasterRecord) (l : List T) : Prop :=
  (r = none ∧ l = []) ∨ ∃ v, reduced f l = some v ∧
    (r = some (.agg (.value (protobuf.serialize v))) ∨
      ∃ id, r = some (.agg (.modify (protobuf.serialize v) id)))

theorem Faster.foldsInto_reducer (ids : List String) :
    Faster.FoldsInto (Faster.reducerFns f ids) protobuf.serialize ids (ReducedRecord f) where
  none := .inl ⟨rfl, rfl⟩
  aggregate id hid r l v h := by
    have hfn : reducerFns f ids id = some (makeReduceFn f) := if_pos hid
    unfold aggregateRecord
    rw [hfn]
    dsimp only
    rcases h with ⟨rfl, rfl⟩ | ⟨a, ha, hr⟩
    · exact ⟨_, rfl, .inr ⟨v, rfl, .inr ⟨id, rfl⟩⟩⟩
    · have hcall : makeReduceFn f (protobuf.serialize a) (protobuf.serialize v) =
          .ok (protobuf.serialize (f a v)) := by simp [makeReduceFn]
      refine ⟨.agg (.value (protobuf.serialize (f a v))), ?_,
        .inr ⟨f a v, reduced_concat ha, .inl rfl⟩⟩
      rcases hr with rfl | ⟨id', rfl⟩
      · simp only [FasterAgg.rmw, hcall, ok_bind, pure_eq_ok]
      · simp only [FasterAgg.rmw, hcall, ok_bind, pure_eq_ok]

/-! ## Reads -/

theorem readValue_serialize (r : Option T) :
    readValue (r.map protobuf.serialize) = .ok r := by
  cases r with
  | none => rfl
  | some v => simp [readValue]

variable {h : Handle IK N} {ids : List String} {lists : Handle IK N → List T}
  [LawfulFixedBytes IK] [LawfulFixedBytes N]

theorem Rocks.reducerGet_eq (hf : ∀ a b c, f (f a b) c = f a (f b c)) {db : Rocks}
    (hdb : KeepsLists (makeReducerMerge f)
      (fun p l => p.Holds (RedDenotes f) (FreeMonoid.ofList l)) ids db lists)
    (hid : h.id ∈ ids) : db.reducerGet h = .ok (reduced f (lists h)) := by
  obtain ⟨cf, hcf, hop, hholds⟩ := hdb.cf hid
  unfold reducerGet
  rw [Handle.serializeMetakeys_eq, ok_bind, get_eq hcf]
  obtain ⟨r, hr, v, hred, rfl⟩ | ⟨hr, hone⟩ :=
    value_of_holds (folds_reducerMerge hf hop h.metakeys) hholds trivial
  · rw [hr, ok_bind, show reduced f (lists h) = some v from hred]
    exact readValue_serialize (some v)
  · rw [hr, ok_bind, show lists h = [] from hone]
    rfl

theorem Sled.reducerGet_eq {db : Sled}
    (hdb : KeepsLists (makeReducerMerge f)
      (fun r l => r = (reduced f l).map protobuf.serialize) ids db lists)
    (hid : h.id ∈ ids) : db.reducerGet h = .ok (reduced f (lists h)) := by
  unfold reducerGet
  rw [Handle.serializeMetakeys_eq, ok_bind, (hdb.get hid).2, readValue_serialize]

omit [Message T] [LawfulMessage T] in
theorem InMemory.reducerGet_eq {db : InMemory T}
    (hdb : KeepsLists (fun r l => r = reduced f l) ids db lists) (hid : h.id ∈ ids) :
    db.reducerGet h = .ok (reduced f (lists h)) := by
  obtain ⟨m, hm, hbox⟩ := hdb.map hid
  unfold reducerGet
  rw [Handle.serializeMetakeys_eq, ok_bind, get_eq hm, ok_bind, hbox]
  rfl

theorem Faster.reducerGet_eq {store : Faster} (hdb : KeepsLists (ReducedRecord f) ids store lists)
    (hid : h.id ∈ ids) : store.reducerGet h = .ok (reduced f (lists h)) := by
  have hagg : store.getAgg h.idMetakeys = .ok ((reduced f (lists h)).map protobuf.serialize) := by
    unfold getAgg
    rcases hdb.record hid with ⟨hr, hnil⟩ | ⟨v, hv, hr | ⟨id, hr⟩⟩
    · rw [hr, hnil]
      rfl
    · rw [hr, hv]
      rfl
    · rw [hr, hv]
      rfl
  unfold reducerGet
  rw [Handle.serializeIdAndMetakeys_eq, ok_bind, hagg, ok_bind, readValue_serialize]

/-! ## Runs -/

variable [DecidableEq IK] [DecidableEq N]

/-- **Reducer state is the left fold of its values.** For every associative `f`, every sequence of
`reducer_reduce` and `reducer_clear` on registered handles and every way in which RocksDB merges
pending operands in between: no operation and no merge fails, and `reducer_get` on `Rocks`, `Sled`,
`InMemory` and `Faster` gives `None` when there was no value since the last clear and else
`f(..f(f(x_1, x_2), x_3).., x_n)`. -/
theorem reducer_refines_fold (hf : ∀ a b c, f (f a b) c = f a (f b c)) (ids : List String)
    (hfits : ∀ id ∈ ids, id.toUTF8.data.toList.length ≤ u64Max)
    (events : List (FoldEvent T IK N)) (hids : ∀ e ∈ events, e.handle.id ∈ ids) :
    ∃ rocks sled mem store,
      events.foldlM (Rocks.foldStep Rocks.execReducer) (Rocks.reducers f ids) = .ok rocks ∧
      (FoldEvent.ops events).foldlM Sled.execReducer (Sled.reducers f ids) = .ok sled ∧
      (FoldEvent.ops events).foldlM (InMemory.execReducer f) (InMemory.registered T ids) =
        .ok mem ∧
      (FoldEvent.ops events).foldlM (Faster.execReducer (Faster.reducerFns f ids)) Faster.create =
        .ok store ∧
      ∀ h : Handle IK N, h.id ∈ ids →
        rocks.reducerGet h = .ok (reduced f (FoldOp.lists (FoldEvent.ops events) h)) ∧
        sled.reducerGet h = .ok (reduced f (FoldOp.lists (FoldEvent.ops events) h)) ∧
        mem.reducerGet h = .ok (reduced f (FoldOp.lists (FoldEvent.ops events) h)) ∧
        store.reducerGet h = .ok (reduced f (FoldOp.lists (FoldEvent.ops events) h)) := by
  have hops : ∀ o ∈ FoldEvent.ops events, o.handle.id ∈ ids := FoldEvent.handle_mem_of_ops hids
  obtain ⟨rocks, hrocks, hrk⟩ := Rocks.run_keeps Rocks.execReducer
    (fun db h v => by
      simp only [Rocks.execReducer, Rocks.reducerReduce, Handle.serializeMetakeys_eq, ok_bind])
    (fun db h => by
      simp only [Rocks.execReducer, Rocks.reducerClear, Handle.serializeMetakeys_eq, ok_bind])
    (Rocks.foldsInto_reducer hf) hids
  obtain ⟨sled, hsled, hsk⟩ := Sled.run_keeps Sled.execReducer
    (fun db h v => by
      simp only [Sled.execReducer, Sled.reducerReduce, Handle.serializeMetakeys_eq, ok_bind])
    (fun db h => by
      simp only [Sled.execReducer, Sled.reducerClear, Handle.serializeMetakeys_eq, ok_bind,
        pure_eq_ok])
    (Sled.foldsInto_reducer (f := f)) hops
  obtain ⟨mem, hmem, hmk⟩ := InMemory.run_keeps (InMemory.execReducer f)
    (fun db h v m hm => by
      simp only [InMemory.execReducer, InMemory.reducerReduce, Handle.serializeMetakeys_eq, ok_bind,
        InMemory.get_eq hm, pure_eq_ok]
      cases m[h.metakeys]? <;> rfl)
    (fun db h m hm => by
      simp only [InMemory.execReducer, InMemory.reducerClear, Handle.serializeMetakeys_eq, ok_bind,
        InMemory.get_eq hm, pure_eq_ok])
    InMemory.foldsInto_reducer hops
  obtain ⟨store, hstore, hfk⟩ := Faster.run_keeps (Faster.execReducer (Faster.reducerFns f ids))
    (fun store h v => by
      simp only [Faster.execReducer, Faster.reducerReduce, Handle.serializeIdAndMetakeys_eq,
        ok_bind])
    (fun store h => by
      simp only [Faster.execReducer, Faster.reducerClear, Faster.clear,
        Handle.serializeIdAndMetakeys_eq, ok_bind, pure_eq_ok])
    (Faster.foldsInto_reducer (f := f) ids) hfits hops
  refine ⟨rocks, sled, mem, store, hrocks, hsled, hmem, hstore, fun h hid => ⟨?_, ?_, ?_, ?_⟩⟩
  · exact Rocks.reducerGet_eq hf hrk hid
  · exact Sled.reducerGet_eq hsk hid
  · exact InMemory.reducerGet_eq hmk hid
  · exact Faster.reducerGet_eq hfk hid

end stores

/-- Values, a merge of two of them without a full value, a full merge, another value and a clear. -/
def reducerRun : List (FoldEvent Bool Unit Bool) :=
  [.op (.add ⟨"r", (), true⟩ true), .op (.add ⟨"r", (), true⟩ true),
   .op (.add ⟨"r", (), true⟩ false), .op (.add ⟨"r", (), false⟩ true),
   .partialMerge ⟨"r", (), true⟩ 1 2, .fullMerge ⟨"r", (), true⟩ 2,
   .op (.add ⟨"r", (), true⟩ false), .op (.clear ⟨"r", (), false⟩)]

/-- A reducer that keeps its first argument: the order of the arguments matters. -/
theorem reducer_refines_fold_first :
    (∀ id ∈ ["r"], id.toUTF8.data.toList.length ≤ u64Max) ∧
      (∀ e ∈ reducerRun, e.handle.id ∈ ["r"]) ∧
      ∃ rocks : Rocks, reducerRun.foldlM (Rocks.foldStep Rocks.execReducer)
          (Rocks.reducers (fun a _ : Bool => a) ["r"]) = .ok rocks ∧
        rocks.reducerGet (T := Bool) (⟨"r", (), true⟩ : Handle Unit Bool) = .ok (some true) := by
  have hfits : ∀ id ∈ ["r"], id.toUTF8.data.toList.length ≤ u64Max := by decide
  have hids : ∀ e ∈ reducerRun, e.handle.id ∈ ["r"] := by decide
  obtain ⟨rocks, _, _, _, hrun, _, _, _, hreads⟩ := reducer_refines_fold
    (f := fun a _ : Bool => a) (fun _ _ _ => rfl) ["r"] hfits reducerRun hids
  refine ⟨hfits, hids, rocks, hrun, (hreads ⟨"r", (), true⟩ (by decide)).1.trans ?_⟩
  have hlist : FoldOp.lists (FoldEvent.ops reducerRun) ⟨"r", (), true⟩ =
      [true, true, false, false] := rfl
  rw [hlist]
  rfl

end Arcon.State
