import Arcon.State.AggregatorRefine

/-!
# Incremental windows on Rocks (`window/mod.rs`)

An `IncrementalWindow` keeps one accumulator for each key and index in an aggregator state: nothing,
or what `init` made of the first element and `agg` of the others. Its aggregator cannot merge two
accumulators, `merge_accumulators` is `unimplemented!()`.

RocksDB decides which operands it merges. An element is stored as a value; a merge of some of them
leaves an accumulator, and as long as that is the first of what is merged next, all that follows are
values. A partial merge of operands that have something in front of them, a full value or another
operand, leaves an accumulator where it will never be the first again, and the next merge that comes
past it panics. So does the read, which merges everything.

* `MergesAtFront`: every partial merge of a run is of operands with nothing in front of them.
* **`incremental_window_iff`**: on Rocks the results are right, and nothing panics, if and only if
  that is so; in memory they always are.
-/

namespace Arcon.State

open FixedBytes Merging Slots

/-- `ProstOption`. -/
structure ProstOption (A : Type) where
  inner : Option A
  deriving DecidableEq, Repr

/-- `IncrementalWindowAggregator`. -/
def IncrementalWindowAggregator {IN OUT : Type} [Message IN] [Message (ProstOption OUT)]
    (init : IN → OUT) (agg : IN → OUT → OUT) : Aggregator where
  Input := IN
  Accumulator := ProstOption OUT
  Output := OUT
  createAccumulator := ⟨none⟩
  add acc value :=
    match acc.inner with
    | none => ⟨some (init value)⟩
    | some inner => ⟨some (agg value inner)⟩
  mergeAccumulators _ _ := .error (.panic "not implemented")
  accumulatorIntoResult acc :=
    match acc.inner with
    | some r => .ok r
    | none => .error (.panic "uninitialized incremental window")

/-- `WindowContext`: the key and the index of a window. -/
structure WindowContext where
  key : Prim 8
  index : Prim 8
  deriving DecidableEq

/-- The handle of an `IncrementalWindow` after `set_item_key` and `set_namespace`. -/
def WindowContext.handle (ctx : WindowContext) : Handle (Prim 8) (Prim 8) :=
  ⟨"incremental_window_aggregating_state", ctx.key, ctx.index⟩

theorem WindowContext.handle_inj {c c' : WindowContext} (h : c.handle = c'.handle) : c = c' := by
  cases c
  cases c'
  cases h
  rfl

section window

variable {IN OUT : Type} [Message IN] [Message (ProstOption OUT)] (init : IN → OUT)
  (agg : IN → OUT → OUT)

/-- `on_element`, on Rocks. -/
def Rocks.onElement (db : Rocks) (ctx : WindowContext) (element : IN) : Result Rocks :=
  db.aggregatorAggregate (IncrementalWindowAggregator init agg) ctx.handle element

/-- `result`, on Rocks. -/
def Rocks.result (db : Rocks) (ctx : WindowContext) : Result OUT :=
  db.aggregatorGet (IncrementalWindowAggregator init agg) ctx.handle

/-- `on_element`, in memory. -/
def InMemory.onElement (db : InMemory (ProstOption OUT)) (ctx : WindowContext) (element : IN) :
    Result (InMemory (ProstOption OUT)) :=
  InMemory.aggregatorAggregate (IncrementalWindowAggregator init agg) db ctx.handle element

/-- `result`, in memory. -/
def InMemory.result (db : InMemory (ProstOption OUT)) (ctx : WindowContext) : Result OUT :=
  InMemory.aggregatorGet (IncrementalWindowAggregator init agg) db ctx.handle

/-! ## Runs -/

/-- What happens to the windows: an element, or a merge the database does on its own. -/
inductive IncrementalEvent (IN : Type)
  | onElement (ctx : WindowContext) (element : IN)
  | partialMerge (ctx : WindowContext) (i n : Nat)
  | fullMerge (ctx : WindowContext) (n : Nat)

namespace IncrementalEvent

/-- The window it happens to. -/
def ctx {IN : Type} : IncrementalEvent IN → WindowContext
  | onElement c _ | partialMerge c _ _ | fullMerge c _ => c

/-- The element that the window `c` gets. -/
def element? {IN : Type} (c : WindowContext) : IncrementalEvent IN → Option IN
  | onElement c' x => if c' = c then some x else none
  | partialMerge .. | fullMerge .. => none

/-- The elements of the window `c`, in order. -/
def elements {IN : Type} (c : WindowContext) (events : List (IncrementalEvent IN)) : List IN :=
  events.filterMap (element? c)

end IncrementalEvent

/-- One event, on Rocks. -/
def Rocks.windowStep (db : Rocks) : IncrementalEvent IN → Result Rocks
  | .onElement ctx element => db.onElement init agg ctx element
  | .partialMerge ctx i n => db.tryPartialMerge ctx.handle.id ctx.handle.metakeys i n
  | .fullMerge ctx n => db.tryFullMerge ctx.handle.id ctx.handle.metakeys n

/-- One event, in memory: there is nothing to merge. -/
def InMemory.windowStep (db : InMemory (ProstOption OUT)) :
    IncrementalEvent IN → Result (InMemory (ProstOption OUT))
  | .onElement ctx element => db.onElement init agg ctx element
  | .partialMerge .. | .fullMerge .. => .ok db

/-- What a column family of Rocks has for a window. -/
def Rocks.entry (db : Rocks) (ctx : WindowContext) : Pending Bytes :=
  match db.cfs ctx.handle.id with
  | some cf => cf.data ctx.handle.metakeys
  | none => .absent

/-- A partial merge, where it takes place, is of operands with nothing in front of them. -/
def Rocks.AtFront (db : Rocks) : IncrementalEvent IN → Prop
  | .partialMerge ctx i n => 0 < n ∧ i + n ≤ (db.entry ctx).operands.length →
      (db.entry ctx).base = none ∧ i = 0
  | .onElement .. | .fullMerge .. => True

/-- Every partial merge of a run is of operands with nothing in front of them. -/
def Rocks.MergesAtFront (db : Rocks) : List (IncrementalEvent IN) → Prop
  | [] => True
  | e :: events => db.AtFront e ∧
      ∀ db', db.windowStep init agg e = .ok db' → Rocks.MergesAtFront db' events

/-- The backends with the window registered. -/
def Rocks.windows : Rocks :=
  Rocks.aggregators (IncrementalWindowAggregator init agg)
    ["incremental_window_aggregating_state"]

variable (OUT) in
@[inherit_doc Rocks.windows]
def InMemory.windows : InMemory (ProstOption OUT) :=
  InMemory.registered (ProstOption OUT) ["incremental_window_aggregating_state"]

/-- `agg(x_n, .. agg(x_2, init(x_1)))`. -/
def aggregated : List IN → Option OUT
  | [] => none
  | x :: xs => some (xs.foldl (fun acc y => agg y acc) (init x))

end window

/-! ## Entries as items -/

section entries

variable {A : Aggregator}

/-- The full value and the operands of an entry are the bytes of these items. -/
structure Spells (p : Pending Bytes) (bs os : List (Item A)) : Prop where
  base : p.base.toList = bs.map Item.bytes
  operands : p.operands = os.map Item.bytes

theorem Spells.push {p : Pending Bytes} {bs os : List (Item A)} (h : Spells p bs os) (v : A.Input) :
    Spells (p.push (valueOperand A v)) bs (os ++ [.value v]) where
  base := h.base
  operands := by
    rw [List.map_append, ← h.operands]
    rfl

variable [LawfulMessage A.Input] [LawfulMessage A.Accumulator] {cf : ColumnFamily}
  (hop : cf.mergeOperator = some (Rocks.makeAggregatorMerge A)) {key : Bytes} {p : Pending Bytes}
  {bs os : List (Item A)} (h : Spells p bs os)
include hop h

theorem Spells.combine {i n : Nat} (hrange : 0 < n ∧ i + n ≤ p.operands.length) :
    p.combine (cf.merge key) i n = (do
      let r ← mergeItems ((os.drop i).take n)
      pure ⟨p.base, (os.take i ++ .acc r :: os.drop (i + n)).map Item.bytes⟩) := by
  have hmid : (none : Option Bytes).toList ++ (p.operands.drop i).take n =
      ((os.drop i).take n).map Item.bytes := by
    rw [h.operands, List.map_take, List.map_drop]
    rfl
  unfold Pending.combine
  rw [if_pos hrange, merge_bytes hop key hmid, h.operands]
  cases mergeItems ((os.drop i).take n) with
  | error e => rfl
  | ok r => simp [List.map_take, List.map_drop]

theorem Spells.settle {n : Nat} (hrange : 0 < n ∧ n ≤ p.operands.length) :
    p.settle (cf.merge key) n = (do
      let r ← mergeItems (bs ++ os.take n)
      pure ⟨some (Item.acc r).bytes, (os.drop n).map Item.bytes⟩) := by
  have hall : p.base.toList ++ p.operands.take n = (bs ++ os.take n).map Item.bytes := by
    rw [h.base, h.operands, List.map_append, List.map_take]
  unfold Pending.settle
  rw [if_pos hrange, merge_bytes hop key hall, h.operands]
  cases mergeItems (bs ++ os.take n) with
  | error e => rfl
  | ok r => simp [List.map_drop]

/-- What a reader gets, where there are operands to merge. -/
theorem Spells.value (hos : os ≠ []) :
    p.value (cf.merge key) = (do
      let r ← mergeItems (bs ++ os)
      pure (some (Item.acc r).bytes)) := by
  have hall : p.base.toList ++ p.operands = (bs ++ os).map Item.bytes := by
    rw [h.base, h.operands, List.map_append]
  unfold Pending.value
  split
  · rename_i hnil
    rw [h.operands, List.map_eq_nil_iff] at hnil
    exact absurd hnil hos
  · rw [merge_bytes hop key hall]
    cases mergeItems (bs ++ os) <;> rfl

end entries

/-! ## Aggregators that cannot merge accumulators -/

section merges

variable {A : Aggregator}

/-- Two accumulators are never merged. -/
def Aggregator.Unmergeable (A : Aggregator) : Prop := ∀ a b r, A.mergeAccumulators a b ≠ .ok r

/-- Values are taken in one by one. -/
theorem mergeItems_values (i : Item A) (vs : List A.Input) :
    mergeItems (i :: vs.map .value) = .ok (vs.foldl A.add i.start) := by
  have hloop : ∀ (vs : List A.Input) a, (vs.map Item.value).foldlM Item.absorb a =
      .ok (vs.foldl A.add a) := by
    intro vs
    induction vs with
    | nil => exact fun a => rfl
    | cons v vs ih => exact fun a => ih _
  exact hloop vs i.start

/-- An accumulator behind something else cannot be merged. -/
theorem not_mem_tail_of_mergeItems (hA : A.Unmergeable) {is : List (Item A)} {r : A.Accumulator}
    (h : mergeItems is = .ok r) (a : A.Accumulator) : Item.acc a ∉ is.tail := by
  have hloop : ∀ (is : List (Item A)) b r, is.foldlM Item.absorb b = .ok r →
      Item.acc a ∉ is := by
    intro is
    induction is with
    | nil => exact fun b r _ => List.not_mem_nil
    | cons i is ih =>
      intro b r hrun hmem
      rw [List.foldlM_cons] at hrun
      cases i with
      | value v =>
        rcases List.mem_cons.mp hmem with heq | hmem
        · cases heq
        · exact ih _ r hrun hmem
      | acc c =>
        cases hmerge : A.mergeAccumulators b c with
        | ok d => exact hA b c d hmerge
        | error e =>
          rw [show Item.absorb b (.acc c) = _ from hmerge] at hrun
          cases hrun
  cases is with
  | nil => exact List.not_mem_nil
  | cons i is => exact hloop is i.start r h

/-- An entry with these values in which all but the first item are values. -/
def Clean (A : Aggregator) (p : Pending Bytes) (l : List A.Input) : Prop :=
  (p = .absent ∧ l = []) ∨
  ∃ (bs os : List (Item A)) (i : Item A) (vs xs : List A.Input),
    Spells p bs os ∧ bs ++ os = i :: vs.map .value ∧ i.start = A.fold xs ∧ xs ≠ [] ∧
    l = xs ++ vs ∧ p.Settled IsAccumulator

/-- An entry with an accumulator behind something else. -/
def Spoiled (A : Aggregator) (p : Pending Bytes) : Prop :=
  ∃ (bs os : List (Item A)) (a : A.Accumulator), Spells p bs os ∧ Item.acc a ∈ (bs ++ os).tail

theorem mem_tail_append {α : Type} {a : α} {l l' : List α} (h : a ∈ l.tail) :
    a ∈ (l ++ l').tail := by
  cases l with
  | nil => cases h
  | cons x xs => exact List.mem_append_left l' h

theorem Clean.push {p : Pending Bytes} {l : List A.Input} (h : Clean A p l) (v : A.Input) :
    Clean A (p.push (valueOperand A v)) (l ++ [v]) := by
  rcases h with ⟨rfl, rfl⟩ | ⟨bs, os, i, vs, xs, hp, heq, hi, hxs, rfl, hset⟩
  · exact .inr ⟨[], [.value v], .value v, [], [v], ⟨rfl, rfl⟩, rfl, rfl, by simp, rfl, nofun⟩
  · refine .inr ⟨bs, os ++ [.value v], i, vs ++ [v], xs, hp.push v, ?_, hi, hxs, ?_, hset⟩
    · rw [← List.append_assoc, heq, List.map_append]
      rfl
    · rw [List.append_assoc]

theorem Spoiled.push {p : Pending Bytes} (h : Spoiled A p) (v : A.Input) :
    Spoiled A (p.push (valueOperand A v)) := by
  obtain ⟨bs, os, a, hp, hmem⟩ := h
  refine ⟨bs, os ++ [.value v], a, hp.push v, ?_⟩
  rw [← List.append_assoc]
  exact mem_tail_append hmem

/-- The first items of a clean entry are merged. -/
theorem mergeItems_front {i : Item A} {xs : List A.Input} (hi : i.start = A.fold xs)
    (vs : List A.Input) (m : Nat) :
    mergeItems ((i :: vs.map .value).take (m + 1)) = .ok (A.fold (xs ++ vs.take m)) := by
  rw [List.take_succ_cons, ← List.map_take, mergeItems_values, hi, ← Aggregator.fold_append]

/-- The entry after its first items were merged. -/
theorem clean_merged {p : Pending Bytes} (bs : List (Item A)) {os : List (Item A)}
    {xs vs : List A.Input} (m : Nat) (hxs : xs ≠ []) (hp : Spells p bs os)
    (heq : bs ++ os = .acc (A.fold (xs ++ vs.take m)) :: (vs.drop m).map .value)
    (hset : p.Settled IsAccumulator) : Clean A p (xs ++ vs) := by
  refine .inr ⟨bs, os, _, vs.drop m, xs ++ vs.take m, hp, heq, rfl, ?_, ?_, hset⟩
  · simp [hxs]
  · rw [List.append_assoc, List.take_append_drop]

variable [LawfulMessage A.Input] [LawfulMessage A.Accumulator] {cf : ColumnFamily}
  (hop : cf.mergeOperator = some (Rocks.makeAggregatorMerge A)) {key : Bytes} {p p' : Pending Bytes}
  {l : List A.Input} {i n : Nat}
include hop

/-- **A partial merge at the front succeeds and leaves the entry clean.** -/
theorem Clean.combine (h : Clean A p l)
    (hfront : 0 < n ∧ i + n ≤ p.operands.length → p.base = none ∧ i = 0) :
    ∃ p', p.combine (cf.merge key) i n = .ok p' ∧ Clean A p' l := by
  by_cases hrange : 0 < n ∧ i + n ≤ p.operands.length
  swap
  · exact ⟨p, by unfold Pending.combine; rw [if_neg hrange]; rfl, h⟩
  rcases h with ⟨rfl, rfl⟩ | ⟨bs, os, first, vs, xs, hp, heq, hfirst, hxs, rfl, hset⟩
  · simp only [Pending.absent, List.length_nil] at hrange
    omega
  obtain ⟨hbase, rfl⟩ := hfront hrange
  obtain ⟨m, rfl⟩ : ∃ m, n = m + 1 := ⟨n - 1, by omega⟩
  have hbs : bs = [] := by
    have hnil := hp.base
    rw [hbase] at hnil
    exact List.map_eq_nil_iff.mp hnil.symm
  subst hbs
  rw [List.nil_append] at heq
  refine ⟨_, by rw [hp.combine hop hrange, List.drop_zero, heq, mergeItems_front hfirst]; rfl,
    ?_⟩
  refine clean_merged [] m hxs ⟨by rw [hbase]; rfl, rfl⟩ ?_ hset
  rw [Nat.zero_add, List.drop_succ_cons, ← List.map_drop]
  rfl

/-- **A full merge of a clean entry succeeds and leaves it clean.** -/
theorem Clean.settle (h : Clean A p l) :
    ∃ p', p.settle (cf.merge key) n = .ok p' ∧ Clean A p' l := by
  by_cases hrange : 0 < n ∧ n ≤ p.operands.length
  swap
  · exact ⟨p, by unfold Pending.settle; rw [if_neg hrange]; rfl, h⟩
  rcases h with ⟨rfl, rfl⟩ | ⟨bs, os, first, vs, xs, hp, heq, hfirst, hxs, rfl, hset⟩
  · simp only [Pending.absent, List.length_nil] at hrange
    omega
  obtain ⟨m, hm⟩ : ∃ m, bs.length + n = m + 1 := ⟨bs.length + n - 1, by omega⟩
  have hmerged : mergeItems (bs ++ os.take n) = .ok (A.fold (xs ++ vs.take m)) := by
    rw [← List.take_length_add_append, heq, hm, mergeItems_front hfirst]
  have hrest : os.drop n = (vs.drop m).map .value := by
    have hdrop : (bs ++ os).drop (bs.length + n) = os.drop n := List.drop_length_add_append n
    rw [← hdrop, heq, hm, List.drop_succ_cons, List.map_drop]
  refine ⟨_, by rw [hp.settle hop hrange, hmerged]; rfl, ?_⟩
  refine clean_merged [.acc (A.fold (xs ++ vs.take m))] m hxs ⟨rfl, rfl⟩ ?_ ?_
  · rw [hrest]
    rfl
  · rintro b ⟨⟩
    rfl

/-- **A clean entry reads as the accumulator of its values.** -/
theorem Clean.value (h : Clean A p l) (hl : l ≠ []) :
    p.value (cf.merge key) = .ok (some (Item.acc (A.fold l)).bytes) := by
  rcases h with ⟨-, rfl⟩ | ⟨bs, os, first, vs, xs, hp, heq, hfirst, hxs, rfl, hset⟩
  · exact absurd rfl hl
  by_cases hos : os = []
  · -- nothing is pending: the full value is all there is, and it is an accumulator
    subst hos
    rw [List.append_nil] at heq
    have hbase := hp.base
    rw [heq] at hbase
    cases hb : p.base with
    | none =>
      rw [hb] at hbase
      cases hbase
    | some b =>
      rw [hb, Option.toList_some, List.map_cons, List.cons.injEq] at hbase
      obtain ⟨hbytes, hnil⟩ := hbase
      have hvs : vs = [] := List.map_eq_nil_iff.mp (List.map_eq_nil_iff.mp hnil.symm)
      subst hvs
      have hfirst' : first = .acc (A.fold xs) := by
        cases first with
        | value v =>
          have hacc := hset b hb
          rw [hbytes] at hacc
          exact absurd hacc (by simp [IsAccumulator, Item.bytes]; decide)
        | acc a => exact congrArg Item.acc hfirst
      unfold Pending.value
      rw [hp.operands, hb, hbytes, hfirst', List.append_nil]
      rfl
  · rw [hp.value hop hos, heq, mergeItems_values, hfirst, ← Aggregator.fold_append]
    rfl

/-- **A partial merge behind something spoils the entry**, unless it panics. -/
theorem Spells.spoiled_of_combine {bs os : List (Item A)} (hp : Spells p bs os)
    (hrange : 0 < n ∧ i + n ≤ p.operands.length) (hbehind : bs ≠ [] ∨ i ≠ 0)
    (h : p.combine (cf.merge key) i n = .ok p') : Spoiled A p' := by
  rw [hp.combine hop hrange] at h
  cases hm : mergeItems ((os.drop i).take n) with
  | error e =>
    rw [hm] at h
    cases h
  | ok r =>
    rw [hm] at h
    cases h
    refine ⟨bs, _, r, ⟨hp.base, rfl⟩, ?_⟩
    have hlen : os.length = p.operands.length := by rw [hp.operands, List.length_map]
    have hne : bs ++ os.take i ≠ [] := by
      rcases hbehind with hbs | hi
      · simp [hbs]
      · refine fun hnil => hi ?_
        have htake := congrArg List.length (List.append_eq_nil_iff.mp hnil).2
        rw [List.length_take, List.length_nil] at htake
        omega
    rw [← List.append_assoc, List.tail_append_of_ne_nil hne]
    simp

variable (hA : A.Unmergeable)
include hA

/-- **A spoiled entry stays spoiled**, unless the merge panics. -/
theorem Spoiled.combine (hp : Spoiled A p) (h : p.combine (cf.merge key) i n = .ok p') :
    Spoiled A p' := by
  obtain ⟨bs, os, a, hspells, hmem⟩ := hp
  by_cases hrange : 0 < n ∧ i + n ≤ p.operands.length
  swap
  · unfold Pending.combine at h
    rw [if_neg hrange] at h
    cases h
    exact ⟨bs, os, a, hspells, hmem⟩
  by_cases hbehind : bs ≠ [] ∨ i ≠ 0
  · exact hspells.spoiled_of_combine hop hrange hbehind h
  -- the merge starts with the first item, so the accumulator is among those it leaves
  rw [not_or, not_not, not_not] at hbehind
  obtain ⟨rfl, rfl⟩ := hbehind
  rw [hspells.combine hop hrange] at h
  cases hm : mergeItems ((os.drop 0).take n) with
  | error e =>
    rw [hm] at h
    cases h
  | ok r =>
    rw [hm] at h
    cases h
    refine ⟨[], _, a, ⟨hspells.base, rfl⟩, ?_⟩
    rw [List.drop_zero] at hm
    rw [List.nil_append, ← List.take_append_drop n os] at hmem
    have hne : os.take n ≠ [] := by
      rw [← List.length_pos_iff, List.length_take]
      have hlen : os.length = p.operands.length := by rw [hspells.operands, List.length_map]
      omega
    rw [List.tail_append_of_ne_nil hne, List.mem_append] at hmem
    rw [Nat.zero_add]
    exact hmem.resolve_left (not_mem_tail_of_mergeItems hA hm a)

theorem Spoiled.settle (hp : Spoiled A p) (h : p.settle (cf.merge key) n = .ok p') :
    Spoiled A p' := by
  obtain ⟨bs, os, a, hspells, hmem⟩ := hp
  by_cases hrange : 0 < n ∧ n ≤ p.operands.length
  swap
  · unfold Pending.settle at h
    rw [if_neg hrange] at h
    cases h
    exact ⟨bs, os, a, hspells, hmem⟩
  rw [hspells.settle hop hrange] at h
  cases hm : mergeItems (bs ++ os.take n) with
  | error e =>
    rw [hm] at h
    cases h
  | ok r =>
    rw [hm] at h
    cases h
    refine ⟨[.acc r], os.drop n, a, ⟨rfl, rfl⟩, ?_⟩
    rw [← List.take_append_drop n os, ← List.append_assoc] at hmem
    have hne : bs ++ os.take n ≠ [] := by
      rw [← List.length_pos_iff, List.length_append, List.length_take]
      have hlen : os.length = p.operands.length := by rw [hspells.operands, List.length_map]
      omega
    rw [List.tail_append_of_ne_nil hne, List.mem_append] at hmem
    exact hmem.resolve_left (not_mem_tail_of_mergeItems hA hm a)

/-- **A spoiled entry cannot be read.** -/
theorem Spoiled.value (hp : Spoiled A p) : ∃ e, p.value (cf.merge key) = .error e := by
  obtain ⟨bs, os, a, hspells, hmem⟩ := hp
  have hos : os ≠ [] := by
    rintro rfl
    -- the full value is one item, and nothing is behind it
    have hlen := congrArg List.length hspells.base
    rw [List.length_map] at hlen
    rw [List.append_nil] at hmem
    have hone : bs.length ≤ 1 := by
      rw [← hlen]
      cases p.base <;> simp
    have htail := List.length_pos_of_mem hmem
    rw [List.length_tail] at htail
    omega
  rw [hspells.value hop hos]
  cases hm : mergeItems (bs ++ os) with
  | error e => exact ⟨e, rfl⟩
  | ok r => exact absurd hmem (not_mem_tail_of_mergeItems hA hm a)

end merges

/-! ## Events -/

namespace IncrementalEvent

variable {A : Aggregator}

/-- What an event does to the entry of its window, in the column family `cf`. -/
def onEntry (cf : ColumnFamily) (p : Pending Bytes) :
    IncrementalEvent A.Input → Result (Pending Bytes)
  | onElement _ x => .ok (p.push (valueOperand A x))
  | partialMerge c i n => p.combine (cf.merge c.handle.metakeys) i n
  | fullMerge c n => p.settle (cf.merge c.handle.metakeys) n

/-- What it means for the elements of its window. -/
def onList {IN : Type} (l : List IN) : IncrementalEvent IN → List IN
  | onElement _ x => l ++ [x]
  | partialMerge .. | fullMerge .. => l

/-- What it means for the elements of all windows. -/
def apply {IN : Type} (lists : Handle (Prim 8) (Prim 8) → List IN) (e : IncrementalEvent IN) :
    Handle (Prim 8) (Prim 8) → List IN :=
  Function.update lists e.ctx.handle (e.onList (lists e.ctx.handle))

theorem foldl_apply {IN : Type} (events : List (IncrementalEvent IN))
    (lists : Handle (Prim 8) (Prim 8) → List IN) (c : WindowContext) :
    events.foldl apply lists c.handle = lists c.handle ++ elements c events := by
  induction events generalizing lists with
  | nil => simp [elements]
  | cons e events ih =>
    rw [List.foldl_cons, ih]
    unfold elements
    rw [List.filterMap_cons]
    by_cases hc : e.ctx = c
    · subst hc
      rw [apply, Function.update_self]
      cases e with
      | onElement c x => simp [onList, element?, ctx]
      | partialMerge c i n => rfl
      | fullMerge c n => rfl
    · have hne : c.handle ≠ e.ctx.handle := fun h => hc (WindowContext.handle_inj h).symm
      rw [apply, Function.update_of_ne hne]
      cases e with
      | onElement c' x =>
        rw [element?, if_neg (show ¬c' = c from hc)]
      | partialMerge c i n => rfl
      | fullMerge c n => rfl

/-- The operation of the aggregator that an event is. -/
def op? {IN : Type} : IncrementalEvent IN → Option (FoldOp IN (Prim 8) (Prim 8))
  | onElement c x => some (.add c.handle x)
  | partialMerge .. | fullMerge .. => none

theorem handle_id_mem {IN : Type} (events : List (IncrementalEvent IN)) :
    ∀ o ∈ events.filterMap op?, o.handle.id ∈ ["incremental_window_aggregating_state"] := by
  intro o ho
  obtain ⟨e, -, he⟩ := List.mem_filterMap.mp ho
  cases e with
  | onElement c x =>
    cases he
    exact List.mem_singleton.mpr rfl
  | partialMerge c i n => cases he
  | fullMerge c n => cases he

theorem lists_ops {IN : Type} (events : List (IncrementalEvent IN)) (c : WindowContext) :
    FoldOp.lists (events.filterMap op?) c.handle = elements c events := by
  have happly : FoldOp.lists (events.filterMap op?) = events.foldl apply fun _ => [] := by
    unfold FoldOp.lists
    rw [List.foldl_filterMap]
    congr 1
    funext lists e
    cases e with
    | onElement c x => rfl
    | partialMerge c i n => exact (Function.update_eq_self c.handle lists).symm
    | fullMerge c n => exact (Function.update_eq_self c.handle lists).symm
  rw [happly, foldl_apply, List.nil_append]

variable [LawfulMessage A.Input] [LawfulMessage A.Accumulator] {cf : ColumnFamily}
  (hop : cf.mergeOperator = some (Rocks.makeAggregatorMerge A)) {p p' : Pending Bytes}
include hop

theorem spoiled_onEntry (hA : A.Unmergeable) {e : IncrementalEvent A.Input} (hp : Spoiled A p)
    (h : e.onEntry cf p = .ok p') : Spoiled A p' := by
  cases e with
  | onElement c x =>
    cases h
    exact hp.push x
  | partialMerge c i n => exact hp.combine hop hA h
  | fullMerge c n => exact hp.settle hop hA h

end IncrementalEvent

section runs

variable {IN OUT : Type} [Message IN] [Message (ProstOption OUT)] {init : IN → OUT}
  {agg : IN → OUT → OUT}

instance [LawfulMessage IN] : LawfulMessage (IncrementalWindowAggregator init agg).Input :=
  inferInstanceAs (LawfulMessage IN)

instance [LawfulMessage (ProstOption OUT)] :
    LawfulMessage (IncrementalWindowAggregator init agg).Accumulator :=
  inferInstanceAs (LawfulMessage (ProstOption OUT))

theorem unmergeable : (IncrementalWindowAggregator init agg).Unmergeable := nofun

theorem fold_eq_aggregated (l : List IN) :
    (IncrementalWindowAggregator init agg).fold l = ⟨aggregated init agg l⟩ := by
  have hloop : ∀ (xs : List IN) (r : OUT), xs.foldl (IncrementalWindowAggregator init agg).add
      (⟨some r⟩ : ProstOption OUT) = ⟨some (xs.foldl (fun acc y => agg y acc) r)⟩ := by
    intro xs
    induction xs with
    | nil => exact fun r => rfl
    | cons x xs ih => exact fun r => ih (agg x r)
  cases l with
  | nil => rfl
  | cons x xs => exact hloop xs (init x)

theorem intoResult_of_aggregated {l : List IN} {r : OUT} (h : aggregated init agg l = some r) :
    (IncrementalWindowAggregator init agg).accumulatorIntoResult
      ((IncrementalWindowAggregator init agg).fold l) = .ok r := by
  rw [fold_eq_aggregated, h]
  rfl

variable {db db' : Rocks} {cf : ColumnFamily}

/-- An event changes the entry of its window. -/
theorem Rocks.windowStep_eq (hcf : db.cfs "incremental_window_aggregating_state" = some cf)
    (e : IncrementalEvent IN) :
    db.windowStep init agg e = (do
      let p ← IncrementalEvent.onEntry (A := IncrementalWindowAggregator init agg) cf
        (cf.data e.ctx.handle.metakeys) e
      pure (db.setCf e.ctx.handle.id (cf.set e.ctx.handle.metakeys p))) := by
  cases e with
  | onElement c x =>
    exact aggregatorAggregate_eq (A := IncrementalWindowAggregator init agg) (h := c.handle) hcf x
  | partialMerge c i n => exact rework_eq hcf _ _
  | fullMerge c n => exact rework_eq hcf _ _

/-- `result`, where the entry reads as `b`. -/
theorem Rocks.result_eq (hcf : db.cfs "incremental_window_aggregating_state" = some cf)
    (c : WindowContext) :
    db.result init agg c = (do
      let b ← (cf.data c.handle.metakeys).value (cf.merge c.handle.metakeys)
      readAggregate (IncrementalWindowAggregator init agg) b) := by
  unfold result aggregatorGet
  rw [Handle.serializeMetakeys_eq, ok_bind, get_eq (show db.cfs c.handle.id = _ from hcf)]

variable (init agg) in
/-- The entry of the window is spoiled. -/
def Rocks.SpoiledAt (db : Rocks) (c : WindowContext) : Prop :=
  ∃ cf, db.cfs "incremental_window_aggregating_state" = some cf ∧
    cf.mergeOperator = some (Rocks.makeAggregatorMerge (IncrementalWindowAggregator init agg)) ∧
    Spoiled (IncrementalWindowAggregator init agg) (cf.data c.handle.metakeys)

variable [LawfulMessage IN] [LawfulMessage (ProstOption OUT)]

/-- It stays so, whatever happens to this window and the others. -/
theorem Rocks.SpoiledAt.step {c : WindowContext} (hs : SpoiledAt init agg db c)
    {e : IncrementalEvent IN} (h : db.windowStep init agg e = .ok db') :
    SpoiledAt init agg db' c := by
  obtain ⟨cf, hcf, hop, hspoiled⟩ := hs
  rw [windowStep_eq hcf] at h
  cases hp : IncrementalEvent.onEntry (A := IncrementalWindowAggregator init agg) cf
      (cf.data e.ctx.handle.metakeys) e with
  | error f =>
    rw [hp] at h
    cases h
  | ok p =>
    rw [hp] at h
    cases h
    refine ⟨cf.set e.ctx.handle.metakeys p, by simp [setCf, WindowContext.handle], hop, ?_⟩
    by_cases hkey : c.handle.metakeys = e.ctx.handle.metakeys
    · have hid : c.handle.id = e.ctx.handle.id := rfl
      obtain rfl := WindowContext.handle_inj (Handle.metakeys_inj hid hkey)
      simpa [ColumnFamily.set] using IncrementalEvent.spoiled_onEntry hop unmergeable hspoiled hp
    · simpa [ColumnFamily.set, hkey] using hspoiled

theorem Rocks.SpoiledAt.run {c : WindowContext} (events : List (IncrementalEvent IN))
    (hs : SpoiledAt init agg db c)
    (h : events.foldlM (Rocks.windowStep init agg) db = .ok db') : SpoiledAt init agg db' c := by
  induction events generalizing db with
  | nil =>
    cases h
    exact hs
  | cons e events ih =>
    rw [List.foldlM_cons] at h
    cases hstep : db.windowStep init agg e with
    | error f =>
      rw [hstep] at h
      cases h
    | ok db₁ =>
      rw [hstep] at h
      exact ih (hs.step hstep) h

/-- The result of a spoiled window is a panic. -/
theorem Rocks.SpoiledAt.result {c : WindowContext} (hs : SpoiledAt init agg db c) (r : OUT) :
    db.result init agg c ≠ .ok r := by
  obtain ⟨cf, hcf, hop, hspoiled⟩ := hs
  obtain ⟨f, hf⟩ := hspoiled.value hop unmergeable
  rw [result_eq hcf, hf]
  nofun

variable (init agg) in
/-- All windows have their elements, and can be merged. -/
def Rocks.CleanWindows (db : Rocks) (lists : Handle (Prim 8) (Prim 8) → List IN) : Prop :=
  Rocks.KeepsLists (Rocks.makeAggregatorMerge (IncrementalWindowAggregator init agg))
    (Clean (IncrementalWindowAggregator init agg)) ["incremental_window_aggregating_state"] db lists

variable {lists : Handle (Prim 8) (Prim 8) → List IN}

omit [LawfulMessage IN] [LawfulMessage (ProstOption OUT)] in
theorem Rocks.CleanWindows.family (hdb : CleanWindows init agg db lists) :
    ∃ cf, db.cfs "incremental_window_aggregating_state" = some cf ∧
      cf.mergeOperator = some (Rocks.makeAggregatorMerge (IncrementalWindowAggregator init agg)) ∧
      ∀ c : WindowContext, db.entry c = cf.data c.handle.metakeys ∧
        Clean (IncrementalWindowAggregator init agg) (cf.data c.handle.metakeys)
          (lists c.handle) := by
  have hmem : ∀ c : WindowContext, c.handle.id ∈ ["incremental_window_aggregating_state"] :=
    fun c => List.mem_singleton.mpr rfl
  obtain ⟨cf, hcf, hop, -⟩ := KeepsLists.cf hdb (hmem ⟨0, 0⟩)
  refine ⟨cf, hcf, hop, fun c => ⟨?_, ?_⟩⟩
  · unfold entry
    rw [show db.cfs c.handle.id = _ from hcf]
  · obtain ⟨cf', hcf', -, hclean⟩ := KeepsLists.cf hdb (hmem c)
    cases hcf.symm.trans hcf'
    exact hclean

/-- **A step whose merge is at the front succeeds and keeps the windows clean.** -/
theorem Rocks.CleanWindows.step (hdb : CleanWindows init agg db lists) {e : IncrementalEvent IN}
    (hfront : db.AtFront e) :
    ∃ db', db.windowStep init agg e = .ok db' ∧ CleanWindows init agg db' (e.apply lists) := by
  obtain ⟨cf, hcf, hop, hentry⟩ := hdb.family
  obtain ⟨heq, hclean⟩ := hentry e.ctx
  have hstep : ∃ p, IncrementalEvent.onEntry (A := IncrementalWindowAggregator init agg) cf
      (cf.data e.ctx.handle.metakeys) e = .ok p ∧
      Clean (IncrementalWindowAggregator init agg) p (e.onList (lists e.ctx.handle)) := by
    cases e with
    | onElement c x => exact ⟨_, rfl, hclean.push x⟩
    | partialMerge c i n =>
      rw [AtFront, show db.entry c = _ from heq] at hfront
      exact hclean.combine hop hfront
    | fullMerge c n => exact hclean.settle hop
  obtain ⟨p, hp, hclean'⟩ := hstep
  refine ⟨_, by rw [windowStep_eq hcf, hp]; rfl, ?_⟩
  exact Rocks.KeepsLists.replace hdb (h := e.ctx.handle) hcf hop hclean'

/-- **A merge that is not at the front spoils its window**, unless it panics at once. -/
theorem Rocks.CleanWindows.spoiled (hdb : CleanWindows init agg db lists) {e : IncrementalEvent IN}
    (hfront : ¬db.AtFront e) (h : db.windowStep init agg e = .ok db') :
    SpoiledAt init agg db' e.ctx ∧ lists e.ctx.handle ≠ [] := by
  obtain ⟨cf, hcf, hop, hentry⟩ := hdb.family
  cases e with
  | onElement c x => exact absurd trivial hfront
  | fullMerge c n => exact absurd trivial hfront
  | partialMerge c i n =>
    obtain ⟨heq, hclean⟩ := hentry c
    rw [AtFront, heq, Classical.not_imp, not_and_or] at hfront
    obtain ⟨hrange, hbehind⟩ := hfront
    rcases hclean with ⟨habsent, -⟩ | ⟨bs, os, first, vs, xs, hp, -, -, hxs, hl, -⟩
    · rw [habsent, Pending.absent, List.length_nil] at hrange
      omega
    have hbs : bs ≠ [] ∨ i ≠ 0 := by
      refine hbehind.imp_left fun hbase hnil => hbase ?_
      have hb := hp.base
      rw [hnil] at hb
      exact Option.toList_eq_nil_iff.mp hb
    have hmerge : db.tryPartialMerge c.handle.id c.handle.metakeys i n = .ok db' := h
    rw [tryPartialMerge, rework_eq (show db.cfs c.handle.id = _ from hcf)] at hmerge
    cases hrun : (cf.data c.handle.metakeys).combine (cf.merge c.handle.metakeys) i n with
    | error f =>
      rw [hrun] at hmerge
      cases hmerge
    | ok p =>
      rw [hrun] at hmerge
      cases hmerge
      refine ⟨⟨cf.set c.handle.metakeys p, by simp [setCf, WindowContext.handle], hop, ?_⟩, ?_⟩
      · simpa [ColumnFamily.set, IncrementalEvent.ctx] using
          hp.spoiled_of_combine hop hrange hbs hrun
      · rw [show lists (IncrementalEvent.partialMerge c i n).ctx.handle = _ from hl]
        exact List.append_ne_nil_of_left_ne_nil hxs vs

/-- A clean window has its result. -/
theorem Rocks.CleanWindows.result (hdb : CleanWindows init agg db lists) {c : WindowContext}
    {r : OUT} (hr : aggregated init agg (lists c.handle) = some r) :
    db.result init agg c = .ok r := by
  obtain ⟨cf, hcf, hop, hentry⟩ := hdb.family
  have hne : lists c.handle ≠ [] := by
    intro hnil
    rw [hnil] at hr
    cases hr
  rw [result_eq hcf, (hentry c).2.value hop hne, ok_bind, readAggregate_acc]
  exact intoResult_of_aggregated hr

/-- A run from clean windows: by induction on the events, with the step that spoils a window as the
one that decides. -/
theorem Rocks.CleanWindows.run_iff (hdb : CleanWindows init agg db lists)
    (events : List (IncrementalEvent IN)) :
    (∃ db', events.foldlM (Rocks.windowStep init agg) db = .ok db' ∧
      ∀ c r, aggregated init agg (events.foldl IncrementalEvent.apply lists c.handle) = some r →
        db'.result init agg c = .ok r) ↔ db.MergesAtFront init agg events := by
  induction events generalizing db lists with
  | nil => exact ⟨fun _ => trivial, fun _ => ⟨db, rfl, fun c r hr => hdb.result hr⟩⟩
  | cons e events ih =>
    rw [List.foldlM_cons, List.foldl_cons]
    by_cases hfront : db.AtFront e
    · obtain ⟨db₁, hstep, hclean⟩ := hdb.step hfront
      rw [hstep, ok_bind, ih hclean]
      refine ⟨fun h => ⟨hfront, fun db' hdb' => ?_⟩, fun h => h.2 db₁ hstep⟩
      cases hstep.symm.trans hdb'
      exact h
    · refine ⟨fun ⟨db', hrun, hresult⟩ => ?_, fun h => absurd h.1 hfront⟩
      cases hstep : db.windowStep init agg e with
      | error f =>
        rw [hstep] at hrun
        cases hrun
      | ok db₁ =>
        rw [hstep, ok_bind] at hrun
        obtain ⟨hspoiled, hne⟩ := hdb.spoiled hfront hstep
        -- the window has elements, so it should have a result
        have hlist : events.foldl IncrementalEvent.apply (e.apply lists) e.ctx.handle ≠ [] := by
          rw [IncrementalEvent.foldl_apply, IncrementalEvent.apply, Function.update_self]
          cases e <;> simp_all [IncrementalEvent.onList]
        obtain ⟨x, xs, hcons⟩ := List.exists_cons_of_ne_nil hlist
        have hsome := hresult e.ctx _ (by rw [hcons]; rfl)
        exact absurd hsome ((hspoiled.run events hrun).result _)

omit [LawfulMessage IN] [LawfulMessage (ProstOption OUT)] in
theorem cleanWindows_windows :
    Rocks.CleanWindows init agg (Rocks.windows init agg) fun _ => [] := by
  intro h hid
  have hreg := fun db i id => Rocks.createColumnFamilyIfDoesntExist_cfs db i id
    (some (Rocks.makeAggregatorMerge (IncrementalWindowAggregator init agg)))
  refine ⟨(some _, .absent), ?_, rfl, .inl ⟨rfl, rfl⟩⟩
  unfold Rocks.slot Rocks.windows Rocks.aggregators Rocks.withOperator
  rw [foldl_getOrInsert hreg hid (.inl rfl)]
  rfl

omit [LawfulMessage IN] [LawfulMessage (ProstOption OUT)] in
/-- In memory every run succeeds, and every window with elements has its result. -/
theorem InMemory.run_windows (events : List (IncrementalEvent IN)) :
    ∃ mem, events.foldlM (InMemory.windowStep init agg) (InMemory.windows OUT) = .ok mem ∧
      ∀ c r, aggregated init agg (IncrementalEvent.elements c events) = some r →
        mem.result init agg c = .ok r := by
  -- the events without the merges are operations of the aggregator
  have hrun : ∀ (events : List (IncrementalEvent IN)) (mem : InMemory (ProstOption OUT)),
      events.foldlM (InMemory.windowStep init agg) mem =
        (events.filterMap IncrementalEvent.op?).foldlM
          (InMemory.execAggregator (IncrementalWindowAggregator init agg)) mem := by
    intro events
    induction events with
    | nil => exact fun mem => rfl
    | cons e events ih =>
      intro mem
      cases e with
      | onElement c x => exact congrArg (_ >>= ·) (funext ih)
      | partialMerge c i n => exact ih mem
      | fullMerge c n => exact ih mem
  obtain ⟨mem, hmem, hkeeps⟩ := InMemory.run_aggregator (A := IncrementalWindowAggregator init agg)
    (IncrementalEvent.handle_id_mem events)
  refine ⟨mem, (hrun events _).trans hmem, fun c r hr => ?_⟩
  have hget := InMemory.aggregatorGet_eq hkeeps (h := c.handle) (List.mem_singleton.mpr rfl)
  rw [← IncrementalEvent.lists_ops events c] at hr
  exact hget.trans (intoResult_of_aggregated hr)

/-- **Incremental windows on Rocks.** For all `init` and `agg`, all elements of all windows and all
groupings in which RocksDB merges pending operands: nothing panics and every window with elements
has the result `agg(x_n, .. agg(x_2, init(x_1)))` if and only if every partial merge is of operands
with nothing in front of them, neither a full value nor an operand. In memory this is always the
result. -/
theorem incremental_window_iff (init : IN → OUT) (agg : IN → OUT → OUT)
    (events : List (IncrementalEvent IN)) :
    ((∃ db, events.foldlM (Rocks.windowStep init agg) (Rocks.windows init agg) = .ok db ∧
        ∀ c r, aggregated init agg (IncrementalEvent.elements c events) = some r →
          db.result init agg c = .ok r) ↔
      (Rocks.windows init agg).MergesAtFront init agg events) ∧
    ∃ mem, events.foldlM (InMemory.windowStep init agg) (InMemory.windows OUT) = .ok mem ∧
      ∀ c r, aggregated init agg (IncrementalEvent.elements c events) = some r →
        mem.result init agg c = .ok r := by
  refine ⟨?_, InMemory.run_windows events⟩
  rw [← cleanWindows_windows.run_iff events]
  simp only [IncrementalEvent.foldl_apply, List.nil_append]

end runs

/-- A `bool` that may be missing, as a message with one optional message in it. -/
instance : Message (ProstOption Bool) where
  encodeLengthDelimited
    | ⟨none⟩ => [0]
    | ⟨some false⟩ => [2, 10, 0]
    | ⟨some true⟩ => [4, 10, 2, 8, 1]
  decodeLengthDelimited
    | 0 :: rest => some (⟨none⟩, rest)
    | 2 :: 10 :: 0 :: rest => some (⟨some false⟩, rest)
    | 4 :: 10 :: 2 :: 8 :: x :: rest => some (⟨some (x != 0)⟩, rest)
    | _ => none

instance : LawfulMessage (ProstOption Bool) where
  round_trip a rest := by
    rcases a with ⟨_ | _ | _⟩ <;> rfl
  encode_ne_nil a := by
    rcases a with ⟨_ | _ | _⟩ <;> simp [Message.encodeLengthDelimited]

/-- A window over `bool`s: whether the last element is `true` and those before it were not. -/
def onlyLast (x acc : Bool) : Bool := x && !acc

/-- The window of key 3 and index 0. -/
def someWindow : WindowContext := ⟨3, 0⟩

/-- Two elements are merged, then a third comes. -/
def frontRun : List (IncrementalEvent Bool) :=
  [.onElement someWindow true, .onElement someWindow true, .partialMerge someWindow 0 2,
   .onElement someWindow true]

theorem mergesAtFront_frontRun :
    (Rocks.windows id onlyLast).MergesAtFront id onlyLast frontRun := by
  refine ⟨trivial, fun _ h => ?_⟩
  cases h
  refine ⟨trivial, fun _ h => ?_⟩
  cases h
  refine ⟨fun _ => ⟨rfl, rfl⟩, fun _ h => ?_⟩
  cases h
  exact ⟨trivial, fun _ _ => trivial⟩

theorem incremental_window_iff_front :
    (Rocks.windows id onlyLast).MergesAtFront id onlyLast frontRun ∧
      ∃ db, frontRun.foldlM (Rocks.windowStep id onlyLast) (Rocks.windows id onlyLast) = .ok db ∧
        db.result id onlyLast someWindow = .ok true := by
  obtain ⟨db, hrun, hresult⟩ :=
    (incremental_window_iff id onlyLast frontRun).1.mpr mergesAtFront_frontRun
  exact ⟨mergesAtFront_frontRun, db, hrun, hresult someWindow true rfl⟩

/-- The second and the third of three elements are merged. -/
def behindRun : List (IncrementalEvent Bool) :=
  [.onElement someWindow true, .onElement someWindow true, .onElement someWindow true,
   .partialMerge someWindow 1 2]

/-- **Then the result panics.** -/
theorem incremental_window_panics :
    ∃ db, behindRun.foldlM (Rocks.windowStep id onlyLast) (Rocks.windows id onlyLast) = .ok db ∧
      aggregated id onlyLast (IncrementalEvent.elements someWindow behindRun) = some true ∧
      db.result id onlyLast someWindow = .error (.panic "not implemented") :=
  ⟨_, rfl, rfl, rfl⟩

end Arcon.State
