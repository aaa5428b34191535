import Mathlib.Algebra.BigOperators.Group.List.Basic
import Mathlib.Tactic.Common

/-!
# Values with pending merge operands

A store with a merge operator does not compute a value when an operand arrives. It keeps the
operands behind the last full value (`Pending`) and merges them when it likes: a run of neighbouring
operands into one (`combine`), the full value with the first few operands (`settle`), everything
when the value is read (`value`).

A stored item `Denotes` an element of a monoid. If the operator computes the product of what it is
given (`Folds`), then it does not matter when and in which groups the operands are merged.

* `Pending.Holds`: the entry stands for this product.
* **`holds_combine`**, **`holds_settle`**: merging succeeds and changes nothing.
* **`value_of_holds`**: reading gives an item for the product.
* `Pending.Settled`: the full value has a property, as all results of the operator do.
-/

namespace Merging

variable {ε β M : Type}

/-- The last full value of a key and the operands that arrived since, in order. -/
structure Pending (β : Type) where
  base : Option β
  operands : List β

namespace Pending

/-- No value. -/
def absent : Pending β := ⟨none, []⟩

/-- A full value replaces all there was. -/
def put (b : β) : Pending β := ⟨some b, []⟩

/-- An operand arrives. -/
def push (p : Pending β) (b : β) : Pending β := ⟨p.base, p.operands ++ [b]⟩

variable (merge : Option β → List β → Except ε β)

/-- Merge the `n` operands from the `i`-th on into one, without a full value to start from. Where
there are no such operands, all stays as it is. -/
def combine (i n : Nat) (p : Pending β) : Except ε (Pending β) :=
  if 0 < n ∧ i + n ≤ p.operands.length then do
    let r ← merge none ((p.operands.drop i).take n)
    pure ⟨p.base, p.operands.take i ++ r :: p.operands.drop (i + n)⟩
  else pure p

/-- Merge the full value with the first `n` operands. -/
def settle (n : Nat) (p : Pending β) : Except ε (Pending β) :=
  if 0 < n ∧ n ≤ p.operands.length then do
    let r ← merge p.base (p.operands.take n)
    pure ⟨some r, p.operands.drop n⟩
  else pure p

/-- What a reader gets. -/
def value (p : Pending β) : Except ε (Option β) :=
  match p.operands with
  | [] => .ok p.base
  | ops => do
    let r ← merge p.base ops
    pure (some r)

end Pending

section meaning

variable [Monoid M] (Denotes : β → M → Prop)

/-- What a full value, or its absence, stands for. -/
def BaseDenotes : Option β → M → Prop
  | none, a => a = 1
  | some b, a => Denotes b a

/-- The operator computes products, as long as they fit. It is never called without operands. -/
structure Folds (merge : Option β → List β → Except ε β) (Fits : M → Prop) : Prop where
  prod : ∀ base ops a as, ops ≠ [] → BaseDenotes Denotes base a → List.Forall₂ Denotes ops as →
    Fits (a * as.prod) → ∃ r, merge base ops = .ok r ∧ Denotes r (a * as.prod)
  factor : ∀ a b c, Fits (a * b * c) → Fits b

/-- The entry stands for the product of its full value and its operands. -/
def Pending.Holds (p : Pending β) (x : M) : Prop :=
  ∃ a as, BaseDenotes Denotes p.base a ∧ List.Forall₂ Denotes p.operands as ∧ x = a * as.prod

variable {Denotes} {merge : Option β → List β → Except ε β} {Fits : M → Prop} {p : Pending β}
  {x y : M} {b : β}

/-- A full value and operands, as one list of items with the same product. -/
theorem BaseDenotes.append {base : Option β} {ops : List β} {a : M} {as : List M}
    (hbase : BaseDenotes Denotes base a) (hops : List.Forall₂ Denotes ops as) :
    ∃ bs, List.Forall₂ Denotes (base.toList ++ ops) bs ∧ bs.prod = a * as.prod := by
  cases base with
  | none => exact ⟨as, hops, by rw [show a = 1 from hbase, one_mul]⟩
  | some b => exact ⟨a :: as, .cons hbase hops, List.prod_cons⟩

theorem holds_absent : (Pending.absent : Pending β).Holds Denotes (1 : M) :=
  ⟨1, [], rfl, .nil, by simp⟩

theorem holds_put (h : Denotes b y) : (Pending.put b).Holds Denotes y :=
  ⟨y, [], h, .nil, by simp⟩

theorem holds_push (hp : p.Holds Denotes x) (h : Denotes b y) :
    (p.push b).Holds Denotes (x * y) := by
  obtain ⟨a, as, hbase, hops, rfl⟩ := hp
  refine ⟨a, as ++ [y], hbase, List.rel_append hops (.cons h .nil), ?_⟩
  rw [List.prod_append, List.prod_singleton, mul_assoc]

/-- **Merging neighbouring operands succeeds and changes nothing.** -/
theorem holds_combine (hm : Folds Denotes merge Fits) (hp : p.Holds Denotes x) (hx : Fits x)
    (i n : Nat) : ∃ p', p.combine merge i n = .ok p' ∧ p'.Holds Denotes x := by
  unfold Pending.combine
  split_ifs with hn
  swap
  · exact ⟨p, rfl, hp⟩
  obtain ⟨a, as, hbase, hops, rfl⟩ := hp
  -- the operands in three parts, and their meanings with them
  have hmid := List.forall₂_take n (List.forall₂_drop i hops)
  have hne : (p.operands.drop i).take n ≠ [] := by
    rw [← List.length_pos_iff, List.length_take, List.length_drop]
    omega
  have hsplit : as.prod =
      (as.take i).prod * ((as.drop i).take n).prod * (as.drop (i + n)).prod := by
    rw [← List.drop_drop, mul_assoc, ← List.prod_append, List.take_append_drop,
      ← List.prod_append, List.take_append_drop]
  have hfit : Fits (1 * ((as.drop i).take n).prod) := by
    rw [one_mul]
    refine hm.factor (a * (as.take i).prod) _ (as.drop (i + n)).prod ?_
    rw [hsplit] at hx
    simpa [mul_assoc] using hx
  obtain ⟨r, hr, hden⟩ := hm.prod none _ 1 _ hne rfl hmid hfit
  rw [hr]
  rw [one_mul] at hden
  refine ⟨_, rfl, a, as.take i ++ ((as.drop i).take n).prod :: as.drop (i + n), hbase,
    List.rel_append (List.forall₂_take i hops) (.cons hden (List.forall₂_drop _ hops)), ?_⟩
  rw [List.prod_append, List.prod_cons, hsplit, mul_assoc]

/-- **Merging the full value with operands succeeds and changes nothing.** -/
theorem holds_settle (hm : Folds Denotes merge Fits) (hp : p.Holds Denotes x) (hx : Fits x)
    (n : Nat) : ∃ p', p.settle merge n = .ok p' ∧ p'.Holds Denotes x := by
  unfold Pending.settle
  split_ifs with hn
  swap
  · exact ⟨p, rfl, hp⟩
  obtain ⟨a, as, hbase, hops, rfl⟩ := hp
  have hne : p.operands.take n ≠ [] := by
    rw [← List.length_pos_iff, List.length_take]
    omega
  have hsplit : as.prod = (as.take n).prod * (as.drop n).prod := by
    rw [← List.prod_append, List.take_append_drop]
  have hfit : Fits (a * (as.take n).prod) := by
    refine hm.factor 1 _ (as.drop n).prod ?_
    rwa [one_mul, mul_assoc, ← hsplit]
  obtain ⟨r, hr, hden⟩ := hm.prod p.base _ a _ hne hbase (List.forall₂_take n hops) hfit
  rw [hr]
  exact ⟨_, rfl, _, as.drop n, hden, List.forall₂_drop n hops, by rw [hsplit, mul_assoc]⟩

/-- **Reading gives an item for the product**, or nothing where there never was an item. -/
theorem value_of_holds (hm : Folds Denotes merge Fits) (hp : p.Holds Denotes x) (hx : Fits x) :
    (∃ r, p.value merge = .ok (some r) ∧ Denotes r x) ∨ (p.value merge = .ok none ∧ x = 1) := by
  obtain ⟨a, as, hbase, hops, rfl⟩ := hp
  unfold Pending.value
  cases hcase : p.operands with
  | nil =>
    rw [hcase, List.forall₂_nil_left_iff] at hops
    subst hops
    rw [List.prod_nil, mul_one]
    cases hb : p.base with
    | none =>
      rw [hb] at hbase
      exact .inr ⟨rfl, hbase⟩
    | some b =>
      rw [hb] at hbase
      exact .inl ⟨b, rfl, hbase⟩
  | cons op ops =>
    obtain ⟨r, hr, hden⟩ := hm.prod p.base p.operands a as (by simp [hcase]) hbase hops hx
    rw [hcase] at hr
    refine .inl ⟨r, ?_, hden⟩
    dsimp only
    rw [hr]
    rfl

end meaning

/-! ## What all results of the operator have in common -/

section settled

variable {P : β → Prop} {merge : Option β → List β → Except ε β} {p p' : Pending β}

/-- The full value, where there is one, has the property `P`. -/
def Pending.Settled (P : β → Prop) (p : Pending β) : Prop := ∀ b, p.base = some b → P b

theorem settled_absent : (Pending.absent : Pending β).Settled P := nofun

theorem settled_combine (hp : p.Settled P) {i n : Nat}
    (h : p.combine merge i n = .ok p') : p'.Settled P := by
  unfold Pending.combine at h
  split_ifs at h
  · cases hr : merge none ((p.operands.drop i).take n) with
    | ok r =>
      rw [hr] at h
      cases h
      exact hp
    | error e =>
      rw [hr] at h
      cases h
  · cases h
    exact hp

theorem settled_settle (hP : ∀ base ops r, merge base ops = .ok r → P r) (hp : p.Settled P)
    {n : Nat} (h : p.settle merge n = .ok p') : p'.Settled P := by
  unfold Pending.settle at h
  split_ifs at h
  · cases hr : merge p.base (p.operands.take n) with
    | ok r =>
      rw [hr] at h
      cases h
      rintro b ⟨⟩
      exact hP _ _ _ hr
    | error e =>
      rw [hr] at h
      cases h
  · cases h
    exact hp

/-- What is read has the property. -/
theorem value_settled (hP : ∀ base ops r, merge base ops = .ok r → P r) (hp : p.Settled P) {b : β}
    (h : p.value merge = .ok (some b)) : P b := by
  unfold Pending.value at h
  split at h
  · injection h with h
    exact hp b h
  · cases hr : merge p.base p.operands with
    | ok r =>
      rw [hr] at h
      cases h
      exact hP _ _ _ hr
    | error e =>
      rw [hr] at h
      cases h

end settled

end Merging
