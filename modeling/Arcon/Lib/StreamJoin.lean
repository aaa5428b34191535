import Mathlib.Data.List.Nodup
import Mathlib.Logic.Function.Basic

/-!
# Joining two streams

Rows `α` and rows `β` arrive one at a time, in any order, each with a key. Of the rows `α` the last
one of every key is kept. A row `β` is joined with the kept row of its key (`late`); if there is
none it waits for one, and is joined with it when it comes (`early`).

The reference compares every row with all rows before it. It needs no state: what a row is joined
with is read off the rows that came before.

* `results_eq`: what a run puts out, row by row, for any rows.
* **`results_nestedLoop`**: if no two rows `α` have the same key, a run puts out the nested loop
  over all pairs of an earlier and a later row, each pair that matches once.
-/

/-- How two streams are joined. -/
structure StreamJoin (κ α β γ : Type) where
  left : α → κ
  right : β → κ
  early : α → β → Option γ
  late : α → β → Option γ

namespace StreamJoin

variable {κ α β γ : Type}

/-- The kept row of every key, and the rows that wait. -/
structure Tables (κ α β : Type) where
  rows : κ → Option α
  waiting : κ → List β

/-- Nothing has arrived. -/
def Tables.empty : Tables κ α β := ⟨fun _ => none, fun _ => []⟩

variable (J : StreamJoin κ α β γ) [DecidableEq κ]

/-- A row arrives. -/
def next (t : Tables κ α β) : α ⊕ β → Tables κ α β
  | .inl a =>
    ⟨Function.update t.rows (J.left a) (some a), Function.update t.waiting (J.left a) []⟩
  | .inr b =>
    if (t.rows (J.right b)).isSome then t
    else ⟨t.rows, Function.update t.waiting (J.right b) (t.waiting (J.right b) ++ [b])⟩

/-- What is put out when a row arrives. -/
def emit (t : Tables κ α β) : α ⊕ β → List γ
  | .inl a => (t.waiting (J.left a)).filterMap (J.early a)
  | .inr b => ((t.rows (J.right b)).bind fun a => J.late a b).toList

/-- What is put out for some rows. -/
def results (t : Tables κ α β) : List (α ⊕ β) → List γ
  | [] => []
  | x :: xs => J.emit t x ++ results (J.next t x) xs

theorem length_waiting_next (t : Tables κ α β) (x : α ⊕ β) (k : κ) :
    ((J.next t x).waiting k).length ≤ (t.waiting k).length + 1 := by
  cases x with
  | inl a =>
    show (Function.update t.waiting (J.left a) [] k).length ≤ _
    by_cases hk : k = J.left a
    · rw [hk, Function.update_self]
      simp
    · rw [Function.update_of_ne hk]
      omega
  | inr b =>
    rw [next]
    split_ifs
    · omega
    · show (Function.update t.waiting (J.right b) _ k).length ≤ _
      by_cases hk : k = J.right b
      · rw [hk, Function.update_self]
        simp
      · rw [Function.update_of_ne hk]
        omega

/-! ## By the rows that came before -/

/-- The last row of a key. -/
def lastRow (k : κ) : List (α ⊕ β) → Option α
  | [] => none
  | .inl a :: rest => (lastRow k rest).or (if J.left a = k then some a else none)
  | .inr _ :: rest => lastRow k rest

/-- The rows of a key that wait for one to join with. -/
def rowsOf (k : κ) (xs : List (α ⊕ β)) : List β :=
  xs.filterMap fun
    | .inl _ => none
    | .inr b => if J.right b = k then some b else none

/-- What a row is joined with, by the rows before it. -/
def joinedAt (before : List (α ⊕ β)) : α ⊕ β → List γ
  | .inl a =>
    if (J.lastRow (J.left a) before).isSome then []
    else (J.rowsOf (J.left a) before).filterMap (J.early a)
  | .inr b => ((J.lastRow (J.right b) before).bind fun a => J.late a b).toList

/-- The same for every row of a stream. -/
def joinedFrom (before : List (α ⊕ β)) : List (α ⊕ β) → List γ
  | [] => []
  | x :: xs => J.joinedAt before x ++ joinedFrom (before ++ [x]) xs

variable {J}

theorem lastRow_snoc_inl (k : κ) (before : List (α ⊕ β)) (a : α) :
    J.lastRow k (before ++ [.inl a]) = if J.left a = k then some a else J.lastRow k before := by
  induction before with
  | nil => simp [lastRow]
  | cons x before ih =>
    cases x with
    | inl a' =>
      rw [List.cons_append, lastRow, lastRow, ih]
      split_ifs <;> rfl
    | inr b => exact ih

theorem lastRow_snoc_inr (k : κ) (before : List (α ⊕ β)) (b : β) :
    J.lastRow k (before ++ [.inr b]) = J.lastRow k before := by
  induction before with
  | nil => rfl
  | cons x before ih =>
    cases x with
    | inl a =>
      rw [List.cons_append, lastRow, lastRow, ih]
    | inr b' => exact ih

theorem rowsOf_snoc_inl (k : κ) (before : List (α ⊕ β)) (a : α) :
    J.rowsOf k (before ++ [.inl a]) = J.rowsOf k before := by
  unfold rowsOf
  rw [List.filterMap_append]
  exact List.append_nil _

theorem rowsOf_snoc_inr (k : κ) (before : List (α ⊕ β)) (b : β) :
    J.rowsOf k (before ++ [.inr b]) =
      J.rowsOf k before ++ if J.right b = k then [b] else [] := by
  by_cases hk : J.right b = k
  · simp [rowsOf, hk]
  · simp [rowsOf, hk]

/-- What the tables hold after some rows. -/
structure Holds (J : StreamJoin κ α β γ) (t : Tables κ α β) (before : List (α ⊕ β)) : Prop where
  rows : ∀ k, t.rows k = J.lastRow k before
  waiting : ∀ k, t.waiting k = if (J.lastRow k before).isSome then [] else J.rowsOf k before

theorem Holds.emit {t : Tables κ α β} {before : List (α ⊕ β)} (h : Holds J t before) (x : α ⊕ β) :
    J.emit t x = J.joinedAt before x := by
  cases x with
  | inl a =>
    rw [StreamJoin.emit, joinedAt, h.waiting]
    split_ifs <;> rfl
  | inr b => rw [StreamJoin.emit, joinedAt, h.rows]

theorem Holds.next {t : Tables κ α β} {before : List (α ⊕ β)} (h : Holds J t before) (x : α ⊕ β) :
    Holds J (J.next t x) (before ++ [x]) := by
  cases x with
  | inl a =>
    refine ⟨fun k => ?_, fun k => ?_⟩
    · rw [lastRow_snoc_inl, ← h.rows]
      by_cases hk : J.left a = k
      · rw [if_pos hk, ← hk]
        exact Function.update_self ..
      · rw [if_neg hk]
        exact Function.update_of_ne (Ne.symm hk) ..
    · rw [lastRow_snoc_inl, rowsOf_snoc_inl]
      by_cases hk : J.left a = k
      · rw [if_pos hk, ← hk]
        exact Function.update_self ..
      · rw [if_neg hk, ← h.waiting]
        exact Function.update_of_ne (Ne.symm hk) ..
  | inr b =>
    have hrows : ∀ k, t.rows k = J.lastRow k (before ++ [.inr b]) := fun k => by
      rw [lastRow_snoc_inr, h.rows]
    rw [StreamJoin.next]
    split_ifs with hsome
    · -- the row is joined and does not wait
      refine ⟨hrows, fun k => ?_⟩
      rw [lastRow_snoc_inr, h.waiting, rowsOf_snoc_inr]
      split_ifs with hlast hk
      · rfl
      · rw [← hk, ← h.rows] at hlast
        exact absurd hsome hlast
      · rw [List.append_nil]
    · refine ⟨hrows, fun k => ?_⟩
      rw [lastRow_snoc_inr, rowsOf_snoc_inr]
      by_cases hk : J.right b = k
      · subst hk
        rw [if_pos rfl, if_neg (by rwa [← h.rows])]
        refine (Function.update_self ..).trans ?_
        rw [h.waiting, if_neg (by rwa [← h.rows])]
      · rw [if_neg hk, List.append_nil, ← h.waiting]
        exact Function.update_of_ne (Ne.symm hk) ..

/-- **What a run puts out**, by the rows before each row. -/
theorem results_eq {t : Tables κ α β} {before : List (α ⊕ β)} (h : Holds J t before)
    (xs : List (α ⊕ β)) : J.results t xs = J.joinedFrom before xs := by
  induction xs generalizing t before with
  | nil => rfl
  | cons x xs ih =>
    rw [results, joinedFrom, h.emit, ih (h.next x)]

/-! ## The nested loop -/

/-- What an earlier and a later row give together. -/
def joined (J : StreamJoin κ α β γ) : α ⊕ β → α ⊕ β → Option γ
  | .inl a, .inr b => if J.left a = J.right b then J.late a b else none
  | .inr b, .inl a => if J.left a = J.right b then J.early a b else none
  | .inl _, .inl _ | .inr _, .inr _ => none

/-- Every row with all rows before it. -/
def nestedLoop (J : StreamJoin κ α β γ) (before : List (α ⊕ β)) : List (α ⊕ β) → List γ
  | [] => []
  | x :: xs => before.filterMap (J.joined · x) ++ nestedLoop J (before ++ [x]) xs

/-- The keys of the rows `α`. -/
def keys (J : StreamJoin κ α β γ) (xs : List (α ⊕ β)) : List κ :=
  xs.filterMap fun
    | .inl a => some (J.left a)
    | .inr _ => none

omit [DecidableEq κ] in
theorem keys_append (xs ys : List (α ⊕ β)) : J.keys (xs ++ ys) = J.keys xs ++ J.keys ys :=
  List.filterMap_append

theorem lastRow_eq_none {k : κ} {before : List (α ⊕ β)} (hk : k ∉ J.keys before) :
    J.lastRow k before = none := by
  induction before with
  | nil => rfl
  | cons x before ih =>
    cases x with
    | inl a =>
      have hk' : k ∉ J.left a :: J.keys before := hk
      rw [List.mem_cons, not_or] at hk'
      rw [lastRow, ih hk'.2, if_neg (Ne.symm hk'.1)]
      rfl
    | inr b => exact ih hk

/-- A row `β` with all rows before it. -/
theorem filterMap_joined_inr {before : List (α ⊕ β)} (hnodup : (J.keys before).Nodup) (b : β) :
    before.filterMap (J.joined · (.inr b)) =
      ((J.lastRow (J.right b) before).bind fun a => J.late a b).toList := by
  induction before with
  | nil => rfl
  | cons x before ih =>
    cases x with
    | inl a =>
      have hnodup : (J.left a :: J.keys before).Nodup := hnodup
      rw [List.nodup_cons] at hnodup
      rw [List.filterMap_cons, ih hnodup.2, lastRow, joined]
      by_cases hk : J.left a = J.right b
      · rw [lastRow_eq_none (hk ▸ hnodup.1), if_pos hk, if_pos hk]
        cases hlate : J.late a b <;> simp [hlate]
      · rw [if_neg hk, if_neg hk, Option.or_none]
    | inr b' => exact ih hnodup

/-- A row `α` with all rows before it. -/
theorem filterMap_joined_inl (before : List (α ⊕ β)) (a : α) :
    before.filterMap (J.joined · (.inl a)) =
      (J.rowsOf (J.left a) before).filterMap (J.early a) := by
  unfold rowsOf
  rw [List.filterMap_filterMap]
  refine List.filterMap_congr fun x _ => ?_
  cases x with
  | inl a' => rfl
  | inr b =>
    rw [joined]
    by_cases hk : J.left a = J.right b
    · simp [hk]
    · simp [hk, Ne.symm hk]

/-- **Without two rows of one key** a run is the nested loop. -/
theorem results_nestedLoop {t : Tables κ α β} {before : List (α ⊕ β)} (h : Holds J t before)
    (xs : List (α ⊕ β)) (hnodup : (J.keys (before ++ xs)).Nodup) :
    J.results t xs = J.nestedLoop before xs := by
  rw [results_eq h]
  clear h
  induction xs generalizing before with
  | nil => rfl
  | cons x xs ih =>
    have hsplit : (J.keys (before ++ [x] ++ xs)).Nodup := by simpa using hnodup
    rw [joinedFrom, nestedLoop, ih hsplit]
    congr 1
    rw [keys_append, List.nodup_append] at hsplit
    cases x with
    | inl a =>
      have hnot : J.left a ∉ J.keys before := by
        have hone := hsplit.1
        rw [keys_append, List.nodup_append] at hone
        intro hmem
        exact hone.2.2 _ hmem (J.left a) List.mem_cons_self rfl
      rw [joinedAt, lastRow_eq_none hnot, filterMap_joined_inl]
      rfl
    | inr b =>
      have hone := hsplit.1
      rw [keys_append, List.nodup_append] at hone
      rw [joinedAt, filterMap_joined_inr hone.1]

theorem holds_empty : Holds J .empty [] := ⟨fun _ => rfl, fun _ => rfl⟩

end StreamJoin
