import Mathlib.Data.Multiset.Filter
import Mathlib.Data.Multiset.AddSub
import Mathlib.Tactic.Order

/-!
# Agendas

An agenda is a multiset of entries, each with the time at which it is due. Moving to a time `t`
fires the entries due by `t`, in the order of their times, those with equal times in any order
(`Fires`), and leaves the later ones (`later`). Two moves in a row are one (`Fires.append`,
`later_later`), and it does not matter what the entries are (`Fires.map`, `later_map`).
-/

namespace Agenda

variable {E : Type}

/-- The entries due by `t`. -/
def due (t : Nat) (M : Multiset (Nat × E)) : Multiset (Nat × E) := M.filter fun e => e.1 ≤ t

/-- The entries due after `t`. -/
def later (t : Nat) (M : Multiset (Nat × E)) : Multiset (Nat × E) := M.filter fun e => t < e.1

/-- `l` runs through the entries due by `t` in the order of their times. -/
structure Fires (M : Multiset (Nat × E)) (t : Nat) (l : List (Nat × E)) : Prop where
  sorted : l.Pairwise fun a b => a.1 ≤ b.1
  mem : (l : Multiset (Nat × E)) = due t M

variable {M : Multiset (Nat × E)} {t t' : Nat} {l l' : List (Nat × E)}

theorem mem_due {e : Nat × E} : e ∈ due t M ↔ e ∈ M ∧ e.1 ≤ t := Multiset.mem_filter

theorem mem_later {e : Nat × E} : e ∈ later t M ↔ e ∈ M ∧ t < e.1 := Multiset.mem_filter

theorem due_add_later (t : Nat) (M : Multiset (Nat × E)) : due t M + later t M = M := by
  have hlater : later t M = M.filter fun e => ¬e.1 ≤ t := by
    unfold later
    exact Multiset.filter_congr fun e _ => not_le.symm
  rw [hlater]
  exact Multiset.filter_add_not _ M

theorem later_later (h : t ≤ t') (M : Multiset (Nat × E)) : later t' (later t M) = later t' M := by
  unfold later
  rw [Multiset.filter_filter]
  refine Multiset.filter_congr fun e _ => ?_
  constructor
  · exact fun h => h.1
  · exact fun h' => ⟨h', lt_of_le_of_lt h h'⟩

/-- What is due by `t'` is due by an earlier `t`, or due by `t'` among the rest. -/
theorem due_eq_add (h : t ≤ t') (M : Multiset (Nat × E)) :
    due t' M = due t M + due t' (later t M) := by
  have h₁ : due t M = (due t' M).filter fun e => e.1 ≤ t := by
    unfold due
    rw [Multiset.filter_filter]
    refine Multiset.filter_congr fun e _ => ?_
    constructor
    · exact fun h' => ⟨h', le_trans h' h⟩
    · exact fun h' => h'.1
  have h₂ : due t' (later t M) = (due t' M).filter fun e => ¬e.1 ≤ t := by
    unfold due later
    rw [Multiset.filter_filter, Multiset.filter_filter]
    refine Multiset.filter_congr fun e _ => ?_
    rw [not_le]
    exact and_comm
  rw [h₁, h₂]
  exact (Multiset.filter_add_not _ _).symm

theorem due_eq_zero (h : ∀ e ∈ M, t < e.1) : due t M = 0 :=
  Multiset.filter_eq_nil.mpr fun e he => not_le.mpr (h e he)

theorem later_eq_self (h : ∀ e ∈ M, t < e.1) : later t M = M := Multiset.filter_eq_self.mpr h

/-- Nothing fires before the first entry is due. -/
theorem Fires.nil (h : ∀ e ∈ M, t < e.1) : Fires M t [] :=
  ⟨List.Pairwise.nil, (due_eq_zero h).symm⟩

theorem Fires.mem_iff (h : Fires M t l) {e : Nat × E} : e ∈ l ↔ e ∈ M ∧ e.1 ≤ t := by
  rw [← Multiset.mem_coe, h.mem, mem_due]

/-- **Two moves in a row are one.** -/
theorem Fires.append (h : t ≤ t') (hl : Fires M t l) (hl' : Fires (later t M) t' l') :
    Fires M t' (l ++ l') := by
  refine ⟨List.pairwise_append.mpr ⟨hl.sorted, hl'.sorted, fun a ha b hb => ?_⟩, ?_⟩
  · have ha' := (hl.mem_iff.mp ha).2
    have hb' := (mem_later.mp (hl'.mem_iff.mp hb).1).2
    exact le_of_lt (lt_of_le_of_lt ha' hb')
  · rw [← Multiset.coe_add, hl.mem, hl'.mem, ← due_eq_add h]

/-! ## Other entries at the same times -/

theorem due_map {F : Type} (f : E → F) (t : Nat) (M : Multiset (Nat × E)) :
    due t (M.map (Prod.map id f)) = (due t M).map (Prod.map id f) := Multiset.filter_map ..

theorem later_map {F : Type} (f : E → F) (t : Nat) (M : Multiset (Nat × E)) :
    later t (M.map (Prod.map id f)) = (later t M).map (Prod.map id f) := Multiset.filter_map ..

theorem Fires.map {F : Type} (h : Fires M t l) (f : E → F) :
    Fires (M.map (Prod.map id f)) t (l.map (Prod.map id f)) := by
  refine ⟨List.pairwise_map.mpr h.sorted, ?_⟩
  rw [due_map, ← h.mem, Multiset.map_coe]

/-- Two orders of the same entries give the same times. -/
theorem Fires.times_eq (h : Fires M t l) (h' : Fires M t l') :
    l.map Prod.fst = l'.map Prod.fst := by
  have hperm : l.Perm l' := Multiset.coe_eq_coe.mp (h.mem.trans h'.mem.symm)
  exact (hperm.map Prod.fst).eq_of_pairwise (fun _ _ _ _ hle hge => le_antisymm hle hge)
    (List.pairwise_map.mpr h.sorted) (List.pairwise_map.mpr h'.sorted)

/-- A list whose elements are the images of a multiset comes from a listing of the multiset. -/
theorem exists_list_of_map {α β : Type} {f : α → β} {s : Multiset α} {l : List β}
    (h : s.map f = l) : ∃ l' : List α, (l' : Multiset α) = s ∧ l'.map f = l := by
  classical
  induction l generalizing s with
  | nil => exact ⟨[], by rw [Multiset.map_eq_zero.mp h]; rfl, rfl⟩
  | cons b l ih =>
    obtain ⟨a, ha, rfl, hrest⟩ := (Multiset.map_eq_cons f s l b).mpr h
    obtain ⟨l', hl', rfl⟩ := ih hrest
    refine ⟨a :: l', ?_, rfl⟩
    rw [← Multiset.cons_coe, hl', Multiset.cons_erase ha]

end Agenda
