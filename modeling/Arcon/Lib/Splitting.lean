import Mathlib.Algebra.GroupWithZero.Nat
import Mathlib.Data.List.DropRight
import Mathlib.Data.List.Infix
import Mathlib.Tactic.Common

/-!
# Splitting and trimming of lists

A list is split at a separator from the left: the first separator ends the first piece, and the rest
is split in the same way. Joining the pieces gives the list back (`join_split`), but splitting
joined pieces gives the pieces back only if no piece runs into its separator: a separator that can
overlap itself may be found before the place it was put at.

* `split_append_iff`: when the first piece is this one.
* **`split_join_iff`**: when the pieces come back.
* `trim_eq_self_iff`, `trim_join`: what trimming leaves alone.
* **`split_trim_join`**: pieces that come back through trimming and splitting were not trimmed.
-/

namespace Splitting

variable {α : Type}

section join

variable {d : List α}

theorem intercalate_modifyHead {ps : List (List α)} (hps : ps ≠ []) (a : α) :
    d.intercalate (ps.modifyHead (a :: ·)) = a :: d.intercalate ps := by
  cases ps with
  | nil => exact absurd rfl hps
  | cons p ps =>
    cases ps with
    | nil => simp
    | cons q ps => rw [List.modifyHead_cons, List.intercalate_cons_cons,
        List.intercalate_cons_cons, List.cons_append, List.cons_append]

theorem length_intercalate (d : List α) (ts : List (List α)) :
    (d.intercalate ts).length = (ts.map List.length).sum + (ts.length - 1) * d.length := by
  induction ts with
  | nil => simp
  | cons t ts ih =>
    cases ts with
    | nil => simp
    | cons u ts =>
      rw [List.intercalate_cons_cons, List.length_append, List.length_append, ih]
      simp only [List.map_cons, List.sum_cons, List.length_cons, Nat.add_sub_cancel]
      rw [Nat.succ_mul]
      omega

/-- A piece does not run into its separator: the first one in the two is the one at the end. -/
def Clear (d t : List α) : Prop := ∀ k, k < t.length → ¬d <+: (t ++ d).drop k

theorem clear_nil (d : List α) : Clear d [] := fun _ h => absurd h (Nat.not_lt_zero _)

theorem clear_cons {a : α} {t : List α} :
    Clear d (a :: t) ↔ ¬d <+: a :: t ++ d ∧ Clear d t := by
  constructor
  · intro h
    exact ⟨h 0 (Nat.succ_pos _), fun k hk => h (k + 1) (Nat.succ_lt_succ hk)⟩
  · rintro ⟨hhead, htail⟩ k hk
    cases k with
    | zero => exact hhead
    | succ k => exact htail k (Nat.lt_of_succ_lt_succ hk)

end join

section split

variable [DecidableEq α] (d : List α)

/-- The pieces, the first items of the list still being part of a separator. -/
def splitFrom : Nat → List α → List (List α)
  | _, [] => [[]]
  | skip + 1, _ :: l => splitFrom skip l
  | 0, a :: l =>
    if d <+: a :: l then [] :: splitFrom (d.length - 1) l
    else (splitFrom 0 l).modifyHead (a :: ·)

/-- The pieces of a list between the separators, which are found from the left. -/
def split (l : List α) : List (List α) := splitFrom d 0 l

variable {d}

theorem splitFrom_eq_split (skip : Nat) (l : List α) :
    splitFrom d skip l = split d (l.drop skip) := by
  induction l generalizing skip with
  | nil =>
    rw [List.drop_nil]
    cases skip with
    | zero => rfl
    | succ skip => rfl
  | cons a l ih =>
    cases skip with
    | zero => rfl
    | succ skip => rw [splitFrom, ih, List.drop_succ_cons]

@[simp] theorem split_nil : split d [] = [[]] := rfl

theorem split_cons_of_not {a : α} {l : List α} (h : ¬d <+: a :: l) :
    split d (a :: l) = (split d l).modifyHead (a :: ·) := by
  unfold split
  rw [splitFrom, if_neg h]

/-- A separator ends a piece. -/
theorem split_sep (hd : d ≠ []) (l : List α) : split d (d ++ l) = [] :: split d l := by
  cases d with
  | nil => exact absurd rfl hd
  | cons a d =>
    rw [List.cons_append, split, splitFrom, if_pos ⟨l, rfl⟩, splitFrom_eq_split,
      List.length_cons, Nat.add_sub_cancel, List.drop_left]

theorem split_ne_nil (hd : d ≠ []) (l : List α) : split d l ≠ [] := by
  induction l with
  | nil => exact List.cons_ne_nil _ _
  | cons a l ih =>
    by_cases h : d <+: a :: l
    · obtain ⟨rest, hrest⟩ := h
      rw [← hrest, split_sep hd]
      exact List.cons_ne_nil _ _
    · rw [split_cons_of_not h, Ne, List.modifyHead_eq_nil_iff]
      exact ih

/-- **The pieces joined** are the list. -/
theorem join_split (hd : d ≠ []) (l : List α) : d.intercalate (split d l) = l := by
  induction hn : l.length using Nat.strong_induction_on generalizing l with
  | _ n ih =>
    subst hn
    cases l with
    | nil => rfl
    | cons a l =>
      by_cases h : d <+: a :: l
      · obtain ⟨rest, hrest⟩ := h
        have hlt : rest.length < (a :: l).length := by
          rw [← hrest, List.length_append]
          have := List.length_pos_iff.mpr hd
          omega
        rw [← hrest, split_sep hd,
          List.intercalate_cons_of_ne_nil (split_ne_nil hd rest), ih _ hlt rest rfl,
          List.nil_append]
      · rw [split_cons_of_not h, intercalate_modifyHead (split_ne_nil hd l),
          ih _ (Nat.lt_succ_self _) l rfl]

/-- **When the first piece is this one.** -/
theorem split_append_iff (hd : d ≠ []) {t rest : List α} {ps : List (List α)} :
    split d (t ++ d ++ rest) = t :: ps ↔ Clear d t ∧ split d rest = ps := by
  induction t with
  | nil =>
    rw [List.nil_append, split_sep hd, List.cons_inj_right]
    exact ⟨fun h => ⟨clear_nil d, h⟩, fun h => h.2⟩
  | cons a t ih =>
    -- whether a separator begins here is decided within the piece and its separator
    have hhere : d <+: a :: t ++ d ++ rest ↔ d <+: a :: t ++ d :=
      ⟨fun h => List.prefix_of_prefix_length_le h (List.prefix_append _ rest)
        (by simp only [List.length_append]; omega),
        fun h => h.trans (List.prefix_append _ rest)⟩
    rw [clear_cons]
    by_cases h : d <+: a :: t ++ d
    · obtain ⟨rest', hrest'⟩ := hhere.mpr h
      rw [← hrest', split_sep hd]
      exact iff_of_false (fun heq => nomatch heq) fun hclear => hclear.1.1 h
    · have hsplit : split d (a :: t ++ d ++ rest) =
          (split d (t ++ d ++ rest)).modifyHead (a :: ·) :=
        split_cons_of_not fun hbegins => h (hhere.mp hbegins)
      have hne := split_ne_nil hd (t ++ d ++ rest)
      rw [hsplit]
      cases hpieces : split d (t ++ d ++ rest) with
      | nil => exact absurd hpieces hne
      | cons q qs =>
        rw [List.modifyHead_cons, and_assoc, and_iff_right h, ← ih, hpieces]
        simp

/-- A list without a separator is one piece. -/
theorem split_eq_self_iff (hd : d ≠ []) {t : List α} : split d t = [t] ↔ ¬d <:+: t := by
  induction t with
  | nil => simp [hd]
  | cons a t ih =>
    rw [List.infix_cons_iff, not_or, ← ih]
    by_cases h : d <+: a :: t
    · obtain ⟨rest, hrest⟩ := h
      rw [← hrest, split_sep hd]
      simp [hd]
    · rw [split_cons_of_not h]
      cases hpieces : split d t with
      | nil => exact absurd hpieces (split_ne_nil hd t)
      | cons q qs =>
        rw [List.modifyHead_cons]
        simp [h]

/-- **When the pieces come back**: if the last has no separator, and none of the others runs into
the one behind it. -/
theorem split_join_iff (hd : d ≠ []) {t : List α} {ts : List (List α)} :
    split d (d.intercalate (t :: ts)) = t :: ts ↔
      (∀ u ∈ (t :: ts).dropLast, Clear d u) ∧
        ∀ u ∈ (t :: ts).getLast?, ¬d <:+: u := by
  induction ts generalizing t with
  | nil => simp [split_eq_self_iff hd]
  | cons u ts ih =>
    rw [List.intercalate_cons_cons, split_append_iff hd, ih, List.dropLast_cons_cons,
      List.getLast?_cons_cons, List.forall_mem_cons, and_assoc]

end split

section trim

variable (p : α → Bool)

/-- Without what is to go at the two ends. -/
def trim (l : List α) : List α := (l.dropWhile p).rdropWhile p

variable {p}

theorem trim_isInfix (l : List α) : trim p l <:+: l :=
  (List.rdropWhile_prefix p _).isInfix.trans (List.dropWhile_suffix p).isInfix

/-- **Nothing is to go** exactly if nothing is to go at the ends. -/
theorem trim_eq_self_iff {l : List α} :
    trim p l = l ↔ (∀ a ∈ l.head?, ¬p a) ∧ ∀ a ∈ l.getLast?, ¬p a := by
  have hhead : l.dropWhile p = l ↔ ∀ a ∈ l.head?, ¬p a := by
    cases l with
    | nil => simp
    | cons a l => simp [List.dropWhile_eq_self_iff]
  have hlast : l.rdropWhile p = l ↔ ∀ a ∈ l.getLast?, ¬p a := by
    rw [List.rdropWhile_eq_self_iff]
    constructor
    · intro h a ha
      obtain ⟨hne, rfl⟩ := List.mem_getLast?_eq_getLast ha
      exact h hne
    · intro h hne
      exact h _ (List.getLast?_eq_some_getLast hne)
  rw [← hhead, ← hlast]
  unfold trim
  constructor
  · intro h
    -- the front is whole, for what is left is in it
    have hle : ((l.dropWhile p).rdropWhile p).length ≤ (l.dropWhile p).length :=
      (List.rdropWhile_prefix p _).length_le
    have hfront : l.dropWhile p = l :=
      (List.dropWhile_suffix p).eq_of_length_le (by rw [h] at hle; exact hle)
    rw [hfront] at h
    exact ⟨hfront, h⟩
  · rintro ⟨hfront, hback⟩
    rw [hfront, hback]

theorem trim_append {l l' : List α} (h : trim p l = l) (h' : trim p l' = l') :
    trim p (l ++ l') = l ++ l' := by
  rw [trim_eq_self_iff] at h h' ⊢
  rw [List.head?_append, List.getLast?_append]
  constructor
  · intro a ha
    rcases Option.or_eq_some_iff.mp ha with ha | ⟨-, ha⟩
    · exact h.1 a ha
    · exact h'.1 a ha
  · intro a ha
    rcases Option.or_eq_some_iff.mp ha with ha | ⟨-, ha⟩
    · exact h'.2 a ha
    · exact h.2 a ha

/-- Trimmed pieces joined by a trimmed separator are trimmed. -/
theorem trim_join {d : List α} (hd : trim p d = d) {ts : List (List α)}
    (hts : ∀ t ∈ ts, trim p t = t) : trim p (d.intercalate ts) = d.intercalate ts := by
  induction ts with
  | nil => rfl
  | cons t ts ih =>
    rw [List.forall_mem_cons] at hts
    cases ts with
    | nil =>
      rw [List.intercalate_singleton]
      exact hts.1
    | cons u ts =>
      rw [List.intercalate_cons_cons]
      exact trim_append (trim_append hts.1 hd) (ih hts.2)

theorem length_map_trim_le (ps : List (List α)) :
    ((ps.map (trim p)).map List.length).sum ≤ (ps.map List.length).sum := by
  induction ps with
  | nil => rfl
  | cons l ps ih =>
    simp only [List.map_cons, List.sum_cons]
    exact Nat.add_le_add (trim_isInfix l).length_le ih

/-- Pieces that are as long as before together have lost nothing. -/
theorem map_trim_eq {ps : List (List α)}
    (h : (ps.map List.length).sum ≤ ((ps.map (trim p)).map List.length).sum) :
    ps.map (trim p) = ps := by
  induction ps with
  | nil => rfl
  | cons l ps ih =>
    simp only [List.map_cons, List.sum_cons] at h ⊢
    have hl : (trim p l).length ≤ l.length := (trim_isInfix l).length_le
    have hps : ((ps.map (trim p)).map List.length).sum ≤ (ps.map List.length).sum :=
      length_map_trim_le ps
    rw [(trim_isInfix l).eq_of_length (by omega), ih (by omega)]

/-- **Trimmed pieces of a trimmed join**: if the joined pieces, trimmed, split and trimmed again,
begin with the pieces, then no trimming did anything. -/
theorem split_trim_join [DecidableEq α] {d : List α} (hd : d ≠ []) {ts : List (List α)}
    (hts : ts ≠ []) (h : ts <+: (split d (trim p (d.intercalate ts))).map (trim p)) :
    trim p (d.intercalate ts) = d.intercalate ts ∧ split d (d.intercalate ts) = ts := by
  obtain ⟨qs, hqs⟩ := h
  obtain ⟨ps, ps', hsplit, rfl, -⟩ := List.map_eq_append_iff.mp hqs.symm
  have hjoin := join_split hd (trim p (d.intercalate (ps.map (trim p))))
  have hle : (trim p (d.intercalate (ps.map (trim p)))).length ≤ _ := (trim_isInfix _).length_le
  rw [← hjoin, length_intercalate, length_intercalate, hsplit] at hle
  -- more pieces, or longer ones, would not fit
  have hpos : 0 < ps.length := by
    rw [List.length_pos_iff]
    rintro rfl
    exact hts rfl
  have hseps : (ps.length + ps'.length - 1) * d.length =
      (ps.length - 1) * d.length + ps'.length * d.length := by
    rw [← Nat.add_mul]
    congr 1
    omega
  have htrim : ((ps.map (trim p)).map List.length).sum ≤ (ps.map List.length).sum :=
    length_map_trim_le ps
  simp only [List.map_append, List.sum_append, List.length_append, List.length_map] at hle htrim
  rw [hseps] at hle
  have hnil : ps' = [] := by
    have hzero : ps'.length * d.length = 0 := by omega
    rcases Nat.mul_eq_zero.mp hzero with hz | hz
    · exact List.length_eq_zero_iff.mp hz
    · exact absurd (List.length_eq_zero_iff.mp hz) hd
  have hsame : ps.map (trim p) = ps := map_trim_eq (by simp only [List.map_map] at *; omega)
  rw [hsame] at hsplit hjoin ⊢
  rw [hnil, List.append_nil] at hsplit
  rw [hsplit] at hjoin
  rw [← hjoin] at hsplit
  exact ⟨hjoin.symm, hsplit⟩

end trim

end Splitting
