import Mathlib.Algebra.Order.Field.Rat
import Mathlib.Data.List.Induction
import Mathlib.Tactic.Common
import Mathlib.Tactic.Linarith
import Mathlib.Tactic.FieldSimp
import Mathlib.Tactic.Ring

/-!
# A running mean of natural numbers

The mean of some numbers, kept up to date with one truncating division for each number. Each
division drops a remainder, and none is ever made up for.

* `sum_bounds`: what the divisions have dropped, in whole numbers.
* **`mean_error`**: after `n` numbers the running mean is at most `(n - 1) / 2` below the mean, and
  not above it.
* `mean_range`: it can be as far off.
-/

namespace RunningMean

/-- One more number. -/
def next (count avg d : Nat) : Nat := (avg * count + d) / (count + 1)

/-- The running mean of some numbers, from the first on. -/
def meanFrom (count avg : Nat) : List Nat → Nat
  | [] => avg
  | d :: ds => meanFrom (count + 1) (next count avg d) ds

/-- The running mean of some numbers. -/
def mean (ds : List Nat) : Nat := meanFrom 0 0 ds

theorem meanFrom_append (count avg : Nat) (ds ds' : List Nat) :
    meanFrom count avg (ds ++ ds') =
      meanFrom (count + ds.length) (meanFrom count avg ds) ds' := by
  induction ds generalizing count avg with
  | nil => rfl
  | cons d ds ih =>
    rw [List.cons_append, meanFrom, ih, List.length_cons, Nat.add_right_comm, Nat.add_assoc]
    rfl

theorem mean_snoc (ds : List Nat) (d : Nat) :
    mean (ds ++ [d]) = next ds.length (mean ds) d := by
  unfold mean
  rw [meanFrom_append, Nat.zero_add]
  rfl

/-- What the divisions have dropped: nothing that adds up to more than this. -/
theorem sum_bounds (ds : List Nat) :
    ds.length * mean ds ≤ ds.sum ∧
      2 * ds.sum ≤ 2 * (ds.length * mean ds) + ds.length * (ds.length - 1) := by
  induction ds using List.reverseRecOn with
  | nil => exact ⟨le_rfl, le_rfl⟩
  | append_singleton ds d ih =>
    rw [mean_snoc, List.length_append, List.length_singleton, List.sum_append, List.sum_singleton,
      Nat.add_sub_cancel]
    unfold next
    have hdiv := Nat.div_add_mod (mean ds * ds.length + d) (ds.length + 1)
    have hmod : (mean ds * ds.length + d) % (ds.length + 1) < ds.length + 1 :=
      Nat.mod_lt _ (Nat.succ_pos ds.length)
    have hcomm : mean ds * ds.length = ds.length * mean ds := Nat.mul_comm _ _
    have htri : (ds.length + 1) * ds.length = ds.length * (ds.length - 1) + 2 * ds.length := by
      cases ds.length with
      | zero => rfl
      | succ n =>
        rw [Nat.add_sub_cancel]
        ring
    omega

/-- **How far off** the running mean is. -/
theorem mean_error {ds : List Nat} (hne : ds ≠ []) :
    0 ≤ (ds.sum : ℚ) / ds.length - mean ds ∧
      (ds.sum : ℚ) / ds.length - mean ds ≤ ((ds.length : ℚ) - 1) / 2 := by
  obtain ⟨hlow, hhigh⟩ := sum_bounds ds
  have hpos : 1 ≤ ds.length := List.length_pos_iff.mpr hne
  have hposQ : (0 : ℚ) < ds.length := by exact_mod_cast hpos
  have hlowQ : (ds.length : ℚ) * mean ds ≤ ds.sum := by exact_mod_cast hlow
  have hhighQ : 2 * (ds.sum : ℚ) ≤ 2 * (ds.length * mean ds) + ds.length * (ds.length - 1) := by
    have hcast : ((ds.length - 1 : Nat) : ℚ) = (ds.length : ℚ) - 1 := by
      rw [Nat.cast_sub hpos, Nat.cast_one]
    rw [← hcast]
    exact_mod_cast hhigh
  constructor
  · rw [sub_nonneg, le_div_iff₀ hposQ]
    linarith
  · rw [sub_le_iff_le_add, div_le_iff₀ hposQ]
    linarith

/-- On 0, 1, 2, … nothing but the remainders comes in. -/
theorem mean_range (n : Nat) : mean (List.range n) = 0 := by
  induction n with
  | zero => rfl
  | succ n ih =>
    rw [List.range_succ, mean_snoc, ih, List.length_range]
    unfold next
    rw [Nat.zero_mul, Nat.zero_add]
    exact Nat.div_eq_of_lt (Nat.lt_succ_self n)

end RunningMean
