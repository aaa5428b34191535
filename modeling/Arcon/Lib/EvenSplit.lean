import Mathlib.Algebra.Order.Floor.Div

/-!
# Splitting an interval evenly

`part m n r = r * n / m` puts the numbers below `m` into `n` parts. Part `c` starts at
`first m n c = ⌈c * m / n⌉` and ends where the next one starts, so the parts are intervals in order,
and their sizes differ by at most one.

* `part_eq_iff`: the parts are the intervals between the `first`s.
* `size_part`: an interval has `⌊m / n⌋` or `⌈m / n⌉` numbers.
-/

namespace EvenSplit

variable {m n r r' c : Nat}

/-- The part of `r`. -/
def part (m n r : Nat) : Nat := r * n / m

/-- Where part `c` starts. -/
def first (m n c : Nat) : Nat := c * m ⌈/⌉ n

theorem part_mono (h : r ≤ r') : part m n r ≤ part m n r' :=
  Nat.div_le_div_right (Nat.mul_le_mul_right n h)

theorem part_lt (hn : 0 < n) (h : r < m) : part m n r < n := by
  unfold part
  rw [Nat.div_lt_iff_lt_mul (by omega), Nat.mul_comm n m]
  exact Nat.mul_lt_mul_of_pos_right h hn

theorem first_le_iff (hn : 0 < n) : first m n c ≤ r ↔ c * m ≤ r * n := by
  unfold first
  rw [ceilDiv_le_iff_le_mul hn, Nat.mul_comm n r]

theorem le_part_iff (hm : 0 < m) (hn : 0 < n) : c ≤ part m n r ↔ first m n c ≤ r := by
  unfold part
  rw [first_le_iff hn, Nat.le_div_iff_mul_le hm]

/-- **A part is an interval.** -/
theorem part_eq_iff (hm : 0 < m) (hn : 0 < n) :
    part m n r = c ↔ first m n c ≤ r ∧ r < first m n (c + 1) := by
  rw [← le_part_iff hm hn, ← Nat.not_le, ← le_part_iff hm hn]
  omega

theorem first_mono (hn : 0 < n) (c : Nat) : first m n c ≤ first m n (c + 1) := by
  rw [first_le_iff hn]
  refine (Nat.mul_le_mul_right m (Nat.le_succ c)).trans ?_
  exact (first_le_iff hn).mp le_rfl

/-- The last part ends at `m`. -/
theorem first_le (hn : 0 < n) (h : c ≤ n) : first m n c ≤ m := by
  rw [first_le_iff hn, Nat.mul_comm m n]
  exact Nat.mul_le_mul_right m h

theorem ceilDiv_add_mul (hn : 0 < n) (a q : Nat) : (a + q * n) ⌈/⌉ n = a ⌈/⌉ n + q := by
  rw [Nat.ceilDiv_eq_add_pred_div, Nat.ceilDiv_eq_add_pred_div]
  have hshift : a + q * n + n - 1 = a + n - 1 + q * n := by omega
  rw [hshift, Nat.add_mul_div_right _ _ hn]

/-- **The parts differ by at most one number.** -/
theorem size_part (hn : 0 < n) (c : Nat) :
    first m n (c + 1) - first m n c = m / n ∨ first m n (c + 1) - first m n c = m ⌈/⌉ n := by
  -- the remainder of `m` moves the end of a part by one, or not at all
  obtain ⟨q, s, hs, hm⟩ : ∃ q s, s < n ∧ m = s + q * n :=
    ⟨m / n, m % n, Nat.mod_lt m hn, by rw [Nat.mul_comm, Nat.mod_add_div]⟩
  have hnext : first m n (c + 1) = (c * m + s) ⌈/⌉ n + q := by
    unfold first
    rw [← ceilDiv_add_mul hn]
    congr 1
    rw [Nat.add_mul, Nat.one_mul, Nat.add_assoc, ← hm]
  have hfloor : m / n = q := by
    rw [hm, Nat.add_mul_div_right _ _ hn, Nat.div_eq_of_lt hs, Nat.zero_add]
  have hceil : m ⌈/⌉ n = s ⌈/⌉ n + q := by rw [← ceilDiv_add_mul hn, ← hm]
  have hlow : c * m ⌈/⌉ n ≤ (c * m + s) ⌈/⌉ n := by
    rw [ceilDiv_le_iff_le_mul hn]
    exact (Nat.le_add_right _ s).trans ((ceilDiv_le_iff_le_mul hn).mp le_rfl)
  have hhigh : (c * m + s) ⌈/⌉ n ≤ c * m ⌈/⌉ n + s ⌈/⌉ n := by
    rw [ceilDiv_le_iff_le_mul hn, Nat.mul_add]
    exact Nat.add_le_add ((ceilDiv_le_iff_le_mul hn).mp le_rfl)
      ((ceilDiv_le_iff_le_mul hn).mp le_rfl)
  have hone : s ⌈/⌉ n ≤ 1 := by
    rw [ceilDiv_le_iff_le_mul hn]
    omega
  rw [hnext, hfloor, hceil, first]
  omega

end EvenSplit
