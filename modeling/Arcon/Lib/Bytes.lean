import Mathlib.Data.Nat.Digits.Defs
import Mathlib.Tactic.Common

/-!
# Byte strings and self-delimiting codes

Little-endian numbers of a fixed width, and codes that can be read off the front of a byte string:
a decoder `Delimits` an encoder when it takes an encoded value off any string that starts with one
and leaves the rest. Such codes cancel on the left (`Delimits.cancel`), so a sequence of them is
read back one by one.

* `ofLe_toLe`: a number below `256 ^ w` survives its `w` little-endian bytes.
* **`Delimits.cancel`**: equal strings that start with encoded values start with the same value.
-/

/-- A byte string. -/
abbrev Bytes := List UInt8

namespace Bytes

/-! ## Little-endian numbers -/

/-- The `w` low bytes of `n`, the lowest first. -/
def toLe : Nat → Nat → Bytes
  | 0, _ => []
  | w + 1, n => UInt8.ofNat n :: toLe w (n / 256)

/-- The number with these bytes, the lowest first. -/
def ofLe (bs : Bytes) : Nat := Nat.ofDigits 256 (bs.map UInt8.toNat)

@[simp] theorem length_toLe (w n : Nat) : (toLe w n).length = w := by
  induction w generalizing n with
  | zero => rfl
  | succ w ih => simp [toLe, ih]

theorem ofLe_cons (b : UInt8) (bs : Bytes) : ofLe (b :: bs) = b.toNat + 256 * ofLe bs := by
  simp [ofLe, Nat.ofDigits_cons]

theorem ofLe_toLe_mod (w n : Nat) : ofLe (toLe w n) = n % 256 ^ w := by
  induction w generalizing n with
  | zero => simp [toLe, ofLe, Nat.mod_one]
  | succ w ih =>
    have hlow : (UInt8.ofNat n).toNat = n % 256 := by simp
    rw [toLe, ofLe_cons, ih, hlow, pow_succ', Nat.mod_mul]

/-- A number that fits is read back. -/
theorem ofLe_toLe {w n : Nat} (h : n < 256 ^ w) : ofLe (toLe w n) = n := by
  rw [ofLe_toLe_mod, Nat.mod_eq_of_lt h]

/-! ## Self-delimiting codes -/

variable {α β ε : Type}

/-- `dec` takes an encoded value off the front of any string. -/
def Delimits (enc : α → Bytes) (dec : Bytes → Except ε (α × Bytes)) : Prop :=
  ∀ a rest, dec (enc a ++ rest) = .ok (a, rest)

namespace Delimits

variable {enc : α → Bytes} {dec : Bytes → Except ε (α × Bytes)}

/-- **Cancellation.** Equal strings that start with encoded values start with the same value and go
on in the same way. -/
theorem cancel (h : Delimits enc dec) {a b : α} {r s : Bytes} (heq : enc a ++ r = enc b ++ s) :
    a = b ∧ r = s := by
  have hab : (Except.ok (a, r) : Except ε (α × Bytes)) = .ok (b, s) := by
    rw [← h a r, ← h b s, heq]
  injection hab with hab
  injection hab with ha hr
  exact ⟨ha, hr⟩

theorem injective (h : Delimits enc dec) : Function.Injective enc := by
  intro a b heq
  exact (h.cancel (r := []) (s := []) (by rw [heq])).1

end Delimits

end Bytes
