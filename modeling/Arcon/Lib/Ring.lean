import Mathlib.Data.List.Rotate
import Mathlib.Tactic.Common

/-!
# Rings

A list of fixed length that is written round and round: the next item goes to the place after the
last one, and from the end back to the front, over what is there. It keeps the last items
(`Keeps`), each at its number modulo the length.

* `Keeps.set`: one more item.
* `Keeps.take`: as long as the ring was not filled, its first places are the items.
* **`Keeps.rotate`**: from then on the ring, turned, is the last items in order.
-/

namespace Ring

variable {α : Type} {ring items : List α}

/-- The ring keeps the last of these items, as many as it has places. -/
def Keeps (ring items : List α) : Prop :=
  ∀ i, i < items.length → items.length ≤ i + ring.length → ring[i % ring.length]? = items[i]?

theorem keeps_nil (ring : List α) : Keeps ring [] := fun _ h => absurd h (Nat.not_lt_zero _)

/-- Two numbers less than a turn apart have different places. -/
theorem mod_ne_of_lt {i j n : Nat} (hij : i < j) (hn : j < i + n) : i % n ≠ j % n := by
  intro heq
  have hdvd : n ∣ j - i := Nat.dvd_of_mod_eq_zero (Nat.sub_mod_eq_zero_of_mod_eq heq.symm)
  have := Nat.le_of_dvd (by omega) hdvd
  omega

/-- **One more item** takes the next place. -/
theorem Keeps.set (h : Keeps ring items) (hpos : 0 < ring.length) (a : α) :
    Keeps (ring.set (items.length % ring.length) a) (items ++ [a]) := by
  intro i hi hlast
  rw [List.length_append, List.length_singleton] at hi hlast
  rw [List.length_set] at hlast ⊢
  rcases Nat.lt_or_ge i items.length with hlt | hge
  · rw [List.getElem?_append_left hlt,
      List.getElem?_set_ne (mod_ne_of_lt hlt (by omega)).symm]
    exact h i hlt (by omega)
  · obtain rfl : i = items.length := by omega
    rw [List.getElem?_set_self (Nat.mod_lt _ hpos), List.getElem?_append_right le_rfl]
    simp

/-- **The ring is not filled**: its first places are the items. -/
theorem Keeps.take (h : Keeps ring items) (hle : items.length ≤ ring.length) :
    ring.take items.length = items := by
  refine List.ext_getElem? fun i => ?_
  rcases Nat.lt_or_ge i items.length with hlt | hge
  · have hi := h i hlt (by omega)
    rw [Nat.mod_eq_of_lt (by omega)] at hi
    rw [List.getElem?_take_of_lt hlt, hi]
  · rw [List.getElem?_eq_none (by rw [List.length_take]; omega), List.getElem?_eq_none hge]

/-- **The ring is filled**: turned, it is the last items in order. -/
theorem Keeps.rotate (h : Keeps ring items) (hle : ring.length ≤ items.length) :
    ring.rotate items.length = items.drop (items.length - ring.length) := by
  refine List.ext_getElem? fun i => ?_
  rcases Nat.lt_or_ge i ring.length with hlt | hge
  · have hi := h (items.length - ring.length + i) (by omega) (by omega)
    have hmod : (items.length - ring.length + i) % ring.length =
        (i + items.length) % ring.length := by
      have hadd : i + items.length = items.length - ring.length + i + ring.length := by omega
      rw [hadd, Nat.add_mod_right]
    rw [hmod] at hi
    rw [List.getElem?_rotate hlt, hi, List.getElem?_drop]
  · rw [List.getElem?_eq_none (by rw [List.length_rotate]; exact hge),
      List.getElem?_eq_none (by rw [List.length_drop]; omega)]

end Ring
