import Mathlib.Logic.Function.Basic

/-!
# Stores with a slot for every key

A store that is used under many keys and keeps what belongs to a key in a slot of its own. An
operation on one key `Replaces` its slot and leaves the others alone. If the new content stands for
the new value of the key, then the store as a whole still `Keeps` the values of all keys.

Only the keys in `reg` count, those that the store knows; what it does under others is left open.

* **`Keeps.replace`**: one key gets a new value.
* `Keeps.frame`: what other keys stand for stays.
-/

namespace Slots

variable {σ H E V : Type} {look : σ → H → Option E} {Good : E → V → Prop} {reg : H → Prop}

/-- Every key has a slot, and what is in it stands for the value of the key. -/
def Keeps (look : σ → H → Option E) (Good : E → V → Prop) (reg : H → Prop) (s : σ)
    (vals : H → V) : Prop :=
  ∀ h, reg h → ∃ e, look s h = some e ∧ Good e (vals h)

/-- `s'` is `s` with `e` in the slot of `h`. -/
structure Replaces (look : σ → H → Option E) (reg : H → Prop) (h : H) (e : E) (s s' : σ) :
    Prop where
  self : look s' h = some e
  others : ∀ h', reg h' → h' ≠ h → look s' h' = look s h'

variable {s s' : σ} {vals : H → V}

/-- **A key gets a new value.** -/
theorem Keeps.replace [DecidableEq H] (hs : Keeps look Good reg s vals) {h : H} {e : E} {v : V}
    (hr : Replaces look reg h e s s') (hg : Good e v) :
    Keeps look Good reg s' (Function.update vals h v) := by
  intro h' hreg
  by_cases heq : h' = h
  · subst heq
    exact ⟨e, hr.self, by rwa [Function.update_self]⟩
  · rw [Function.update_of_ne heq, hr.others h' hreg heq]
    exact hs h' hreg

/-- A key outside `reg` may get anything. -/
theorem Keeps.frame {mine : H → Prop} (hs : Keeps look Good reg s vals) {h : H} {e : E}
    (hr : Replaces look mine h e s s') (hmine : ∀ h', reg h' → mine h' ∧ h' ≠ h) :
    Keeps look Good reg s' vals := by
  intro h' hreg
  rw [hr.others h' (hmine h' hreg).1 (hmine h' hreg).2]
  exact hs h' hreg

theorem Keeps.congr (hs : Keeps look Good reg s vals) {vals' : H → V}
    (hvals : ∀ h, reg h → vals h = vals' h) : Keeps look Good reg s vals' := by
  intro h hreg
  rw [← hvals h hreg]
  exact hs h hreg

end Slots
