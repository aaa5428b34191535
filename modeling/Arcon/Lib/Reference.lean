import Arcon.Lib.Footprint
import Arcon.Lib.Slots

/-!
# Reference objects

A `Reference` says what an object is for its callers: what every call makes of the value of the
object, and what it replies. A store implements it if each of its steps gives the reply of the
reference and comes to a store that stands for the next value.

An object for every key is again an object, whose calls name the key (`slots`). A store with a slot
for every key implements it if each call replaces the slot of its key only.

* **`run_follows`**: the replies of a whole run are those of the reference.
* **`run_slots`**: the same for a store with slots.
-/

/-- What calls `ω` with replies `ρ` do to a value `α`. -/
structure Reference (α ω : Type) (ρ : ω → Type) where
  next : α → ω → α
  reply : α → (o : ω) → ρ o

namespace Reference

variable {α ω ε σ : Type} {ρ : ω → Type} (ref : Reference α ω ρ)

/-- The value after some calls. -/
def final (a : α) (os : List ω) : α := os.foldl ref.next a

/-- The calls with their replies, in order. -/
def log (a : α) : List ω → List (Σ o, ρ o)
  | [] => []
  | o :: os => ⟨o, ref.reply a o⟩ :: log (ref.next a o) os

variable {ref}

/-- **A store keeps step with the reference** in `R` as long as every call that is good (`G`)
does. -/
theorem run_follows (step : (o : ω) → σ → Except ε (σ × ρ o)) {R : σ → α → Prop}
    {G : α → ω → Prop}
    (hstep : ∀ s a o, R s a → G a o →
      ∃ s', step o s = .ok (s', ref.reply a o) ∧ R s' (ref.next a o))
    (os : List ω) {s : σ} {a : α} (hs : R s a)
    (hgood : ∀ done o rest, os = done ++ o :: rest → G (ref.final a done) o) :
    ∃ s', Footprint.run step s os = .ok (s', ref.log a os) ∧ R s' (ref.final a os) := by
  induction os generalizing s a with
  | nil => exact ⟨s, rfl, hs⟩
  | cons o os ih =>
    obtain ⟨s₁, hs₁, hrel⟩ := hstep s a o hs (hgood [] o os rfl)
    obtain ⟨s', hs', hrel'⟩ := ih hrel fun done o' rest heq =>
      hgood (o :: done) o' rest (by rw [heq]; rfl)
    exact ⟨s', Footprint.run_cons_ok hs₁ hs', hrel'⟩

/-! ## An object for every key -/

section slots

variable {H E : Type} [DecidableEq H] (ref)

/-- An object for every key. -/
def slots : Reference (H → α) (H × ω) (fun o => ρ o.2) where
  next vals o := Function.update vals o.1 (ref.next (vals o.1) o.2)
  reply vals o := ref.reply (vals o.1) o.2

variable {ref} {look : σ → H → Option E} {Good : E → α → Prop} {reg : H → Prop}

/-- **A store with a slot for every key** keeps step with an object for every key. -/
theorem run_slots (step : (o : H × ω) → σ → Except ε (σ × ρ o.2)) {G : α → ω → Prop}
    (hstep : ∀ s h c e a, reg h → look s h = some e → Good e a → G a c →
      ∃ s' e', step (h, c) s = .ok (s', ref.reply a c) ∧ Slots.Replaces look reg h e' s s' ∧
        Good e' (ref.next a c))
    (os : List (H × ω)) {s : σ} {vals : H → α} (hs : Slots.Keeps look Good reg s vals)
    (hgood : ∀ done o rest, os = done ++ o :: rest →
      reg o.1 ∧ G (ref.slots.final vals done o.1) o.2) :
    ∃ s', Footprint.run step s os = .ok (s', ref.slots.log vals os) ∧
      Slots.Keeps look Good reg s' (ref.slots.final vals os) := by
  refine run_follows step (G := fun vals o => reg o.1 ∧ G (vals o.1) o.2)
    (fun s vals o hs hg => ?_) os hs hgood
  obtain ⟨e, he, hgood⟩ := hs o.1 hg.1
  obtain ⟨s', e', hrun, hrep, hgood'⟩ := hstep s o.1 o.2 e (vals o.1) hg.1 he hgood hg.2
  exact ⟨s', hrun, hs.replace hrep hgood'⟩

end slots

end Reference
