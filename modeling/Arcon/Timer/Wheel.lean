import Arcon.Operator
import Arcon.Lib.Agenda
import Mathlib.Data.List.AList

/-!
# The hash wheel and unique ids

`EventTimer` rests on two crates that are not part of the repository.

* `hierarchical_hash_wheel_timer`: a wheel of entries, each a number of ticks away. `HashWheel`
  states what `QuadWheelWithOverflow` documents: an entry inserted with a delay expires at exactly
  that tick, a delay of zero has already expired, and ticks may be skipped only where nothing
  expires. `delays` is what a wheel holds; no code reads it.
* `uuid`: `Uuid::new_v4` yields an id that is not in use.

`ListWheel` is the plain list with these properties.
-/

namespace Arcon

/-- `Skip`: what `can_skip` says of the ticks ahead. -/
inductive Skip
  | empty
  | millis (ms : Nat)
  | none
  deriving DecidableEq, Repr

/-- One tick less. -/
def sooner {Id : Type} (ms : Nat) (e : Id × Nat) : Id × Nat := (e.1, e.2 - ms)

/-- `QuadWheelWithOverflow<Id>`. -/
class HashWheel (W : Type) (Id : outParam Type) where
  default : W
  insertWithDelay : Id → Nat → W → Option W
  canSkip : W → Skip
  skip : Nat → W → W
  tick : W → List Id × W
  delays : W → Multiset (Id × Nat)
  delays_default : delays default = 0
  insert_zero : ∀ id w, insertWithDelay id 0 w = none
  insert_pos : ∀ id d w, 0 < d →
    ∃ w', insertWithDelay id d w = some w' ∧ delays w' = (id, d) ::ₘ delays w
  empty_delays : ∀ w, canSkip w = .empty → delays w = 0
  millis_pos : ∀ w ms, canSkip w = .millis ms → 0 < ms
  millis_lt : ∀ w ms, canSkip w = .millis ms → ∀ e ∈ delays w, ms < e.2
  skip_delays : ∀ ms w, (∀ e ∈ delays w, ms < e.2) → delays (skip ms w) = (delays w).map (sooner ms)
  tick_expired : ∀ w, ((tick w).1 : Multiset Id) = ((delays w).filter fun e => e.2 = 1).map Prod.fst
  tick_delays : ∀ w, delays (tick w).2 = ((delays w).filter fun e => e.2 ≠ 1).map (sooner 1)

/-- `Uuid::new_v4().to_string()`, among the ids in use. -/
class UuidSource (Id : Type) where
  newV4 : List Id → Id
  newV4_fresh : ∀ used, newV4 used ∉ used

instance : UuidSource Nat where
  newV4 used := used.foldr max 0 + 1
  newV4_fresh used := by
    have hle : ∀ x ∈ used, x ≤ used.foldr max 0 := by
      induction used with
      | nil => simp
      | cons y used ih =>
        intro x hx
        rw [List.foldr_cons]
        rcases List.mem_cons.mp hx with rfl | hx
        · exact le_max_left _ _
        · exact le_trans (ih x hx) (le_max_right _ _)
    intro hmem
    have := hle _ hmem
    omega

/-- The wheel as a list of entries with the ticks they are away. -/
structure ListWheel where
  entries : List (Nat × Nat)

namespace ListWheel

/-- The ticks to the first entry. -/
def first (w : ListWheel) : Option Nat := (w.entries.map Prod.snd).min?

/-- The ticks in front of the first entry can be skipped. -/
def canSkip (w : ListWheel) : Skip :=
  if w.entries.isEmpty then .empty
  else
    match first w with
    | some (d + 2) => .millis (d + 1)
    | _ => .none

theorem canSkip_empty {w : ListWheel} (h : canSkip w = .empty) : w.entries = [] := by
  unfold canSkip at h
  split_ifs at h with he
  · exact List.isEmpty_iff.mp he
  · split at h <;> cases h

theorem canSkip_millis {w : ListWheel} {ms : Nat} (h : canSkip w = .millis ms) :
    0 < ms ∧ first w = some (ms + 1) := by
  unfold canSkip at h
  split_ifs at h
  split at h
  · next d hd =>
    cases h
    exact ⟨by omega, hd⟩
  · cases h

theorem first_le {w : ListWheel} {d : Nat} (h : first w = some d) {e : Nat × Nat}
    (he : e ∈ w.entries) : d ≤ e.2 :=
  (List.min?_eq_some_iff.mp h).2 e.2 (List.mem_map_of_mem he)

instance : HashWheel ListWheel Nat where
  default := ⟨[]⟩
  insertWithDelay id d w := if d = 0 then none else some ⟨w.entries ++ [(id, d)]⟩
  canSkip := canSkip
  skip ms w := ⟨w.entries.map (sooner ms)⟩
  tick w := ((w.entries.filter fun e => e.2 = 1).map Prod.fst,
    ⟨(w.entries.filter fun e => e.2 ≠ 1).map (sooner 1)⟩)
  delays w := w.entries
  delays_default := rfl
  insert_zero _ _ := rfl
  insert_pos id d w hd := by
    refine ⟨_, if_neg (by omega), ?_⟩
    exact Multiset.coe_eq_coe.mpr (List.perm_append_singleton _ _)
  empty_delays w h := by rw [canSkip_empty h]; rfl
  millis_pos w ms h := (canSkip_millis h).1
  millis_lt w ms h e he := first_le (canSkip_millis h).2 he
  skip_delays ms w _ := rfl
  tick_expired w := rfl
  tick_delays w := rfl

end ListWheel

end Arcon
