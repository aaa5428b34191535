import Arcon.Node.Fifo

/-!
# Watermarks of the channels

The watermark the node keeps of a channel is the greatest one processed from it (`reach`), and
`current_watermark` is the least of these. What an event, a replay and a message do to them.
-/

namespace Arcon

open Exec Node

variable {σ τ TS IN OUT P : Type}

/-- The watermark of a channel that was at `w`, after some more events. -/
def reach (w : Watermark) (evs : List (ArconEvent IN)) : Watermark :=
  (evs.filterMap ArconEvent.watermark?).foldl max w

theorem reach_append (w : Watermark) (evs₁ evs₂ : List (ArconEvent IN)) :
    reach w (evs₁ ++ evs₂) = reach (reach w evs₁) evs₂ := by
  unfold reach
  rw [List.filterMap_append, List.foldl_append]

theorem le_reach (w : Watermark) (evs : List (ArconEvent IN)) : w ≤ reach w evs := by
  unfold reach
  generalize evs.filterMap ArconEvent.watermark? = l
  induction l generalizing w with
  | nil => exact le_refl _
  | cons x l ih => exact le_trans (le_max_left _ _) (ih (max w x))

theorem reach_mono (w : Watermark) {evs₁ evs₂ : List (ArconEvent IN)} (h : evs₁ <+: evs₂) :
    reach w evs₁ ≤ reach w evs₂ := by
  obtain ⟨t, rfl⟩ := h
  rw [reach_append]
  exact le_reach _ _

theorem reach_nil (w : Watermark) : reach w ([] : List (ArconEvent IN)) = w := rfl

theorem reach_watermark (w x : Watermark) :
    reach w ([.watermark x] : List (ArconEvent IN)) = max w x := rfl

namespace Control

variable {n : Node σ TS IN OUT} {v : View IN OUT TS} {c c' : NodeID} {st : NodeState IN}

/-- **One event** moves the watermark of its channel only. -/
theorem next_watermark (ev : ArconEvent IN) :
    (next st c' ev).watermark c = reach (st.watermark c) (if c' = c then [ev] else []) := by
  by_cases h : c' = c
  swap
  · rw [if_neg h, reach_nil]
    cases ev with
    | element e => rfl
    | death msg => rfl
    | epoch e => simp only [next]; split_ifs <;> rfl
    | watermark w =>
      have hst : (stored st c' w).watermark c = st.watermark c := by
        rw [watermark_stored, if_neg fun h' => h h'.symm]
      simp only [next]
      split_ifs
      · exact hst
      · exact hst
      · rfl
  subst h
  rw [if_pos rfl]
  cases ev with
  | element e => rfl
  | death msg => rfl
  | epoch e => simp only [next]; split_ifs <;> rfl
  | watermark w =>
    rw [reach_watermark]
    have hst : (stored st c' w).watermark c' = w := by
      rw [watermark_stored, if_pos rfl]
    simp only [next]
    split_ifs with hr hlt
    · rw [max_eq_right hr.1.le]
      exact hst
    · rw [max_eq_right hlt.le]
      exact hst
    · exact (max_eq_left (not_lt.mp hlt)).symm

theorem replay_watermark (ts : List (NodeID × ArconEvent IN)) :
    (replay v ts).state.watermark c = reach (v.state.watermark c) (eventsOf c ts) := by
  induction ts generalizing v with
  | nil => rfl
  | cons t ts ih =>
    rw [eventsOf_cons, reach_append, ← next_watermark]
    exact ih

end Control

end Arcon
