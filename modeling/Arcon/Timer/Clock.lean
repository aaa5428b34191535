import Arcon.Timer.Spec
import Arcon.Driver

/-!
# The event timer under an operator

Operator code can read the time and schedule timeouts; only a watermark moves the time. So along
every run of an operator the timer stays in step and its time is the greatest watermark it was
given (`drive_time`).
-/

namespace Arcon

open Exec

/-- The time after a call. -/
def Call.time {IN : Type} (now : Nat) : Call IN → Nat
  | .watermark w => max now w
  | _ => now

namespace EventTimer

variable {σ W Id TS IN OUT α : Type} [HashWheel W Id] [DecidableEq Id] [UuidSource Id]

/-- From `t` the timer came to `t'`: it is in step, and the time is `now`. -/
structure At (now : Nat) (t : EventTimer W Id TS) : Prop where
  inStep : InStep t
  time : t.time = now

variable {c : OpCtx σ (EventTimer W Id TS) IN OUT TS} {now : Nat}

/-- **Operator code** keeps the time. -/
theorem run_time (p : OpM σ TS OUT α) (h : At now c.timer) :
    wp p.run (fun _ c' => At now c'.timer) (fun _ _ => True) c := by
  induction p generalizing c with
  | pure a => exact h
  | panic msg => trivial
  | getState k ih =>
    simp only [OpM.run, wp_bind, wp_get]
    exact ih _ h
  | setState s k ih =>
    simp only [OpM.run, wp_bind, wp_modify]
    exact ih h
  | output ev k ih =>
    simp only [OpM.run, wp_bind, wp_modify]
    exact ih h
  | currentTime k ih =>
    simp only [OpM.run, wp_bind, wp_timerCall]
    exact (wp_currentTime h.inStep.started).mpr (ih _ h)
  | scheduleAfter delay entry k ih =>
    simp only [OpM.run, wp_bind, wp_timerCall]
    exact wp_scheduleAfter h.inStep (fun _ => ih _ h)
      (fun _ t' _ hsch => ih _ ⟨hsch.inStep, hsch.time.trans h.time⟩)
  | scheduleAt time entry k ih =>
    simp only [OpM.run, wp_bind, wp_timerCall]
    exact wp_scheduleAt h.inStep (fun _ => ih _ h)
      (fun _ t' _ hsch => ih _ ⟨hsch.inStep, hsch.time.trans h.time⟩)

/-- **One call** moves the time to its watermark. -/
theorem call_time (o : Operator σ TS IN OUT) (x : Call IN) (h : At now c.timer) :
    wp (o.call x) (fun _ c' => At (x.time now) c'.timer) (fun _ _ => True) c := by
  cases x with
  | element e =>
    unfold Operator.call
    rw [wp_bind, wp_modify]
    exact run_time _ h
  | epoch e =>
    unfold Operator.call
    rw [wp_bind, wp_modify, wp_bind]
    refine wp_mono (run_time _ h) (fun _ c' h' => ?_) (fun _ _ _ => trivial)
    rw [wp_timerCall]
    exact h'
  | watermark w =>
    unfold Operator.call Operator.advance
    rw [wp_bind, wp_bind, wp_modify, wp_bind]
    refine wp_mono (run_time _ h) (fun _ c₁ h₁ => ?_) (fun _ _ _ => trivial)
    rw [wp_bind, wp_timerCall]
    -- once the time has moved, the timeouts keep it
    have hfire : ∀ (ts : List TS) (t : EventTimer W Id TS), At (max now w) t →
        wp (forM ts o.fire) (fun _ c' => At (max now w) c'.timer) (fun _ _ => True)
          { c₁ with timer := t } := by
      intro ts t ht
      refine wp_forM (I := fun _ (c' : OpCtx σ (EventTimer W Id TS) IN OUT TS) =>
        At (max now w) c'.timer) (fun t' _ c' h' => ?_) ht
      unfold Operator.fire
      rw [wp_bind, wp_modify]
      exact run_time _ h'
    refine wp_advanceTo h₁.inStep (fun _ _ => trivial) (fun hlt => hfire _ _ ⟨h₁.inStep, ?_⟩)
      (fun hle l t' hl => hfire _ _ ⟨hl.inStep, ?_⟩)
    · rw [h₁.time] at hlt ⊢
      exact (max_eq_left hlt.le).symm
    · rw [h₁.time] at hle
      rw [hl.time]
      exact (max_eq_right hle).symm

/-- **Along a run** the time is the greatest watermark of the calls. -/
theorem drive_time (o : Operator σ TS IN OUT) (calls : List (Call IN)) (h : At now c.timer) :
    wp (o.drive calls) (fun _ c' => At (calls.foldl Call.time now) c'.timer)
      (fun _ _ => True) c := by
  induction calls generalizing c now with
  | nil => exact h
  | cons x calls ih =>
    unfold Operator.drive
    rw [List.forM_cons, wp_bind]
    exact wp_mono (call_time o x h) (fun _ c' h' => ih h') (fun _ _ _ => trivial)

omit [DecidableEq Id] [UuidSource Id] in
/-- A timer that `init` has set up on an empty backend. -/
theorem init_new :
    wp init (fun _ t => At 0 t ∧ t.agenda = 0) (fun _ _ => True)
      (new (TimerState.new Id TS) : EventTimer W Id TS) := by
  refine wp_mono (wp_init (show (TimerState.new Id TS).currentTime.getD 0 = 0 from rfl))
    (fun _ t h => ⟨⟨h.2.1, ?_⟩, ?_⟩) (fun _ _ _ => trivial)
  · unfold time
    rw [h.2.2]
    rfl
  · unfold agenda entries
    rw [h.2.2]
    rfl

end EventTimer

end Arcon
