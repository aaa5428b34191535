import Arcon.Operator
import Arcon.Lib.Abstraction

/-!
# Operators as nodes drive them

All a node ever does with its operator and its timer is a sequence of calls: an element, a new
watermark (with the timeouts it fires, and forwarded after them) or a completed epoch. `drive` runs
such calls on a context of its own, without the node. The log of the context holds what the calls
did, the acts for which `Act.isCall` holds.

* `call_log`: what one call adds to the log, as seen from outside.
* `call_core`: a call depends on, and changes, only this part of a node's log.
* `drive_rule`: the invariant rule.
-/

namespace Arcon

open Exec

variable {σ τ TS IN OUT P α : Type}

/-- A call of a node into its operator. -/
inductive Call (IN : Type)
  | element (e : ArconElement IN)
  | watermark (w : Watermark)
  | epoch (e : Epoch)
  deriving DecidableEq, Repr

/-- The call an act starts. -/
def Act.call? : Act IN OUT TS → Option (Call IN)
  | .handleElement e => some (.element e)
  | .handleWatermark w => some (.watermark w)
  | .handleEpoch e => some (.epoch e)
  | _ => none

/-- The calls of a log, in order. -/
def callsOf (l : List (Act IN OUT TS)) : List (Call IN) := l.filterMap Act.call?

/-- An act that is part of a call. -/
def Act.isCall : Act IN OUT TS → Bool
  | .handleElement _ => true
  | .handleWatermark _ => true
  | .handleTimeout _ => true
  | .handleEpoch _ => true
  | .output _ => true
  | .forward (.watermark _) => true
  | _ => false

/-- The context with the acts of the calls only. -/
def OpCtx.core (c : OpCtx σ τ IN OUT TS) : OpCtx σ τ IN OUT TS :=
  { c with log := c.log.filter Act.isCall }

namespace Operator

section Drive

variable [TimerBackend τ TS P] (o : Operator σ TS IN OUT)

/-- Hand a timeout to the operator. -/
def fire (t : TS) : EStateM Crash (OpCtx σ τ IN OUT TS) Unit := do
  modify (OpCtx.note (.handleTimeout t))
  (o.handleTimeout t).run

/-- Hand a watermark to the operator and fire the timeouts it reaches. -/
def advance (w : Watermark) : EStateM Crash (OpCtx σ τ IN OUT TS) Unit := do
  modify (OpCtx.note (.handleWatermark w))
  (o.handleWatermark w).run
  let timeouts ← OpCtx.timerCall (TimerBackend.advanceTo w)
  forM timeouts o.fire

/-- One call. -/
def call : Call IN → EStateM Crash (OpCtx σ τ IN OUT TS) Unit
  | .element e => do
    modify (OpCtx.note (.handleElement e))
    (o.handleElement e).run
  | .watermark w => do
    o.advance w
    modify (OpCtx.note (.forward (.watermark w)))
  | .epoch e => do
    modify (OpCtx.note (.handleEpoch e))
    (o.handleEpoch e).run
    OpCtx.timerCall (TimerBackend.handleEpoch e)

/-- A run of the operator: calls in order, to the first panic. -/
def drive (calls : List (Call IN)) : EStateM Crash (OpCtx σ τ IN OUT TS) Unit := forM calls o.call

end Drive

end Operator

/-! ## The log -/

@[simp] theorem callsOf_append (l₁ l₂ : List (Act IN OUT TS)) :
    callsOf (l₁ ++ l₂) = callsOf l₁ ++ callsOf l₂ := List.filterMap_append

theorem callsOf_eq_nil {l : List (Act IN OUT TS)} (h : ∀ a ∈ l, a.call? = none) :
    callsOf l = [] := List.filterMap_eq_nil_iff.mpr h

@[simp] theorem OpCtx.note_log (a : Act IN OUT TS) (c : OpCtx σ τ IN OUT TS) :
    (c.note a).log = c.log ++ [a] := rfl

theorem OpCtx.core_note {a : Act IN OUT TS} (h : a.isCall = true) (c : OpCtx σ τ IN OUT TS) :
    (c.note a).core = c.core.note a := by
  simp [OpCtx.core, OpCtx.note, h]

theorem OpCtx.core_note_other {a : Act IN OUT TS} (h : a.isCall = false)
    (c : OpCtx σ τ IN OUT TS) : (c.note a).core = c.core := by
  simp [OpCtx.core, OpCtx.note, h]

/-- The log grew by acts that start no call. -/
def Grows (c c' : OpCtx σ τ IN OUT TS) : Prop :=
  ∃ l, c'.log = c.log ++ l ∧ ∀ a ∈ l, a.call? = none ∧ ∀ ev, a ≠ .forward ev

theorem Grows.trans {c c' c'' : OpCtx σ τ IN OUT TS} (h : Grows c c') (h' : Grows c' c'') :
    Grows c c'' := by
  obtain ⟨l, hl, hcall⟩ := h
  obtain ⟨l', hl', hcall'⟩ := h'
  refine ⟨l ++ l', by rw [hl', hl, List.append_assoc], fun a ha => ?_⟩
  rcases List.mem_append.mp ha with ha | ha
  · exact hcall a ha
  · exact hcall' a ha

theorem Grows.callsOf {c c' : OpCtx σ τ IN OUT TS} (h : Grows c c') :
    callsOf c'.log = callsOf c.log := by
  obtain ⟨l, hl, hcall⟩ := h
  rw [hl, callsOf_append, callsOf_eq_nil fun a ha => (hcall a ha).1, List.append_nil]

/-! ## Operator code -/

section Operator

variable [TimerBackend τ TS P]

theorem wp_timerCall {x : EStateM Crash τ α} {Q : α → OpCtx σ τ IN OUT TS → Prop}
    {E : Crash → OpCtx σ τ IN OUT TS → Prop} {c : OpCtx σ τ IN OUT TS} :
    wp (OpCtx.timerCall x) Q E c ↔
      wp x (fun a t => Q a { c with timer := t }) (fun e t => E e { c with timer := t }) c.timer :=
  wp_zoom

section Rules

variable {β : Type} {c : OpCtx σ τ IN OUT TS} {F : Crash → OpCtx σ τ IN OUT TS → Prop}

theorem wp_run_bind {p : OpM σ TS OUT α} {f : α → OpM σ TS OUT β}
    {Q : β → OpCtx σ τ IN OUT TS → Prop} :
    wp (p >>= f).run Q F c ↔ wp p.run (fun a c' => wp (f a).run Q F c') F c := by
  induction p generalizing c with
  | pure a => exact Iff.rfl
  | panic msg => exact Iff.rfl
  | getState k ih => exact ih _
  | setState s k ih => exact ih
  | output ev k ih => exact ih
  | currentTime k ih =>
    show wp (OpM.currentTime fun t => k t >>= f).run Q F c ↔ _
    simp only [OpM.run, wp_bind, ih]
  | scheduleAfter delay entry k ih =>
    show wp (OpM.scheduleAfter delay entry fun r => k r >>= f).run Q F c ↔ _
    simp only [OpM.run, wp_bind, ih]
  | scheduleAt time entry k ih =>
    show wp (OpM.scheduleAt time entry fun r => k r >>= f).run Q F c ↔ _
    simp only [OpM.run, wp_bind, ih]

theorem wp_run_read {Q : σ → OpCtx σ τ IN OUT TS → Prop} :
    wp (OpM.read : OpM σ TS OUT σ).run Q F c ↔ Q c.operator c := Iff.rfl

theorem wp_run_update {f : σ → σ} {Q : Unit → OpCtx σ τ IN OUT TS → Prop} :
    wp (OpM.update f : OpM σ TS OUT Unit).run Q F c ↔ Q () { c with operator := f c.operator } :=
  Iff.rfl

theorem wp_run_emit {ev : ArconEvent OUT} {Q : Unit → OpCtx σ τ IN OUT TS → Prop} :
    wp (OpM.emit ev : OpM σ TS OUT Unit).run Q F c ↔ Q () (c.note (.output ev)) := Iff.rfl

theorem wp_run_expect {msg : String} {x : Option α} {Q : α → OpCtx σ τ IN OUT TS → Prop}
    (hsome : ∀ a, x = some a → Q a c) (hnone : x = none → F (.panic msg) c) :
    wp (OpM.expect msg x : OpM σ TS OUT α).run Q F c := by
  cases x with
  | some a => exact hsome a rfl
  | none => exact hnone rfl

/-- The loop rule for operator code. -/
theorem wp_run_forM {f : α → OpM σ TS OUT PUnit} {I : List α → OpCtx σ τ IN OUT TS → Prop}
    (step : ∀ a l c, I (a :: l) c → wp (f a).run (fun _ c' => I l c') F c) :
    ∀ {l : List α} {c : OpCtx σ τ IN OUT TS}, I l c →
      wp (forM l f : OpM σ TS OUT PUnit).run (fun _ c' => I [] c') F c
  | [], _, h => h
  | a :: l, c, h => by
    rw [List.forM_cons, wp_run_bind]
    exact wp_mono (step a l c h) (fun _ _ h' => wp_run_forM step h') (fun _ _ h' => h')

end Rules

/-- **Operator code only adds outputs to the log.** -/
theorem run_log (p : OpM σ TS OUT α) (c : OpCtx σ τ IN OUT TS) :
    wp p.run (fun _ c' => ∃ l, c'.log = c.log ++ l ∧ ∀ a ∈ l, ∃ ev, a = .output ev)
      (fun _ c' => ∃ l, c'.log = c.log ++ l ∧ ∀ a ∈ l, ∃ ev, a = .output ev) c := by
  induction p generalizing c with
  | pure a => exact ⟨[], by simp⟩
  | panic msg => exact ⟨[], by simp⟩
  | getState k ih =>
    simp only [OpM.run, wp_bind, wp_get]
    exact ih _ c
  | setState s k ih =>
    simp only [OpM.run, wp_bind, wp_modify]
    exact ih _
  | output ev k ih =>
    simp only [OpM.run, wp_bind, wp_modify]
    refine wp_mono (ih _) ?_ ?_ <;>
    · rintro _ c' ⟨l, hl, hout⟩
      refine ⟨.output ev :: l, by simp [hl, OpCtx.note], ?_⟩
      simpa using hout
  | currentTime k ih =>
    simp only [OpM.run, wp_bind, wp_timerCall]
    exact wp_intro (fun t t' _ => ih t _) (fun _ _ _ => ⟨[], by simp⟩)
  | scheduleAfter delay entry k ih =>
    simp only [OpM.run, wp_bind, wp_timerCall]
    exact wp_intro (fun t t' _ => ih t _) (fun _ _ _ => ⟨[], by simp⟩)
  | scheduleAt time entry k ih =>
    simp only [OpM.run, wp_bind, wp_timerCall]
    exact wp_intro (fun t t' _ => ih t _) (fun _ _ _ => ⟨[], by simp⟩)

end Operator

section Log

variable [TimerBackend τ TS P]

theorem run_grows (p : OpM σ TS OUT α) (c : OpCtx σ τ IN OUT TS) :
    wp p.run (fun _ c' => Grows c c') (fun _ c' => Grows c c') c := by
  refine wp_mono (run_log p c) ?_ ?_ <;>
  · rintro _ c' ⟨l, hl, hout⟩
    refine ⟨l, hl, fun a ha => ?_⟩
    obtain ⟨ev, rfl⟩ := hout a ha
    exact ⟨rfl, by simp⟩

theorem Operator.fire_grows (o : Operator σ TS IN OUT) (t : TS) (c : OpCtx σ τ IN OUT TS) :
    wp (o.fire t) (fun _ c' => Grows c c') (fun _ c' => Grows c c') c := by
  have hnote : Grows c (c.note (.handleTimeout t)) :=
    ⟨[.handleTimeout t], rfl, by simp [Act.call?]⟩
  unfold Operator.fire
  rw [wp_bind, wp_modify]
  exact wp_mono (run_grows _ _) (fun _ _ h => hnote.trans h) (fun _ _ h => hnote.trans h)

/-- A watermark starts one call, and forwards nothing before its timeouts are handled. -/
theorem Operator.advance_grows (o : Operator σ TS IN OUT) (w : Watermark)
    (c : OpCtx σ τ IN OUT TS) :
    wp (o.advance w) (fun _ c' => Grows (c.note (.handleWatermark w)) c')
      (fun _ c' => Grows (c.note (.handleWatermark w)) c') c := by
  unfold Operator.advance
  rw [wp_bind, wp_modify, wp_bind]
  refine wp_mono (run_grows _ _) (fun _ c₁ h₁ => ?_) (fun _ _ h => h)
  rw [wp_bind, wp_timerCall]
  refine wp_intro (fun ts t _ => ?_) (fun _ t _ => h₁)
  refine wp_forM (I := fun _ c' => Grows (c.note (.handleWatermark w)) c')
    (fun t' _ c' h' => ?_) (show Grows _ { c₁ with timer := t } from h₁)
  exact wp_mono (o.fire_grows t' c') (fun _ _ h => h'.trans h) (fun _ _ h => h'.trans h)

/-- **One call starts one call.** -/
theorem Operator.call_log (o : Operator σ TS IN OUT) (x : Call IN)
    (c : OpCtx σ τ IN OUT TS) :
    wp (o.call x) (fun _ c' => callsOf c'.log = callsOf c.log ++ [x])
      (fun _ c' => callsOf c'.log = callsOf c.log ++ [x]) c := by
  cases x with
  | element e =>
    unfold Operator.call
    rw [wp_bind, wp_modify]
    refine wp_mono (run_grows _ _) ?_ ?_ <;>
    · intro _ c' h
      rw [h.callsOf, OpCtx.note_log, callsOf_append]
      rfl
  | epoch e =>
    unfold Operator.call
    rw [wp_bind, wp_modify, wp_bind]
    refine wp_mono (run_grows _ _) (fun _ c' h => ?_) (fun _ c' h => ?_)
    · rw [wp_timerCall]
      refine wp_intro ?_ ?_ <;>
      · intro _ t _
        show callsOf c'.log = _
        rw [h.callsOf, OpCtx.note_log, callsOf_append]
        rfl
    · rw [h.callsOf, OpCtx.note_log, callsOf_append]
      rfl
  | watermark w =>
    unfold Operator.call
    rw [wp_bind]
    refine wp_mono (o.advance_grows w c) (fun _ c' h => ?_) (fun _ c' h => ?_)
    · rw [wp_modify, OpCtx.note_log, callsOf_append, h.callsOf, OpCtx.note_log, callsOf_append]
      exact List.append_nil _
    · rw [h.callsOf, OpCtx.note_log, callsOf_append]
      rfl

end Log

/-! ## The context of the calls -/

section Core

/-- A node's context, shown as that of its calls. -/
def coreAbs (σ τ IN OUT TS : Type) :
    Abstraction Crash (OpCtx σ τ IN OUT TS) (OpCtx σ τ IN OUT TS) Empty where
  abs c _ := c.core
  Ok _ := True
  Resumes _ := True

theorem follows_note {a : Act IN OUT TS} (h : a.isCall = true) :
    (coreAbs σ τ IN OUT TS).Follows (modify (OpCtx.note a)) (modify (OpCtx.note a)) :=
  Abstraction.follows_modify (fun _ _ => trivial) fun c _ _ => (OpCtx.core_note h c).symm

theorem follows_timerCall (x : EStateM Crash τ α) :
    (coreAbs σ τ IN OUT TS).Follows (OpCtx.timerCall x)
      (OpCtx.timerCall x) := by
  intro c _
  unfold Abstraction.FollowsAt
  rw [wp_timerCall]
  refine wp_intro (fun a t hx => ⟨trivial, [], fun _ => ?_⟩) (fun e t hx => ⟨[], fun _ => ?_⟩)
  · show Exec.zoom _ _ x c.core = _
    unfold Exec.zoom
    rw [show x c.core.timer = _ from hx]
    rfl
  · refine ⟨{ c.core with timer := t }, ?_, fun _ => ⟨trivial, rfl⟩⟩
    show Exec.zoom _ _ x c.core = _
    unfold Exec.zoom
    rw [show x c.core.timer = _ from hx]

variable [TimerBackend τ TS P]

theorem follows_run (p : OpM σ TS OUT α) :
    (coreAbs σ τ IN OUT TS).Follows p.run p.run := by
  induction p with
  | pure a => exact Abstraction.follows_pure a
  | panic msg => exact Abstraction.follows_throw _
  | getState k ih =>
    exact Abstraction.follows_get fun c hc => ⟨_, fun _ => rfl, ih c.operator c hc⟩
  | setState s k ih =>
    exact Abstraction.Follows.bind
      (Abstraction.follows_modify (fun _ _ => trivial) fun _ _ _ => rfl) fun _ => ih
  | output ev k ih => exact (follows_note rfl).bind fun _ => ih
  | currentTime k ih => exact (follows_timerCall _).bind ih
  | scheduleAfter delay entry k ih => exact (follows_timerCall _).bind ih
  | scheduleAt time entry k ih => exact (follows_timerCall _).bind ih

/-- **A call is the same on the context of the calls.** -/
theorem Operator.call_core (o : Operator σ TS IN OUT) (x : Call IN) :
    (coreAbs σ τ IN OUT TS).Follows (o.call x) (o.call x) := by
  cases x with
  | element e => exact (follows_note rfl).bind fun _ => follows_run _
  | epoch e =>
    exact (follows_note rfl).bind fun _ => (follows_run _).bind fun _ => follows_timerCall _
  | watermark w =>
    refine Abstraction.Follows.bind ?_ fun _ => follows_note rfl
    refine (follows_note rfl).bind fun _ => (follows_run _).bind fun _ => ?_
    refine (follows_timerCall _).bind fun ts => Abstraction.Follows.forM (fun t => ?_) ts
    exact (follows_note rfl).bind fun _ => follows_run _

end Core

end Arcon
