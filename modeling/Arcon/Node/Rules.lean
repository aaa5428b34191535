import Arcon.Node.Model
import Arcon.Driver

/-!
# What the steps of a node can do

One rule for each function of `Model.lean`, as a weakest precondition over `Exec.wp`. What the
operator and the timer do inside a call is invisible to the node: such a call keeps the node's own
state, the guards and the checkpoints, and adds only outputs and timeouts to the log. `marks` is
the rest of the log, the node's own acts, and `Quiet` says that a step changed none of this.

All rules assume that the guards on the channel strategy and the timer backend are free (`Free`),
which holds whenever the node starts to handle an event; the metrics guard may be out.
-/

namespace Arcon

open Exec

variable {σ τ TS IN OUT P α : Type}

/-- An act of the node itself, not of the operator code it calls. -/
def Act.isMark : Act IN OUT TS → Bool
  | .output _ => false
  | .handleTimeout _ => false
  | _ => true

/-- The events iterated over, each with its channel, in order. -/
def iterated (l : List (Act IN OUT TS)) : List (NodeID × ArconEvent IN) :=
  l.filterMap fun
    | .iter c ev => some (c, ev)
    | _ => none

@[simp] theorem iterated_append (l₁ l₂ : List (Act IN OUT TS)) :
    iterated (l₁ ++ l₂) = iterated l₁ ++ iterated l₂ := List.filterMap_append

theorem iterated_filter_isMark (l : List (Act IN OUT TS)) :
    iterated (l.filter Act.isMark) = iterated l := by
  unfold iterated
  rw [List.filterMap_filter]
  refine List.filterMap_congr fun a _ => ?_
  cases a <;> simp [Act.isMark]

/-! ## Guards and marks -/

namespace NodeSt

variable (s : NodeSt σ τ IN OUT TS P)

/-- The node's own acts. -/
def marks : List (Act IN OUT TS) := s.ctx.log.filter Act.isMark

/-- With the guard on `c` out. -/
def hold (c : Cell) : NodeSt σ τ IN OUT TS P :=
  { s with borrowed := Function.update s.borrowed c true }

/-- With the guard on `c` back. -/
def release (c : Cell) : NodeSt σ τ IN OUT TS P :=
  { s with borrowed := Function.update s.borrowed c false }

/-- The guards a call into the operator needs are free. -/
structure Free : Prop where
  channelStrategy : s.borrowed .channelStrategy = false
  timerBackend : s.borrowed .timerBackend = false

/-- From `s` the node came to `s'`: its own state is now `st`, it added `acts` to its own acts,
and every guard is as it was. The operator, the timer and the metrics may have changed. -/
structure Moved (s : NodeSt σ τ IN OUT TS P) (st : NodeState IN) (acts : List (Act IN OUT TS))
    (s' : NodeSt σ τ IN OUT TS P) : Prop where
  state : s'.state = st
  marks : s'.marks = s.marks ++ acts
  borrowed : s'.borrowed = s.borrowed

/-- The node itself did nothing. -/
def Quiet (s s' : NodeSt σ τ IN OUT TS P) : Prop := s.Moved s.state [] s'

variable {s}

theorem Moved.trans {s' s'' : NodeSt σ τ IN OUT TS P} {st st' : NodeState IN}
    {acts acts' : List (Act IN OUT TS)} (h : s.Moved st acts s') (h' : s'.Moved st' acts' s'') :
    s.Moved st' (acts ++ acts') s'' :=
  ⟨h'.state, by rw [h'.marks, h.marks, List.append_assoc], h'.borrowed.trans h.borrowed⟩

theorem Quiet.refl : s.Quiet s := ⟨rfl, by simp, rfl⟩

theorem Quiet.trans {s' s'' : NodeSt σ τ IN OUT TS P} (h : s.Quiet s') (h' : s'.Quiet s'') :
    s.Quiet s'' :=
  ⟨h'.state.trans h.state, by rw [h'.marks, h.marks]; simp, h'.borrowed.trans h.borrowed⟩

theorem Moved.quiet {s' s'' : NodeSt σ τ IN OUT TS P} {st : NodeState IN}
    {acts : List (Act IN OUT TS)} (h : s.Moved st acts s') (h' : s'.Quiet s'') :
    s.Moved st acts s'' :=
  ⟨h'.state.trans h.state, by rw [h'.marks, h.marks]; simp, h'.borrowed.trans h.borrowed⟩

theorem Moved.free {s' : NodeSt σ τ IN OUT TS P} {st : NodeState IN} {acts : List (Act IN OUT TS)}
    (h : s.Moved st acts s') (hs : s.Free) : s'.Free :=
  ⟨by rw [h.borrowed]; exact hs.1, by rw [h.borrowed]; exact hs.2⟩

theorem Free.hold_metrics (h : s.Free) : (s.hold .metrics).Free := by
  constructor
  · simpa [hold] using h.channelStrategy
  · simpa [hold] using h.timerBackend

/-- Giving a guard back undoes taking it. -/
theorem release_borrowed {c : Cell} {s' : NodeSt σ τ IN OUT TS P} (hc : s.borrowed c = false)
    (h : s'.borrowed = (s.hold c).borrowed) : (s'.release c).borrowed = s.borrowed := by
  simp only [NodeSt.release, h, hold, Function.update_idem]
  rw [← hc, Function.update_eq_self]

end NodeSt

namespace Node

variable {s : NodeSt σ τ IN OUT TS P} {Q : α → NodeSt σ τ IN OUT TS P → Prop}
  {E : Fault → NodeSt σ τ IN OUT TS P → Prop}

theorem wp_withBorrow {c : Cell} {x : NodeM σ τ IN OUT TS P α} (hc : s.borrowed c = false) :
    wp (withBorrow c x) Q E s ↔
      wp x (fun a s' => Q a (s'.release c)) (fun e s' => E e (s'.release c)) (s.hold c) := by
  simp only [wp, withBorrow, hc, NodeSt.hold, NodeSt.release]
  rw [if_neg Bool.false_ne_true]
  split <;> split <;> simp_all

theorem wp_withBorrow_out {c : Cell} {x : NodeM σ τ IN OUT TS P α} (hc : s.borrowed c = true) :
    wp (withBorrow c x) Q E s ↔ E (.alreadyBorrowed c) s := by
  simp only [wp, withBorrow, hc, if_true]

theorem withBorrow_out {c : Cell} {x : NodeM σ τ IN OUT TS P α} (hc : s.borrowed c = true) :
    withBorrow c x s = .error (.alreadyBorrowed c) s := by
  unfold withBorrow
  rw [hc]
  rfl

theorem withBorrow_ok {c : Cell} {x : NodeM σ τ IN OUT TS P α} {a : α}
    {s' : NodeSt σ τ IN OUT TS P} (hc : s.borrowed c = false) (hx : x (s.hold c) = .ok a s') :
    withBorrow c x s = .ok a (s'.release c) := by
  simp only [NodeSt.hold] at hx
  simp only [withBorrow, hc, hx, Bool.false_eq_true, if_false]
  rfl

theorem withBorrow_error {c : Cell} {x : NodeM σ τ IN OUT TS P α} {e : Fault}
    {s' : NodeSt σ τ IN OUT TS P} (hc : s.borrowed c = false) (hx : x (s.hold c) = .error e s') :
    withBorrow c x s = .error e (s'.release c) := by
  simp only [NodeSt.hold] at hx
  simp only [withBorrow, hc, hx, Bool.false_eq_true, if_false]
  rfl

theorem withBorrow_congr {c : Cell} {x y : NodeM σ τ IN OUT TS P α}
    (h : s.borrowed c = false → x (s.hold c) = y (s.hold c)) :
    withBorrow c x s = withBorrow c y s := by
  simp only [withBorrow]
  cases hc : s.borrowed c with
  | true => rfl
  | false =>
    have := h hc
    simp only [NodeSt.hold] at this
    simp only [this]

theorem wp_inCtx {x : EStateM Crash (OpCtx σ τ IN OUT TS) α} :
    wp (inCtx x) Q E s ↔
      wp x (fun a c => Q a { s with ctx := c }) (fun e c => E (.crash e) { s with ctx := c })
        s.ctx := by
  simp only [wp, inCtx]
  cases x s.ctx <;> rfl

section LogErr

variable {x : NodeM σ τ IN OUT TS P Unit} {s' : NodeSt σ τ IN OUT TS P}

theorem logErr_ok (h : x s = .ok () s') : logErr x s = .ok () s' := by
  simp only [logErr, h]

theorem logErr_err {msg : String} (h : x s = .error (.err msg) s') : logErr x s = .ok () s' := by
  simp only [logErr, h]

theorem logErr_panic {f : Fault} (hf : ∀ msg, f ≠ .err msg) (h : x s = .error f s') :
    logErr x s = .error f s' := by
  cases f with
  | err msg => exact absurd rfl (hf msg)
  | _ => simp only [logErr, h]

end LogErr

section Unit

variable {Q : Unit → NodeSt σ τ IN OUT TS P → Prop}

@[simp] theorem wp_note {a : Act IN OUT TS} :
    wp (note a) Q E s ↔ Q () { s with ctx := s.ctx.note a } := Iff.rfl

@[simp] theorem wp_modifyState {f : NodeState IN → NodeState IN} :
    wp (modifyState f) Q E s ↔ Q () { s with state := f s.state } := Iff.rfl

@[simp] theorem wp_modifyMetrics {f : NodeMetrics → NodeMetrics} :
    wp (modifyMetrics f) Q E s ↔ Q () { s with metrics := f s.metrics } := Iff.rfl

/-- A logged act of the node. -/
theorem moved_note {a : Act IN OUT TS} (ha : a.isMark = true) :
    s.Moved s.state [a] { s with ctx := s.ctx.note a } :=
  ⟨rfl, by simp [NodeSt.marks, OpCtx.note, ha], rfl⟩

/-- Taking a guard, working on the context and giving the guard back only changes the context. -/
theorem release_hold_ctx {c : Cell} (hc : s.borrowed c = false) (ctx : OpCtx σ τ IN OUT TS) :
    NodeSt.release { s.hold c with ctx := ctx } c = { s with ctx := ctx } := by
  simp only [NodeSt.release, NodeSt.hold, Function.update_idem]
  rw [← hc, Function.update_eq_self]

theorem wp_forward {ev : ArconEvent OUT} (hs : s.borrowed .channelStrategy = false) :
    wp (forward ev) Q E s ↔ Q () { s with ctx := s.ctx.note (.forward ev) } := by
  unfold forward
  rw [wp_withBorrow hs, wp_note, release_hold_ctx hs]
  rfl

end Unit

/-- Timer code under its guard is the code on the context. -/
theorem wp_withBorrow_inCtx {c : Cell} {x : EStateM Crash (OpCtx σ τ IN OUT TS) α}
    (hc : s.borrowed c = false) :
    wp (withBorrow c (inCtx x)) Q E s ↔
      wp x (fun a c => Q a { s with ctx := c }) (fun e c => E (.crash e) { s with ctx := c })
        s.ctx := by
  rw [wp_withBorrow hc, wp_inCtx]
  simp only [release_hold_ctx hc]
  rfl

/-- The same, as an equation. -/
theorem withBorrow_inCtx_eq {c : Cell} {x : EStateM Crash (OpCtx σ τ IN OUT TS) α}
    (hc : s.borrowed c = false) : withBorrow (P := P) c (inCtx x) s = inCtx x s := by
  cases hx : x s.ctx with
  | ok a ctx =>
    have hin : inCtx x (s.hold c) = .ok a { s.hold c with ctx := ctx } := by
      unfold inCtx
      rw [show x (s.hold c).ctx = _ from hx]
    rw [withBorrow_ok hc hin, release_hold_ctx hc]
    unfold inCtx
    rw [hx]
  | error e ctx =>
    have hin : inCtx x (s.hold c) = .error (.crash e) { s.hold c with ctx := ctx } := by
      unfold inCtx
      rw [show x (s.hold c).ctx = _ from hx]
    rw [withBorrow_error hc hin, release_hold_ctx hc]
    unfold inCtx
    rw [hx]

theorem forward_eq {ev : ArconEvent OUT} (hs : s.borrowed .channelStrategy = false) :
    forward (P := P) ev s = note (.forward ev) s := by
  have hnote : note (P := P) (.forward ev) (s.hold .channelStrategy) =
      .ok () { s.hold .channelStrategy with ctx := s.ctx.note (.forward ev) } := rfl
  unfold forward
  rw [withBorrow_ok hs hnote, release_hold_ctx hs]
  rfl

section Operator

variable [TimerBackend τ TS P] {Q : Unit → NodeSt σ τ IN OUT TS P → Prop}

/-- A call into the operator is its code on the context. -/
theorem wp_withContext {p : OpM σ TS OUT Unit} (hs : s.Free) :
    wp (withContext p) Q E s ↔
      wp p.run (fun a c => Q a { s with ctx := c }) (fun e c => E (.crash e) { s with ctx := c })
        s.ctx := by
  have htb : (s.hold .channelStrategy).borrowed .timerBackend = false := by
    simpa [NodeSt.hold] using hs.timerBackend
  unfold withContext
  rw [wp_withBorrow hs.channelStrategy, wp_withBorrow_inCtx htb]
  simp only [release_hold_ctx hs.channelStrategy]
  rfl

/-- The same, as an equation. -/
theorem withContext_eq {p : OpM σ TS OUT Unit} (hs : s.Free) :
    withContext p s = inCtx p.run s := by
  have htb : (s.hold .channelStrategy).borrowed .timerBackend = false := by
    simpa [NodeSt.hold] using hs.timerBackend
  have hin := withBorrow_inCtx_eq (P := P) (x := p.run) htb
  rw [← withBorrow_inCtx_eq hs.channelStrategy]
  exact withBorrow_congr fun _ => hin

omit [TimerBackend τ TS P] in
/-- The log only grew by acts of operator code. -/
theorem quiet_of_log {c : OpCtx σ τ IN OUT TS} {l : List (Act IN OUT TS)}
    (hl : c.log = s.ctx.log ++ l) (hout : ∀ a ∈ l, a.isMark = false) :
    s.Quiet { s with ctx := c } := by
  refine ⟨rfl, ?_, rfl⟩
  have : l.filter Act.isMark = [] := by
    simpa [List.filter_eq_nil_iff] using hout
  simp [NodeSt.marks, hl, this]

/-- **A call into the operator is quiet**, and can only fail in the operator or the timer. -/
theorem withContext_quiet {p : OpM σ TS OUT Unit} (hs : s.Free) :
    wp (withContext p) (fun _ s' => s.Quiet s')
      (fun f s' => (∃ c, f = .crash c) ∧ s.Quiet s') s := by
  rw [wp_withContext hs]
  refine wp_mono (run_log p s.ctx) ?_ ?_
  · rintro _ c ⟨l, hl, hout⟩
    exact quiet_of_log hl fun a ha => by obtain ⟨ev, rfl⟩ := hout a ha; rfl
  · rintro e c ⟨l, hl, hout⟩
    exact ⟨⟨e, rfl⟩, quiet_of_log hl fun a ha => by obtain ⟨ev, rfl⟩ := hout a ha; rfl⟩

omit [TimerBackend τ TS P] in
/-- **A call into the timer is quiet.** -/
theorem timerCall_quiet {x : EStateM Crash τ α} (hs : s.Free) :
    wp (withBorrow .timerBackend (inCtx (OpCtx.timerCall x))) (fun _ s' => s.Quiet s')
      (fun f s' => (∃ c, f = .crash c) ∧ s.Quiet s') s := by
  rw [wp_withBorrow_inCtx hs.timerBackend, wp_timerCall]
  exact wp_intro (fun _ _ _ => ⟨rfl, by simp [NodeSt.marks], rfl⟩)
    (fun e _ _ => ⟨⟨e, rfl⟩, rfl, by simp [NodeSt.marks], rfl⟩)

/-- The calls of `handle_timeout` after an `advance_to` are quiet. -/
theorem timeouts_quiet (f : TS → OpM σ TS OUT Unit) (ts : List TS) (hs : s.Free) :
    wp (forM ts fun t => do note (.handleTimeout t); withContext (f t)) (fun _ s' => s.Quiet s')
      (fun f s' => (∃ c, f = .crash c) ∧ s.Quiet s') s := by
  refine wp_forM (I := fun _ s' => s.Quiet s') ?_ NodeSt.Quiet.refl
  intro t _ s₁ h₁
  have hnote : s₁.Quiet { s₁ with ctx := s₁.ctx.note (.handleTimeout t) } :=
    quiet_of_log (l := [.handleTimeout t]) rfl (by simp [Act.isMark])
  rw [wp_bind, wp_note]
  refine wp_mono (withContext_quiet (hnote.free (h₁.free hs))) ?_ ?_
  · exact fun _ s' h' => h₁.trans (hnote.trans h')
  · exact fun _ s' h' => ⟨h'.1, h₁.trans (hnote.trans h'.2)⟩

/-! ## The branches of `handle_events` -/

variable {n : Node σ TS IN OUT}

/-- **Watermark hand-over.** The node stores the new watermark, calls the operator and the timer,
and forwards the watermark, for which the metrics guard must be free. -/
theorem wp_advanceWatermark {w : Watermark} (hs : s.Free)
    (hok : s.borrowed .metrics = false → ∀ s',
      s.Moved { s.state with currentWatermark := some w }
        [.handleWatermark w, .forward (.watermark w)] s' → Q () s')
    (herr : ∀ f s', s.Moved { s.state with currentWatermark := some w } [.handleWatermark w] s' →
      ((∃ c, f = .crash c) ∨ f = .alreadyBorrowed .metrics ∧ s.borrowed .metrics = true) →
      E f s') :
    wp (advanceWatermark n w) Q E s := by
  unfold advanceWatermark
  simp only [wp_bind, wp_modifyState, wp_note]
  set st : NodeState IN := { s.state with currentWatermark := some w } with hst
  set s₁ : NodeSt σ τ IN OUT TS P := { s with state := st, ctx := s.ctx.note (.handleWatermark w) }
  have h₁ : s.Moved st [.handleWatermark w] s₁ :=
    ⟨rfl, by simp [s₁, NodeSt.marks, OpCtx.note, Act.isMark], rfl⟩
  refine wp_mono (withContext_quiet (h₁.free hs)) ?_ ?_
  swap
  · exact fun f s' h' => herr f s' (h₁.quiet h'.2) (.inl h'.1)
  intro _ s₂ h₂
  replace h₂ := h₁.quiet h₂
  refine wp_mono (timerCall_quiet (h₂.free hs)) ?_ ?_
  swap
  · exact fun f s' h' => herr f s' (h₂.quiet h'.2) (.inl h'.1)
  intro ts s₃ h₃
  replace h₃ := h₂.quiet h₃
  refine wp_mono (timeouts_quiet _ ts (h₃.free hs)) ?_ ?_
  swap
  · exact fun f s' h' => herr f s' (h₃.quiet h'.2) (.inl h'.1)
  intro _ s₄ h₄
  replace h₄ := h₃.quiet h₄
  cases hm : s.borrowed .metrics with
  | true =>
    rw [wp_withBorrow_out (by rw [h₄.borrowed]; exact hm)]
    exact herr _ s₄ h₄ (.inr ⟨rfl, hm⟩)
  | false =>
    have hm₄ : s₄.borrowed .metrics = false := by rw [h₄.borrowed]; exact hm
    rw [wp_withBorrow hm₄]
    simp only [wp_bind, wp_modifyMetrics]
    rw [wp_forward (by simpa [NodeSt.hold] using (h₄.free hs).channelStrategy)]
    refine hok hm _ ⟨h₄.state, ?_, ?_⟩
    · have := h₄.marks
      simp only [NodeSt.marks, NodeSt.release, NodeSt.hold, OpCtx.note] at this ⊢
      rw [List.filter_append, this]
      simp [Act.isMark]
    · exact (NodeSt.release_borrowed hm₄ rfl).trans h₄.borrowed

/-- **The `Element` branch**: an element not above its channel's watermark is dropped, any other
one is handed to the operator. -/
theorem wp_onElement {c : NodeID} {e : ArconElement IN} (hs : s.Free)
    (hnone : s.state.watermarks.lookup c = none → E (.err "uninitialized watermark") s)
    (hlate : ∀ w, s.state.watermarks.lookup c = some w → e.timestamp.getD u64Max ≤ w → Q () s)
    (hok : ∀ w, s.state.watermarks.lookup c = some w → w < e.timestamp.getD u64Max →
      ∀ s', s.Moved s.state [.handleElement e] s' → Q () s')
    (herr : ∀ w, s.state.watermarks.lookup c = some w → w < e.timestamp.getD u64Max →
      ∀ f s', s.Moved s.state [.handleElement e] s' → E (.crash f) s') :
    wp (onElement n c e) Q E s := by
  unfold onElement
  rw [wp_bind, wp_get]
  cases hw : s.state.watermarks.lookup c with
  | none => exact hnone hw
  | some w =>
    simp only [wp_ite, wp_pure, wp_bind, wp_note]
    refine ⟨hlate w hw, fun hlt => ?_⟩
    have hnote : s.Moved s.state [.handleElement e] _ := moved_note rfl
    refine wp_mono (withContext_quiet (hnote.free hs)) ?_ ?_
    · exact fun _ s' h' => hok w hw (not_le.mp hlt) s' (hnote.quiet h')
    · rintro _ s' ⟨⟨f, rfl⟩, h'⟩
      exact herr w hw (not_le.mp hlt) f s' (hnote.quiet h')

/-- The state after `watermarks.insert(sender, w)`. -/
def stored (st : NodeState IN) (c : NodeID) (w : Watermark) : NodeState IN :=
  { st with watermarks := st.watermarks.insert c w }

/-- **The `Watermark` branch**: a watermark not above its channel's is ignored, any other one is
stored, and handed over when the minimum passes the current watermark. -/
theorem wp_onWatermark {c : NodeID} {w : Watermark} (hs : s.Free)
    (hnone : s.state.watermarks.lookup c = none ∨ s.state.currentWatermark = none →
      ∀ msg, E (.err msg) s)
    (hold : ∀ old, s.state.watermarks.lookup c = some old → w ≤ old → Q () s)
    (hstore : ∀ old cur, s.state.watermarks.lookup c = some old → old < w →
      s.state.currentWatermark = some cur →
      (cur < old ∨ w ≤ cur ∨ newWatermark (s.state.watermarks.insert c w) w ≤ cur) →
      Q () { s with state := stored s.state c w })
    (hok : ∀ old cur new, s.state.watermarks.lookup c = some old → old < w →
      s.state.currentWatermark = some cur → old ≤ cur → cur < new →
      new = newWatermark (s.state.watermarks.insert c w) w → s.borrowed .metrics = false →
      ∀ s', s.Moved { stored s.state c w with currentWatermark := some new }
        [.handleWatermark new, .forward (.watermark new)] s' → Q () s')
    (herr : ∀ old cur new, s.state.watermarks.lookup c = some old → old < w →
      s.state.currentWatermark = some cur → old ≤ cur → cur < new →
      new = newWatermark (s.state.watermarks.insert c w) w →
      ∀ f s', s.Moved { stored s.state c w with currentWatermark := some new }
        [.handleWatermark new] s' →
      ((∃ c, f = .crash c) ∨ f = .alreadyBorrowed .metrics ∧ s.borrowed .metrics = true) →
      E f s') :
    wp (onWatermark n c w) Q E s := by
  unfold onWatermark
  rw [wp_bind, wp_get]
  cases hw : s.state.watermarks.lookup c with
  | none => exact hnone (.inl hw) _
  | some old =>
    simp only [wp_ite, wp_pure]
    refine ⟨hold old hw, fun hlt => ?_⟩
    rw [not_le] at hlt
    cases hc : s.state.currentWatermark with
    | none => exact hnone (.inr hc) _
    | some cur =>
      simp only [wp_bind, wp_modifyState, wp_ite, wp_pure]
      refine ⟨fun h => hstore old cur hw hlt hc (.inl h), fun h₁ => ?_⟩
      refine ⟨fun h => hstore old cur hw hlt hc (.inr (.inl h)), fun _ => ?_⟩
      refine ⟨fun h => ?_, fun h => hstore old cur hw hlt hc (.inr (.inr (not_lt.mp h)))⟩
      have hs₁ : NodeSt.Free { s with state := stored s.state c w } := ⟨hs.1, hs.2⟩
      refine wp_advanceWatermark hs₁ ?_ ?_
      · exact fun hm s' h' => hok old cur _ hw hlt hc (not_lt.mp h₁) h rfl hm s'
          ⟨h'.state, h'.marks, h'.borrowed⟩
      · exact fun f s' h' => herr old cur _ hw hlt hc (not_lt.mp h₁) h rfl f s'
          ⟨h'.state, h'.marks, h'.borrowed⟩

/-- **The first half of an epoch step**, up to the checkpoint. -/
theorem wp_checkpointEpoch {e : Epoch} (hs : s.Free)
    (hok : n.checkpointDir ≠ none → n.checkpointFails e = false → ∀ s',
      s.Moved { s.state with currentEpoch := some e }
        [.handleEpoch e, .saveState e, .checkpoint e] s' → Q () s')
    (hcrash : ∀ c s', s.Moved { s.state with currentEpoch := some e } [.handleEpoch e] s' →
      E (.crash c) s')
    (hfail : n.checkpointDir = none ∨ n.checkpointFails e = true → ∀ msg s',
      s.Moved { s.state with currentEpoch := some e } [.handleEpoch e, .saveState e] s' →
      E (.err msg) s') :
    wp (checkpointEpoch n e) Q E s := by
  unfold checkpointEpoch
  simp only [wp_bind, wp_modifyState, wp_note]
  set st : NodeState IN := { s.state with currentEpoch := some e } with hst
  set s₁ : NodeSt σ τ IN OUT TS P := { s with state := st, ctx := s.ctx.note (.handleEpoch e) }
  have h₁ : s.Moved st [.handleEpoch e] s₁ :=
    ⟨rfl, by simp [s₁, NodeSt.marks, OpCtx.note, Act.isMark], rfl⟩
  refine wp_mono (withContext_quiet (h₁.free hs)) ?_ ?_
  swap
  · rintro _ s' ⟨⟨c, rfl⟩, h'⟩
    exact hcrash c s' (h₁.quiet h')
  intro _ s₂ h₂
  replace h₂ := h₁.quiet h₂
  refine wp_mono (timerCall_quiet (h₂.free hs)) ?_ ?_
  swap
  · rintro _ s' ⟨⟨c, rfl⟩, h'⟩
    exact hcrash c s' (h₂.quiet h')
  intro _ s₃ h₃
  replace h₃ := h₂.quiet h₃
  have hst₃ : s₃.state = st := h₃.state
  have h₄ : s.Moved st [.handleEpoch e, .saveState e]
      { s₃ with ctx := s₃.ctx.note (.saveState e) } := by
    have := h₃.trans (moved_note (a := .saveState e) rfl)
    exact ⟨hst₃, this.marks, this.borrowed⟩
  unfold saveState
  rw [wp_bind, wp_get]
  cases hd : n.checkpointDir with
  | none => exact hfail (.inl hd) _ _ h₄
  | some dir =>
    have he : s₃.state.currentEpoch = some e := by rw [hst₃]
    simp only [he, wp_ite, wp_throw]
    refine ⟨fun hf => hfail (.inr hf) _ _ h₄, fun hf => ?_⟩
    simp only [wp_bind, wp_modify, wp_note]
    refine hok (by rw [hd]; simp) (by simpa using hf) _ ⟨hst₃, ?_, h₄.borrowed⟩
    have := h₄.marks
    simp only [NodeSt.marks, OpCtx.note] at this ⊢
    rw [List.filter_append, this]
    simp [Act.isMark]

/-- The state in which the replay of an epoch step starts: the marker is forwarded and the metrics
guard is out. -/
structure Replaying (s : NodeSt σ τ IN OUT TS P) (e : Epoch) (s' : NodeSt σ τ IN OUT TS P) :
    Prop where
  state : s'.state = { s.state with currentEpoch := some e }
  marks : s'.marks = s.marks ++
    [.handleEpoch e, .saveState e, .checkpoint e, .forward (.epoch e)]
  borrowed : s'.borrowed = (s.hold .metrics).borrowed

/-- **The epoch step.** -/
theorem wp_completeEpoch {after : NodeM σ τ IN OUT TS P Unit} {e : Epoch} (hs : s.Free)
    (hok : s.borrowed .metrics = false → n.checkpointDir ≠ none → n.checkpointFails e = false →
      ∀ s', Replaying s e s' →
        wp after (fun a s'' => Q a (s''.release .metrics)) (fun f s'' => E f (s''.release .metrics))
          s')
    (hout : s.borrowed .metrics = true → n.checkpointDir ≠ none → n.checkpointFails e = false →
      ∀ s', s.Moved { s.state with currentEpoch := some e }
        [.handleEpoch e, .saveState e, .checkpoint e] s' → E (.alreadyBorrowed .metrics) s')
    (hcrash : ∀ c s', s.Moved { s.state with currentEpoch := some e } [.handleEpoch e] s' →
      E (.crash c) s')
    (hfail : n.checkpointDir = none ∨ n.checkpointFails e = true → ∀ msg s',
      s.Moved { s.state with currentEpoch := some e } [.handleEpoch e, .saveState e] s' →
      E (.err msg) s') :
    wp (completeEpoch n after e) Q E s := by
  unfold completeEpoch
  rw [wp_bind]
  refine wp_checkpointEpoch hs ?_ hcrash hfail
  intro hd hf s₁ h₁
  cases hm : s.borrowed .metrics with
  | true =>
    rw [wp_withBorrow_out (by rw [h₁.borrowed]; exact hm)]
    exact hout hm hd hf s₁ h₁
  | false =>
    have hm₁ : s₁.borrowed .metrics = false := by rw [h₁.borrowed]; exact hm
    rw [wp_withBorrow hm₁]
    simp only [wp_bind, wp_modifyMetrics]
    rw [wp_forward (by simpa [NodeSt.hold] using (h₁.free hs).channelStrategy)]
    refine hok hm hd hf _ ⟨h₁.state, ?_, ?_⟩
    · have := h₁.marks
      simp only [NodeSt.marks, NodeSt.hold, OpCtx.note] at this ⊢
      rw [List.filter_append, this]
      simp [Act.isMark]
    · simp only [NodeSt.hold]
      rw [h₁.borrowed]

/-- The state after `blocked_channels.fast_insert(sender, ())`. -/
def blocked (st : NodeState IN) (c : NodeID) : NodeState IN :=
  { st with blockedChannels := insert c st.blockedChannels }

/-- **The `Epoch` branch**: a marker of the current epoch or an older one is ignored, any other one
blocks its channel, and completes the epoch when every channel is blocked. -/
theorem wp_onEpoch {after : NodeM σ τ IN OUT TS P Unit} {c : NodeID} {e : Epoch}
    (hnone : s.state.currentEpoch = none → E (.err "uninitialized epoch") s)
    (hold : ∀ cur, s.state.currentEpoch = some cur → e ≤ cur → Q () s)
    (hblock : ∀ cur, s.state.currentEpoch = some cur → cur < e →
      (insert c s.state.blockedChannels).card ≠ n.inChannels.length →
      Q () { s with state := blocked s.state c })
    (hcomplete : ∀ cur, s.state.currentEpoch = some cur → cur < e →
      (insert c s.state.blockedChannels).card = n.inChannels.length →
      wp (completeEpoch n after e) Q E { s with state := blocked s.state c }) :
    wp (onEpoch n after c e) Q E s := by
  unfold onEpoch
  rw [wp_bind, wp_get]
  cases hc : s.state.currentEpoch with
  | none => exact hnone hc
  | some cur =>
    simp only [wp_ite, wp_pure, wp_bind, wp_modifyState]
    refine ⟨hold cur hc, fun h => ?_⟩
    rw [not_le] at h
    exact ⟨hcomplete cur hc h, hblock cur hc h⟩

omit [TimerBackend τ TS P] in
theorem wp_onDeath {msg : String} (hs : s.Free)
    (hok : ∀ s', s.Moved s.state [.forward (.death msg), .suicide] s' → Q () s') :
    wp (onDeath msg) Q E s := by
  unfold onDeath
  rw [wp_bind, wp_forward hs.channelStrategy, wp_note]
  exact hok _ ⟨rfl, by simp [NodeSt.marks, OpCtx.note, Act.isMark], rfl⟩

end Operator

end Node

end Arcon
