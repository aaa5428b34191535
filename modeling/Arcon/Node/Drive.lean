import Arcon.Node.Refine

/-!
# A node drives its operator

What the operator and the timer of a node have come to is determined by the calls in its log: it is
what `Operator.drive` makes of these calls (`Driven`). So results about all sequences of calls hold
of every node.

* `handleEvent_drives`, `afterStateSave_drives`: every event keeps this.
* `run_drives`: so does every run, and the calls that lead to a panic end in it.
-/

namespace Arcon

open Exec Node

variable {σ τ TS IN OUT P : Type} [TimerBackend τ TS P] {n : Node σ TS IN OUT}
  {c₀ : OpCtx σ τ IN OUT TS} {s : NodeSt σ τ IN OUT TS P}

namespace Control

/-- The operator and the timer are where the calls in the log lead to. -/
def Driven (n : Node σ TS IN OUT) (c₀ : OpCtx σ τ IN OUT TS) (s : NodeSt σ τ IN OUT TS P) : Prop :=
  n.operator.drive (callsOf s.ctx.log) c₀ = .ok () s.ctx.core

/-- What holds between two events. -/
structure Drives (n : Node σ TS IN OUT) (c₀ : OpCtx σ τ IN OUT TS)
    (s : NodeSt σ τ IN OUT TS P) : Prop where
  free : s.Free
  driven : Driven n c₀ s

/-- What a fault leaves behind: the last call panicked, or all calls were done, and the last one may
be a watermark that was not forwarded. -/
def Halted (n : Node σ TS IN OUT) (c₀ : OpCtx σ τ IN OUT TS) (f : Fault)
    (s : NodeSt σ τ IN OUT TS P) : Prop :=
  (∃ x, f = .crash x ∧ n.operator.drive (callsOf s.ctx.log) c₀ = .error x s.ctx.core) ∨
    Drives n c₀ s ∨
      (∀ msg, f ≠ .err msg) ∧ ∃ w, n.operator.drive (callsOf s.ctx.log) c₀ =
        .ok () (s.ctx.core.note (.forward (.watermark w)))

theorem Driven.of_ctx {s' : NodeSt σ τ IN OUT TS P} (h : Driven n c₀ s) (hc : s'.ctx = s.ctx) :
    Driven n c₀ s' := by
  unfold Driven
  rw [hc]
  exact h

/-- An act that is no part of a call. -/
theorem Driven.note (h : Driven n c₀ s) {a : Act IN OUT TS} (ha : a.isCall = false)
    (ha' : a.call? = none) : Driven n c₀ { s with ctx := s.ctx.note a } := by
  unfold Driven
  rw [OpCtx.core_note_other ha, OpCtx.note_log, callsOf_append]
  rw [show callsOf [a] = [] from callsOf_eq_nil (by simpa using ha'), List.append_nil]
  exact h

/-- One more call that returns. -/
theorem Driven.call_ok (h : Driven n c₀ s) {x : Call IN} {c : OpCtx σ τ IN OUT TS}
    (hx : n.operator.call x s.ctx = .ok () c) :
    n.operator.drive (callsOf c.log) c₀ = .ok () c.core := by
  have hlog := wp_ok (n.operator.call_log x s.ctx) hx
  obtain ⟨-, o, ho⟩ := (n.operator.call_core x).ok trivial hx
  rw [hlog, Operator.drive, List.forM_append]
  refine (bind_ok h).trans ?_
  rw [List.forM_cons]
  exact bind_ok (ho [])

/-- One more call that panics. -/
theorem Driven.call_error (h : Driven n c₀ s) {x : Call IN} {e : Crash} {c : OpCtx σ τ IN OUT TS}
    (hx : n.operator.call x s.ctx = .error e c) :
    n.operator.drive (callsOf c.log) c₀ = .error e c.core := by
  have hlog := wp_error (n.operator.call_log x s.ctx) hx
  obtain ⟨o, ho⟩ := (n.operator.call_core x).error trivial hx
  obtain ⟨t, ht, hres⟩ := ho []
  obtain ⟨-, rfl⟩ := hres trivial
  rw [hlog, Operator.drive, List.forM_append]
  refine (bind_ok h).trans ?_
  rw [List.forM_cons]
  exact bind_error ht

/-! ## The node's calls -/

section Calls

variable {Q : Unit → NodeSt σ τ IN OUT TS P → Prop} {F : Fault → NodeSt σ τ IN OUT TS P → Prop}

/-- An element handed to the operator is a call. -/
theorem wp_elementCall {e : ArconElement IN} (hs : s.Free)
    (h : wp (n.operator.call (.element e)) (fun a c => Q a { s with ctx := c })
      (fun x c => F (.crash x) { s with ctx := c }) s.ctx) :
    wp (do note (.handleElement e); withContext (n.operator.handleElement e)) Q F s := by
  rw [wp_bind, wp_note]
  exact (wp_withContext (by exact ⟨hs.1, hs.2⟩)).mpr h

/-- The timeouts of a watermark, on the context. -/
theorem wp_timeouts {ts : List TS} (hs : s.Free)
    (h : wp (forM ts n.operator.fire) (fun a c => Q a { s with ctx := c })
      (fun x c => F (.crash x) { s with ctx := c }) s.ctx) :
    wp (forM ts fun t => do note (.handleTimeout t); withContext (n.operator.handleTimeout t)) Q F
      s := by
  induction ts generalizing s with
  | nil => exact h
  | cons t ts ih =>
    rw [List.forM_cons, wp_bind] at h ⊢
    rw [wp_bind, wp_note]
    refine (wp_withContext (by exact ⟨hs.1, hs.2⟩)).mpr ?_
    exact wp_mono h (fun _ c hc => ih (s := { s with ctx := c }) ⟨hs.1, hs.2⟩ hc) (fun _ _ hc => hc)

/-- **A watermark handed over** is a call, but for the forwarding while the metrics guard is out. -/
theorem wp_watermarkCall {w : Watermark} (hs : s.Free)
    (h : wp (n.operator.advance w)
      (fun _ c => (s.borrowed .metrics = false → ∀ s' : NodeSt σ τ IN OUT TS P,
          s'.state = { s.state with currentWatermark := some w } →
          s'.ctx = c.note (.forward (.watermark w)) → s'.borrowed = s.borrowed → Q () s') ∧
        ∀ s' : NodeSt σ τ IN OUT TS P, s'.ctx = c → F (.alreadyBorrowed .metrics) s')
      (fun x c => ∀ s' : NodeSt σ τ IN OUT TS P, s'.ctx = c → F (.crash x) s') s.ctx) :
    wp (advanceWatermark n w) Q F s := by
  unfold advanceWatermark
  unfold Operator.advance at h
  rw [wp_bind, wp_modifyState, wp_bind, wp_note, wp_bind]
  rw [wp_bind, wp_modify, wp_bind] at h
  refine (wp_withContext (by exact ⟨hs.1, hs.2⟩)).mpr (wp_mono h ?_ (fun _ _ hc => hc _ rfl))
  intro _ c₁ h₁
  rw [wp_bind] at h₁ ⊢
  refine (wp_withBorrow_inCtx (by exact hs.2)).mpr (wp_mono h₁ ?_ (fun _ _ hc => hc _ rfl))
  intro ts c₂ h₂
  rw [wp_bind]
  refine wp_timeouts ⟨hs.1, hs.2⟩ (wp_mono h₂ ?_ (fun _ _ hc => hc _ rfl))
  intro _ c₃ h₃
  cases hm : s.borrowed .metrics with
  | true => exact (wp_withBorrow_out (by exact hm)).mpr (h₃.2 _ rfl)
  | false =>
    refine (wp_withBorrow (by exact hm)).mpr ?_
    simp only [wp_bind, wp_modifyMetrics]
    refine (wp_forward (by simpa [NodeSt.hold] using hs.channelStrategy)).mpr ?_
    exact h₃.1 hm _ rfl rfl (NodeSt.release_borrowed hm rfl)

end Calls

/-! ## Events -/

theorem Drives.of_ctx {s' : NodeSt σ τ IN OUT TS P} (h : Drives n c₀ s) (hc : s'.ctx = s.ctx)
    (hb : s'.borrowed = s.borrowed) : Drives n c₀ s' :=
  ⟨h.free.of_borrowed hb, h.driven.of_ctx hc⟩

theorem Drives.note (h : Drives n c₀ s) {a : Act IN OUT TS} (ha : a.isCall = false)
    (ha' : a.call? = none) : Drives n c₀ { s with ctx := s.ctx.note a } :=
  ⟨⟨h.free.1, h.free.2⟩, h.driven.note ha ha'⟩

theorem onElement_drives {c : NodeID} {e : ArconElement IN} (h : Drives n c₀ s) :
    wp (onElement n c e) (fun _ s' => Drives n c₀ s') (fun f s' => Halted n c₀ f s') s := by
  unfold onElement
  rw [wp_bind, wp_get]
  cases s.state.watermarks.lookup c with
  | none => exact .inr (.inl h)
  | some w =>
    simp only [wp_ite, wp_pure]
    refine ⟨fun _ => h, fun _ => wp_elementCall h.free ?_⟩
    refine wp_intro (fun _ c' hx => ⟨⟨h.free.1, h.free.2⟩, h.driven.call_ok hx⟩) ?_
    exact fun x c' hx => .inl ⟨x, rfl, h.driven.call_error hx⟩

theorem advanceWatermark_drives {w : Watermark} (h : Drives n c₀ s) :
    wp (advanceWatermark n w) (fun _ s' => Drives n c₀ s') (fun f s' => Halted n c₀ f s') s := by
  refine wp_watermarkCall h.free (wp_intro (fun _ c hx => ?_) (fun x c hx s' hc => ?_))
  · have hcall : n.operator.call (.watermark w) s.ctx =
        .ok () (c.note (.forward (.watermark w))) := bind_ok hx
    have hdrive := h.driven.call_ok hcall
    refine ⟨fun _ s' _ hc hb => ⟨h.free.of_borrowed hb, ?_⟩, fun s' hc => .inr (.inr ?_)⟩
    · unfold Driven
      rw [hc]
      exact hdrive
    · rw [OpCtx.note_log, callsOf_append, OpCtx.core_note rfl] at hdrive
      rw [show callsOf [Act.forward (.watermark w)] = ([] : List (Call IN)) from rfl,
        List.append_nil] at hdrive
      refine ⟨(fun _ hf => by cases hf), w, ?_⟩
      rw [hc]
      exact hdrive
  · have hcall : n.operator.call (.watermark w) s.ctx = .error x c := bind_error hx
    refine .inl ⟨x, rfl, ?_⟩
    rw [hc]
    exact h.driven.call_error hcall

theorem onWatermark_drives {c : NodeID} {w : Watermark} (h : Drives n c₀ s) :
    wp (onWatermark n c w) (fun _ s' => Drives n c₀ s') (fun f s' => Halted n c₀ f s') s := by
  unfold onWatermark
  rw [wp_bind, wp_get]
  cases s.state.watermarks.lookup c with
  | none => exact .inr (.inl h)
  | some old =>
    simp only [wp_ite, wp_pure]
    refine ⟨fun _ => h, fun _ => ?_⟩
    cases s.state.currentWatermark with
    | none => exact .inr (.inl h)
    | some cur =>
      simp only [wp_bind, wp_modifyState, wp_ite, wp_pure]
      have hst : ∀ st, Drives n c₀ { s with state := st } := fun st => h.of_ctx rfl rfl
      exact ⟨fun _ => hst _, fun _ => ⟨fun _ => hst _,
        fun _ => ⟨fun _ => advanceWatermark_drives (hst _), fun _ => hst _⟩⟩⟩

/-- The epoch step up to the checkpoint. -/
theorem checkpointEpoch_drives {e : Epoch} (h : Drives n c₀ s) :
    wp (checkpointEpoch n e) (fun _ s' => Drives n c₀ s') (fun f s' => Halted n c₀ f s') s := by
  unfold checkpointEpoch
  rw [wp_bind, wp_modifyState, wp_bind, wp_note, wp_bind]
  refine (wp_withContext (by exact ⟨h.free.1, h.free.2⟩)).mpr (wp_intro (fun _ c hx => ?_) ?_)
  swap
  · intro x c hx
    have hcall : n.operator.call (.epoch e) s.ctx = .error x c :=
      (bind_ok (x := modify (OpCtx.note (.handleEpoch e))) rfl).trans (bind_error hx)
    exact .inl ⟨x, rfl, h.driven.call_error hcall⟩
  rw [wp_bind]
  refine (wp_withBorrow_inCtx (by exact h.free.2)).mpr (wp_intro (fun _ c' hx' => ?_) ?_)
  swap
  · intro x c' hx'
    have hcall : n.operator.call (.epoch e) s.ctx = .error x c' :=
      (bind_ok (x := modify (OpCtx.note (.handleEpoch e))) rfl).trans ((bind_ok hx).trans hx')
    exact .inl ⟨x, rfl, h.driven.call_error hcall⟩
  have hcall : n.operator.call (.epoch e) s.ctx = .ok () c' :=
    (bind_ok (x := modify (OpCtx.note (.handleEpoch e))) rfl).trans ((bind_ok hx).trans hx')
  have hd : Drives n c₀ { s with state := { s.state with currentEpoch := some e }, ctx := c' } :=
    ⟨⟨h.free.1, h.free.2⟩, h.driven.call_ok hcall⟩
  have hd' := hd.note (a := .saveState e) rfl rfl
  rw [wp_bind, wp_note]
  unfold saveState
  rw [wp_bind, wp_get]
  cases n.checkpointDir with
  | none => exact .inr (.inl hd')
  | some dir =>
    simp only [wp_ite, wp_throw, wp_bind, wp_modify, wp_note]
    refine ⟨fun _ => .inr (.inl hd'), fun _ => ?_⟩
    exact (hd'.note (a := .checkpoint e) rfl rfl).of_ctx rfl rfl

theorem Drives.release {c : Cell} (h : Drives n c₀ s) : Drives n c₀ (s.release c) := by
  refine ⟨⟨?_, ?_⟩, h.driven.of_ctx rfl⟩
  · by_cases hc : Cell.channelStrategy = c
    · simp [NodeSt.release, hc]
    · simpa [NodeSt.release, hc] using h.free.1
  · by_cases hc : Cell.timerBackend = c
    · simp [NodeSt.release, hc]
    · simpa [NodeSt.release, hc] using h.free.2

theorem Halted.release {c : Cell} {f : Fault} (h : Halted n c₀ f s) :
    Halted n c₀ f (s.release c) := by
  rcases h with h | h | h
  · exact .inl h
  · exact .inr (.inl h.release)
  · exact .inr (.inr h)

theorem completeEpoch_drives {after : NodeM σ τ IN OUT TS P Unit} {e : Epoch}
    (hafter : ∀ s, Drives n c₀ s →
      wp after (fun _ s' => Drives n c₀ s') (fun f s' => Halted n c₀ f s') s)
    (h : Drives n c₀ s) :
    wp (completeEpoch n after e) (fun _ s' => Drives n c₀ s') (fun f s' => Halted n c₀ f s') s := by
  unfold completeEpoch
  rw [wp_bind]
  refine wp_mono (checkpointEpoch_drives h) (fun _ s₁ h₁ => ?_) (fun _ _ h' => h')
  cases hm : s₁.borrowed .metrics with
  | true => exact (wp_withBorrow_out hm).mpr (.inr (.inl h₁))
  | false =>
    have hfree : (s₁.hold .metrics).Free := h₁.free.hold_metrics
    rw [wp_withBorrow hm]
    simp only [wp_bind, wp_modifyMetrics]
    refine (wp_forward (by exact hfree.1)).mpr ?_
    have h₂ : Drives n c₀ (s₁.hold .metrics) := ⟨hfree, h₁.driven.of_ctx rfl⟩
    exact wp_mono (hafter _ ((h₂.note (a := .forward (.epoch e)) rfl rfl).of_ctx rfl rfl))
      (fun _ s' h' => h'.release) (fun f s' h' => h'.release)

/-- **Every event keeps the node driven.** -/
theorem handleEvent_drives {after : NodeM σ τ IN OUT TS P Unit} {c : NodeID} {ev : ArconEvent IN}
    (hafter : ∀ s, Drives n c₀ s →
      wp after (fun _ s' => Drives n c₀ s') (fun f s' => Halted n c₀ f s') s)
    (h : Drives n c₀ s) :
    wp (handleEvent n after c ev) (fun _ s' => Drives n c₀ s') (fun f s' => Halted n c₀ f s')
      s := by
  unfold handleEvent
  rw [wp_bind, wp_note]
  have h₁ := h.note (a := .iter c ev) rfl rfl
  cases ev with
  | element e => exact onElement_drives h₁
  | watermark w => exact onWatermark_drives h₁
  | death msg =>
    show wp (onDeath msg) _ _ _
    unfold onDeath
    rw [wp_bind]
    refine (wp_forward (by exact h₁.free.1)).mpr ?_
    rw [wp_note]
    exact (h₁.note (a := .forward (.death msg)) rfl rfl).note (a := .suicide) rfl rfl
  | epoch e =>
    show wp (onEpoch n after c e) _ _ _
    refine wp_onEpoch (fun _ => .inr (.inl h₁)) (fun _ _ _ => h₁)
      (fun _ _ _ _ => h₁.of_ctx rfl rfl) fun _ _ _ _ => ?_
    exact completeEpoch_drives hafter (h₁.of_ctx rfl rfl)

/-- **A replay keeps the node driven.** -/
theorem afterStateSave_drives (depth : Nat) (h : Drives n c₀ s) :
    wp (afterStateSave n depth) (fun _ s' => Drives n c₀ s') (fun f s' => Halted n c₀ f s') s := by
  induction depth generalizing s with
  | zero => exact .inr (.inl h)
  | succ depth ih =>
    rw [wp_afterStateSave]
    refine wp_forM (I := fun _ s' => Drives n c₀ s') (fun t _ s' h' => ?_) (h.of_ctx rfl rfl)
    exact handleEvent_drives (fun s h => ih h) h'

theorem handleEvents_drives {c : NodeID} (evs : List (ArconEvent IN)) (h : Drives n c₀ s) :
    wp (handleEvents n (afterStateSave n replayDepth) c evs) (fun _ s' => Drives n c₀ s')
      (fun f s' => Halted n c₀ f s') s :=
  wp_forM (I := fun _ s' => Drives n c₀ s')
    (fun _ _ _ h' => handleEvent_drives (fun _ h => afterStateSave_drives replayDepth h) h') h

theorem recordIncomingEvents_drives (total : Nat) (h : Drives n c₀ s) :
    wp (recordIncomingEvents total) (fun _ s' => Drives n c₀ s')
      (fun f s' => Halted n c₀ f s') s := by
  unfold recordIncomingEvents
  cases hm : s.borrowed .metrics with
  | true => exact (wp_withBorrow_out hm).mpr (.inr (.inl h))
  | false =>
    rw [wp_withBorrow hm, wp_modifyMetrics]
    exact h.of_ctx rfl (NodeSt.release_borrowed hm rfl)

theorem handle_drives (d : Delivery IN) (h : Drives n c₀ s) :
    wp (handle n d) (fun _ s' => Drives n c₀ s') (fun f s' => Halted n c₀ f s') s := by
  rw [handle_eq]
  unfold handleFrom
  rw [wp_ite]
  refine ⟨fun _ => .inr (.inl h), fun _ => ?_⟩
  rw [wp_bind]
  refine wp_mono (recordIncomingEvents_drives _ h) (fun _ s₁ h₁ => ?_) (fun _ _ h' => h')
  rw [wp_bind, wp_get, wp_ite]
  exact ⟨fun _ => h₁.of_ctx rfl rfl, fun _ => handleEvents_drives d.events h₁⟩

/-! ## Runs -/

theorem receive_drives (d : Delivery IN) (h : Drives n c₀ s) :
    wp (receive n d) (fun _ s' => Drives n c₀ s') (fun f s' => Halted n c₀ f s') s := by
  have hh := handle_drives d h
  rw [receive_eq]
  unfold wp logErr at *
  cases hx : handle n d s with
  | ok a s' =>
    rw [hx] at hh
    exact hh
  | error f s' =>
    rw [hx] at hh
    cases f with
    | err msg =>
      rcases hh with ⟨x, hf, -⟩ | hd | ⟨hf, -⟩
      · cases hf
      · exact hd
      · exact absurd rfl (hf msg)
    | crash x => exact hh
    | alreadyBorrowed c => exact hh
    | replayBound => exact hh

/-- **Every run of a node is a run of its operator.** -/
theorem run_drives (ds : List (Delivery IN)) (h : Drives n c₀ s) :
    wp (run n ds) (fun _ s' => Drives n c₀ s') (fun f s' => Halted n c₀ f s') s :=
  wp_forM (I := fun _ s' => Drives n c₀ s') (fun d _ _ h' => receive_drives d h') h

theorem runOk_drives (ds : List (Delivery IN)) (h : Drives n c₀ s) :
    wp (runOk n ds) (fun _ s' => Drives n c₀ s') (fun f s' => Halted n c₀ f s') s :=
  wp_forM (I := fun _ s' => Drives n c₀ s') (fun d _ _ h' => handle_drives d h') h

/-- A fresh node has made no call. -/
theorem Fresh.drives (h : Fresh n s) : Drives n s.ctx s := by
  obtain ⟨-, hidle, hlog, -⟩ := h.eq
  refine ⟨hidle.free, ?_⟩
  unfold Driven OpCtx.core
  rw [hlog]
  show EStateM.Result.ok () s.ctx = .ok () { s.ctx with log := [] }
  rw [← hlog]

end Control

end Arcon
