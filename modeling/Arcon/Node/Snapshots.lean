import Arcon.Node.Function

/-!
# What a checkpoint holds

A checkpoint is a copy of the operator's state. It is what the calls before the checkpoint lead to,
and the next event that the node hands on is the marker of the epoch. Most code of a node has
nothing to do with checkpoints: it writes at the end of the log and leaves the checkpoints alone
(`Frames`).

* `Shots`: every checkpoint holds what the calls before it lead to.
* **`run_shots`**: every run keeps this.
-/

namespace Arcon

open Exec

variable {σ τ TS IN OUT P α β : Type}

namespace Node

/-! ## Frames -/

/-- The log is only written at its end, and no checkpoint is taken or changed. -/
def Grown (s s' : NodeSt σ τ IN OUT TS P) : Prop :=
  s.ctx.log <+: s'.ctx.log ∧ s'.checkpoints = s.checkpoints

/-- The code does nothing else, however it ends. -/
def Frames (x : NodeM σ τ IN OUT TS P α) : Prop :=
  ∀ s, wp x (fun _ s' => Grown s s') (fun _ s' => Grown s s') s

theorem Grown.refl (s : NodeSt σ τ IN OUT TS P) : Grown s s := ⟨List.prefix_rfl, rfl⟩

theorem Grown.trans {s s' s'' : NodeSt σ τ IN OUT TS P} (h : Grown s s') (h' : Grown s' s'') :
    Grown s s'' :=
  ⟨h.1.trans h'.1, h'.2.trans h.2⟩

theorem frames_pure (a : α) : Frames (pure a : NodeM σ τ IN OUT TS P α) := fun s => Grown.refl s

theorem frames_throw (f : Fault) : Frames (throw f : NodeM σ τ IN OUT TS P α) :=
  fun s => Grown.refl s

theorem frames_get : Frames (get : NodeM σ τ IN OUT TS P _) := fun s => Grown.refl s

theorem frames_modifyState (f : NodeState IN → NodeState IN) :
    Frames (modifyState f : NodeM σ τ IN OUT TS P Unit) :=
  fun _ => ⟨List.prefix_rfl, rfl⟩

theorem frames_modifyMetrics (f : NodeMetrics → NodeMetrics) :
    Frames (modifyMetrics f : NodeM σ τ IN OUT TS P Unit) :=
  fun _ => ⟨List.prefix_rfl, rfl⟩

theorem frames_note (a : Act IN OUT TS) : Frames (note a : NodeM σ τ IN OUT TS P Unit) :=
  fun s => ⟨List.prefix_append s.ctx.log [a], rfl⟩

theorem Frames.bind {x : NodeM σ τ IN OUT TS P α} {f : α → NodeM σ τ IN OUT TS P β}
    (hx : Frames x) (hf : ∀ a, Frames (f a)) : Frames (x >>= f) := by
  intro s
  rw [wp_bind]
  refine wp_mono (hx s) (fun a s' h => ?_) (fun _ _ h => h)
  exact wp_mono (hf a s') (fun _ _ h' => h.trans h') (fun _ _ h' => h.trans h')

theorem frames_ite {c : Prop} [Decidable c] {x y : NodeM σ τ IN OUT TS P α} (hx : Frames x)
    (hy : Frames y) : Frames (if c then x else y) := by
  by_cases h : c
  · rwa [if_pos h]
  · rwa [if_neg h]

theorem Frames.forM {f : β → NodeM σ τ IN OUT TS P Unit} (hf : ∀ b, Frames (f b)) (l : List β) :
    Frames (forM l f) := by
  induction l with
  | nil => exact frames_pure _
  | cons b l ih => exact (hf b).bind fun _ => ih

theorem Frames.withBorrow {x : NodeM σ τ IN OUT TS P α} (hx : Frames x) (c : Cell) :
    Frames (withBorrow c x) := by
  intro s
  cases hc : s.borrowed c with
  | true => exact (wp_withBorrow_out hc).mpr (Grown.refl s)
  | false => exact (wp_withBorrow hc).mpr (hx (s.hold c))

theorem frames_inCtx {x : EStateM Crash (OpCtx σ τ IN OUT TS) α}
    (hx : ∀ c, wp x (fun _ c' => c.log <+: c'.log) (fun _ c' => c.log <+: c'.log) c) :
    Frames (inCtx x : NodeM σ τ IN OUT TS P α) := by
  intro s
  rw [wp_inCtx]
  exact wp_mono (hx s.ctx) (fun _ _ h => ⟨h, rfl⟩) (fun _ _ h => ⟨h, rfl⟩)

theorem frames_forward (ev : ArconEvent OUT) : Frames (forward ev : NodeM σ τ IN OUT TS P Unit) :=
  (frames_note _).withBorrow _

variable [TimerBackend τ TS P]

theorem frames_withContext (p : OpM σ TS OUT Unit) :
    Frames (withContext p : NodeM σ τ IN OUT TS P Unit) := by
  refine ((frames_inCtx fun c => ?_).withBorrow _).withBorrow _
  exact wp_mono (run_log p c) (fun _ _ ⟨l, hl, _⟩ => ⟨l, hl.symm⟩)
    (fun _ _ ⟨l, hl, _⟩ => ⟨l, hl.symm⟩)

omit [TimerBackend τ TS P] in
theorem frames_timerCall (x : EStateM Crash τ α) :
    Frames (withBorrow .timerBackend (inCtx (OpCtx.timerCall x)) : NodeM σ τ IN OUT TS P α) := by
  refine (frames_inCtx fun c => ?_).withBorrow _
  rw [wp_timerCall]
  exact wp_intro (fun _ _ _ => List.prefix_rfl) (fun _ _ _ => List.prefix_rfl)

variable (n : Node σ TS IN OUT)

theorem frames_onElement (c : NodeID) (e : ArconElement IN) :
    Frames (onElement n c e : NodeM σ τ IN OUT TS P Unit) := by
  refine frames_get.bind fun s => ?_
  cases s.state.watermarks.lookup c with
  | none => exact frames_throw _
  | some w =>
    exact frames_ite (frames_pure _) ((frames_note _).bind fun _ => frames_withContext _)

theorem frames_advanceWatermark (w : Watermark) :
    Frames (advanceWatermark n w : NodeM σ τ IN OUT TS P Unit) := by
  refine (frames_modifyState _).bind fun _ => (frames_note _).bind fun _ =>
    (frames_withContext _).bind fun _ => (frames_timerCall _).bind fun ts => ?_
  refine (Frames.forM (fun t => (frames_note _).bind fun _ => frames_withContext _) ts).bind
    fun _ => ?_
  exact ((frames_modifyMetrics _).bind fun _ => (frames_forward _).bind fun _ =>
    frames_modifyMetrics _).withBorrow _

theorem frames_onWatermark (c : NodeID) (w : Watermark) :
    Frames (onWatermark n c w : NodeM σ τ IN OUT TS P Unit) := by
  refine frames_get.bind fun s => ?_
  cases s.state.watermarks.lookup c with
  | none => exact frames_throw _
  | some old =>
    refine frames_ite (frames_pure _) ?_
    cases s.state.currentWatermark with
    | none => exact frames_throw _
    | some current =>
      refine (frames_modifyState _).bind fun _ => ?_
      exact frames_ite (frames_pure _) (frames_ite (frames_pure _)
        (frames_ite (frames_advanceWatermark n _) (frames_pure _)))

omit [TimerBackend τ TS P] in
theorem frames_onDeath (msg : String) :
    Frames (onDeath msg : NodeM σ τ IN OUT TS P Unit) :=
  (frames_forward _).bind fun _ => frames_note _

omit [TimerBackend τ TS P] in
theorem frames_recordIncomingEvents (total : Nat) :
    Frames (recordIncomingEvents total : NodeM σ τ IN OUT TS P Unit) :=
  (frames_modifyMetrics _).withBorrow _

/-! ## Shots -/

variable {n}

/-- `checkpoint_{id}_{epoch}` in `dir`. -/
def checkpointPath (n : Node σ TS IN OUT) (dir : String) (e : Epoch) : String :=
  dir ++ "/checkpoint_" ++ toString n.id ++ "_" ++ toString e

omit [TimerBackend τ TS P] in
theorem checkpointPath_inj {n : Node σ TS IN OUT} {dir : String} {e e' : Epoch}
    (h : checkpointPath n dir e = checkpointPath n dir e') : e = e' := by
  have hlist := congrArg String.toList h
  simp only [checkpointPath, String.toList_append] at hlist
  have hnum := congrArg (fun ds => Nat.ofDigitChars 10 ds 0) (List.append_cancel_left hlist)
  simpa [Nat.toString_eq_ofList_toDigits] using hnum

/-- What the calls before the checkpoint of `e` lead to, from `c₀`, and the marker is forwarded
right after it. -/
structure Shot (n : Node σ TS IN OUT) (c₀ : OpCtx σ τ IN OUT TS) (log : List (Act IN OUT TS))
    (e : Epoch) (operator : σ) : Prop where
  intro ::
  cut : ∃ pre c, pre ++ [.checkpoint e, .forward (.epoch e)] <+: log ∧
    n.operator.drive (callsOf pre) c₀ = .ok () c ∧ c.log = pre.filter Act.isCall ∧
      c.operator = operator

/-- Every checkpoint is one of these. -/
def Shots (n : Node σ TS IN OUT) (c₀ : OpCtx σ τ IN OUT TS) (s : NodeSt σ τ IN OUT TS P) : Prop :=
  ∀ q ∈ s.checkpoints, ∃ dir e, n.checkpointDir = some dir ∧ q.1 = checkpointPath n dir e ∧
    Shot n c₀ s.ctx.log e q.2.operator

variable {c₀ : OpCtx σ τ IN OUT TS} {s s' : NodeSt σ τ IN OUT TS P}

theorem Shots.grown (h : Shots n c₀ s) (hg : Grown s s') : Shots n c₀ s' := by
  intro q hq
  rw [hg.2] at hq
  obtain ⟨dir, e, hdir, hpath, ⟨pre, c, hpre, hdrive⟩⟩ := h q hq
  exact ⟨dir, e, hdir, hpath, ⟨pre, c, hpre.trans hg.1, hdrive⟩⟩

/-- What an `Err` leaves behind; after a panic nothing is said. -/
def Left (n : Node σ TS IN OUT) (c₀ : OpCtx σ τ IN OUT TS) (f : Fault)
    (s : NodeSt σ τ IN OUT TS P) : Prop :=
  (∃ msg, f = .err msg) → Shots n c₀ s

theorem Frames.shots {x : NodeM σ τ IN OUT TS P α} (hx : Frames x) (h : Shots n c₀ s) :
    wp x (fun _ s' => Shots n c₀ s') (fun f s' => Left n c₀ f s') s :=
  wp_mono (hx s) (fun _ _ hg => h.grown hg) (fun _ _ hg _ => h.grown hg)

/-- A checkpoint is taken: the operator's state, and the last act is that it is. -/
structure Taken (n : Node σ TS IN OUT) (s : NodeSt σ τ IN OUT TS P) (e : Epoch)
    (s' : NodeSt σ τ IN OUT TS P) : Prop where
  log : ∃ pre, s.ctx.log <+: pre ∧ s'.ctx.log = pre ++ [.checkpoint e]
  checkpoints : ∃ dir snap, n.checkpointDir = some dir ∧
    s'.checkpoints = s.checkpoints ++ [(checkpointPath n dir e, snap)] ∧
      snap.operator = s'.ctx.operator

/-- **The first half of an epoch step.** -/
theorem checkpointEpoch_taken (hs : s.Free) (e : Epoch) :
    wp (checkpointEpoch n e) (fun _ s' => Taken n s e s') (fun _ s' => Grown s s') s := by
  unfold checkpointEpoch
  rw [wp_bind, wp_modifyState, wp_bind, wp_note, wp_bind]
  refine (wp_withContext (by exact ⟨hs.1, hs.2⟩)).mpr (wp_mono (run_log _ _) ?_ ?_)
  swap
  · rintro _ c ⟨l, hl, -⟩
    exact ⟨⟨.handleEpoch e :: l, by rw [hl, OpCtx.note_log, List.append_assoc]; rfl⟩, rfl⟩
  rintro _ c ⟨l, hl, -⟩
  rw [wp_bind]
  refine (wp_withBorrow_inCtx (by exact hs.2)).mpr ?_
  rw [wp_timerCall]
  have hlog : s.ctx.log <+: c.log := ⟨.handleEpoch e :: l, by
    rw [hl, OpCtx.note_log, List.append_assoc]
    rfl⟩
  refine wp_intro (fun _ t _ => ?_) (fun _ t _ => ⟨hlog, rfl⟩)
  rw [wp_bind, wp_note]
  unfold saveState
  rw [wp_bind, wp_get]
  have hsave : s.ctx.log <+: c.log ++ [.saveState e] := hlog.trans (List.prefix_append _ _)
  cases hdir : n.checkpointDir with
  | none => exact ⟨hsave, rfl⟩
  | some dir =>
    simp only [wp_ite, wp_throw, wp_bind, wp_modify, wp_note]
    exact ⟨fun _ => ⟨hsave, rfl⟩,
      fun _ => ⟨⟨_, hsave, rfl⟩, ⟨dir, _, hdir, rfl, rfl⟩⟩⟩

/-- A checkpoint and its marker. -/
theorem Taken.shots {s₁ : NodeSt σ τ IN OUT TS P} {e : Epoch} (ht : Taken n s e s₁)
    (hd : Control.Driven n c₀ s₁) (h : Shots n c₀ s)
    (hlog : s'.ctx.log = s₁.ctx.log ++ [.forward (.epoch e)])
    (hcp : s'.checkpoints = s₁.checkpoints) : Shots n c₀ s' := by
  obtain ⟨⟨pre, hpre, hlog₁⟩, dir, snap, hdir, hcps, hop⟩ := ht
  have hlog' : s'.ctx.log = pre ++ [.checkpoint e, .forward (.epoch e)] := by
    rw [hlog, hlog₁, List.append_assoc]
    rfl
  intro q hq
  rw [hcp, hcps, List.mem_append, List.mem_singleton] at hq
  obtain hq | rfl := hq
  · obtain ⟨dir', e', hdir', hpath, ⟨pre', c, hpre', hdrive⟩⟩ := h q hq
    refine ⟨dir', e', hdir', hpath, ⟨pre', c, (hpre'.trans hpre).trans ?_, hdrive⟩⟩
    rw [hlog']
    exact List.prefix_append _ _
  · unfold Control.Driven OpCtx.core at hd
    rw [hlog₁, callsOf_append, List.filter_append] at hd
    refine ⟨dir, e, hdir, rfl, ⟨pre, ⟨s₁.ctx.operator, s₁.ctx.timer, pre.filter Act.isCall⟩,
      by rw [hlog'], ?_, rfl, hop.symm⟩⟩
    rw [show callsOf [(.checkpoint e : Act IN OUT TS)] = [] from rfl,
      show [(.checkpoint e : Act IN OUT TS)].filter Act.isCall = [] from rfl, List.append_nil,
      List.append_nil] at hd
    exact hd

theorem completeEpoch_shots {after : NodeM σ τ IN OUT TS P Unit} {e : Epoch}
    (hafter : ∀ s, Control.Drives n c₀ s → Shots n c₀ s →
      wp after (fun _ s' => Shots n c₀ s') (fun f s' => Left n c₀ f s') s)
    (hd : Control.Drives n c₀ s) (h : Shots n c₀ s) :
    wp (completeEpoch n after e) (fun _ s' => Shots n c₀ s') (fun f s' => Left n c₀ f s') s := by
  unfold completeEpoch
  rw [wp_bind]
  refine wp_mono (wp_and (checkpointEpoch_taken hd.free e) (Control.checkpointEpoch_drives hd))
    (fun _ s₁ h₁ => ?_) (fun _ _ h' _ => h.grown h'.1)
  obtain ⟨ht, hd₁⟩ := h₁
  cases hm : s₁.borrowed .metrics with
  | true => exact (wp_withBorrow_out hm).mpr fun ⟨_, hf⟩ => by cases hf
  | false =>
    have hfree : (s₁.hold .metrics).Free := hd₁.free.hold_metrics
    rw [wp_withBorrow hm]
    simp only [wp_bind, wp_modifyMetrics]
    refine (wp_forward (by exact hfree.1)).mpr ?_
    have hd₂ : Control.Drives n c₀ (s₁.hold .metrics) := ⟨hfree, hd₁.driven.of_ctx rfl⟩
    have hd₃ := (hd₂.note (a := .forward (.epoch e)) rfl rfl)
    refine wp_mono (hafter _ (hd₃.of_ctx rfl rfl) (ht.shots hd₁.driven h rfl rfl))
      (fun _ s' h' => ?_) (fun f s' h' hf => ?_)
    · exact h'.grown ⟨List.prefix_rfl, rfl⟩
    · exact (h' hf).grown ⟨List.prefix_rfl, rfl⟩

/-- **Every event keeps it.** -/
theorem handleEvent_shots {after : NodeM σ τ IN OUT TS P Unit} {c : NodeID} {ev : ArconEvent IN}
    (hafter : ∀ s, Control.Drives n c₀ s → Shots n c₀ s →
      wp after (fun _ s' => Shots n c₀ s') (fun f s' => Left n c₀ f s') s)
    (hd : Control.Drives n c₀ s) (h : Shots n c₀ s) :
    wp (handleEvent n after c ev) (fun _ s' => Shots n c₀ s') (fun f s' => Left n c₀ f s') s := by
  cases ev with
  | element e => exact ((frames_note _).bind fun _ => frames_onElement n c e).shots h
  | watermark w => exact ((frames_note _).bind fun _ => frames_onWatermark n c w).shots h
  | death msg => exact ((frames_note _).bind fun _ => frames_onDeath msg).shots h
  | epoch e =>
    show wp (do note (.iter c (.epoch e)); onEpoch n after c e) _ _ _
    rw [wp_bind, wp_note]
    have h₁ : Shots n c₀ { s with ctx := s.ctx.note (.iter c (.epoch e)) } :=
      h.grown ⟨List.prefix_append _ _, rfl⟩
    have hd₁ := hd.note (a := .iter c (.epoch e)) rfl rfl
    refine wp_onEpoch (fun _ _ => h₁) (fun _ _ _ => h₁)
      (fun _ _ _ _ => h₁.grown ⟨List.prefix_rfl, rfl⟩) fun _ _ _ _ => ?_
    exact completeEpoch_shots hafter (hd₁.of_ctx rfl rfl) (h₁.grown ⟨List.prefix_rfl, rfl⟩)

/-- **A replay keeps it.** -/
theorem afterStateSave_shots (depth : Nat) (hd : Control.Drives n c₀ s) (h : Shots n c₀ s) :
    wp (afterStateSave n depth) (fun _ s' => Shots n c₀ s') (fun f s' => Left n c₀ f s') s := by
  induction depth generalizing s with
  | zero => exact fun _ => h
  | succ depth ih =>
    rw [wp_afterStateSave]
    refine wp_mono (wp_forM (I := fun _ s' => Control.Drives n c₀ s' ∧ Shots n c₀ s')
      (E := fun f s' => Left n c₀ f s') (fun t _ s' h' => ?_)
      ⟨hd.of_ctx rfl rfl, h.grown ⟨List.prefix_rfl, rfl⟩⟩) (fun _ _ h' => h'.2) (fun _ _ h' => h')
    exact wp_mono (wp_and (Control.handleEvent_drives
      (fun _ hd => Control.afterStateSave_drives depth hd) h'.1)
      (handleEvent_shots (fun _ hd h => ih hd h) h'.1 h'.2)) (fun _ _ h => h) (fun _ _ h => h.2)

theorem handle_shots (d : Delivery IN) (hd : Control.Drives n c₀ s) (h : Shots n c₀ s) :
    wp (handle n d) (fun _ s' => Shots n c₀ s') (fun f s' => Left n c₀ f s') s := by
  rw [Control.handle_eq]
  unfold handleFrom
  rw [wp_ite]
  refine ⟨fun _ _ => h, fun _ => ?_⟩
  rw [wp_bind]
  refine wp_mono (wp_and (Control.recordIncomingEvents_drives _ hd)
    ((frames_recordIncomingEvents _).shots h)) (fun _ s₁ h₁ => ?_) (fun _ _ h' => h'.2)
  rw [wp_bind, wp_get, wp_ite]
  refine ⟨fun _ => h₁.2.grown ⟨List.prefix_rfl, rfl⟩, fun _ => ?_⟩
  refine wp_mono (wp_forM (I := fun _ s' => Control.Drives n c₀ s' ∧ Shots n c₀ s')
    (E := fun f s' => Left n c₀ f s') (fun ev _ s' h' => ?_) h₁) (fun _ _ h' => h'.2)
    (fun _ _ h' => h')
  exact wp_mono (wp_and (Control.handleEvent_drives
    (fun _ hd => Control.afterStateSave_drives replayDepth hd) h'.1)
    (handleEvent_shots (fun _ hd h => afterStateSave_shots replayDepth hd h) h'.1 h'.2))
    (fun _ _ h => h) (fun _ _ h => h.2)

theorem receive_shots (d : Delivery IN) (hd : Control.Drives n c₀ s) (h : Shots n c₀ s) :
    wp (receive n d) (fun _ s' => Shots n c₀ s') (fun _ _ => True) s := by
  have hh := handle_shots d hd h
  rw [Control.receive_eq]
  unfold wp logErr at *
  cases hx : handle n d s with
  | ok a s' =>
    rw [hx] at hh
    exact hh
  | error f s' =>
    rw [hx] at hh
    cases f with
    | err msg => exact hh ⟨msg, rfl⟩
    | crash x => trivial
    | alreadyBorrowed c => trivial
    | replayBound => trivial

/-- **Every checkpoint of a run** holds what the calls before it lead to. -/
theorem run_shots {s₀ : NodeSt σ τ IN OUT TS P} (hfresh : Control.Fresh n s₀)
    {ds : List (Delivery IN)} (hrun : run n ds s₀ = .ok () s) : Shots n s₀.ctx s := by
  have hstart : Shots n s₀.ctx s₀ := by
    obtain ⟨op, timer, hnew⟩ := hfresh
    obtain ⟨t, -, rfl⟩ := Control.new_ok hnew
    intro q hq
    cases hq
  refine (wp_ok (wp_forM (I := fun _ s' => Control.Drives n s₀.ctx s' ∧ Shots n s₀.ctx s')
    (E := fun _ _ => True) (fun d _ s' h' => ?_) ⟨hfresh.drives, hstart⟩) hrun).2
  exact wp_mono (wp_and (Control.receive_drives d h'.1) (receive_shots d h'.1 h'.2))
    (fun _ _ h => h) (fun _ _ _ => trivial)

end Node

end Arcon
