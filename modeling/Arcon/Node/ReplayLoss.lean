import Arcon.Node.Fallible
import Arcon.Node.Refine

/-!
# What a failed replay loses

`after_state_save` copies the message buffer, clears it in the backend and hands the copy to
`handle_events` message by message. The first `Err` ends the loop, and the copy with it.

* `Along`: from one state to another the node iterated over some events and kept its buffer, its
  guards and its initialisation. Every way of handling an event that completes no epoch is one
  (`wp_handleEvent`), and so is a nested replay, which finds the buffer empty.
* `Passage.Kept`: every message that was in the buffer when a replay started is in the buffer
  still, or has been iterated over to its last event.
* `failed_replay_keeps`: in every life of a node, a replay that returned an `Err` kept its messages
  if nothing the backend does for a buffered event fails, except perhaps for the last one.
* `failed_replay_loses`: a read that fails for the first of two buffered messages loses the second.
-/

namespace Arcon

open Exec Node

namespace Fallible

variable {σ τ TS IN OUT P : Type}

/-! ## Replays -/

/-- The uses of the backend that handling an event can make. -/
def uses : ArconEvent IN → List Use
  | .element _ => [.watermarksGet]
  | .watermark _ => [.watermarksGet, .currentWatermarkGet, .watermarksInsert, .watermarksValues,
      .currentWatermarkSet]
  | .epoch _ => [.currentEpochGet, .blockedInsert, .blockedLen, .currentEpochSet, .savedEpochGet,
      .checkpoint, .blockedClear, .bufferIsEmpty]
  | .death _ => []

/-- The checkpoint the event may ask for can be written. -/
def Saves (n : Node σ TS IN OUT) : ArconEvent IN → Prop
  | .epoch e => n.checkpointDir ≠ none ∧ n.checkpointFails e = false
  | _ => True

/-- Nothing fails while `ev` is handled as the `k`-th event. -/
def Spared (f : Faults) (n : Node σ TS IN OUT) (k : Nat) (ev : ArconEvent IN) : Prop :=
  (∀ u ∈ uses ev, f k u = false) ∧ Saves n ev

end Fallible

namespace Passage

variable {σ τ TS IN OUT P : Type} (p : Passage σ τ IN OUT TS P)

/-- The messages that were in the buffer when the replay started. -/
def buffer : List (RawArconMessage IN) := p.before.state.messageBuffer

/-- The events the node iterated over in the replay. -/
def passed : List (NodeID × ArconEvent IN) :=
  (iterated p.after.ctx.log).drop (iterated p.before.ctx.log).length

/-- The replay returned an `Err`. -/
def Failed : Prop := ∃ msg, p.fault = some (.err msg)

/-- Each buffered message is in the buffer still, or all its events (and those of the messages
before it) have been iterated over. -/
def Kept : Prop :=
  ∀ i m, p.buffer[i]? = some m →
    m ∈ p.after.state.messageBuffer ∨ tasks (p.buffer.take (i + 1)) <+: p.passed

/-- Nothing fails while a buffered event other than the last is handled. -/
def Spared (n : Node σ TS IN OUT) : Prop :=
  ∀ done t rest, tasks p.buffer = done ++ t :: rest → rest ≠ [] →
    Fallible.Spared p.faults n (Fallible.iterations p.before + done.length + 1) t.2

/-- What is proved of every replay. -/
def Accounted (n : Node σ TS IN OUT) : Prop := p.Failed → p.Spared n → p.Kept

end Passage

namespace Fallible

variable {σ τ TS IN OUT P α : Type} {n : Node σ TS IN OUT} {f : Faults}

/-! ## Iterated events -/

theorem iterated_of_moved {s s' : NodeSt σ τ IN OUT TS P} {st : NodeState IN}
    {acts : List (Act IN OUT TS)} (h : s.Moved st acts s') :
    iterated s'.ctx.log = iterated s.ctx.log ++ iterated acts := by
  have hm : iterated s'.marks = iterated s.marks ++ iterated acts := by
    rw [h.marks, iterated_append]
  simpa only [NodeSt.marks, iterated_filter_isMark] using hm

/-! ## Where the node can get to -/

/-- The node's own state is initialised for its in-channels. -/
structure Seeded (n : Node σ TS IN OUT) (st : NodeState IN) : Prop where
  watermarks : ∀ c ∈ n.inChannels, c ∈ st.watermarks
  currentWatermark : st.currentWatermark ≠ none
  currentEpoch : st.currentEpoch ≠ none

/-- From `r` the node iterated over `ts` and came to `r'`. -/
structure Along (n : Node σ TS IN OUT) (r : Trial σ τ IN OUT TS P)
    (ts : List (NodeID × ArconEvent IN)) (r' : Trial σ τ IN OUT TS P) : Prop where
  seeded : Seeded n r'.node.state
  buffer : r'.node.state.messageBuffer = r.node.state.messageBuffer
  passed : iterated r'.node.ctx.log = iterated r.node.ctx.log ++ ts
  borrowed : r'.node.borrowed = r.node.borrowed
  replays : ∀ p ∈ r'.replays, p ∈ r.replays ∨ p.Accounted n

/-- From `r` the node came to `r'`, perhaps through a replay. -/
structure Later (n : Node σ TS IN OUT) (r r' : Trial σ τ IN OUT TS P) : Prop where
  seeded : Seeded n r'.node.state
  buffer : ∀ m ∈ r'.node.state.messageBuffer, m ∈ r.node.state.messageBuffer
  borrowed : r'.node.borrowed = r.node.borrowed
  replays : ∀ p ∈ r'.replays, p ∈ r.replays ∨ p.Accounted n

variable {r r' r'' : Trial σ τ IN OUT TS P} {ts ts' : List (NodeID × ArconEvent IN)}

theorem Along.refl (h : Seeded n r.node.state) : Along n r [] r :=
  ⟨h, rfl, by simp, rfl, fun _ hp => .inl hp⟩

theorem Along.trans (h : Along n r ts r') (h' : Along n r' ts' r'') :
    Along n r (ts ++ ts') r'' := by
  refine ⟨h'.seeded, h'.buffer.trans h.buffer, ?_, h'.borrowed.trans h.borrowed, fun p hp => ?_⟩
  · rw [h'.passed, h.passed, List.append_assoc]
  · rcases h'.replays p hp with hp | hp
    · exact h.replays p hp
    · exact .inr hp

theorem Along.later (h : Along n r ts r') : Later n r r' :=
  ⟨h.seeded, fun _ hm => h.buffer ▸ hm, h.borrowed, h.replays⟩

theorem Later.trans (h : Later n r r') (h' : Later n r' r'') : Later n r r'' := by
  refine ⟨h'.seeded, fun m hm => h.buffer m (h'.buffer m hm), h'.borrowed.trans h.borrowed,
    fun p hp => ?_⟩
  rcases h'.replays p hp with hp | hp
  · exact h.replays p hp
  · exact .inr hp

theorem Later.free (h : Later n r r') (hf : r.node.Free) : r'.node.Free :=
  ⟨by rw [h.borrowed]; exact hf.1, by rw [h.borrowed]; exact hf.2⟩

theorem Along.free (h : Along n r ts r') (hf : r.node.Free) : r'.node.Free := h.later.free hf

theorem Along.iterations (h : Along n r ts r') :
    iterations r'.node = iterations r.node + ts.length := by
  unfold Fallible.iterations
  rw [h.passed, List.length_append]

/-- A move of the node itself. -/
theorem Along.moved (h : Along n r ts r') {st : NodeState IN} {acts : List (Act IN OUT TS)}
    {s : NodeSt σ τ IN OUT TS P} (hm : r'.node.Moved st acts s) (hst : Seeded n st)
    (hb : st.messageBuffer = r'.node.state.messageBuffer) (ha : iterated acts = []) :
    Along n r ts { r' with node := s } := by
  refine ⟨by rw [hm.state]; exact hst, ?_, ?_, hm.borrowed.trans h.borrowed, h.replays⟩
  · rw [hm.state, hb, h.buffer]
  · rw [iterated_of_moved hm, ha, h.passed, List.append_nil]

/-- A write to the node's own state. -/
theorem Along.write (h : Along n r ts r') (st : NodeState IN) (hst : Seeded n st)
    (hb : st.messageBuffer = r'.node.state.messageBuffer) :
    Along n r ts { r' with node := { r'.node with state := st } } := by
  have hm : r'.node.Moved st [] { r'.node with state := st } :=
    ⟨rfl, by simp [NodeSt.marks], rfl⟩
  exact h.moved hm hst hb rfl

theorem Along.quiet (h : Along n r ts r') {s : NodeSt σ τ IN OUT TS P} (hq : r'.node.Quiet s) :
    Along n r ts { r' with node := s } :=
  h.moved hq h.seeded rfl rfl

theorem Seeded.lookup {st : NodeState IN} (h : Seeded n st) {c : NodeID} (hc : c ∈ n.inChannels) :
    st.watermarks.lookup c ≠ none := by
  intro hn
  exact AList.lookup_eq_none.mp hn (h.watermarks c hc)

theorem Seeded.stored {st : NodeState IN} (h : Seeded n st) (c : NodeID) (w : Watermark) :
    Seeded n (stored st c w) :=
  ⟨fun c' hc' => (AList.mem_insert _).mpr (.inr (h.watermarks c' hc')), h.currentWatermark,
    h.currentEpoch⟩

/-! ## Rules -/

theorem wp_lift {x : NodeM σ τ IN OUT TS P α} {Q : α → Trial σ τ IN OUT TS P → Prop}
    {E : Fault → Trial σ τ IN OUT TS P → Prop} :
    wp (lift x) Q E r ↔ wp x (fun a s => Q a { r with node := s })
      (fun e s => E e { r with node := s }) r.node := wp_zoom

section Unit

variable {Q : Unit → Trial σ τ IN OUT TS P → Prop} {E : Fault → Trial σ τ IN OUT TS P → Prop}

/-- A use of the backend succeeds, or fails as the schedule says. -/
theorem wp_attempt {u : Use} (hok : f (iterations r.node) u = false → Q () r)
    (herr : f (iterations r.node) u = true → E (.err "state backend") r) :
    wp (attempt f u) Q E r := by
  unfold attempt
  rw [wp_bind, wp_get, wp_ite, wp_throw, wp_pure]
  exact ⟨herr, fun h => hok (by simpa using h)⟩

theorem wp_withMetrics {x : TrialM σ τ IN OUT TS P Unit}
    (hok : r.node.borrowed .metrics = false →
      wp x (fun a r' => Q a { r' with node := r'.node.release .metrics })
        (fun e r' => E e { r' with node := r'.node.release .metrics })
        { r with node := r.node.hold .metrics })
    (hout : r.node.borrowed .metrics = true → E (.alreadyBorrowed .metrics) r) :
    wp (withMetrics x) Q E r := by
  unfold wp withMetrics
  cases hm : r.node.borrowed .metrics with
  | true => exact hout hm
  | false =>
    have h := hok hm
    unfold wp at h
    simp only [Bool.false_eq_true, if_false]
    cases hx : x { r with node := r.node.hold .metrics } with
    | ok a r' => rw [hx] at h; exact h
    | error e r' => rw [hx] at h; exact h

/-- The end of an event: not for want of depth, and with an `Err` only if something failed. -/
def Fails (f : Faults) (n : Node σ TS IN OUT) (k : Nat) (ev : ArconEvent IN) (flt : Fault) : Prop :=
  flt ≠ .replayBound ∧ ∀ msg, flt = .err msg → ¬Spared f n k ev

theorem Fails.crash {k : Nat} {ev : ArconEvent IN} (c : Crash) : Fails f n k ev (.crash c) :=
  ⟨by simp, by simp⟩

theorem Fails.borrowed {k : Nat} {ev : ArconEvent IN} (c : Cell) :
    Fails f n k ev (.alreadyBorrowed c) := ⟨by simp, by simp⟩

theorem Fails.err {k : Nat} {ev : ArconEvent IN} {msg : String} (h : ¬Spared f n k ev) :
    Fails f n k ev (.err msg) := ⟨by simp, fun _ _ => h⟩

variable {c : NodeID} {ev : ArconEvent IN}

/-- A use of the backend for the event in hand. -/
theorem Along.attempt {u : Use} (h : Along n r [(c, ev)] r') (hu : u ∈ uses ev) (hok : Q () r')
    (herr : ∀ flt r', Along n r [(c, ev)] r' → Fails f n (Fallible.iterations r.node + 1) ev flt →
      E flt r') : wp (attempt f u) Q E r' := by
  refine wp_attempt (fun _ => hok) fun hf => herr _ _ h (Fails.err fun hs => ?_)
  rw [h.iterations] at hf
  rw [List.length_singleton, hs.1 u hu] at hf
  cases hf

end Unit

section Events

variable [TimerBackend τ TS P] {Q : Unit → Trial σ τ IN OUT TS P → Prop}
  {E : Fault → Trial σ τ IN OUT TS P → Prop} {r₁ : Trial σ τ IN OUT TS P} {c : NodeID}

theorem onElement_rule {e : ArconElement IN} (h : Along n r [(c, .element e)] r₁)
    (hf : r.node.Free) (hc : c ∈ n.inChannels)
    (hok : ∀ r', Along n r [(c, .element e)] r' → Q () r')
    (herr : ∀ flt r', Along n r [(c, .element e)] r' →
      Fails f n (iterations r.node + 1) (.element e) flt → E flt r') :
    wp (onElement f n c e) Q E r₁ := by
  unfold onElement
  rw [wp_bind]
  refine h.attempt (by simp [uses]) ?_ herr
  rw [wp_lift]
  refine wp_onElement (h.free hf) (fun hn => absurd hn (h.seeded.lookup hc))
    (fun _ _ _ => hok _ h) ?_ ?_
  · exact fun _ _ _ s' hm => hok _ (h.moved hm h.seeded rfl rfl)
  · exact fun _ _ _ c s' hm => herr _ _ (h.moved hm h.seeded rfl rfl) (Fails.crash c)

theorem onWatermark_rule {w : Watermark} (h : Along n r [(c, .watermark w)] r₁)
    (hf : r.node.Free) (hc : c ∈ n.inChannels)
    (hok : ∀ r', Along n r [(c, .watermark w)] r' → Q () r')
    (herr : ∀ flt r', Along n r [(c, .watermark w)] r' →
      Fails f n (iterations r.node + 1) (.watermark w) flt → E flt r') :
    wp (onWatermark f n c w) Q E r₁ := by
  unfold onWatermark
  rw [wp_bind]
  refine h.attempt (by simp [uses]) ?_ herr
  rw [wp_bind, wp_lift, wp_get]
  cases hw : r₁.node.state.watermarks.lookup c with
  | none => exact absurd hw (h.seeded.lookup hc)
  | some old =>
    simp only
    rw [wp_ite, wp_pure]
    refine ⟨fun _ => hok _ h, fun _ => ?_⟩
    rw [wp_bind]
    refine h.attempt (by simp [uses]) ?_ herr
    cases hcur : r₁.node.state.currentWatermark with
    | none => exact absurd hcur h.seeded.currentWatermark
    | some current =>
      simp only
      rw [wp_bind]
      refine h.attempt (by simp [uses]) ?_ herr
      rw [wp_bind, wp_lift, wp_modifyState]
      have h₂ := h.write _ (h.seeded.stored c w) rfl
      rw [wp_ite, wp_pure]
      refine ⟨fun _ => hok _ h₂, fun _ => ?_⟩
      rw [wp_ite, wp_pure]
      refine ⟨fun _ => hok _ h₂, fun _ => ?_⟩
      rw [wp_bind]
      refine h₂.attempt (by simp [uses]) ?_ herr
      rw [wp_ite, wp_pure]
      refine ⟨fun _ => ?_, fun _ => hok _ h₂⟩
      rw [wp_bind]
      refine h₂.attempt (by simp [uses]) ?_ herr
      rw [wp_lift]
      have hst : ∀ new, Seeded n { stored r₁.node.state c w with currentWatermark := some new } :=
        fun new => ⟨h₂.seeded.watermarks, by simp, h₂.seeded.currentEpoch⟩
      refine wp_advanceWatermark (h₂.free hf) ?_ ?_
      · exact fun _ s' hm => hok _ (h₂.moved hm (hst _) rfl rfl)
      · rintro flt s' hm (⟨cr, rfl⟩ | ⟨rfl, -⟩)
        · exact herr _ _ (h₂.moved hm (hst _) rfl rfl) (Fails.crash cr)
        · exact herr _ _ (h₂.moved hm (hst _) rfl rfl) (Fails.borrowed _)

/-- `save_state` for the marker in hand. -/
theorem saveState_rule {e : Epoch} (h : Along n r [(c, .epoch e)] r₁)
    (he : r₁.node.state.currentEpoch = some e)
    (hok : ∀ r', Along n r [(c, .epoch e)] r' → Q () r')
    (herr : ∀ flt r', Along n r [(c, .epoch e)] r' →
      Fails f n (iterations r.node + 1) (.epoch e) flt → E flt r') :
    wp (saveState f n) Q E r₁ := by
  unfold saveState
  cases hd : n.checkpointDir with
  | none => exact herr _ _ h (Fails.err fun hs => hs.2.1 hd)
  | some dir =>
    simp only
    rw [wp_bind]
    refine h.attempt (by simp [uses]) ?_ herr
    rw [wp_bind, wp_lift, wp_get, he]
    simp only
    rw [wp_bind]
    refine h.attempt (by simp [uses]) ?_ herr
    rw [wp_lift]
    unfold Node.saveState
    rw [wp_bind, wp_get, hd, he]
    simp only
    rw [wp_ite, wp_throw]
    refine ⟨fun hcf => herr _ _ h (Fails.err fun hs => ?_), fun _ => ?_⟩
    · rw [hs.2.2] at hcf
      cases hcf
    · rw [wp_bind, wp_modify, wp_note]
      refine hok _ ⟨h.seeded, h.buffer, ?_, h.borrowed, h.replays⟩
      show iterated (r₁.node.ctx.log ++ [.checkpoint e]) = _
      rw [iterated_append, h.passed]
      exact List.append_nil _

/-- **The epoch step** up to its replay, which starts with the metrics guard out. -/
theorem completeEpoch_rule {after : TrialM σ τ IN OUT TS P Unit} {e : Epoch}
    (h : Along n r [(c, .epoch e)] r₁) (hf : r.node.Free)
    (herr : ∀ flt r', Along n r [(c, .epoch e)] r' →
      Fails f n (iterations r.node + 1) (.epoch e) flt → E flt r')
    (hafter : r.node.borrowed .metrics = false →
      ∀ r', Along n { r with node := r.node.hold .metrics } [(c, .epoch e)] r' →
        wp after (fun a r'' => Q a { r'' with node := r''.node.release .metrics })
          (fun flt r'' => E flt { r'' with node := r''.node.release .metrics }) r') :
    wp (completeEpoch f n after e) Q E r₁ := by
  unfold completeEpoch checkpointEpoch
  simp only [wp_bind]
  refine h.attempt (by simp [uses]) ?_ herr
  rw [wp_lift, wp_modifyState]
  have hst : Seeded n { r₁.node.state with currentEpoch := some e } :=
    ⟨h.seeded.watermarks, h.seeded.currentWatermark, by simp⟩
  rw [wp_lift, wp_note]
  have h₂ := (h.write _ hst rfl).moved (moved_note (a := .handleEpoch e) rfl) hst rfl rfl
  rw [wp_lift]
  refine wp_mono (withContext_quiet (h₂.free hf)) ?_ ?_
  swap
  · rintro _ s' ⟨⟨cr, rfl⟩, hq⟩
    exact herr _ _ (h₂.quiet hq) (Fails.crash cr)
  intro _ s₃ hq₃
  have h₃ := h₂.quiet hq₃
  rw [wp_lift]
  refine wp_mono (timerCall_quiet (h₃.free hf)) ?_ ?_
  swap
  · rintro _ s' ⟨⟨cr, rfl⟩, hq⟩
    exact herr _ _ (h₃.quiet hq) (Fails.crash cr)
  intro _ s₄ hq₄
  have h₄ := h₃.quiet hq₄
  rw [wp_lift, wp_note]
  have h₅ := h₄.moved (moved_note (a := .saveState e) rfl) h₄.seeded rfl rfl
  refine saveState_rule h₅ ?_ (fun r₆ h₆ => ?_) herr
  · show s₄.state.currentEpoch = some e
    rw [hq₄.state, hq₃.state]
  -- the checkpoint is taken: the marker is forwarded under the metrics guard
  refine wp_withMetrics (fun hm => ?_) (fun _ => herr _ _ h₆ (Fails.borrowed _))
  simp only [wp_bind, wp_lift, wp_modifyMetrics]
  have hm₀ : r.node.borrowed .metrics = false := h₆.borrowed ▸ hm
  have hcs := (h₆.free hf).hold_metrics.channelStrategy
  rw [wp_forward (by exact hcs)]
  refine hafter hm₀ _ ⟨h₆.seeded, h₆.buffer, ?_, ?_, h₆.replays⟩
  · show iterated (r₆.node.ctx.log ++ [.forward (.epoch e)]) = _
    rw [iterated_append, h₆.passed]
    exact List.append_nil _
  · simp only [NodeSt.hold]
    rw [h₆.borrowed]

/-- **Handling an event.** It goes along that event, unless it completes an epoch and starts a
replay. -/
theorem wp_handleEvent {after : TrialM σ τ IN OUT TS P Unit} {ev : ArconEvent IN}
    (hf : r.node.Free) (hst : Seeded n r.node.state) (hc : c ∈ n.inChannels)
    (hok : ∀ r', Along n r [(c, ev)] r' → Q () r')
    (herr : ∀ flt r', Along n r [(c, ev)] r' → Fails f n (iterations r.node + 1) ev flt → E flt r')
    (hafter : ∀ e, ev = .epoch e → r.node.borrowed .metrics = false →
      ∀ r', Along n { r with node := r.node.hold .metrics } [(c, ev)] r' →
        wp after (fun a r'' => Q a { r'' with node := r''.node.release .metrics })
          (fun flt r'' => E flt { r'' with node := r''.node.release .metrics }) r') :
    wp (handleEvent f n after c ev) Q E r := by
  unfold handleEvent
  rw [wp_bind, wp_lift, wp_note]
  have h₁ : Along n r [(c, ev)]
      { r with node := { r.node with ctx := r.node.ctx.note (.iter c ev) } } := by
    refine ⟨hst, rfl, ?_, rfl, fun _ hp => .inl hp⟩
    show iterated (r.node.ctx.log ++ [.iter c ev]) = _
    rw [iterated_append]
    rfl
  cases ev with
  | element e => exact onElement_rule h₁ hf hc hok herr
  | watermark w => exact onWatermark_rule h₁ hf hc hok herr
  | death msg =>
    simp only
    rw [wp_lift]
    exact wp_onDeath (h₁.free hf) fun s' hm => hok _ (h₁.moved hm hst rfl rfl)
  | epoch e =>
    simp only [onEpoch]
    rw [wp_bind]
    refine h₁.attempt (by simp [uses]) ?_ herr
    rw [wp_bind, wp_lift, wp_get]
    cases hcur : r.node.state.currentEpoch with
    | none => exact absurd hcur hst.currentEpoch
    | some current =>
      simp only
      rw [wp_ite, wp_pure]
      refine ⟨fun _ => hok _ h₁, fun _ => ?_⟩
      rw [wp_bind]
      refine h₁.attempt (by simp [uses]) ?_ herr
      rw [wp_bind, wp_lift, wp_modifyState]
      have h₂ := h₁.write (blocked r.node.state c) ⟨hst.1, hst.2, hst.3⟩ rfl
      rw [wp_bind]
      refine h₂.attempt (by simp [uses]) ?_ herr
      rw [wp_ite, wp_pure]
      exact ⟨fun _ => completeEpoch_rule h₂ hf herr (hafter e rfl), fun _ => hok _ h₂⟩

end Events

/-! ## Replays keep their messages -/

section Replay

variable [TimerBackend τ TS P] {Q : Unit → Trial σ τ IN OUT TS P → Prop}
  {E : Fault → Trial σ τ IN OUT TS P → Prop}

omit [TimerBackend τ TS P] in
theorem wp_recorded {x : TrialM σ τ IN OUT TS P Unit} :
    wp (recorded f x) Q E r ↔
      wp x (fun a r' => Q a { r' with replays := r'.replays ++ [⟨f, r.node, r'.node, none⟩] })
        (fun e r' => E e { r' with replays := r'.replays ++ [⟨f, r.node, r'.node, some e⟩] })
        r := by
  simp only [wp, recorded]
  cases x r <;> rfl

omit [TimerBackend τ TS P] in
theorem Later.record (h : Later n r r') {p : Passage σ τ IN OUT TS P} (hp : p.Accounted n) :
    Later n r { r' with replays := r'.replays ++ [p] } := by
  refine ⟨h.seeded, h.buffer, h.borrowed, fun q hq => ?_⟩
  rcases List.mem_append.mp hq with hq | hq
  · exact h.replays q hq
  · exact .inr (List.mem_singleton.mp hq ▸ hp)

omit [TimerBackend τ TS P] in
theorem Along.record (h : Along n r ts r') {p : Passage σ τ IN OUT TS P} (hp : p.Accounted n) :
    Along n r ts { r' with replays := r'.replays ++ [p] } :=
  ⟨h.seeded, h.buffer, h.passed, h.borrowed, (h.later.record hp).replays⟩

omit [TimerBackend τ TS P] in
theorem accounted_of_ok (s s' : NodeSt σ τ IN OUT TS P) :
    Passage.Accounted ⟨f, s, s', none⟩ n := by
  rintro ⟨msg, h⟩
  cases h

omit [TimerBackend τ TS P] in
/-- A replay that did not touch the buffer kept it. -/
theorem accounted_of_buffer {s s' : NodeSt σ τ IN OUT TS P} (flt : Option Fault)
    (h : s'.state.messageBuffer = s.state.messageBuffer) :
    Passage.Accounted ⟨f, s, s', flt⟩ n := by
  intro _ _ i m hm
  refine .inl ?_
  show m ∈ s'.state.messageBuffer
  rw [h]
  exact List.mem_of_getElem? hm

/-- What the replay loop relies on when a buffered marker completes another epoch. -/
def NestedOk (f : Faults) (n : Node σ TS IN OUT) (after : TrialM σ τ IN OUT TS P Unit) : Prop :=
  ∀ r, r.node.state.messageBuffer = [] → Seeded n r.node.state →
    wp after (fun _ r' => Along n r [] r')
      (fun flt r' => Along n r [] r' ∧ flt ≠ .replayBound ∧ ∀ msg, flt = .err msg →
        ∃ u ∈ [Use.blockedClear, Use.bufferIsEmpty], f (iterations r.node) u = true) r

/-- **A nested replay finds the buffer empty.** -/
theorem afterStateSave_nested (depth : Nat) :
    NestedOk f n (afterStateSave (τ := τ) (P := P) f n (depth + 1)) := by
  intro r hb hst
  have h := Along.refl (r := r) hst
  unfold afterStateSave
  rw [wp_bind]
  refine wp_attempt (fun _ => ?_) fun hf =>
    ⟨h, by simp, fun _ _ => ⟨.blockedClear, by simp, hf⟩⟩
  rw [wp_bind, wp_lift, wp_modifyState]
  have h₁ := h.write { r.node.state with blockedChannels := ∅ } ⟨hst.1, hst.2, hst.3⟩ rfl
  rw [wp_recorded]
  unfold replayBuffer
  rw [wp_bind]
  refine wp_attempt (fun _ => ?_) fun hf =>
    ⟨h₁.record (accounted_of_buffer _ rfl), by simp, fun _ _ => ⟨.bufferIsEmpty, by simp, hf⟩⟩
  rw [wp_bind, wp_lift, wp_get]
  rw [wp_ite, wp_pure]
  refine ⟨fun _ => h₁.record (accounted_of_ok _ _), fun hne => absurd ?_ hne⟩
  rw [List.isEmpty_iff]
  exact hb

omit [TimerBackend τ TS P] in
/-- Giving the metrics guard back at the end of an epoch step. -/
theorem Along.release (hm : r.node.borrowed .metrics = false)
    (h : Along n { r with node := r.node.hold .metrics } ts r') :
    Along n r ts { r' with node := r'.node.release .metrics } :=
  ⟨h.seeded, h.buffer, h.passed, NodeSt.release_borrowed hm h.borrowed, h.replays⟩

omit [TimerBackend τ TS P] in
theorem Later.release (hm : r.node.borrowed .metrics = false)
    (h : Later n { r with node := r.node.hold .metrics } r') :
    Later n r { r' with node := r'.node.release .metrics } :=
  ⟨h.seeded, h.buffer, NodeSt.release_borrowed hm h.borrowed, h.replays⟩

omit [TimerBackend τ TS P] in
theorem nested_uses (e : Epoch) :
    ∀ u ∈ [Use.blockedClear, Use.bufferIsEmpty], u ∈ uses (.epoch e : ArconEvent IN) := by
  simp [uses]

/-- One buffered event. -/
theorem replay_step {after : TrialM σ τ IN OUT TS P Unit} {c : NodeID} {ev : ArconEvent IN}
    (hafter : NestedOk f n after) (hf : r.node.Free) (hst : Seeded n r.node.state)
    (hb : r.node.state.messageBuffer = []) (hc : c ∈ n.inChannels) :
    wp (handleEvent f n after c ev) (fun _ r' => Along n r [(c, ev)] r')
      (fun flt r' => Along n r [(c, ev)] r' ∧ Fails f n (iterations r.node + 1) ev flt) r := by
  refine wp_handleEvent hf hst hc (fun _ h => h) (fun _ _ h hflt => ⟨h, hflt⟩) ?_
  rintro e rfl hm r' h'
  refine wp_mono (hafter r' (h'.buffer.trans hb) h'.seeded) ?_ ?_
  · intro _ r'' h''
    simpa using (h'.trans h'').release hm
  · rintro flt r'' ⟨h'', hne, herr⟩
    refine ⟨by simpa using (h'.trans h'').release hm, hne, fun msg hmsg hs => ?_⟩
    obtain ⟨u, hu, hfu⟩ := herr msg hmsg
    rw [h'.iterations] at hfu
    have hspared : f (iterations r.node + 1) u = false :=
      hs.1 u (nested_uses e u hu)
    exact absurd (hspared.symm.trans hfu) Bool.false_ne_true

/-- **The replay loop.** It goes along the buffered events up to the one it stops at. -/
theorem replay_loop {after : TrialM σ τ IN OUT TS P Unit} (hafter : NestedOk f n after)
    (hf : r.node.Free) (hst : Seeded n r.node.state) (hb : r.node.state.messageBuffer = [])
    (hc : ∀ t ∈ ts, t.1 ∈ n.inChannels) :
    wp (forM ts fun t => handleEvent f n after t.1 t.2) (fun _ r' => Along n r ts r')
      (fun flt r' => ∃ done t rest, ts = done ++ t :: rest ∧ Along n r (done ++ [t]) r' ∧
        Fails f n (iterations r.node + done.length + 1) t.2 flt) r := by
  refine wp_forM_done (J := fun done r' => Along n r done r') (Along.refl hst) ?_
  intro done t rest r' hts _ h'
  have ht : t.1 ∈ n.inChannels := hc t (by rw [hts]; simp)
  refine wp_mono (replay_step hafter (h'.free hf) h'.seeded (h'.buffer.trans hb) ht) ?_ ?_
  · exact fun _ r'' h'' => h'.trans h''
  · rintro flt r'' ⟨h'', hflt⟩
    rw [h'.iterations] at hflt
    exact ⟨done, t, rest, hts, h'.trans h'', hflt⟩

omit [TimerBackend τ TS P] in
theorem tasks_take (ms : List (RawArconMessage IN)) (i : Nat) : tasks (ms.take i) <+: tasks ms := by
  refine ⟨tasks (ms.drop i), ?_⟩
  unfold tasks
  rw [← List.flatMap_append, List.take_append_drop]

omit [TimerBackend τ TS P] in
/-- A replay that stopped at the last buffered event kept its messages. -/
theorem accounted_of_stop {s : NodeSt σ τ IN OUT TS P} {done rest : List (NodeID × ArconEvent IN)}
    {t : NodeID × ArconEvent IN} {flt : Fault}
    (hts : tasks r.node.state.messageBuffer = done ++ t :: rest)
    (hpassed : iterated s.ctx.log = iterated r.node.ctx.log ++ (done ++ [t]))
    (hflt : Fails f n (iterations r.node + done.length + 1) t.2 flt) :
    Passage.Accounted ⟨f, r.node, s, some flt⟩ n := by
  rintro ⟨msg, hmsg⟩ hspared i m -
  refine .inr ?_
  have hrest : rest = [] := by
    by_contra hne
    exact hflt.2 msg (Option.some.inj hmsg) (hspared done t rest hts hne)
  have hall : (⟨f, r.node, s, some flt⟩ : Passage σ τ IN OUT TS P).passed =
      tasks r.node.state.messageBuffer := by
    show (iterated s.ctx.log).drop (iterated r.node.ctx.log).length = _
    rw [hpassed, List.drop_left, hts, hrest]
  rw [hall]
  exact tasks_take _ _

omit [TimerBackend τ TS P] in
theorem Later.refl (h : Seeded n r.node.state) : Later n r r := (Along.refl h).later

/-- **The second part of `after_state_save`.** -/
theorem replayBuffer_rule {after : TrialM σ τ IN OUT TS P Unit} (hafter : NestedOk f n after)
    (hf : r.node.Free) (hst : Seeded n r.node.state)
    (hsend : ∀ m ∈ r.node.state.messageBuffer, m.sender ∈ n.inChannels) :
    wp (replayBuffer f n after) (fun _ r' => Later n r r')
      (fun flt r' => Later n r r' ∧ flt ≠ .replayBound ∧
        Passage.Accounted ⟨f, r.node, r'.node, some flt⟩ n) r := by
  have hbefore : Later n r r ∧ Fault.err "state backend" ≠ .replayBound ∧
      Passage.Accounted ⟨f, r.node, r.node, some (.err "state backend")⟩ n :=
    ⟨.refl hst, by simp, accounted_of_buffer _ rfl⟩
  unfold replayBuffer
  rw [wp_bind]
  refine wp_attempt (fun _ => ?_) fun _ => hbefore
  rw [wp_bind, wp_lift, wp_get, wp_ite, wp_pure]
  refine ⟨fun _ => .refl hst, fun _ => ?_⟩
  rw [wp_bind]
  refine wp_attempt (fun _ => ?_) fun _ => hbefore
  rw [wp_bind]
  refine wp_attempt (fun _ => ?_) fun _ => hbefore
  rw [wp_bind, wp_lift, wp_modifyState]
  -- from here on the buffer is empty, and the loop runs on the copy
  set r₁ : Trial σ τ IN OUT TS P :=
    { r with node := { r.node with state := { r.node.state with messageBuffer := [] } } } with hr₁
  have later : ∀ {ts r'}, Along n r₁ ts r' → Later n r r' := fun h =>
    ⟨h.seeded, fun m hm => absurd (h.buffer ▸ hm) List.not_mem_nil, h.borrowed, h.replays⟩
  have hsend' : ∀ t ∈ tasks r.node.state.messageBuffer, t.1 ∈ n.inChannels := by
    intro t ht
    obtain ⟨m, hm, ht⟩ := List.mem_flatMap.mp ht
    obtain ⟨ev, -, rfl⟩ := List.mem_map.mp ht
    exact hsend m hm
  simp only [handleEvents]
  rw [forM_tasks]
  refine wp_mono (replay_loop hafter ⟨hf.1, hf.2⟩ ⟨hst.1, hst.2, hst.3⟩ rfl hsend') ?_ ?_
  · exact fun _ r' h' => later h'
  · rintro flt r' ⟨done, t, rest, hts, h', hflt⟩
    exact ⟨later h', hflt.1, accounted_of_stop hts h'.passed hflt⟩

/-- **`after_state_save`** of an epoch step. -/
theorem afterStateSave_rule (depth : Nat) (hf : r.node.Free) (hst : Seeded n r.node.state)
    (hsend : ∀ m ∈ r.node.state.messageBuffer, m.sender ∈ n.inChannels) :
    wp (afterStateSave f n (depth + 2)) (fun _ r' => Later n r r')
      (fun flt r' => Later n r r' ∧ flt ≠ .replayBound) r := by
  unfold afterStateSave
  rw [wp_bind]
  refine wp_attempt (fun _ => ?_) fun _ => ⟨.refl hst, by simp⟩
  rw [wp_bind, wp_lift, wp_modifyState, wp_recorded]
  have h₁ : Later n r _ := ((Along.refl hst).write
    { r.node.state with blockedChannels := ∅ } ⟨hst.1, hst.2, hst.3⟩ rfl).later
  refine wp_mono (replayBuffer_rule (afterStateSave_nested depth) ⟨hf.1, hf.2⟩ h₁.seeded hsend)
    ?_ ?_
  · exact fun _ r' h' => (h₁.trans h').record (accounted_of_ok _ _)
  · rintro flt r' ⟨h', hne, hacc⟩
    exact ⟨(h₁.trans h').record hacc, hne⟩

/-! ## Runs -/

/-- What holds between two messages. -/
structure Sound (n : Node σ TS IN OUT) (r : Trial σ τ IN OUT TS P) : Prop where
  free : r.node.Free
  seeded : Seeded n r.node.state
  senders : ∀ m ∈ r.node.state.messageBuffer, m.sender ∈ n.inChannels
  accounted : ∀ p ∈ r.replays, p.Accounted n

omit [TimerBackend τ TS P] in
theorem Later.sound (h : Later n r r') (hs : Sound n r) : Sound n r' := by
  refine ⟨h.free hs.free, h.seeded, fun m hm => hs.senders m (h.buffer m hm), fun p hp => ?_⟩
  rcases h.replays p hp with hp | hp
  · exact hs.accounted p hp
  · exact hp

/-- **The step lemma**: an event leads on, also if it ends in a fault. -/
theorem handleEvent_sound {c : NodeID} {ev : ArconEvent IN} (hs : Sound n r)
    (hc : c ∈ n.inChannels) :
    wp (handleEvent f n (afterStateSave f n replayDepth) c ev) (fun _ r' => Sound n r')
      (fun flt r' => Sound n r' ∧ flt ≠ .replayBound) r := by
  refine wp_handleEvent hs.free hs.seeded hc (fun _ h => h.later.sound hs)
    (fun _ _ h hflt => ⟨h.later.sound hs, hflt.1⟩) ?_
  rintro e rfl hm r' h'
  have hfree : r'.node.Free := h'.free hs.free.hold_metrics
  have hsend : ∀ m ∈ r'.node.state.messageBuffer, m.sender ∈ n.inChannels := by
    rw [h'.buffer]
    exact hs.senders
  refine wp_mono (afterStateSave_rule 0 hfree h'.seeded hsend) ?_ ?_
  · exact fun _ r'' h'' => ((h'.later.trans h'').release hm).sound hs
  · exact fun _ r'' h'' => ⟨((h'.later.trans h''.1).release hm).sound hs, h''.2⟩

omit [TimerBackend τ TS P] in
theorem recordIncomingEvents_sound (total : Nat) (hs : Sound n r) :
    wp (lift (recordIncomingEvents total)) (fun _ r' => Sound n r' ∧ r'.node.state = r.node.state)
      (fun flt r' => Sound n r' ∧ flt ≠ .replayBound) r := by
  rw [wp_lift]
  unfold recordIncomingEvents
  cases hm : r.node.borrowed .metrics with
  | true =>
    rw [wp_withBorrow_out hm]
    exact ⟨hs, by simp⟩
  | false =>
    rw [wp_withBorrow hm, wp_modifyMetrics]
    have h : Later n { r with node := r.node.hold .metrics }
        { r with node := { r.node.hold .metrics with
          metrics := { r.node.metrics with
            inboundThroughput := r.node.metrics.inboundThroughput + total } } } :=
      ⟨hs.seeded, fun _ hm => hm, rfl, fun _ hp => .inl hp⟩
    exact ⟨(h.release hm).sound hs, rfl⟩

theorem handleFrom_sound (c : NodeID) (evs : List (ArconEvent IN)) (hs : Sound n r) :
    wp (handleFrom f n c evs) (fun _ r' => Sound n r')
      (fun flt r' => Sound n r' ∧ flt ≠ .replayBound) r := by
  unfold handleFrom
  rw [wp_ite, wp_throw]
  refine ⟨fun _ => ⟨hs, by simp⟩, fun hc => ?_⟩
  rw [not_not] at hc
  rw [wp_bind]
  refine wp_mono (recordIncomingEvents_sound evs.length hs) (fun _ r₁ h₁ => ?_) (fun _ _ h => h)
  obtain ⟨hs₁, -⟩ := h₁
  rw [wp_bind]
  refine wp_attempt (fun _ => ?_) fun _ => ⟨hs₁, by simp⟩
  rw [wp_bind, wp_lift, wp_get, wp_ite]
  refine ⟨fun _ => ?_, fun _ => ?_⟩
  · rw [wp_bind]
    refine wp_attempt (fun _ => ?_) fun _ => ⟨hs₁, by simp⟩
    rw [wp_lift, wp_modifyState]
    refine ⟨⟨hs₁.free.1, hs₁.free.2⟩, ⟨hs₁.seeded.1, hs₁.seeded.2, hs₁.seeded.3⟩, ?_,
      hs₁.accounted⟩
    intro m hm
    rcases List.mem_append.mp hm with hm | hm
    · exact hs₁.senders m hm
    · rw [List.mem_singleton.mp hm]
      exact hc
  · exact wp_forM (I := fun _ r' => Sound n r') (fun _ _ _ h => handleEvent_sound h hc) hs₁

omit [TimerBackend τ TS P] in
/-- An `Err` that is logged leaves the state it was returned in. -/
theorem logErr_sound {x : TrialM σ τ IN OUT TS P Unit}
    (h : wp x (fun _ r' => Sound n r') (fun flt r' => Sound n r' ∧ flt ≠ .replayBound) r) :
    wp (logErr x) (fun _ r' => Sound n r') (fun flt r' => Sound n r' ∧ flt ≠ .replayBound) r := by
  unfold wp logErr at *
  cases hx : x r with
  | ok a r' => rw [hx] at h; exact h
  | error e r' =>
    rw [hx] at h
    cases e with
    | err msg => exact h.1
    | crash c => exact h
    | alreadyBorrowed c => exact h
    | replayBound => exact h

/-- **The run lemma.** -/
theorem life_sound (wasRestored : Bool) (ds : List (Faults × Delivery IN)) (hs : Sound n r) :
    wp (life f n wasRestored ds) (fun _ r' => Sound n r')
      (fun flt r' => Sound n r' ∧ flt ≠ .replayBound) r := by
  unfold life
  rw [wp_bind]
  have hstart : wp (onStart f n wasRestored) (fun _ r' => Sound n r')
      (fun flt r' => Sound n r' ∧ flt ≠ .replayBound) r := by
    unfold onStart
    rw [wp_ite, wp_pure]
    refine ⟨fun _ => logErr_sound ?_, fun _ => hs⟩
    refine wp_mono (afterStateSave_rule 0 hs.free hs.seeded hs.senders) ?_ ?_
    · exact fun _ _ h => h.sound hs
    · exact fun _ _ h => ⟨h.1.sound hs, h.2⟩
  refine wp_mono hstart (fun _ r₁ h₁ => ?_) (fun _ _ h => h)
  exact wp_forM (I := fun _ r' => Sound n r')
    (fun d _ _ h => logErr_sound (handleFrom_sound d.2.sender d.2.events h)) h₁

/-- A node that `Node::new` has built, on a backend whose buffer holds messages of its own
in-channels. -/
theorem new_sound {st : NodeState IN} {op : σ} {timer : τ} {s : NodeSt σ τ IN OUT TS P}
    (hnew : Node.new n st op timer = .ok s)
    (hst : ∀ m ∈ st.messageBuffer, m.sender ∈ n.inChannels) : Sound n (fromNew s) := by
  obtain ⟨t, -, rfl⟩ := Control.new_ok hnew
  refine ⟨⟨rfl, rfl⟩, ⟨fun c hc => ?_, by simp [fromNew], by simp [fromNew]⟩, hst, fun _ hp => ?_⟩
  · exact (Control.mem_initWatermarks _ _ _).mpr (.inl hc)
  · cases hp

/-- The depth of the model is enough for every life. -/
theorem life_bound {st : NodeState IN} {op : σ} {timer : τ} {s : NodeSt σ τ IN OUT TS P}
    (hnew : Node.new n st op timer = .ok s)
    (hst : ∀ m ∈ st.messageBuffer, m.sender ∈ n.inChannels) (wasRestored : Bool)
    (ds : List (Faults × Delivery IN)) :
    fault? (life f n wasRestored ds (fromNew s)) ≠ some .replayBound := by
  have h := life_sound (f := f) wasRestored ds (new_sound hnew hst)
  unfold wp at h
  cases hx : life f n wasRestored ds (fromNew s) with
  | ok a r' => simp [fault?]
  | error e r' =>
    rw [hx] at h
    simpa [fault?] using h.2

/-- **A failed replay keeps its messages, if only its last event fails.** In every life of a node,
over any backend: when a replay returned an `Err` and nothing failed for a buffered event other
than the last, every message that was in the buffer when it started has been passed to
`handle_events` to its last event, or is in the buffer still. -/
theorem failed_replay_keeps {st : NodeState IN} {op : σ} {timer : τ} {s : NodeSt σ τ IN OUT TS P}
    (hnew : Node.new n st op timer = .ok s)
    (hst : ∀ m ∈ st.messageBuffer, m.sender ∈ n.inChannels) (wasRestored : Bool)
    (ds : List (Faults × Delivery IN)) {p : Passage σ τ IN OUT TS P}
    (hp : p ∈ (final (life f n wasRestored ds (fromNew s))).replays) (hfailed : p.Failed)
    (hspared : p.Spared n) : p.Kept := by
  have h := life_sound (f := f) wasRestored ds (new_sound hnew hst)
  have hfinal : Sound n (final (life f n wasRestored ds (fromNew s))) :=
    wp_final.mp (wp_mono h (fun _ _ h => h) (fun _ _ h => h.1))
  exact hfinal.accounted p hp hfailed hspared

end Replay

/-- Channel 1 is ahead by a marker and two elements when channel 2 completes the epoch. The read of
the channel's watermark fails for the `k`-th event of the run. -/
def replayRun (k : Nat) : List (Faults × Delivery Int) :=
  [(fun _ _ => false, .onLocal (.epoch 1 1)),
    (fun _ _ => false, .onLocal (.element 12 (some 1) 1)),
    (fun _ _ => false, .onLocal (.element 13 (some 1) 1)),
    (fun k' u => k' = k ∧ u = .watermarksGet, .onLocal (.epoch 1 2))]

/-- Where this run ends. -/
def replayEnd (k : Nat) : Trial Unit Unit Int Int Empty Unit :=
  final (life (fun _ _ => false) (filterNode [1, 2]) false (replayRun k)
    (fromNew (filterStart [1, 2])))

/-- Its replay. -/
def replayPassage (k : Nat) : Passage Unit Unit Int Int Empty Unit :=
  (replayEnd k).replays.headD ⟨fun _ _ => false, filterStart [1, 2], filterStart [1, 2], none⟩

theorem replayPassage_mem {k : Nat} (h : (replayEnd k).replays.isEmpty = false) :
    replayPassage k ∈ (replayEnd k).replays := by
  unfold replayPassage
  cases hr : (replayEnd k).replays with
  | nil => rw [hr] at h; cases h
  | cons p ps => exact List.mem_cons_self

/-- With two elements in the buffer, all that must not fail is the read for the first. -/
theorem spared_of_elements {p : Passage Unit Unit Int Int Empty Unit} {c c' : NodeID}
    {e e' : ArconElement Int} (hts : tasks p.buffer = [(c, .element e), (c', .element e')])
    (h : p.faults (iterations p.before + 1) .watermarksGet = false) :
    p.Spared (filterNode [1, 2]) := by
  intro done t rest hsplit hne
  rw [hts] at hsplit
  rcases done with - | ⟨t₁, - | ⟨t₂, done⟩⟩
  · obtain ⟨rfl, -⟩ := List.cons.inj hsplit
    refine ⟨fun u hu => ?_, trivial⟩
    rw [List.mem_singleton.mp hu]
    exact h
  · simp only [List.cons_append, List.nil_append, List.cons.injEq] at hsplit
    exact absurd hsplit.2.2.symm hne
  · simp at hsplit

/-- The read fails for the second of the buffered elements. -/
theorem failed_replay_keeps_last :
    replayPassage 4 ∈ (replayEnd 4).replays ∧ (replayPassage 4).Failed ∧
      (replayPassage 4).buffer.length = 2 ∧ (replayPassage 4).Kept := by
  have hmem : replayPassage 4 ∈ (replayEnd 4).replays := replayPassage_mem (by decide +kernel)
  have hfailed : (replayPassage 4).Failed := ⟨"state backend", by decide +kernel⟩
  have htasks : tasks (replayPassage 4).buffer =
      [(1, .element ⟨12, some 1⟩), (1, .element ⟨13, some 1⟩)] := by decide +kernel
  refine ⟨hmem, hfailed, by decide +kernel, ?_⟩
  have hnew : Node.new (τ := Unit) (P := Unit) (filterNode [1, 2]) (NodeState.new Int) () () =
      .ok (filterStart [1, 2]) := rfl
  exact failed_replay_keeps hnew (by simp [NodeState.new]) false (replayRun 4) hmem hfailed
    (spared_of_elements htasks (by decide +kernel))

/-- **Lost.** The read fails for the first of the buffered elements: the replay returns the `Err`,
and the second message is not in the buffer and was never iterated over. -/
theorem failed_replay_loses :
    Node.new (τ := Unit) (P := Unit) (filterNode [1, 2]) (NodeState.new Int) () () =
        .ok (filterStart [1, 2]) ∧
      replayPassage 3 ∈ (replayEnd 3).replays ∧ (replayPassage 3).Failed ∧
      ⟨[.element ⟨13, some 1⟩], 1⟩ ∈ (replayPassage 3).buffer ∧
      (replayPassage 3).after.state.messageBuffer = [] ∧
      (1, .element ⟨13, some 1⟩) ∉ iterated (replayEnd 3).node.ctx.log ∧
      ¬(replayPassage 3).Kept := by
  have hmem : replayPassage 3 ∈ (replayEnd 3).replays := replayPassage_mem (by decide +kernel)
  have hbuffer : (replayPassage 3).buffer =
      [⟨[.element ⟨12, some 1⟩], 1⟩, ⟨[.element ⟨13, some 1⟩], 1⟩] := by decide +kernel
  have hafter : (replayPassage 3).after.state.messageBuffer = [] := by decide +kernel
  refine ⟨rfl, hmem, ⟨"state backend", by decide +kernel⟩, by rw [hbuffer]; simp, hafter,
    by decide +kernel, fun hkept => ?_⟩
  rcases hkept 1 ⟨[.element ⟨13, some 1⟩], 1⟩ (by rw [hbuffer]; rfl) with h | h
  · rw [hafter] at h
    cases h
  · revert h
    decide +kernel

end Fallible

end Arcon
