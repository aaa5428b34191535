import Arcon.Node.Rules

/-!
# The replay of the message buffer

`after_state_save` empties `blocked_channels` and hands the buffered messages to `handle_events`,
which may complete an epoch and call `after_state_save` again.

* `afterStateSave_succ`: a replay is one loop over the buffered events, from the drained state.
* `afterStateSave_depth`, `afterStateSave_bound`: nested replays find an empty buffer, so two levels
  are all there are. The bound of `afterStateSave` is never reached and more depth changes nothing:
  the mutual recursion of the Rust ends on every message.
-/

namespace Arcon

open Exec

namespace Node

variable {σ τ TS IN OUT P : Type} [TimerBackend τ TS P] {n : Node σ TS IN OUT}
  {s : NodeSt σ τ IN OUT TS P}

/-- The events of some messages, each with its sender, in order. -/
def tasks (ms : List (RawArconMessage IN)) : List (NodeID × ArconEvent IN) :=
  ms.flatMap fun m => m.events.map fun ev => (m.sender, ev)

/-- The events of channel `c` among some tasks. -/
def eventsOf (c : NodeID) (ts : List (NodeID × ArconEvent IN)) : List (ArconEvent IN) :=
  (ts.filter fun t => t.1 = c).map Prod.snd

/-- One turn of the replay loop. -/
def handleTask (n : Node σ TS IN OUT) (after : NodeM σ τ IN OUT TS P Unit)
    (t : NodeID × ArconEvent IN) : NodeM σ τ IN OUT TS P Unit :=
  handleEvent n after t.1 t.2

/-- The state in which the replay loop starts. -/
def drained (st : NodeState IN) : NodeState IN :=
  { st with blockedChannels := ∅, messageBuffer := [] }

theorem tasks_cons (m : RawArconMessage IN) (ms : List (RawArconMessage IN)) :
    tasks (m :: ms) = m.events.map (fun ev => (m.sender, ev)) ++ tasks ms := rfl

/-- A loop over messages with a loop over the events of each is one loop over the events. -/
theorem forM_tasks {ε ρ : Type} (g : NodeID → ArconEvent IN → EStateM ε ρ PUnit)
    (ms : List (RawArconMessage IN)) :
    (forM ms fun m => forM m.events (g m.sender)) = forM (tasks ms) fun t => g t.1 t.2 := by
  induction ms with
  | nil => rfl
  | cons m ms ih =>
    rw [List.forM_cons, ih, tasks_cons, List.forM_append]
    congr 1
    induction m.events with
    | nil => rfl
    | cons ev evs ih => rw [List.map_cons, List.forM_cons, List.forM_cons, ih]

/-- **`after_state_save` as one loop** over the buffered events. -/
theorem afterStateSave_succ (depth : Nat) :
    afterStateSave n (depth + 1) s = forM (tasks s.state.messageBuffer)
      (handleTask n (afterStateSave n depth)) { s with state := drained s.state } := by
  have hloop : forM (tasks s.state.messageBuffer) (handleTask n (afterStateSave n depth)) =
      forM s.state.messageBuffer fun m =>
        handleEvents n (afterStateSave (τ := τ) (P := P) n depth) m.sender m.events :=
    (forM_tasks (handleEvent n (afterStateSave n depth)) _).symm
  rw [hloop, afterStateSave, modifyState, modify_bind, get_bind]
  cases hb : s.state.messageBuffer with
  | nil => rfl
  | cons m ms => rfl

theorem wp_afterStateSave {depth : Nat} {Q : Unit → NodeSt σ τ IN OUT TS P → Prop}
    {E : Fault → NodeSt σ τ IN OUT TS P → Prop} :
    wp (afterStateSave n (depth + 1)) Q E s ↔
      wp (forM (tasks s.state.messageBuffer) (handleTask n (afterStateSave n depth))) Q E
        { s with state := drained s.state } := by
  simp only [wp, afterStateSave_succ]

/-! ## Nested replays -/

/-- The epoch step depends on `after_state_save` only in the states in which it calls it. -/
theorem completeEpoch_congr {a₁ a₂ : NodeM σ τ IN OUT TS P Unit} {e : Epoch} (hs : s.Free)
    (h : ∀ s', s'.Free → s'.state = { s.state with currentEpoch := some e } → a₁ s' = a₂ s') :
    completeEpoch n a₁ e s = completeEpoch n a₂ e s := by
  unfold completeEpoch
  refine bind_congr_wp (wp_checkpointEpoch hs ?_ (fun _ _ _ => trivial) (fun _ _ _ _ => trivial))
  intro _ _ s₁ h₁
  refine withBorrow_congr fun _ => ?_
  have hfree : (s₁.hold .metrics).Free := (h₁.free hs).hold_metrics
  refine bind_congr_wp ?_
  rw [wp_modifyMetrics]
  refine bind_congr_wp ((wp_forward (by exact hfree.channelStrategy)).mpr ?_)
  refine bind_congr_wp ?_
  rw [wp_modifyMetrics]
  exact h _ ⟨hfree.1, hfree.2⟩ h₁.state

/-- Handling an event depends on `after_state_save` only if the event completes an epoch. -/
theorem handleEvent_congr {a₁ a₂ : NodeM σ τ IN OUT TS P Unit} {c : NodeID} {ev : ArconEvent IN}
    (hs : s.Free)
    (h : ∀ e, ev = .epoch e → (insert c s.state.blockedChannels).card = n.inChannels.length →
      ∀ s', s'.Free → s'.state = { blocked s.state c with currentEpoch := some e } →
        a₁ s' = a₂ s') :
    handleEvent n a₁ c ev s = handleEvent n a₂ c ev s := by
  unfold handleEvent
  refine bind_congr_wp ?_
  rw [wp_note]
  cases ev with
  | element e => rfl
  | watermark w => rfl
  | death msg => rfl
  | epoch e =>
    refine bind_congr_wp ?_
    rw [wp_get]
    cases s.state.currentEpoch with
    | none => rfl
    | some cur =>
      simp only
      split_ifs with hle hcard
      · rfl
      · refine bind_congr_wp ?_
        rw [wp_modifyState]
        exact completeEpoch_congr ⟨hs.1, hs.2⟩ fun s' hf hst => h e rfl hcard s' hf hst
      · rfl

/-- What an event leaves of the buffer, and of the bound: as much as `after_state_save` does. -/
theorem handleEvent_keeps {K : List (RawArconMessage IN) → Prop}
    {after : NodeM σ τ IN OUT TS P Unit} {c : NodeID} {ev : ArconEvent IN}
    (hafter : ∀ s' : NodeSt σ τ IN OUT TS P, s'.Free → K s'.state.messageBuffer →
      wp after (fun _ s'' => s''.Free ∧ K s''.state.messageBuffer) (fun f _ => f ≠ .replayBound) s')
    (hs : s.Free) (hK : K s.state.messageBuffer) :
    wp (handleEvent n after c ev) (fun _ s' => s'.Free ∧ K s'.state.messageBuffer)
      (fun f _ => f ≠ .replayBound) s := by
  unfold handleEvent
  rw [wp_bind, wp_note]
  set s₁ : NodeSt σ τ IN OUT TS P := { s with ctx := s.ctx.note (.iter c ev) }
  have h₁ : s₁.Free := ⟨hs.1, hs.2⟩
  -- every move of the node itself leaves the buffer alone
  have keep : ∀ {st : NodeState IN} {acts : List (Act IN OUT TS)} {s' : NodeSt σ τ IN OUT TS P},
      s₁.Moved st acts s' → st.messageBuffer = s.state.messageBuffer →
      s'.Free ∧ K s'.state.messageBuffer := fun h hb =>
    ⟨h.free h₁, by rw [h.state, hb]; exact hK⟩
  cases ev with
  | element e =>
    exact wp_onElement h₁ (fun _ => by simp) (fun _ _ _ => ⟨h₁, hK⟩)
      (fun _ _ _ s' h' => keep h' rfl) (fun _ _ _ _ _ _ => by simp)
  | watermark w =>
    refine wp_onWatermark h₁ (fun _ _ => by simp) (fun _ _ _ => ⟨h₁, hK⟩)
      (fun _ _ _ _ _ _ => ⟨⟨hs.1, hs.2⟩, hK⟩) (fun _ _ _ _ _ _ _ _ _ _ s' h' => keep h' rfl) ?_
    rintro _ _ _ - - - - - - f s' - (⟨c', rfl⟩ | ⟨rfl, -⟩) <;> simp
  | death msg => exact wp_onDeath h₁ fun s' h' => keep h' rfl
  | epoch e =>
    refine wp_onEpoch (fun _ => by simp) (fun _ _ _ => ⟨h₁, hK⟩)
      (fun _ _ _ _ => ⟨⟨hs.1, hs.2⟩, hK⟩) fun _ _ _ _ => ?_
    refine wp_completeEpoch ⟨hs.1, hs.2⟩ ?_ (fun _ _ _ _ _ => by simp) (fun _ _ _ => by simp)
      (fun _ _ _ _ => by simp)
    intro _ _ _ s' h'
    have hfree : s'.Free := by
      constructor
      · rw [h'.borrowed]; simpa [NodeSt.hold] using hs.channelStrategy
      · rw [h'.borrowed]; simpa [NodeSt.hold] using hs.timerBackend
    refine wp_mono (hafter s' hfree (by rw [h'.state]; exact hK)) ?_ (fun _ _ h => h)
    rintro _ s'' ⟨hf, hk⟩
    refine ⟨⟨?_, ?_⟩, hk⟩
    · simpa [NodeSt.release] using hf.channelStrategy
    · simpa [NodeSt.release] using hf.timerBackend

theorem afterStateSave_keeps_empty (depth : Nat) (hs : s.Free) (hb : s.state.messageBuffer = []) :
    wp (afterStateSave n (depth + 1)) (fun _ s' => s'.Free ∧ s'.state.messageBuffer = [])
      (fun f _ => f ≠ .replayBound) s := by
  rw [wp_afterStateSave, hb]
  exact ⟨⟨hs.1, hs.2⟩, rfl⟩

/-- With an empty buffer the depth does not matter. -/
theorem afterStateSave_of_empty (d₁ d₂ : Nat) (hb : s.state.messageBuffer = []) :
    afterStateSave n (d₁ + 1) s = afterStateSave n (d₂ + 1) s := by
  rw [afterStateSave_succ, afterStateSave_succ, hb]
  rfl

/-- **Two levels of replay are all there are.** -/
theorem afterStateSave_depth (d : Nat) (hs : s.Free) :
    afterStateSave n (d + replayDepth) s = afterStateSave n replayDepth s := by
  unfold replayDepth
  rw [afterStateSave_succ, afterStateSave_succ]
  refine forM_congr_wp
    (I := fun _ (s' : NodeSt σ τ IN OUT TS P) => s'.Free ∧ s'.state.messageBuffer = []) ?_ ?_
    ⟨⟨hs.1, hs.2⟩, rfl⟩
  · rintro ⟨c, ev⟩ _ s' ⟨hf, hb⟩
    refine handleEvent_congr hf fun e _ _ s'' _ hst => ?_
    exact afterStateSave_of_empty d 0 (by rw [hst]; exact hb)
  · rintro ⟨c, ev⟩ _ s' ⟨hf, hb⟩
    refine wp_mono (handleEvent_keeps (K := fun b => b = [])
      (fun s' hf hb => afterStateSave_keeps_empty 0 hf hb) hf hb) (fun _ _ h => h)
      (fun _ _ _ => trivial)

/-- **The bound is never reached** in a replay. -/
theorem afterStateSave_bound (hs : s.Free) :
    wp (afterStateSave n replayDepth) (fun _ s' => s'.Free ∧ s'.state.messageBuffer = [])
      (fun f _ => f ≠ .replayBound) s := by
  unfold replayDepth
  rw [wp_afterStateSave]
  exact wp_forM
    (I := fun _ (s' : NodeSt σ τ IN OUT TS P) => s'.Free ∧ s'.state.messageBuffer = [])
    (fun t _ s' h => handleEvent_keeps (K := fun b => b = [])
      (fun s' hf hb => afterStateSave_keeps_empty 0 hf hb) h.1 h.2) ⟨⟨hs.1, hs.2⟩, rfl⟩

end Node

end Arcon
