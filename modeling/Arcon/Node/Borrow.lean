import Arcon.Node.Watermark

/-!
# No re-entrant borrow

A guard on the metrics is taken when an epoch completes and lives to the end of its branch, over
`after_state_save`. The watermark branch takes the same guard when the minimum passes
`current_watermark`. So a watermark in the buffer that raises the minimum when it is replayed ends
the node with `already borrowed` (`metrics_borrowed`).

The guards on the channel strategy and the timer backend are never out when they are taken, and
neither is the one on the metrics outside a replay; a marker that completes a second epoch inside a
replay does not exist (`InReplay.no_complete`). `no_reentrant_borrow`: in every run in which no
epoch completes in front of such a watermark, no step finds a cell borrowed.
-/

namespace Arcon

open Exec Node

variable {σ τ TS IN OUT P : Type}

namespace Control

variable {n : Node σ TS IN OUT} {v : View IN OUT TS} {c c' q : NodeID}

/-- Not a marker of a later epoch. -/
def isStale (st : NodeState IN) : ArconEvent IN → Bool
  | .epoch e => e ≤ st.epoch
  | _ => true

/-- The events of a message in front of its first marker of a later epoch. -/
def front (st : NodeState IN) (evs : List (ArconEvent IN)) : List (ArconEvent IN) :=
  evs.takeWhile (isStale st)

/-- The first marker of a later epoch in a message. -/
def firstMarker (st : NodeState IN) (evs : List (ArconEvent IN)) : Option Epoch :=
  (evs.dropWhile (isStale st)).head?.bind ArconEvent.marker?

/-- The watermark of channel `q` when a message from `c` has been handled up to its first marker. -/
def before (st : NodeState IN) (c : NodeID) (evs : List (ArconEvent IN)) (q : NodeID) : Watermark :=
  reach (st.watermark q) (if c = q then front st evs else [])

/-- The condition on a message and the state it meets: if it is handled at once and its first marker
completes an epoch, some channel stays, with all its buffered watermarks, within the minimum before
the replay. -/
def ReplayQuiet (n : Node σ TS IN OUT) (st : NodeState IN) (d : Delivery IN) : Prop :=
  d.sender ∈ n.inChannels → d.sender ∉ st.blockedChannels →
    ∀ e ∈ firstMarker st d.events, Completes n st d.sender e → Saves n e →
      ∃ q ∈ n.inChannels, ∀ c ∈ n.inChannels,
        reach (before st d.sender d.events q) (bufferedOf q st) ≤ before st d.sender d.events c

instance (st : NodeState IN) (d : Delivery IN) : Decidable (ReplayQuiet n st d) :=
  inferInstanceAs (Decidable (_ → _ → ∀ e ∈ firstMarker st d.events, _ → _ →
    ∃ q ∈ n.inChannels, ∀ c ∈ n.inChannels, _))

/-! ## Up to the first marker -/

theorem next_of_stale {st : NodeState IN} {ev : ArconEvent IN} (h : isStale st ev = true) :
    (next st c ev).epoch = st.epoch ∧ (next st c ev).blockedChannels = st.blockedChannels ∧
      (next st c ev).messageBuffer = st.messageBuffer := by
  refine ⟨next_epoch ev, ?_, next_messageBuffer ev⟩
  rw [next_blockedChannels]
  cases ev with
  | epoch e =>
    have : ¬st.epoch < e := by simpa [isStale] using h
    simp only [if_neg this]
  | _ => rfl

theorem event_of_stale (hf : v.failed = false) {ev : ArconEvent IN}
    (h : isStale v.state ev = true) : event n v c ev = step v c ev := by
  obtain ⟨-, he⟩ | ⟨e, rfl, hcomp, -⟩ := event_cases (n := n) c ev hf
  · exact he
  · have : ¬v.state.epoch < e := by simpa [isStale] using h
    exact absurd hcomp.1 this

theorem isStale_congr {st st' : NodeState IN} (h : st.epoch = st'.epoch) :
    isStale st = isStale st' := by
  funext ev
  cases ev with
  | epoch e => simp [isStale, h]
  | _ => rfl

/-- **Up to its first marker**, a message only moves the watermark of its channel. -/
theorem events_stale {evs : List (ArconEvent IN)} (hf : v.failed = false)
    (h : ∀ ev ∈ evs, isStale v.state ev = true) :
    (events n v c evs).state.epoch = v.state.epoch ∧
      (events n v c evs).state.blockedChannels = v.state.blockedChannels ∧
      (events n v c evs).state.messageBuffer = v.state.messageBuffer ∧
      ∀ q, (events n v c evs).state.watermark q =
        reach (v.state.watermark q) (if c = q then evs else []) := by
  induction evs generalizing v with
  | nil => exact ⟨rfl, rfl, rfl, fun q => by rw [ite_self]; rfl⟩
  | cons ev evs ih =>
    obtain ⟨hep, hbl, hbuf⟩ := next_of_stale (c := c) (h ev List.mem_cons_self)
    have hstep := event_of_stale (n := n) (c := c) hf (h ev List.mem_cons_self)
    have htail : ∀ ev' ∈ evs, isStale (step v c ev).state ev' = true := by
      intro ev' hev'
      rw [step_state, isStale_congr hep]
      exact h ev' (List.mem_cons_of_mem _ hev')
    obtain ⟨h₁, h₂, h₃, h₄⟩ := ih (v := step v c ev) hf htail
    rw [show events n v c (ev :: evs) = events n (event n v c ev) c evs from rfl, hstep]
    refine ⟨h₁.trans hep, h₂.trans hbl, h₃.trans hbuf, fun q => ?_⟩
    rw [h₄ q, step_state, next_watermark, ← reach_append]
    by_cases hcq : c = q <;> simp [hcq]

/-- Behind a marker of a later epoch, no epoch with a replay completes any more: the channel is
blocked, or the buffer is empty. -/
theorem blocked_or_empty {evs : List (ArconEvent IN)} (hgood : Good n v) (hc : c ∈ n.inChannels)
    (h : c ∈ v.state.blockedChannels ∨ v.state.messageBuffer = []) :
    (events n v c evs).failed = true ∨ c ∈ (events n v c evs).state.blockedChannels ∨
      (events n v c evs).state.messageBuffer = [] := by
  induction evs generalizing v with
  | nil => exact .inr h
  | cons ev evs ih =>
    rw [show events n v c (ev :: evs) = events n (event n v c ev) c evs from rfl]
    cases hf : v.failed with
    | true =>
      refine .inl ?_
      have : event n v c ev = v := by simp [event, hf]
      rw [this, events_failed hf]
      exact hf
    | false =>
      refine ih (hgood.event hc ev) ?_
      rcases h with h | h
      · obtain ⟨-, he⟩ | ⟨e, rfl, hcomp, -⟩ := event_cases (n := n) c ev hf
        · rw [he]
          exact .inl (blocked_sub_next ev h)
        · exact absurd h ((hgood.ready hf).not_mem hcomp)
      · rcases event_messageBuffer (n := n) (v := v) (c := c) ev with hb | hb
        · exact .inr (hb.trans h)
        · exact .inr hb

/-- A marker of a later epoch blocks its channel, or its epoch completes. -/
theorem event_of_marker {e : Epoch} (hf : v.failed = false) (h : v.state.epoch < e) :
    (event n v c (.epoch e)).failed = true ∨
      c ∈ (event n v c (.epoch e)).state.blockedChannels ∨
      (event n v c (.epoch e)).state.messageBuffer = [] := by
  obtain ⟨-, he⟩ | ⟨e', he', -, ⟨-, he⟩ | ⟨-, he⟩⟩ := event_cases (n := n) c (.epoch e) hf
  · refine .inr (.inl ?_)
    rw [he, step_state, next_blockedChannels]
    simp [h]
  · refine .inr (.inr ?_)
    rw [he, proceed, replay_messageBuffer]
    rfl
  · exact .inl (by rw [he])

/-- **Only the first marker of a message can clash**: in front of it there is none. -/
theorem stale_of_clashes {evs : List (ArconEvent IN)} {e : Epoch} (hgood : Good n v)
    (hc : c ∈ n.inChannels) (hf : (events n v c evs).failed = false)
    (hcl : EventClashes n (events n v c evs) c e) : ∀ ev ∈ evs, isStale v.state ev = true := by
  obtain ⟨hcomp, -, ts₁, c', w, ts₂, hts, -⟩ := hcl
  have hready := (hgood.events hc evs).ready hf
  have hend : c ∉ (events n v c evs).state.blockedChannels ∧
      (events n v c evs).state.messageBuffer ≠ [] := by
    refine ⟨hready.not_mem hcomp, fun hb => ?_⟩
    rw [hb] at hts
    exact absurd hts (by simp [tasks])
  clear hts hcomp hready
  induction evs generalizing v with
  | nil => simp
  | cons ev evs ih =>
    rw [show events n v c (ev :: evs) = events n (event n v c ev) c evs from rfl] at hf hend
    have hv : v.failed = false := by
      cases hvf : v.failed with
      | false => rfl
      | true =>
        have : event n v c ev = v := by simp [event, hvf]
        rw [this, events_failed hvf, hvf] at hf
        cases hf
    have hstale : isStale v.state ev = true := by
      by_contra hns
      cases ev with
      | epoch e =>
        have hlt : v.state.epoch < e := by simpa [isStale] using hns
        rcases event_of_marker (n := n) (c := c) hv hlt with h | h
        · rw [events_failed h, h] at hf
          cases hf
        · rcases blocked_or_empty (hgood.event hc _) hc h with h | h | h
          · rw [h] at hf
            cases hf
          · exact hend.1 h
          · exact hend.2 h
      | _ => exact hns rfl
    have hstep := event_of_stale (n := n) (c := c) hv hstale
    have hrest := ih (hgood.event hc ev) hf hend
    intro ev' hev'
    rcases List.mem_cons.mp hev' with rfl | hev'
    · exact hstale
    · have := hrest ev' hev'
      rwa [hstep, step_state, isStale_congr (next_epoch ev)] at this

/-- The first marker of a message. -/
theorem front_of_stale {st : NodeState IN} {evs₁ evs₂ : List (ArconEvent IN)} {e : Epoch}
    (h : ∀ ev ∈ evs₁, isStale st ev = true) (he : st.epoch < e) :
    front st (evs₁ ++ .epoch e :: evs₂) = evs₁ ∧
      e ∈ firstMarker st (evs₁ ++ .epoch e :: evs₂) := by
  have hns : ¬isStale st (.epoch e) = true := by
    simp only [isStale, decide_eq_true_eq, not_le]
    exact he
  constructor
  · rw [front, List.takeWhile_append_of_pos h, List.takeWhile_cons_of_neg hns, List.append_nil]
  · rw [firstMarker, List.dropWhile_append_of_pos h, List.dropWhile_cons_of_neg hns]
    rfl

/-- **A replay in front of which some channel stays within the minimum raises nothing.** -/
theorem not_replayRaises {ts : List (NodeID × ArconEvent IN)} (h : InReplay n c ts v.state)
    (hq : q ∈ n.inChannels) (hle : ∀ c' ∈ n.inChannels,
      reach (v.state.watermark q) (eventsOf q ts) ≤ v.state.watermark c') :
    ¬ReplayRaises v ts := by
  rintro ⟨ts₁, c₁, w, ts₂, rfl, hr⟩
  have hin := h.replay
  obtain ⟨hc₁, -⟩ := hin.senders _ List.mem_cons_self
  obtain ⟨c₂, hc₂, hmin⟩ := hin.init.attained (List.ne_nil_of_mem hc₁)
  -- the minimum at that point is not below what the channel reaches in the whole replay
  have hge : reach (v.state.watermark q) (eventsOf q (ts₁ ++ (c₁, .watermark w) :: ts₂)) ≤
      (replay v ts₁).state.minimum := by
    rw [← hmin, replay_watermark]
    exact le_trans (hle c₂ hc₂) (le_reach _ _)
  -- and the new minimum is not above what the channel has reached with this watermark
  have hnew : newMinimum (replay v ts₁).state c₁ w ≤
      reach (v.state.watermark q) (eventsOf q (ts₁ ++ (c₁, .watermark w) :: ts₂)) := by
    refine le_trans (hin.init.newMinimum_le hc₁ w hq) ?_
    rw [eventsOf_append, reach_append, ← replay_watermark, eventsOf_cons, reach_append]
    refine le_trans ?_ (le_reach _ _)
    rw [watermark_stored]
    by_cases hqc : q = c₁
    · subst hqc
      rw [if_pos rfl, if_pos rfl, reach_watermark]
      exact le_max_right _ _
    · rw [if_neg hqc, if_neg fun h => hqc h.symm]
      exact le_refl _
  exact absurd hr.2 (not_lt.mpr (le_trans hnew hge))

/-- **A message that meets the condition does not clash.** -/
theorem ReplayQuiet.not_clashes {d : Delivery IN} (hwf : WF n v.state) (hf : v.failed = false)
    (h : ReplayQuiet n v.state d) : ¬DeliverClashes n v d := by
  rintro ⟨hc, hb, evs₁, e, evs₂, hevs, hf₁, hcl⟩
  have hgood : Good n v := ⟨hwf, fun _ => hwf.ready hc hb⟩
  have hstale := stale_of_clashes hgood hc hf₁ hcl
  obtain ⟨hep, hbl, hbuf, hwm⟩ := events_stale (n := n) (c := d.sender) hf hstale
  have hready := (hgood.events hc evs₁).ready hf₁
  obtain ⟨hcomp, hsave, hraise⟩ := hcl
  have hlt : v.state.epoch < e := by
    rw [← hep]
    exact hcomp.1
  obtain ⟨hfront, hfirst⟩ := front_of_stale hstale hlt
  rw [← hevs] at hfront hfirst
  obtain ⟨q, hq, hle⟩ := h hc hb e hfirst ⟨hlt, by rw [← hbl]; exact hcomp.2⟩ hsave
  have hbefore : ∀ q, before v.state d.sender d.events q =
      (events n v d.sender evs₁).state.watermark q := by
    intro q
    rw [before, hfront, hwm]
  refine not_replayRaises (hready.inReplay hc hcomp) hq (fun c' hc' => ?_) hraise
  have := hle c' hc'
  rw [hbefore, hbefore] at this
  rw [bufferedOf, ← hbuf] at this
  exact this

end Control

namespace Node

open Control

variable [TimerBackend τ TS P] {n : Node σ TS IN OUT} {s₀ : NodeSt σ τ IN OUT TS P}

/-- **No re-entrant borrow**, where it holds. In any run of any node, with any events, if every
message meets a state in which the replay it starts does not raise the minimum, then no step takes
a guard on the metrics, the channel strategy or the timer backend while one is out. -/
theorem no_reentrant_borrow {ds : List (Delivery IN)} (hfresh : Fresh n s₀)
    (hcond : ∀ done d rest s, ds = done ++ d :: rest → run n done s₀ = .ok () s →
      ReplayQuiet n s.state d) :
    ∀ cell s, run n ds s₀ ≠ .error (.alreadyBorrowed cell) s := by
  intro cell s hrun
  have hwp := wp_run ds (I := fun _ _ => True) hfresh.eq.2.1 hfresh.wf trivial
    (fun _ _ _ _ _ _ _ _ => trivial)
  obtain ⟨done, d, rest, s₁, hds, hdone, -, hwf, -, ⟨x, hf⟩ | ⟨-, hcl⟩⟩ := wp_error hwp hrun
  · cases hf
  · exact ReplayQuiet.not_clashes (v := s₁.view) hwf rfl (hcond done d rest s₁ hds hdone) hcl

/-- A run of the filter node: a watermark and an element wait for epoch 1, and the watermark of
channel 2 stays behind. -/
def laggingRun : List (Delivery Int) :=
  [.onLocal (.epoch 1 1), .onLocal (.watermark 5 1), .onLocal (.element 7 (some 6) 1),
    .onLocal (.epoch 1 2), .onLocal (.watermark 3 2)]

theorem no_reentrant_borrow_lagging :
    isOk (run (filterNode [1, 2]) laggingRun (filterStart [1, 2])) = true ∧
      ∀ cell s, run (filterNode [1, 2]) laggingRun (filterStart [1, 2]) ≠
        .error (.alreadyBorrowed cell) s :=
  ⟨by decide +kernel,
    no_reentrant_borrow (filterStart_fresh [1, 2]) (along_of_take (by decide +kernel))⟩

/-- The same with the watermark of channel 2 in front of its marker. -/
def leadingRun : List (Delivery Int) :=
  [.onLocal (.epoch 1 1), .onLocal (.watermark 5 1), .onLocal (.watermark 3 2),
    .onLocal (.epoch 1 2)]

/-- The buffered watermark raises the minimum from 0 to 3 in the replay, and the node panics on the
metrics it has borrowed for the epoch. -/
theorem metrics_borrowed : ∃ s, run (filterNode [1, 2]) leadingRun (filterStart [1, 2]) =
    .error (.alreadyBorrowed .metrics) s :=
  ⟨_, eq_error_of_fault (by decide +kernel)⟩

end Node

end Arcon
