import Arcon.Node.Watermark
import Arcon.Node.Drive
import Arcon.Timer.Clock

/-!
# The low watermark

`current_watermark` is the least watermark of the in-channels, although `handle_events` recomputes
the minimum only where it may have changed; what is forwarded are its increases; the event timer
shows it; and no element at or below it reaches the operator.

* `Watched`: all of this, of the machine of `Control.lean`; kept by every event and every message.
* `watermark_invariant`: of the node, between any two events of a run.
-/

namespace Arcon

open Exec Node

variable {σ τ TS IN OUT P : Type}

/-- The watermarks forwarded to the channel strategy, in order. -/
def forwardedWatermarks (l : List (Act IN OUT TS)) : List Watermark :=
  l.filterMap fun
    | .forward (.watermark w) => some w
    | _ => none

/-- The least watermark of the channels `cs` after some events. -/
def lowWatermark (cs : List NodeID) (evs : List (NodeID × ArconEvent IN)) : Watermark :=
  ((cs.map fun c => reach 0 (eventsOf c evs)).min?).getD 0

/-- The successive increases of the least watermark along some events. -/
def increases (cs : List NodeID) (evs : List (NodeID × ArconEvent IN)) : List Watermark :=
  (List.range evs.length).filterMap fun i =>
    if lowWatermark cs (evs.take i) < lowWatermark cs (evs.take (i + 1)) then
      some (lowWatermark cs (evs.take (i + 1)))
    else none

/-! ## Logs -/

@[simp] theorem forwardedWatermarks_append (l₁ l₂ : List (Act IN OUT TS)) :
    forwardedWatermarks (l₁ ++ l₂) = forwardedWatermarks l₁ ++ forwardedWatermarks l₂ :=
  List.filterMap_append

theorem forwardedWatermarks_filter_isMark (l : List (Act IN OUT TS)) :
    forwardedWatermarks (l.filter Act.isMark) = forwardedWatermarks l := by
  unfold forwardedWatermarks
  rw [List.filterMap_filter]
  refine List.filterMap_congr fun a _ => ?_
  cases a <;> simp [Act.isMark]

theorem callsOf_filter_isMark (l : List (Act IN OUT TS)) :
    callsOf (l.filter Act.isMark) = callsOf l := by
  unfold callsOf
  rw [List.filterMap_filter]
  refine List.filterMap_congr fun a _ => ?_
  cases a <;> simp [Act.isMark, Act.call?]

theorem eventsOf_iterated (c : NodeID) (l : List (Act IN OUT TS)) :
    eventsOf c (iterated l) = iterOf c l := by
  induction l with
  | nil => rfl
  | cons a l ih =>
    cases a with
    | iter c' ev =>
      rw [show iterated (.iter c' ev :: l) = (c', ev) :: iterated l from rfl, eventsOf_cons, ih]
      unfold iterOf
      rw [List.filterMap_cons]
      by_cases h : c' = c <;> simp [h]
    | _ => exact ih

/-- **One more event** adds its increase. -/
theorem increases_append (cs : List NodeID) (evs : List (NodeID × ArconEvent IN))
    (t : NodeID × ArconEvent IN) :
    increases cs (evs ++ [t]) = increases cs evs ++
      if lowWatermark cs evs < lowWatermark cs (evs ++ [t]) then [lowWatermark cs (evs ++ [t])]
      else [] := by
  unfold increases
  rw [List.length_append, List.length_singleton, List.range_succ, List.filterMap_append]
  congr 1
  · refine List.filterMap_congr fun i hi => ?_
    have hlt : i < evs.length := List.mem_range.mp hi
    rw [List.take_append_of_le_length hlt.le, List.take_append_of_le_length hlt]
  · have htake : (evs ++ [t]).take (evs.length + 1) = evs ++ [t] := List.take_of_length_le (by simp)
    rw [List.filterMap_cons, List.filterMap_nil, List.take_left, htake]
    split_ifs <;> rfl

/-- A place in a list is in its first part or in the second one. -/
theorem prefix_snoc_append {α : Type} {l l' pre : List α} {a : α} (h : pre ++ [a] <+: l ++ l') :
    pre ++ [a] <+: l ∨ ∃ l₁ l₂, l' = l₁ ++ a :: l₂ ∧ pre = l ++ l₁ := by
  obtain ⟨post, hpost⟩ := h
  rw [List.append_assoc, List.singleton_append] at hpost
  rcases List.append_eq_append_iff.mp hpost with ⟨m, hl, hm⟩ | ⟨m, hpre, hl'⟩
  · cases m with
    | nil =>
      rw [List.append_nil] at hl
      exact .inr ⟨[], post, by simpa using hm.symm, by simp [hl]⟩
    | cons b m =>
      rw [List.cons_append] at hm
      injection hm with hab hm
      refine .inl ⟨m, ?_⟩
      rw [hl, hab]
      simp
  · exact .inr ⟨m, post, hl', hpre⟩

namespace Control

variable {n : Node σ TS IN OUT} {v v' : View IN OUT TS} {c : NodeID} {st : NodeState IN}

/-! ## The minimum -/

/-- **`current_watermark` is the least watermark of the channels.** -/
theorem Initialised.minimum_eq (h : Initialised n st) (hne : n.inChannels ≠ []) :
    (n.inChannels.map st.watermark).min? = some st.minimum := by
  rw [List.min?_eq_some_iff]
  obtain ⟨q, hq, hqe⟩ := h.attained hne
  refine ⟨List.mem_map.mpr ⟨q, hq, hqe⟩, fun w hw => ?_⟩
  obtain ⟨q', hq', rfl⟩ := List.mem_map.mp hw
  exact h.least q' hq'

/-- The minimum never falls. -/
theorem Initialised.minimum_le {st' : NodeState IN} (h : Initialised n st)
    (h' : Initialised n st') (hne : n.inChannels ≠ [])
    (hle : ∀ q, st.watermark q ≤ st'.watermark q) : st.minimum ≤ st'.minimum := by
  obtain ⟨q, hq, hqe⟩ := h'.attained hne
  rw [← hqe]
  exact le_trans (h.least q hq) (hle q)

/-- What holds of the watermarks at all times. -/
structure Watched (n : Node σ TS IN OUT) (v : View IN OUT TS) : Prop where
  channels : ∀ q, v.state.watermark q = reach 0 (eventsOf q (iterated v.acts))
  forwarded : forwardedWatermarks v.acts = increases n.inChannels (iterated v.acts)
  sorted : (forwardedWatermarks v.acts).Pairwise (· < ·)
  bounded : ∀ w ∈ forwardedWatermarks v.acts, w ≤ v.state.minimum
  elements : ∀ pre e ts, pre ++ [.handleElement e] <+: v.acts → e.timestamp = some ts →
    lowWatermark n.inChannels (iterated pre) < ts
  clock : (callsOf v.acts).foldl Call.time 0 = v.state.minimum

theorem Watched.low (h : Watched n v) (hi : Initialised n v.state) (hne : n.inChannels ≠ []) :
    lowWatermark n.inChannels (iterated v.acts) = v.state.minimum := by
  unfold lowWatermark
  simp only [← h.channels]
  rw [hi.minimum_eq hne]
  rfl

/-- Acts that are neither events nor watermarks nor elements. -/
theorem Watched.quiet (h : Watched n v) {as : List (Act IN OUT TS)}
    (hacts : v'.acts = v.acts ++ as) (hwm : ∀ q, v'.state.watermark q = v.state.watermark q)
    (hmin : v'.state.minimum = v.state.minimum) (hits : iterated as = [])
    (hfwd : forwardedWatermarks as = []) (hcalls : callsOf as = []) : Watched n v' := by
  have hi : iterated v'.acts = iterated v.acts := by
    rw [hacts, iterated_append, hits, List.append_nil]
  have hf : forwardedWatermarks v'.acts = forwardedWatermarks v.acts := by
    rw [hacts, forwardedWatermarks_append, hfwd, List.append_nil]
  refine ⟨fun q => ?_, ?_, ?_, ?_, fun pre e ts hpre ht => ?_, ?_⟩
  · rw [hwm, hi]
    exact h.channels q
  · rw [hf, hi]
    exact h.forwarded
  · rw [hf]
    exact h.sorted
  · rw [hf, hmin]
    exact h.bounded
  · rw [hacts] at hpre
    rcases prefix_snoc_append hpre with hpre | ⟨l₁, l₂, has, -⟩
    · exact h.elements pre e ts hpre ht
    · rw [has, callsOf_append] at hcalls
      exact absurd (List.append_eq_nil_iff.mp hcalls).2 (by simp [callsOf, Act.call?])
  · rw [hacts, callsOf_append, hcalls, List.append_nil, hmin]
    exact h.clock

/-- **One more event**, with the acts `as` of the node. -/
theorem Watched.event (h : Watched n v) (as : List (Act IN OUT TS)) {ev : ArconEvent IN}
    (hi : Initialised n v.state) (hi' : Initialised n v'.state) (hne : n.inChannels ≠ [])
    (hacts : v'.acts = v.acts ++ .iter c ev :: as)
    (hwm : ∀ q, v'.state.watermark q =
      reach (v.state.watermark q) (if c = q then [ev] else []))
    (hits : iterated as = [])
    (hfwd : forwardedWatermarks as =
      if v.state.minimum < v'.state.minimum then [v'.state.minimum] else [])
    (hclock : (callsOf as).foldl Call.time v.state.minimum = v'.state.minimum)
    (hel : ∀ e ts, .handleElement e ∈ as → e.timestamp = some ts → v'.state.minimum < ts) :
    Watched n v' := by
  have hit : iterated v'.acts = iterated v.acts ++ [(c, ev)] := by
    rw [hacts, iterated_append, show iterated (.iter c ev :: as) = (c, ev) :: iterated as from rfl,
      hits]
  have hf : forwardedWatermarks v'.acts = forwardedWatermarks v.acts ++ forwardedWatermarks as := by
    rw [hacts, forwardedWatermarks_append]
    rfl
  have hch : ∀ q, v'.state.watermark q = reach 0 (eventsOf q (iterated v'.acts)) := by
    intro q
    rw [hwm, hit, eventsOf_append, reach_append, ← h.channels, eventsOf_cons]
    simp [eventsOf]
  have hlow := h.low hi hne
  have hlow' : lowWatermark n.inChannels (iterated v'.acts) = v'.state.minimum := by
    unfold lowWatermark
    simp only [← hch]
    rw [hi'.minimum_eq hne]
    rfl
  have hle : v.state.minimum ≤ v'.state.minimum := hi.minimum_le hi' hne fun q => by
    rw [hwm]
    exact le_reach _ _
  refine ⟨hch, ?_, ?_, ?_, fun pre e ts hpre ht => ?_, ?_⟩
  · rw [hf, h.forwarded, hit, increases_append, ← hit, hlow, hlow', hfwd]
  · rw [hf, hfwd, List.pairwise_append]
    refine ⟨h.sorted, ?_, fun a ha b hb => ?_⟩
    · split_ifs
      · exact List.pairwise_singleton _ _
      · exact List.Pairwise.nil
    · split_ifs at hb with hlt
      · rw [List.mem_singleton.mp hb]
        exact lt_of_le_of_lt (h.bounded a ha) hlt
      · simp at hb
  · intro w hw
    rw [hf, hfwd] at hw
    rcases List.mem_append.mp hw with hw | hw
    · exact le_trans (h.bounded w hw) hle
    · split_ifs at hw
      · exact le_of_eq (List.mem_singleton.mp hw)
      · simp at hw
  · rw [hacts] at hpre
    rcases prefix_snoc_append hpre with hpre | ⟨l₁, l₂, has, rfl⟩
    · exact h.elements pre e ts hpre ht
    · cases l₁ with
      | nil => cases has
      | cons a l₁ =>
        injection has with ha has
        subst ha
        replace has : as = l₁ ++ .handleElement e :: l₂ := has
        have hl₁ : iterated l₁ = [] := by
          rw [has, iterated_append] at hits
          exact (List.append_eq_nil_iff.mp hits).1
        rw [iterated_append, show iterated (.iter c ev :: l₁) = (c, ev) :: iterated l₁ from rfl,
          hl₁, ← hit, hlow']
        exact hel e ts (by rw [has]; simp) ht
  · rw [hacts, callsOf_append, List.foldl_append, h.clock]
    exact hclock

/-! ## Steps -/

/-- An event that leaves the minimum alone. -/
theorem Watched.step_same (h : Watched n v) (hi : Initialised n v.state) (hc : c ∈ n.inChannels)
    {ev : ArconEvent IN} (as : List (Act IN OUT TS))
    (hmin : (next v.state c ev).minimum = v.state.minimum)
    (hacts : acts v.state c ev = .iter c ev :: as) (hits : iterated as = [])
    (hfwd : forwardedWatermarks as = [])
    (hclock : (callsOf as).foldl Call.time v.state.minimum = v.state.minimum)
    (hel : ∀ e ts, .handleElement e ∈ as → e.timestamp = some ts → v.state.minimum < ts) :
    Watched n (step v c ev) := by
  refine h.event as hi (hi.next hc ev) (List.ne_nil_of_mem hc) (by rw [step_acts, hacts])
    (fun q => next_watermark ev) hits ?_ ?_ ?_
  · rw [hfwd, step_state, hmin, if_neg (lt_irrefl _)]
  · rw [step_state, hmin]
    exact hclock
  · rw [step_state, hmin]
    exact hel

/-- **An event that completes no epoch.** -/
theorem Watched.step (h : Watched n v) (hi : Initialised n v.state) (hc : c ∈ n.inChannels)
    (ev : ArconEvent IN) : Watched n (step v c ev) := by
  cases ev with
  | death msg =>
    exact h.step_same hi hc [.forward (.death msg), .suicide] rfl rfl rfl rfl rfl (by simp)
  | epoch e =>
    refine h.step_same hi hc [] ?_ rfl rfl rfl rfl (by simp)
    simp only [next]
    split_ifs <;> rfl
  | element e =>
    by_cases hle : e.timestamp.getD u64Max ≤ v.state.watermark c
    · exact h.step_same hi hc [] rfl (by simp only [acts, if_pos hle]) rfl rfl rfl (by simp)
    · refine h.step_same hi hc [.handleElement e] rfl (by simp only [acts, if_neg hle]) rfl rfl
        rfl ?_
      intro e' ts hmem ht
      obtain rfl : e' = e := by simpa using hmem
      rw [ht] at hle
      exact lt_of_le_of_lt (hi.least c hc) (not_le.mp hle)
  | watermark w =>
    by_cases hr : Raises v.state c w
    · have hmin : (next v.state c (.watermark w)).minimum = newMinimum v.state c w := by
        simp only [next, if_pos hr]
        rfl
      refine h.event [.handleWatermark (newMinimum v.state c w),
          .forward (.watermark (newMinimum v.state c w))] hi (hi.next hc (.watermark w))
        (List.ne_nil_of_mem hc) ?_ (fun q => next_watermark _) rfl ?_ ?_ (by simp)
      · rw [step_acts]
        simp only [acts, if_pos hr]
      · rw [step_state, hmin, if_pos hr.2]
        rfl
      · rw [step_state, hmin]
        exact max_eq_right hr.2.le
    · refine h.step_same hi hc [] ?_ (by simp only [acts, if_neg hr]) rfl rfl rfl (by simp)
      simp only [next, if_neg hr]
      split_ifs <;> rfl

theorem Watched.complete (h : Watched n v) (hi : Initialised n v.state) (hc : c ∈ n.inChannels)
    (e : Epoch) : Watched n (complete v c e) := by
  refine h.event (c := c) [.handleEpoch e, .saveState e] hi
    ⟨hi.watermarks, hi.currentWatermark, rfl, hi.least, hi.attained⟩ (List.ne_nil_of_mem hc) rfl
    (fun q => ?_) rfl ?_ rfl (by simp)
  · by_cases hq : c = q
    · rw [if_pos hq]
      rfl
    · rw [if_neg hq]
      rfl
  · rw [if_neg (by exact lt_irrefl v.state.minimum)]
    rfl

theorem Watched.replay {q : NodeID} {ts : List (NodeID × ArconEvent IN)} (h : Watched n v)
    (hr : InReplay n q ts v.state) : Watched n (replay v ts) := by
  have := replay_rule (I := fun ts v => Watched n v ∧ InReplay n q ts v.state)
    (fun t ts v h => ⟨h.1.step h.2.init (h.2.senders t List.mem_cons_self).1 t.2, h.2.next⟩) ts v
    ⟨h, hr⟩
  exact this.1

/-- **An event of a message.** -/
theorem Watched.event_of (h : Watched n v) (hr : Ready n v.state) (hf : v.failed = false)
    (hc : c ∈ n.inChannels) (ev : ArconEvent IN) : Watched n (Control.event n v c ev) := by
  obtain ⟨-, he⟩ | ⟨e, rfl, hcomp, ⟨-, he⟩ | ⟨-, he⟩⟩ := event_cases (n := n) c ev hf
  · rw [he]
    exact h.step hr.init hc ev
  · rw [he, proceed]
    have hopen : Watched n (opened (Control.complete v c e) e) :=
      (h.complete hr.init hc e).quiet rfl (fun _ => rfl) rfl rfl rfl rfl
    exact hopen.replay (hr.inReplay hc hcomp)
  · rw [he]
    exact (h.complete hr.init hc e).quiet (List.append_nil _).symm (fun _ => rfl) rfl rfl rfl rfl

theorem Watched.events (h : Watched n v) (hg : Good n v) (hc : c ∈ n.inChannels)
    (evs : List (ArconEvent IN)) : Watched n (events n v c evs) := by
  induction evs generalizing v with
  | nil => exact h
  | cons ev evs ih =>
    have hev : Watched n (Control.event n v c ev) := by
      cases hf : v.failed with
      | true =>
        rw [show Control.event n v c ev = v by simp [Control.event, hf]]
        exact h
      | false => exact h.event_of (hg.ready hf) hf hc ev
    exact ih hev (hg.event hc ev)

/-- **A message.** -/
theorem Watched.deliver (h : Watched n v) (hwf : WF n v.state) (d : Delivery IN) :
    Watched n (deliver n v d) := by
  obtain ⟨-, he⟩ | ⟨hc, ⟨-, he⟩ | ⟨hb, he⟩⟩ := deliver_cases (n := n) v d
  · rw [he]
    exact h.quiet (List.append_nil _).symm (fun _ => rfl) rfl rfl rfl rfl
  · rw [he]
    exact h.quiet (List.append_nil _).symm (fun _ => rfl) rfl rfl rfl rfl
  · rw [he]
    exact h.events ⟨hwf, fun _ => hwf.ready hc hb⟩ hc d.events

/-- A fresh node has seen nothing. -/
theorem Fresh.watched [TimerBackend τ TS P] {s : NodeSt σ τ IN OUT TS P} (h : Fresh n s) :
    Watched n s.view := by
  have hlog : s.view.acts = [] := by rw [h.view]
  refine ⟨fun q => ?_, by rw [hlog]; rfl, by rw [hlog]; exact List.Pairwise.nil,
    by rw [hlog]; simp [forwardedWatermarks], fun pre e ts hpre => ?_, ?_⟩
  · rw [hlog]
    exact h.watermark q
  · rw [hlog] at hpre
    simp at hpre
  · rw [hlog, h.view]
    rfl

end Control

namespace Node

open Control

section Between

variable [TimerBackend τ TS P] (n : Node σ TS IN OUT)

/-- Of a message from `c` the events `evs` are handled, and `rest` is still to come. -/
def handlePart (c : NodeID) (evs rest : List (ArconEvent IN)) : NodeM σ τ IN OUT TS P Unit := do
  recordIncomingEvents (evs ++ rest).length
  handleEvents n (afterStateSave n replayDepth) c evs

/-- From `s₀` the node came to `s`, between two events, without an `Err` or a panic. -/
def Between (s₀ s : NodeSt σ τ IN OUT TS P) : Prop :=
  ∃ ds s₁, runOk n ds s₀ = .ok () s₁ ∧
    (s = s₁ ∨ ∃ c evs rest, c ∈ n.inChannels ∧ c ∉ s₁.state.blockedChannels ∧
      handlePart n c evs rest s₁ = .ok () s)

/-- What holds of the watermarks between two events. -/
structure WatermarkInvariant (s : NodeSt σ τ IN OUT TS P) : Prop where
  /-- The watermark of a channel is the greatest one processed from it. -/
  watermarks : ∀ c ∈ n.inChannels,
    s.state.watermarks.lookup c = some (reach 0 (iterOf c s.ctx.log))
  /-- `current_watermark` is the least of them. -/
  currentWatermark :
    s.state.currentWatermark = (n.inChannels.map fun c => reach 0 (iterOf c s.ctx.log)).min?
  /-- The increases of this minimum are forwarded, and nothing else. -/
  forwarded : forwardedWatermarks s.ctx.log = increases n.inChannels (iterated s.ctx.log)
  increasing : (forwardedWatermarks s.ctx.log).Pairwise (· < ·)
  /-- An element was above the minimum when it was handed to the operator. -/
  elements : ∀ pre e post ts, s.ctx.log = pre ++ .handleElement e :: post →
    e.timestamp = some ts → lowWatermark n.inChannels (iterated pre) < ts

variable {n} {s₀ s : NodeSt σ τ IN OUT TS P}

/-- A part of a message moves the node as it moves the machine. -/
theorem handlePart_refines {c : NodeID} {evs rest : List (ArconEvent IN)} (hs : s.Idle)
    (hwf : WF n s.state) (hc : c ∈ n.inChannels) (hb : c ∉ s.state.blockedChannels) :
    wp (handlePart n c evs rest) (fun _ s' => s'.view = events n s.view c evs)
      (fun _ _ => True) s := by
  unfold handlePart
  rw [wp_bind]
  refine wp_recordIncomingEvents hs fun m => ?_
  exact wp_mono (handleEvents_refines (s := { s with metrics := m }) hs
    (WF.ready (v := s.view) hwf hc hb) hc) (fun _ _ h => h.1) (fun _ _ _ => trivial)

/-- **Every state between two events** is one of the machine, and driven by its calls. -/
theorem Between.watched (h : Between n s₀ s) (hfresh : Fresh n s₀) :
    Watched n s.view ∧ WF n s.state ∧ Drives n s₀.ctx s := by
  obtain ⟨ds, s₁, hrun, hs⟩ := h
  have hwp := wp_runOk ds (I := fun _ v => Watched n v) hfresh.eq.2.1 hfresh.wf hfresh.watched
    fun done d v _ hwf hI _ => hI.deliver hwf d
  obtain ⟨hw, hwf, hidle⟩ := wp_ok hwp hrun
  have hd := wp_ok (runOk_drives ds hfresh.drives) hrun
  rcases hs with rfl | ⟨c, evs, rest, hc, hb, hpart⟩
  · exact ⟨hw, hwf, hd⟩
  have hd' : wp (handlePart n c evs rest) (fun _ s' => Drives n s₀.ctx s') (fun _ _ => True)
      s₁ := by
    unfold handlePart
    rw [wp_bind]
    exact wp_recordIncomingEvents hidle fun m =>
      wp_mono (handleEvents_drives evs (hd.of_ctx rfl rfl)) (fun _ _ h => h) (fun _ _ _ => trivial)
  have hv := wp_ok (handlePart_refines hidle hwf hc hb) hpart
  have hdrives := wp_ok hd' hpart
  have hgood : Good n s₁.view := ⟨hwf, fun _ => WF.ready (v := s₁.view) hwf hc hb⟩
  have hwf' := (hgood.events hc evs).wf
  rw [← hv] at hwf'
  exact ⟨by rw [hv]; exact hw.events hgood hc evs, hwf', hdrives⟩

omit [TimerBackend τ TS P] in
/-- The machine's invariant, read off the node. -/
theorem watermarkInvariant_of_watched (h : Watched n s.view) (hi : Initialised n s.state)
    (hne : n.inChannels ≠ []) : WatermarkInvariant n s := by
  have hits : iterated s.view.acts = iterated s.ctx.log := iterated_filter_isMark _
  have hfwd : forwardedWatermarks s.view.acts = forwardedWatermarks s.ctx.log :=
    forwardedWatermarks_filter_isMark _
  have hch : ∀ c, s.state.watermark c = reach 0 (iterOf c s.ctx.log) := by
    intro c
    rw [← eventsOf_iterated, ← hits]
    exact h.channels c
  refine ⟨fun c hc => ?_, ?_, ?_, ?_, fun pre e post ts hlog ht => ?_⟩
  · rw [← hch]
    exact hi.lookup hc
  · simp only [← hch]
    rw [hi.currentWatermark]
    exact (hi.minimum_eq hne).symm
  · rw [← hfwd, ← hits]
    exact h.forwarded
  · rw [← hfwd]
    exact h.sorted
  · rw [← iterated_filter_isMark]
    refine h.elements _ e ts ⟨post.filter Act.isMark, ?_⟩ ht
    show _ = s.ctx.log.filter Act.isMark
    rw [hlog, List.filter_append, List.append_assoc]
    rfl

end Between

/-- **The event timer shows the low watermark.** -/
theorem Between.currentTime {W Id : Type} [HashWheel W Id] [DecidableEq Id] [UuidSource Id]
    {n : Node σ TS IN OUT} {s₀ s : NodeSt σ (EventTimer W Id TS) IN OUT TS _} {op : σ}
    (hnew : Node.new n (NodeState.new IN) op (EventTimer.new (TimerState.new Id TS)) =
      .ok s₀) (h : Between n s₀ s) :
    s.ctx.timer.state.currentTime = s.state.currentWatermark := by
  have hfresh : Fresh n s₀ := ⟨op, _, hnew⟩
  obtain ⟨hw, hwf, hd⟩ := h.watched hfresh
  obtain ⟨t, hinit, hs₀⟩ := new_ok hnew
  have hstart : EventTimer.At 0 s₀.ctx.timer := by
    rw [hs₀]
    exact (wp_ok (Q := fun _ t => EventTimer.At 0 t ∧ t.agenda = 0) EventTimer.init_new hinit).1
  have htime := wp_ok (EventTimer.drive_time n.operator (callsOf s.ctx.log) hstart) hd.driven
  have hclock : (callsOf s.ctx.log).foldl Call.time 0 = s.state.minimum := by
    rw [← callsOf_filter_isMark]
    exact hw.clock
  rw [hclock] at htime
  rw [hwf.init.currentWatermark, ← htime.time]
  exact htime.inStep.started

/-- **The watermark invariant.** Between any two events of a run of a fresh node with at least one
in-channel, without an `Err` or a panic: `current_watermark` is the least of the channels'
watermarks, each the greatest one processed from its channel; the increases of this minimum, and
nothing else, are forwarded; every element was above the minimum when it was handed to the operator;
and an event timer's time is `current_watermark`. -/
theorem watermark_invariant :
    (∀ {σ τ TS IN OUT P : Type} [TimerBackend τ TS P] {n : Node σ TS IN OUT}
        {s₀ s : NodeSt σ τ IN OUT TS P},
      n.inChannels ≠ [] → Fresh n s₀ → Between n s₀ s → WatermarkInvariant n s) ∧
    ∀ {σ W Id TS IN OUT : Type} [HashWheel W Id] [DecidableEq Id] [UuidSource Id]
        {n : Node σ TS IN OUT} {s₀ s : NodeSt σ (EventTimer W Id TS) IN OUT TS _} {op : σ},
      n.inChannels ≠ [] →
      Node.new n (NodeState.new IN) op (EventTimer.new (TimerState.new Id TS)) = .ok s₀ →
      Between n s₀ s → s.ctx.timer.state.currentTime = s.state.currentWatermark := by
  constructor
  · intro σ τ TS IN OUT P _ n s₀ s hne hfresh h
    obtain ⟨hw, hwf, -⟩ := h.watched hfresh
    exact watermarkInvariant_of_watched hw hwf.init hne
  · intro σ W Id TS IN OUT _ _ _ n s₀ s op _ hnew h
    exact h.currentTime hnew

/-- A filter with an event timer, which it never uses. -/
def timedStart :
    NodeSt Unit (EventTimer ListWheel Nat Empty) Int Int Empty (TimerState Nat Empty) where
  state := ⟨[1, 2].foldl initWatermark ∅, some 0, some 0, ∅, []⟩
  ctx := ⟨(), ⟨⟨[]⟩, ⟨some 0, ∅⟩⟩, []⟩
  metrics := { NodeMetrics.new with inboundChannels := 2 }
  borrowed _ := false
  checkpoints := []

/-- Watermarks out of order and repeated, and elements on both sides of them. -/
def crossingRun : List (Delivery Int) :=
  [.onLocal (.watermark 7 1), .onLocal (.element 1 (some 5) 2), .onLocal (.watermark 4 2),
    .onNetwork ⟨[.watermark 3, .watermark 4, .element ⟨2, some 4⟩, .element ⟨3, some 6⟩], 2⟩]

theorem watermark_invariant_crossing :
    Node.new (filterNode [1, 2]) (NodeState.new Int) ()
        (EventTimer.new (TimerState.new Nat Empty)) =
        .ok timedStart ∧
      WatermarkInvariant (filterNode [1, 2])
        (final (runOk (filterNode [1, 2]) crossingRun timedStart)) ∧
      (final (runOk (filterNode [1, 2]) crossingRun timedStart)).ctx.timer.state.currentTime =
        (final (runOk (filterNode [1, 2]) crossingRun timedStart)).state.currentWatermark := by
  have hnew : Node.new (filterNode [1, 2]) (NodeState.new Int) ()
      (EventTimer.new (TimerState.new Nat Empty)) = .ok timedStart := rfl
  have hrun : Between (filterNode [1, 2]) timedStart
      (final (runOk (filterNode [1, 2]) crossingRun timedStart)) :=
    ⟨crossingRun, _, eq_ok_of_isOk (by decide +kernel), .inl rfl⟩
  exact ⟨hnew, watermark_invariant.1 (by decide) ⟨_, _, hnew⟩ hrun,
    watermark_invariant.2 (by decide) hnew hrun⟩

end Node

end Arcon
