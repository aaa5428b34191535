import Arcon.Node.Refine

/-!
# Channels are FIFO

`handle_events` iterates over the events of each channel in the order in which they were received,
each of them once, with those of its buffered messages still to come. The events of a channel are
in three places while a message is handled: iterated over, in the buffer, and in the rest of the
message; a replay moves them from the second to the first.

* `event_total`, `events_total`, `deliver_total`: what one event and one message add to `total`, the
  events of a channel iterated over or in the buffer.
* `channel_fifo`: along every run without an `Err` or a panic, `total` is what was received; and
  every message is handled in at most `replayDepth` nested replays.
-/

namespace Arcon

open Exec Node

variable {σ τ TS IN OUT P : Type}

/-- The events of channel `c` that were iterated over. -/
def iterOf (c : NodeID) (l : List (Act IN OUT TS)) : List (ArconEvent IN) :=
  l.filterMap fun
    | .iter c' ev => if c' = c then some ev else none
    | _ => none

/-- The events of channel `c` in the buffer. -/
def bufferedOf (c : NodeID) (st : NodeState IN) : List (ArconEvent IN) :=
  eventsOf c (tasks st.messageBuffer)

@[simp] theorem iterOf_append (c : NodeID) (l₁ l₂ : List (Act IN OUT TS)) :
    iterOf c (l₁ ++ l₂) = iterOf c l₁ ++ iterOf c l₂ := List.filterMap_append

/-- What is iterated over is part of the node's own acts. -/
theorem iterOf_filter_isMark (c : NodeID) (l : List (Act IN OUT TS)) :
    iterOf c (l.filter Act.isMark) = iterOf c l := by
  unfold iterOf
  rw [List.filterMap_filter]
  refine List.filterMap_congr fun a _ => ?_
  cases a <;> simp [Act.isMark]

theorem eventsOf_append (c : NodeID) (ts₁ ts₂ : List (NodeID × ArconEvent IN)) :
    eventsOf c (ts₁ ++ ts₂) = eventsOf c ts₁ ++ eventsOf c ts₂ := by
  simp [eventsOf]

theorem eventsOf_cons (c : NodeID) (t : NodeID × ArconEvent IN)
    (ts : List (NodeID × ArconEvent IN)) :
    eventsOf c (t :: ts) = (if t.1 = c then [t.2] else []) ++ eventsOf c ts := by
  unfold eventsOf
  by_cases h : t.1 = c <;> simp [h]

theorem eventsOf_eq_nil {c : NodeID} {ts : List (NodeID × ArconEvent IN)}
    (h : ∀ t ∈ ts, t.1 ≠ c) : eventsOf c ts = [] := by
  unfold eventsOf
  rw [List.map_eq_nil_iff, List.filter_eq_nil_iff]
  intro t ht
  simpa using h t ht

/-- The events of `c` in a message of `c'`. -/
theorem eventsOf_tasks_singleton (c c' : NodeID) (evs : List (ArconEvent IN)) :
    eventsOf c (tasks [⟨evs, c'⟩]) = if c' = c then evs else [] := by
  have htasks : tasks [⟨evs, c'⟩] = evs.map fun ev => (c', ev) := by simp [tasks]
  rw [htasks]
  by_cases h : c' = c
  · unfold eventsOf
    rw [if_pos h, List.filter_eq_self.mpr (by simp [h])]
    simp
  · rw [if_neg h]
    exact eventsOf_eq_nil (by simp [h])

theorem received_append (c : NodeID) (ds : List (Delivery IN)) (d : Delivery IN) :
    received c (ds ++ [d]) = received c ds ++ if d.sender = c then d.events else [] := by
  unfold received
  by_cases h : d.sender = c <;> simp [h]

theorem received_mono (c : NodeID) {ds ds' : List (Delivery IN)} (h : ds <+: ds') :
    received c ds <+: received c ds' := by
  obtain ⟨t, rfl⟩ := h
  unfold received
  rw [List.filter_append, List.flatMap_append]
  exact List.prefix_append _ _

namespace Control

variable {n : Node σ TS IN OUT} {v : View IN OUT TS} {c c' : NodeID}

/-- The events of channel `c` iterated over or in the buffer. -/
def total (c : NodeID) (v : View IN OUT TS) : List (ArconEvent IN) :=
  iterOf c v.acts ++ bufferedOf c v.state

theorem iterOf_acts (st : NodeState IN) (ev : ArconEvent IN) :
    iterOf c (acts st c' ev : List (Act IN OUT TS)) = if c' = c then [ev] else [] := by
  have hrest : ∀ as : List (Act IN OUT TS), (∀ a ∈ as, ∀ c ev, a ≠ .iter c ev) →
      iterOf c (.iter c' ev :: as) = if c' = c then [ev] else [] := by
    intro as has
    have hnil : iterOf c as = [] := by
      unfold iterOf
      refine List.filterMap_eq_nil_iff.mpr fun a ha => ?_
      cases a with
      | iter c ev => exact absurd rfl (has _ ha c ev)
      | _ => rfl
    unfold iterOf at hnil ⊢
    rw [List.filterMap_cons, hnil]
    by_cases h : c' = c <;> simp [h]
  unfold acts
  refine hrest _ fun a ha => ?_
  rintro c₁ ev₁ rfl
  cases ev <;> simp only at ha
  · split_ifs at ha <;> simp at ha
  · split_ifs at ha <;> simp at ha
  · simp at ha
  · simp at ha

theorem iterOf_step (ev : ArconEvent IN) :
    iterOf c (step v c' ev).acts = iterOf c v.acts ++ if c' = c then [ev] else [] := by
  rw [step_acts, iterOf_append, iterOf_acts]

/-- **A replay iterates over its events.** -/
theorem iterOf_replay (ts : List (NodeID × ArconEvent IN)) :
    iterOf c (replay v ts).acts = iterOf c v.acts ++ eventsOf c ts := by
  induction ts generalizing v with
  | nil => simp [replay, eventsOf]
  | cons t ts ih =>
    rw [eventsOf_cons, ← List.append_assoc, ← iterOf_step]
    exact ih

theorem replay_messageBuffer (ts : List (NodeID × ArconEvent IN)) :
    (replay v ts).state.messageBuffer = v.state.messageBuffer := by
  induction ts generalizing v with
  | nil => rfl
  | cons t ts ih => exact ih.trans (next_messageBuffer t.2)

theorem iterOf_complete (e : Epoch) :
    iterOf c (complete v c' e).acts = iterOf c v.acts ++ if c' = c then [.epoch e] else [] := by
  rw [complete_acts, iterOf_append]
  by_cases h : c' = c <;> simp [iterOf, h]

/-- **One event of a message** is iterated over, after all earlier events of its channel. -/
theorem event_total (hf : v.failed = false) (hbuf : bufferedOf c' v.state = [])
    (ev : ArconEvent IN) :
    total c (event n v c' ev) = total c v ++ (if c' = c then [ev] else []) ∧
      bufferedOf c' (event n v c' ev).state = [] := by
  -- the events of `c` behind those of this message are none of its own
  have hcomm : (if c' = c then [ev] else []) ++ bufferedOf c v.state =
      bufferedOf c v.state ++ if c' = c then [ev] else [] := by
    by_cases h : c' = c
    · subst h
      simp [hbuf]
    · simp [h]
  obtain ⟨-, he⟩ | ⟨e, rfl, -, ⟨-, he⟩ | ⟨-, he⟩⟩ := event_cases (n := n) c' ev hf
  · have hb : ∀ q, bufferedOf q (step v c' ev).state = bufferedOf q v.state := by
      intro q
      unfold bufferedOf
      rw [step_state, next_messageBuffer]
    rw [he]
    refine ⟨?_, (hb c').trans hbuf⟩
    rw [total, total, hb, iterOf_step, List.append_assoc, List.append_assoc, hcomm]
  · have hempty : ∀ q, bufferedOf q (proceed (complete v c' e) e).state = [] := by
      intro q
      unfold bufferedOf proceed
      rw [replay_messageBuffer]
      rfl
    rw [he]
    refine ⟨?_, hempty c'⟩
    rw [total, total, hempty, List.append_nil, proceed, iterOf_replay]
    rw [opened, View.note_acts, View.put_acts, iterOf_append, iterOf_complete]
    rw [show iterOf c ([.checkpoint e, .forward (.epoch e)] : List (Act IN OUT TS)) = [] from rfl]
    rw [List.append_nil, List.append_assoc, List.append_assoc, ← hcomm]
    rfl
  · rw [he]
    refine ⟨?_, hbuf⟩
    rw [total, total, List.append_assoc, ← hcomm, ← List.append_assoc, ← iterOf_complete]
    rfl

/-- **The events of a message.** -/
theorem events_total (hbuf : bufferedOf c' v.state = []) (evs : List (ArconEvent IN))
    (hf : (events n v c' evs).failed = false) :
    total c (events n v c' evs) = total c v ++ if c' = c then evs else [] := by
  induction evs generalizing v with
  | nil => simp [events]
  | cons ev evs ih =>
    have hv : v.failed = false := by
      by_contra h
      rw [Bool.not_eq_false] at h
      rw [events_failed h] at hf
      rw [h] at hf
      cases hf
    obtain ⟨htot, hbuf'⟩ := event_total (n := n) (c := c) hv hbuf ev
    rw [show events n v c' (ev :: evs) = events n (event n v c' ev) c' evs from rfl] at hf ⊢
    rw [ih hbuf' hf, htot]
    by_cases h : c' = c <;> simp [h]

/-- A free channel has no message in the buffer. -/
theorem WF.bufferedOf_eq_nil {st : NodeState IN} (h : WF n st) (hc : c ∉ st.blockedChannels) :
    bufferedOf c st = [] := by
  refine eventsOf_eq_nil fun t ht => ?_
  obtain ⟨m, hm, hmt⟩ := tasks_sender ht
  rintro rfl
  rw [← hmt] at hc
  exact hc (h.senders m hm)

theorem total_buffered (evs : List (ArconEvent IN)) :
    total c (v.put (buffered v.state c' evs)) = total c v ++ if c' = c then evs else [] := by
  rw [total, total, List.append_assoc]
  congr 1
  unfold bufferedOf buffered
  rw [View.put_state]
  rw [show tasks (v.state.messageBuffer ++ [⟨evs, c'⟩]) =
    tasks v.state.messageBuffer ++ tasks [⟨evs, c'⟩] by simp [tasks]]
  rw [eventsOf_append, eventsOf_tasks_singleton]

/-- **One message.** -/
theorem deliver_total (h : WF n v.state) (d : Delivery IN) (hf : (deliver n v d).failed = false) :
    total c (deliver n v d) = total c v ++ if d.sender = c then d.events else [] := by
  obtain ⟨-, he⟩ | ⟨-, ⟨-, he⟩ | ⟨hb, he⟩⟩ := deliver_cases (n := n) v d
  · rw [he] at hf
    cases hf
  · rw [he]
    exact total_buffered d.events
  · rw [he] at hf ⊢
    exact events_total (h.bufferedOf_eq_nil hb) d.events hf

/-- An event leaves the buffer as it is or empties it. -/
theorem event_messageBuffer (ev : ArconEvent IN) :
    (event n v c ev).state.messageBuffer = v.state.messageBuffer ∨
      (event n v c ev).state.messageBuffer = [] := by
  cases hf : v.failed with
  | true => exact .inl (by simp [event, hf])
  | false =>
    obtain ⟨-, he⟩ | ⟨e, rfl, -, ⟨-, he⟩ | ⟨-, he⟩⟩ := event_cases (n := n) c ev hf
    · exact .inl (by rw [he]; exact next_messageBuffer ev)
    · exact .inr (by rw [he, proceed, replay_messageBuffer]; rfl)
    · exact .inl (by rw [he]; rfl)

theorem events_messageBuffer (evs : List (ArconEvent IN)) :
    (events n v c evs).state.messageBuffer = v.state.messageBuffer ∨
      (events n v c evs).state.messageBuffer = [] := by
  induction evs generalizing v with
  | nil => exact .inl rfl
  | cons ev evs ih =>
    rcases ih (v := event n v c ev) with h | h
    · rcases event_messageBuffer (n := n) (v := v) (c := c) ev with h' | h'
      · exact .inl (h.trans h')
      · exact .inr (h.trans h')
    · exact .inr h

/-! ## Bounded recursion -/

section Depth

variable [TimerBackend τ TS P] {s : NodeSt σ τ IN OUT TS P}

/-- The events of a message depend on `after_state_save` only in states with free guards. -/
theorem handleEvents_depth (k : Nat) (hs : s.Free) (evs : List (ArconEvent IN)) :
    handleEvents n (afterStateSave n (k + replayDepth)) c evs s =
      handleEvents n (afterStateSave n replayDepth) c evs s := by
  unfold handleEvents
  refine forM_congr_wp (I := fun _ (s' : NodeSt σ τ IN OUT TS P) => s'.Free) ?_ ?_ hs
  · intro ev _ s' hf
    exact handleEvent_congr hf fun _ _ _ s'' hf' _ => afterStateSave_depth k hf'
  · intro ev _ s' hf
    refine wp_mono (handleEvent_keeps (K := fun _ => True)
      (fun s'' hf' _ => wp_mono (afterStateSave_bound hf') (fun _ _ h => ⟨h.1, trivial⟩)
        (fun _ _ h => h)) hf trivial) (fun _ _ h => h.1) (fun _ _ _ => trivial)

/-- **A message needs no deeper recursion** than `replayDepth`. -/
theorem handleFrom_depth (k : Nat) (hs : s.Idle) (evs : List (ArconEvent IN)) :
    handleFrom n (afterStateSave n (k + replayDepth)) c evs s =
      handleFrom n (afterStateSave n replayDepth) c evs s := by
  unfold handleFrom
  by_cases hc : c ∈ n.inChannels
  swap
  · rw [if_pos hc, if_pos hc]
  · rw [if_neg (not_not.mpr hc), if_neg (not_not.mpr hc)]
    refine bind_congr_wp ?_
    unfold recordIncomingEvents
    rw [wp_withBorrow (hs _), wp_modifyMetrics]
    refine bind_congr_wp ?_
    rw [wp_get]
    split_ifs with hb
    · rfl
    · refine handleEvents_depth k ⟨?_, ?_⟩ evs
      · simpa [NodeSt.release, NodeSt.hold] using hs .channelStrategy
      · simpa [NodeSt.release, NodeSt.hold] using hs .timerBackend

end Depth

end Control

namespace Node

open Control

variable [TimerBackend τ TS P] {n : Node σ TS IN OUT} {s₀ s : NodeSt σ τ IN OUT TS P}

/-- **Per-channel FIFO without loss or duplication, and termination.** Along every run of a fresh
node in which no step returns an `Err` or panics, the events of a channel that `handle_events` has
iterated over, followed by those of its messages in the buffer, are the events received from it.
And the next message, whatever it is, ends within `replayDepth` nested replays: with more levels to
spare it is handled in the same way, and the bound is not what ends it. -/
theorem channel_fifo {ds : List (Delivery IN)} (hfresh : Fresh n s₀)
    (hrun : runOk n ds s₀ = .ok () s) :
    (∀ c, iterOf c s.ctx.log ++ bufferedOf c s.state = received c ds) ∧
      ∀ (d : Delivery IN) (k : Nat),
        handleFrom n (afterStateSave n (k + replayDepth)) d.sender d.events s = handle n d s ∧
          ∀ s', handle n d s ≠ .error .replayBound s' := by
  have hwp := wp_runOk ds (I := fun done v => ∀ c, total c v = received c done)
    hfresh.eq.2.1 hfresh.wf ?_ ?_
  · obtain ⟨htot, hwf, hidle⟩ := wp_ok hwp hrun
    refine ⟨fun c => ?_, fun d k => ⟨?_, fun s' herr => ?_⟩⟩
    · rw [← htot c, total, ← iterOf_filter_isMark]
      rfl
    · rw [handle_eq]
      exact handleFrom_depth k hidle d.events
    · obtain ⟨-, ⟨⟨msg, hf⟩, -⟩ | ⟨⟨x, hf⟩ | ⟨hf, -⟩, -⟩⟩ :=
        wp_error (handle_refines d hidle hwf) herr
      · cases hf
      · cases hf
      · cases hf
  · intro c
    rw [hfresh.view]
    rfl
  · intro done d v _ hwf hI hf c
    rw [deliver_total hwf d hf, hI c, received_append]

/-- The messages of the run below: channel 1 runs an epoch ahead of channel 2. -/
def aheadRun : List (Delivery Int) :=
  [.onLocal (.element 11 (some 1) 1), .onLocal (.epoch 1 1),
    .onNetwork ⟨[.element ⟨12, some 1⟩], 1⟩,
    .onLocal (.element 21 (some 1) 2), .onLocal (.epoch 1 2)]

/-- Where it leads. -/
def aheadEnd : NodeSt Unit Unit Int Int Empty Unit :=
  final (runOk (filterNode [1, 2]) aheadRun (filterStart [1, 2]))

theorem channel_fifo_ahead :
    runOk (filterNode [1, 2]) aheadRun (filterStart [1, 2]) = .ok () aheadEnd ∧
      (∀ c, iterOf c aheadEnd.ctx.log ++ bufferedOf c aheadEnd.state = received c aheadRun) ∧
      ∀ (d : Delivery Int) (k : Nat),
        handleFrom (filterNode [1, 2]) (afterStateSave (filterNode [1, 2]) (k + replayDepth))
            d.sender d.events aheadEnd = handle (filterNode [1, 2]) d aheadEnd ∧
          ∀ s', handle (filterNode [1, 2]) d aheadEnd ≠ .error .replayBound s' := by
  have hok : runOk (filterNode [1, 2]) aheadRun (filterStart [1, 2]) = .ok () aheadEnd :=
    eq_ok_of_isOk (by decide +kernel)
  exact ⟨hok, channel_fifo (filterStart_fresh [1, 2]) hok⟩

end Node

end Arcon
