import Arcon.Window.Output

/-!
# Allowed lateness, end to end

Two filters stand between an element and its windows. The node drops an element that is not above
the watermark its own channel sent last; the window operator drops one that is later than allowed,
measured by `current_watermark`. The operator keeps a window open for the allowed lateness after its
end, but an element can use this time only if it gets past the first filter.

* `Screened`: an element above its channel's watermark is handed to the operator, whose time is then
  the least watermark of the channels. Kept by every event and every message of a run.
* `contents_mono`: data in a window stays in it.
* `lateness_honoured`: an element that is not later than allowed and above the watermark of its
  channel is in the result of every window that covers it.
* `lateness_ignored`: without the second condition it is not.
-/

namespace Arcon

open Exec Node

variable {σ τ TS IN OUT P : Type}

/-- A place in two lists is in the first or in the second one. -/
theorem append_cons_cases {α : Type} {l l' pre post : List α} {a : α}
    (h : l ++ l' = pre ++ a :: post) :
    (∃ m, l = pre ++ a :: m ∧ post = m ++ l') ∨ ∃ m, l' = m ++ a :: post ∧ pre = l ++ m := by
  rcases List.append_eq_append_iff.mp h with ⟨m, hpre, hl'⟩ | ⟨m, hl, hpost⟩
  · exact .inr ⟨m, hl', hpre⟩
  · cases m with
    | nil => exact .inr ⟨[], by simpa using hpost.symm, by simpa using hl.symm⟩
    | cons b m =>
      injection hpost with hab hpost
      subst hab
      exact .inl ⟨m, hl, hpost⟩

/-! ## The node's filter -/

namespace Control

variable {n : Node σ TS IN OUT} {v : View IN OUT TS} {c : NodeID}

/-- The element of channel `c` was handed to the operator next, when the operator's time was the
least watermark of the channels. -/
structure HandedOn (n : Node σ TS IN OUT) (pre : List (Act IN OUT TS)) (c : NodeID)
    (e : ArconElement IN) (post : List (Act IN OUT TS)) : Prop where
  sender : c ∈ n.inChannels
  call : ∃ post', post = .handleElement e :: post'
  time : (callsOf pre).foldl Call.time 0 = lowWatermark n.inChannels (iterated pre)

/-- Every element above the watermark of its channel was handed on. -/
def Screened (n : Node σ TS IN OUT) (acts : List (Act IN OUT TS)) : Prop :=
  ∀ pre c e post, acts = pre ++ .iter c (.element e) :: post →
    reach 0 (eventsOf c (iterated pre)) < e.timestamp.getD u64Max → HandedOn n pre c e post

theorem Screened.append {l as : List (Act IN OUT TS)} (h : Screened n l)
    (has : ∀ m c e post, as = m ++ .iter c (.element e) :: post →
      reach 0 (eventsOf c (iterated (l ++ m))) < e.timestamp.getD u64Max →
      HandedOn n (l ++ m) c e post) : Screened n (l ++ as) := by
  intro pre c e post hsplit hlt
  rcases append_cons_cases hsplit with ⟨m, hl, rfl⟩ | ⟨m, hm, rfl⟩
  · obtain ⟨hc, ⟨post', rfl⟩, htime⟩ := h pre c e m hl hlt
    exact ⟨hc, ⟨post' ++ as, rfl⟩, htime⟩
  · exact has m c e post hm hlt

/-- Acts without an element. -/
theorem Screened.quiet {l as : List (Act IN OUT TS)} (h : Screened n l)
    (has : ∀ c e, .iter c (.element e) ∉ as) : Screened n (l ++ as) :=
  h.append fun m c e post hm _ => absurd (by rw [hm]; simp) (has c e)

/-! ## Steps -/

/-- **An event that completes no epoch.** -/
theorem Screened.step (h : Screened n v.acts) (hw : Watched n v) (hi : Initialised n v.state)
    (hc : c ∈ n.inChannels) (ev : ArconEvent IN) : Screened n (step v c ev).acts := by
  rw [step_acts]
  cases ev with
  | death msg => exact h.quiet (by simp [acts])
  | epoch e => exact h.quiet (by simp [acts])
  | watermark w =>
    refine h.quiet fun c' e' => ?_
    simp only [acts]
    split_ifs <;> simp
  | element e =>
    refine h.append fun m c' e' post hm hlt => ?_
    have hlow := hw.low hi (List.ne_nil_of_mem hc)
    cases m with
    | nil =>
      rw [List.append_nil] at hlt ⊢
      rw [List.nil_append] at hm
      simp only [acts] at hm
      injection hm with hiter hpost
      injection hiter with hcc hee
      injection hee with hee
      subst hcc hee
      rw [← hw.channels] at hlt
      rw [if_neg (not_le.mpr hlt)] at hpost
      exact ⟨hc, ⟨[], hpost.symm⟩, hw.clock.trans hlow.symm⟩
    | cons a m =>
      simp only [acts, List.cons_append] at hm
      injection hm with _ hm
      have hmem : .iter c' (.element e') ∈ m ++ .iter c' (.element e') :: post := by simp
      rw [← hm] at hmem
      split_ifs at hmem <;> simp at hmem

theorem Screened.complete (h : Screened n v.acts) (e : Epoch) :
    Screened n (complete v c e).acts := h.quiet (by simp)

theorem Screened.replay {q : NodeID} {ts : List (NodeID × ArconEvent IN)} (h : Screened n v.acts)
    (hw : Watched n v) (hr : InReplay n q ts v.state) : Screened n (replay v ts).acts := by
  have := replay_rule
    (I := fun ts v => Screened n v.acts ∧ Watched n v ∧ InReplay n q ts v.state)
    (fun t ts v h => by
      have hc := (h.2.2.senders t List.mem_cons_self).1
      exact ⟨h.1.step h.2.1 h.2.2.init hc t.2, h.2.1.step h.2.2.init hc t.2, h.2.2.next⟩)
    ts v ⟨h, hw, hr⟩
  exact this.1

/-- **An event of a message.** -/
theorem Screened.event (h : Screened n v.acts) (hw : Watched n v) (hr : Ready n v.state)
    (hf : v.failed = false) (hc : c ∈ n.inChannels) (ev : ArconEvent IN) :
    Screened n (Control.event n v c ev).acts := by
  obtain ⟨-, he⟩ | ⟨e, rfl, hcomp, ⟨-, he⟩ | ⟨-, he⟩⟩ := event_cases (n := n) c ev hf
  · rw [he]
    exact h.step hw hr.init hc ev
  · rw [he, proceed]
    have hopen : Watched n (opened (Control.complete v c e) e) :=
      (hw.complete hr.init hc e).quiet rfl (fun _ => rfl) rfl rfl rfl rfl
    have hs : Screened n (opened (Control.complete v c e) e).acts :=
      (h.complete e).quiet (by simp)
    exact hs.replay hopen (hr.inReplay hc hcomp)
  · rw [he]
    exact h.complete e

theorem Screened.events (h : Screened n v.acts) (hw : Watched n v) (hg : Good n v)
    (hc : c ∈ n.inChannels) (evs : List (ArconEvent IN)) :
    Screened n (events n v c evs).acts := by
  induction evs generalizing v with
  | nil => exact h
  | cons ev evs ih =>
    have hev : Screened n (Control.event n v c ev).acts := by
      cases hf : v.failed with
      | true =>
        rw [show Control.event n v c ev = v by simp [Control.event, hf]]
        exact h
      | false => exact h.event hw (hg.ready hf) hf hc ev
    exact ih hev (hw.events hg hc [ev]) (hg.event hc ev)

/-- **A message.** -/
theorem Screened.deliver (h : Screened n v.acts) (hw : Watched n v) (hwf : WF n v.state)
    (d : Delivery IN) : Screened n (deliver n v d).acts := by
  obtain ⟨-, he⟩ | ⟨hc, ⟨-, he⟩ | ⟨hb, he⟩⟩ := deliver_cases (n := n) v d
  · rw [he]
    exact h
  · rw [he]
    exact h
  · rw [he]
    exact h.events hw ⟨hwf, fun _ => hwf.ready hc hb⟩ hc d.events

/-- **A run**, also one with an `Err`. -/
theorem run_screened [TimerBackend τ TS P] {s₀ s : NodeSt σ τ IN OUT TS P}
    {ds : List (Delivery IN)} (hfresh : Fresh n s₀) (hrun : run n ds s₀ = .ok () s) :
    Screened n s.marks ∧ Watched n s.view ∧ Initialised n s.state := by
  have hinit : Screened n s₀.view.acts := by
    rw [hfresh.view]
    intro pre c e post h
    simp at h
  have hwp := wp_run ds (I := fun _ v => Screened n v.acts ∧ Watched n v) hfresh.eq.2.1 hfresh.wf
    ⟨hinit, hfresh.watched⟩ ?_
  · obtain ⟨⟨hs, hw⟩, hwf⟩ := wp_ok hwp hrun
    exact ⟨hs, hw, hwf.init⟩
  · rintro done d rest s' - - hwf ⟨h, hw⟩
    have hw' := hw.deliver hwf d
    exact ⟨h.deliver hw hwf d, hw'.channels, hw'.forwarded, hw'.sorted, hw'.bounded, hw'.elements,
      hw'.clock⟩

end Control

/-! ## Data stays in its windows -/

theorem fired_filter_isCall (l : List (Act IN OUT TS)) : fired (l.filter Act.isCall) = fired l := by
  unfold fired
  rw [List.filterMap_filter]
  refine List.filterMap_congr fun a _ => ?_
  cases a with
  | forward ev => cases ev <;> simp [Act.isCall]
  | _ => simp [Act.isCall]

namespace EventTimeWindowAssigner

variable {Acc W Id : Type} [HashWheel W Id] [DecidableEq Id] [UuidSource Id]
  {a : EventTimeWindowAssigner IN OUT Acc} {k : KeyAndIndex}

omit [HashWheel W Id] [DecidableEq Id] [UuidSource Id] in
theorem accepted_mono (calls more : List (Call IN)) :
    a.accepted calls <+: a.accepted (calls ++ more) := by
  induction more generalizing calls with
  | nil => rw [List.append_nil]
  | cons x more ih =>
    rw [List.append_cons]
    refine List.IsPrefix.trans ?_ (ih (calls ++ [x]))
    rw [accepted_append]
    exact List.prefix_append _ _

omit [HashWheel W Id] [DecidableEq Id] [UuidSource Id] in
/-- **Data in a window stays in it.** -/
theorem contents_mono {es es' : List (ArconElement IN)} (h : es <+: es') :
    a.contents es k <+: a.contents es' k := by
  obtain ⟨more, rfl⟩ := h
  induction more generalizing es with
  | nil => rw [List.append_nil]
  | cons e more ih =>
    rw [List.append_cons]
    refine List.IsPrefix.trans ?_ ih
    rw [contents_append]
    exact List.prefix_append _ _

omit [HashWheel W Id] [DecidableEq Id] [UuidSource Id] in
/-- A key keeps its start. -/
theorem startOf_mono {es es' : List (ArconElement IN)} (h : es <+: es')
    (hs : a.startOf es k.key ≠ none) : a.startOf es' k.key = a.startOf es k.key := by
  obtain ⟨more, rfl⟩ := h
  induction more generalizing es with
  | nil => rw [List.append_nil]
  | cons e more ih =>
    have hone := startOf_append_of_some (e := e) hs
    rw [List.append_cons, ih (by rw [hone]; exact hs), hone]

/-! ## Runs -/

section Runs

variable {n : Node (WindowState Acc) WindowEvent IN OUT}
  {s₀ s : NodeSt (WindowState Acc) (EventTimer W Id WindowEvent) IN OUT WindowEvent
    (TimerState Id WindowEvent)} {ds : List (Delivery IN)}

omit [HashWheel W Id] [DecidableEq Id] [UuidSource Id] in
/-- An element in time is in every window that covers it, from then on. -/
theorem contents_of_element {calls : List (Call IN)} (more : List (Call IN))
    {e : ArconElement IN} (hlate : ¬a.Late (clock calls) e) (hkey : k.key = a.getKey e)
    (hcovers : a.Covers (a.startWith (a.accepted calls) e) k.index (tsOf e)) :
    a.contents (a.accepted calls) k ++ [e.data] <+:
        a.contents (a.accepted (calls ++ .element e :: more)) k ∧
      a.startOf (a.accepted (calls ++ .element e :: more)) k.key =
        some (a.startWith (a.accepted calls) e) := by
  have hacc : a.accepted (calls ++ [.element e]) = a.accepted calls ++ [e] := by
    rw [accepted_append, takes_inTime hlate]
  have hprefix : a.accepted calls ++ [e] <+: a.accepted (calls ++ .element e :: more) := by
    rw [← hacc, List.append_cons calls (.element e) more]
    exact accepted_mono _ _
  have hstart : a.startOf (a.accepted calls ++ [e]) k.key =
      some (a.startWith (a.accepted calls) e) := by
    rw [startOf_append, hkey, Function.update_self]
  constructor
  · have hdata := contents_mono (a := a) (k := k) hprefix
    rwa [contents_append, if_pos ⟨hkey, hcovers⟩] at hdata
  · rw [startOf_mono hprefix (by rw [hstart]; simp), hstart]

/-- Whatever the window `k` puts out is the result of data in which `x` follows `before`. -/
def ResultsContain (a : EventTimeWindowAssigner IN OUT Acc) (log : List (Act IN OUT WindowEvent))
    (k : KeyAndIndex) (before : List IN) (x : IN) : Prop :=
  ∀ pre t o post, log = pre ++ .handleTimeout t :: .output (.element o) :: post → t.window = k →
    ∃ more r, o = .withTimestamp r t.timestamp ∧
      a.window.result (a.window.gather (before ++ x :: more)) = some r

/-- The calls of a run around an element that gets past the node's filter. -/
theorem calls_of_element (hfresh : Control.Fresh n s₀) (hrun : run n ds s₀ = .ok () s)
    {pre post : List (Act IN OUT WindowEvent)} {c : NodeID} {e : ArconElement IN}
    (hlog : s.ctx.log = pre ++ .iter c (.element e) :: post)
    (hchannel : reach 0 (iterOf c pre) < e.timestamp.getD u64Max) :
    c ∈ n.inChannels ∧ (∃ more, callsOf s.ctx.log = callsOf pre ++ .element e :: more) ∧
      clock (callsOf pre) = lowWatermark n.inChannels (iterated pre) := by
  obtain ⟨hscreened, -, -⟩ := Control.run_screened hfresh hrun
  have hmarks : s.marks = pre.filter Act.isMark ++
      .iter c (.element e) :: post.filter Act.isMark := by
    unfold NodeSt.marks
    rw [hlog, List.filter_append]
    rfl
  obtain ⟨hc, ⟨post', hpost⟩, htime⟩ := hscreened _ c e _ hmarks
    (by rw [iterated_filter_isMark, eventsOf_iterated]; exact hchannel)
  rw [callsOf_filter_isMark, iterated_filter_isMark] at htime
  refine ⟨hc, ⟨callsOf post', ?_⟩, htime⟩
  rw [hlog, callsOf_append]
  congr 1
  show callsOf post = _
  rw [← callsOf_filter_isMark, hpost]
  rfl

/-- **Allowed lateness.** In every run of a node with event-time windows on an event timer that does
not panic: an element that comes when `current_watermark` is not past its timestamp plus the allowed
lateness, and whose timestamp is above the last watermark of its own channel, is in the result of
every window that covers it. Such a window fires exactly when `current_watermark` reaches its end
plus the allowed lateness, and whatever it puts out is the window function's result of data among
which that of the element follows the data that were in the window before. -/
theorem lateness_honoured (hop : n.operator = a.operator)
    (hnew : Node.new n (NodeState.new IN) (WindowState.new Acc)
      (EventTimer.new (TimerState.new Id WindowEvent)) = .ok s₀) (hrun : run n ds s₀ = .ok () s)
    {pre post : List (Act IN OUT WindowEvent)} {c : NodeID} {e : ArconElement IN}
    (hlog : s.ctx.log = pre ++ .iter c (.element e) :: post)
    (hlate : lowWatermark n.inChannels (iterated pre) - a.lateArrivalTime ≤ tsOf e)
    (hchannel : reach 0 (iterOf c pre) < e.timestamp.getD u64Max) (hkey : k.key = a.getKey e)
    (hcovers : a.Covers (a.startWith (a.accepted (callsOf pre)) e) k.index (tsOf e)) :
    (k ∈ (fired s.ctx.log).map WindowEvent.window ↔
      a.endOf (a.startWith (a.accepted (callsOf pre)) e) k.index + a.lateArrivalTime ≤
        lowWatermark n.inChannels (iterated s.ctx.log)) ∧
      a.ResultsContain s.ctx.log k (a.contents (a.accepted (callsOf pre)) k) e.data := by
  have hfresh : Control.Fresh n s₀ := ⟨_, _, hnew⟩
  obtain ⟨hc, ⟨more, hcalls⟩, htime⟩ := calls_of_element hfresh hrun hlog hchannel
  obtain ⟨-, hw, hi⟩ := Control.run_screened hfresh hrun
  have hdrive := (wp_ok (Control.run_drives ds hfresh.drives) hrun).driven
  unfold Control.Driven at hdrive
  rw [hop] at hdrive
  have hbegin := begins_of_new hop hnew
  have hnot : ¬a.Late (clock (callsOf pre)) e := by
    unfold Late
    rw [htime]
    exact not_lt.mpr hlate
  obtain ⟨hdata, hstart⟩ := contents_of_element more hnot hkey hcovers
  rw [← hcalls] at hdata hstart
  refine ⟨?_, fun pre' t o post' hlog' hwin => ?_⟩
  · have hiff := ((window_fires_once hbegin).1 _ hdrive).2.2.2.2 k
    have hne : a.contents (a.accepted (callsOf s.ctx.log)) k ≠ [] := by
      intro hnil
      rw [hnil] at hdata
      simp at hdata
    have hclock : clock (callsOf s.ctx.log) = lowWatermark n.inChannels (iterated s.ctx.log) := by
      have hmin := hw.clock
      rw [← hw.low hi (List.ne_nil_of_mem hc)] at hmin
      simpa only [NodeSt.view, NodeSt.marks, callsOf_filter_isMark, iterated_filter_isMark, clock]
        using hmin
    rw [show s.ctx.core.log = s.ctx.log.filter Act.isCall from rfl, fired_filter_isCall] at hiff
    rw [hiff, hclock]
    unfold deadline
    rw [hstart]
    exact and_iff_right hne
  · have hsplit : s.ctx.core.log = pre'.filter Act.isCall ++
        .handleTimeout t :: .output (.element o) :: post'.filter Act.isCall := by
      show s.ctx.log.filter Act.isCall = _
      rw [hlog', List.filter_append]
      rfl
    obtain ⟨start, r, post'', -, -, hr, hout⟩ := (window_contents hbegin hdrive).1 _ t _ hsplit
    obtain ⟨rest, hrest⟩ := hdata
    refine ⟨rest, r, ?_, ?_⟩
    · injection hout with hout _
      injection hout with hout
      injection hout
    · rw [show (⟨t.key, t.index⟩ : KeyAndIndex) = k from hwin, ← hrest, List.append_assoc] at hr
      exact hr

end Runs

omit [HashWheel W Id] [DecidableEq Id] [UuidSource Id] in
/-- An appending window gives its function all it was given. -/
theorem appender_result (f : List IN → OUT) (data : List IN) :
    (AppenderWindow.new f).result ((AppenderWindow.new f).gather data) = some (f data) := by
  rw [AppenderWindow.gather_eq]
  rfl

/-- An element at 1, a watermark, an element at 10, and the watermark that closes the window of
both. -/
def lateRun (w : Watermark) : List (Delivery Nat) :=
  [.onLocal (.element 5 (some 1) 1), .onLocal (.watermark w 1), .onLocal (.element 6 (some 10) 1),
    .onLocal (.watermark 13 1)]

/-- Where it leads, with windows of length 10 and a lateness of 2. -/
def lateEnd (w : Watermark) : NodeSt (WindowState (List Nat))
    (EventTimer ListWheel Nat WindowEvent) Nat Nat WindowEvent (TimerState Nat WindowEvent) :=
  final (run (windowNode (tumbling 2) [1]) (lateRun w) (windowStart [1]))

/-- The acts before the second element. -/
def lateBefore (w : Watermark) : List (Act Nat Nat WindowEvent) :=
  [.iter 1 (.element ⟨5, some 1⟩), .handleElement ⟨5, some 1⟩, .iter 1 (.watermark w),
    .handleWatermark w, .forward (.watermark w)]

/-- The watermark before the second element is below it: the window counts both. -/
theorem lateness_honoured_counted :
    (lateEnd 3).ctx.log = lateBefore 3 ++ .iter 1 (.element ⟨6, some 10⟩) ::
        [.handleElement ⟨6, some 10⟩, .iter 1 (.watermark 13), .handleWatermark 13,
          .handleTimeout ⟨7, 0, 11⟩, .output (.element ⟨2, some 11⟩), .forward (.watermark 13)] ∧
      (tumbling 2).ResultsContain (lateEnd 3).ctx.log ⟨7, 0⟩ [5] 6 := by
  have hlog : (lateEnd 3).ctx.log = lateBefore 3 ++ .iter 1 (.element ⟨6, some 10⟩) ::
      [.handleElement ⟨6, some 10⟩, .iter 1 (.watermark 13), .handleWatermark 13,
        .handleTimeout ⟨7, 0, 11⟩, .output (.element ⟨2, some 11⟩), .forward (.watermark 13)] := by
    decide +kernel
  have hrun : run (windowNode (tumbling 2) [1]) (lateRun 3) (windowStart [1]) =
      .ok () (lateEnd 3) := eq_ok_of_isOk (by decide +kernel)
  exact ⟨hlog, (lateness_honoured (a := tumbling 2) (k := ⟨7, 0⟩) rfl (windowStart_eq _ [1]) hrun
    hlog (by decide) (by decide) (by decide) (by decide)).2⟩

/-- **It is not above the watermark of its channel**: the element is later than the watermark by 2,
which is allowed, and its window is open, but the node drops it and the window counts one
element. -/
theorem lateness_ignored :
    Node.new (windowNode (tumbling 2) [1]) (NodeState.new Nat) (WindowState.new (List Nat))
        (EventTimer.new (TimerState.new Nat WindowEvent)) = .ok (windowStart [1]) ∧
      run (windowNode (tumbling 2) [1]) (lateRun 12) (windowStart [1]) = .ok () (lateEnd 12) ∧
      (lateEnd 12).ctx.log = lateBefore 12 ++ .iter 1 (.element ⟨6, some 10⟩) ::
        [.iter 1 (.watermark 13), .handleWatermark 13, .handleTimeout ⟨7, 0, 11⟩,
          .output (.element ⟨1, some 11⟩), .forward (.watermark 13)] ∧
      lowWatermark [1] (iterated (lateBefore 12)) - 2 ≤ 10 ∧
      (tumbling 2).Covers ((tumbling 2).startWith ((tumbling 2).accepted
        (callsOf (lateBefore 12))) ⟨6, some 10⟩) 0 10 ∧
      ¬(tumbling 2).ResultsContain (lateEnd 12).ctx.log ⟨7, 0⟩ [5] 6 := by
  have hlog : (lateEnd 12).ctx.log = lateBefore 12 ++ .iter 1 (.element ⟨6, some 10⟩) ::
      [.iter 1 (.watermark 13), .handleWatermark 13, .handleTimeout ⟨7, 0, 11⟩,
        .output (.element ⟨1, some 11⟩), .forward (.watermark 13)] := by
    decide +kernel
  refine ⟨windowStart_eq _ [1], eq_ok_of_isOk (by decide +kernel), hlog, by decide, by decide,
    fun h => ?_⟩
  obtain ⟨more, r, ho, hr⟩ := h (lateBefore 12 ++ [.iter 1 (.element ⟨6, some 10⟩),
    .iter 1 (.watermark 13), .handleWatermark 13]) ⟨7, 0, 11⟩ ⟨1, some 11⟩
    [.forward (.watermark 13)] (by rw [hlog]; rfl) rfl
  obtain rfl : 1 = r := congrArg ArconElement.data ho
  have hlen := (appender_result List.length _).symm.trans hr
  simp at hlen

end EventTimeWindowAssigner

end Arcon
