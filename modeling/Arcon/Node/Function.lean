import Arcon.Function
import Arcon.Node.LowWatermark

/-!
# Nodes with a function operator

Two things stand between the events that a node iterates over and the elements it hands on. An
element that is not above the watermark of its channel is dropped; `onTime` is the rest, read off
the events alone. And the operator is called for the elements on time in the order of the events,
with calls for watermarks and epochs in between, which a function operator ignores.

* `deliver_rule`: what every event keeps, a message keeps.
* `handled_eq_onTime`: the elements a node hands to its operator are those on time, for every
  operator.
* **`function_node`**: a node with a function operator puts out what the function makes of the
  elements on time.
-/

namespace Arcon

open Exec Node

variable {σ τ TS IN OUT P : Type}

/-! ## The elements on time -/

/-- The elements above the watermark of their channel, which `w` is before the events. -/
def onTimeFrom (w : NodeID → Watermark) :
    List (NodeID × ArconEvent IN) → List (ArconElement IN)
  | [] => []
  | (c, .element e) :: evs =>
    if e.timestamp.getD u64Max ≤ w c then onTimeFrom w evs else e :: onTimeFrom w evs
  | (c, .watermark x) :: evs => onTimeFrom (Function.update w c (max (w c) x)) evs
  | (_, .epoch _) :: evs | (_, .death _) :: evs => onTimeFrom w evs

/-- The elements above the watermark of their channel. -/
def onTime (evs : List (NodeID × ArconEvent IN)) : List (ArconElement IN) :=
  onTimeFrom (fun _ => 0) evs

theorem reached_cons {w w' : NodeID → Watermark} {c' : NodeID} {ev : ArconEvent IN}
    (hw : ∀ c, reach (w c) (if c' = c then [ev] else []) = w' c)
    (evs : List (NodeID × ArconEvent IN)) :
    (fun c => reach (w c) (eventsOf c ((c', ev) :: evs))) =
      fun c => reach (w' c) (eventsOf c evs) := by
  funext c
  rw [eventsOf_cons, reach_append, hw]

theorem reach_quiet {ev : ArconEvent IN} (hev : ev.watermark? = none) (w : NodeID → Watermark)
    (c' c : NodeID) : reach (w c) (if c' = c then [ev] else []) = w c := by
  split_ifs
  · unfold reach
    rw [List.filterMap_cons, hev]
    rfl
  · rfl

theorem reach_update (w : NodeID → Watermark) (c' : NodeID) (x : Watermark) (c : NodeID) :
    reach (w c) (if c' = c then [.watermark x] else [] : List (ArconEvent IN)) =
      Function.update w c' (max (w c') x) c := by
  by_cases hc : c' = c
  · subst hc
    rw [if_pos rfl, Function.update_self]
    rfl
  · rw [if_neg hc, Function.update_of_ne (Ne.symm hc)]
    rfl

theorem onTimeFrom_snoc (w : NodeID → Watermark) (evs : List (NodeID × ArconEvent IN))
    (t : NodeID × ArconEvent IN) :
    onTimeFrom w (evs ++ [t]) =
      onTimeFrom w evs ++ onTimeFrom (fun c => reach (w c) (eventsOf c evs)) [t] := by
  induction evs generalizing w with
  | nil => rfl
  | cons t' evs ih =>
    obtain ⟨c', ev⟩ := t'
    rw [List.cons_append]
    cases ev with
    | element e =>
      rw [reached_cons (reach_quiet rfl w c'), onTimeFrom, onTimeFrom, ih]
      split_ifs
      · rfl
      · rfl
    | watermark x => rw [reached_cons (reach_update w c' x), onTimeFrom, onTimeFrom, ih]
    | epoch e => rw [reached_cons (reach_quiet rfl w c'), onTimeFrom, onTimeFrom, ih]
    | death msg => rw [reached_cons (reach_quiet rfl w c'), onTimeFrom, onTimeFrom, ih]

/-- The elements handed to the operator. -/
def handledElements (l : List (Act IN OUT TS)) : List (ArconElement IN) := Call.elements (callsOf l)

@[simp] theorem handledElements_append (l₁ l₂ : List (Act IN OUT TS)) :
    handledElements (l₁ ++ l₂) = handledElements l₁ ++ handledElements l₂ := by
  unfold handledElements Call.elements
  rw [callsOf_append, List.filterMap_append]

namespace Control

variable {n : Node σ TS IN OUT} {v : View IN OUT TS}

/-- **What every event keeps, a message keeps.** -/
theorem deliver_rule {I : View IN OUT TS → Prop}
    (hstep : ∀ v c ev, Initialised n v.state → c ∈ n.inChannels → I v → I (step v c ev))
    (hcomplete : ∀ v c e, Initialised n v.state → Completes n v.state c e → I v →
      I (complete v c e))
    (hopened : ∀ v c e, Initialised n v.state → Completes n v.state c e → I v →
      I (opened (complete v c e) e))
    (hput : ∀ v st failed, st.watermarks = v.state.watermarks → st.minimum = v.state.minimum →
      st.epoch = v.state.epoch → I v → I ⟨st, v.acts, failed⟩)
    (hwf : WF n v.state) (hv : I v) (d : Delivery IN) : I (deliver n v d) := by
  have hfail : ∀ v : View IN OUT TS, I v → I { v with failed := true } :=
    fun v h => hput v v.state true rfl rfl rfl h
  have hreplay : ∀ q ts v, InReplay n q ts v.state → I v → I (replay v ts) := by
    intro q ts v hr h
    have := replay_rule (I := fun ts v => InReplay n q ts v.state ∧ I v)
      (fun t ts v h =>
        ⟨h.1.next, hstep v t.1 t.2 h.1.init (h.1.senders t List.mem_cons_self).1 h.2⟩)
      ts v ⟨hr, h⟩
    exact this.2
  have hevent : ∀ v c ev, Good n v → c ∈ n.inChannels → I v → I (event n v c ev) := by
    intro v c ev hg hc h
    cases hf : v.failed with
    | true =>
      rw [show event n v c ev = v by simp [event, hf]]
      exact h
    | false =>
      have hr := hg.ready hf
      obtain ⟨-, he⟩ | ⟨e, rfl, hcomp, ⟨-, he⟩ | ⟨-, he⟩⟩ := event_cases (n := n) c ev hf
      · rw [he]
        exact hstep v c ev hr.init hc h
      · rw [he, proceed]
        exact hreplay c _ _ (hr.inReplay hc hcomp) (hopened v c e hr.init hcomp h)
      · rw [he]
        exact hfail _ (hcomplete v c e hr.init hcomp h)
  obtain ⟨-, he⟩ | ⟨hc, ⟨-, he⟩ | ⟨hb, he⟩⟩ := deliver_cases (n := n) v d
  · rw [he]
    exact hfail v hv
  · rw [he]
    exact hput v _ v.failed rfl rfl rfl hv
  · rw [he, events]
    clear he
    have hg : Good n v := ⟨hwf, fun _ => hwf.ready hc hb⟩
    clear hwf hb
    generalize d.events = evs
    induction evs generalizing v with
    | nil => exact hv
    | cons ev evs ih => exact ih (hevent v d.sender ev hg hc hv) (hg.event hc ev)

/-- The watermarks of the channels and the elements handed to the operator, by the events; the node
forwards no element on its own. -/
structure Accepts (v : View IN OUT TS) : Prop where
  channels : ∀ q, v.state.watermark q = reach 0 (eventsOf q (iterated v.acts))
  elements : handledElements v.acts = onTime (iterated v.acts)
  forwarded : ∀ e, .forward (.element e) ∉ v.acts

/-- One event. -/
theorem Accepts.event_acts {v' : View IN OUT TS} (h : Accepts v) {c : NodeID} {ev : ArconEvent IN}
    (as : List (Act IN OUT TS)) (hacts : v'.acts = v.acts ++ .iter c ev :: as)
    (hits : iterated as = [])
    (hwm : ∀ q, v'.state.watermark q = reach (v.state.watermark q) (if c = q then [ev] else []))
    (hel : handledElements as = onTimeFrom v.state.watermark [(c, ev)])
    (hfwd : ∀ e, .forward (.element e) ∉ as) : Accepts v' := by
  have hiter : iterated v'.acts = iterated v.acts ++ [(c, ev)] := by
    rw [hacts, iterated_append]
    exact congrArg (_ ++ (c, ev) :: ·) hits
  refine ⟨fun q => ?_, ?_, fun e he => ?_⟩
  · rw [hiter, eventsOf_append, reach_append, ← h.channels, hwm, eventsOf_cons]
    exact congrArg _ (List.append_nil _).symm
  · have hchannels : (fun q => reach 0 (eventsOf q (iterated v.acts))) = v.state.watermark :=
      funext fun q => (h.channels q).symm
    have hhandled : handledElements v'.acts = handledElements v.acts ++ handledElements as := by
      rw [hacts, handledElements_append]
      rfl
    unfold onTime
    rw [hiter, onTimeFrom_snoc, hchannels, hhandled, h.elements, hel]
    rfl
  · rw [hacts, List.mem_append, List.mem_cons] at he
    obtain he | he | he := he
    · exact h.forwarded e he
    · cases he
    · exact hfwd e he

theorem Accepts.step (h : Accepts v) (c : NodeID) (ev : ArconEvent IN) :
    Accepts (step v c ev) := by
  refine h.event_acts _ rfl ?_ (fun q => next_watermark ev) ?_ ?_
  · cases ev with
    | element e => dsimp only; split_ifs <;> rfl
    | watermark w => dsimp only; split_ifs <;> rfl
    | epoch e => rfl
    | death msg => rfl
  · cases ev with
    | element e =>
      dsimp only
      rw [onTimeFrom]
      split_ifs <;> rfl
    | watermark w => dsimp only; split_ifs <;> rfl
    | epoch e => rfl
    | death msg => rfl
  · intro e
    cases ev with
    | element e' => dsimp only; split_ifs <;> simp
    | watermark w => dsimp only; split_ifs <;> simp
    | epoch e' => simp
    | death msg => simp

theorem Accepts.complete (h : Accepts v) (c : NodeID) (e : Epoch) : Accepts (complete v c e) := by
  refine h.event_acts [.handleEpoch e, .saveState e] rfl rfl (fun q => ?_) rfl (by simp)
  split_ifs <;> rfl

theorem Accepts.opened (h : Accepts v) (e : Epoch) : Accepts (opened v e) := by
  have hiter : iterated (Control.opened v e).acts = iterated v.acts := by
    rw [show (Control.opened v e).acts = v.acts ++ [.checkpoint e, .forward (.epoch e)] from rfl,
      iterated_append]
    exact List.append_nil _
  refine ⟨fun q => ?_, ?_, fun e' he' => ?_⟩
  · rw [hiter, ← h.channels]
    rfl
  · rw [hiter, ← h.elements]
    show handledElements (v.acts ++ [.checkpoint e, .forward (.epoch e)]) = _
    rw [handledElements_append]
    exact List.append_nil _
  · refine h.forwarded e' ((List.mem_append.mp he').resolve_right ?_)
    simp

theorem Accepts.put (h : Accepts v) {st : NodeState IN} (failed : Bool)
    (hst : st.watermarks = v.state.watermarks) :
    Accepts (⟨st, v.acts, failed⟩ : View IN OUT TS) := by
  refine ⟨fun q => ?_, h.elements, h.forwarded⟩
  rw [← h.channels]
  unfold NodeState.watermark
  rw [hst]

/-- **A message keeps it.** -/
theorem Accepts.deliver (h : Accepts v) (hwf : WF n v.state) (d : Delivery IN) :
    Accepts (deliver n v d) :=
  deliver_rule (fun _ c ev _ _ h => h.step c ev) (fun _ c e _ _ h => h.complete c e)
    (fun _ c e _ _ h => (h.complete c e).opened e)
    (fun _ _ failed hst _ _ h => h.put failed hst) hwf h d

/-- A fresh node has seen nothing. -/
theorem Fresh.accepts [TimerBackend τ TS P] {s : NodeSt σ τ IN OUT TS P} (h : Fresh n s) :
    Accepts s.view := by
  have hacts : s.view.acts = [] := by rw [h.view]
  refine ⟨fun q => ?_, by rw [hacts]; rfl, by rw [hacts]; simp⟩
  rw [hacts]
  exact h.watermark q

/-- What holds of the elements after every run. -/
theorem run_accepts [TimerBackend τ TS P] {s₀ s : NodeSt σ τ IN OUT TS P} (hfresh : Fresh n s₀)
    {ds : List (Delivery IN)} (hrun : run n ds s₀ = .ok () s) : Accepts s.view :=
  (wp_ok (wp_run ds (I := fun _ v => Accepts v) hfresh.eq.2.1 hfresh.wf hfresh.accepts
    fun _ d _ _ _ _ hwf h =>
      have hd := h.deliver hwf d
      ⟨hd.channels, hd.elements, hd.forwarded⟩) hrun).1

end Control

namespace Node

open Control

theorem handledElements_filter_isMark (l : List (Act IN OUT TS)) :
    handledElements (l.filter Act.isMark) = handledElements l := by
  unfold handledElements
  rw [callsOf_filter_isMark]

/-- **The elements a node hands to its operator** are those on time. -/
theorem handled_eq_onTime [TimerBackend τ TS P] {n : Node σ TS IN OUT}
    {s₀ s : NodeSt σ τ IN OUT TS P} (hfresh : Fresh n s₀) {ds : List (Delivery IN)}
    (hrun : run n ds s₀ = .ok () s) :
    handledElements s.ctx.log = onTime (iterated s.ctx.log) := by
  have h := (run_accepts hfresh hrun).elements
  rwa [show s.view.acts = s.ctx.log.filter Act.isMark from rfl, handledElements_filter_isMark,
    iterated_filter_isMark] at h

/-! ## Function operators -/

theorem outputElements_filter_isCall (l : List (Act IN OUT TS)) :
    outputElements (l.filter Act.isCall) = outputElements l := by
  unfold outputElements
  rw [List.filterMap_filter]
  refine List.filterMap_congr fun a _ => ?_
  cases a with
  | forward ev => cases ev <;> simp [Act.isCall]
  | _ => simp [Act.isCall]

/-- What goes to the channel strategy, apart from control events. -/
theorem handed_elements {l : List (Act IN OUT TS)} (hfwd : ∀ e, .forward (.element e) ∉ l) :
    (handed l).filter (!·.isControl) = (outputElements l).map .element := by
  induction l with
  | nil => rfl
  | cons a l ih =>
    have ih := ih fun e he => hfwd e (List.mem_cons_of_mem a he)
    cases a with
    | output ev =>
      cases ev with
      | element e => exact congrArg (.element e :: ·) ih
      | watermark w => exact ih
      | epoch e => exact ih
      | death msg => exact ih
    | forward ev =>
      cases ev with
      | element e => exact absurd List.mem_cons_self (hfwd e)
      | watermark w => exact ih
      | epoch e => exact ih
      | death msg => exact ih
    | _ => exact ih

/-- A node with this operator puts out what `udf` makes of the elements on time. -/
def Transduces (o : Operator σ Empty IN OUT) (udf : IN → Udf σ (List OUT)) : Prop :=
  ∀ (n : Node σ Empty IN OUT) (s₀ s : NodeSt σ Unit IN OUT Empty Unit) (ds : List (Delivery IN)),
    n.operator = o → Fresh n s₀ → run n ds s₀ = .ok () s →
    ∃ outs, transduce udf (onTime (iterated s.ctx.log)) s₀.ctx.operator =
        .ok outs s.ctx.operator ∧
      (handed s.ctx.log).filter (!·.isControl) = outs.map .element

theorem transduces_flatMap (udf : IN → Udf σ (List OUT)) :
    Transduces (FlatMap.stateful udf) udf := by
  intro n s₀ s ds hop hfresh hrun
  have hdrive := (wp_ok (run_drives ds hfresh.drives) hrun).driven
  unfold Driven at hdrive
  rw [hop] at hdrive
  obtain ⟨outs, htrans, hlog⟩ := wp_ok (drive_flatMap udf _ s₀.ctx) hdrive
  have hfwd : ∀ e, .forward (.element e) ∉ s.ctx.log := fun e he =>
    (run_accepts hfresh hrun).forwarded e (List.mem_filter.mpr ⟨he, rfl⟩)
  refine ⟨outs, ?_, ?_⟩
  · rw [← handled_eq_onTime hfresh hrun]
    exact htrans
  · rw [handed_elements hfwd]
    have hstart : s₀.ctx.log = [] := hfresh.eq.2.2.1
    rw [show s.ctx.core.log = s.ctx.log.filter Act.isCall from rfl, outputElements_filter_isCall,
      hstart] at hlog
    rw [hlog]
    rfl

/-- **Nodes with a function operator.** After every run of a fresh node that does not panic, with
any messages from any channels in any order: the elements handed to the channel strategy are what
the function of the operator, with its state threaded through, makes of the elements above the
watermark of their channel, in the order in which the node iterated over them, each result with the
timestamp of its element; and the state of the operator is what the function left. -/
theorem function_node :
    (∀ udf : IN → Udf σ (List OUT), Transduces (FlatMap.stateful udf) udf) ∧
    (∀ udf : IN → Udf σ OUT, Transduces (Map.stateful udf) fun x => (fun y => [y]) <$> udf x) ∧
    (∀ udf : IN → Udf σ IN,
      Transduces (MapInPlace.stateful udf) fun x => (fun y => [y]) <$> udf x) ∧
    ∀ udf : IN → Udf σ Bool,
      Transduces (Filter.stateful udf)
        fun x => (fun passes => if passes then [x] else []) <$> udf x := by
  refine ⟨transduces_flatMap, fun udf => ?_, fun udf => ?_, fun udf => ?_⟩
  · rw [Map.stateful_eq]
    exact transduces_flatMap _
  · rw [MapInPlace.stateful_eq, Map.stateful_eq]
    exact transduces_flatMap _
  · rw [Filter.stateful_eq]
    exact transduces_flatMap _

/-- The sum so far before every number. -/
def sums (x : Int) : Udf Int (List Int) := do
  let sum ← get
  set (sum + x)
  pure [sum, x]

/-- A node with this function. -/
def sumsNode : Node Int Empty Int Int where
  id := 0
  inChannels := [1, 2]
  operator := FlatMap.stateful sums
  checkpointDir := some "/tmp"
  checkpointFails _ := false

/-- It, started on an empty backend. -/
def sumsStart : NodeSt Int Unit Int Int Empty Unit where
  state := ⟨[1, 2].foldl initWatermark ∅, some 0, some 0, ∅, []⟩
  ctx := ⟨0, (), []⟩
  metrics := { NodeMetrics.new with inboundChannels := 2 }
  borrowed _ := false
  checkpoints := []

theorem function_node_sums :
    ∃ s outs, run sumsNode crossingRun sumsStart = .ok () s ∧
      transduce sums (onTime (iterated s.ctx.log)) 0 = .ok outs s.ctx.operator ∧
      (handed s.ctx.log).filter (!·.isControl) = outs.map .element := by
  have hrun := Exec.eq_ok_of_isOk (r := run sumsNode crossingRun sumsStart) (by decide +kernel)
  obtain ⟨outs, htrans, hout⟩ :=
    function_node.1 sums sumsNode sumsStart _ crossingRun rfl ⟨0, (), rfl⟩ hrun
  exact ⟨_, outs, hrun, htrans, hout⟩

end Node

end Arcon
