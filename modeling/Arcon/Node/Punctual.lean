import Arcon.Channel.Arrival
import Arcon.Node.NoLostEpoch
import Arcon.Node.Snapshots
import Arcon.Node.Wedge
import Arcon.Source.Stream

/-!
# Late elements

A node drops an element that is not above the watermark of its channel. What it puts out itself is
never late for the next node: an element on time is above the watermark of its channel, hence above
the least one over all channels, and only that is forwarded. So lateness is decided once, by the
first node, and all others hand every element to their operators.

* `Punctual`: a stream in which every element is above the watermarks before it.
* `onTime_of_punctual`: nothing is late on punctual channels.
* `Ordered`: what a node keeps about the calls of its operator and the markers it forwards.
* `FunctionRun.punctual`: what a function node puts out is punctual.
* **`never_late_downstream`**: a node behind function nodes hands all elements to its operator.
-/

namespace Arcon

open Exec Node

variable {σ τ TS IN OUT P : Type}

/-! ## Punctual streams -/

/-- If the one is a watermark and the other an element, then the element is above it. -/
def ArconEvent.Below (a b : ArconEvent IN) : Prop :=
  ∀ w e, a = .watermark w → b = .element e → w < e.timestamp.getD u64Max

/-- Every element is above all watermarks before it. The first one is 0, as a node has it before it
hears from a channel. -/
def Punctual (evs : List (ArconEvent IN)) : Prop :=
  (.watermark 0 :: evs).Pairwise ArconEvent.Below

theorem punctual_nil : Punctual ([] : List (ArconEvent IN)) := List.pairwise_singleton _ _

theorem Punctual.of_prefix {evs evs' : List (ArconEvent IN)} (h : Punctual evs')
    (hpre : evs <+: evs') : Punctual evs :=
  h.sublist (hpre.sublist.cons_cons _)

theorem punctual_snoc {evs : List (ArconEvent IN)} {ev : ArconEvent IN} :
    Punctual (evs ++ [ev]) ↔ Punctual evs ∧ ∀ a ∈ .watermark 0 :: evs, a.Below ev := by
  unfold Punctual
  rw [← List.cons_append, List.pairwise_append]
  simp only [List.mem_singleton, forall_eq]
  exact ⟨fun h => ⟨h.1, h.2.2⟩, fun h => ⟨h.1, List.pairwise_singleton _ _, h.2⟩⟩

/-- An element of a punctual stream is above what its channel has reached. -/
theorem reach_lt {evs : List (ArconEvent IN)} {e : ArconElement IN}
    (h : Punctual (evs ++ [.element e])) : reach 0 evs < e.timestamp.getD u64Max := by
  have hbelow := (punctual_snoc.mp h).2
  have hw : ∀ w ∈ evs.filterMap ArconEvent.watermark?, w < e.timestamp.getD u64Max := by
    intro w hw
    obtain ⟨a, ha, haw⟩ := List.mem_filterMap.mp hw
    cases a with
    | watermark x =>
      cases haw
      exact hbelow _ (List.mem_cons_of_mem _ ha) w e rfl rfl
    | _ => cases haw
  have hzero : 0 < e.timestamp.getD u64Max := hbelow _ List.mem_cons_self 0 e rfl rfl
  unfold reach
  generalize (0 : Watermark) = x at hzero
  generalize evs.filterMap ArconEvent.watermark? = ws at hw
  induction ws generalizing x with
  | nil => exact hzero
  | cons w ws ih =>
    exact ih _ (max_lt hzero (hw w List.mem_cons_self))
      fun w' hw' => hw w' (List.mem_cons_of_mem _ hw')

/-- **Nothing is late on punctual channels.** -/
theorem onTime_of_punctual {evs : List (NodeID × ArconEvent IN)}
    (h : ∀ c, Punctual (eventsOf c evs)) : onTime evs = elements (evs.map Prod.snd) := by
  induction evs using List.reverseRecOn with
  | nil => rfl
  | append_singleton evs t ih =>
    have hevs : ∀ c, Punctual (eventsOf c evs) := fun c => by
      have hc := h c
      rw [eventsOf_append] at hc
      exact hc.of_prefix (List.prefix_append _ _)
    unfold onTime at ih ⊢
    rw [onTimeFrom_snoc, ih hevs, List.map_append, elements_append]
    congr 1
    obtain ⟨c, ev⟩ := t
    cases ev with
    | element e =>
      have hc := h c
      rw [eventsOf_append, eventsOf_cons, if_pos rfl] at hc
      rw [onTimeFrom, if_neg (not_le.mpr (reach_lt hc))]
      rfl
    | watermark w => rfl
    | epoch e => rfl
    | death msg => rfl

/-! ## The calls of a node -/

/-- The call as an event. -/
def Call.event : Call IN → ArconEvent IN
  | .element e => .element e
  | .watermark w => .watermark w
  | .epoch e => .epoch e

namespace Control

variable {n : Node σ TS IN OUT} {v : View IN OUT TS} {c : NodeID}

/-- The operator is called in punctual order; the markers that are forwarded increase; and at a
checkpoint the operator has been given what was on time before the marker, and then its epoch. -/
structure Ordered (v : View IN OUT TS) : Prop where
  accepts : Accepts v
  calls : Punctual ((callsOf v.acts).map Call.event)
  bounded : ∀ w, .watermark w ∈ callsOf v.acts → w ≤ v.state.minimum
  epochs : (forwardedEpochs v.acts).Pairwise (· < ·)
  reached : ∀ e ∈ forwardedEpochs v.acts, e ≤ v.state.epoch
  cuts : ∀ pre e, pre ++ [.checkpoint e] <+: v.acts → handledElements pre = onTime (iterated pre) ∧
    (∃ its c, iterated pre = its ++ [(c, .epoch e)]) ∧ ∃ calls, callsOf pre = calls ++ [.epoch e]

/-- Acts that end no epoch. -/
theorem Ordered.more {v' : View IN OUT TS} (h : Ordered v) (as : List (Act IN OUT TS))
    (has : Accepts v') (hacts : v'.acts = v.acts ++ as)
    (hcalls : Punctual ((callsOf v.acts ++ callsOf as).map Call.event))
    (hbounded : ∀ w, .watermark w ∈ callsOf as → w ≤ v'.state.minimum)
    (hmin : v.state.minimum ≤ v'.state.minimum) (hfwd : forwardedEpochs as = [])
    (hepoch : v.state.epoch ≤ v'.state.epoch) (hcp : checkpointed as = []) : Ordered v' := by
  have hsame : forwardedEpochs v'.acts = forwardedEpochs v.acts := by
    rw [hacts, forwardedEpochs_append, hfwd, List.append_nil]
  refine ⟨has, ?_, fun w hw => ?_, ?_, fun e he => ?_, fun pre e hpre => ?_⟩
  · rw [hacts, callsOf_append]
    exact hcalls
  · rw [hacts, callsOf_append, List.mem_append] at hw
    obtain hw | hw := hw
    · exact (h.bounded w hw).trans hmin
    · exact hbounded w hw
  · rw [hsame]
    exact h.epochs
  · rw [hsame] at he
    exact (h.reached e he).trans hepoch
  · rw [hacts] at hpre
    obtain hpre | ⟨l₁, l₂, heq, -⟩ := prefix_snoc_append hpre
    · exact h.cuts pre e hpre
    · have hmem : e ∈ checkpointed as := by
        rw [heq]
        simp [checkpointed]
      rw [hcp] at hmem
      cases hmem

/-- Acts without a call. -/
theorem Ordered.quiet {v' : View IN OUT TS} (h : Ordered v) (as : List (Act IN OUT TS))
    (has : Accepts v') (hacts : v'.acts = v.acts ++ as) (hcalls : callsOf as = [])
    (hmin : v.state.minimum ≤ v'.state.minimum) (hfwd : forwardedEpochs as = [])
    (hepoch : v.state.epoch ≤ v'.state.epoch) (hcp : checkpointed as = []) : Ordered v' := by
  refine h.more as has hacts ?_ ?_ hmin hfwd hepoch hcp
  · rw [hcalls, List.append_nil]
    exact h.calls
  · rw [hcalls]
    exact fun w hw => nomatch hw

/-- A call at the end. -/
theorem Ordered.snoc (h : Ordered v) {x : Call IN}
    (hx : ∀ w e, x = .element e → (w = 0 ∨ .watermark w ∈ callsOf v.acts) →
      w < e.timestamp.getD u64Max) : Punctual ((callsOf v.acts ++ [x]).map Call.event) := by
  rw [List.map_append]
  refine punctual_snoc.mpr ⟨h.calls, fun a ha w e hw he => ?_⟩
  cases x with
  | element e' =>
    cases he
    refine hx w _ rfl ?_
    obtain rfl | ha := List.mem_cons.mp ha
    · cases hw
      exact .inl rfl
    · obtain ⟨y, hy, rfl⟩ := List.mem_map.mp ha
      cases y with
      | watermark w' =>
        cases hw
        exact .inr hy
      | _ => cases hw
  | _ => cases he

/-- **An event that completes no epoch.** -/
theorem Ordered.step (h : Ordered v) (hi : Initialised n v.state) (hc : c ∈ n.inChannels)
    (ev : ArconEvent IN) : Ordered (step v c ev) := by
  have has := h.accepts.step c ev
  cases ev with
  | death msg =>
    exact h.quiet [.iter c (.death msg), .forward (.death msg), .suicide] has rfl rfl
      le_rfl rfl le_rfl rfl
  | epoch e =>
    refine h.quiet [.iter c (.epoch e)] has rfl rfl ?_ rfl (next_epoch _).ge rfl
    rw [step_state, next]
    split_ifs <;> exact le_rfl
  | element e =>
    by_cases hle : e.timestamp.getD u64Max ≤ v.state.watermark c
    · refine h.quiet [.iter c (.element e)] has ?_ rfl le_rfl rfl le_rfl rfl
      rw [step_acts]
      simp only [acts, if_pos hle]
    · refine h.more [.iter c (.element e), .handleElement e] has ?_
        (h.snoc (x := .element e) ?_) (by simp [callsOf, Act.call?]) le_rfl rfl le_rfl rfl
      · rw [step_acts]
        simp only [acts, if_neg hle]
      · rintro w _ ⟨⟩ hw
        refine lt_of_le_of_lt ?_ (not_le.mp hle)
        obtain rfl | hw := hw
        · exact Nat.zero_le _
        · exact (h.bounded w hw).trans (hi.least c hc)
  | watermark w =>
    by_cases hr : Raises v.state c w
    · have hnext : Control.next v.state c (.watermark w) =
          { stored v.state c w with currentWatermark := some (newMinimum v.state c w) } := by
        simp only [next, if_pos hr]
      refine h.more [.iter c (.watermark w), .handleWatermark (newMinimum v.state c w),
        .forward (.watermark (newMinimum v.state c w))] has ?_
        (h.snoc (x := .watermark (newMinimum v.state c w)) (by rintro _ _ ⟨⟩)) ?_ ?_ rfl
        (next_epoch _).ge rfl
      · rw [step_acts]
        simp only [acts, if_pos hr]
      · intro x hx
        rw [step_state, hnext]
        obtain rfl : newMinimum v.state c w = x := by simpa [callsOf, Act.call?, eq_comm] using hx
        exact le_rfl
      · rw [step_state, hnext]
        exact hr.2.le
    · refine h.quiet [.iter c (.watermark w)] has ?_ rfl ?_ rfl (next_epoch _).ge rfl
      · rw [step_acts]
        simp only [acts, if_neg hr]
      · rw [step_state, next, if_neg hr]
        split_ifs <;> exact le_rfl

/-- The marker of the last channel, up to the checkpoint. -/
theorem Ordered.complete (h : Ordered v) {e : Epoch} (hcomp : Completes n v.state c e) :
    Ordered (complete v c e) :=
  h.more [.iter c (.epoch e), .handleEpoch e, .saveState e] (h.accepts.complete c e) rfl
    (h.snoc (x := .epoch e) (by rintro _ _ ⟨⟩)) (by simp [callsOf, Act.call?]) le_rfl rfl
    hcomp.1.le rfl

/-- The checkpoint and the marker behind it. -/
theorem Ordered.opened (h : Ordered v) {e : Epoch} (hcomp : Completes n v.state c e) :
    Ordered (opened (Control.complete v c e) e) := by
  have hc := h.complete hcomp
  have hacts : (Control.opened (Control.complete v c e) e).acts =
      (Control.complete v c e).acts ++ [.checkpoint e, .forward (.epoch e)] := rfl
  have hcalls : callsOf (Control.opened (Control.complete v c e) e).acts =
      callsOf (Control.complete v c e).acts := by
    rw [hacts, callsOf_append]
    exact List.append_nil _
  have hfwd : forwardedEpochs (Control.opened (Control.complete v c e) e).acts =
      forwardedEpochs v.acts ++ [e] := by
    rw [hacts, forwardedEpochs_append]
    rw [show (Control.complete v c e).acts = v.acts ++ [.iter c (.epoch e), .handleEpoch e,
      .saveState e] from rfl, forwardedEpochs_append]
    exact congrArg (· ++ [e]) (List.append_nil _)
  refine ⟨hc.accepts.opened e, ?_, fun w hw => ?_, ?_, fun e' he' => ?_, fun pre e' hpre => ?_⟩
  · rw [hcalls]
    exact hc.calls
  · rw [hcalls] at hw
    exact hc.bounded w hw
  · rw [hfwd, List.pairwise_append]
    refine ⟨h.epochs, List.pairwise_singleton _ _, fun e₁ he₁ e₂ he₂ => ?_⟩
    rw [List.mem_singleton.mp he₂]
    exact (h.reached e₁ he₁).trans_lt hcomp.1
  · rw [hfwd, List.mem_append, List.mem_singleton] at he'
    obtain he' | rfl := he'
    · exact (h.reached e' he').trans hcomp.1.le
    · exact le_rfl
  · rw [hacts] at hpre
    obtain hpre | ⟨l₁, l₂, heq, rfl⟩ := prefix_snoc_append hpre
    · exact hc.cuts pre e' hpre
    · cases l₁ with
      | nil =>
        cases heq
        rw [List.append_nil]
        exact ⟨hc.accepts.elements, ⟨iterated v.acts, c, iterated_append _ _⟩,
          ⟨callsOf v.acts, callsOf_append _ _⟩⟩
      | cons a l₁ =>
        exfalso
        injection heq with ha heq
        cases l₁ with
        | nil => cases heq
        | cons b l₁ =>
          injection heq with hb heq
          exact absurd heq (by simp)

/-- **A message keeps it.** -/
theorem Ordered.deliver (h : Ordered v) (hwf : WF n v.state) (d : Delivery IN) :
    Ordered (deliver n v d) :=
  deliver_rule (fun _ _ ev hi hc h => h.step hi hc ev) (fun _ _ _ _ hcomp h => h.complete hcomp)
    (fun _ _ _ _ hcomp h => h.opened hcomp)
    (fun _ _ failed hst hmin hepoch h => ⟨h.accepts.put failed hst, h.calls,
      fun w hw => (h.bounded w hw).trans_eq hmin.symm, h.epochs,
      fun e he => (h.reached e he).trans_eq hepoch.symm, h.cuts⟩) hwf h d

/-- A fresh node has seen nothing. -/
theorem Fresh.ordered [TimerBackend τ TS P] {s : NodeSt σ τ IN OUT TS P} (h : Fresh n s) :
    Ordered s.view := by
  have hacts : s.view.acts = [] := by rw [h.view]
  refine ⟨h.accepts, ?_, ?_, ?_, ?_, fun pre e hpre => ?_⟩
  · rw [hacts]
    exact punctual_nil
  · rw [hacts]
    exact fun _ hw => nomatch hw
  · rw [hacts]
    exact List.Pairwise.nil
  · rw [hacts]
    exact fun _ he => nomatch he
  · rw [hacts] at hpre
    simp at hpre

/-- What holds of the calls and markers after every run. -/
theorem run_ordered [TimerBackend τ TS P] {s₀ s : NodeSt σ τ IN OUT TS P} (hfresh : Fresh n s₀)
    {ds : List (Delivery IN)} (hrun : run n ds s₀ = .ok () s) : Ordered s.view :=
  (wp_ok (wp_run ds (I := fun _ v => Ordered v) hfresh.eq.2.1 hfresh.wf hfresh.ordered
    fun _ d _ _ _ _ hwf h =>
      have hd := h.deliver hwf d
      ⟨hd.accepts.put false rfl, hd.calls, hd.bounded, hd.epochs, hd.reached, hd.cuts⟩) hrun).1

/-- A log up to a checkpoint of `e`: the node had just been given the marker, the operator had been
handed what was on time before it, and what these calls lead to is in the checkpoint. -/
structure CutAt (n : Node σ TS IN OUT) (c₀ : OpCtx σ τ IN OUT TS) (log : List (Act IN OUT TS))
    (e : Epoch) (operator : σ) (pre rest : List (Act IN OUT TS)) (c : OpCtx σ τ IN OUT TS)
    [TimerBackend τ TS P] : Prop where
  log : log = pre ++ .checkpoint e :: .forward (.epoch e) :: rest
  marker : ∃ its c, iterated pre = its ++ [(c, .epoch e)] ∧ handledElements pre = onTime its
  epoch : ∃ calls, callsOf pre = calls ++ [.epoch e]
  drive : n.operator.drive (callsOf pre) c₀ = .ok () c
  calls : c.log = pre.filter Act.isCall
  operator : c.operator = operator

/-- **Where a checkpoint was taken.** -/
theorem run_cut [TimerBackend τ TS P] {s₀ s : NodeSt σ τ IN OUT TS P} (hfresh : Fresh n s₀)
    {ds : List (Delivery IN)} (hrun : run n ds s₀ = .ok () s) {dir : String} {e : Epoch}
    {snap : Snapshot σ P IN} (hdir : n.checkpointDir = some dir)
    (hmem : (checkpointPath n dir e, snap) ∈ s.checkpoints) :
    ∃ pre rest c, CutAt n s₀.ctx s.ctx.log e snap.operator pre rest c := by
  obtain ⟨dir', e', hdir', hpath, ⟨pre, c, ⟨rest, hlog⟩, hdrive, hc, hop⟩⟩ :=
    run_shots hfresh hrun _ hmem
  obtain rfl : dir = dir' := Option.some.inj (hdir.symm.trans hdir')
  obtain rfl := checkpointPath_inj hpath
  have hview : s.view.acts = pre.filter Act.isMark ++ [.checkpoint e] ++
      .forward (.epoch e) :: rest.filter Act.isMark := by
    show s.ctx.log.filter Act.isMark = _
    rw [← hlog, List.filter_append, List.filter_append, List.append_assoc, List.append_assoc]
    rfl
  obtain ⟨hhandled, ⟨its, q, hits⟩, hcalls⟩ := (run_ordered hfresh hrun).cuts _ e ⟨_, hview.symm⟩
  rw [handledElements_filter_isMark, iterated_filter_isMark] at hhandled
  rw [iterated_filter_isMark] at hits
  rw [callsOf_filter_isMark] at hcalls
  have hon : onTime (iterated pre) = onTime its := by
    unfold onTime
    rw [hits, onTimeFrom_snoc]
    exact List.append_nil _
  refine ⟨pre, rest, c, ?_, ⟨its, q, hits, hhandled.trans hon⟩, hcalls, hdrive, hc, hop⟩
  rw [← hlog, List.append_assoc]
  rfl

/-- The events iterated over, by channel, after every run. -/
theorem run_iterated [TimerBackend τ TS P] {s₀ s : NodeSt σ τ IN OUT TS P} (hfresh : Fresh n s₀)
    {ds : List (Delivery IN)} (hrun : run n ds s₀ = .ok () s) (c : NodeID) :
    eventsOf c (iterated s.ctx.log) <+: due n c ds := by
  rw [eventsOf_iterated]
  exact run_iterOf hfresh hrun c

end Control

/-! ## What function operators hand on -/

/-- What a function operator hands on in a call: its results with the timestamp of the element, and
the watermark itself. -/
def Call.Answer : Call IN → List (ArconEvent OUT) → Prop
  | .element e, evs => ∃ items : List OUT, evs = items.map fun item => .element ⟨item, e.timestamp⟩
  | .watermark w, evs => evs = [.watermark w]
  | .epoch _, evs => evs = []

theorem handed_results (items : List OUT) (timestamp : Option Nat) :
    handed (items.map fun item => (.output (.element ⟨item, timestamp⟩) : Act IN OUT TS)) =
      items.map fun item => .element ⟨item, timestamp⟩ := by
  unfold handed
  rw [List.filterMap_map]
  exact congrFun List.filterMap_eq_map items

theorem call_flatMap_answer (udf : IN → Udf σ (List OUT)) (x : Call IN)
    (c : OpCtx σ Unit IN OUT Empty) :
    wp ((FlatMap.stateful udf).call x)
      (fun _ c' => ∃ evs, handed c'.log = handed c.log ++ evs ∧ x.Answer evs) (fun _ _ => True)
      c := by
  cases x with
  | element e =>
    unfold Operator.call
    rw [wp_bind, wp_modify]
    show wp (OpM.callUdf (udf e.data) >>= fun result => forM result _).run _ _ _
    rw [wp_run_bind, wp_run_callUdf]
    refine wp_intro (fun result s _ => ?_) fun _ _ _ => trivial
    refine wp_run_emits ⟨_, ?_, result, rfl⟩
    show handed ((c.log ++ [.handleElement e]) ++ _) = _
    rw [handed_append, handed_append, handed_results]
    exact congrArg (· ++ _) (List.append_nil _)
  | watermark w =>
    refine ⟨[.watermark w], ?_, rfl⟩
    show handed ((c.log ++ [.handleWatermark w]) ++ [.forward (.watermark w)]) = _
    rw [handed_append, handed_append]
    exact congrArg (· ++ _) (List.append_nil _)
  | epoch e =>
    refine ⟨[], ?_, rfl⟩
    show handed (c.log ++ [.handleEpoch e]) = _
    rw [handed_append]
    rfl

/-- What some calls led to is punctual, its watermarks are those of the calls, and the markers are
left to the node. -/
structure Prompt (calls : List (Call IN)) (sent : List (ArconEvent OUT)) : Prop where
  punctual : Punctual sent
  called : ∀ w, .watermark w ∈ sent → .watermark w ∈ calls
  unmarked : ∀ e, .epoch e ∉ sent

/-- **One call.** -/
theorem Prompt.answer {calls : List (Call IN)} {x : Call IN} {sent evs : List (ArconEvent OUT)}
    (h : Prompt calls sent) (hcalls : Punctual ((calls ++ [x]).map Call.event))
    (hx : x.Answer evs) : Prompt (calls ++ [x]) (sent ++ evs) := by
  have hsub : ∀ w, .watermark w ∈ sent → .watermark w ∈ calls ++ [x] := fun w hw =>
    List.mem_append_left _ (h.called w hw)
  cases x with
  | element e =>
    obtain ⟨items, rfl⟩ := hx
    rw [List.map_append] at hcalls
    have hlast := (punctual_snoc.mp hcalls).2
    refine ⟨?_, fun w hw => ?_, fun e' he' => ?_⟩
    · -- the results have the timestamp of the element, which is above the watermarks so far
      show ((.watermark 0 :: sent) ++ _).Pairwise _
      rw [List.pairwise_append]
      refine ⟨h.punctual, ?_, fun a ha b hb w e' hw he' => ?_⟩
      · rw [List.pairwise_map]
        exact List.pairwise_of_forall fun _ _ w _ hw _ => by cases hw
      · obtain ⟨item, -, rfl⟩ := List.mem_map.mp hb
        cases he'
        obtain rfl | ha := List.mem_cons.mp ha
        · cases hw
          exact hlast _ List.mem_cons_self 0 e rfl rfl
        · rw [hw] at ha
          have hmem := List.mem_map_of_mem (f := Call.event) (h.called w ha)
          exact hlast _ (List.mem_cons_of_mem _ hmem) w e rfl rfl
    · obtain hw | hw := List.mem_append.mp hw
      · exact hsub w hw
      · simp at hw
    · obtain he' | he' := List.mem_append.mp he'
      · exact h.unmarked e' he'
      · simp at he'
  | watermark w =>
    cases hx
    refine ⟨punctual_snoc.mpr ⟨h.punctual, fun a _ w' e _ he => by cases he⟩, fun w' hw' => ?_,
      fun e he => h.unmarked e (by simpa using he)⟩
    obtain hw' | hw' := List.mem_append.mp hw'
    · exact hsub w' hw'
    · cases List.mem_singleton.mp hw'
      exact List.mem_append_right _ List.mem_cons_self
  | epoch e =>
    cases hx
    rw [List.append_nil]
    exact ⟨h.punctual, hsub, h.unmarked⟩

/-- **All calls.** -/
theorem drive_flatMap_prompt (udf : IN → Udf σ (List OUT)) (calls done : List (Call IN))
    {c : OpCtx σ Unit IN OUT Empty} (hcalls : Punctual ((done ++ calls).map Call.event))
    (h : Prompt done (handed c.log)) :
    wp ((FlatMap.stateful udf).drive calls) (fun _ c' => Prompt (done ++ calls) (handed c'.log))
      (fun _ _ => True) c := by
  induction calls generalizing done c with
  | nil =>
    rw [List.append_nil]
    exact (wp_pure PUnit.unit).mpr h
  | cons x calls ih =>
    unfold Operator.drive
    rw [List.forM_cons, wp_bind]
    have hsplit : done ++ x :: calls = done ++ [x] ++ calls := by simp
    rw [hsplit] at hcalls ⊢
    refine wp_mono (call_flatMap_answer udf x c) ?_ (fun _ _ _ => trivial)
    rintro _ c' ⟨evs, hlog, hx⟩
    refine ih (done ++ [x]) hcalls ?_
    rw [hlog]
    refine h.answer (hcalls.of_prefix ?_) hx
    exact (List.prefix_append _ _).map _

/-- Besides the acts of its calls a node hands on markers and death notices only, which are neither
watermarks nor elements. -/
theorem punctual_of_filter_isCall {l : List (Act IN OUT TS)}
    (h : Punctual (handed (l.filter Act.isCall))) (hfwd : ∀ e, .forward (.element e) ∉ l) :
    Punctual (handed l) := by
  unfold Punctual handed at h ⊢
  rw [List.pairwise_cons] at h ⊢
  refine ⟨fun b hb w e hw he => ?_, ?_⟩
  · obtain ⟨a, ha, hab⟩ := List.mem_filterMap.mp hb
    rw [he] at hab
    refine h.1 b (List.mem_filterMap.mpr ⟨a, List.mem_filter.mpr ⟨ha, ?_⟩, hab.trans (by rw [he])⟩)
      w e hw he
    cases a with
    | output ev => rfl
    | forward ev =>
      cases hab
      exact absurd ha (hfwd e)
    | _ => cases hab
  · rw [List.pairwise_filterMap] at h ⊢
    rw [List.pairwise_filter] at h
    refine h.2.imp_of_mem fun {a b} ha hb hab x hx y hy w e hw he => ?_
    rw [hw] at hx
    rw [he] at hy
    refine hab ?_ ?_ x (hx.trans (by rw [hw])) y (hy.trans (by rw [he])) w e hw he
    · cases a with
      | output ev => rfl
      | forward ev =>
        cases hx
        rfl
      | _ => cases hx
    · cases b with
      | output ev => rfl
      | forward ev =>
        cases hy
        exact absurd hb (hfwd e)
      | _ => cases hy

/-- A run of a node with a function operator. -/
structure FunctionRun (udf : IN → Udf σ (List OUT)) where
  node : Node σ Empty IN OUT
  start : NodeSt σ Unit IN OUT Empty Unit
  messages : List (Delivery IN)
  final : NodeSt σ Unit IN OUT Empty Unit
  operator : node.operator = FlatMap.stateful udf
  fresh : Control.Fresh node start
  ran : run node messages start = .ok () final

namespace FunctionRun

variable {udf : IN → Udf σ (List OUT)} (r : FunctionRun udf)

/-- The events the node iterated over. -/
def input : List (NodeID × ArconEvent IN) := iterated r.final.ctx.log

/-- What it handed to the channel strategy. -/
def sent : List (ArconEvent OUT) := handed r.final.ctx.log

theorem not_forwarded (e : ArconElement OUT) : .forward (.element e) ∉ r.final.ctx.log := fun he =>
  (Control.run_accepts r.fresh r.ran).forwarded e (List.mem_filter.mpr ⟨he, rfl⟩)

/-- What the calls of the operator led to. -/
theorem prompt : Prompt (callsOf r.final.ctx.log) (handed (r.final.ctx.log.filter Act.isCall)) := by
  have hcalls := (Control.run_ordered r.fresh r.ran).calls
  rw [show r.final.view.acts = r.final.ctx.log.filter Act.isMark from rfl,
    callsOf_filter_isMark] at hcalls
  have hdrive := (wp_ok (Control.run_drives r.messages r.fresh.drives) r.ran).driven
  unfold Control.Driven at hdrive
  rw [r.operator] at hdrive
  have hstart : r.start.ctx.log = [] := r.fresh.eq.2.2.1
  have hnone : Prompt ([] : List (Call IN)) (handed r.start.ctx.log) := by
    rw [hstart]
    exact ⟨punctual_nil, fun _ hw => (nomatch hw), fun _ he => nomatch he⟩
  have hall := wp_ok (drive_flatMap_prompt udf (callsOf r.final.ctx.log) [] hcalls hnone) hdrive
  exact hall

/-- **A function node puts out what is punctual.** -/
theorem punctual : Punctual r.sent := punctual_of_filter_isCall r.prompt.punctual r.not_forwarded

/-- **The markers a function node puts out increase.** -/
theorem markers_lt : (markers r.sent).Pairwise (· < ·) := by
  have hout : ∀ e, .output (.epoch e) ∉ r.final.ctx.log := fun e he =>
    r.prompt.unmarked e (List.mem_filterMap.mpr ⟨_, List.mem_filter.mpr ⟨he, rfl⟩, rfl⟩)
  have hmarkers : markers r.sent = forwardedEpochs r.final.view.acts := by
    unfold sent
    show _ = forwardedEpochs (r.final.ctx.log.filter Act.isMark)
    generalize r.final.ctx.log = l at hout
    induction l with
    | nil => rfl
    | cons a l ih =>
      have ih := ih fun e he => hout e (List.mem_cons_of_mem a he)
      cases a with
      | output ev =>
        cases ev with
        | epoch e => exact absurd List.mem_cons_self (hout e)
        | _ => exact ih
      | forward ev =>
        cases ev with
        | epoch e => exact congrArg (e :: ·) ih
        | _ => exact ih
      | _ => exact ih
  rw [hmarkers]
  exact (Control.run_ordered r.fresh r.ran).epochs

end FunctionRun

/-- What function nodes put out. -/
def FromFunction (sent : List (ArconEvent IN)) : Prop :=
  ∃ (σ A : Type) (udf : A → Udf σ (List IN)) (r : FunctionRun udf), r.sent = sent

namespace Node

/-- **Lateness is decided once.** A node may receive from any number of function nodes, through any
strategies, which may have sent events elsewhere, lost some, or hold them back. Whatever its own
operator is, and in whatever order the messages of the channels arrive, it drops no element: in
every run that does not panic its operator is handed all elements it iterates over. -/
theorem never_late_downstream [TimerBackend τ TS P] {n : Node σ TS IN OUT}
    {s₀ s : NodeSt σ τ IN OUT TS P} (hfresh : Control.Fresh n s₀) {ds : List (Delivery IN)}
    (hrun : run n ds s₀ = .ok () s)
    (hfrom : ∀ c ∈ n.inChannels, ∃ sent, FromFunction sent ∧
      ChannelStrategy.Arrives c sent (received c ds)) :
    handledElements s.ctx.log = elements ((iterated s.ctx.log).map Prod.snd) := by
  rw [handled_eq_onTime hfresh hrun]
  refine onTime_of_punctual fun c => ?_
  have hpre := Control.run_iterated hfresh hrun c
  unfold Control.due at hpre
  by_cases hc : c ∈ n.inChannels
  · obtain ⟨sent, ⟨σ', A, udf, r, rfl⟩, harr⟩ := hfrom c hc
    rw [if_pos hc] at hpre
    exact r.punctual.sublist ((hpre.sublist.trans harr.sublist).cons_cons _)
  · rw [if_neg hc, List.prefix_nil] at hpre
    rw [hpre]
    exact punctual_nil

theorem sumsNode_operator : sumsNode.operator = FlatMap.stateful sums := rfl

theorem sumsStart_fresh : Control.Fresh sumsNode sumsStart := ⟨0, (), rfl⟩

/-- The node that sums, along the run above. -/
def crossingSums : FunctionRun sums where
  node := sumsNode
  start := sumsStart
  messages := crossingRun
  final := final (run sumsNode crossingRun sumsStart)
  operator := sumsNode_operator
  fresh := sumsStart_fresh
  ran := eq_ok_of_isOk (by decide +kernel)

/-- It gives multiples of three to one channel and other numbers to another one. -/
def byThree : StrategyConf Int :=
  .keyBy 2 [.onLocal, .onLocal] [0, 1] fun x => if x % 3 = 0 then 0 else 1

/-- Two of these hand on to one node, which hears of multiples of three from the first, and from the
second of the others. -/
def relayedRun : List (Delivery Int) :=
  [.onLocal (.element 0 (some 5) 1), .onNetwork ⟨[.element ⟨1, some 5⟩, .watermark 4], 2⟩,
    .onLocal (.watermark 4 1), .onNetwork ⟨[.element ⟨3, some 6⟩], 1⟩,
    .onLocal (.element 1 (some 6) 2)]

theorem never_late_downstream_sums :
    ∃ s, run sumsNode relayedRun sumsStart = .ok () s ∧
      handledElements s.ctx.log = elements ((iterated s.ctx.log).map Prod.snd) := by
  have hrun := eq_ok_of_isOk (r := run sumsNode relayedRun sumsStart) (by decide +kernel)
  have horder : byThree.Iterates := by
    show [0, 1].Perm (List.range 2)
    decide
  refine ⟨_, hrun, never_late_downstream sumsStart_fresh hrun fun c hc => ?_⟩
  refine ⟨crossingSums.sent, ⟨Int, Int, sums, crossingSums, rfl⟩, ?_⟩
  have hcalls : added (crossingSums.sent.map .add ++ [.flush]) = crossingSums.sent := by
    decide +kernel
  rw [← hcalls]
  obtain rfl | rfl : c = 1 ∨ c = 2 := by simpa [sumsNode] using hc
  · exact ChannelStrategy.arrives_of_isOk ⟨2, 8⟩ (List.replicate 30 (.sender (.ok ()))) 0 horder
      (by decide) (by decide +kernel) (by decide +kernel)
  · exact ChannelStrategy.arrives_of_isOk ⟨2, 8⟩ (List.replicate 30 (.sender (.ok ()))) 1 horder
      (by decide) (by decide +kernel) (by decide +kernel)

end Node

end Arcon
