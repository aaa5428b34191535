import Arcon.Window.Runs
import Arcon.Node.LowWatermark

/-!
# Window results and the watermarks around them

A window's result carries the end of the window as its timestamp, but it is put out when the
watermark reaches the end plus the allowed lateness. If a watermark at or past the end of an open
window is forwarded before that, the result is late for every node downstream. `Timely` says that a
call does not do this; without allowed lateness every call is timely.

* `Sound.call`: along timely calls every open window ends after the time, so its result is above all
  watermarks forwarded so far.
* `output_watermark_sound`: so it is in every run of a node whose calls are timely.
-/

namespace Arcon

open Exec Node

section Handed

variable {IN OUT TS : Type}

/-- Every element handed over is above the watermarks handed over before it: a node that gets these
events in this order discards none of the elements. -/
def NeverLate (l : List (Act IN OUT TS)) : Prop :=
  ∀ pre e, pre ++ [.output (.element e)] <+: l → reach 0 (handed pre) < e.timestamp.getD u64Max

theorem NeverLate.mono {l l' : List (Act IN OUT TS)} (h : NeverLate l') (hl : l <+: l') :
    NeverLate l := fun pre e hpre => h pre e (hpre.trans hl)

/-- Acts without elements keep it. -/
theorem NeverLate.append {l l' : List (Act IN OUT TS)} (h : NeverLate l)
    (hl' : ∀ e, .output (.element e) ∉ l') : NeverLate (l ++ l') := by
  intro pre e hpre
  rcases prefix_snoc_append hpre with hpre | ⟨l₁, l₂, rfl, -⟩
  · exact h pre e hpre
  · exact absurd (by simp) (hl' e)

/-- An element above all watermarks so far keeps it. -/
theorem NeverLate.output {l : List (Act IN OUT TS)} (h : NeverLate l) {e : ArconElement OUT}
    (he : reach 0 (handed l) < e.timestamp.getD u64Max) :
    NeverLate (l ++ [.output (.element e)]) := by
  intro pre e' hpre
  rcases List.prefix_concat_iff.mp hpre with heq | hpre
  · obtain ⟨rfl, hout⟩ := List.append_inj' heq rfl
    obtain rfl : e' = e := by simpa using hout
    exact he
  · exact h pre e' hpre

/-- Other acts than those of the calls hand over no elements and no watermarks. -/
theorem reach_handed_filter (l : List (Act IN OUT TS)) :
    reach 0 (handed (l.filter Act.isCall)) = reach 0 (handed l) := by
  have hwm : (handed (l.filter Act.isCall)).filterMap ArconEvent.watermark? =
      (handed l).filterMap ArconEvent.watermark? := by
    unfold handed
    rw [List.filterMap_filter, List.filterMap_filterMap, List.filterMap_filterMap]
    refine List.filterMap_congr fun x _ => ?_
    cases x with
    | forward ev => cases ev <;> simp [Act.isCall, ArconEvent.watermark?]
    | _ => simp [Act.isCall]
  unfold reach
  rw [hwm]

theorem NeverLate.of_filter {l : List (Act IN OUT TS)} (h : NeverLate (l.filter Act.isCall)) :
    NeverLate l := by
  intro pre e hpre
  rw [← reach_handed_filter]
  refine h _ e ?_
  have := hpre.filter Act.isCall
  rw [List.filter_append] at this
  exact this

end Handed

namespace EventTimeWindowAssigner

variable {IN OUT Acc W Id : Type} [HashWheel W Id] [DecidableEq Id] [UuidSource Id]
  {a : EventTimeWindowAssigner IN OUT Acc}
  {c : OpCtx (WindowState Acc) (EventTimer W Id WindowEvent) IN OUT WindowEvent}
  {calls : List (Call IN)}

/-- The end of a window. -/
def windowEnd (a : EventTimeWindowAssigner IN OUT Acc) (es : List (ArconElement IN))
    (k : KeyAndIndex) : Nat := a.endOf ((a.startOf es k.key).getD 0) k.index

/-- After `calls`, a call leaves no window open that ends at or before the time: an element comes
into no window that has ended, and a watermark that reaches the end of an open window also reaches
its deadline. -/
def Timely (a : EventTimeWindowAssigner IN OUT Acc) (calls : List (Call IN)) : Call IN → Prop
  | .element e => ¬a.Late (clock calls) e →
    ∀ i, a.Covers (a.startWith (a.accepted calls) e) i (tsOf e) →
      clock calls < a.endOf (a.startWith (a.accepted calls) e) i
  | .watermark w => ∀ k, a.contents (a.accepted calls) k ≠ [] →
    clock calls < a.deadline (a.accepted calls) k → a.windowEnd (a.accepted calls) k ≤ w →
      a.deadline (a.accepted calls) k ≤ w
  | .epoch _ => True

omit [HashWheel W Id] [DecidableEq Id] [UuidSource Id] in
/-- **Without allowed lateness every call is timely.** -/
theorem timely_of_lateArrivalTime_eq_zero (h : a.lateArrivalTime = 0) (calls : List (Call IN))
    (x : Call IN) : a.Timely calls x := by
  cases x with
  | element e =>
    intro hlate i hc
    have := hc.2
    unfold Late at hlate
    omega
  | watermark w =>
    intro k _ _ hle
    unfold deadline
    rw [h]
    exact hle
  | epoch e => trivial

/-- What holds along timely calls: the watermarks handed over are not above the time, and every open
window ends after it. -/
structure Sound (a : EventTimeWindowAssigner IN OUT Acc) (calls : List (Call IN))
    (c : OpCtx (WindowState Acc) (EventTimer W Id WindowEvent) IN OUT WindowEvent) : Prop where
  tracks : a.Tracks calls c
  level : reach 0 (handed c.log) ≤ clock calls
  ahead : ∀ k, a.contents (a.accepted calls) k ≠ [] →
    clock calls < a.deadline (a.accepted calls) k → clock calls < a.windowEnd (a.accepted calls) k
  neverLate : NeverLate c.log

/-- What `handle_timeout` adds to the log. -/
theorem handleTimeout_log (t : WindowEvent) :
    wp (a.handleTimeout t).run
      (fun _ c' => ∃ r, c'.log = c.log ++ [.output (.element (.withTimestamp r t.timestamp))])
      (fun _ c' => c'.log = c.log) c := by
  unfold handleTimeout
  rw [wp_run_bind, wp_run_read, wp_run_bind]
  refine wp_run_expect (fun r _ => ?_) (fun _ => rfl)
  rw [wp_run_bind, wp_run_update, wp_run_bind, wp_run_update, wp_run_emit]
  exact ⟨r, rfl⟩

/-- The log while the timeouts of a watermark are handled. -/
theorem fire_neverLate {now : Nat} (ts : List WindowEvent) (hts : ∀ t ∈ ts, now < t.timestamp)
    (h : NeverLate c.log) (hlevel : reach 0 (handed c.log) ≤ now) :
    wp (forM ts a.operator.fire)
      (fun _ c' => NeverLate c'.log ∧ reach 0 (handed c'.log) ≤ now)
      (fun _ c' => NeverLate c'.log) c := by
  have hout : ∀ {l : List (Act IN OUT WindowEvent)} {e : ArconElement OUT},
      reach 0 (handed (l ++ [.output (.element e)])) = reach 0 (handed l) := by
    intro l e
    rw [handed_append, reach_append]
    rfl
  induction ts generalizing c with
  | nil => exact ⟨h, hlevel⟩
  | cons t ts ih =>
    rw [List.forM_cons, wp_bind]
    unfold Operator.fire
    rw [wp_bind, wp_modify]
    have hnote : NeverLate (c.note (.handleTimeout t)).log := h.append (by simp)
    have hnote' : reach 0 (handed (c.note (.handleTimeout t)).log) ≤ now := by
      rw [OpCtx.note_log, handed_append]
      exact (List.append_nil (handed c.log)).symm ▸ hlevel
    refine wp_mono (handleTimeout_log t) ?_ ?_
    · rintro _ c' ⟨r, hlog⟩
      refine ih (fun t' ht' => hts t' (List.mem_cons_of_mem _ ht')) ?_ ?_
      · rw [hlog]
        exact hnote.output (lt_of_le_of_lt hnote' (hts t List.mem_cons_self))
      · rw [hlog, hout]
        exact hnote'
    · intro _ c' hlog
      rw [hlog]
      exact hnote

/-- **A watermark**: the results of the windows it fires are above the watermarks before it. -/
theorem watermark_neverLate (h : a.Sound calls c) (w : Watermark) :
    wp (a.operator.call (.watermark w))
      (fun _ c' => NeverLate c'.log ∧ reach 0 (handed c'.log) ≤ max (clock calls) w)
      (fun _ c' => NeverLate c'.log) c := by
  have hnote : NeverLate (c.note (.handleWatermark w)).log := h.neverLate.append (by simp)
  have hnote' : reach 0 (handed (c.note (.handleWatermark w)).log) ≤ clock calls := by
    rw [OpCtx.note_log, handed_append]
    exact (List.append_nil (handed c.log)).symm ▸ h.level
  have htime := h.tracks.keeps.timer.time
  -- the timeouts are handled before the watermark is forwarded
  have hrest : ∀ (ts : List WindowEvent) (t' : EventTimer W Id WindowEvent),
      (∀ t ∈ ts, clock calls < t.timestamp) →
      wp (forM ts a.operator.fire)
        (fun _ c' => NeverLate (c'.note (.forward (.watermark w))).log ∧
          reach 0 (handed (c'.note (.forward (.watermark w))).log) ≤ max (clock calls) w)
        (fun _ c' => NeverLate c'.log) { c.note (.handleWatermark w) with timer := t' } := by
    intro ts t' hts
    refine wp_mono (fire_neverLate ts hts hnote hnote') ?_ (fun _ _ h' => h')
    rintro _ c' ⟨hnl, hlevel⟩
    refine ⟨hnl.append (by simp), ?_⟩
    rw [OpCtx.note_log, handed_append, reach_append]
    exact max_le_max hlevel (le_refl w)
  rw [wp_call_watermark]
  refine EventTimer.wp_advanceTo h.tracks.keeps.timer.inStep (fun _ _ => hnote)
    (fun _ => hrest [] _ (by simp)) (fun hle l t' hl => hrest _ _ fun t ht => ?_)
  obtain ⟨x, hx, rfl⟩ := List.mem_map.mp ht
  obtain ⟨hne, hlt, -⟩ := (h.tracks.mem_due hl.fires x.2.window).mp (List.mem_map_of_mem hx)
  obtain ⟨s, hs, hts, -⟩ := h.tracks.due_eq hl.fires hx
  have hahead := h.ahead x.2.window hne hlt
  unfold windowEnd at hahead
  rw [show a.startOf (a.accepted calls) x.2.window.key = some s from hs] at hahead
  rw [hts]
  exact hahead

/-- **An element** hands nothing over. -/
theorem element_neverLate (h : a.Sound calls c) (e : ArconElement IN) :
    wp (a.operator.call (.element e))
      (fun _ c' => NeverLate c'.log ∧ reach 0 (handed c'.log) ≤ clock calls)
      (fun _ c' => NeverLate c'.log) c := by
  have hnote : NeverLate (c.note (.handleElement e)).log := h.neverLate.append (by simp)
  have hnote' : reach 0 (handed (c.note (.handleElement e)).log) ≤ clock calls := by
    rw [OpCtx.note_log, handed_append]
    exact (List.append_nil (handed c.log)).symm ▸ h.level
  unfold Operator.call
  rw [wp_bind, wp_modify]
  by_cases hlate : a.Late (clock calls) e
  · exact wp_handleElement_late h.tracks.keeps.timer hlate ⟨hnote, hnote'⟩
  · have hkeeps : a.Keeps (clock calls) (a.startOf (a.accepted calls))
        (a.openContents (a.accepted calls) (clock calls)) (c.note (.handleElement e)) :=
      ⟨h.tracks.keeps.timer, h.tracks.keeps.holds, h.tracks.keeps.agenda⟩
    refine wp_mono (wp_handleElement hkeeps hlate) ?_ ?_
    · rintro _ c' ⟨-, hlog, -⟩
      rw [hlog]
      exact ⟨hnote, hnote'⟩
    · rintro _ c' ⟨-, hlog, -⟩
      rw [hlog]
      exact hnote

omit [HashWheel W Id] [DecidableEq Id] [UuidSource Id] in
/-- Along a timely call the open windows keep ending after the time. -/
theorem ahead_append {x : Call IN} (hx : a.Timely calls x)
    (h : ∀ k, a.contents (a.accepted calls) k ≠ [] →
      clock calls < a.deadline (a.accepted calls) k →
      clock calls < a.windowEnd (a.accepted calls) k) (k : KeyAndIndex)
    (hne : a.contents (a.accepted (calls ++ [x])) k ≠ [])
    (hlt : clock (calls ++ [x]) < a.deadline (a.accepted (calls ++ [x])) k) :
    clock (calls ++ [x]) < a.windowEnd (a.accepted (calls ++ [x])) k := by
  rw [accepted_append] at hne hlt ⊢
  rw [clock_append] at hlt ⊢
  cases x with
  | epoch e =>
    rw [show a.takes (clock calls) (.epoch e) = [] from rfl, List.append_nil] at hne hlt ⊢
    exact h k hne hlt
  | watermark w =>
    rw [show a.takes (clock calls) (.watermark w) = [] from rfl, List.append_nil] at hne hlt ⊢
    obtain ⟨hlt₁, hlt₂⟩ := max_lt_iff.mp hlt
    refine max_lt (h k hne hlt₁) ?_
    by_contra hle
    exact absurd (hx k hne hlt₁ (not_lt.mp hle)) (not_le.mpr hlt₂)
  | element e =>
    by_cases hlate : a.Late (clock calls) e
    · rw [takes_late hlate, List.append_nil] at hne hlt ⊢
      exact h k hne hlt
    · rw [takes_inTime hlate] at hne hlt ⊢
      by_cases hold : a.contents (a.accepted calls) k = []
      · -- the element opens the window
        rw [contents_append, hold, List.nil_append] at hne
        split_ifs at hne with hc
        · have hs : (a.startOf (a.accepted calls ++ [e]) k.key).getD 0 =
              a.startWith (a.accepted calls) e := by
            rw [startOf_append, hc.1, Function.update_self]
            rfl
          unfold windowEnd
          rw [hs]
          exact hx hlate k.index hc.2
        · exact absurd rfl hne
      · have hs := startOf_append_of_some (e := e) (startOf_ne_none hold)
        unfold windowEnd
        rw [hs]
        rw [deadline_append (startOf_ne_none hold)] at hlt
        exact h k hold hlt

/-- **Every timely call** keeps the outputs ahead of the watermarks. -/
theorem Sound.call (h : a.Sound calls c) {x : Call IN} (hx : a.Timely calls x) :
    wp (a.operator.call x) (fun _ c' => a.Sound (calls ++ [x]) c')
      (fun _ c' => NeverLate c'.log) c := by
  have hahead := ahead_append hx h.ahead
  cases x with
  | element e =>
    refine wp_mono (wp_and (h.tracks.element e) (element_neverLate h e)) ?_ (fun _ _ h' => h'.2)
    rintro _ c' ⟨ht, hnl, hlevel⟩
    exact ⟨ht, by rw [clock_append]; exact hlevel, hahead, hnl⟩
  | watermark w =>
    refine wp_mono (wp_and (h.tracks.watermark w) (watermark_neverLate h w)) ?_ (fun _ _ h' => h'.2)
    rintro _ c' ⟨ht, hnl, hlevel⟩
    exact ⟨ht, by rw [clock_append]; exact hlevel, hahead, hnl⟩
  | epoch e =>
    refine ⟨h.tracks.epoch e, ?_, hahead, h.neverLate.append (by simp)⟩
    rw [clock_append, OpCtx.note_log, handed_append]
    exact (List.append_nil (handed c.log)).symm ▸ h.level

/-- **Timely calls in a row.** -/
theorem Sound.drive (h : a.Sound calls c) (xs : List (Call IN))
    (hxs : ∀ ys x, ys ++ [x] <+: xs → a.Timely (calls ++ ys) x) :
    wp (a.operator.drive xs) (fun _ c' => a.Sound (calls ++ xs) c') (fun _ c' => NeverLate c'.log)
      c := by
  induction xs generalizing calls c with
  | nil =>
    rw [List.append_nil]
    exact h
  | cons x xs ih =>
    have hx : a.Timely calls x := by
      have := hxs [] x ⟨xs, rfl⟩
      rwa [List.append_nil] at this
    unfold Operator.drive
    rw [List.forM_cons, wp_bind]
    refine wp_mono (h.call hx) (fun _ c' h' => ?_) (fun _ _ h' => h')
    have hrest := ih h' fun ys y hys => by
      have := hxs (x :: ys) y ((List.prefix_cons_inj x).mpr hys)
      rwa [List.append_cons] at this
    rw [List.append_assoc] at hrest
    exact hrest

omit [DecidableEq Id] [UuidSource Id] in
theorem Begins.sound (h : Begins c) : a.Sound [] c := by
  refine ⟨h.tracks, ?_, fun k hk => absurd rfl hk, ?_⟩
  · rw [h.log]
    exact le_refl 0
  · rw [h.log]
    intro pre e hpre
    simpa using List.prefix_nil.mp hpre

section Runs

variable {n : Node (WindowState Acc) WindowEvent IN OUT}
  {s₀ : NodeSt (WindowState Acc) (EventTimer W Id WindowEvent) IN OUT WindowEvent
    (TimerState Id WindowEvent)}

/-- A node on an empty backend. -/
theorem begins_of_new (hop : n.operator = a.operator)
    (hnew : Node.new n (NodeState.new IN) (WindowState.new Acc)
      (EventTimer.new (TimerState.new Id WindowEvent)) = .ok s₀) : Begins s₀.ctx := by
  obtain ⟨t, hinit, rfl⟩ := Control.new_ok hnew
  refine ⟨?_, hinit, rfl⟩
  show n.operator.init _ = _
  rw [hop]
  rfl

/-- The log of a run whose calls are all timely. -/
theorem run_neverLate (hop : n.operator = a.operator)
    (hnew : Node.new n (NodeState.new IN) (WindowState.new Acc)
      (EventTimer.new (TimerState.new Id WindowEvent)) = .ok s₀) (ds : List (Delivery IN))
    (htimely : ∀ calls x, calls ++ [x] <+: callsOf (final (run n ds s₀)).ctx.log →
      a.Timely calls x) :
    NeverLate (final (run n ds s₀)).ctx.log := by
  have hfresh : Control.Fresh n s₀ := ⟨_, _, hnew⟩
  have hsound := (begins_of_new hop hnew).sound.drive (a := a)
    (callsOf (final (run n ds s₀)).ctx.log) htimely
  rw [← hop] at hsound
  have hdriven : ∀ s, s = final (run n ds s₀) → Control.Drives n s₀.ctx s →
      NeverLate (s.ctx.log.filter Act.isCall) := by
    rintro s rfl h
    exact (wp_ok hsound h.driven).neverLate
  have hd := Control.run_drives ds hfresh.drives
  refine NeverLate.of_filter ?_
  unfold wp at hd
  cases hr : run n ds s₀ with
  | ok u s =>
    rw [hr] at hd hdriven
    exact hdriven s rfl hd
  | error f s =>
    rw [hr] at hd hsound hdriven
    rcases hd with ⟨x, -, h⟩ | h | ⟨-, w, h⟩
    · exact wp_error hsound h
    · exact hdriven s rfl h
    · exact (wp_ok hsound h).neverLate.mono ⟨_, rfl⟩

theorem le_reach_of_mem {X : Type} {w : Watermark} {evs : List (ArconEvent X)}
    (h : .watermark w ∈ evs) (w₀ : Watermark) : w ≤ reach w₀ evs := by
  obtain ⟨evs₁, evs₂, rfl⟩ := List.append_of_mem h
  rw [List.append_cons]
  refine le_trans ?_ (reach_mono w₀ ⟨evs₂, rfl⟩)
  rw [reach_append, reach_watermark]
  exact le_max_right _ w

/-- **Output watermark soundness.** In every run of a node with event-time windows on an event timer
whose calls are all timely, every element handed to the channel strategy is above each watermark
that was handed to it earlier; and a downstream node that has got the events before the element from
one of its in-channels does not discard the element as late. -/
theorem output_watermark_sound (hop : n.operator = a.operator)
    (hnew : Node.new n (NodeState.new IN) (WindowState.new Acc)
      (EventTimer.new (TimerState.new Id WindowEvent)) = .ok s₀) (ds : List (Delivery IN))
    (htimely : ∀ calls x, calls ++ [x] <+: callsOf (final (run n ds s₀)).ctx.log →
      a.Timely calls x) (pre : List (Act IN OUT WindowEvent)) (e : ArconElement OUT)
    (hpre : pre ++ [.output (.element e)] <+: (final (run n ds s₀)).ctx.log) :
    (∀ w, .watermark w ∈ handed pre → w < e.timestamp.getD u64Max) ∧
      ∀ {σ τ TS OUT' P : Type} [TimerBackend τ TS P] {m : Node σ TS OUT OUT'}
        {t₀ t : NodeSt σ τ OUT OUT' TS P} {ch : NodeID}, Control.Fresh m t₀ → Between m t₀ t →
        ch ∈ m.inChannels → iterOf ch t.ctx.log = handed pre →
        ∃ w, t.state.watermarks.lookup ch = some w ∧ ¬e.timestamp.getD u64Max ≤ w := by
  have hlt := run_neverLate hop hnew ds htimely pre e hpre
  refine ⟨fun w hw => lt_of_le_of_lt (le_reach_of_mem hw 0) hlt, ?_⟩
  intro σ τ TS OUT' P _ m t₀ t ch hfresh hbetween hch hiter
  obtain ⟨hw, hwf, -⟩ := hbetween.watched hfresh
  have hinv := watermarkInvariant_of_watched hw hwf.init (List.ne_nil_of_mem hch)
  refine ⟨_, hinv.watermarks ch hch, ?_⟩
  rw [hiter]
  exact not_le.mpr hlt

end Runs

/-- A node with the given windows, and it on an empty backend. -/
def windowNode (a : EventTimeWindowAssigner Nat Nat (List Nat)) (inChannels : List NodeID) :
    Node (WindowState (List Nat)) WindowEvent Nat Nat where
  id := 0
  inChannels := inChannels
  operator := a.operator
  checkpointDir := some "/tmp"
  checkpointFails _ := false

def windowStart (inChannels : List NodeID) :
    NodeSt (WindowState (List Nat)) (EventTimer ListWheel Nat WindowEvent) Nat Nat WindowEvent
      (TimerState Nat WindowEvent) where
  state := ⟨inChannels.foldl initWatermark ∅, some 0, some 0, ∅, []⟩
  ctx := emptyCtx (List Nat) Nat Nat
  metrics := { NodeMetrics.new with inboundChannels := inChannels.length }
  borrowed _ := false
  checkpoints := []

theorem windowStart_eq (a : EventTimeWindowAssigner Nat Nat (List Nat)) (inChannels : List NodeID) :
    Node.new (windowNode a inChannels) (NodeState.new Nat) (WindowState.new (List Nat))
      (EventTimer.new (TimerState.new Nat WindowEvent)) = .ok (windowStart inChannels) := rfl

/-- An element, a watermark at the end of its window, and one at the end plus the lateness. -/
def hesitantRun : List (Delivery Nat) :=
  [.onLocal (.element 5 (some 1) 1), .onLocal (.watermark 11 1), .onLocal (.watermark 13 1)]

/-- Tumbling windows of length 10, with or without a lateness. -/
def tumbling (late : Nat) : EventTimeWindowAssigner Nat Nat (List Nat) :=
  counting 10 10 late (by decide) (by decide) (by decide)

/-- Without lateness the result comes out before the watermark at the end of the window. -/
theorem output_watermark_sound_tumbling :
    ∃ pre, pre ++ [.output (.element ⟨1, some 11⟩)] <+:
        (final (run (windowNode (tumbling 0) [1]) hesitantRun (windowStart [1]))).ctx.log ∧
      ∀ w, .watermark w ∈ handed pre → w < 11 := by
  have hpre : [.iter 1 (.element ⟨5, some 1⟩), .handleElement ⟨5, some 1⟩,
      .iter 1 (.watermark 11), .handleWatermark 11, .handleTimeout ⟨7, 0, 11⟩] ++
        [.output (.element ⟨1, some 11⟩)] <+:
      (final (run (windowNode (tumbling 0) [1]) hesitantRun (windowStart [1]))).ctx.log := by
    decide +kernel
  exact ⟨_, hpre, (output_watermark_sound (a := tumbling 0) rfl (windowStart_eq _ [1]) hesitantRun
    (fun calls x _ => timely_of_lateArrivalTime_eq_zero rfl calls x) _ _ hpre).1⟩

/-- **With lateness it does not hold**: the watermark at the end of the window is forwarded, and the
result follows it. -/
theorem output_below_watermark :
    Node.new (windowNode (tumbling 2) [1]) (NodeState.new Nat) (WindowState.new (List Nat))
        (EventTimer.new (TimerState.new Nat WindowEvent)) = .ok (windowStart [1]) ∧
      ¬∀ pre e, pre ++ [.output (.element e)] <+:
          (final (run (windowNode (tumbling 2) [1]) hesitantRun (windowStart [1]))).ctx.log →
        ∀ w, .watermark w ∈ handed pre → w < e.timestamp.getD u64Max := by
  refine ⟨windowStart_eq _ [1], fun h => ?_⟩
  have hpre : [.iter 1 (.element ⟨5, some 1⟩), .handleElement ⟨5, some 1⟩,
      .iter 1 (.watermark 11), .handleWatermark 11, .forward (.watermark 11),
      .iter 1 (.watermark 13), .handleWatermark 13, .handleTimeout ⟨7, 0, 11⟩] ++
        [.output (.element ⟨1, some 11⟩)] <+:
      (final (run (windowNode (tumbling 2) [1]) hesitantRun (windowStart [1]))).ctx.log := by
    decide +kernel
  exact absurd (h _ _ hpre 11 (by decide)) (by decide)

end EventTimeWindowAssigner

end Arcon
