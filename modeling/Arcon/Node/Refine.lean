import Arcon.Node.Control
import Mathlib.Tactic.Order

/-!
# The node refines its control flow

`handle_events`, with its guards, its shortcuts around the minimum watermark and its recursion
through `after_state_save`, does what the machine of `Control.lean` does. The theorems say it for
one event (`handleEvent_step`, `handleEvent_complete`), for a replay (`replay_refines`), for the
events of a message (`handleEvents_refines`) and for a message (`handle_refines`,
`receive_refines`).

A run of the node can stop where the machine goes on: the operator or the timer panics, or a
watermark of a replay raises the minimum while the metrics guard is out (`Clashes`). What the node
has done then is a first part of what the machine does (`Stops`). There is no other fault.
-/

namespace Arcon

open Exec Node

variable {σ τ TS IN OUT P : Type}

namespace NodeSt

/-- The node's own part of a state. -/
def view (s : NodeSt σ τ IN OUT TS P) : View IN OUT TS := ⟨s.state, s.marks, false⟩

/-- No guard is out. -/
def Idle (s : NodeSt σ τ IN OUT TS P) : Prop := ∀ c, s.borrowed c = false

variable {s s' : NodeSt σ τ IN OUT TS P}

theorem Idle.free (h : s.Idle) : s.Free := ⟨h _, h _⟩

theorem Idle.of_borrowed (h : s.Idle) (hb : s'.borrowed = s.borrowed) : s'.Idle := by
  intro c
  rw [hb]
  exact h c

theorem Free.of_borrowed (h : s.Free) (hb : s'.borrowed = s.borrowed) : s'.Free :=
  ⟨by rw [hb]; exact h.1, by rw [hb]; exact h.2⟩

theorem Moved.view {st : NodeState IN} {acts : List (Act IN OUT TS)} (h : s.Moved st acts s') :
    s'.view = (s.view.put st).note acts := by
  simp only [NodeSt.view, View.put, View.note, h.state, h.marks]

end NodeSt

namespace Control

variable {n : Node σ TS IN OUT} {s : NodeSt σ τ IN OUT TS P} {c : NodeID}

/-! ## How runs stop early -/

/-- Some watermark among the replayed events raises the minimum. -/
def ReplayRaises (v : View IN OUT TS) (ts : List (NodeID × ArconEvent IN)) : Prop :=
  ∃ ts₁ c w ts₂, ts = ts₁ ++ (c, .watermark w) :: ts₂ ∧ Raises (replay v ts₁).state c w

/-- The marker of `e` completes its epoch, and the replay that follows raises the minimum. -/
def EventClashes (n : Node σ TS IN OUT) (v : View IN OUT TS) (c : NodeID) (e : Epoch) : Prop :=
  Completes n v.state c e ∧ Saves n e ∧
    ReplayRaises (opened (complete v c e) e) (tasks v.state.messageBuffer)

/-- Some marker among the events of a message does so. -/
def Clashes (n : Node σ TS IN OUT) (v : View IN OUT TS) (c : NodeID)
    (evs : List (ArconEvent IN)) : Prop :=
  ∃ evs₁ e evs₂, evs = evs₁ ++ .epoch e :: evs₂ ∧ (events n v c evs₁).failed = false ∧
    EventClashes n (events n v c evs₁) c e

/-- How a node that would come to `v` stops before: with an `Err`, once all is done that `v` says,
or with a panic. -/
def Stops (v : View IN OUT TS) (clash : Prop) (f : Fault) (s : NodeSt σ τ IN OUT TS P) : Prop :=
  ((∃ msg, f = .err msg) ∧ v.failed = true ∧ s.state = v.state ∧ s.marks = v.acts) ∨
    (((∃ x, f = .crash x) ∨ f = .alreadyBorrowed .metrics ∧ clash) ∧ s.marks <+: v.acts)

theorem Stops.mono {v v' : View IN OUT TS} {p p' : Prop} {f : Fault} (h : Stops v p f s)
    (hv : v.failed = true → v' = v) (hacts : v.acts <+: v'.acts) (hp : p → p') :
    Stops v' p' f s := by
  rcases h with ⟨hf, hv', hst, hm⟩ | ⟨hf, hm⟩
  · rw [hv hv']
    exact .inl ⟨hf, hv', hst, hm⟩
  · refine .inr ⟨?_, hm.trans hacts⟩
    rcases hf with hf | ⟨hf, hc⟩
    · exact .inl hf
    · exact .inr ⟨hf, hp hc⟩

/-! ## Acts only grow -/

theorem step_acts (v : View IN OUT TS) (c : NodeID) (ev : ArconEvent IN) :
    (step v c ev).acts = v.acts ++ acts v.state c ev := rfl

theorem replay_acts (v : View IN OUT TS) (ts : List (NodeID × ArconEvent IN)) :
    v.acts <+: (replay v ts).acts :=
  replay_rule (I := fun _ (v' : View IN OUT TS) => v.acts <+: v'.acts)
    (fun _ _ _ h => h.trans (List.prefix_append _ _)) ts v (List.prefix_refl _)

theorem replay_append (v : View IN OUT TS) (ts₁ ts₂ : List (NodeID × ArconEvent IN)) :
    replay v (ts₁ ++ ts₂) = replay (replay v ts₁) ts₂ := List.foldl_append

theorem complete_acts (v : View IN OUT TS) (c : NodeID) (e : Epoch) :
    (complete v c e).acts = v.acts ++ [.iter c (.epoch e), .handleEpoch e, .saveState e] := rfl

theorem proceed_acts (v : View IN OUT TS) (e : Epoch) :
    v.acts ++ [.checkpoint e, .forward (.epoch e)] <+: (proceed v e).acts :=
  replay_acts (opened v e) _

theorem event_acts (v : View IN OUT TS) (c : NodeID) (ev : ArconEvent IN) :
    v.acts <+: (event n v c ev).acts := by
  cases hf : v.failed with
  | true => simp [event, hf]
  | false =>
    obtain ⟨-, he⟩ | ⟨e, rfl, -, ⟨-, he⟩ | ⟨-, he⟩⟩ := event_cases (n := n) c ev hf
    · rw [he]
      exact List.prefix_append _ _
    · rw [he]
      refine List.IsPrefix.trans ?_ (proceed_acts _ _)
      rw [complete_acts, List.append_assoc]
      exact List.prefix_append _ _
    · rw [he]
      exact List.prefix_append _ _

theorem events_acts (v : View IN OUT TS) (c : NodeID) (evs : List (ArconEvent IN)) :
    v.acts <+: (events n v c evs).acts := by
  induction evs generalizing v with
  | nil => exact List.prefix_refl _
  | cons ev evs ih => exact (event_acts v c ev).trans (ih _)

theorem events_append (v : View IN OUT TS) (c : NodeID) (evs₁ evs₂ : List (ArconEvent IN)) :
    events n v c (evs₁ ++ evs₂) = events n (events n v c evs₁) c evs₂ := List.foldl_append

/-! ## Events -/

section Events

/-- **The shortcuts of the `Watermark` branch.** Where it does not recompute the minimum, another
channel holds it or the new watermark is below it. -/
theorem Initialised.not_raises {st : NodeState IN} (h : Initialised n st) (hc : c ∈ n.inChannels)
    {w : Watermark}
    (hw : st.minimum < st.watermark c ∨ w ≤ st.minimum ∨ newMinimum st c w ≤ st.minimum) :
    ¬Raises st c w := by
  rintro ⟨-, hr⟩
  rcases hw with hw | hw | hw
  · obtain ⟨q, hq, hqe⟩ := h.attained (List.ne_nil_of_mem hc)
    have hqc : q ≠ c := by
      rintro rfl
      order
    have hle := h.newMinimum_le hc w hq
    rw [watermark_stored, if_neg hqc] at hle
    order
  · have hle := h.newMinimum_le hc w hc
    rw [watermark_stored, if_pos rfl] at hle
    order
  · order

/-- A node that has moved along an event stops or has made the machine's step. -/
theorem acts_prefix {ev : ArconEvent IN} {as : List (Act IN OUT TS)}
    {s' : NodeSt σ τ IN OUT TS P} {st : NodeState IN}
    (h : NodeSt.Moved { s with ctx := s.ctx.note (.iter c ev) } st as s')
    (has : .iter c ev :: as <+: acts s.state c ev) :
    s'.marks <+: (step s.view c ev).acts := by
  rw [h.marks, step_acts]
  have : NodeSt.marks { s with ctx := s.ctx.note (.iter c ev) } = s.marks ++ [.iter c ev] := by
    simp [NodeSt.marks, OpCtx.note, Act.isMark]
  rw [this, List.append_assoc, List.singleton_append]
  exact (List.prefix_append_right_inj _).mpr has

theorem moved_put {st : NodeState IN} : s.Moved st [] { s with state := st } :=
  ⟨rfl, by simp [NodeSt.marks], rfl⟩

variable [TimerBackend τ TS P]

/-- **An event that completes no epoch** moves the node as it moves the machine. -/
theorem handleEvent_step {after : NodeM σ τ IN OUT TS P Unit} {ev : ArconEvent IN} (hs : s.Free)
    (hi : Initialised n s.state) (hc : c ∈ n.inChannels)
    (hn : ∀ e, ev = .epoch e → ¬Completes n s.state c e) :
    wp (handleEvent n after c ev)
      (fun _ s' => s'.view = step s.view c ev ∧ s'.borrowed = s.borrowed)
      (fun f s' => s'.borrowed = s.borrowed ∧ Stops (step s.view c ev)
        (s.borrowed .metrics = true ∧ ∃ w, ev = .watermark w ∧ Raises s.state c w) f s') s := by
  unfold handleEvent
  rw [wp_bind, wp_note]
  set s₁ : NodeSt σ τ IN OUT TS P := { s with ctx := s.ctx.note (.iter c ev) } with hs₁
  have hfree : s₁.Free := ⟨hs.1, hs.2⟩
  have hiter : s.Moved s.state [.iter c ev] s₁ := moved_note rfl
  have hlook := hi.lookup hc
  -- the two ways a branch ends: with the machine's acts, or with a first part of them
  have ok : ∀ {st : NodeState IN} {as : List (Act IN OUT TS)} {s' : NodeSt σ τ IN OUT TS P},
      s₁.Moved st as s' → st = next s.state c ev → .iter c ev :: as = acts s.state c ev →
      s'.view = step s.view c ev ∧ s'.borrowed = s.borrowed := by
    intro st as s' h hst has
    refine ⟨?_, h.borrowed⟩
    rw [(hiter.trans h).view, hst]
    show (s.view.put _).note ([.iter c ev] ++ as) = (s.view.put _).note (acts s.state c ev)
    rw [← has]
    rfl
  have nothing : next s.state c ev = s.state → acts s.state c ev = [.iter c ev] →
      s₁.view = step s.view c ev ∧ s₁.borrowed = s.borrowed := fun hst has =>
    ok moved_put hst.symm has.symm
  cases ev with
  | element e =>
    refine wp_onElement hfree (fun h => ?_) (fun w hw hle => ?_) (fun w hw hlt s' h => ?_)
      (fun w hw hlt f s' h => ⟨h.borrowed, .inr ⟨.inl ⟨f, rfl⟩, acts_prefix h ?_⟩⟩)
    · rw [hlook] at h; cases h
    · rw [hlook] at hw; cases hw
      exact nothing rfl (by simp [acts, hle])
    · rw [hlook] at hw; cases hw
      exact ok h rfl (by simp [acts, not_le.mpr hlt])
    · rw [hlook] at hw; cases hw
      simp [acts, not_le.mpr hlt]
  | watermark w =>
    have hcur := hi.currentWatermark
    refine wp_onWatermark hfree (fun h => ?_) (fun old h hle => ?_)
      (fun old cur h hlt h' hno => ?_) (fun old cur new h hlt h' hle hgt hnew _ s' hs' => ?_)
      (fun old cur new h hlt h' hle hgt hnew f s' hs' hf => ?_)
    · rcases h with h | h
      · rw [hlook] at h; cases h
      · rw [hcur] at h; cases h
    · rw [hlook] at h; cases h
      have hr : ¬Raises s.state c w := fun hr => absurd hr.1 (not_lt.mpr hle)
      exact nothing (by simp only [next, if_neg hr, if_neg (not_lt.mpr hle)])
        (by simp only [acts, if_neg hr])
    · rw [hlook] at h; cases h
      rw [hcur] at h'; cases h'
      have hr := hi.not_raises hc hno
      exact ok moved_put (by simp only [next, if_neg hr, if_pos hlt]; rfl)
        (by simp only [acts, if_neg hr])
    · rw [hlook] at h; cases h
      rw [hcur] at h'; cases h'
      subst hnew
      have hr : Raises s.state c w := ⟨hlt, hgt⟩
      exact ok hs' (by simp only [next, if_pos hr]; rfl) (by simp only [acts, if_pos hr]; rfl)
    · rw [hlook] at h; cases h
      rw [hcur] at h'; cases h'
      subst hnew
      have hr : Raises s.state c w := ⟨hlt, hgt⟩
      refine ⟨hs'.borrowed, .inr ⟨?_, acts_prefix hs' ?_⟩⟩
      · rcases hf with hf | ⟨hf, hm⟩
        · exact .inl hf
        · exact .inr ⟨hf, hm, w, rfl, hr⟩
      · simp only [acts, if_pos hr]
        exact ⟨[.forward (.watermark (newMinimum s.state c w))], rfl⟩
  | death msg => exact wp_onDeath hfree fun s' h => ok h rfl rfl
  | epoch e =>
    have hcur := hi.currentEpoch
    refine wp_onEpoch (fun h => ?_) (fun cur h hle => ?_) (fun cur h hlt _ => ?_)
      (fun cur h hlt hcard => ?_)
    · rw [hcur] at h; cases h
    · rw [hcur] at h; cases h
      exact nothing (by simp [next, not_lt.mpr hle]) rfl
    · rw [hcur] at h; cases h
      exact ok moved_put (by simp only [next, if_pos hlt]; rfl) rfl
    · rw [hcur] at h; cases h
      exact absurd ⟨hlt, hcard⟩ (hn e rfl)

/-- **A replay** moves the node as it moves the machine. -/
theorem replay_refines {after : NodeM σ τ IN OUT TS P Unit} {q : NodeID}
    {ts : List (NodeID × ArconEvent IN)} (hs : s.Free) (h : InReplay n q ts s.state) :
    wp (forM ts (handleTask n after))
      (fun _ s' => s'.view = replay s.view ts ∧ s'.borrowed = s.borrowed)
      (fun f s' => s'.borrowed = s.borrowed ∧ Stops (replay s.view ts)
        (s.borrowed .metrics = true ∧ ReplayRaises s.view ts) f s') s := by
  refine wp_forM_done (J := fun done (s' : NodeSt σ τ IN OUT TS P) =>
    s'.view = replay s.view done ∧ s'.borrowed = s.borrowed) ⟨rfl, rfl⟩ ?_
  rintro done t rest s₁ hts - ⟨hv, hb⟩
  have hrep : InReplay n q (t :: rest) s₁.state := by
    have := InReplay.replay (v := s.view) (hts ▸ h)
    rwa [← hv] at this
  have hstep : step s₁.view t.1 t.2 = replay s.view (done ++ [t]) := by
    rw [replay_append, ← hv]
    rfl
  refine wp_mono (handleEvent_step (hs.of_borrowed hb) hrep.init
    (hrep.senders t List.mem_cons_self).1 fun _ _ hcomp => hrep.no_complete hcomp.2) ?_ ?_
  · rintro _ s' ⟨hv', hb'⟩
    exact ⟨hv'.trans hstep, hb'.trans hb⟩
  · rintro f s' ⟨hb', hstop⟩
    rw [hstep] at hstop
    refine ⟨hb'.trans hb, hstop.mono (fun hf => ?_) ?_ ?_⟩
    · rw [replay_failed] at hf; cases hf
    · have happ : ts = (done ++ [t]) ++ rest := by rw [hts]; simp
      rw [happ, replay_append _ (done ++ [t])]
      exact replay_acts _ _
    · rintro ⟨hm, w, hw, hr⟩
      refine ⟨by rw [← hb]; exact hm, done, t.1, w, rest, ?_, ?_⟩
      · rw [hts, ← hw]
      · rw [← hv]
        exact hr

/-- **A marker that completes its epoch** moves the node as it moves the machine. -/
theorem handleEvent_complete {e : Epoch} (hs : s.Idle) (h : Ready n s.state)
    (hc : c ∈ n.inChannels) (hcomp : Completes n s.state c e) :
    wp (handleEvent n (afterStateSave n replayDepth) c (.epoch e))
      (fun _ s' => s'.view = event n s.view c (.epoch e) ∧ s'.borrowed = s.borrowed)
      (fun f s' => s'.borrowed = s.borrowed ∧ Stops (event n s.view c (.epoch e))
        (EventClashes n s.view c e) f s') s := by
  unfold handleEvent
  rw [wp_bind, wp_note]
  have hcur := h.init.currentEpoch
  refine wp_onEpoch (fun h => ?_) (fun cur h hle => ?_) (fun cur h _ hcard => ?_)
    (fun cur _ _ _ => ?_)
  · rw [hcur] at h; cases h
  · rw [hcur] at h; cases h
    exact absurd hcomp.1 (not_lt.mpr hle)
  · exact absurd hcomp.2 hcard
  set s₁ : NodeSt σ τ IN OUT TS P :=
    { s with state := blocked s.state c, ctx := s.ctx.note (.iter c (.epoch e)) }
  have hs₁ : s₁.Idle := hs
  have hiter : s₁.marks = s.marks ++ [.iter c (.epoch e)] := by
    simp [s₁, NodeSt.marks, OpCtx.note, Act.isMark]
  have hev : event n s.view c (.epoch e) = if Saves n e then proceed (complete s.view c e) e
      else { complete s.view c e with failed := true } := by
    exact event_complete rfl hcomp
  -- the acts up to the checkpoint are acts of the machine, whether it is written or not
  have hacts : s.marks ++ [.iter c (.epoch e), .handleEpoch e, .saveState e] <+:
      (event n s.view c (.epoch e)).acts := by
    rw [hev]
    split_ifs
    · exact List.IsPrefix.trans (List.prefix_append _ _) (proceed_acts (complete s.view c e) e)
    · exact List.prefix_refl _
  refine wp_completeEpoch hs₁.free (fun _ hd hf s₂ h₂ => ?_) (fun hm => ?_) (fun x s' h' => ?_)
    (fun hf msg s' h' => ?_)
  · have hsave : Saves n e := ⟨hd, hf⟩
    rw [if_pos hsave] at hev
    unfold replayDepth
    rw [wp_afterStateSave]
    set s₃ : NodeSt σ τ IN OUT TS P := { s₂ with state := drained s₂.state }
    have hbuf : s₂.state.messageBuffer = s.state.messageBuffer := by rw [h₂.state]; rfl
    have hv₃ : s₃.view = opened (complete s.view c e) e := by
      have hst : s₃.state = drained { blocked s.state c with currentEpoch := some e } := by
        show drained s₂.state = _
        rw [h₂.state]
      have hm : s₃.marks = s.marks ++ [.iter c (.epoch e), .handleEpoch e, .saveState e] ++
          [.checkpoint e, .forward (.epoch e)] := by
        show s₂.marks = _
        rw [h₂.marks, hiter]
        simp
      simp only [NodeSt.view, hst, hm]
      rfl
    have hfree : s₃.Free := hs₁.free.hold_metrics.of_borrowed h₂.borrowed
    have hb : ∀ {s' : NodeSt σ τ IN OUT TS P}, s'.borrowed = s₃.borrowed →
        (s'.release .metrics).borrowed = s.borrowed := fun h' =>
      NodeSt.release_borrowed (hs₁ _) (h'.trans h₂.borrowed)
    have hst₃ : s₃.state = (opened (complete s.view c e) e).state := by rw [← hv₃]; rfl
    rw [hbuf]
    refine wp_mono (replay_refines hfree (by rw [hst₃]; exact h.inReplay hc hcomp)) ?_ ?_
    · rintro _ s' ⟨hv', hb'⟩
      refine ⟨?_, hb hb'⟩
      rw [hev, proceed, ← hv₃]
      exact hv'
    · rintro f s' ⟨hb', hstop⟩
      refine ⟨hb hb', ?_⟩
      rw [hev, proceed, ← hv₃]
      refine Stops.mono (s := s'.release .metrics) hstop (fun _ => rfl) (List.prefix_refl _) ?_
      rintro ⟨-, hr⟩
      rw [hv₃] at hr
      exact ⟨hcomp, hsave, hr⟩
  · rw [hs₁] at hm; cases hm
  · refine ⟨h'.borrowed, .inr ⟨.inl ⟨x, rfl⟩, ?_⟩⟩
    rw [h'.marks, hiter, List.append_assoc]
    exact List.IsPrefix.trans ⟨[.saveState e], by simp⟩ hacts
  · have hns : ¬Saves n e := by
      rintro ⟨hd, hff⟩
      rcases hf with hf | hf
      · exact hd hf
      · rw [hff] at hf; cases hf
    refine ⟨h'.borrowed, .inl ⟨⟨msg, rfl⟩, ?_, ?_, ?_⟩⟩
    · rw [hev, if_neg hns]
    · rw [hev, if_neg hns, h'.state]
      rfl
    · rw [hev, if_neg hns, h'.marks, hiter, List.append_assoc]
      rfl

/-- **An event** moves the node as it moves the machine. -/
theorem handleEvent_refines {ev : ArconEvent IN} (hs : s.Idle) (h : Ready n s.state)
    (hc : c ∈ n.inChannels) :
    wp (handleEvent n (afterStateSave n replayDepth) c ev)
      (fun _ s' => s'.view = event n s.view c ev ∧ s'.borrowed = s.borrowed)
      (fun f s' => s'.borrowed = s.borrowed ∧ Stops (event n s.view c ev)
        (∃ e, ev = .epoch e ∧ EventClashes n s.view c e) f s') s := by
  obtain ⟨hn, he⟩ | ⟨e, rfl, hcomp, -⟩ := event_cases (n := n) (v := s.view) c ev rfl
  · rw [he]
    refine wp_mono (handleEvent_step hs.free h.init hc hn) (fun _ _ h' => h') ?_
    rintro f s' ⟨hb, hstop⟩
    refine ⟨hb, hstop.mono (fun _ => rfl) (List.prefix_refl _) ?_⟩
    rintro ⟨hm, -⟩
    rw [hs] at hm
    cases hm
  · refine wp_mono (handleEvent_complete hs h hc hcomp) (fun _ _ h' => h') ?_
    rintro f s' ⟨hb, hstop⟩
    exact ⟨hb, hstop.mono (fun _ => rfl) (List.prefix_refl _) fun hcl => ⟨e, rfl, hcl⟩⟩

/-- **The events of a message** move the node as they move the machine. -/
theorem handleEvents_refines {evs : List (ArconEvent IN)} (hs : s.Idle) (h : Ready n s.state)
    (hc : c ∈ n.inChannels) :
    wp (handleEvents n (afterStateSave n replayDepth) c evs)
      (fun _ s' => s'.view = events n s.view c evs ∧ s'.borrowed = s.borrowed)
      (fun f s' => s'.borrowed = s.borrowed ∧
        Stops (events n s.view c evs) (Clashes n s.view c evs) f s') s := by
  refine wp_forM_done (J := fun done (s' : NodeSt σ τ IN OUT TS P) =>
    s'.view = events n s.view c done ∧ s'.borrowed = s.borrowed) ⟨rfl, rfl⟩ ?_
  rintro done ev rest s₁ hevs - ⟨hv, hb⟩
  have hgood : Good n (events n s.view c done) := Good.events ⟨h.toWF, fun _ => h⟩ hc done
  have hready : Ready n s₁.state := by
    have := hgood.ready (by rw [← hv]; rfl)
    rwa [← hv] at this
  have hstep : event n s₁.view c ev = events n s.view c (done ++ [ev]) := by
    rw [events_append, ← hv]
    rfl
  refine wp_mono (handleEvent_refines (hs.of_borrowed hb) hready hc) ?_ ?_
  · rintro _ s' ⟨hv', hb'⟩
    exact ⟨hv'.trans hstep, hb'.trans hb⟩
  · rintro f s' ⟨hb', hstop⟩
    rw [hstep] at hstop
    have happ : evs = (done ++ [ev]) ++ rest := by rw [hevs]; simp
    refine ⟨hb'.trans hb, hstop.mono (fun hf => ?_) ?_ ?_⟩
    · rw [happ, events_append, events_failed hf]
    · rw [happ, events_append _ _ (done ++ [ev])]
      exact events_acts _ _ _
    · rintro ⟨e, rfl, hcl⟩
      refine ⟨done, e, rest, hevs, by rw [← hv]; rfl, ?_⟩
      rw [← hv]
      exact hcl

/-- The message is handled at once, and its replay raises the minimum. -/
def DeliverClashes (n : Node σ TS IN OUT) (v : View IN OUT TS) (d : Delivery IN) : Prop :=
  d.sender ∈ n.inChannels ∧ d.sender ∉ v.state.blockedChannels ∧
    Clashes n v d.sender d.events

theorem handle_eq (d : Delivery IN) :
    (handle n d : NodeM σ τ IN OUT TS P Unit) =
      handleFrom n (afterStateSave n replayDepth) d.sender d.events := by
  cases d <;> rfl

theorem receive_eq (d : Delivery IN) :
    (receive n d : NodeM σ τ IN OUT TS P Unit) = logErr (handle n d) := by
  cases d <;> rfl

omit [TimerBackend τ TS P] in
/-- Counting the events of a message leaves everything but the metrics alone. -/
theorem wp_recordIncomingEvents {total : Nat} {Q : Unit → NodeSt σ τ IN OUT TS P → Prop}
    {E : Fault → NodeSt σ τ IN OUT TS P → Prop} (hs : s.Idle)
    (hQ : ∀ m, Q () { s with metrics := m }) : wp (recordIncomingEvents total) Q E s := by
  unfold recordIncomingEvents
  rw [wp_withBorrow (hs _), wp_modifyMetrics]
  have hrec : ∀ m : NodeMetrics,
      NodeSt.release { s.hold .metrics with metrics := m } .metrics = { s with metrics := m } := by
    intro m
    simp only [NodeSt.release, NodeSt.hold, Function.update_idem]
    rw [← hs .metrics, Function.update_eq_self]
  rw [hrec]
  exact hQ _

/-- **A message** moves the node as it moves the machine. -/
theorem handle_refines (d : Delivery IN) (hs : s.Idle) (h : WF n s.state) :
    wp (handle n d) (fun _ s' => s'.view = deliver n s.view d ∧ s'.borrowed = s.borrowed)
      (fun f s' => s'.borrowed = s.borrowed ∧
        Stops (deliver n s.view d) (DeliverClashes n s.view d) f s') s := by
  rw [handle_eq]
  unfold handleFrom deliver
  by_cases hc : d.sender ∈ n.inChannels
  swap
  · rw [if_pos hc, if_neg hc]
    exact ⟨rfl, .inl ⟨⟨_, rfl⟩, rfl, rfl, rfl⟩⟩
  rw [if_neg (not_not.mpr hc), if_pos hc, wp_bind]
  refine wp_recordIncomingEvents hs fun m => ?_
  rw [wp_bind, wp_get]
  by_cases hb : d.sender ∈ s.view.state.blockedChannels
  · rw [if_pos (by exact hb), if_pos hb]
    exact ⟨rfl, rfl⟩
  · rw [if_neg (by exact hb), if_neg hb]
    set s₁ : NodeSt σ τ IN OUT TS P := { s with metrics := m }
    refine wp_mono (handleEvents_refines (s := s₁) hs (WF.ready (v := s.view) h hc hb) hc)
      (fun _ _ h' => h') ?_
    rintro f s' ⟨hb', hstop⟩
    exact ⟨hb', hstop.mono (fun _ => rfl) (List.prefix_refl _) fun hcl => ⟨hc, hb, hcl⟩⟩

/-- **A message, as the actor takes it**: an `Err` is dropped, a panic ends the run. -/
theorem receive_refines (d : Delivery IN) (hs : s.Idle) (h : WF n s.state) :
    wp (receive n d)
      (fun _ s' => s'.view = (deliver n s.view d).dropErr ∧ s'.borrowed = s.borrowed)
      (fun f s' => ((∃ x, f = .crash x) ∨
        f = .alreadyBorrowed .metrics ∧ DeliverClashes n s.view d) ∧
          s'.marks <+: (deliver n s.view d).acts) s := by
  have hh := handle_refines d hs h
  rw [receive_eq]
  unfold wp logErr at *
  cases hx : handle n d s with
  | ok a s' =>
    rw [hx] at hh
    refine ⟨?_, hh.2⟩
    rw [View.dropErr, ← hh.1]
    rfl
  | error f s' =>
    rw [hx] at hh
    rcases hh with ⟨hb, ⟨⟨msg, rfl⟩, -, hst, hm⟩ | ⟨hf, hm⟩⟩
    · refine ⟨?_, hb⟩
      simp only [NodeSt.view, View.dropErr, hst, hm]
    · rcases hf with ⟨x, rfl⟩ | ⟨rfl, hcl⟩
      · exact ⟨.inl ⟨x, rfl⟩, hm⟩
      · exact ⟨.inr ⟨rfl, hcl⟩, hm⟩

end Events

/-! ## Fresh nodes -/

theorem mem_initWatermark (ms : AList fun _ : NodeID => Watermark) (c c' : NodeID) :
    c' ∈ initWatermark ms c ↔ c' = c ∨ c' ∈ ms := by
  unfold initWatermark
  split_ifs with h
  · constructor
    · exact .inr
    · rintro (rfl | h')
      · exact h
      · exact h'
  · exact AList.mem_insert _

theorem mem_initWatermarks (cs : List NodeID) (ms : AList fun _ : NodeID => Watermark)
    (c : NodeID) : c ∈ cs.foldl initWatermark ms ↔ c ∈ cs ∨ c ∈ ms := by
  induction cs generalizing ms with
  | nil => simp
  | cons c₁ cs ih =>
    rw [List.foldl_cons, ih, mem_initWatermark, List.mem_cons]
    tauto

theorem lookup_initWatermarks {cs : List NodeID} {ms : AList fun _ : NodeID => Watermark}
    (hms : ∀ c w, ms.lookup c = some w → w = 0) {c : NodeID} {w : Watermark}
    (h : (cs.foldl initWatermark ms).lookup c = some w) : w = 0 := by
  induction cs generalizing ms with
  | nil => exact hms c w h
  | cons c₁ cs ih =>
    refine ih (fun c' w' h' => ?_) h
    unfold initWatermark at h'
    split_ifs at h' with hm
    · exact hms c' w' h'
    · by_cases hcc : c' = c₁
      · rw [hcc, AList.lookup_insert] at h'
        exact (Option.some.inj h').symm
      · rw [AList.lookup_insert_ne hcc] at h'
        exact hms c' w' h'

/-- A node that `Node::new` has built on an empty backend. -/
def Fresh [TimerBackend τ TS P] (n : Node σ TS IN OUT) (s : NodeSt σ τ IN OUT TS P) : Prop :=
  ∃ op timer, Node.new n (NodeState.new IN) op timer = .ok s

theorem filterStart_fresh (inChannels : List NodeID) :
    Fresh (filterNode inChannels) (filterStart inChannels) := ⟨(), (), rfl⟩

section Fresh

variable [TimerBackend τ TS P]

/-- **What `Node::new` builds**, once the timer is initialised. -/
theorem new_ok {st : NodeState IN} {op : σ} {timer : τ} (h : Node.new n st op timer = .ok s) :
    ∃ t, TimerBackend.init timer = .ok () t ∧ s =
      { state :=
          { st with
            watermarks := n.inChannels.foldl initWatermark st.watermarks
            currentWatermark := some (st.currentWatermark.getD 0)
            currentEpoch := some (st.currentEpoch.getD 0) }
        ctx := ⟨n.operator.init op, t, []⟩
        metrics := { NodeMetrics.new with inboundChannels := n.inChannels.length }
        borrowed := fun _ => false
        checkpoints := [] } := by
  unfold Node.new at h
  cases ht : (TimerBackend.init timer : EStateM.Result Crash τ Unit) with
  | error e t => rw [ht] at h; cases h
  | ok a t =>
    rw [ht] at h
    cases h
    exact ⟨t, rfl, rfl⟩

/-- **What a fresh node looks like.** -/
theorem Fresh.eq (h : Fresh n s) :
    s.state = ⟨n.inChannels.foldl initWatermark ∅, some 0, some 0, ∅, []⟩ ∧ s.Idle ∧
      s.ctx.log = [] ∧ s.checkpoints = [] := by
  obtain ⟨op, timer, h⟩ := h
  obtain ⟨t, -, rfl⟩ := new_ok h
  exact ⟨rfl, fun _ => rfl, rfl, rfl⟩

theorem Fresh.view (h : Fresh n s) :
    s.view = ⟨⟨n.inChannels.foldl initWatermark ∅, some 0, some 0, ∅, []⟩, [], false⟩ := by
  obtain ⟨hst, -, hlog, -⟩ := h.eq
  simp only [NodeSt.view, NodeSt.marks, hst, hlog]
  rfl

theorem Fresh.watermark (h : Fresh n s) (c : NodeID) : s.state.watermark c = 0 := by
  rw [h.eq.1]
  unfold NodeState.watermark
  cases hl : (n.inChannels.foldl initWatermark ∅).lookup c with
  | none => rfl
  | some w =>
    refine lookup_initWatermarks (fun c w h => ?_) hl
    rw [AList.lookup_empty] at h
    cases h

theorem Fresh.wf (h : Fresh n s) : WF n s.state := by
  have hzero := h.watermark
  rw [h.eq.1] at hzero ⊢
  have hmem : ∀ c, c ∈ n.inChannels.foldl initWatermark ∅ ↔ c ∈ n.inChannels := by
    intro c
    rw [mem_initWatermarks]
    simp [AList.notMem_empty]
  refine ⟨⟨hmem, rfl, rfl, fun c _ => Nat.zero_le _, fun hne => ?_⟩, Finset.empty_subset _,
    by simp⟩
  obtain ⟨c, hc⟩ := List.exists_mem_of_ne_nil _ hne
  exact ⟨c, hc, hzero c⟩

/-! ## Runs -/

/-- **The invariant rule for runs of the actor.** `I` holds of the messages received so far and the
view of the node. At a panic the acts of the node are a first part of those the machine would have
come to with this message. -/
theorem wp_run (ds : List (Delivery IN)) {I : List (Delivery IN) → View IN OUT TS → Prop}
    (hs : s.Idle) (hwf : WF n s.state) (init : I [] s.view)
    (hstep : ∀ done d rest s', ds = done ++ d :: rest → run n done s = .ok () s' →
      WF n s'.state → I done s'.view → I (done ++ [d]) (deliver n s'.view d).dropErr) :
    wp (run n ds) (fun _ s' => I ds s'.view ∧ WF n s'.state)
      (fun f s' => ∃ done d rest s₁, ds = done ++ d :: rest ∧ run n done s = .ok () s₁ ∧
        I done s₁.view ∧ WF n s₁.state ∧ s'.marks <+: (deliver n s₁.view d).acts ∧
        ((∃ x, f = .crash x) ∨ f = .alreadyBorrowed .metrics ∧ DeliverClashes n s₁.view d)) s := by
  refine wp_mono (wp_forM_done (J := fun done (s' : NodeSt σ τ IN OUT TS P) =>
    I done s'.view ∧ WF n s'.state ∧ s'.borrowed = s.borrowed) ⟨init, hwf, rfl⟩ ?_)
    (fun _ _ h => ⟨h.1, h.2.1⟩) (fun _ _ h => h)
  rintro done d rest s₁ hds hrun ⟨hI, hwf₁, hb⟩
  refine wp_mono (receive_refines d (hs.of_borrowed hb) hwf₁) ?_ ?_
  · rintro _ s' ⟨hv, hb'⟩
    have hst : s'.state = (deliver n s₁.view d).state := by
      rw [show s'.state = s'.view.state from rfl, hv]
      rfl
    refine ⟨?_, ?_, hb'.trans hb⟩
    · rw [hv]
      exact hstep done d rest s₁ hds hrun hwf₁ hI
    · rw [hst]
      exact WF.deliver (v := s₁.view) hwf₁ d
  · rintro f s' ⟨hf, hm⟩
    exact ⟨done, d, rest, s₁, hds, hrun, hI, hwf₁, hm, hf⟩

/-- A condition on the state each message of a run meets, from the states the run leads through. -/
theorem along_of_take {ds : List (Delivery IN)} {C : NodeState IN → Delivery IN → Prop}
    (h : ∀ i : Fin ds.length, C (final (run n (ds.take i) s)).state (ds.get i)) :
    ∀ done d rest s', ds = done ++ d :: rest → run n done s = .ok () s' → C s'.state d := by
  intro done d rest s' hds hrun
  have hlt : done.length < ds.length := by
    rw [hds]
    simp
  have := h ⟨done.length, hlt⟩
  have htake : ds.take done.length = done := by rw [hds]; simp
  have hget : ds.get ⟨done.length, hlt⟩ = d := by
    rw [List.get_eq_getElem]
    simp [hds]
  rw [htake, hrun, hget] at this
  exact this

/-- **The invariant rule for runs without an `Err`.** -/
theorem wp_runOk (ds : List (Delivery IN)) {I : List (Delivery IN) → View IN OUT TS → Prop}
    (hs : s.Idle) (hwf : WF n s.state) (init : I [] s.view)
    (hstep : ∀ done d v, v.failed = false → WF n v.state → I done v →
      (deliver n v d).failed = false → I (done ++ [d]) (deliver n v d)) :
    wp (runOk n ds) (fun _ s' => I ds s'.view ∧ WF n s'.state ∧ s'.Idle) (fun _ _ => True) s := by
  refine wp_mono (wp_forM_done (J := fun done (s' : NodeSt σ τ IN OUT TS P) =>
    I done s'.view ∧ WF n s'.state ∧ s'.Idle) ⟨init, hwf, hs⟩ ?_)
    (fun _ _ h => h) (fun _ _ h => h)
  rintro done d rest s₁ - - ⟨hI, hwf₁, hs₁⟩
  refine wp_mono (handle_refines d hs₁ hwf₁) ?_ (fun _ _ _ => trivial)
  rintro _ s' ⟨hv, hb⟩
  have hwf' := WF.deliver (v := s₁.view) hwf₁ d
  rw [← hv] at hwf'
  refine ⟨?_, hwf', hs₁.of_borrowed hb⟩
  rw [hv]
  exact hstep done d s₁.view rfl hwf₁ hI (by rw [← hv]; rfl)

end Fresh

end Control

end Arcon
