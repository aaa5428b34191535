import Arcon.Node.Epoch

/-!
# Epoch alignment

Whenever `save_state` runs for an epoch, the events processed so far are, channel by channel, those
sent up to the channel's marker of this epoch: the checkpoint is a consistent cut (`ConsistentCut`).

The code gets there by blocking a channel once its marker has been seen. But `after_state_save`
replays the buffer without looking at `blocked_channels`: where a channel's buffered events go on
behind another marker, they are processed before the checkpoint they belong after
(`alignment_broken`). `epoch_alignment` is what the code does do: every run that never completes an
epoch in such a state takes consistent cuts only, also when checkpoints fail or the run panics.
-/

namespace Arcon

open Exec Node

variable {σ τ TS IN OUT P : Type}

/-- Control events come last. -/
def ControlLast (evs : List (ArconEvent IN)) : Prop := ∀ ev ∈ evs.dropLast, ev.isControl = false

/-- No event lies behind a marker. -/
def MarkerLast (evs : List (ArconEvent IN)) : Prop := ∀ ev ∈ evs.dropLast, ev.marker? = none

instance (evs : List (ArconEvent IN)) : Decidable (ControlLast evs) :=
  inferInstanceAs (Decidable (∀ ev ∈ evs.dropLast, _))

instance (evs : List (ArconEvent IN)) : Decidable (MarkerLast evs) :=
  inferInstanceAs (Decidable (∀ ev ∈ evs.dropLast, _))

theorem ControlLast.tail {ev : ArconEvent IN} {evs : List (ArconEvent IN)}
    (h : ControlLast (ev :: evs)) : ControlLast evs := by
  intro ev' hev'
  rcases evs with _ | ⟨ev₁, evs⟩
  · simp at hev'
  · exact h ev' (List.mem_cons_of_mem _ hev')

theorem ControlLast.eq_nil {ev : ArconEvent IN} {evs : List (ArconEvent IN)}
    (h : ControlLast (ev :: evs)) (hev : ev.isControl = true) : evs = [] := by
  rcases evs with _ | ⟨ev₁, evs⟩
  · rfl
  · have := h ev List.mem_cons_self
    rw [hev] at this
    cases this

theorem MarkerLast.of_append {evs₁ evs₂ : List (ArconEvent IN)} (h : MarkerLast (evs₁ ++ evs₂)) :
    MarkerLast evs₂ := by
  intro ev hev
  rcases evs₂ with _ | ⟨ev₁, evs₂⟩
  · simp at hev
  · refine h ev ?_
    rw [List.dropLast_append_cons]
    exact List.mem_append_right _ hev

theorem MarkerLast.eq_nil {e : Epoch} {evs : List (ArconEvent IN)}
    (h : MarkerLast (.epoch e :: evs)) : evs = [] := by
  rcases evs with _ | ⟨ev₁, evs⟩
  · rfl
  · have := h (.epoch e) List.mem_cons_self
    cases this

theorem mem_markers {e : Epoch} {evs : List (ArconEvent IN)} :
    e ∈ markers evs ↔ .epoch e ∈ evs := by
  unfold markers
  rw [List.mem_filterMap]
  constructor
  · rintro ⟨ev, hev, he⟩
    cases ev with
    | epoch e' => cases he; exact hev
    | _ => cases he
  · exact fun h => ⟨_, h, rfl⟩

namespace Control

variable {n : Node σ TS IN OUT} {v : View IN OUT TS} {c c' q : NodeID}

/-! ## Cuts -/

/-- At every `save_state`, the last event iterated over of each channel is its marker. -/
def Cuts (n : Node σ TS IN OUT) (l : List (Act IN OUT TS)) : Prop :=
  ∀ pre e post, l = pre ++ .saveState e :: post → ∀ c ∈ n.inChannels,
    ∃ before, iterOf c pre = before ++ [.epoch e] ∧ .epoch e ∉ before

theorem Cuts.snoc {l : List (Act IN OUT TS)} {a : Act IN OUT TS} (h : Cuts n l)
    (ha : ∀ e, a = .saveState e → ∀ c ∈ n.inChannels,
      ∃ before, iterOf c l = before ++ [.epoch e] ∧ .epoch e ∉ before) :
    Cuts n (l ++ [a]) := by
  intro pre e post hl c hc
  rcases List.eq_nil_or_concat post with rfl | ⟨post', b, rfl⟩
  · obtain ⟨rfl, hae⟩ := List.append_inj' hl rfl
    exact ha e (List.cons.inj hae).1 c hc
  · rw [List.concat_eq_append, ← List.cons_append, ← List.append_assoc] at hl
    obtain ⟨hl', -⟩ := List.append_inj' hl rfl
    exact h pre e post' hl' c hc

theorem Cuts.append {l l' : List (Act IN OUT TS)} (h : Cuts n l)
    (hl' : ∀ a ∈ l', ∀ e, a ≠ .saveState e) : Cuts n (l ++ l') := by
  induction l' generalizing l with
  | nil => rwa [List.append_nil]
  | cons a l' ih =>
    have hs : Cuts n (l ++ [a]) :=
      h.snoc fun e he => absurd he (hl' a List.mem_cons_self e)
    have := ih hs fun b hb => hl' b (List.mem_cons_of_mem _ hb)
    rwa [List.append_assoc] at this

theorem Cuts.of_prefix {l l' : List (Act IN OUT TS)} (h : Cuts n l') (hl : l <+: l') :
    Cuts n l := by
  obtain ⟨t, rfl⟩ := hl
  intro pre e post hl c hc
  exact h pre e (post ++ t) (by rw [hl, List.append_assoc]; rfl) c hc

theorem acts_saveState (st : NodeState IN) (ev : ArconEvent IN) :
    ∀ a ∈ (acts st c ev : List (Act IN OUT TS)), ∀ e, a ≠ .saveState e := by
  rintro a ha e rfl
  rcases List.mem_cons.mp ha with ha | ha
  · cases ha
  · cases ev <;> simp only at ha
    · split_ifs at ha <;> simp at ha
    · split_ifs at ha <;> simp at ha
    · simp at ha
    · simp at ha

/-! ## Aligned states -/

/-- The count, and of each blocked channel nothing behind its marker has been processed. -/
structure Aligned (n : Node σ TS IN OUT) (v : View IN OUT TS) : Prop where
  counted : Counted n v
  last : ∀ c ∈ n.inChannels, c ∈ v.state.blockedChannels →
    ∃ evs, iterOf c v.acts = evs ++ [.epoch (v.state.epoch + 1)]

/-- **An event on a free channel.** -/
theorem Aligned.step (h : Aligned n v) (hc' : c' ∈ n.inChannels)
    (hfree : c' ∉ v.state.blockedChannels) {ev : ArconEvent IN} {R rest : List (ArconEvent IN)}
    {k : Nat} (hR : markers R = List.range' 1 k) (hpre : iterOf c' v.acts ++ ev :: rest <+: R) :
    Aligned n (step v c' ev) := by
  refine ⟨h.counted.step hc' (fun _ _ => hfree) hR hpre, fun c hc hb => ?_⟩
  rw [step_epoch, iterOf_step]
  by_cases hcc : c' = c
  · subst hcc
    -- the channel was free, so the event is the marker that blocked it
    refine ⟨iterOf c' v.acts, ?_⟩
    rw [if_pos rfl]
    congr 2
    rw [step_state, next_blockedChannels] at hb
    cases ev with
    | epoch e => rw [next_marker (h.counted.of_free hc' hfree) hR hpre]
    | _ => exact absurd hb hfree
  · rw [if_neg hcc, List.append_nil]
    refine h.last c hc ?_
    rcases Finset.mem_insert.mp (next_blocked_sub ev hb) with rfl | hb
    · exact absurd rfl hcc
    · exact hb

/-- A marker is not among the events before it. -/
theorem not_mem_before {evs : List (ArconEvent IN)} {j : Nat}
    (h : markers evs = List.range' 1 j) : .epoch (j + 1) ∉ evs := by
  intro hmem
  have := mem_markers.mpr hmem
  rw [h, List.mem_range'_1] at this
  omega

/-- **When an epoch completes, every channel is cut at its marker.** -/
theorem Aligned.cuts (h : Aligned n v) (hcut : Cuts n v.acts) (hnd : n.inChannels.Nodup)
    (hwf : WF n v.state) (hc' : c' ∈ n.inChannels) (hb : c' ∉ v.state.blockedChannels) {e : Epoch}
    (hcomp : Completes n v.state c' e) (he : e = v.state.epoch + 1) :
    Cuts n (complete v c' e).acts := by
  have hsplit : (complete v c' e).acts =
      (v.acts ++ [.iter c' (.epoch e), .handleEpoch e]) ++ [.saveState e] := by
    rw [complete_acts, List.append_assoc]
    rfl
  rw [hsplit]
  refine Cuts.snoc (hcut.append (by simp)) ?_
  rintro _ ⟨⟩ c hc
  by_cases hcc : c' = c
  · subst hcc
    refine ⟨iterOf c' v.acts, by simp [iterOf], ?_⟩
    rw [he]
    exact not_mem_before (h.counted.of_free hc' hb)
  · have hmem := hcomp.mem_blocked hnd hwf hc' hc fun h => hcc h.symm
    obtain ⟨evs, hevs⟩ := h.last c hc hmem
    refine ⟨evs, ?_, ?_⟩
    · rw [iterOf_append, hevs, he]
      simp [iterOf, hcc]
    · have hcount := h.counted.of_blocked hc hmem
      rw [hevs, markers_append, range'_one_succ] at hcount
      rw [he]
      exact not_mem_before (List.append_inj' hcount rfl).1

theorem Aligned.opened (h : Aligned n v) (hnd : n.inChannels.Nodup) (hwf : WF n v.state)
    (hc' : c' ∈ n.inChannels) (hb : c' ∉ v.state.blockedChannels) {e : Epoch}
    (hcomp : Completes n v.state c' e) (he : e = v.state.epoch + 1) :
    Aligned n (Control.opened (complete v c' e) e) :=
  ⟨h.counted.opened hnd hwf hc' hb hcomp he, fun _ _ hmem => absurd hmem (Finset.notMem_empty _)⟩

/-! ## Replays and messages -/

/-- What holds during a replay with the events `ts` still to come: no channel goes on behind its
next marker. -/
structure AlignedReplay (n : Node σ TS IN OUT) (R : NodeID → List (ArconEvent IN)) (q : NodeID)
    (ts : List (NodeID × ArconEvent IN)) (v : View IN OUT TS) : Prop where
  inReplay : InReplay n q ts v.state
  aligned : Aligned n v
  cuts : Cuts n v.acts
  pending : ∀ c ∈ n.inChannels, iterOf c v.acts ++ eventsOf c ts <+: R c
  markerLast : ∀ c, MarkerLast (eventsOf c ts)
  free : ∀ c ∈ v.state.blockedChannels, eventsOf c ts = []

theorem AlignedReplay.step {R : NodeID → List (ArconEvent IN)} (hR : Numbered n R)
    {t : NodeID × ArconEvent IN} {ts : List (NodeID × ArconEvent IN)}
    (h : AlignedReplay n R q (t :: ts) v) : AlignedReplay n R q ts (step v t.1 t.2) := by
  obtain ⟨ht, -⟩ := h.inReplay.senders t List.mem_cons_self
  have hcons : eventsOf t.1 (t :: ts) = t.2 :: eventsOf t.1 ts := by
    rw [eventsOf_cons, if_pos rfl]
    rfl
  have hfree : t.1 ∉ v.state.blockedChannels := by
    intro hb
    have := h.free t.1 hb
    rw [hcons] at this
    cases this
  obtain ⟨k, hk⟩ := hR t.1 ht
  have hpre := h.pending t.1 ht
  rw [hcons] at hpre
  refine ⟨h.inReplay.next, h.aligned.step ht hfree hk hpre, ?_, fun c hc => ?_, fun c => ?_,
    fun c hb => ?_⟩
  · exact h.cuts.append (acts_saveState v.state t.2)
  · have := h.pending c hc
    rwa [eventsOf_cons, ← List.append_assoc, ← iterOf_step] at this
  · have := h.markerLast c
    rw [eventsOf_cons] at this
    exact this.of_append
  · by_cases hcc : c = t.1
    · -- only a marker can have blocked the channel, and it was the last of its events
      subst hcc
      rw [step_state, next_blockedChannels] at hb
      have hlast := h.markerLast t.1
      rw [hcons] at hlast
      cases hev : t.2 with
      | epoch e => rw [hev] at hlast; exact hlast.eq_nil
      | _ => rw [hev] at hb; exact absurd hb hfree
    · have hb' := (Finset.mem_insert.mp (next_blocked_sub t.2 hb)).resolve_left hcc
      have := h.free c hb'
      rw [eventsOf_cons] at this
      exact (List.append_eq_nil_iff.mp this).2

theorem AlignedReplay.replay {R : NodeID → List (ArconEvent IN)} (hR : Numbered n R)
    {ts : List (NodeID × ArconEvent IN)} (h : AlignedReplay n R q ts v) :
    AlignedReplay n R q [] (replay v ts) :=
  replay_rule (fun _ _ _ h => h.step hR) ts v h

/-- Every in-channel is blocked: a checkpoint has failed and no message is handled any more. -/
def Wedged (n : Node σ TS IN OUT) (v : View IN OUT TS) : Prop :=
  ∀ c ∈ n.inChannels, c ∈ v.state.blockedChannels

/-- A channel with nothing buffered and an event at hand: the event is the next it receives. -/
theorem pending_head {R rest : List (ArconEvent IN)} {ev : ArconEvent IN}
    (hbuf : bufferedOf c' v.state = [])
    (hpend : total c' v ++ (if c' = c' then ev :: rest else []) <+: R) :
    iterOf c' v.acts ++ ev :: rest <+: R := by
  rwa [total, hbuf, List.append_nil, if_pos rfl] at hpend

/-- **Where the replay of a completed checkpoint starts**: behind the markers stands what is
buffered. -/
theorem AlignedReplay.start {R : NodeID → List (ArconEvent IN)} {e : Epoch}
    (hnd : n.inChannels.Nodup) (hc' : c' ∈ n.inChannels) (hready : Ready n v.state)
    (h : Aligned n v) (hfree : c' ∉ v.state.blockedChannels) (hcomp : Completes n v.state c' e)
    (hnext : e = v.state.epoch + 1) (hcuts : Cuts n (complete v c' e).acts)
    (hpend : ∀ c ∈ n.inChannels, total c v ++ (if c' = c then [.epoch e] else []) <+: R c)
    (hlast : ∀ c ∈ n.inChannels, MarkerLast (bufferedOf c v.state)) :
    AlignedReplay n R c' (tasks v.state.messageBuffer) (opened (complete v c' e) e) := by
  refine ⟨hready.inReplay hc' hcomp, h.opened hnd hready.toWF hc' hfree hcomp hnext,
    hcuts.append (by simp), fun c hc => ?_, fun c => ?_,
    fun c hb => absurd hb (Finset.notMem_empty _)⟩
  · have hp := hpend c hc
    rw [total] at hp
    rw [iterOf_opened, iterOf_complete]
    by_cases hcc : c' = c
    · subst hcc
      have hbuf : bufferedOf c' v.state = [] := hready.toWF.bufferedOf_eq_nil hfree
      rw [if_pos rfl] at hp ⊢
      rw [hbuf, List.append_nil] at hp
      rw [show eventsOf c' (tasks v.state.messageBuffer) = [] from hbuf, List.append_nil]
      exact hp
    · rw [if_neg hcc, List.append_nil] at hp ⊢
      exact hp
  · by_cases hc : c ∈ n.inChannels
    · exact hlast c hc
    · have hnil : bufferedOf c v.state = [] := hready.toWF.bufferedOf_eq_nil fun hb =>
        hc (List.mem_toFinset.mp (hready.blocked hb))
      show MarkerLast (bufferedOf c v.state)
      rw [hnil]
      simp [MarkerLast]

/-- **The last event of a message**: only a marker that completes its epoch does more than a
step. -/
theorem event_aligned {R : NodeID → List (ArconEvent IN)} (hR : Numbered n R)
    (hnd : n.inChannels.Nodup) (hc' : c' ∈ n.inChannels) (ev : ArconEvent IN)
    (hready : Ready n v.state) (hf : v.failed = false) (h : Aligned n v) (hcut : Cuts n v.acts)
    (hfree : c' ∉ v.state.blockedChannels)
    (hpend : ∀ c ∈ n.inChannels, total c v ++ (if c' = c then [ev] else []) <+: R c)
    (hlast : CompletesWith n v.state c' [ev] → ∀ c ∈ n.inChannels,
      MarkerLast (bufferedOf c v.state)) :
    Cuts n (event n v c' ev).acts ∧
      (Aligned n (event n v c' ev) ∨ Wedged n (event n v c' ev)) := by
  have hpre := pending_head (hready.toWF.bufferedOf_eq_nil hfree) (hpend c' hc')
  obtain ⟨k, hk⟩ := hR c' hc'
  obtain ⟨-, he⟩ | ⟨e, rfl, hcomp, hsave⟩ := event_cases (n := n) c' ev hf
  · rw [he]
    exact ⟨hcut.append (acts_saveState v.state ev), .inl (h.step hc' hfree hk hpre)⟩
  have hnext := next_marker (h.counted.of_free hc' hfree) hk hpre
  have hcuts := h.cuts hcut hnd hready.toWF hc' hfree hcomp hnext
  obtain ⟨-, he⟩ | ⟨-, he⟩ := hsave
  · -- the state is saved, and the replay runs to its end
    rw [he]
    have hstart := AlignedReplay.start hnd hc' hready h hfree hcomp hnext hcuts hpend
      (hlast ⟨e, List.mem_cons_self, hcomp⟩)
    have hend := hstart.replay hR
    exact ⟨hend.cuts, .inl hend.aligned⟩
  · rw [he]
    refine ⟨hcuts, .inr fun c hc => ?_⟩
    exact mem_of_card_eq hnd (insert_sub hready.blocked hc') hcomp.2 hc

/-- **The events of a message**, with control events last. -/
theorem events_aligned {R : NodeID → List (ArconEvent IN)} (hR : Numbered n R)
    (hnd : n.inChannels.Nodup) (hc' : c' ∈ n.inChannels) (evs : List (ArconEvent IN))
    (hready : Ready n v.state) (hf : v.failed = false) (h : Aligned n v) (hcut : Cuts n v.acts)
    (hfree : c' ∉ v.state.blockedChannels) (hcl : ControlLast evs)
    (hpend : ∀ c ∈ n.inChannels, total c v ++ (if c' = c then evs else []) <+: R c)
    (hlast : CompletesWith n v.state c' evs → ∀ c ∈ n.inChannels,
      MarkerLast (bufferedOf c v.state)) :
    Cuts n (events n v c' evs).acts ∧
      (Aligned n (events n v c' evs) ∨ Wedged n (events n v c' evs)) := by
  induction evs generalizing v with
  | nil => exact ⟨hcut, .inl h⟩
  | cons ev evs ih =>
    have hbuf : bufferedOf c' v.state = [] := hready.toWF.bufferedOf_eq_nil hfree
    rw [show events n v c' (ev :: evs) = events n (event n v c' ev) c' evs from rfl]
    by_cases hctl : ev.isControl = true
    · -- a control event ends the message
      obtain rfl : evs = [] := hcl.eq_nil hctl
      exact event_aligned hR hnd hc' ev hready hf h hcut hfree hpend hlast
    · -- an element changes nothing of the channels
      obtain ⟨x, rfl⟩ : ∃ x, ev = .element x := by
        cases ev with
        | element x => exact ⟨x, rfl⟩
        | _ => exact absurd rfl hctl
      have hpre := pending_head hbuf (hpend c' hc')
      obtain ⟨k, hk⟩ := hR c' hc'
      have he : event n v c' (.element x) = step v c' (.element x) := by simp [event, hf]
      rw [he]
      refine ih (v := step v c' (.element x)) hready hf (h.step hc' hfree hk hpre)
        (hcut.append (acts_saveState v.state _)) hfree hcl.tail (fun c hc => ?_) ?_
      · have htot := (event_total (n := n) (c := c) hf hbuf (.element x)).1
        rw [he] at htot
        rw [htot, List.append_assoc]
        have hp := hpend c hc
        by_cases hcc : c' = c
        · rw [if_pos hcc] at hp ⊢
          rw [if_pos hcc]
          exact hp
        · rw [if_neg hcc] at hp ⊢
          rw [if_neg hcc]
          exact hp
      · rintro ⟨e, hmem, hcomp⟩
        exact hlast ⟨e, hmem, hcomp⟩

/-- With control events last an `Err` comes behind the last event, so nothing is lost by it. -/
theorem events_total_last (hf : v.failed = false) (hbuf : bufferedOf c' v.state = [])
    {evs : List (ArconEvent IN)} (hcl : ControlLast evs) :
    total c (events n v c' evs) = total c v ++ if c' = c then evs else [] := by
  induction evs generalizing v with
  | nil => simp [events]
  | cons ev evs ih =>
    obtain ⟨htot, hbuf'⟩ := event_total (n := n) (c := c) hf hbuf ev
    rw [show events n v c' (ev :: evs) = events n (event n v c' ev) c' evs from rfl]
    by_cases hctl : ev.isControl = true
    · obtain rfl : evs = [] := hcl.eq_nil hctl
      exact htot
    · have hf' : (event n v c' ev).failed = false := by
        cases ev with
        | element x => simp [event, hf, step_failed]
        | _ => exact absurd rfl hctl
      rw [ih hf' hbuf' hcl.tail, htot]
      by_cases h : c' = c <;> simp [h]

/-- What holds between two messages of a run. -/
structure CutInv (n : Node σ TS IN OUT) (done : List (Delivery IN)) (v : View IN OUT TS) :
    Prop where
  total : ∀ c ∈ n.inChannels, total c v = received c done
  cuts : Cuts n v.acts
  state : Aligned n v ∨ Wedged n v

/-- The condition on a message and the state it meets: if it completes an epoch, no event of a
channel lies behind a marker of the same channel in the buffer. -/
def ReplayAligned (n : Node σ TS IN OUT) (st : NodeState IN) (d : Delivery IN) : Prop :=
  d.sender ∈ n.inChannels → d.sender ∉ st.blockedChannels →
    CompletesWith n st d.sender d.events → ∀ c ∈ n.inChannels, MarkerLast (bufferedOf c st)

instance (st : NodeState IN) (d : Delivery IN) : Decidable (ReplayAligned n st d) :=
  inferInstanceAs (Decidable (_ → _ → _ → ∀ c ∈ n.inChannels, _))

/-- **A message keeps the cuts consistent.** -/
theorem CutInv.deliver {done : List (Delivery IN)} {d : Delivery IN} {ds : List (Delivery IN)}
    (h : CutInv n done v) (hf : v.failed = false) (hwf : WF n v.state)
    (hnd : n.inChannels.Nodup) (hds : done ++ [d] <+: ds)
    (hR : Numbered n fun c => received c ds) (hcl : ControlLast d.events)
    (hcond : ReplayAligned n v.state d) : CutInv n (done ++ [d]) (deliver n v d) := by
  obtain ⟨hc, he⟩ | ⟨hc, ⟨hb, he⟩ | ⟨hb, he⟩⟩ := deliver_cases (n := n) v d
  · rw [he]
    refine ⟨fun c hc' => ?_, h.cuts, ?_⟩
    · rw [received_append, if_neg (by rintro rfl; exact hc hc'), List.append_nil]
      exact h.total c hc'
    · rcases h.state with ha | hw
      · exact .inl ⟨ha.counted, ha.last⟩
      · exact .inr hw
  · rw [he]
    refine ⟨fun c hc' => ?_, h.cuts, ?_⟩
    · rw [received_append, total_buffered, h.total c hc']
    · rcases h.state with ha | hw
      · exact .inl ⟨ha.counted, ha.last⟩
      · exact .inr hw
  · rw [he]
    have halign : Aligned n v := h.state.resolve_right fun hw => hb (hw _ hc)
    have htot : ∀ c, Control.total c (events n v d.sender d.events) =
        Control.total c v ++ if d.sender = c then d.events else [] := fun c =>
      events_total_last hf (hwf.bufferedOf_eq_nil hb) hcl
    have hpend : ∀ c ∈ n.inChannels,
        Control.total c v ++ (if d.sender = c then d.events else []) <+: received c ds := by
      intro c hc'
      rw [h.total c hc', ← received_append]
      exact received_mono c hds
    obtain ⟨hcuts, hstate⟩ := events_aligned hR hnd hc d.events (hwf.ready hc hb) hf halign h.cuts
      hb hcl hpend (hcond hc hb)
    refine ⟨fun c hc' => ?_, hcuts, hstate⟩
    rw [htot, received_append, h.total c hc']

end Control

namespace Node

open Control

variable [TimerBackend τ TS P] {n : Node σ TS IN OUT} {s₀ : NodeSt σ τ IN OUT TS P}

/-- The channels deliver in order: markers 1, 2, 3, …, control events last in a message. -/
structure InOrder (n : Node σ TS IN OUT) (ds : List (Delivery IN)) : Prop where
  numbered : Numbered n fun c => received c ds
  controlLast : ∀ d ∈ ds, ControlLast d.events

/-- **A consistent cut at every checkpoint**: whenever `save_state` is executed for epoch `e`, the
events of a channel that have been iterated over are those up to its marker of `e`. -/
def ConsistentCut (n : Node σ TS IN OUT) (ds : List (Delivery IN))
    (log : List (Act IN OUT TS)) : Prop :=
  ∀ pre e post, log = pre ++ .saveState e :: post → ∀ c ∈ n.inChannels, ∃ before after,
    received c ds = before ++ .epoch e :: after ∧ .epoch e ∉ before ∧
      iterOf c pre = before ++ [.epoch e]

omit [TimerBackend τ TS P] in
/-- Cuts in what a node has done are consistent with what it has received. -/
theorem consistentCut_of_cuts {s : NodeSt σ τ IN OUT TS P} {ds : List (Delivery IN)}
    {l : List (Act IN OUT TS)} (hl : s.marks <+: l) (hcuts : Cuts n l)
    (hrec : ∀ c ∈ n.inChannels, iterOf c l <+: received c ds) : ConsistentCut n ds s.ctx.log := by
  intro pre e post hlog c hc
  have hmarks : s.marks = pre.filter Act.isMark ++ .saveState e :: post.filter Act.isMark := by
    unfold NodeSt.marks
    rw [hlog, List.filter_append, List.filter_cons_of_pos rfl]
  obtain ⟨before, hbefore, hnot⟩ := hcuts.of_prefix hl _ e _ hmarks c hc
  rw [iterOf_filter_isMark] at hbefore
  have hpre : before ++ [.epoch e] <+: received c ds := by
    refine List.IsPrefix.trans ?_ (hrec c hc)
    refine List.IsPrefix.trans ?_ (hl.filterMap _)
    rw [hmarks, ← hbefore, ← iterOf_filter_isMark]
    unfold iterOf
    rw [List.filterMap_append]
    exact List.prefix_append _ _
  obtain ⟨after, hafter⟩ := hpre
  refine ⟨before, after, ?_, hnot, hbefore⟩
  rw [← hafter, List.append_assoc]
  rfl

/-- **Epoch alignment**, where it holds. Take any node with distinct in-channels and any run, to its
end or to a panic, in which the channels deliver in order. If no message completes an epoch while
the buffer holds an event behind a marker of the same channel, every checkpoint is a consistent
cut. -/
theorem epoch_alignment {ds : List (Delivery IN)} (hfresh : Fresh n s₀) (hnd : n.inChannels.Nodup)
    (hds : InOrder n ds)
    (hcond : ∀ done d rest s, ds = done ++ d :: rest → run n done s₀ = .ok () s →
      ReplayAligned n s.state d) :
    ConsistentCut n ds (final (run n ds s₀)).ctx.log := by
  have hpre : ∀ {done d rest}, ds = done ++ d :: rest → done ++ [d] <+: ds := by
    rintro done d rest rfl
    exact ⟨rest, by simp⟩
  have hwp := wp_run ds (I := CutInv n) hfresh.eq.2.1 hfresh.wf ?_ ?_
  · -- at the end of the run and at a panic alike, the acts are a first part of the machine's
    refine (wp_final (P := fun s : NodeSt σ τ IN OUT TS P => ConsistentCut n ds s.ctx.log)).mp
      (wp_mono hwp ?_ ?_)
    · rintro _ s ⟨h, -⟩
      refine consistentCut_of_cuts (List.prefix_refl _) h.cuts fun c hc => ?_
      rw [← h.total c hc]
      exact List.prefix_append _ _
    · rintro f s ⟨done, d, rest, s₁, hsplit, hrun, hI, hwf, hmarks, -⟩
      have hI' := hI.deliver rfl hwf hnd (hpre hsplit) hds.numbered
        (hds.controlLast d (by rw [hsplit]; simp)) (hcond done d rest s₁ hsplit hrun)
      refine consistentCut_of_cuts hmarks hI'.cuts fun c hc => ?_
      refine List.IsPrefix.trans ?_ (received_mono c (hpre hsplit))
      rw [← hI'.total c hc]
      exact List.prefix_append _ _
  · rw [hfresh.view]
    refine ⟨fun c _ => rfl, ?_, .inl ⟨fun c _ => rfl, ?_⟩⟩
    · intro pre e post hl
      simp at hl
    · intro c _ hb
      exact absurd hb (Finset.notMem_empty _)
  · intro done d rest s hsplit hrun hwf hI
    have hI' := hI.deliver rfl hwf hnd (hpre hsplit) hds.numbered
      (hds.controlLast d (by rw [hsplit]; simp)) (hcond done d rest s hsplit hrun)
    exact ⟨hI'.total, hI'.cuts, hI'.state.imp (fun h => ⟨h.counted, h.last⟩) (fun h => h)⟩

/-- A run of the filter node in which channel 1 sends an element and its second marker before
channel 2 sends its first one. -/
def waitingRun : List (Delivery Int) :=
  [.onLocal (.epoch 1 1), .onLocal (.element 7 (some 1) 1), .onLocal (.epoch 2 1),
    .onLocal (.epoch 1 2), .onLocal (.epoch 2 2)]

theorem epoch_alignment_waiting : ConsistentCut (filterNode [1, 2]) waitingRun
    (final (run (filterNode [1, 2]) waitingRun (filterStart [1, 2]))).ctx.log :=
  epoch_alignment (filterStart_fresh [1, 2]) (by decide)
    ⟨fun c hc => ⟨2, (by decide : ∀ c ∈ [1, 2], markers (received c waitingRun) = [1, 2]) c hc⟩,
      by decide⟩
    (along_of_take (by decide +kernel))

/-- A run of the filter node in which channel 1 sends its first two markers and an element, all
before the first marker of channel 2. -/
def overtakenRun : List (Delivery Int) :=
  [.onLocal (.epoch 1 1), .onLocal (.epoch 2 1), .onLocal (.element 7 (some 1) 1),
    .onLocal (.epoch 1 2), .onLocal (.epoch 2 2)]

/-- The checkpoint of epoch 2 holds the effect of the element sent after the marker of epoch 2: the
replay at the end of epoch 1 hands it to the operator while its channel is blocked again. -/
theorem alignment_broken :
    (filterNode [1, 2]).inChannels.Nodup ∧ InOrder (filterNode [1, 2]) overtakenRun ∧
      ¬ConsistentCut (filterNode [1, 2]) overtakenRun
        (final (run (filterNode [1, 2]) overtakenRun (filterStart [1, 2]))).ctx.log := by
  refine ⟨by decide, ⟨fun c hc => ⟨2, ?_⟩, by decide⟩, fun h => ?_⟩
  · exact (by decide : ∀ c ∈ [1, 2], markers (received c overtakenRun) = [1, 2]) c hc
  · set log := (final (run (filterNode [1, 2]) overtakenRun (filterStart [1, 2]))).ctx.log with hlog
    have hsplit : log = log.take 12 ++ .saveState 2 :: log.drop 13 := by
      rw [hlog]
      decide +kernel
    have hiter : (iterOf 1 (log.take 12)).getLast? = some (.element ⟨7, some 1⟩) := by
      rw [hlog]
      decide +kernel
    obtain ⟨before, after, -, -, hcut⟩ := h _ 2 _ hsplit 1 (by decide)
    rw [hcut, List.getLast?_append] at hiter
    simp at hiter

end Node

end Arcon
