import Arcon.Node.Fifo

/-!
# Failed checkpoints

The epoch step blocks the last channel before it calls `save_state`, and only `after_state_save`
opens the channels again. Where the checkpoint fails, the `?` leaves the step between the two: all
channels stay blocked, every later message goes to the buffer, and no marker is looked at any more.
So nothing is iterated over any more either, and what was up to there is not torn: whatever fails,
it is the first part of what was received.

* `events_wedged`: after an `Err` out of a message, every channel is blocked.
* `run_iterOf`: in every run the events that were iterated over are, channel by channel, the first
  part of those that were received.
* `never_wedged`: a run keeps a channel open exactly if each checkpoint it comes to can be written.
* `checkpoint_wedges`: a run that ends with nothing open.
-/

namespace Arcon

open Exec Node

namespace Control

variable {σ τ TS IN OUT P : Type} {n : Node σ TS IN OUT} {v : View IN OUT TS} {c : NodeID}

/-- Some in-channel is not blocked. -/
def Open (n : Node σ TS IN OUT) (st : NodeState IN) : Prop :=
  ∃ c ∈ n.inChannels, c ∉ st.blockedChannels

/-- Each checkpoint that the message comes to can be written: wherever one of its markers completes
an epoch, in the state its earlier events lead to. -/
def CheckpointsWritten (n : Node σ TS IN OUT) (v : View IN OUT TS) (d : Delivery IN) : Prop :=
  d.sender ∈ n.inChannels → d.sender ∉ v.state.blockedChannels →
    ∀ before e after, d.events = before ++ .epoch e :: after →
      Completes n (events n v d.sender before).state d.sender e → Saves n e

/-- Channels are open as long as not all of them are blocked. -/
theorem open_of_card (hnd : n.inChannels.Nodup) {st : NodeState IN}
    (h : st.blockedChannels.card < n.inChannels.length) : Open n st := by
  by_contra hno
  have hsub : n.inChannels.toFinset ⊆ st.blockedChannels := by
    intro c hc
    by_contra hb
    exact hno ⟨c, List.mem_toFinset.mp hc, hb⟩
  have hle := Finset.card_le_card hsub
  rw [List.toFinset_card_of_nodup hnd] at hle
  omega

/-- Nothing is open once as many are blocked as there are. -/
theorem not_open_of_card {st : NodeState IN}
    (hsub : st.blockedChannels ⊆ n.inChannels.toFinset)
    (h : st.blockedChannels.card = n.inChannels.length) : ¬Open n st := by
  rintro ⟨c, hc, hb⟩
  have := card_lt_of_not_mem hsub hc hb
  omega

theorem events_snoc (before : List (ArconEvent IN)) (ev : ArconEvent IN) :
    events n v c (before ++ [ev]) = event n (events n v c before) c ev := by
  unfold events
  rw [List.foldl_append]
  rfl

/-- **After an `Err` every channel is blocked.** -/
theorem events_wedged (hf : v.failed = false) (evs : List (ArconEvent IN))
    (hfail : (events n v c evs).failed = true) :
    (events n v c evs).state.blockedChannels.card = n.inChannels.length := by
  induction evs using List.reverseRecOn with
  | nil => exact absurd hfail (by rw [show (events n v c []).failed = false from hf]; simp)
  | append_singleton evs ev ih =>
    rw [events_snoc] at hfail ⊢
    cases hprev : (events n v c evs).failed with
    | true =>
      have hsame : event n (events n v c evs) c ev = events n v c evs := by
        simp [event, hprev]
      rw [hsame]
      exact ih hprev
    | false =>
      obtain ⟨-, he⟩ | ⟨e, rfl, hcomp, ⟨-, he⟩ | ⟨-, he⟩⟩ := event_cases (n := n) c ev hprev
      · rw [he, step_failed, hprev] at hfail
        cases hfail
      · rw [he, proceed, replay_failed] at hfail
        change (events n v c evs).failed = true at hfail
        rw [hprev] at hfail
        cases hfail
      · rw [he]
        exact hcomp.2

/-- No `Err` where every checkpoint is written. -/
theorem events_not_failed (hf : v.failed = false) (evs : List (ArconEvent IN))
    (hsave : ∀ before e after, evs = before ++ .epoch e :: after →
      Completes n (events n v c before).state c e → Saves n e) :
    (events n v c evs).failed = false := by
  induction evs using List.reverseRecOn with
  | nil => exact hf
  | append_singleton evs ev ih =>
    have hprev := ih fun before e after h => hsave before e (after ++ [ev]) (by rw [h]; simp)
    rw [events_snoc]
    obtain ⟨-, he⟩ | ⟨e, rfl, hcomp, ⟨-, he⟩ | ⟨hno, he⟩⟩ := event_cases (n := n) c ev hprev
    · rw [he, step_failed, hprev]
    · rw [he, proceed, replay_failed]
      exact hprev
    · exact absurd (hsave evs e [] rfl hcomp) hno

/-- An `Err` where one is not. -/
theorem events_failed_of_unsaved {before : List (ArconEvent IN)} {e : Epoch}
    (hcomp : Completes n (events n v c before).state c e) (hno : ¬Saves n e)
    (after : List (ArconEvent IN)) :
    (events n v c (before ++ .epoch e :: after)).failed = true := by
  have hev : (event n (events n v c before) c (.epoch e)).failed = true := by
    cases hprev : (events n v c before).failed with
    | true => simp [event, hprev]
    | false => rw [event_complete hprev hcomp, if_neg hno]
  have hsplit : events n v c (before ++ .epoch e :: after) =
      events n (event n (events n v c before) c (.epoch e)) c after := by
    unfold events
    rw [List.foldl_append, List.foldl_cons]
  rw [hsplit, events_failed hev]
  exact hev

/-- **One message**: a channel stays open exactly if the checkpoints are written. -/
theorem deliver_open (hnd : n.inChannels.Nodup) (hwf : WF n v.state) (hf : v.failed = false)
    (hopen : Open n v.state) (d : Delivery IN) :
    Open n (deliver n v d).state ↔ CheckpointsWritten n v d := by
  obtain ⟨hc, he⟩ | ⟨hc, ⟨hb, he⟩ | ⟨hb, he⟩⟩ := deliver_cases (n := n) v d
  · rw [he]
    exact iff_of_true hopen fun h => absurd h hc
  · rw [he]
    exact iff_of_true hopen fun _ h => absurd hb h
  · rw [he]
    have hgood : Good n (events n v d.sender d.events) :=
      Good.events ⟨hwf, fun _ => hwf.ready hc hb⟩ hc d.events
    refine ⟨fun h _ _ before e after hev hcomp => ?_, fun h => ?_⟩
    · by_contra hno
      have hfail := events_failed_of_unsaved hcomp hno after
      rw [← hev] at hfail
      exact not_open_of_card hgood.wf.blocked (events_wedged hf d.events hfail) h
    · exact open_of_card hnd (hgood.ready (events_not_failed hf d.events (h hc hb))).free

/-! ## What was iterated over -/

/-- The events received from a channel of the node. -/
def due (n : Node σ TS IN OUT) (c : NodeID) (ds : List (Delivery IN)) : List (ArconEvent IN) :=
  if c ∈ n.inChannels then received c ds else []

theorem due_snoc {d : Delivery IN} (hd : d.sender ∈ n.inChannels) (c : NodeID)
    (ds : List (Delivery IN)) :
    due n c (ds ++ [d]) = due n c ds ++ if d.sender = c then d.events else [] := by
  unfold due
  rw [received_append]
  by_cases hc : d.sender = c
  · have hmem : c ∈ n.inChannels := hc ▸ hd
    rw [if_pos hmem, if_pos hmem]
  · rw [if_neg hc, List.append_nil, List.append_nil]

theorem due_snoc_of_not_mem {d : Delivery IN} (hd : d.sender ∉ n.inChannels) (c : NodeID)
    (ds : List (Delivery IN)) : due n c (ds ++ [d]) = due n c ds := by
  unfold due
  rw [received_append]
  split_ifs with hc hsender
  · exact absurd (hsender ▸ hc) hd
  · exact List.append_nil _
  · rfl

/-- What was iterated over is the first part of what was received, and while some channel is open
the rest is in the buffer. -/
structure Kept (n : Node σ TS IN OUT) (done : List (Delivery IN)) (v : View IN OUT TS) : Prop where
  seen : ∀ c, iterOf c v.acts <+: due n c done
  all : Open n v.state → ∀ c, total c v = due n c done

/-- The events of a message, up to an `Err`. -/
theorem events_seen (hbuf : bufferedOf c v.state = []) (evs : List (ArconEvent IN)) :
    ∃ seen, seen <+: evs ∧
      ∀ q, total q (events n v c evs) = total q v ++ if c = q then seen else [] := by
  induction evs generalizing v with
  | nil => exact ⟨[], List.prefix_rfl, fun q => by rw [ite_self, List.append_nil]; rfl⟩
  | cons ev evs ih =>
    cases hf : v.failed with
    | true =>
      refine ⟨[], List.nil_prefix, fun q => ?_⟩
      rw [events_failed hf, ite_self, List.append_nil]
    | false =>
      have hone := fun q => event_total (n := n) (c := q) hf hbuf ev
      obtain ⟨seen, hpre, htot⟩ := ih (hone c).2
      refine ⟨ev :: seen, (List.prefix_cons_inj ev).mpr hpre, fun q => (htot q).trans ?_⟩
      rw [(hone q).1, List.append_assoc]
      by_cases hq : c = q <;> simp [hq]

/-- **One message.** -/
theorem Kept.deliver {done : List (Delivery IN)} (h : Kept n done v) (hwf : WF n v.state)
    (hf : v.failed = false) (d : Delivery IN) :
    Kept n (done ++ [d]) (deliver n v d).dropErr := by
  obtain ⟨hc, he⟩ | ⟨hc, ⟨-, he⟩ | ⟨hb, he⟩⟩ := deliver_cases (n := n) v d
  · -- the message is refused
    rw [he]
    refine ⟨fun q => ?_, fun hopen q => ?_⟩
    · rw [due_snoc_of_not_mem hc]
      exact h.seen q
    · rw [due_snoc_of_not_mem hc]
      exact h.all hopen q
  · rw [he]
    refine ⟨fun q => ?_, fun hopen q => ?_⟩
    · rw [due_snoc hc]
      exact (h.seen q).trans (List.prefix_append _ _)
    · have htot : total q (v.put (buffered v.state d.sender d.events)) =
          total q v ++ if d.sender = q then d.events else [] := total_buffered d.events
      rw [due_snoc hc, ← h.all hopen q]
      exact htot
  · have hall := h.all ⟨d.sender, hc, hb⟩
    have hbuf := hwf.bufferedOf_eq_nil hb
    rw [he]
    refine ⟨fun q => ?_, fun hopen q => ?_⟩
    · obtain ⟨seen, hpre, htot⟩ := events_seen (n := n) hbuf d.events
      rw [due_snoc hc, ← hall q]
      have htail : (if d.sender = q then seen else []) <+:
          if d.sender = q then d.events else [] := by
        split_ifs
        · exact hpre
        · exact List.prefix_rfl
      calc iterOf q (events n v d.sender d.events).acts
          <+: total q (events n v d.sender d.events) := List.prefix_append _ _
        _ = total q v ++ if d.sender = q then seen else [] := htot q
        _ <+: total q v ++ if d.sender = q then d.events else [] :=
          (List.prefix_append_right_inj _).mpr htail
    · have hgood : Good n (events n v d.sender d.events) :=
        Good.events ⟨hwf, fun _ => hwf.ready hc hb⟩ hc d.events
      rw [due_snoc hc, ← hall q]
      refine events_total hbuf d.events ?_
      by_contra hfail
      rw [Bool.not_eq_false] at hfail
      exact not_open_of_card hgood.wf.blocked (events_wedged hf d.events hfail) hopen

/-! ## Runs -/

variable [TimerBackend τ TS P] {s₀ s : NodeSt σ τ IN OUT TS P} {ds : List (Delivery IN)}

/-- One message leads where it leads the machine. -/
theorem receive_state (hs : s.Idle) (hwf : WF n s.state) (d : Delivery IN) :
    wp (receive n d) (fun _ s' => s'.state = (deliver n s.view d).state ∧ WF n s'.state ∧ s'.Idle)
      (fun _ _ => True) s := by
  refine wp_mono (receive_refines d hs hwf) ?_ (fun _ _ _ => trivial)
  rintro _ s' ⟨hv, hb⟩
  have hst : s'.state = (deliver n s.view d).state := congrArg View.state hv
  refine ⟨hst, ?_, hs.of_borrowed hb⟩
  rw [hst]
  exact WF.deliver (v := s.view) hwf d

theorem run_wf (hs : s.Idle) (hwf : WF n s.state) (ds : List (Delivery IN)) :
    wp (run n ds) (fun _ s' => WF n s'.state ∧ s'.Idle) (fun _ _ => True) s := by
  refine wp_forM (I := fun _ (s' : NodeSt σ τ IN OUT TS P) => WF n s'.state ∧ s'.Idle) ?_ ⟨hwf, hs⟩
  rintro d - s' ⟨hwf', hs'⟩
  exact wp_mono (receive_state hs' hwf' d) (fun _ _ h => h.2) (fun _ _ _ => trivial)

/-- Where one message of a run leads, if the run goes on. -/
theorem run_at (hs : s₀.Idle) (hwf : WF n s₀.state) {done : List (Delivery IN)}
    {d : Delivery IN} (rest : List (Delivery IN)) (hrun : run n (done ++ d :: rest) s₀ = .ok () s) :
    ∃ s₁ s₂, run n done s₀ = .ok () s₁ ∧ run n (done ++ [d]) s₀ = .ok () s₂ ∧ WF n s₁.state ∧
      s₂.state = (deliver n s₁.view d).state := by
  have hsplit : ∀ rest', run n (done ++ d :: rest') s₀ =
      (run n done >>= fun _ => receive n d >>= fun _ => run n rest') s₀ := by
    intro rest'
    unfold run
    rw [List.forM_append, List.forM_cons]
  rw [hsplit] at hrun
  cases hdone : run n done s₀ with
  | error f s₁ =>
    rw [bind_error hdone] at hrun
    cases hrun
  | ok _ s₁ =>
    obtain ⟨hwf₁, hs₁⟩ := wp_ok (run_wf hs hwf done) hdone
    rw [bind_ok hdone] at hrun
    cases hd : receive n d s₁ with
    | error f s₂ =>
      rw [bind_error hd] at hrun
      cases hrun
    | ok _ s₂ =>
      refine ⟨s₁, s₂, rfl, ?_, hwf₁, (wp_ok (receive_state hs₁ hwf₁ d) hd).1⟩
      rw [hsplit [], bind_ok hdone, bind_ok hd]
      rfl

/-- **What was iterated over in a run**, also after a failed checkpoint. -/
theorem run_iterOf (hfresh : Fresh n s₀) (hrun : run n ds s₀ = .ok () s) (c : NodeID) :
    iterOf c s.ctx.log <+: due n c ds := by
  have hinv := (wp_ok (wp_run ds (I := fun done v => Kept n done v) hfresh.eq.2.1 hfresh.wf ?_
    fun _ d _ _ _ _ hwf h => h.deliver hwf rfl d) hrun).1
  · rw [← iterOf_filter_isMark]
    exact hinv.seen c
  · have hnil : ∀ q, due n q [] = [] := fun q => by
      unfold due
      split_ifs <;> rfl
    rw [hfresh.view]
    exact ⟨fun q => List.nil_prefix, fun _ q => (hnil q).symm⟩

end Control

namespace Node

open Control

variable {σ τ TS IN OUT P : Type} [TimerBackend τ TS P] {n : Node σ TS IN OUT}
  {s₀ s : NodeSt σ τ IN OUT TS P} {ds : List (Delivery IN)}

/-- **A channel stays open** after every message of a run, exactly if every checkpoint the run comes
to can be written. -/
theorem never_wedged (hfresh : Fresh n s₀) (hnd : n.inChannels.Nodup) (hne : n.inChannels ≠ [])
    (hrun : run n ds s₀ = .ok () s) :
    (∀ done s₁, done <+: ds → run n done s₀ = .ok () s₁ → Open n s₁.state) ↔
      ∀ done d rest s₁, ds = done ++ d :: rest → run n done s₀ = .ok () s₁ →
        CheckpointsWritten n s₁.view d := by
  have hs := hfresh.eq.2.1
  refine ⟨fun hopen done d rest s₁ hds hdone => ?_, fun hsave done => ?_⟩
  · rw [hds] at hrun
    obtain ⟨s₁', s₂, hdone', hnext, hwf₁, hst⟩ := run_at hs hfresh.wf rest hrun
    obtain rfl : s₁' = s₁ := by
      rw [hdone] at hdone'
      cases hdone'
      rfl
    have ho₁ := hopen done s₁' (hds ▸ List.prefix_append _ _) hdone
    have ho₂ := hopen (done ++ [d]) s₂ (by rw [hds]; exact ⟨rest, by simp⟩) hnext
    rw [hst] at ho₂
    exact (deliver_open (v := s₁'.view) hnd hwf₁ rfl ho₁ d).mp ho₂
  · induction done using List.reverseRecOn with
    | nil =>
      intro s₁ _ h
      cases h
      obtain ⟨c, hc⟩ := List.exists_mem_of_ne_nil _ hne
      refine ⟨c, hc, ?_⟩
      rw [hfresh.eq.1]
      exact Finset.notMem_empty c
    | append_singleton done d ih =>
      rintro s₂ ⟨rest, hds⟩ hnext
      obtain ⟨s₁, s₂', hdone, hnext', hwf₁, hst⟩ := run_at hs hfresh.wf [] hnext
      obtain rfl : s₂' = s₂ := by
        rw [hnext] at hnext'
        cases hnext'
        rfl
      have ho₁ := ih s₁ ⟨d :: rest, by simpa using hds⟩ hdone
      rw [hst]
      exact (deliver_open (v := s₁.view) hnd hwf₁ rfl ho₁ d).mpr
        (hsave done d rest s₁ (by simpa using hds.symm) hdone)

/-- The messages of the run below: two channels come to an epoch, one before the other. -/
def alignedRun : List (Delivery Int) :=
  [.onLocal (.epoch 1 1), .onLocal (.element 12 (some 1) 1), .onLocal (.epoch 1 2)]

theorem never_wedged_aligned :
    isOk (run (filterNode [1, 2]) alignedRun (filterStart [1, 2])) = true ∧
      ∀ done s₁, done <+: alignedRun →
        run (filterNode [1, 2]) done (filterStart [1, 2]) = .ok () s₁ →
        Open (filterNode [1, 2]) s₁.state := by
  have hok : isOk (run (filterNode [1, 2]) alignedRun (filterStart [1, 2])) = true := by
    decide +kernel
  exact ⟨hok, (never_wedged (filterStart_fresh [1, 2]) (by decide) (by decide)
    (eq_ok_of_isOk hok)).mpr fun _ _ _ _ _ _ _ _ _ _ _ _ _ => ⟨by decide, rfl⟩⟩

/-- The filter node with a backend that cannot write checkpoints. -/
def failingNode (inChannels : List NodeID) : Node Unit Empty Int Int :=
  { filterNode inChannels with checkpointFails := fun _ => true }

/-- **Wedged**: after one marker and a failed checkpoint its only channel stays blocked. -/
theorem checkpoint_wedges :
    Fresh (failingNode [1]) (filterStart [1]) ∧ (failingNode [1]).inChannels.Nodup ∧
      isOk (run (failingNode [1]) [.onLocal (.epoch 1 1)] (filterStart [1])) = true ∧
      ¬Open (failingNode [1])
        (final (run (failingNode [1]) [.onLocal (.epoch 1 1)] (filterStart [1]))).state := by
  refine ⟨⟨(), (), rfl⟩, by decide, by decide +kernel, ?_⟩
  rintro ⟨c, hc, hb⟩
  obtain rfl : c = 1 := List.mem_singleton.mp hc
  revert hb
  decide +kernel

end Node

end Arcon
