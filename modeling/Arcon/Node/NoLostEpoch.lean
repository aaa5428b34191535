import Arcon.Node.Epoch

/-!
# No lost epoch

Once every channel has delivered the markers 1, …, k, the node is to have taken the checkpoints
1, …, k and forwarded these epochs, and to be idle again.

`blocked_channels` is a set: a second marker that is handled while its channel is blocked leaves no
trace, and its epoch never completes (`epoch_lost`). That happens to a channel two epochs ahead of
another one, when its markers are replayed together, and to a message with several markers.
`no_lost_epoch` is what the code does do: if at every step the markers fit (`Fits`), no epoch is
lost.
-/

namespace Arcon

open Exec Node

variable {σ τ TS IN OUT P : Type}

/-- The epochs the node forwarded. -/
def forwardedEpochs (l : List (Act IN OUT TS)) : List Epoch :=
  l.filterMap fun
    | .forward ev => ev.marker?
    | _ => none

/-- The epochs the node took a checkpoint of. -/
def checkpointed (l : List (Act IN OUT TS)) : List Epoch :=
  l.filterMap fun
    | .checkpoint e => some e
    | _ => none

/-- An element or an epoch marker. -/
def ArconEvent.isPlain : ArconEvent IN → Bool
  | .element _ => true
  | .epoch _ => true
  | _ => false

@[simp] theorem forwardedEpochs_append (l₁ l₂ : List (Act IN OUT TS)) :
    forwardedEpochs (l₁ ++ l₂) = forwardedEpochs l₁ ++ forwardedEpochs l₂ := List.filterMap_append

@[simp] theorem checkpointed_append (l₁ l₂ : List (Act IN OUT TS)) :
    checkpointed (l₁ ++ l₂) = checkpointed l₁ ++ checkpointed l₂ := List.filterMap_append

theorem forwardedEpochs_filter_isMark (l : List (Act IN OUT TS)) :
    forwardedEpochs (l.filter Act.isMark) = forwardedEpochs l := by
  unfold forwardedEpochs
  rw [List.filterMap_filter]
  refine List.filterMap_congr fun a _ => ?_
  cases a <;> simp [Act.isMark]

theorem checkpointed_filter_isMark (l : List (Act IN OUT TS)) :
    checkpointed (l.filter Act.isMark) = checkpointed l := by
  unfold checkpointed
  rw [List.filterMap_filter]
  refine List.filterMap_congr fun a _ => ?_
  cases a <;> simp [Act.isMark]

namespace Control

variable {n : Node σ TS IN OUT} {v : View IN OUT TS} {c c' q : NodeID}

/-- An event that completes no epoch forwards none and saves none. -/
theorem acts_epochs (st : NodeState IN) (ev : ArconEvent IN) :
    forwardedEpochs (acts st c ev : List (Act IN OUT TS)) = [] ∧
      checkpointed (acts st c ev : List (Act IN OUT TS)) = [] := by
  cases ev with
  | element e => simp only [acts]; split_ifs <;> exact ⟨rfl, rfl⟩
  | watermark w => simp only [acts]; split_ifs <;> exact ⟨rfl, rfl⟩
  | epoch e => exact ⟨rfl, rfl⟩
  | death msg => exact ⟨rfl, rfl⟩

/-- The count, and every epoch up to the current one is saved and forwarded. -/
structure Lossless (n : Node σ TS IN OUT) (v : View IN OUT TS) : Prop where
  counted : Counted n v
  forwarded : forwardedEpochs v.acts = List.range' 1 v.state.epoch
  saved : checkpointed v.acts = List.range' 1 v.state.epoch

/-- **A marker on a free channel**, and any other event, when it completes no epoch. -/
theorem Lossless.step (h : Lossless n v) (hc' : c' ∈ n.inChannels) {ev : ArconEvent IN}
    (hfree : ∀ e, ev = .epoch e → c' ∉ v.state.blockedChannels) {R rest : List (ArconEvent IN)}
    {k : Nat} (hR : markers R = List.range' 1 k) (hpre : iterOf c' v.acts ++ ev :: rest <+: R) :
    Lossless n (step v c' ev) := by
  obtain ⟨hfwd, hsav⟩ : forwardedEpochs (acts v.state c' ev : List (Act IN OUT TS)) = [] ∧
      checkpointed (acts v.state c' ev : List (Act IN OUT TS)) = [] := acts_epochs v.state ev
  refine ⟨h.counted.step hc' hfree hR hpre, ?_, ?_⟩
  · rw [step_acts, step_epoch, forwardedEpochs_append, hfwd, List.append_nil, h.forwarded]
  · rw [step_acts, step_epoch, checkpointed_append, hsav, List.append_nil, h.saved]

/-- **A completed epoch**, from the state in which its replay starts. -/
theorem Lossless.opened (h : Lossless n v) (hnd : n.inChannels.Nodup) (hwf : WF n v.state)
    (hc' : c' ∈ n.inChannels) (hb : c' ∉ v.state.blockedChannels) {e : Epoch}
    (hcomp : Completes n v.state c' e) (he : e = v.state.epoch + 1) :
    Lossless n (opened (complete v c' e) e) := by
  have hacts : (Control.opened (complete v c' e) e).acts = v.acts ++
      [.iter c' (.epoch e), .handleEpoch e, .saveState e, .checkpoint e, .forward (.epoch e)] := by
    rw [Control.opened, View.note_acts, View.put_acts, complete_acts, List.append_assoc]
    rfl
  have hepoch : (Control.opened (complete v c' e) e).state.epoch = v.state.epoch + 1 := by
    rw [← he]
    rfl
  refine ⟨h.counted.opened hnd hwf hc' hb hcomp he, ?_, ?_⟩
  · rw [hacts, hepoch, forwardedEpochs_append, h.forwarded, range'_one_succ, ← he]
    rfl
  · rw [hacts, hepoch, checkpointed_append, h.saved, range'_one_succ, ← he]
    rfl

/-! ## Replays -/

/-- What holds during a replay with the events `ts` still to come: no channel has more than one
marker behind `current_epoch`, seen or to come. -/
structure LosslessReplay (n : Node σ TS IN OUT) (R : NodeID → List (ArconEvent IN)) (q : NodeID)
    (ts : List (NodeID × ArconEvent IN)) (v : View IN OUT TS) : Prop where
  inReplay : InReplay n q ts v.state
  lossless : Lossless n v
  pending : ∀ c ∈ n.inChannels, iterOf c v.acts ++ eventsOf c ts <+: R c
  one : ∀ c ∈ n.inChannels, c ∈ v.state.blockedChannels → markers (eventsOf c ts) = []
  le_one : ∀ c ∈ n.inChannels, (markers (eventsOf c ts)).length ≤ 1

theorem LosslessReplay.step {R : NodeID → List (ArconEvent IN)}
    (hR : Numbered n R)
    {t : NodeID × ArconEvent IN} {ts : List (NodeID × ArconEvent IN)}
    (h : LosslessReplay n R q (t :: ts) v) : LosslessReplay n R q ts (step v t.1 t.2) := by
  obtain ⟨ht, -⟩ := h.inReplay.senders t List.mem_cons_self
  have hcons : eventsOf t.1 (t :: ts) = t.2 :: eventsOf t.1 ts := by
    rw [eventsOf_cons, if_pos rfl]
    rfl
  have hfree : ∀ e, t.2 = .epoch e → t.1 ∉ v.state.blockedChannels := by
    intro e he hb
    have := h.one t.1 ht hb
    rw [hcons, he, markers_cons_epoch] at this
    cases this
  obtain ⟨k, hk⟩ := hR t.1 ht
  have hpre := h.pending t.1 ht
  rw [hcons] at hpre
  refine ⟨h.inReplay.next, h.lossless.step ht hfree hk hpre, fun c hc => ?_, fun c hc hb => ?_,
    fun c hc => ?_⟩
  · have := h.pending c hc
    rwa [eventsOf_cons, ← List.append_assoc, ← iterOf_step] at this
  · by_cases hcc : c = t.1
    · subst hcc
      rw [step_state, next_blockedChannels] at hb
      have hone := h.le_one t.1 ht
      rw [hcons] at hone
      cases hev : t.2 with
      | epoch e =>
        rw [hev, markers_cons_epoch, List.length_cons] at hone
        exact List.eq_nil_of_length_eq_zero (by omega)
      | _ =>
        rw [hev] at hb
        have := h.one t.1 ht hb
        rw [hcons, hev] at this
        exact this
    · have hb' := (Finset.mem_insert.mp (next_blocked_sub t.2 hb)).resolve_left hcc
      have := h.one c hc hb'
      rwa [eventsOf_cons, if_neg (fun h => hcc h.symm), List.nil_append] at this
  · have := h.le_one c hc
    rw [eventsOf_cons, markers_append, List.length_append] at this
    omega

theorem LosslessReplay.replay {R : NodeID → List (ArconEvent IN)}
    (hR : Numbered n R)
    {ts : List (NodeID × ArconEvent IN)} (h : LosslessReplay n R q ts v) :
    LosslessReplay n R q [] (replay v ts) :=
  replay_rule (fun _ _ _ h => h.step hR) ts v h

/-! ## Messages -/

/-- How many markers a message of a free channel `c` may carry: one if it completes no epoch; two
if it does; a third if it then completes the next epoch too, because every other channel has its
next marker in the buffer. -/
def room (n : Node σ TS IN OUT) (st : NodeState IN) (c : NodeID) : Nat :=
  if (insert c st.blockedChannels).card = n.inChannels.length then
    if ∀ c' ∈ n.inChannels, c' ≠ c → markers (bufferedOf c' st) ≠ [] then 3 else 2
  else 1

/-- The markers of a message fit: the message has room for them, of which a node with a single
channel always has enough, and if it completes an epoch, no channel has more than one marker in the
buffer. -/
def Fits (n : Node σ TS IN OUT) (st : NodeState IN) (c : NodeID) (evs : List (ArconEvent IN)) :
    Prop :=
  (n.inChannels.length = 1 ∨ (markers evs).length ≤ room n st c) ∧
    (CompletesWith n st c evs → ∀ c' ∈ n.inChannels, (markers (bufferedOf c' st)).length ≤ 1)

instance (st : NodeState IN) (c : NodeID) (evs : List (ArconEvent IN)) :
    Decidable (Fits n st c evs) := inferInstanceAs (Decidable (_ ∧ (_ → ∀ c' ∈ n.inChannels, _)))

theorem one_le_room (st : NodeState IN) : 1 ≤ room n st c := by
  unfold room
  split_ifs <;> omega

/-- A node with a single channel completes an epoch with every marker. -/
theorem WF.card_single {st : NodeState IN} (h : WF n st) (hc : c ∈ n.inChannels)
    (hlen : n.inChannels.length = 1) :
    (insert c st.blockedChannels).card = n.inChannels.length := by
  obtain ⟨q, hq⟩ := List.length_eq_one_iff.mp hlen
  rw [hq] at hc
  obtain rfl := List.mem_singleton.mp hc
  have hsub := insert_sub (c := c) h.blocked (by rw [hq]; exact List.mem_singleton_self _)
  rw [hq] at hsub ⊢
  have hle := Finset.card_le_card hsub
  have hpos : 0 < (insert c st.blockedChannels).card :=
    Finset.card_pos.mpr ⟨c, Finset.mem_insert_self _ _⟩
  simp at hle ⊢
  omega

/-- What holds during a message, with the events `evs` still to come: as long as markers are to
come, their channel is free and they fit. -/
structure LosslessMessage (n : Node σ TS IN OUT) (R : NodeID → List (ArconEvent IN)) (c : NodeID)
    (evs : List (ArconEvent IN)) (v : View IN OUT TS) : Prop where
  running : v.failed = false
  ready : Ready n v.state
  lossless : Lossless n v
  empty : bufferedOf c v.state = []
  pending : ∀ c' ∈ n.inChannels, total c' v ++ (if c = c' then evs else []) <+: R c'
  free : markers evs ≠ [] → c ∉ v.state.blockedChannels
  fits : markers evs ≠ [] → Fits n v.state c evs

/-- The next marker is that of the next epoch. -/
theorem LosslessMessage.next {R : NodeID → List (ArconEvent IN)} (hR : Numbered n R)
    (hc : c ∈ n.inChannels) {e : Epoch} {evs : List (ArconEvent IN)}
    (h : LosslessMessage n R c (.epoch e :: evs) v) :
    c ∉ v.state.blockedChannels ∧ e = v.state.epoch + 1 ∧
      iterOf c v.acts ++ .epoch e :: evs <+: R c := by
  have hfree := h.free (by simp [markers_cons_epoch])
  obtain ⟨k, hk⟩ := hR c hc
  have hpre : iterOf c v.acts ++ .epoch e :: evs <+: R c := by
    have := h.pending c hc
    rwa [total, h.empty, List.append_nil, if_pos rfl] at this
  exact ⟨hfree, next_marker (h.lossless.counted.of_free hc hfree) hk hpre, hpre⟩

/-- The replay that follows a completed epoch. -/
theorem LosslessMessage.proceed {R : NodeID → List (ArconEvent IN)} (hR : Numbered n R)
    (hnd : n.inChannels.Nodup) (hc : c ∈ n.inChannels) {e : Epoch} {evs : List (ArconEvent IN)}
    (h : LosslessMessage n R c (.epoch e :: evs) v) (hcomp : Completes n v.state c e) :
    LosslessReplay n R c [] (proceed (complete v c e) e) := by
  obtain ⟨hfree, hnext, hpre⟩ := h.next hR hc
  refine LosslessReplay.replay hR ⟨h.ready.inReplay hc hcomp,
    h.lossless.opened hnd h.ready.toWF hc hfree hcomp hnext, fun c' hc' => ?_,
    fun c' _ hb => absurd hb (Finset.notMem_empty _), ?_⟩
  · have hp := h.pending c' hc'
    rw [iterOf_opened, iterOf_complete]
    by_cases hcc : c = c'
    · subst hcc
      rw [if_pos rfl,
        show eventsOf c (tasks (complete v c e).state.messageBuffer) = [] from h.empty,
        List.append_nil]
      refine List.IsPrefix.trans ?_ hpre
      exact ⟨evs, by simp⟩
    · rw [if_neg hcc, List.append_nil] at hp ⊢
      exact hp
  · exact (h.fits (by simp [markers_cons_epoch])).2 ⟨e, List.mem_cons_self, hcomp⟩

/-- After the replay, the channels that had a marker in the buffer are blocked. -/
theorem LosslessMessage.blocked_proceed {R : NodeID → List (ArconEvent IN)} (hR : Numbered n R)
    (hnd : n.inChannels.Nodup) (hc : c ∈ n.inChannels) {e : Epoch} {evs : List (ArconEvent IN)}
    (h : LosslessMessage n R c (.epoch e :: evs) v) (hcomp : Completes n v.state c e)
    (hc' : c' ∈ n.inChannels) (hne : c' ≠ c) (hm : markers (bufferedOf c' v.state) ≠ []) :
    c' ∈ (Control.proceed (complete v c e) e).state.blockedChannels := by
  have hend := (h.proceed hR hnd hc hcomp).lossless.counted c' hc'
  by_contra hb
  have hmem := hcomp.mem_blocked hnd h.ready.toWF hc hc' hne
  have hepoch : (Control.proceed (complete v c e) e).state.epoch = e := replay_epoch _
  rw [if_neg hb, iterOf_proceed, if_neg (fun h => hne h.symm), List.append_nil, markers_append,
    h.lossless.counted.of_blocked hc' hmem, hepoch, (h.next hR hc).2.1] at hend
  have hlen := congrArg List.length hend
  simp only [List.length_append, List.length_range'] at hlen
  exact hm (List.eq_nil_of_length_eq_zero (by omega))

/-- A marker that completes no epoch is the last one of its message. -/
theorem LosslessMessage.last {R : NodeID → List (ArconEvent IN)} (hR : Numbered n R)
    (hc : c ∈ n.inChannels) {e : Epoch} {evs : List (ArconEvent IN)}
    (h : LosslessMessage n R c (.epoch e :: evs) v) (hcomp : ¬Completes n v.state c e) :
    markers evs = [] := by
  obtain ⟨-, hnext, -⟩ := h.next hR hc
  have hcard : (insert c v.state.blockedChannels).card ≠ n.inChannels.length := fun hcard =>
    hcomp ⟨by rw [hnext]; exact Nat.lt_succ_self _, hcard⟩
  rcases (h.fits (by simp [markers_cons_epoch])).1 with hlen | hlen
  · exact absurd (h.ready.toWF.card_single hc hlen) hcard
  · rw [room, if_neg hcard, markers_cons_epoch, List.length_cons] at hlen
    exact List.eq_nil_of_length_eq_zero (by omega)

/-- After a completed epoch the rest of the message still fits. -/
theorem LosslessMessage.fits_proceed {R : NodeID → List (ArconEvent IN)} (hR : Numbered n R)
    (hnd : n.inChannels.Nodup) (hc : c ∈ n.inChannels) {e : Epoch} {evs : List (ArconEvent IN)}
    (h : LosslessMessage n R c (.epoch e :: evs) v) (hcomp : Completes n v.state c e) :
    Fits n (Control.proceed (complete v c e) e).state c evs := by
  have hend := h.ready.proceed hc hcomp
  refine ⟨?_, fun _ c' _ => ?_⟩
  · rcases (h.fits (by simp [markers_cons_epoch])).1 with hlen | hlen
    · exact .inl hlen
    right
    rw [markers_cons_epoch, List.length_cons, room, if_pos hcomp.2] at hlen
    have hone := one_le_room (n := n) (c := c) (Control.proceed (complete v c e) e).state
    split_ifs at hlen with hall
    · -- every other channel is blocked again, so the next marker completes the next epoch
      have hcard : (insert c (Control.proceed (complete v c e) e).state.blockedChannels).card =
          n.inChannels.length := by
        have heq : insert c (Control.proceed (complete v c e) e).state.blockedChannels =
            n.inChannels.toFinset := by
          refine Finset.Subset.antisymm (insert_sub hend.blocked hc) fun c' hc' => ?_
          rw [List.mem_toFinset] at hc'
          by_cases hcc : c' = c
          · rw [hcc]
            exact Finset.mem_insert_self _ _
          · exact Finset.mem_insert_of_mem
              (h.blocked_proceed hR hnd hc hcomp hc' hcc (hall c' hc' hcc))
        rw [heq, List.toFinset_card_of_nodup hnd]
      rw [room, if_pos hcard]
      split_ifs <;> omega
    · omega
  · rw [bufferedOf, hend.buffer]
    simp [tasks, eventsOf, markers]

/-- **One event of a message** loses no epoch. -/
theorem LosslessMessage.event {R : NodeID → List (ArconEvent IN)} (hR : Numbered n R)
    (hnd : n.inChannels.Nodup) (hsave : ∀ e, Saves n e) (hc : c ∈ n.inChannels)
    {ev : ArconEvent IN} {evs : List (ArconEvent IN)} (hev : ev.isPlain = true)
    (h : LosslessMessage n R c (ev :: evs) v) : LosslessMessage n R c evs (event n v c ev) := by
  have hpend : ∀ c' ∈ n.inChannels,
      total c' (Control.event n v c ev) ++ (if c = c' then evs else []) <+: R c' := by
    intro c' hc'
    rw [(event_total (n := n) (c := c') h.running h.empty ev).1]
    have := h.pending c' hc'
    by_cases hcc : c = c'
    · simpa [hcc] using this
    · simpa [hcc] using this
  have hempty := (event_total (n := n) (c := c) h.running h.empty ev).2
  obtain ⟨hn, he⟩ | ⟨e, rfl, hcomp, ⟨-, he⟩ | ⟨hns, -⟩⟩ := event_cases (n := n) c ev h.running
  · have hready : Ready n (step v c ev).state := h.ready.step hc hn
    rw [he] at hpend hempty ⊢
    obtain ⟨k, hk⟩ := hR c hc
    have hpre : iterOf c v.acts ++ ev :: evs <+: R c := by
      have := h.pending c hc
      rwa [total, h.empty, List.append_nil, if_pos rfl] at this
    cases ev with
    | element x =>
      have hloss := h.lossless.step hc (by simp) hk hpre
      exact ⟨h.running, hready, hloss, hempty, hpend, h.free, h.fits⟩
    | epoch e =>
      have hlast := h.last hR hc (hn e rfl)
      have hloss := h.lossless.step hc (fun _ _ => (h.next hR hc).1) hk hpre
      exact ⟨h.running, hready, hloss, hempty, hpend, fun hm => absurd hlast hm,
        fun hm => absurd hlast hm⟩
    | watermark w => cases hev
    | death msg => cases hev
  · rw [he] at hpend hempty ⊢
    have hend := h.ready.proceed hc hcomp
    exact ⟨(replay_failed _).trans h.running, hend.ready,
      (h.proceed hR hnd hc hcomp).lossless, hempty, hpend, fun _ => hend.free,
      fun _ => h.fits_proceed hR hnd hc hcomp⟩
  · exact absurd (hsave e) hns

theorem LosslessMessage.events {R : NodeID → List (ArconEvent IN)} (hR : Numbered n R)
    (hnd : n.inChannels.Nodup) (hsave : ∀ e, Saves n e) (hc : c ∈ n.inChannels)
    {evs : List (ArconEvent IN)} (hevs : ∀ ev ∈ evs, ev.isPlain = true)
    (h : LosslessMessage n R c evs v) : LosslessMessage n R c [] (events n v c evs) := by
  induction evs generalizing v with
  | nil => exact h
  | cons ev evs ih =>
    exact ih (fun ev' hev' => hevs ev' (List.mem_cons_of_mem _ hev'))
      (h.event hR hnd hsave hc (hevs ev List.mem_cons_self))

/-! ## Runs -/

/-- The condition on a message and the state it meets: if it is handled at once, its markers fit. -/
def MarkersFit (n : Node σ TS IN OUT) (st : NodeState IN) (d : Delivery IN) : Prop :=
  d.sender ∈ n.inChannels → d.sender ∉ st.blockedChannels → Fits n st d.sender d.events

instance (st : NodeState IN) (d : Delivery IN) : Decidable (MarkersFit n st d) :=
  inferInstanceAs (Decidable (_ → _ → _))

/-- What holds between two messages of a run. -/
structure LosslessInv (n : Node σ TS IN OUT) (done : List (Delivery IN)) (v : View IN OUT TS) :
    Prop where
  running : v.failed = false
  total : ∀ c ∈ n.inChannels, total c v = received c done
  lossless : Lossless n v
  ready : Ready n v.state

/-- **A message loses no epoch.** -/
theorem LosslessInv.deliver {done : List (Delivery IN)} {d : Delivery IN} {ds : List (Delivery IN)}
    (h : LosslessInv n done v) (hnd : n.inChannels.Nodup) (hsave : ∀ e, Saves n e)
    (hds : done ++ [d] <+: ds) (hR : Numbered n fun c => received c ds)
    (hplain : ∀ ev ∈ d.events, ev.isPlain = true) (hcond : MarkersFit n v.state d) :
    LosslessInv n (done ++ [d]) (deliver n v d).dropErr := by
  obtain ⟨hc, he⟩ | ⟨hc, ⟨hb, he⟩ | ⟨hb, he⟩⟩ := deliver_cases (n := n) v d
  · rw [he]
    refine ⟨rfl, fun c hc' => ?_, ⟨h.lossless.counted, h.lossless.forwarded, h.lossless.saved⟩,
      h.ready⟩
    rw [received_append, if_neg (by rintro rfl; exact hc hc'), List.append_nil]
    exact h.total c hc'
  · have hwf := WF.deliver (n := n) (v := v) h.ready.toWF d
    rw [he] at hwf ⊢
    refine ⟨rfl, fun c hc' => ?_, ⟨h.lossless.counted, h.lossless.forwarded, h.lossless.saved⟩,
      ⟨hwf, h.ready.free⟩⟩
    rw [received_append, ← h.total c hc']
    show Control.total c (v.put (buffered v.state d.sender d.events)) = _
    exact total_buffered d.events
  · rw [he]
    have hmsg : LosslessMessage n (fun c => received c ds) d.sender d.events v := by
      refine ⟨h.running, h.ready, h.lossless, h.ready.toWF.bufferedOf_eq_nil hb, fun c hc' => ?_,
        fun _ => hb, fun _ => hcond hc hb⟩
      rw [h.total c hc', ← received_append]
      exact received_mono c hds
    have hend := hmsg.events hR hnd hsave hc hplain
    refine ⟨rfl, fun c hc' => ?_, ⟨hend.lossless.counted, hend.lossless.forwarded,
      hend.lossless.saved⟩, hend.ready⟩
    rw [received_append, ← h.total c hc']
    exact events_total hmsg.empty d.events hend.running

theorem mem_bufferedOf {st : NodeState IN} {t : NodeID × ArconEvent IN}
    (h : t ∈ tasks st.messageBuffer) : t.2 ∈ bufferedOf t.1 st := by
  unfold bufferedOf eventsOf
  exact List.mem_map.mpr ⟨t, List.mem_filter.mpr ⟨h, by simp⟩, rfl⟩

/-- Without watermarks in the buffer no replay raises the minimum. -/
theorem not_clashes {d : Delivery IN} (h : WF n v.state)
    (hplain : ∀ c ∈ n.inChannels, ∀ w, .watermark w ∉ bufferedOf c v.state) :
    ¬DeliverClashes n v d := by
  rintro ⟨-, -, evs₁, e, evs₂, -, -, -, -, ts₁, c, w, ts₂, hts, -⟩
  have hmem : (c, .watermark w) ∈ tasks (events n v d.sender evs₁).state.messageBuffer := by
    rw [hts]
    simp
  rcases events_messageBuffer (n := n) (v := v) (c := d.sender) evs₁ with hb | hb
  · rw [hb] at hmem
    obtain ⟨m, hm, hmc⟩ := tasks_sender hmem
    have hc : c ∈ n.inChannels := by
      have := h.blocked (h.senders m hm)
      rw [hmc] at this
      exact List.mem_toFinset.mp this
    exact hplain c hc w (mem_bufferedOf hmem)
  · rw [hb] at hmem
    cases hmem

/-- **Once every channel has delivered the markers 1, …, k, the node is done with them.** A blocked
channel would be ahead of a free one, of which everything has been processed. -/
theorem LosslessInv.done {ds : List (Delivery IN)} {k : Nat} (h : LosslessInv n ds v)
    (hnd : n.inChannels.Nodup) (hne : n.inChannels ≠ [])
    (hk : ∀ c ∈ n.inChannels, markers (received c ds) = List.range' 1 k) :
    v.state.epoch = k ∧ v.state.blockedChannels = ∅ ∧ v.state.messageBuffer = [] := by
  -- of a free channel all events have been iterated over
  have hfree : ∀ c ∈ n.inChannels, c ∉ v.state.blockedChannels → v.state.epoch = k := by
    intro c hc hb
    have htot := h.total c hc
    rw [Control.total, h.ready.toWF.bufferedOf_eq_nil hb, List.append_nil] at htot
    have := h.lossless.counted.of_free hc hb
    rw [htot, hk c hc] at this
    simpa using (congrArg List.length this).symm
  have hblocked : v.state.blockedChannels = ∅ := by
    by_contra hb
    obtain ⟨q, hq⟩ := Finset.nonempty_iff_ne_empty.mpr hb
    have hqc : q ∈ n.inChannels := List.mem_toFinset.mp (h.ready.blocked hq)
    obtain ⟨c, hc, hcb⟩ : ∃ c ∈ n.inChannels, c ∉ v.state.blockedChannels := by
      by_contra hall
      push Not at hall
      have hle := Finset.card_le_card (s := n.inChannels.toFinset) (t := v.state.blockedChannels)
        fun c hc => hall c (List.mem_toFinset.mp hc)
      rw [List.toFinset_card_of_nodup hnd] at hle
      exact absurd h.ready.free (not_lt.mpr hle)
    have hlen := congrArg List.length (h.lossless.counted.of_blocked hqc hq)
    have hle : (markers (iterOf q v.acts)).length ≤ k := by
      have hpre : markers (iterOf q v.acts) <+: markers (received q ds) := by
        rw [← h.total q hqc, Control.total, markers_append]
        exact List.prefix_append _ _
      have := hpre.length_le
      rwa [hk q hqc, List.length_range'] at this
    rw [List.length_range', hfree c hc hcb] at hlen
    omega
  obtain ⟨c, hc⟩ := List.exists_mem_of_ne_nil _ hne
  refine ⟨hfree c hc (by rw [hblocked]; exact Finset.notMem_empty _), hblocked, ?_⟩
  refine List.eq_nil_iff_forall_not_mem.mpr fun m hm => ?_
  have := h.ready.senders m hm
  rw [hblocked] at this
  exact absurd this (Finset.notMem_empty _)

end Control

namespace Node

open Control

variable [TimerBackend τ TS P] {n : Node σ TS IN OUT} {s₀ : NodeSt σ τ IN OUT TS P}

/-- The epochs 1, …, k are done, each once and in order, and the node is idle. -/
structure EpochsDone (k : Nat) (s : NodeSt σ τ IN OUT TS P) : Prop where
  checkpointed : checkpointed s.ctx.log = List.range' 1 k
  forwarded : forwardedEpochs s.ctx.log = List.range' 1 k
  currentEpoch : s.state.currentEpoch = some k
  blockedChannels : s.state.blockedChannels = ∅
  messageBuffer : s.state.messageBuffer = []

/-- **No lost epoch**, where it holds. Take any node with distinct in-channels whose checkpoints
succeed, and any run in which every channel delivers the markers 1, …, k mixed with elements. If
the markers of every message fit the state it meets, the run ends with the epochs 1, …, k done, or
in a panic of the operator. -/
theorem no_lost_epoch {ds : List (Delivery IN)} {k : Nat} (hfresh : Fresh n s₀)
    (hnd : n.inChannels.Nodup) (hne : n.inChannels ≠ []) (hsave : ∀ e, Saves n e)
    (hplain : ∀ d ∈ ds, ∀ ev ∈ d.events, ev.isPlain = true)
    (hk : ∀ c ∈ n.inChannels, markers (received c ds) = List.range' 1 k)
    (hcond : ∀ done d rest s, ds = done ++ d :: rest → run n done s₀ = .ok () s →
      MarkersFit n s.state d) :
    (∀ s, run n ds s₀ = .ok () s → EpochsDone k s) ∧
      ∀ f s, run n ds s₀ = .error f s → ∃ x, f = .crash x := by
  have hR : Numbered n fun c => received c ds := fun c hc => ⟨k, hk c hc⟩
  have hwp := wp_run ds (I := LosslessInv n) hfresh.eq.2.1 hfresh.wf ?_ ?_
  · refine ⟨fun s hrun => ?_, fun f s hrun => ?_⟩
    · obtain ⟨h, hwf⟩ := wp_ok hwp hrun
      obtain ⟨hepoch, hblocked, hbuffer⟩ := h.done hnd hne hk
      refine ⟨?_, ?_, ?_, hblocked, hbuffer⟩
      · rw [← checkpointed_filter_isMark, ← hepoch]
        exact h.lossless.saved
      · rw [← forwardedEpochs_filter_isMark, ← hepoch]
        exact h.lossless.forwarded
      · rw [hwf.init.currentEpoch]
        exact congrArg some hepoch
    · obtain ⟨done, d, rest, s₁, hds, -, hI, hwf, -, hf⟩ := wp_error hwp hrun
      rcases hf with hf | ⟨-, hcl⟩
      · exact hf
      · -- all that is in the buffer was received, so it holds no watermark
        refine absurd hcl (not_clashes hwf fun c hc w hmem => ?_)
        have hrec : .watermark w ∈ received c done := by
          rw [← hI.total c hc]
          exact List.mem_append_right _ hmem
        obtain ⟨d', hd', hev⟩ := List.mem_flatMap.mp hrec
        have hd'' : d' ∈ ds := by
          rw [hds]
          exact List.mem_append_left _ (List.mem_filter.mp hd').1
        cases hplain d' hd'' _ hev
  · rw [hfresh.view]
    refine ⟨rfl, fun c _ => rfl, ⟨fun c _ => rfl, rfl, rfl⟩, ?_, ?_⟩
    · have := hfresh.wf
      rwa [hfresh.eq.1] at this
    · exact List.length_pos_of_ne_nil hne
  · intro done d rest s hds hrun _ hI
    refine hI.deliver hnd hsave ⟨rest, by rw [hds]; simp⟩ hR ?_ (hcond done d rest s hds hrun)
    exact hplain d (by rw [hds]; simp)

/-- A run of the filter node: channel 1 runs one epoch ahead, and channel 2 sends its two markers in
one message. -/
def togetherRun : List (Delivery Int) :=
  [.onLocal (.epoch 1 1), .onLocal (.element 7 (some 1) 1), .onLocal (.epoch 2 1),
    .onNetwork ⟨[.epoch 1, .element ⟨8, some 1⟩, .epoch 2], 2⟩]

theorem no_lost_epoch_together :
    isOk (run (filterNode [1, 2]) togetherRun (filterStart [1, 2])) = true ∧
      EpochsDone 2 (final (run (filterNode [1, 2]) togetherRun (filterStart [1, 2]))) := by
  have hok : isOk (run (filterNode [1, 2]) togetherRun (filterStart [1, 2])) = true := by
    decide +kernel
  have hk : ∀ c ∈ (filterNode [1, 2]).inChannels,
      markers (received c togetherRun) = List.range' 1 2 := by
    decide
  have hdone := no_lost_epoch (filterStart_fresh [1, 2]) (by decide) (by decide)
    (fun _ => ⟨by decide, rfl⟩) (by decide) hk (along_of_take (by decide +kernel))
  exact ⟨hok, hdone.1 _ (eq_ok_of_isOk hok)⟩

/-- A run of the filter node in which channel 1 sends three markers before channel 2 sends its
first one. -/
def aheadByTwoRun : List (Delivery Int) :=
  [.onLocal (.epoch 1 1), .onLocal (.epoch 2 1), .onLocal (.epoch 3 1), .onLocal (.epoch 1 2),
    .onLocal (.epoch 2 2), .onLocal (.epoch 3 2)]

/-- The replay at the end of epoch 1 handles the markers 2 and 3 of channel 1, and the second of
them is lost: after the last marker of channel 2 epoch 3 is neither saved nor forwarded, and channel
2 stays blocked. -/
theorem epoch_lost :
    (filterNode [1, 2]).inChannels.Nodup ∧ (∀ e, Saves (filterNode [1, 2]) e) ∧
      (∀ d ∈ aheadByTwoRun, ∀ ev ∈ d.events, ev.isPlain = true) ∧
      (∀ c ∈ (filterNode [1, 2]).inChannels,
        markers (received c aheadByTwoRun) = List.range' 1 3) ∧
      isOk (run (filterNode [1, 2]) aheadByTwoRun (filterStart [1, 2])) = true ∧
      ¬EpochsDone 3 (final (run (filterNode [1, 2]) aheadByTwoRun (filterStart [1, 2]))) := by
  refine ⟨by decide, fun _ => ⟨by decide, rfl⟩, by decide, ?_, by decide +kernel, fun h => ?_⟩
  · exact (by decide : ∀ c ∈ [1, 2], markers (received c aheadByTwoRun) = [1, 2, 3])
  · have hepoch : (final (run (filterNode [1, 2]) aheadByTwoRun
        (filterStart [1, 2]))).state.currentEpoch = some 2 := by
      decide +kernel
    rw [h.currentEpoch] at hepoch
    cases hepoch

end Node

end Arcon
