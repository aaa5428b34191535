import Arcon.Node.Replay

/-!
# The control flow of a node

What a node does, apart from running operator code, depends on nothing but its own state and the
events it is given. `View` is that part of a node: its state and its own acts. `event`, `deliver`
and `deliveries` are the node as a pure machine over it, stated for what the code is meant to do
and not as the Rust computes it:

* the minimum watermark is recomputed at every new watermark (the Rust skips it where it cannot
  change);
* a replay never completes an epoch, so it is a plain fold over the buffered events;
* there are no guards and no panics; `failed` stands for an `Err` on its way out of a message.

`Refine.lean` connects the machine to the node. Here are its invariants: `WF` between two messages
and `Ready` between two events of a message, when some channel is free.
-/

namespace Arcon

namespace NodeState

variable {IN : Type} (st : NodeState IN)

/-- The watermark of a channel. -/
def watermark (c : NodeID) : Watermark := (st.watermarks.lookup c).getD 0

/-- `current_watermark`. -/
def minimum : Watermark := st.currentWatermark.getD 0

/-- `current_epoch`. -/
def epoch : Epoch := st.currentEpoch.getD 0

end NodeState

/-- A node's own state and acts; an `Err` is on its way out of the message if it `failed`. -/
structure View (IN OUT TS : Type) where
  state : NodeState IN
  acts : List (Act IN OUT TS)
  failed : Bool

namespace View

variable {IN OUT TS : Type}

/-- Add to the acts. -/
def note (v : View IN OUT TS) (as : List (Act IN OUT TS)) : View IN OUT TS :=
  { v with acts := v.acts ++ as }

/-- Change the state. -/
def put (v : View IN OUT TS) (st : NodeState IN) : View IN OUT TS := { v with state := st }

/-- The actor drops the `Err` of a message. -/
def dropErr (v : View IN OUT TS) : View IN OUT TS := { v with failed := false }

variable {v : View IN OUT TS} {as : List (Act IN OUT TS)} {st : NodeState IN}

@[simp] theorem note_state : (v.note as).state = v.state := rfl

@[simp] theorem note_acts : (v.note as).acts = v.acts ++ as := rfl

@[simp] theorem note_failed : (v.note as).failed = v.failed := rfl

@[simp] theorem put_state : (v.put st).state = st := rfl

@[simp] theorem put_acts : (v.put st).acts = v.acts := rfl

@[simp] theorem put_failed : (v.put st).failed = v.failed := rfl

end View

namespace Control

open Node

variable {σ TS IN OUT : Type}

/-! ## The machine -/

/-- The minimum once the watermark of `c` is `w`. -/
def newMinimum (st : NodeState IN) (c : NodeID) (w : Watermark) : Watermark :=
  newWatermark (stored st c w).watermarks w

/-- The watermark is news, and the minimum passes `current_watermark` with it. -/
def Raises (st : NodeState IN) (c : NodeID) (w : Watermark) : Prop :=
  st.watermark c < w ∧ st.minimum < newMinimum st c w

instance (st : NodeState IN) (c : NodeID) (w : Watermark) : Decidable (Raises st c w) :=
  inferInstanceAs (Decidable (_ ∧ _))

/-- The state after an event that completes no epoch. -/
def next (st : NodeState IN) (c : NodeID) : ArconEvent IN → NodeState IN
  | .element _ => st
  | .watermark w =>
    if Raises st c w then { stored st c w with currentWatermark := some (newMinimum st c w) }
    else if st.watermark c < w then stored st c w
    else st
  | .epoch e => if st.epoch < e then blocked st c else st
  | .death _ => st

/-- The acts of the node at an event that completes no epoch. -/
def acts (st : NodeState IN) (c : NodeID) (ev : ArconEvent IN) : List (Act IN OUT TS) :=
  .iter c ev ::
    match ev with
    | .element e => if e.timestamp.getD u64Max ≤ st.watermark c then [] else [.handleElement e]
    | .watermark w =>
      if Raises st c w then
        [.handleWatermark (newMinimum st c w), .forward (.watermark (newMinimum st c w))]
      else []
    | .epoch _ => []
    | .death msg => [.forward (.death msg), .suicide]

/-- An event that completes no epoch. -/
def step (v : View IN OUT TS) (c : NodeID) (ev : ArconEvent IN) : View IN OUT TS :=
  (v.put (next v.state c ev)).note (acts v.state c ev)

/-- Some buffered events, replayed. -/
def replay (v : View IN OUT TS) (ts : List (NodeID × ArconEvent IN)) : View IN OUT TS :=
  ts.foldl (fun v t => step v t.1 t.2) v

variable (n : Node σ TS IN OUT)

/-- The marker completes its epoch. -/
def Completes (st : NodeState IN) (c : NodeID) (e : Epoch) : Prop :=
  st.epoch < e ∧ (insert c st.blockedChannels).card = n.inChannels.length

instance (st : NodeState IN) (c : NodeID) (e : Epoch) : Decidable (Completes n st c e) :=
  inferInstanceAs (Decidable (_ ∧ _))

/-- The checkpoint of an epoch can be written. -/
def Saves (e : Epoch) : Prop := n.checkpointDir ≠ none ∧ n.checkpointFails e = false

instance (e : Epoch) : Decidable (Saves n e) := inferInstanceAs (Decidable (_ ∧ _))

/-- The marker of the last channel, up to the checkpoint. -/
def complete (v : View IN OUT TS) (c : NodeID) (e : Epoch) : View IN OUT TS :=
  (v.put { blocked v.state c with currentEpoch := some e }).note
    [.iter c (.epoch e), .handleEpoch e, .saveState e]

/-- After the checkpoint: the marker is forwarded and the channels are open. -/
def opened (v : View IN OUT TS) (e : Epoch) : View IN OUT TS :=
  (v.put (drained v.state)).note [.checkpoint e, .forward (.epoch e)]

/-- After the checkpoint, with the replay of the buffer. -/
def proceed (v : View IN OUT TS) (e : Epoch) : View IN OUT TS :=
  replay (opened v e) (tasks v.state.messageBuffer)

/-- An event of a message; after an `Err` the rest of the message is skipped. -/
def event (v : View IN OUT TS) (c : NodeID) (ev : ArconEvent IN) : View IN OUT TS :=
  if v.failed then v
  else
    match ev with
    | .epoch e =>
      if Completes n v.state c e then
        if Saves n e then proceed (complete v c e) e else { complete v c e with failed := true }
      else step v c (.epoch e)
    | ev => step v c ev

/-- The events of a message. -/
def events (v : View IN OUT TS) (c : NodeID) (evs : List (ArconEvent IN)) : View IN OUT TS :=
  evs.foldl (fun v ev => event n v c ev) v

/-- A message that waits until its channel is free. -/
def buffered (st : NodeState IN) (c : NodeID) (evs : List (ArconEvent IN)) : NodeState IN :=
  { st with messageBuffer := st.messageBuffer ++ [⟨evs, c⟩] }

/-- A message. -/
def deliver (v : View IN OUT TS) (d : Delivery IN) : View IN OUT TS :=
  if d.sender ∈ n.inChannels then
    if d.sender ∈ v.state.blockedChannels then v.put (buffered v.state d.sender d.events)
    else events n v d.sender d.events
  else { v with failed := true }

variable {n}

theorem event_complete {v : View IN OUT TS} {c : NodeID} {e : Epoch} (hf : v.failed = false)
    (hcomp : Completes n v.state c e) :
    event n v c (.epoch e) = if Saves n e then proceed (complete v c e) e
      else { complete v c e with failed := true } := by
  simp [event, hf, hcomp]

/-- **The cases of an event.** -/
theorem event_cases {v : View IN OUT TS} (c : NodeID) (ev : ArconEvent IN)
    (hf : v.failed = false) :
    ((∀ e, ev = .epoch e → ¬Completes n v.state c e) ∧ event n v c ev = step v c ev) ∨
      ∃ e, ev = .epoch e ∧ Completes n v.state c e ∧
        (Saves n e ∧ event n v c ev = proceed (complete v c e) e ∨
          ¬Saves n e ∧ event n v c ev = { complete v c e with failed := true }) := by
  unfold event
  rw [hf]
  cases ev with
  | element e => exact .inl ⟨by simp, rfl⟩
  | watermark w => exact .inl ⟨by simp, rfl⟩
  | death msg => exact .inl ⟨by simp, rfl⟩
  | epoch e =>
    by_cases hc : Completes n v.state c e
    · refine .inr ⟨e, rfl, hc, ?_⟩
      by_cases hs : Saves n e
      · exact .inl ⟨hs, by simp [hc, hs]⟩
      · exact .inr ⟨hs, by simp [hc, hs]⟩
    · refine .inl ⟨?_, by simp [hc]⟩
      rintro _ ⟨⟩
      exact hc

/-- **The cases of a message.** -/
theorem deliver_cases (v : View IN OUT TS) (d : Delivery IN) :
    (d.sender ∉ n.inChannels ∧ deliver n v d = { v with failed := true }) ∨
      d.sender ∈ n.inChannels ∧
        (d.sender ∈ v.state.blockedChannels ∧
            deliver n v d = v.put (buffered v.state d.sender d.events) ∨
          d.sender ∉ v.state.blockedChannels ∧ deliver n v d = events n v d.sender d.events) := by
  unfold deliver
  by_cases hc : d.sender ∈ n.inChannels
  · refine .inr ⟨hc, ?_⟩
    by_cases hb : d.sender ∈ v.state.blockedChannels
    · exact .inl ⟨hb, by rw [if_pos hc, if_pos hb]⟩
    · exact .inr ⟨hb, by rw [if_pos hc, if_neg hb]⟩
  · exact .inl ⟨hc, if_neg hc⟩

/-- An `Err` skips the rest of the message. -/
theorem events_failed {v : View IN OUT TS} {c : NodeID} (hf : v.failed = true)
    (evs : List (ArconEvent IN)) : events n v c evs = v := by
  induction evs with
  | nil => rfl
  | cons ev evs ih =>
    have : event n v c ev = v := by simp [event, hf]
    rw [events, List.foldl_cons, this]
    exact ih

/-! ## Invariants -/

section Invariants

variable (n)

/-- The node's own state is initialised for its in-channels, and `current_watermark` is the least
of their watermarks. -/
structure Initialised (st : NodeState IN) : Prop where
  watermarks : ∀ c, c ∈ st.watermarks ↔ c ∈ n.inChannels
  currentWatermark : st.currentWatermark = some st.minimum
  currentEpoch : st.currentEpoch = some st.epoch
  least : ∀ c ∈ n.inChannels, st.minimum ≤ st.watermark c
  attained : n.inChannels ≠ [] → ∃ c ∈ n.inChannels, st.watermark c = st.minimum

/-- What holds between two messages. -/
structure WF (st : NodeState IN) : Prop where
  init : Initialised n st
  blocked : st.blockedChannels ⊆ n.inChannels.toFinset
  senders : ∀ m ∈ st.messageBuffer, m.sender ∈ st.blockedChannels

/-- What holds between two events of a message: some channel is free. -/
structure Ready (st : NodeState IN) : Prop extends WF n st where
  free : st.blockedChannels.card < n.inChannels.length

/-- What holds during a replay, with the events `ts` still to come, after the marker of channel
`q` completed an epoch. That channel was free, so none of its messages was in the buffer. -/
structure InReplay (q : NodeID) (ts : List (NodeID × ArconEvent IN)) (st : NodeState IN) :
    Prop where
  init : Initialised n st
  blocked : st.blockedChannels ⊆ n.inChannels.toFinset
  buffer : st.messageBuffer = []
  mem : q ∈ n.inChannels
  free : q ∉ st.blockedChannels
  senders : ∀ t ∈ ts, t.1 ∈ n.inChannels ∧ t.1 ≠ q

end Invariants

/-! ## The minimum -/

theorem watermark_stored (st : NodeState IN) (c c' : NodeID) (w : Watermark) :
    (stored st c w).watermark c' = if c' = c then w else st.watermark c' := by
  unfold NodeState.watermark stored
  by_cases h : c' = c
  · rw [h, if_pos rfl, AList.lookup_insert]
    rfl
  · rw [if_neg h, AList.lookup_insert_ne h]

theorem newWatermark_le {m : AList fun _ : NodeID => Watermark} {c : NodeID} {x : Watermark}
    (w : Watermark) (h : m.lookup c = some x) : newWatermark m w ≤ x := by
  have hmem : x ∈ m.entries.map Sigma.snd :=
    List.mem_map.mpr ⟨⟨c, x⟩, AList.mem_lookup_iff.mp h, rfl⟩
  unfold newWatermark
  generalize m.entries.map Sigma.snd = l at hmem
  induction l with
  | nil => simp at hmem
  | cons y l ih =>
    rw [List.foldr_cons]
    rcases List.mem_cons.mp hmem with rfl | h
    · exact min_le_left _ _
    · exact le_trans (min_le_right _ _) (ih h)

theorem newWatermark_attained (m : AList fun _ : NodeID => Watermark) (w : Watermark) :
    newWatermark m w = w ∨ ∃ c, m.lookup c = some (newWatermark m w) := by
  have key : ∀ l : List Watermark, l.foldr min w = w ∨ l.foldr min w ∈ l := by
    intro l
    induction l with
    | nil => exact .inl rfl
    | cons y l ih =>
      rw [List.foldr_cons]
      rcases min_choice y (l.foldr min w) with h | h
      · exact .inr (by rw [h]; exact List.mem_cons_self)
      · rcases ih with h' | h'
        · exact .inl (h.trans h')
        · exact .inr (by rw [h]; exact List.mem_cons_of_mem _ h')
  rcases key (m.entries.map Sigma.snd) with h | h
  · exact .inl h
  · obtain ⟨⟨c, x⟩, hx, hxe⟩ := List.mem_map.mp h
    exact .inr ⟨c, AList.mem_lookup_iff.mpr (by rw [newWatermark, ← hxe]; exact hx)⟩

section Next

variable {st : NodeState IN} {c : NodeID}

theorem Initialised.lookup (h : Initialised n st) (hc : c ∈ n.inChannels) :
    st.watermarks.lookup c = some (st.watermark c) := by
  have hmem := (h.watermarks c).mpr hc
  obtain ⟨w, hw⟩ := Option.isSome_iff_exists.mp (AList.lookup_isSome.mpr hmem)
  rw [NodeState.watermark, hw]
  rfl

/-- The channels of a state with one more watermark stored are the same. -/
theorem Initialised.mem_stored (h : Initialised n st) (hc : c ∈ n.inChannels) (w : Watermark)
    (c' : NodeID) : c' ∈ (stored st c w).watermarks ↔ c' ∈ n.inChannels := by
  rw [stored, AList.mem_insert, h.watermarks]
  constructor
  · rintro (rfl | h')
    · exact hc
    · exact h'
  · exact .inr

/-- **The recomputed minimum is the least of the channels' watermarks.** -/
theorem Initialised.newMinimum_le (h : Initialised n st) (hc : c ∈ n.inChannels) (w : Watermark)
    {c' : NodeID} (hc' : c' ∈ n.inChannels) :
    newMinimum st c w ≤ (stored st c w).watermark c' := by
  have hmem := (h.mem_stored hc w c').mpr hc'
  obtain ⟨x, hx⟩ := Option.isSome_iff_exists.mp (AList.lookup_isSome.mpr hmem)
  rw [NodeState.watermark, hx]
  exact newWatermark_le w hx

theorem Initialised.newMinimum_attained (h : Initialised n st) (hc : c ∈ n.inChannels)
    (w : Watermark) : ∃ c' ∈ n.inChannels, (stored st c w).watermark c' = newMinimum st c w := by
  rcases newWatermark_attained (stored st c w).watermarks w with hw | ⟨c', hc'⟩
  · refine ⟨c, hc, ?_⟩
    rw [watermark_stored, if_pos rfl]
    exact hw.symm
  · refine ⟨c', ?_, by rw [NodeState.watermark, hc']; rfl⟩
    exact (h.mem_stored hc w c').mp (AList.lookup_isSome.mp (by rw [hc']; rfl))

/-- Storing a greater watermark only raises watermarks. -/
theorem watermark_le_stored {w : Watermark} (hw : st.watermark c ≤ w) (c' : NodeID) :
    st.watermark c' ≤ (stored st c w).watermark c' := by
  rw [watermark_stored]
  by_cases h : c' = c
  · rw [if_pos h, h]; exact hw
  · rw [if_neg h]

/-- **Initialised states stay so.** -/
theorem Initialised.next (h : Initialised n st) (hc : c ∈ n.inChannels) (ev : ArconEvent IN) :
    Initialised n (next st c ev) := by
  cases ev with
  | element e => exact h
  | death msg => exact h
  | epoch e =>
    simp only [Control.next]
    split_ifs
    · exact ⟨h.watermarks, h.currentWatermark, h.currentEpoch, h.least, h.attained⟩
    · exact h
  | watermark w =>
    simp only [Control.next]
    split_ifs with hr hlt
    · exact ⟨h.mem_stored hc w, rfl, h.currentEpoch, fun c' hc' => h.newMinimum_le hc w hc',
        fun _ => h.newMinimum_attained hc w⟩
    · -- the minimum does not pass `current_watermark`, so some channel still holds it
      obtain ⟨c', hc', he⟩ := h.newMinimum_attained hc w
      have hle : newMinimum st c w ≤ st.minimum := by
        by_contra hgt
        exact hr ⟨hlt, not_le.mp hgt⟩
      have hge := le_trans (h.least c' hc') (watermark_le_stored hlt.le c')
      refine ⟨h.mem_stored hc w, h.currentWatermark, h.currentEpoch, fun c' hc' => ?_,
        fun _ => ⟨c', hc', ?_⟩⟩
      · exact le_trans (h.least c' hc') (watermark_le_stored hlt.le c')
      · exact le_antisymm (he.trans_le hle) hge
    · exact h

/-- What an event that completes no epoch does to the channels and the buffer. -/
theorem next_messageBuffer (ev : ArconEvent IN) :
    (next st c ev).messageBuffer = st.messageBuffer := by
  cases ev with
  | element e => rfl
  | death msg => rfl
  | epoch e => simp only [next]; split_ifs <;> rfl
  | watermark w => simp only [next]; split_ifs <;> rfl

theorem next_epoch (ev : ArconEvent IN) : (next st c ev).epoch = st.epoch := by
  cases ev with
  | element e => rfl
  | death msg => rfl
  | epoch e => simp only [next]; split_ifs <;> rfl
  | watermark w => simp only [next]; split_ifs <;> rfl

/-- A channel is blocked by a marker of a later epoch and by nothing else. -/
theorem next_blockedChannels (ev : ArconEvent IN) :
    (next st c ev).blockedChannels =
      match ev with
      | .epoch e => if st.epoch < e then insert c st.blockedChannels else st.blockedChannels
      | _ => st.blockedChannels := by
  cases ev with
  | element e => rfl
  | death msg => rfl
  | epoch e => simp only [next]; split_ifs <;> rfl
  | watermark w => simp only [next]; split_ifs <;> rfl

theorem next_blocked_sub (ev : ArconEvent IN) :
    (next st c ev).blockedChannels ⊆ insert c st.blockedChannels := by
  rw [next_blockedChannels]
  cases ev with
  | element e => exact Finset.subset_insert _ _
  | death msg => exact Finset.subset_insert _ _
  | watermark w => exact Finset.subset_insert _ _
  | epoch e =>
    simp only
    split_ifs
    · exact Finset.Subset.refl _
    · exact Finset.subset_insert _ _

theorem blocked_sub_next (ev : ArconEvent IN) :
    st.blockedChannels ⊆ (next st c ev).blockedChannels := by
  rw [next_blockedChannels]
  cases ev with
  | element e => exact Finset.Subset.refl _
  | death msg => exact Finset.Subset.refl _
  | watermark w => exact Finset.Subset.refl _
  | epoch e =>
    simp only
    split_ifs
    · exact Finset.subset_insert _ _
    · exact Finset.Subset.refl _

end Next

/-! ## Steps keep the invariants -/

section Steps

variable {st : NodeState IN} {c q : NodeID}

/-- A channel outside a set of blocked ones keeps the set from being all of them. -/
theorem card_lt_of_not_mem {b : Finset NodeID} (hb : b ⊆ n.inChannels.toFinset)
    (hq : q ∈ n.inChannels) (hqb : q ∉ b) : b.card < n.inChannels.length := by
  have hlt : b.card < n.inChannels.toFinset.card :=
    Finset.card_lt_card ⟨hb, fun h => hqb (h (List.mem_toFinset.mpr hq))⟩
  exact lt_of_lt_of_le hlt (List.toFinset_card_le _)

theorem insert_sub (hb : st.blockedChannels ⊆ n.inChannels.toFinset) (hc : c ∈ n.inChannels) :
    insert c st.blockedChannels ⊆ n.inChannels.toFinset :=
  Finset.insert_subset (List.mem_toFinset.mpr hc) hb

/-- **No event of a replay completes an epoch.** -/
theorem InReplay.no_complete {t : NodeID × ArconEvent IN} {ts : List (NodeID × ArconEvent IN)}
    (h : InReplay n q (t :: ts) st) :
    (insert t.1 st.blockedChannels).card ≠ n.inChannels.length := by
  obtain ⟨hc, hcq⟩ := h.senders t List.mem_cons_self
  refine ne_of_lt (card_lt_of_not_mem (insert_sub h.blocked hc) h.mem ?_)
  rw [Finset.mem_insert, not_or]
  exact ⟨fun e => hcq e.symm, h.free⟩

theorem InReplay.next {t : NodeID × ArconEvent IN} {ts : List (NodeID × ArconEvent IN)}
    (h : InReplay n q (t :: ts) st) : InReplay n q ts (next st t.1 t.2) := by
  obtain ⟨hc, hcq⟩ := h.senders t List.mem_cons_self
  refine ⟨h.init.next hc t.2, ?_, by rw [next_messageBuffer, h.buffer], h.mem, ?_,
    fun t' ht' => h.senders t' (List.mem_cons_of_mem _ ht')⟩
  · exact (next_blocked_sub t.2).trans (insert_sub h.blocked hc)
  · intro hq
    rcases Finset.mem_insert.mp (next_blocked_sub t.2 hq) with rfl | hq
    · exact hcq rfl
    · exact h.free hq

/-- The invariant rule for replays. -/
theorem replay_rule {I : List (NodeID × ArconEvent IN) → View IN OUT TS → Prop}
    (hstep : ∀ t ts v, I (t :: ts) v → I ts (step v t.1 t.2)) :
    ∀ (ts : List (NodeID × ArconEvent IN)) (v : View IN OUT TS), I ts v → I [] (replay v ts)
  | [], _, h => h
  | t :: ts, v, h => replay_rule hstep ts _ (hstep t ts v h)

theorem InReplay.replay {ts ts' : List (NodeID × ArconEvent IN)} {v : View IN OUT TS}
    (h : InReplay n q (ts ++ ts') v.state) : InReplay n q ts' (replay v ts).state := by
  induction ts generalizing v with
  | nil => exact h
  | cons t ts ih => exact ih (v := step v t.1 t.2) h.next

/-- A marker that completes an epoch comes from a channel that was free. -/
theorem Ready.not_mem (h : Ready n st) {e : Epoch} (hcomp : Completes n st c e) :
    c ∉ st.blockedChannels := by
  intro hc
  have hcard := hcomp.2
  rw [Finset.insert_eq_of_mem hc] at hcard
  have := h.free
  omega

theorem tasks_sender {ms : List (RawArconMessage IN)} {t : NodeID × ArconEvent IN}
    (ht : t ∈ tasks ms) : ∃ m ∈ ms, m.sender = t.1 := by
  obtain ⟨m, hm, ht⟩ := List.mem_flatMap.mp ht
  obtain ⟨ev, -, rfl⟩ := List.mem_map.mp ht
  exact ⟨m, hm, rfl⟩

/-- **A replay starts in its invariant.** -/
theorem Ready.inReplay (h : Ready n st) (hc : c ∈ n.inChannels) {e : Epoch}
    (hcomp : Completes n st c e) :
    InReplay n c (tasks st.messageBuffer)
      (drained { Node.blocked st c with currentEpoch := some e }) := by
  have hfree := h.not_mem hcomp
  refine ⟨⟨h.init.watermarks, h.init.currentWatermark, rfl, h.init.least, h.init.attained⟩,
    Finset.empty_subset _, rfl, hc, Finset.notMem_empty _, fun t ht => ?_⟩
  obtain ⟨m, hm, hmt⟩ := tasks_sender ht
  have hb := h.senders m hm
  rw [hmt] at hb
  refine ⟨List.mem_toFinset.mp (h.blocked hb), ?_⟩
  rintro rfl
  exact hfree hb

theorem InReplay.ready (h : InReplay n q [] st) : Ready n st :=
  ⟨⟨h.init, h.blocked, by rw [h.buffer]; simp⟩, card_lt_of_not_mem h.blocked h.mem h.free⟩

theorem Ready.proceed {v : View IN OUT TS} (h : Ready n v.state) (hc : c ∈ n.inChannels)
    {e : Epoch} (hcomp : Completes n v.state c e) :
    InReplay n c [] (proceed (complete v c e) e).state :=
  InReplay.replay (v := opened (complete v c e) e) (by
    rw [List.append_nil]
    exact h.inReplay hc hcomp)

theorem Ready.step (h : Ready n st) (hc : c ∈ n.inChannels) {ev : ArconEvent IN}
    (hev : ∀ e, ev = .epoch e → ¬Completes n st c e) : Ready n (next st c ev) := by
  refine ⟨⟨h.init.next hc ev, ?_, ?_⟩, ?_⟩
  · exact (next_blocked_sub ev).trans (insert_sub h.blocked hc)
  · intro m hm
    rw [next_messageBuffer] at hm
    exact blocked_sub_next ev (h.senders m hm)
  · rw [next_blockedChannels]
    have hfree := h.free
    cases ev with
    | element e => exact hfree
    | death msg => exact hfree
    | watermark w => exact hfree
    | epoch e =>
      simp only
      split_ifs with hlt
      · have hne : (insert c st.blockedChannels).card ≠ n.inChannels.length :=
          fun hcard => hev e rfl ⟨hlt, hcard⟩
        have hle := Finset.card_insert_le c st.blockedChannels
        omega
      · exact hfree

theorem WF.complete (h : WF n st) (hc : c ∈ n.inChannels) (e : Epoch) :
    WF n { Node.blocked st c with currentEpoch := some e } :=
  ⟨⟨h.init.watermarks, h.init.currentWatermark, rfl, h.init.least, h.init.attained⟩,
    insert_sub h.blocked hc, fun m hm => Finset.mem_insert_of_mem (h.senders m hm)⟩

end Steps

variable {v : View IN OUT TS} {c : NodeID}

/-- Between two events of a message, also after an `Err`. -/
structure Good (n : Node σ TS IN OUT) (v : View IN OUT TS) : Prop where
  wf : WF n v.state
  ready : v.failed = false → Ready n v.state

theorem step_state (ev : ArconEvent IN) : (step v c ev).state = next v.state c ev := rfl

theorem step_failed (ev : ArconEvent IN) : (step v c ev).failed = v.failed := rfl

theorem replay_failed (ts : List (NodeID × ArconEvent IN)) : (replay v ts).failed = v.failed :=
  replay_rule (I := fun _ (v' : View IN OUT TS) => v'.failed = v.failed)
    (fun _ _ _ h => h) ts v rfl

/-- **Every event keeps the invariant.** -/
theorem Good.event (h : Good n v) (hc : c ∈ n.inChannels) (ev : ArconEvent IN) :
    Good n (event n v c ev) := by
  cases hf : v.failed with
  | true =>
    have : Control.event n v c ev = v := by simp [Control.event, hf]
    rwa [this]
  | false =>
    have hr := h.ready hf
    obtain ⟨hn, he⟩ | ⟨e, rfl, hcomp, ⟨-, he⟩ | ⟨-, he⟩⟩ := event_cases (n := n) c ev hf
    · rw [he]
      exact ⟨(hr.step hc hn).toWF, fun _ => hr.step hc hn⟩
    · rw [he]
      have hready : Ready n (proceed (complete v c e) e).state := (hr.proceed hc hcomp).ready
      exact ⟨hready.toWF, fun _ => hready⟩
    · rw [he]
      exact ⟨h.wf.complete hc e, fun hf => by simp at hf⟩

theorem Good.events (h : Good n v) (hc : c ∈ n.inChannels) (evs : List (ArconEvent IN)) :
    Good n (events n v c evs) := by
  induction evs generalizing v with
  | nil => exact h
  | cons ev evs ih => exact ih (h.event hc ev)

/-- A message from a free channel finds the node ready. -/
theorem WF.ready (h : WF n v.state) (hc : c ∈ n.inChannels) (hb : c ∉ v.state.blockedChannels) :
    Ready n v.state := ⟨h, card_lt_of_not_mem h.blocked hc hb⟩

/-- **Every message keeps the invariant.** -/
theorem WF.deliver (h : WF n v.state) (d : Delivery IN) : WF n (deliver n v d).state := by
  obtain ⟨-, he⟩ | ⟨hc, ⟨hb, he⟩ | ⟨hb, he⟩⟩ := deliver_cases (n := n) v d
  · rw [he]
    exact h
  · rw [he]
    refine ⟨⟨h.init.watermarks, h.init.currentWatermark, h.init.currentEpoch, h.init.least,
      h.init.attained⟩, h.blocked, fun m hm => ?_⟩
    rcases List.mem_append.mp hm with hm | hm
    · exact h.senders m hm
    · rw [List.mem_singleton.mp hm]
      exact hb
  · rw [he]
    exact (Good.events ⟨h, fun _ => h.ready hc hb⟩ hc d.events).wf

end Control

end Arcon
