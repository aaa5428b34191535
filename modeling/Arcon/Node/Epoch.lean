import Arcon.Node.Fifo

/-!
# Counting epoch markers

Where every channel sends the markers 1, 2, 3, … the node keeps count of them with `current_epoch`
and one bit for each channel (`Counted`): of a free channel it has seen the markers up to
`current_epoch`, of a blocked one also the next. A marker keeps the count if its channel is free
when it is handled (`Counted.step`, `Counted.complete`); `blocked_channels` cannot count a second
one. Both `Alignment.lean` and `NoLostEpoch.lean` rest on this, with different reasons for why a
marker finds its channel free.
-/

namespace Arcon

open Exec Node

variable {σ τ TS IN OUT P : Type}

/-! ## Markers in order -/

theorem markers_cons_epoch (e : Epoch) (evs : List (ArconEvent IN)) :
    markers (.epoch e :: evs) = e :: markers evs := rfl

theorem markers_singleton (ev : ArconEvent IN) :
    markers [ev] = match ev with
      | .epoch e => [e]
      | _ => [] := by
  cases ev <;> rfl

/-- The marker after the first `k` of 1, 2, 3, … is `k + 1`. -/
theorem next_marker {l rest R : List (ArconEvent IN)} {e : Epoch} {j k : Nat}
    (hl : markers l = List.range' 1 j) (hR : markers R = List.range' 1 k)
    (hpre : l ++ .epoch e :: rest <+: R) : e = j + 1 := by
  obtain ⟨t, rfl⟩ := hpre
  rw [List.append_assoc, markers_append, hl, List.cons_append, markers_cons_epoch] at hR
  have hget : (List.range' 1 k)[j]? = some e := by
    rw [← hR, List.getElem?_append_right (by simp)]
    simp
  have hj : j < (List.range' 1 k).length := by
    rw [← hR]
    simp
  rw [List.getElem?_eq_getElem hj, List.getElem_range'] at hget
  rw [← Option.some.inj hget, Nat.one_mul, Nat.add_comm]

theorem range'_one_succ (j : Nat) : List.range' 1 (j + 1) = List.range' 1 j ++ [j + 1] := by
  rw [List.range'_1_concat]
  congr 2
  omega

namespace Control

variable {n : Node σ TS IN OUT} {v : View IN OUT TS} {c c' : NodeID}

/-- The events of each in-channel are sent with markers 1, 2, 3, …. -/
def Numbered (n : Node σ TS IN OUT) (R : NodeID → List (ArconEvent IN)) : Prop :=
  ∀ c ∈ n.inChannels, ∃ k, markers (R c) = List.range' 1 k

/-- A message from `c` with these events completes an epoch. -/
def CompletesWith (n : Node σ TS IN OUT) (st : NodeState IN) (c : NodeID)
    (evs : List (ArconEvent IN)) : Prop :=
  ∃ e ∈ markers evs, Completes n st c e

instance (st : NodeState IN) (c : NodeID) (evs : List (ArconEvent IN)) :
    Decidable (CompletesWith n st c evs) := inferInstanceAs (Decidable (∃ e ∈ markers evs, _))

/-- **The count.** -/
def Counted (n : Node σ TS IN OUT) (v : View IN OUT TS) : Prop :=
  ∀ c ∈ n.inChannels, markers (iterOf c v.acts) =
    List.range' 1 (v.state.epoch + if c ∈ v.state.blockedChannels then 1 else 0)

theorem Counted.of_free (h : Counted n v) (hc : c ∈ n.inChannels)
    (hb : c ∉ v.state.blockedChannels) :
    markers (iterOf c v.acts) = List.range' 1 v.state.epoch := by
  have := h c hc
  rwa [if_neg hb] at this

theorem Counted.of_blocked (h : Counted n v) (hc : c ∈ n.inChannels)
    (hb : c ∈ v.state.blockedChannels) :
    markers (iterOf c v.acts) = List.range' 1 (v.state.epoch + 1) := by
  have := h c hc
  rwa [if_pos hb] at this

theorem step_epoch (ev : ArconEvent IN) : (step v c ev).state.epoch = v.state.epoch :=
  next_epoch ev

theorem replay_epoch (ts : List (NodeID × ArconEvent IN)) :
    (replay v ts).state.epoch = v.state.epoch :=
  replay_rule (I := fun _ (v' : View IN OUT TS) => v'.state.epoch = v.state.epoch)
    (fun t _ _ h => (step_epoch t.2).trans h) ts v rfl

theorem markers_iterOf_step (ev : ArconEvent IN) :
    markers (iterOf c (step v c' ev).acts) =
      markers (iterOf c v.acts) ++ if c' = c then markers [ev] else [] := by
  rw [iterOf_step, markers_append]
  by_cases h : c' = c
  · rw [if_pos h, if_pos h]
  · rw [if_neg h, if_neg h]
    rfl

/-- An event that is no marker leaves the count alone. -/
theorem Counted.step_other (h : Counted n v) {ev : ArconEvent IN}
    (hev : ∀ e, ev ≠ .epoch e) : Counted n (step v c' ev) := by
  have hm : markers [ev] = [] := by
    cases ev with
    | epoch e => exact absurd rfl (hev e)
    | _ => rfl
  have hb : (step v c' ev).state.blockedChannels = v.state.blockedChannels := by
    rw [step_state, next_blockedChannels]
    cases ev with
    | epoch e => exact absurd rfl (hev e)
    | _ => rfl
  intro c hc
  rw [markers_iterOf_step, hm, ite_self, List.append_nil, step_epoch, hb]
  exact h c hc

/-- A marker of the next epoch on a free channel. -/
theorem Counted.step_marker (h : Counted n v) (hc' : c' ∈ n.inChannels)
    (hb : c' ∉ v.state.blockedChannels) :
    Counted n (step v c' (.epoch (v.state.epoch + 1))) := by
  have hblocked : (step v c' (.epoch (v.state.epoch + 1))).state.blockedChannels =
      insert c' v.state.blockedChannels := by
    rw [step_state, next_blockedChannels]
    simp
  intro c hc
  rw [markers_iterOf_step, step_epoch, hblocked, markers_singleton]
  by_cases hcc : c' = c
  · subst hcc
    rw [if_pos rfl, if_pos (Finset.mem_insert_self _ _), h.of_free hc' hb, range'_one_succ]
  · have hmem : c ∈ insert c' v.state.blockedChannels ↔ c ∈ v.state.blockedChannels := by
      rw [Finset.mem_insert]
      exact ⟨fun h => h.resolve_left fun h => hcc h.symm, .inr⟩
    simp only [if_neg hcc, List.append_nil, hmem]
    exact h c hc

/-- **An event on a free channel, when it completes no epoch, keeps the count.** -/
theorem Counted.step (h : Counted n v) (hc' : c' ∈ n.inChannels) {ev : ArconEvent IN}
    (hfree : ∀ e, ev = .epoch e → c' ∉ v.state.blockedChannels) {R rest : List (ArconEvent IN)}
    {k : Nat} (hR : markers R = List.range' 1 k) (hpre : iterOf c' v.acts ++ ev :: rest <+: R) :
    Counted n (step v c' ev) := by
  by_cases hev : ∃ e, ev = .epoch e
  · obtain ⟨e, rfl⟩ := hev
    have hb := hfree e rfl
    rw [next_marker (h.of_free hc' hb) hR hpre]
    exact h.step_marker hc' hb
  · exact h.step_other fun e he => hev ⟨e, he⟩

/-! ## Completed epochs -/

/-- With distinct in-channels, as many blocked ones as there are channels are all of them. -/
theorem mem_of_card_eq {b : Finset NodeID} (hnd : n.inChannels.Nodup)
    (hb : b ⊆ n.inChannels.toFinset) (hcard : b.card = n.inChannels.length)
    (hc : c ∈ n.inChannels) : c ∈ b := by
  have heq : b = n.inChannels.toFinset := by
    refine Finset.eq_of_subset_of_card_le hb ?_
    rw [List.toFinset_card_of_nodup hnd, hcard]
  rw [heq]
  exact List.mem_toFinset.mpr hc

/-- When an epoch completes every other channel is blocked. -/
theorem Completes.mem_blocked {st : NodeState IN} {e : Epoch} (hnd : n.inChannels.Nodup)
    (hwf : WF n st) (hc' : c' ∈ n.inChannels) (hcomp : Completes n st c' e)
    (hc : c ∈ n.inChannels) (hne : c ≠ c') : c ∈ st.blockedChannels := by
  have := mem_of_card_eq hnd (insert_sub hwf.blocked hc') hcomp.2 hc
  exact (Finset.mem_insert.mp this).resolve_left hne

/-- **The marker that completes an epoch has been seen of every channel.** -/
theorem Counted.complete (h : Counted n v) (hnd : n.inChannels.Nodup) (hwf : WF n v.state)
    (hc' : c' ∈ n.inChannels) (hb : c' ∉ v.state.blockedChannels) {e : Epoch}
    (hcomp : Completes n v.state c' e) (he : e = v.state.epoch + 1) (hc : c ∈ n.inChannels) :
    markers (iterOf c (complete v c' e).acts) = List.range' 1 e := by
  rw [iterOf_complete, markers_append]
  by_cases hcc : c' = c
  · subst hcc
    rw [if_pos rfl, h.of_free hc hb, he, range'_one_succ]
    rfl
  · rw [if_neg hcc, he]
    have hmem := hcomp.mem_blocked hnd hwf hc' hc fun h => hcc h.symm
    rw [h.of_blocked hc hmem]
    simp [markers]

theorem iterOf_opened (e : Epoch) : iterOf c (opened v e).acts = iterOf c v.acts := by
  rw [opened, View.note_acts, View.put_acts, iterOf_append]
  exact List.append_nil _

/-- What a completed epoch and its replay iterate over. -/
theorem iterOf_proceed (e : Epoch) :
    iterOf c (proceed (complete v c' e) e).acts =
      iterOf c v.acts ++ (if c' = c then [.epoch e] else []) ++ bufferedOf c v.state := by
  rw [proceed, iterOf_replay, iterOf_opened, iterOf_complete]
  rfl

/-- **A completed epoch keeps the count**, from the state in which its replay starts. -/
theorem Counted.opened (h : Counted n v) (hnd : n.inChannels.Nodup) (hwf : WF n v.state)
    (hc' : c' ∈ n.inChannels) (hb : c' ∉ v.state.blockedChannels) {e : Epoch}
    (hcomp : Completes n v.state c' e) (he : e = v.state.epoch + 1) :
    Counted n (opened (Control.complete v c' e) e) := by
  intro c hc
  rw [iterOf_opened, h.complete hnd hwf hc' hb hcomp he hc]
  rfl

end Control

end Arcon
