import Arcon.Timer.Exact

/-!
# Replaying the timeouts

The wheel of an `EventTimer` is lost with the process; the timeouts and the time are in the state
backend, written at different moments. `init` of the next process puts every stored timeout back
into an empty wheel, `time_when_scheduled + timeout_millis - time` ticks away. This works if the sum
fits a `u64` and is still to come, which is not checked when a timeout is scheduled:
`schedule_after` takes any delay. `Fits` are the timers for which no deadline was ever beyond a
`u64`.

* `Fits.inv`: then every stored deadline is to come and fits, through every tick, skip and jump.
* **`replay_safe_and_exact`**: the wheel holds what is stored, and `init` on a backend with the same
  contents, in whatever order it lists them, returns and builds the same wheel.
-/

namespace Arcon

open Exec Agenda

namespace EventTimer

variable {W Id E : Type} [HashWheel W Id] [DecidableEq Id] [UuidSource Id]
  {t t' : EventTimer W Id E}

/-- What the backend returns after a restart: the same contents, listed in some order. -/
structure Restores (st st' : TimerState Id E) : Prop where
  currentTime : st'.currentTime = st.currentTime
  timeouts : ∀ id, st'.timeouts.lookup id = st.timeouts.lookup id

/-- The timers that come up when all deadlines fit a `u64`: set up on an empty backend, or on one
restored from such a timer, and moved and given timeouts in any order. -/
inductive Fits : EventTimer W Id E → Prop
  | init {t : EventTimer W Id E} (h : init (new (TimerState.new Id E)) = .ok () t) : Fits t
  | restart {t t' : EventTimer W Id E} {st : TimerState Id E} (h : Fits t)
    (hst : Restores t.state st) (hinit : EventTimer.init (new st) = .ok () t') : Fits t'
  | scheduleAfter {t t' : EventTimer W Id E} {delay : Nat} {entry : E} {r : Except E Unit}
    (h : Fits t) (hfits : t.time + delay ≤ u64Max)
    (hrun : EventTimer.scheduleAfter delay entry t = .ok r t') : Fits t'
  | scheduleAt {t t' : EventTimer W Id E} {time : Nat} {entry : E} {r : Except E Unit}
    (h : Fits t) (hfits : time ≤ u64Max)
    (hrun : EventTimer.scheduleAt time entry t = .ok r t') : Fits t'
  | advanceTo {t t' : EventTimer W Id E} {ts : Nat} {res : List E} (h : Fits t)
    (hrun : EventTimer.advanceTo ts t = .ok res t') : Fits t'

/-- The wheel is in step with the timeouts, and their deadlines fit. -/
structure FitsInStep (t : EventTimer W Id E) : Prop where
  inStep : InStep t
  fits : ∀ e ∈ t.entries, e.2.deadline ≤ u64Max

omit [HashWheel W Id] [UuidSource Id] in
/-- The order of the listing does not matter. -/
theorem Restores.entriesOf_eq {st st' : TimerState Id E} (h : Restores st st') :
    entriesOf st'.timeouts = entriesOf st.timeouts := by
  refine Multiset.coe_eq_coe.mpr ?_
  refine List.lookup_ext st'.timeouts.nodupKeys st.timeouts.nodupKeys fun id e => ?_
  have hid : st'.timeouts.lookup id = st.timeouts.lookup id := h.timeouts id
  unfold AList.lookup at hid
  rw [hid]

omit [HashWheel W Id] [DecidableEq Id] [UuidSource Id] in
theorem fits_iff_agenda : (∀ e ∈ t.entries, e.2.deadline ≤ u64Max) ↔
    ∀ x ∈ t.agenda, x.1 ≤ u64Max := by
  unfold agenda
  constructor
  · intro h x hx
    obtain ⟨e, he, rfl⟩ := Multiset.mem_map.mp hx
    exact h e he
  · intro h e he
    exact h _ (Multiset.mem_map_of_mem appointment he)

omit [DecidableEq Id] [UuidSource Id] in
theorem FitsInStep.schedules {deadline : Nat} {entry : E} (h : FitsInStep t)
    (hfits : deadline ≤ u64Max) (hsch : Schedules t deadline entry t') : FitsInStep t' := by
  refine ⟨hsch.inStep, fits_iff_agenda.mpr fun x hx => ?_⟩
  rw [hsch.agenda] at hx
  rcases Multiset.mem_cons.mp hx with rfl | hx
  · exact hfits
  · exact fits_iff_agenda.mp h.fits x hx

omit [DecidableEq Id] [UuidSource Id] in
theorem FitsInStep.moves {ts : Nat} {l : List (Nat × E)} (h : FitsInStep t)
    (hmove : Moves t ts l t') : FitsInStep t' := by
  refine ⟨hmove.inStep, fits_iff_agenda.mpr fun x hx => ?_⟩
  rw [hmove.agenda, mem_later] at hx
  exact fits_iff_agenda.mp h.fits x hx.1

omit [UuidSource Id] in
/-- **A restored timer comes up**, with the wheel it had. -/
theorem FitsInStep.init_eq (h : FitsInStep t) {st : TimerState Id E} (hst : Restores t.state st) :
    ∃ t', init (new st : EventTimer W Id E) = .ok () t' ∧ FitsInStep t' ∧ t'.state = st ∧
      HashWheel.delays t'.timer = HashWheel.delays t.timer := by
  have htime : st.currentTime = some t.time := hst.currentTime.trans h.inStep.started
  have hahead : ∀ e ∈ entriesOf st.timeouts, Ahead t.time e.2 := by
    rw [hst.entriesOf_eq]
    exact fun e he => ⟨h.inStep.pending e he, h.fits e he⟩
  have hnow : st.currentTime.getD 0 = t.time := by
    rw [htime]
    rfl
  cases hinit : init (new st : EventTimer W Id E) with
  | error f s =>
    obtain ⟨e, he, hnot⟩ := wp_error (wp_init hnow) hinit
    exact absurd (hahead e he) hnot
  | ok u t' =>
    obtain ⟨-, hstep, hstate⟩ := wp_ok (wp_init hnow) hinit
    have hsame : t'.state = st := by rw [hstate, ← htime]
    have htime' : t'.time = t.time := by
      unfold time at hnow ⊢
      rw [hsame, hnow]
    have hentries : t'.entries = t.entries := by
      unfold entries
      rw [hsame]
      exact hst.entriesOf_eq
    refine ⟨t', rfl, ⟨hstep, by rw [hentries]; exact h.fits⟩, hsame, ?_⟩
    rw [hstep.wheel, h.inStep.wheel, hentries, htime']

/-- **Every deadline is to come and fits**, whatever the timer went through. -/
theorem Fits.inv (h : Fits t) : FitsInStep t := by
  induction h with
  | init h =>
    obtain ⟨-, hstep, hstate⟩ := wp_ok (wp_init rfl) h
    refine ⟨hstep, fun e he => ?_⟩
    unfold entries at he
    rw [hstate] at he
    exact absurd he (Multiset.notMem_zero e)
  | restart _ hst hinit ih =>
    obtain ⟨t'', hinit', hinv, -⟩ := ih.init_eq hst
    cases hinit.symm.trans hinit'
    exact hinv
  | scheduleAfter _ hfits hrun ih =>
    exact wp_ok (Q := fun _ t => FitsInStep t) (E := fun _ _ => True)
      (wp_scheduleAfter ih.inStep (fun _ => ih) fun _ _ _ hsch => ih.schedules hfits hsch) hrun
  | scheduleAt _ hfits hrun ih =>
    exact wp_ok (Q := fun _ t => FitsInStep t) (E := fun _ _ => True)
      (wp_scheduleAt ih.inStep (fun _ => ih) fun _ _ _ hsch => ih.schedules hfits hsch) hrun
  | advanceTo _ hrun ih =>
    exact wp_ok (Q := fun _ t => FitsInStep t) (E := fun _ _ => True)
      (wp_advanceTo ih.inStep (fun _ _ => trivial) (fun _ => ih) fun _ _ _ hmove => ih.moves hmove)
      hrun

/-- The wheel holds the stored timeouts, each as far away as its deadline is. -/
structure HoldsStored (t : EventTimer W Id E) (now : Nat) : Prop where
  started : t.state.currentTime = some now
  pending : ∀ id e, t.state.timeouts.lookup id = some e →
    now < e.timeWhenScheduled + e.timeoutMillis
  remaining : ∀ id e delay, t.state.timeouts.lookup id = some e →
    (id, delay) ∈ HashWheel.delays t.timer → e.timeWhenScheduled + e.timeoutMillis = now + delay
  ids : (HashWheel.delays t.timer).map Prod.fst = t.state.timeouts.keys
  once : ((HashWheel.delays t.timer).map Prod.fst).Nodup

omit [UuidSource Id] in
theorem InStep.holdsStored (h : InStep t) : HoldsStored t t.time := by
  have hids : (HashWheel.delays t.timer).map Prod.fst = t.state.timeouts.keys := by
    rw [h.wheel, Multiset.map_map]
    rfl
  refine ⟨h.started, fun id e he => ?_, fun id e delay he hdelay => ?_, hids, ?_⟩
  · exact h.pending ⟨id, e⟩ (AList.mem_lookup_iff.mp he)
  · rw [h.wheel] at hdelay
    obtain ⟨⟨id', e'⟩, he', heq⟩ := Multiset.mem_map.mp hdelay
    have hid : id' = id := congrArg Prod.fst heq
    subst hid
    have hlookup : t.state.timeouts.lookup id' = some e' := AList.mem_lookup_iff.mpr he'
    cases he.symm.trans hlookup
    have hpending := h.pending ⟨id', e⟩ he'
    have hdelay' : e.deadline - t.time = delay := congrArg Prod.snd heq
    unfold EventTimerEvent.deadline at hpending hdelay'
    dsimp only at hpending
    omega
  · rw [hids]
    exact Multiset.coe_nodup.mpr t.state.timeouts.keys_nodup

/-- **Replay is safe and exact.** In every timer that comes up through any sequence of
`schedule_after` and `schedule_at` with deadlines that fit a `u64`, `advance_to` and restarts: every
stored timeout is due after the current time, at the current time plus the remaining delay of its id
in the wheel, and the ids in the wheel are those stored, each once. So `init` on a backend with the
same contents, listed in any order, returns without a panic, leaves the backend as it is and builds
a wheel with the same delay for every id. -/
theorem replay_safe_and_exact (h : Fits t) :
    HoldsStored t t.time ∧ ∀ st, Restores t.state st →
      ∃ t', init (new st : EventTimer W Id E) = .ok () t' ∧ t'.state = st ∧
        HashWheel.delays t'.timer = HashWheel.delays t.timer := by
  refine ⟨h.inv.inStep.holdsStored, fun st hst => ?_⟩
  obtain ⟨t', hinit, -, hstate, hdelays⟩ := h.inv.init_eq hst
  exact ⟨t', hinit, hstate, hdelays⟩

/-- The timer with one timeout at time 1. -/
def movedTimeout : EventTimer ListWheel Nat Bool :=
  ⟨⟨[(1, 2)]⟩, ⟨some 1, AList.singleton 1 ⟨0, 3, true⟩⟩⟩

/-- There it is given a second timeout. -/
def bothTimeouts : EventTimer ListWheel Nat Bool :=
  ⟨⟨[(1, 2), (2, 6)]⟩, ⟨some 1, (AList.singleton 1 ⟨0, 3, true⟩).insert 2 ⟨1, 6, false⟩⟩⟩

/-- At time 3 the first is gone from the wheel and the backend. -/
def secondTimeout : EventTimer ListWheel Nat Bool :=
  ⟨⟨[(2, 4)]⟩, ⟨some 3, AList.singleton 2 ⟨1, 6, false⟩⟩⟩

theorem secondTimeout_fits : Fits secondTimeout := by
  have hsecond : scheduleAfter 6 false movedTimeout = .ok (.ok ()) bothTimeouts := rfl
  have hmove : advanceTo 1 oneTimeout = .ok [] movedTimeout := rfl
  have hfire : advanceTo 3 bothTimeouts = .ok [true] secondTimeout := rfl
  have hfirst : Fits oneTimeout := .scheduleAt (.init rfl) (by decide : 3 ≤ u64Max) rfl
  exact .advanceTo (.scheduleAfter (.advanceTo hfirst hmove) (by decide) hsecond) hfire

theorem replay_safe_and_exact_second :
    Fits secondTimeout ∧ ∃ t', init (new secondTimeout.state : EventTimer ListWheel Nat Bool) =
      .ok () t' ∧ HashWheel.delays t'.timer = {(2, 4)} := by
  obtain ⟨-, hinit⟩ := replay_safe_and_exact secondTimeout_fits
  obtain ⟨t', hrun, -, hdelays⟩ := hinit _ ⟨rfl, fun _ => rfl⟩
  exact ⟨secondTimeout_fits, t', hrun, hdelays⟩

end EventTimer

end Arcon
