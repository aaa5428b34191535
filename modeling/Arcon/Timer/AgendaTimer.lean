import Arcon.Timer.Spec
import Arcon.Lib.Simulation

/-!
# The timer as an agenda

What an event timer is without its wheel and its ids: a time and an agenda of timeouts. Moving it to
a time fires what is due, in the order of the deadlines. In which order timeouts with equal
deadlines fire is for the wheel to decide; here the orders are read off a tape, and an order that is
not one of the due timeouts by their deadlines is refused.

An event timer that is in step does what the agenda it shows does, with some orders
(`advanceTo_follows` and the lemmas before it).
-/

namespace Arcon

open Exec Agenda

/-- A time, an agenda, and the orders in which the timeouts of the moves to come fire. -/
structure AgendaTimer (E : Type) where
  time : Nat
  agenda : Multiset (Nat × EventTimerEvent E)
  orders : List (List (Nat × EventTimerEvent E))

namespace AgendaTimer

variable {E : Type}

def currentTime : EStateM Crash (AgendaTimer E) Nat := do
  let k ← get
  pure k.time

def scheduleAfter (delay : Nat) (entry : E) : EStateM Crash (AgendaTimer E) (Except E Unit) := do
  if delay = 0 then
    pure (.error entry)
  else do
    modify fun k =>
      { k with agenda := (k.time + delay, ⟨k.time, delay, entry⟩) ::ₘ k.agenda }
    pure (.ok ())

def scheduleAt (time : Nat) (entry : E) : EStateM Crash (AgendaTimer E) (Except E Unit) := do
  let now ← currentTime
  if time ≤ now then
    pure (.error entry)
  else
    scheduleAfter (time - now) entry

open Classical in
/-- The due timeouts fire in the next order of the tape, which must be one by their deadlines. -/
noncomputable def advanceTo (ts : Nat) : EStateM Crash (AgendaTimer E) (List E) := fun k =>
  if ts < k.time then
    .ok [] k
  else if k.time < ts ∧ u64Max < ts then
    .error (.panic "attempt to add with overflow") k
  else
    match k.orders with
    | [] => .error .diverges k
    | l :: orders =>
      if Fires k.agenda ts l then
        .ok (l.map fun x => x.2.payload) ⟨ts, later ts k.agenda, orders⟩
      else
        .error .diverges k

noncomputable instance : TimerBackend (AgendaTimer E) E (Nat × Multiset (Nat × EventTimerEvent E))
    where
  persisted k := (k.time, k.agenda)
  init := pure ()
  scheduleAfter := scheduleAfter
  scheduleAt := scheduleAt
  currentTime := currentTime
  advanceTo := advanceTo
  handleEpoch _ := pure ()

variable {k : AgendaTimer E} {ts : Nat}

theorem advanceTo_past (h : ts < k.time) : advanceTo ts k = .ok [] k := by
  unfold advanceTo
  rw [if_pos h]

theorem advanceTo_overflow (h : k.time < ts) (hover : u64Max < ts) :
    advanceTo ts k = .error (.panic "attempt to add with overflow") k := by
  unfold advanceTo
  rw [if_neg (not_lt.mpr h.le), if_pos ⟨h, hover⟩]

theorem advanceTo_fires {l : List (Nat × EventTimerEvent E)}
    {orders : List (List (Nat × EventTimerEvent E))} (ho : k.orders = l :: orders)
    (hle : k.time ≤ ts) (hfit : k.time < ts → ts ≤ u64Max) (hl : Fires k.agenda ts l) :
    advanceTo ts k = .ok (l.map fun x => x.2.payload) ⟨ts, later ts k.agenda, orders⟩ := by
  unfold advanceTo
  rw [if_neg (not_lt.mpr hle), if_neg fun hover => absurd (hfit hover.1) (not_le.mpr hover.2), ho]
  exact if_pos hl

/-- The agenda with a tape of orders. -/
def load (o : List (List (Nat × EventTimerEvent E))) (k : AgendaTimer E) : AgendaTimer E :=
  { k with orders := o }

end AgendaTimer

namespace EventTimer

variable {W Id E : Type} [HashWheel W Id] [DecidableEq Id] [UuidSource Id]
  {t t' : EventTimer W Id E} {k : AgendaTimer E}

/-- The stored timeouts with their deadlines and without their ids. -/
def pendings (t : EventTimer W Id E) : Multiset (Nat × EventTimerEvent E) :=
  t.dated.map (Prod.map id Sigma.snd)

/-- The timer is in step, and the agenda holds what it stores. -/
structure Shows (t : EventTimer W Id E) (k : AgendaTimer E) : Prop where
  inStep : InStep t
  time : k.time = t.time
  agenda : k.agenda = t.pendings

/-- An event timer and the agenda it shows; `chooses` if the timer may be moved. -/
def timerSim (W Id E : Type) [HashWheel W Id] (chooses : Prop) :
    Simulation Crash (EventTimer W Id E) (AgendaTimer E) (List (Nat × EventTimerEvent E)) where
  Rel := Shows
  Fails _ _ _ := True
  load := AgendaTimer.load
  chooses := chooses
  faults := True

variable {chooses : Prop}

omit [DecidableEq Id] [UuidSource Id] in
theorem currentTime_follows :
    (timerSim W Id E chooses).Follows currentTime AgendaTimer.currentTime := by
  intro t k h
  refine (wp_currentTime h.inStep.started).mpr ⟨[], k, fun _ => rfl, h, fun o' => ?_⟩
  rw [← h.time]
  rfl

omit [HashWheel W Id] in
/-- What a scheduled timeout adds. -/
theorem pendings_withTimeout {delay : Nat} {entry : E}
    (hst : t'.state = withTimeout t.state delay entry) :
    t'.pendings = (t.time + delay, ⟨t.time, delay, entry⟩) ::ₘ t.pendings := by
  have hent := entriesOf_withTimeout t.state delay entry
  rw [← hst] at hent
  unfold pendings dated
  rw [show t'.entries = _ from hent, Multiset.map_cons, Multiset.map_cons]
  rfl

theorem scheduleAfter_follows (delay : Nat) (entry : E) :
    (timerSim W Id E chooses).Follows (scheduleAfter delay entry)
      (AgendaTimer.scheduleAfter delay entry) := by
  intro t k h
  refine wp_scheduleAfter h.inStep (fun hzero => ?_) (fun hpos t' hst hsch => ?_)
  · refine ⟨[], k, fun _ => rfl, h, fun o' => ?_⟩
    unfold AgendaTimer.scheduleAfter
    rw [if_pos hzero]
    rfl
  · refine ⟨[], ⟨k.time, (k.time + delay, ⟨k.time, delay, entry⟩) ::ₘ k.agenda, k.orders⟩,
      fun _ => rfl, ⟨hsch.inStep, h.time.trans hsch.time.symm, ?_⟩, fun o' => ?_⟩
    · rw [pendings_withTimeout hst, ← h.agenda, ← h.time]
    · unfold AgendaTimer.scheduleAfter
      rw [if_neg hpos.ne.symm]
      rfl

theorem scheduleAt_follows (time : Nat) (entry : E) :
    (timerSim W Id E chooses).Follows (scheduleAt time entry)
      (AgendaTimer.scheduleAt time entry) := by
  refine currentTime_follows.bind fun now t k h => Simulation.followsAt_ite (fun _ => ?_)
    (fun _ => ?_)
  · exact Simulation.follows_pure _ t k h
  · exact scheduleAfter_follows _ entry t k h

omit [DecidableEq Id] [UuidSource Id] in
/-- Without their ids, the timeouts taken out fire in the same order. -/
theorem Takes.fires_pendings {ts : Nat}
    {l : List (Nat × Sigma fun _ : Id => EventTimerEvent E)} (h : Takes t ts l t') :
    Fires t.pendings ts (l.map (Prod.map id Sigma.snd)) ∧ t'.pendings = later ts t.pendings := by
  refine ⟨h.fires.map _, ?_⟩
  unfold pendings
  rw [h.left, later_map]

omit [UuidSource Id] in
/-- **A move follows a move of the agenda**, with the order in which the wheel fires. -/
theorem advanceTo_follows (ts : Nat) :
    (timerSim W Id E True).Follows (advanceTo ts) (AgendaTimer.advanceTo ts) := by
  intro t k h
  refine wp_advanceTo_takes h.inStep (fun hlt hover t' _ => ?_) (fun hlt => ?_)
    (fun hle hfit l t' hl => ?_)
  · refine ⟨[], k, fun _ => rfl, trivial, fun o' => ?_⟩
    rw [← h.time] at hlt
    exact AgendaTimer.advanceTo_overflow hlt hover
  · refine ⟨[], k, fun _ => rfl, h, fun o' => ?_⟩
    rw [← h.time] at hlt
    exact AgendaTimer.advanceTo_past hlt
  · obtain ⟨hfires, hleft⟩ := hl.fires_pendings
    rw [← h.agenda] at hfires hleft
    rw [← h.time] at hle hfit
    refine ⟨[l.map (Prod.map id Sigma.snd)], ⟨ts, later ts k.agenda, []⟩,
      fun hno => absurd trivial hno, ⟨hl.inStep, hl.time.symm, hleft.symm⟩, fun o' => ?_⟩
    have hmove := AgendaTimer.advanceTo_fires (k := k.load ([l.map (Prod.map id Sigma.snd)] ++ o'))
      rfl hle hfit hfires
    rw [List.map_map] at hmove
    exact hmove

end EventTimer

end Arcon
