import Arcon.Timer.Wheel

/-!
# The event timer (`arcon/src/timer/event_timer.rs`)

`EventTimer` keeps its time and its timeouts in the state backend and the order in which they fire
in a hash wheel. The functions follow the Rust; sums and differences are those of the dev and test
profiles, so they panic on overflow. `tick_and_collect` and `advance_to` are loops, bounded here by
the time that is left, of which every turn takes some.
-/

namespace Arcon

open Exec

/-- `EventTimerEvent`. -/
structure EventTimerEvent (E : Type) where
  timeWhenScheduled : Nat
  timeoutMillis : Nat
  payload : E

/-- The time at which a timeout is due. -/
def EventTimerEvent.deadline {E : Type} (e : EventTimerEvent E) : Nat :=
  e.timeWhenScheduled + e.timeoutMillis

/-- `TimerState`: what the timer keeps in the state backend. -/
structure TimerState (Id E : Type) where
  currentTime : Option Nat
  timeouts : AList fun _ : Id => EventTimerEvent E

/-- `EventTimer`. -/
structure EventTimer (W Id E : Type) where
  timer : W
  state : TimerState Id E

/-- A backend that holds nothing yet. -/
def TimerState.new (Id E : Type) : TimerState Id E := ⟨none, ∅⟩

namespace EventTimer

variable {W Id E : Type} [HashWheel W Id] [DecidableEq Id]

/-- A program of the timer. -/
abbrev TimerM (W Id E : Type) := EStateM Crash (EventTimer W Id E)

/-- `EventTimer::new`, over what the backend holds. -/
def new (state : TimerState Id E) : EventTimer W Id E := ⟨HashWheel.default, state⟩

/-- Arithmetic that must not overflow, or an `unwrap`. -/
def expect {α : Type} (msg : String) : Option α → TimerM W Id E α
  | some a => pure a
  | none => throw (.panic msg)

/-- `current_time`. -/
def currentTime : TimerM W Id E Nat := do
  let t ← get
  expect "called `Option::unwrap()` on a `None` value" t.state.currentTime

/-- `set_time`. -/
def setTime (ts : Nat) : TimerM W Id E Unit :=
  modify fun t => { t with state := { t.state with currentTime := some ts } }

/-- `add_time`. -/
def addTime (by_ : Nat) : TimerM W Id E Unit := do
  let cur ← currentTime
  let newTime ← expect "attempt to add with overflow" (checkedAdd cur by_)
  setTime newTime

/-- Work on the wheel. -/
def modifyWheel (f : W → W) : TimerM W Id E Unit := modify fun t => { t with timer := f t.timer }

/-- `take_entry`. -/
def takeEntry (id : Id) : TimerM W Id E (Option E) := do
  let t ← get
  set { t with state := { t.state with timeouts := t.state.timeouts.erase id } }
  pure ((t.state.timeouts.lookup id).map EventTimerEvent.payload)

/-- `put_entry`. -/
def putEntry (id : Id) (e : EventTimerEvent E) : TimerM W Id E Unit :=
  modify fun t => { t with state := { t.state with timeouts := t.state.timeouts.insert id e } }

/-- The loop over the entries of a tick. -/
def collect : List Id → List E → TimerM W Id E (List E)
  | [], res => pure res
  | id :: ids, res => do
    match ← takeEntry id with
    | some entry => collect ids (res ++ [entry])
    | none => collect ids res

/-- `tick_and_collect`, with the timeouts collected so far. -/
def tickAndCollect : Nat → Nat → List E → TimerM W Id E (List E)
  | 0, timeLeft, res => if timeLeft = 0 then pure res else throw .diverges
  | bound + 1, timeLeft, res => do
    if timeLeft = 0 then
      pure res
    else
      let t ← get
      match HashWheel.canSkip t.timer with
      | .empty => do
        addTime timeLeft
        pure res
      | .millis skipMs =>
        if timeLeft ≤ skipMs then do
          modifyWheel (HashWheel.skip timeLeft)
          addTime timeLeft
          pure res
        else do
          modifyWheel (HashWheel.skip skipMs)
          addTime skipMs
          tickAndCollect bound (timeLeft - skipMs) res
      | .none => do
        modifyWheel fun w => (HashWheel.tick w).2
        let res ← collect (HashWheel.tick t.timer).1 res
        addTime 1
        tickAndCollect bound (timeLeft - 1) res

/-- The loop of `advance_to` over stretches that fit a `u32`. -/
def advanceLoop : Nat → Nat → List E → TimerM W Id E (List E)
  | 0, timeLeft, res => tickAndCollect timeLeft timeLeft res
  | bound + 1, timeLeft, res =>
    if u32Max < timeLeft then do
      let res ← tickAndCollect u32Max u32Max res
      advanceLoop bound (timeLeft - u32Max) res
    else
      tickAndCollect timeLeft timeLeft res

/-- `advance_to`. -/
def advanceTo (ts : Nat) : TimerM W Id E (List E) := do
  let curTime ← currentTime
  if ts < curTime then
    pure []
  else
    advanceLoop (ts - curTime) (ts - curTime) []

variable [UuidSource Id]

/-- `schedule_after`. -/
def scheduleAfter (delay : Nat) (entry : E) : TimerM W Id E (Except E Unit) := do
  let t ← get
  let id := UuidSource.newV4 t.state.timeouts.keys
  match HashWheel.insertWithDelay id delay t.timer with
  | none => pure (.error entry)
  | some w => do
    modifyWheel fun _ => w
    let cur ← currentTime
    putEntry id ⟨cur, delay, entry⟩
    pure (.ok ())

/-- `schedule_at`. -/
def scheduleAt (time : Nat) (entry : E) : TimerM W Id E (Except E Unit) := do
  let curTime ← currentTime
  if time ≤ curTime then
    pure (.error entry)
  else
    scheduleAfter (time - curTime) entry

omit [DecidableEq Id] [UuidSource Id] in
/-- One turn of the loop of `replay_events`. -/
def replayEvent (time : Nat) (e : Sigma fun _ : Id => EventTimerEvent E) : TimerM W Id E Unit := do
  let deadline ← expect "attempt to add with overflow"
    (checkedAdd e.2.timeWhenScheduled e.2.timeoutMillis)
  let delay ← expect "attempt to subtract with overflow" (checkedSub deadline time)
  let t ← get
  match HashWheel.insertWithDelay e.1 delay t.timer with
  | none => throw (.panic "A timeout has expired during replay")
  | some w => modifyWheel fun _ => w

/-- `replay_events`. -/
def replayEvents : TimerM W Id E Unit := do
  let time ← currentTime
  let t ← get
  forM t.state.timeouts.entries (replayEvent time)

/-- `init`. -/
def init : TimerM W Id E Unit := do
  modify fun t =>
    { t with state := { t.state with currentTime := some (t.state.currentTime.getD 0) } }
  replayEvents

instance : TimerBackend (EventTimer W Id E) E (TimerState Id E) where
  persisted := EventTimer.state
  init := init
  scheduleAfter := scheduleAfter
  scheduleAt := scheduleAt
  currentTime := currentTime
  advanceTo := advanceTo
  handleEpoch _ := pure ()

end EventTimer

end Arcon
