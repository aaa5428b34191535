import Arcon.Operator
import Mathlib.Data.List.AList
import Mathlib.Data.Finset.Card

/-!
# Event-time windows (`arcon/src/stream/operator/window`)

The window functions (`mod.rs`) and the operator that assigns elements to windows by their
timestamps (`event_time.rs`). A window function keeps its state per key and index in the backend;
here it is an accumulator, and a window without one has the empty accumulator.

The `u64` sums and products of the operator panic on overflow, as the dev and test profiles do.
`EventTimeWindowAssigner::new` panics unless the slide divides the length; a value of the type here
carries this.
-/

namespace Arcon

/-- `Window<IN, OUT>`: the accumulator of a window that holds nothing, the elements it is given,
and its result, `none` where the Rust panics. -/
structure Window (IN OUT Acc : Type) where
  empty : Acc
  onElement : IN → Acc → Acc
  result : Acc → Option OUT

/-- `AppenderWindow::new`. -/
def AppenderWindow.new {IN OUT : Type} (materializer : List IN → OUT) :
    Window IN OUT (List IN) where
  empty := []
  onElement element buffer := buffer ++ [element]
  result buffer := some (materializer buffer)

/-- `IncrementalWindow::new`. -/
def IncrementalWindow.new {IN OUT : Type} (init : IN → OUT) (agg : IN → OUT → OUT) :
    Window IN OUT (Option OUT) where
  empty := none
  onElement value
    | none => some (init value)
    | some inner => some (agg value inner)
  result acc := acc

/-- `WindowEvent`: the timeout of a window. -/
structure WindowEvent where
  key : Nat
  index : Nat
  timestamp : Nat
  deriving DecidableEq, Repr

/-- `KeyAndIndex`. -/
structure KeyAndIndex where
  key : Nat
  index : Nat
  deriving DecidableEq, Repr

/-- `EventTimeWindowAssignerState`, and the window function's state per key and index. -/
structure WindowState (Acc : Type) where
  windowStart : AList fun _ : Nat => Nat
  activeWindows : Finset KeyAndIndex
  window : AList fun _ : KeyAndIndex => Acc

/-- A backend that holds nothing yet. -/
def WindowState.new (Acc : Type) : WindowState Acc := ⟨∅, ∅, ∅⟩

/-- `EventTimeWindowAssigner`. `dataKey` is `ArconType::get_key` of the data. -/
structure EventTimeWindowAssigner (IN OUT Acc : Type) where
  windowLength : Nat
  windowSlide : Nat
  lateArrivalTime : Nat
  keyed : Bool
  window : Window IN OUT Acc
  dataKey : IN → Nat
  slide_pos : 0 < windowSlide
  slide_le : windowSlide ≤ windowLength
  slide_dvd : windowSlide ∣ windowLength

namespace EventTimeWindowAssigner

variable {IN OUT Acc : Type}

/-- `EventTimeWindowAssigner::new`. -/
def new (window : Window IN OUT Acc) (dataKey : IN → Nat) (length slide late : Nat) (keyed : Bool) :
    Except Crash (EventTimeWindowAssigner IN OUT Acc) :=
  if hle : length < slide then
    .error (.panic "Window Length lower than slide!")
  else if hpos : slide = 0 then
    .error (.panic "attempt to calculate the remainder with a divisor of zero")
  else if hdvd : length % slide ≠ 0 then
    .error (.panic "Window Length not divisible by slide!")
  else
    .ok ⟨length, slide, late, keyed, window, dataKey, Nat.pos_of_ne_zero hpos, not_lt.mp hle,
      Nat.dvd_of_mod_eq_zero (not_not.mp hdvd)⟩

variable (a : EventTimeWindowAssigner IN OUT Acc)

/-- `get_key`. -/
def getKey (e : ArconElement IN) : Nat := if a.keyed then a.dataKey e.data else 0

/-- `new_window_trigger`. -/
def newWindowTrigger (key index : Nat) :
    OpM (WindowState Acc) WindowEvent OUT (Except WindowEvent Unit) := do
  let state ← OpM.read
  let wStart ← OpM.expect "tried to schedule window_trigger for key which hasn't started"
    (state.windowStart.lookup key)
  let offset ← OpM.expect "attempt to multiply with overflow" (checkedMul index a.windowSlide)
  let start ← OpM.expect "attempt to add with overflow" (checkedAdd wStart offset)
  let ts ← OpM.expect "attempt to add with overflow" (checkedAdd start a.windowLength)
  let deadline ← OpM.expect "attempt to add with overflow" (checkedAdd ts a.lateArrivalTime)
  OpM.schedule deadline ⟨key, index, ts⟩

/-- `window.on_element` in the context of a key and an index. -/
def onElement (k : KeyAndIndex) (data : IN) (state : WindowState Acc) : WindowState Acc :=
  { state with
    window := state.window.insert k
      (a.window.onElement data ((state.window.lookup k).getD a.window.empty)) }

/-- The message of the `unreachable!` in `handle_element`. -/
def unreachable : String :=
  "internal error: entered unreachable code: Window was expired when scheduled"

/-- One turn of the loop of `handle_element`. -/
def insertInto (key : Nat) (data : IN) (index : Nat) :
    OpM (WindowState Acc) WindowEvent OUT Unit := do
  OpM.update (a.onElement ⟨key, index⟩ data)
  let state ← OpM.read
  if ⟨key, index⟩ ∈ state.activeWindows then
    pure ()
  else do
    OpM.update fun st => { st with activeWindows := insert ⟨key, index⟩ st.activeWindows }
    match ← a.newWindowTrigger key index with
    | .ok () => pure ()
    | .error _ => OpM.panic unreachable

/-- The lowest and the highest window an element goes into; the first element of a key starts its
windows. -/
def windowRange (key ts : Nat) : OpM (WindowState Acc) WindowEvent OUT (Nat × Nat) := do
  let state ← OpM.read
  match state.windowStart.lookup key with
  | some start => do
    let offset ← OpM.expect "attempt to subtract with overflow" (checkedSub ts start)
    let ceil := offset / a.windowSlide
    if a.windowLength / a.windowSlide ≤ ceil then
      pure (ceil - a.windowLength / a.windowSlide + 1, ceil)
    else
      pure (0, ceil)
  | none => do
    OpM.update fun st => { st with windowStart := st.windowStart.insert key ts }
    pure (0, 0)

/-- `handle_element`. -/
def handleElement (element : ArconElement IN) : OpM (WindowState Acc) WindowEvent OUT Unit := do
  let ts := element.timestamp.getD 1
  let time ← OpM.time
  -- `saturating_sub`
  let tsLowerBound := time - a.lateArrivalTime
  if ts < tsLowerBound then
    pure ()
  else do
    let key := a.getKey element
    let (floor, ceil) ← a.windowRange key ts
    forM (List.range' floor (ceil + 1 - floor)) (a.insertInto key element.data)

/-- `handle_timeout`. -/
def handleTimeout (timeout : WindowEvent) : OpM (WindowState Acc) WindowEvent OUT Unit := do
  let k : KeyAndIndex := ⟨timeout.key, timeout.index⟩
  let state ← OpM.read
  let e ← OpM.expect "uninitialized incremental window"
    (a.window.result ((state.window.lookup k).getD a.window.empty))
  OpM.update fun st => { st with window := st.window.erase k }
  OpM.update fun st => { st with activeWindows := st.activeWindows.erase k }
  OpM.emit (.element (.withTimestamp e timeout.timestamp))

/-- The assigner as an operator. -/
def operator : Operator (WindowState Acc) WindowEvent IN OUT where
  init := id
  handleElement := a.handleElement
  handleWatermark _ := .pure ()
  handleEpoch _ := .pure ()
  handleTimeout := a.handleTimeout

/-- The windows of the Rust tests: they count their elements, all of one key. -/
def counting (length slide late : Nat) (hpos : 0 < slide) (hle : slide ≤ length)
    (hdvd : slide ∣ length) : EventTimeWindowAssigner Nat Nat (List Nat) :=
  ⟨length, slide, late, true, AppenderWindow.new List.length, fun _ => 7, hpos, hle, hdvd⟩

end EventTimeWindowAssigner

end Arcon
