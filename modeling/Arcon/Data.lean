import Mathlib.Algebra.Group.Int.Defs
import Mathlib.Algebra.Group.Nat.Defs
import Mathlib.Tactic.Common

/-!
# Stream data (`arcon/src/data/mod.rs`)

Events, elements and messages as the nodes of a pipeline exchange them. `Watermark`, `Epoch` and
`NodeID` are one-field records in the Rust, ordered and compared by that field; here they are that
field. Timestamps are `u64`: sums that the Rust computes go through `checkedAdd`, `checkedSub` and
`checkedMul`, which have no value where the dev and test profiles panic on overflow.

An `ArconEventWrapper` only exists because protobuf has no repeated `oneof`; its `inner` is always
`Some` ("in practice we expect it to always be Some"), so a message carries the events themselves.
-/

namespace Arcon

/-- `NodeID { id }`. -/
abbrev NodeID := Nat

/-- `Watermark { timestamp }`. -/
abbrev Watermark := Nat

/-- `Epoch { epoch }`. -/
abbrev Epoch := Nat

/-- `u64::max_value()`. -/
def u64Max : Nat := 2 ^ 64 - 1

/-- `std::u32::MAX`. -/
def u32Max : Nat := 2 ^ 32 - 1

/-- `a + b` on `u64`, `none` on overflow. -/
def checkedAdd (a b : Nat) : Option Nat := if a + b ≤ u64Max then some (a + b) else none

/-- `a - b` on `u64`, `none` on underflow. -/
def checkedSub (a b : Nat) : Option Nat := if b ≤ a then some (a - b) else none

/-- `a * b` on `u64`, `none` on overflow. -/
def checkedMul (a b : Nat) : Option Nat := if a * b ≤ u64Max then some (a * b) else none

/-- `ArconElement`. -/
structure ArconElement (A : Type) where
  data : A
  timestamp : Option Nat
  deriving DecidableEq, Repr

/-- `ArconElement::with_timestamp`. -/
def ArconElement.withTimestamp {A : Type} (data : A) (ts : Nat) : ArconElement A := ⟨data, some ts⟩

/-- `ArconEvent`. -/
inductive ArconEvent (A : Type)
  | element (e : ArconElement A)
  | watermark (w : Watermark)
  | epoch (e : Epoch)
  | death (msg : String)
  deriving DecidableEq, Repr

/-- `RawArconMessage`: a message from a remote node, or one kept in the state backend. -/
structure RawArconMessage (A : Type) where
  events : List (ArconEvent A)
  sender : NodeID
  deriving DecidableEq, Repr

/-- `ArconMessage`: a local message; its reader is given by the events it yields. -/
structure ArconMessage (A : Type) where
  events : List (ArconEvent A)
  sender : NodeID
  deriving DecidableEq, Repr

/-- `From<ArconMessage> for RawArconMessage`. -/
def ArconMessage.into {A : Type} (m : ArconMessage A) : RawArconMessage A := ⟨m.events, m.sender⟩

/-- `ArconMessage::watermark`. -/
def ArconMessage.watermark {A : Type} (timestamp : Nat) (sender : NodeID) : ArconMessage A :=
  ⟨[.watermark timestamp], sender⟩

/-- `ArconMessage::epoch`. -/
def ArconMessage.epoch {A : Type} (epoch : Nat) (sender : NodeID) : ArconMessage A :=
  ⟨[.epoch epoch], sender⟩

/-- `ArconMessage::element`. -/
def ArconMessage.element {A : Type} (data : A) (timestamp : Option Nat) (sender : NodeID) :
    ArconMessage A := ⟨[.element ⟨data, timestamp⟩], sender⟩

/-- The epoch of a marker, `none` for the other events. -/
def ArconEvent.marker? {A : Type} : ArconEvent A → Option Epoch
  | .epoch e => some e
  | _ => none

/-- The timestamp of a watermark event, `none` for the other events. -/
def ArconEvent.watermark? {A : Type} : ArconEvent A → Option Watermark
  | .watermark w => some w
  | _ => none

/-- Watermarks, epochs and deaths steer the stream; elements carry data. -/
def ArconEvent.isControl {A : Type} : ArconEvent A → Bool
  | .element _ => false
  | _ => true

/-- The epoch markers among some events, in order. -/
def markers {A : Type} (evs : List (ArconEvent A)) : List Epoch := evs.filterMap ArconEvent.marker?

theorem markers_append {A : Type} (l₁ l₂ : List (ArconEvent A)) :
    markers (l₁ ++ l₂) = markers l₁ ++ markers l₂ := List.filterMap_append

end Arcon
