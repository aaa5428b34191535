import Arcon.Operator

/-!
# Sources (`arcon/src/stream/source`)

A source turns records into elements, runs them through its operator and puts a watermark behind
every `watermark_interval` of them. `SourceContext` is what the sources share; a
`CollectionSource` drains a vector in portions, with a message to itself between two of them, and a
`LocalFileSource` reads the lines of a file.

What a source hands to its channel strategy is on the log of its operator context, as for a node:
the operator's elements as `output`, the source's own watermarks as `forward`. The system time is a
list of readings to come.
-/

namespace Arcon

open Exec

/-- The parts of a `SourceContext` that do not change. -/
structure SourceContext (σ TS IN OUT : Type) where
  tsExtractor : Option (IN → Nat)
  watermarkInterval : Nat
  operator : Operator σ TS IN OUT

/-- The parts that change, with the readings of the system time to come. -/
structure SourceSt (σ τ IN OUT TS : Type) where
  currentWatermark : Nat
  ctx : OpCtx σ τ IN OUT TS
  clock : List Nat

/-- The code of a source. -/
abbrev SourceM (σ τ IN OUT TS : Type) := EStateM Crash (SourceSt σ τ IN OUT TS)

namespace SourceContext

variable {σ τ TS IN OUT P : Type} [TimerBackend τ TS P] (src : SourceContext σ TS IN OUT)

/-- `SourceContext::new`, on the state the backend holds and a timer backend over it. -/
def new (op : σ) (timer : τ) (clock : List Nat) : Except Crash (SourceSt σ τ IN OUT TS) :=
  match TimerBackend.init timer with
  | .error e _ => .error e
  | .ok _ timer => .ok ⟨0, ⟨src.operator.init op, timer, []⟩, clock⟩

/-- `get_system_time`. -/
def getSystemTime : SourceM σ τ IN OUT TS Nat := do
  let s ← get
  set { s with clock := s.clock.tail }
  pure (s.clock.headD 0)

/-- `watermark_update`. -/
def watermarkUpdate (ts : Nat) : SourceM σ τ IN OUT TS Unit :=
  modify fun s => if s.currentWatermark < ts then { s with currentWatermark := ts } else s

/-- `generate_watermark`. -/
def generateWatermark : SourceM σ τ IN OUT TS Unit := do
  if src.tsExtractor.isNone then
    watermarkUpdate (← getSystemTime)
  modify fun s => { s with ctx := s.ctx.note (.forward (.watermark s.currentWatermark)) }

/-- `extract_element`. -/
def extractElement (data : IN) : SourceM σ τ IN OUT TS (ArconElement IN) :=
  match src.tsExtractor with
  | some tsFn => do
    watermarkUpdate (tsFn data)
    pure (ArconElement.withTimestamp data (tsFn data))
  | none => pure ⟨data, none⟩

/-- `process`. -/
def process (e : ArconElement IN) : SourceM σ τ IN OUT TS Unit :=
  zoom SourceSt.ctx (fun c s => { s with ctx := c }) (src.operator.handleElement e).run

/-- A record in the loop of either source: the new counter. -/
def processRecord (counter : Nat) (record : IN) : SourceM σ τ IN OUT TS Nat := do
  let elem ← src.extractElement record
  src.process elem
  if counter + 1 = src.watermarkInterval then do
    src.generateWatermark
    pure 0
  else
    pure (counter + 1)

end SourceContext

/-! ## A collection -/

/-- `RESCHEDULE_EVERY`. -/
def rescheduleEvery : Nat := 500000

/-- `CollectionSource`, and whether a `ContinueSending` is on its way. -/
structure CollectionSource (σ τ IN OUT TS : Type) where
  source : SourceSt σ τ IN OUT TS
  collection : List IN
  counter : Nat
  continueSending : Bool

namespace CollectionSource

variable {σ τ TS IN OUT P : Type} [TimerBackend τ TS P] (src : SourceContext σ TS IN OUT)

/-- `CollectionSource::new`. -/
def new (collection : List IN) (source : SourceSt σ τ IN OUT TS) :
    CollectionSource σ τ IN OUT TS := ⟨source, collection, 0, false⟩

/-- The source's own part. -/
def onSource {α : Type} (x : SourceM σ τ IN OUT TS α) :
    EStateM Crash (CollectionSource σ τ IN OUT TS) α :=
  zoom CollectionSource.source (fun t s => { s with source := t }) x

/-- `process_collection`. -/
def processCollection : EStateM Crash (CollectionSource σ τ IN OUT TS) Unit := do
  let s ← get
  let drainTo := min rescheduleEvery s.collection.length
  let counter ← onSource ((s.collection.take drainTo).foldlM src.processRecord s.counter)
  modify fun s => { s with counter := counter, collection := s.collection.drop drainTo }
  if (s.collection.drop drainTo).isEmpty then
    onSource src.generateWatermark
  else
    modify fun s => { s with continueSending := true }

/-- `on_start`. -/
def onStart : EStateM Crash (CollectionSource σ τ IN OUT TS) Unit :=
  modify fun s => { s with continueSending := true }

/-- The messages of the source to itself, at most so many. -/
def run : Nat → EStateM Crash (CollectionSource σ τ IN OUT TS) Unit
  | 0 => pure ()
  | rounds + 1 => do
    if (← get).continueSending then
      modify fun s => { s with continueSending := false }
      processCollection src
      run rounds

end CollectionSource

/-! ## A file -/

namespace LocalFileSource

variable {σ τ TS IN OUT P : Type} [TimerBackend τ TS P] (src : SourceContext σ TS IN OUT)
  (parse : String → Option IN)

/-- A line of the file: one that cannot be read or parsed is logged and skipped. -/
def processLine (counter : Nat) (line : Except String String) : SourceM σ τ IN OUT TS Nat :=
  match line with
  | .error _ => pure counter
  | .ok l =>
    match parse l with
    | none => pure counter
    | some data => src.processRecord counter data

/-- `process_file`, on the lines of the file, or `none` if it cannot be opened. -/
def processFile : Option (List (Except String String)) → SourceM σ τ IN OUT TS Unit
  | none => pure ()
  | some lines => do
    let _ ← lines.foldlM (processLine src parse) 0
    src.generateWatermark

end LocalFileSource

end Arcon
