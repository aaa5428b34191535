import Arcon.Node.Pipeline
import Arcon.Sink
import Arcon.Source.Chunked

/-!
# Nodes with a sink

A sink keeps nothing in the state backend: in the checkpoints of its node, `operator` is what the
sink was when they were taken. So what is in the buffer of a `KafkaSink` is lost with the node, and
the elements come again only if the node goes on from a checkpoint before them. That they do: the
buffer is given to the producer before the checkpoint of the epoch is taken.

* **`kafka_sink_covers`**: what a checkpoint covers has been given to the producer.
* **`file_round_trip`**: a file that a sink wrote, read by a `LocalFileSource`.

Out of scope: whether the producer delivers what it is given. The source is taken to open and read
the file without errors; those of its lines that do not parse are in `Source.Chunked`.
-/

namespace Arcon

open Exec Node

variable {σ τ TS IN OUT P : Type}

namespace Node

/-- A node whose operator only works on its state is where its calls take it. -/
theorem run_folds {n : Node σ Empty IN OUT} {step : σ → Call IN → σ}
    (hstep : Collects n.operator step) {s₀ s : NodeSt σ Unit IN OUT Empty Unit}
    (hfresh : Control.Fresh n s₀) {ds : List (Delivery IN)} (hrun : run n ds s₀ = .ok () s) :
    s.ctx.operator = (callsOf s.ctx.log).foldl step s₀.ctx.operator := by
  have hdrive := (wp_ok (Control.run_drives ds hfresh.drives) hrun).driven
  unfold Control.Driven at hdrive
  have hend := wp_ok (drive_folds hstep _ s₀.ctx) hdrive
  exact hend

/-- **What a checkpoint covers has been given to the producer.** For every run of a node with a
Kafka sink that does not panic, on any messages: what was given to the producer, with what is in the
buffer, is what the elements on time are as payloads, in order, each once; and in every checkpoint,
of any epoch `e`, the buffer is empty, and the producer had been given the elements before the
marker of `e` and no others. What the producer was given is never taken back. -/
theorem kafka_sink_covers {toJson : IN → Option String} {n : Node (KafkaSink IN) Empty IN Empty}
    (hop : n.operator = KafkaSink.operator toJson)
    {s₀ s : NodeSt (KafkaSink IN) Unit IN Empty Empty Unit} (hfresh : Control.Fresh n s₀)
    (hempty : s₀.ctx.operator.buffer = []) {ds : List (Delivery IN)}
    (hrun : run n ds s₀ = .ok () s) :
    s.ctx.operator.produced ++ KafkaSink.payloads toJson s.ctx.operator.buffer =
        s₀.ctx.operator.produced ++ KafkaSink.payloads toJson (onTime (iterated s.ctx.log)) ∧
      ∀ dir e snap, n.checkpointDir = some dir →
        (checkpointPath n dir e, snap) ∈ s.checkpoints →
          ∃ its c rest, iterated s.ctx.log = its ++ (c, .epoch e) :: rest ∧
            snap.operator = ⟨[], s₀.ctx.operator.produced ++
              KafkaSink.payloads toJson (onTime its)⟩ ∧
            snap.operator.produced <+: s.ctx.operator.produced := by
  have hfolds : Collects n.operator (KafkaSink.step toJson) := by
    rw [hop]
    exact KafkaSink.collects toJson
  have hend := run_folds hfolds hfresh hrun
  refine ⟨?_, fun dir e snap hdir hmem => ?_⟩
  · obtain ⟨hbuf, hall⟩ := KafkaSink.foldl_step toJson (callsOf s.ctx.log) s₀.ctx.operator
    rw [hempty, List.nil_append] at hall
    rw [← handled_eq_onTime hfresh hrun, hend, hbuf, hempty]
    exact hall
  · obtain ⟨pre, rest, c, hcut⟩ := Control.run_cut hfresh hrun hdir hmem
    obtain ⟨its, q, hits, hhandled⟩ := hcut.marker
    obtain ⟨calls, hcalls⟩ := hcut.epoch
    have hsnap := wp_ok (drive_folds hfolds _ s₀.ctx) hcut.drive
    rw [hcut.operator] at hsnap
    obtain ⟨hbuf, hall⟩ := KafkaSink.foldl_step toJson (callsOf pre) s₀.ctx.operator
    rw [hempty, List.nil_append] at hall
    rw [hcalls, hempty, KafkaSink.sinceEpoch_epoch, ← hcalls] at hbuf
    rw [hcalls, KafkaSink.sinceEpoch_epoch, ← hcalls] at hall
    refine ⟨its, q, iterated rest, ?_, ?_, ?_⟩
    · rw [hcut.log, iterated_append, hits, List.append_assoc]
      rfl
    · rw [hsnap, ← hhandled]
      refine (congrArg (KafkaSink.mk · _) hbuf).trans (congrArg (KafkaSink.mk []) ?_)
      exact (List.append_nil _).symm.trans hall
    · rw [hsnap, hend, hcut.log, callsOf_append, List.foldl_append]
      exact KafkaSink.produced_prefix toJson _ _

/-- A node with a Kafka sink that can write natural numbers only. -/
def kafkaNode : Node (KafkaSink Int) Empty Int Empty where
  id := 0
  inChannels := [1, 2]
  operator := KafkaSink.operator fun x => if x < 0 then none else some (toString x)
  checkpointDir := some "/tmp"
  checkpointFails _ := false

/-- It, started on an empty backend. -/
def kafkaStart : NodeSt (KafkaSink Int) Unit Int Empty Empty Unit where
  state := ⟨[1, 2].foldl initWatermark ∅, some 0, some 0, ∅, []⟩
  ctx := ⟨⟨[], []⟩, (), []⟩
  metrics := { NodeMetrics.new with inboundChannels := 2 }
  borrowed _ := false
  checkpoints := []

theorem kafka_sink_covers_marked :
    ∃ s snap, run kafkaNode markedRun kafkaStart = .ok () s ∧
      (checkpointPath kafkaNode "/tmp" 1, snap) ∈ s.checkpoints ∧
      ∃ its c rest, iterated s.ctx.log = its ++ (c, .epoch 1) :: rest ∧
        snap.operator.buffer = [] ∧ snap.operator.produced <+: s.ctx.operator.produced := by
  have hrun := eq_ok_of_isOk (r := run kafkaNode markedRun kafkaStart) (by decide +kernel)
  have hpath : checkpointPath kafkaNode "/tmp" 1 ∈
      (final (run kafkaNode markedRun kafkaStart)).checkpoints.map Prod.fst := by decide +kernel
  obtain ⟨⟨path, snap⟩, hmem, rfl⟩ := List.mem_map.mp hpath
  obtain ⟨-, hall⟩ := kafka_sink_covers rfl ⟨⟨[], []⟩, (), rfl⟩ rfl hrun
  obtain ⟨its, c, rest, hits, hsnap, hpre⟩ := hall "/tmp" 1 snap rfl hmem
  exact ⟨_, snap, hrun, hmem, its, c, rest, hits, congrArg KafkaSink.buffer hsnap, hpre⟩

/-- A file source on lines that are data written out does one pass over the data. -/
theorem processFile_written [TimerBackend τ TS P] {debug : IN → List Char}
    {parse : String → Option IN} (hparse : ∀ x, parse (String.ofList (debug x)) = some x)
    (src : SourceContext σ TS IN OUT) (data : List IN) :
    (LocalFileSource.processFile src parse
      (some ((data.map debug).map fun l => .ok (String.ofList l))) : SourceM σ τ IN OUT TS Unit) =
      CollectionSource.onePass src 0 data := by
  have hline : ∀ (k : Nat) (x : IN),
      (LocalFileSource.processLine src parse k (.ok (String.ofList (debug x))) :
        SourceM σ τ IN OUT TS Nat) = src.processRecord k x := by
    intro k x
    unfold LocalFileSource.processLine
    simp only [hparse]
  unfold LocalFileSource.processFile CollectionSource.onePass
  simp only [List.map_map, List.foldlM_map, Function.comp_apply, hline]

/-- **Through a file and back.** A node with a `LocalFileSink` appends to a file of lines, which a
`LocalFileSource` reads. If data is printed on one line and parsed to what it was printed from, and
a failed write leaves nothing in the file, then for every run of the node that does not panic the
source does with the file, whatever its operator and its timestamps are, what a collection source
does in one pass over the records that were in the file before, followed by the data of the elements
on time whose write did not fail, in order, each once. -/
theorem file_round_trip [TimerBackend τ TS P] {debug : IN → List Char}
    {parse : String → Option IN} (hline : ∀ x, Text.Line (debug x))
    (hparse : ∀ x, parse (String.ofList (debug x)) = some x)
    {fails : Nat → Option Nat} (hclean : ∀ k left, fails k = some left → left = 0)
    {n : Node LocalFileSink Empty IN Empty} (hop : n.operator = LocalFileSink.operator debug fails)
    {s₀ s : NodeSt LocalFileSink Unit IN Empty Empty Unit} (hfresh : Control.Fresh n s₀)
    {old : List IN} (hold : s₀.ctx.operator.text = LocalFileSink.linesOf debug old)
    {ds : List (Delivery IN)} (hrun : run n ds s₀ = .ok () s) (src : SourceContext σ TS IN OUT) :
    (LocalFileSource.processFile src parse
      (some ((Text.lines s.ctx.operator.text).map fun l => .ok (String.ofList l))) :
        SourceM σ τ IN OUT TS Unit) =
      CollectionSource.onePass src 0 (old ++ LocalFileSink.landed fails s₀.ctx.operator.writes
        ((onTime (iterated s.ctx.log)).map ArconElement.data)) := by
  have hfolds : Collects n.operator (LocalFileSink.step debug fails) := by
    rw [hop]
    exact LocalFileSink.collects debug fails
  have hfile : s.ctx.operator.text = LocalFileSink.linesOf debug (old ++
      LocalFileSink.landed fails s₀.ctx.operator.writes
        ((onTime (iterated s.ctx.log)).map ArconElement.data)) := by
    rw [run_folds hfolds hfresh hrun, LocalFileSink.foldl_step, hold,
      LocalFileSink.written_eq debug hclean, ← handled_eq_onTime hfresh hrun]
    exact List.flatMap_append.symm
  rw [hfile, Text.lines_linesOf hline]
  exact processFile_written hparse src _

/-- The second write fails. -/
def secondFails (k : Nat) : Option Nat := if k = 1 then some 0 else none

/-- A node that writes truth values. -/
def fileNode : Node LocalFileSink Empty Bool Empty where
  id := 0
  inChannels := [1]
  operator := LocalFileSink.operator (fun b => (toString b).toList) secondFails
  checkpointDir := none
  checkpointFails _ := false

/-- It, started with a file of one line. -/
def fileStart : NodeSt LocalFileSink Unit Bool Empty Empty Unit where
  state := ⟨[1].foldl initWatermark ∅, some 0, some 0, ∅, []⟩
  ctx := ⟨⟨"true\n".toList, 0⟩, (), []⟩
  metrics := { NodeMetrics.new with inboundChannels := 1 }
  borrowed _ := false
  checkpoints := []

/-- An element on time, a late one, and two more on time. -/
def fileRun : List (Delivery Bool) :=
  [.onLocal (.element false (some 3) 1), .onLocal (.watermark 5 1),
    .onNetwork ⟨[.element ⟨true, some 4⟩, .element ⟨true, none⟩, .element ⟨false, none⟩], 1⟩]

/-- `bool::from_str`. -/
def parseBool (s : String) : Option Bool :=
  if s = "true" then some true else if s = "false" then some false else none

theorem file_round_trip_bool :
    ∃ s, run fileNode fileRun fileStart = .ok () s ∧
      (LocalFileSource.processFile ⟨none, 2, Filter.new fun b => b⟩ parseBool
        (some ((Text.lines s.ctx.operator.text).map fun l => .ok (String.ofList l))) :
          SourceM Unit Unit Bool Bool Empty Unit) =
        CollectionSource.onePass ⟨none, 2, Filter.new fun b => b⟩ 0 [true, false, false] := by
  have hrun := eq_ok_of_isOk (r := run fileNode fileRun fileStart) (by decide +kernel)
  have hline : ∀ b : Bool, Text.Line (toString b).toList := fun b => by
    cases b <;> exact ⟨by decide, by decide⟩
  have hparse : ∀ b : Bool, parseBool (String.ofList (toString b).toList) = some b := fun b => by
    cases b <;> decide
  have hclean : ∀ k left, secondFails k = some left → left = 0 := fun k left h => by
    unfold secondFails at h
    split_ifs at h
    exact (Option.some.inj h).symm
  have hfresh : Control.Fresh fileNode fileStart := ⟨⟨"true\n".toList, 0⟩, (), rfl⟩
  have hlanded : LocalFileSink.landed secondFails fileStart.ctx.operator.writes ((onTime (iterated
      (final (run fileNode fileRun fileStart)).ctx.log)).map ArconElement.data) =
        [false, false] := by
    decide +kernel
  have hold : fileStart.ctx.operator.text =
      LocalFileSink.linesOf (fun b : Bool => (toString b).toList) [true] := by decide
  have htrip := file_round_trip (τ := Unit) (P := Unit) hline hparse hclean rfl hfresh hold hrun
    (⟨none, 2, Filter.new fun b => b⟩ : SourceContext Unit Empty Bool Bool)
  rw [hlanded] at htrip
  exact ⟨_, hrun, htrip⟩

end Node

end Arcon
