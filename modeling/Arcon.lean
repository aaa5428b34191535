import Arcon.Driver
import Arcon.Node.Model
import Arcon.Node.Rules
import Arcon.Node.Replay
import Arcon.Node.Control
import Arcon.Node.Refine
import Arcon.Node.Drive
import Arcon.Node.Fifo
import Arcon.Node.Epoch
import Arcon.Node.Alignment
import Arcon.Node.NoLostEpoch
import Arcon.Node.Watermark
import Arcon.Node.Borrow
import Arcon.Lib.Agenda
import Arcon.Lib.Abstraction
import Arcon.Timer.Wheel
import Arcon.Timer.EventTimer
import Arcon.Timer.Spec
import Arcon.Timer.Clock
import Arcon.Window.Model
import Arcon.Window.Rules
import Arcon.Node.LowWatermark
import Arcon.Window.Spec
import Arcon.Window.Runs
import Arcon.Window.Output
import Arcon.Buffer.Model
import Arcon.Channel.Exchange
import Arcon.Channel.Strategy
import Arcon.Channel.Exclusive
import Arcon.Channel.Rules
import Arcon.Channel.Delivery
import Arcon.Channel.KeyRanges
import Arcon.Channel.Contract
import Arcon.Channel.Guarantee
import Arcon.Channel.Control
import Arcon.Node.Wedge
import Arcon.Source.Model
import Arcon.Source.Stream
import Arcon.Source.Feed
import Arcon.Lib.Bytes
import Arcon.State.Serialization
import Arcon.Lib.Merge
import Arcon.State.Handle
import Arcon.State.Backends
import Arcon.State.VecOps
import Arcon.State.VecFormat
import Arcon.State.VecRefine
import Arcon.State.MapOps
import Arcon.Lib.Listing
import Arcon.State.MapRefine
import Arcon.State.Faster
import Arcon.State.FasterIndex
import Arcon.Node.Fallible
import Arcon.Node.ReplayLoss
import Arcon.Window.Lateness
import Arcon.Lib.Footprint
import Arcon.State.FasterOps
import Arcon.State.FasterIsolation
import Arcon.State.Recovery
import Arcon.Lib.Files
import Arcon.State.SledDump
import Arcon.State.RocksRegistry
import Arcon.FlightSerde
import Arcon.Kompact.Frame
import Arcon.Kompact.RoundTrip
import Arcon.Kompact.Ask
import Arcon.Source.Kafka
import Arcon.Source.KafkaEpochs
import Arcon.Window.OutOfOrder
import Arcon.Timer.Exact
import Arcon.Lib.Simulation
import Arcon.Timer.AgendaTimer
import Arcon.Node.Mirror
import Arcon.Node.Restore
import Arcon.State.RocksPrefix
import Arcon.Lib.Slots
import Arcon.State.Folding
import Arcon.State.AggregatorOps
import Arcon.State.AggregatorRefine
import Arcon.Window.Incremental
import Arcon.State.Reducer
import Arcon.State.FixedDecode
import Arcon.Channel.KeySpace
import Arcon.Timer.Replay
import Arcon.Source.Chunked
import Arcon.Allocator
import Arcon.Kompact.Atomic
import Arcon.Source.KafkaCommits
import Arcon.Lib.Ring
import Arcon.Lib.RunningMean
import Arcon.State.Metered
import Arcon.Lib.Splitting
import Arcon.Source.LineDecoder
import Arcon.Window.Appender
import Arcon.Lib.Reference
import Arcon.State.ValueState
import Arcon.State.FasterVec
import Arcon.State.RocksMap
import Arcon.Function
import Arcon.Node.Function
import Arcon.Lib.Message
import Arcon.Nexmark.Data
import Arcon.Lib.StreamJoin
import Arcon.Nexmark.Q3
import Arcon.Nexmark.Q3Stores
import Arcon.Node.Snapshots
import Arcon.Node.Punctual
import Arcon.Node.Pipeline
import Arcon.Sink
import Arcon.Node.Sinks
import Arcon.Lib.Sharding
import Arcon.Node.Sharded
