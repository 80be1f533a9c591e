import BandLight.Analyzer
import BandLight.Config
import BandLight.Pipeline.Queue
import BandLight.Sink
import BandLight.Stats

/-! The state of a pipeline. Three parties act on it: a driver delivers blocks,
the transform side analyses them, and the aggregate side ticks; a host sends
commands and polls events. Every action is one function on the state, so any
order of actions is a run. -/
namespace BandLight

inductive Command
  | setTuning (tuning : Tuning)
  | resetHistory
  deriving DecidableEq, Repr, Inhabited

structure Pipeline where
  config : Config
  sink : Sink
  /-- The level events that the sink has accepted. -/
  received : List LevelEvent
  /-- How many nanoseconds the analysis of the `n`-th block takes. -/
  latency : Nat → Nat
  samples : SampleQueue
  lengths : Bounded Nat
  analyzer : Analyzer
  aggregator : Aggregator
  commands : List Command
  events : EventQueue
  counters : Counters
  held : Bool
  hasProducer : Bool
  /-- The aggregate side is there; a sink that breaks ends it. -/
  aggregating : Bool
  running : Bool

namespace Pipeline

def configure (config : Config) : Except PipelineError (Analyzer × Aggregator) := do
  config.validate
  let analyzer ← (Analyzer.configure config.blockSize.toNat).mapError .setup
  let aggregator ←
    (Aggregator.configure config.bands analyzer.transform.spectrumLength config.tuning).mapError
      .setup
  return (analyzer, aggregator)

def start (config : Config) (sink : Sink) (latency : Nat → Nat) (held : Bool) :
    Except PipelineError Pipeline := do
  let (analyzer, aggregator) ← configure config
  let blockSize := config.blockSize.toNat
  return { config, sink, latency, analyzer, aggregator, held
           samples := .empty (2 * blockSize)
           lengths := .empty (2 * blockSize)
           received := []
           commands := []
           events := .empty config.eventQueueCapacity.toNat
           counters := {}
           hasProducer := true
           aggregating := true
           running := true }

/-- Start a pipeline whose configuration is good, if memory can hold as many
events of `slotBytes` bytes as may wait. -/
def launch (slotBytes : Nat) (config : Config) (sink : Sink) (latency : Nat → Nat)
    (held : Bool) : Except PipelineError (Checked Pipeline) := do
  let p ← start config sink latency held
  return do
    let events ← EventQueue.allocate slotBytes config.eventQueueCapacity.toNat
    return { p with events }

def post (p : Pipeline) (event : Event) : Pipeline := { p with events := p.events.post event }

def stats (p : Pipeline) : Stats := p.counters.snapshot p.events.dropped

def isConnected (p : Pipeline) : Bool := p.running

end Pipeline

end BandLight
