import BandLight.Analyzer
import BandLight.Config
import BandLight.Color

/-! The analysis without a pipeline: one analyzer and one aggregator, used in
turn. -/
namespace BandLight

structure Chain where
  analyzer : Analyzer
  aggregator : Aggregator
  sampleRate : UInt32
  frequencyFloorBin : Option UInt64
  deriving DecidableEq, Repr

structure Reading where
  events : List LevelEvent
  meanFrequency : Option UInt32
  deriving DecidableEq, Repr

namespace Chain

/-- Only block size, bands and tuning have to be valid. -/
def configure (config : Config) : Except SetupError Chain := do
  let analyzer ← Analyzer.configure config.blockSize.toNat
  let aggregator ← Aggregator.configure config.bands config.spectrumLength config.tuning
  return { analyzer, aggregator, sampleRate := config.sampleRate
           frequencyFloorBin := config.frequencyFloorBin }

def push (c : Chain) (samples : List Sample) : Checked (List Analysis × Chain) := do
  let (analyses, analyzer) ← c.analyzer.push samples
  return (analyses, { c with analyzer })

/-- Analyse a block on its own: no more than the block size is taken, and what
is taken is released at once. -/
def deliver (c : Chain) (block : List Sample) : Checked (Option Analysis × Chain) := do
  let active := c.analyzer.ring.active
  let (_, ring) ← c.analyzer.ring.fill (block.take c.analyzer.ring.blockSize)
  let (analysis, analyzer) ← { c.analyzer with ring }.release active
  return (analysis, { c with analyzer })

def tick (c : Chain) : Checked (Option Reading × Chain) :=
  match c.analyzer.mailbox.collect with
  | (none, _) => .ok (none, c)
  | (some spectrum, mailbox) => do
      let (events, aggregator) ← c.aggregator.tick spectrum
      let meanFrequency ← match c.frequencyFloorBin with
        | none => pure none
        | some bin => spectrum.meanActiveFrequency c.sampleRate.toNat bin.toNat
      let c := { c with aggregator, analyzer := { c.analyzer with mailbox } }
      return (some { events, meanFrequency }, c)

end Chain

end BandLight
