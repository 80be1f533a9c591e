import BandLight.Pipeline.State

/-! One tick of the aggregate side: first the commands since the last tick, in
order, then the waiting spectrum if there is one. Its level events go to the
sink and then to the host, band by band; the mean frequency follows them. -/
namespace BandLight

structure Tick where
  consumed : Bool
  calls : List SinkCall
  broken : Bool
  deriving DecidableEq, Repr, Inhabited

namespace Pipeline

def applyCommand (p : Pipeline) : Command → Pipeline
  | .setTuning tuning =>
      match p.aggregator.setTuning tuning with
      | .ok aggregator => { p with aggregator }
      | .error error => p.post (.error error.message)
  | .resetHistory => { p with aggregator := p.aggregator.reset }

def applyCommands (p : Pipeline) : Pipeline :=
  p.commands.foldl applyCommand { p with commands := [] }

def meanFrequency (p : Pipeline) (s : Spectrum) : Checked (Option UInt32) :=
  match p.config.frequencyFloorBin with
  | none => .ok none
  | some bin => s.meanActiveFrequency p.config.sampleRate.toNat bin.toNat

/-- Aggregate a collected spectrum. A sink that breaks ends the aggregate side
on the spot: nothing further is posted or counted. -/
def aggregate (p : Pipeline) (s : Spectrum) : Checked (Tick × Pipeline) := do
  let (levels, aggregator) ← p.aggregator.tick s
  let (calls, accepted, whole) := p.sink.acceptAll p.received levels
  let p := { p with aggregator, received := p.received ++ accepted
                    events := p.events.postAll (accepted.map .ofLevel) }
  if whole then
    let counters := { p.counters with emitted := p.counters.emitted + levels.length }
    let mean ← p.meanFrequency s
    return ({ consumed := true, calls, broken := false },
      { p with counters, events := p.events.postAll (mean.toList.map .meanFrequency) })
  else
    return ({ consumed := true, calls, broken := true }, { p with aggregating := false })

def tick (p : Pipeline) : Checked (Tick × Pipeline) := do
  let p := p.applyCommands
  let (claimed, spectrum, mailbox) ← p.analyzer.mailbox.collectInto ⟨[]⟩
  if claimed then
    let counters := { p.counters with consumed := p.counters.consumed + 1 }
    { p with analyzer := { p.analyzer with mailbox }, counters }.aggregate spectrum
  else return ({ consumed := false, calls := [], broken := false }, p)

end Pipeline

end BandLight
