import BandLight.Pipeline.Intake
import BandLight.Pipeline.Tick

/-! A pipeline as its driver and its host see it: the steps they can take and
the answers they get. -/
namespace BandLight.Pipeline

inductive DriverStep
  | deliver (samples : List Sample)
  | deliverBytes (bytes : List UInt8)
  | dropProducer
  | askConnected
  deriving DecidableEq, Repr, Inhabited

inductive HostStep
  | release
  | tick
  | setTuning (tuning : Tuning)
  | resetHistory
  | poll
  | drainEvents
  | countEvents
  | askStats
  | shutdown
  deriving DecidableEq, Repr, Inhabited

inductive Step
  | driver (step : DriverStep)
  | host (step : HostStep)
  deriving DecidableEq, Repr, Inhabited

inductive Answer
  | accepted (taken : Bool)
  | connection (connected : Bool) (blockSize : Nat)
  | done
  | ticked (tick : Tick)
  | rejected (error : PipelineError)
  | event (event : Option Event)
  | events (events : List Event)
  | count (events : Nat)
  | statistics (stats : Stats) (running : Bool)
  /-- The last tick, if the aggregate side was there, then counts and events. -/
  | finished (tick : Option Tick) (stats : Stats) (events : List Event)
  | noProducer
  | stopped
  | aggregatorGone
  deriving DecidableEq, Repr, Inhabited

structure Report where
  answer : Answer
  analyses : List Analysis := []
  deriving DecidableEq, Repr, Inhabited

def send (p : Pipeline) (command : Command) : Except PipelineError Pipeline :=
  if !p.running then .error .notRunning
  else if !p.aggregating then .error .channelSendError
  else .ok { p with commands := p.commands ++ [command] }

def sendTuning (p : Pipeline) (tuning : Tuning) : Except PipelineError Pipeline := do
  tuning.validate.mapError .setup
  p.send (.setTuning tuning)

def answerSend (p : Pipeline) : Except PipelineError Pipeline → Report × Pipeline
  | .ok next => ({ answer := .done }, next)
  | .error error => ({ answer := .rejected error }, p)

/-- End both sides. The aggregate side says so last, and the host leaves with
the events that are left. -/
def stop (p : Pipeline) : Stats × List Event × Pipeline :=
  let p := if p.aggregating then p.post .stopped else p
  let (events, queue) := p.events.drain
  (p.stats, events, { p with events := queue.leave, running := false, aggregating := false })

def shutdown (p : Pipeline) : Checked (Report × Pipeline) := do
  let (analyses, p) ← p.release
  if p.aggregating then
    let (tick, p) ← p.tick
    let (stats, events, p) := p.stop
    return ({ answer := .finished (some tick) stats events, analyses }, p)
  else
    let (stats, events, p) := p.stop
    return ({ answer := .finished none stats events, analyses }, p)

def afterOffer (offered : Bool × Pipeline) : Checked (Report × Pipeline) := do
  let (analyses, p) ← offered.2.advance
  return ({ answer := .accepted offered.1, analyses }, p)

/-- The driver's steps, which outlive the pipeline but not the producer. -/
def driverStep (p : Pipeline) : DriverStep → Checked (Report × Pipeline)
  | .deliver samples =>
      if p.hasProducer then do
        let offered ← p.offer samples
        afterOffer offered
      else .ok ({ answer := .noProducer }, p)
  | .deliverBytes bytes =>
      if p.hasProducer then afterOffer (p.offerBytes bytes) else .ok ({ answer := .noProducer }, p)
  | .dropProducer => do
      let (analyses, p) ← p.release
      return ({ answer := .done, analyses }, { p with hasProducer := false })
  | .askConnected =>
      if p.hasProducer then
        .ok ({ answer := .connection p.isConnected p.config.blockSize.toNat }, p)
      else .ok ({ answer := .noProducer }, p)

def hostStep (p : Pipeline) : HostStep → Checked (Report × Pipeline)
  | .release => do
      let (analyses, p) ← p.release
      return ({ answer := .done, analyses }, p)
  | .tick =>
      if p.aggregating then do
        let (tick, p) ← p.tick
        return ({ answer := .ticked tick }, p)
      else .ok ({ answer := .aggregatorGone }, p)
  | .setTuning tuning => .ok (p.answerSend (p.sendTuning tuning))
  | .resetHistory => .ok (p.answerSend (p.send .resetHistory))
  | .poll =>
      let (event, events) := p.events.poll
      .ok ({ answer := .event event }, { p with events })
  | .drainEvents =>
      let (all, events) := p.events.drain
      .ok ({ answer := .events all }, { p with events })
  | .countEvents => .ok ({ answer := .count p.events.queue.items.length }, p)
  | .askStats => .ok ({ answer := .statistics p.stats p.running }, p)
  | .shutdown => p.shutdown

def perform (p : Pipeline) : Step → Checked (Report × Pipeline)
  | .driver s => p.driverStep s
  | .host s => if p.running then p.hostStep s else .ok ({ answer := .stopped }, p)

def step (p : Pipeline) (s : Step) : Checked (Answer × Pipeline) := do
  let (report, p) ← p.perform s
  return (report.answer, p)

def run (p : Pipeline) (steps : List Step) : List (Checked Answer) :=
  Checked.answers step p steps

end BandLight.Pipeline
