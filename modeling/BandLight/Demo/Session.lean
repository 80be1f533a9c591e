import BandLight.Demo.Options
import BandLight.Demo.Sweep
import BandLight.Pipeline

/-! A run of the demo: the test signal goes through a pipeline block by block,
and every colour that comes out is logged. Blocks and ticks come at the times
of the configuration, on a clock that the run itself keeps. -/
namespace BandLight.Demo

structure Outcome where
  exitCode : UInt32
  printed : String
  log : List String
  errors : String
  deriving DecidableEq, Repr, Inhabited

/-- What a run finds: the bytes that an event takes, and the seconds that the clock
shows at the most. -/
structure Machine where
  slotBytes : Nat
  clock : Nat
  deriving DecidableEq, Repr, Inhabited

structure Session where
  pipeline : Pipeline
  sweep : Sweep
  /-- The lines logged so far, the latest first. -/
  log : List String

namespace Session

def callLine : SinkCall → Option String
  | .light band rgb =>
      some ("Band color band=" ++ toString band ++ " red=" ++ toString rgb.red
        ++ " green=" ++ toString rgb.green ++ " blue=" ++ toString rgb.blue)
  | .level _ => none

def eventLine : Event → Option String
  | .meanFrequency hz => some ("Mean frequency hz=" ++ toString hz)
  | .deadlineMissed elapsed budget =>
      some ("Deadline missed elapsed_us=" ++ toString elapsed ++ " budget_us=" ++ toString budget)
  | .error message => some ("Pipeline error: " ++ message)
  | _ => none

def write (s : Session) (lines : List String) : Session := { s with log := lines.reverse ++ s.log }

def ticks : Nat → Session → Checked Session
  | 0, s => .ok s
  | count + 1, s => do
      let (tick, pipeline) ← s.pipeline.tick
      ticks count ({ s with pipeline }.write (tick.calls.filterMap callLine))

def block (s : Session) : Checked Session := do
  let (samples, sweep) ← Sweep.fill s.pipeline.config.blockSize.toNat s.sweep
  let (taken, pipeline) ← s.pipeline.offer samples
  let (_, pipeline) ← pipeline.advance
  let (events, queue) := pipeline.events.drain
  let dropped := if taken then [] else ["Block dropped"]
  return { s with pipeline := { pipeline with events := queue }, sweep }.write
    (dropped ++ events.filterMap eventLine)

/-- The blocks from one number on that begin before the end, each followed by
the ticks that are due while it lasts. -/
def blocks (period interval : Nat) : Nat → Nat → Session → Checked Session
  | 0, _, s => .ok s
  | count + 1, number, s => do
      let s ← s.block
      let due := (number + 1) * period / interval - number * period / interval
      let s ← ticks due s
      blocks period interval count (number + 1) s

def finishLine (stats : Stats) : String :=
  "Demo finished delivered=" ++ toString stats.blocksDelivered
    ++ " analyzed=" ++ toString stats.blocksAnalyzed
    ++ " overruns=" ++ toString stats.overruns
    ++ " deadline_misses=" ++ toString stats.deadlineMisses
    ++ " events=" ++ toString stats.eventsEmitted

/-- The log of a run of so many seconds. The clock counts them in a signed 64-bit
word, and the end of the run has to be a time on it. -/
def play (clock : Nat) (config : Config) (pipeline : Pipeline) (seconds : Nat) :
    Checked (List String) := do
  let sweep ← Sweep.configure config
  let period ← config.blockPeriod
  let _ ← Checked.signed64 (clock + seconds : Nat)
  let count := (seconds * 1000000000 + period - 1) / period
  let s ← blocks period config.tickInterval count 0 { pipeline, sweep, log := [] }
  let (stats, _, _) := s.pipeline.stop
  return s.log.reverse ++ [finishLine stats]

end Session

def runPreset (machine : Machine) (preset : Preset) (seconds : Nat) : Outcome :=
  let config := Config.ofPreset preset
  let greeting := "Starting MeshBeat demo with preset '" ++ preset.name ++ "'"
  match Pipeline.launch machine.slotBytes config (.color .standard) (fun _ => 0) false with
  | .error error =>
      { exitCode := 0, printed := "", errors := ""
        log := [greeting, "Spectrum visualizer disabled: " ++ error.message] }
  | .ok launched =>
      match launched.bind fun pipeline => Session.play machine.clock config pipeline seconds with
      | .ok log => { exitCode := 0, printed := "", log := greeting :: log, errors := "" }
      | .error _ => { exitCode := 101, printed := "", log := [greeting], errors := "" }

/-- Run the demo with a command line. -/
def run (machine : Machine) (arguments : List String) : Outcome :=
  match Options.parse arguments with
  | .error .help => { exitCode := 0, printed := Options.help, log := [], errors := "" }
  | .error refusal =>
      { exitCode := 2, printed := "", log := [], errors := "error: " ++ refusal.message }
  | .ok options =>
      match Preset.find? options.preset with
      | none =>
          { exitCode := 1, printed := "", log := []
            errors := "Error: unknown preset '" ++ options.preset ++ "'" }
      | some preset => runPreset machine preset options.seconds.toNat

end BandLight.Demo
