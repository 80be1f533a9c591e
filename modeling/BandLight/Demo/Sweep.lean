import BandLight.Config
import BandLight.Sample

/-! A test signal: a tone that stays half a second in the middle of each band
in turn, loud at the beginning of every quarter second. It is computed in
single precision, one sample at a time. -/
namespace BandLight.Demo

structure Sweep where
  sampleRate : Float32
  frequencies : List Float32
  phase : Float32
  position : Nat

namespace Sweep

/-- A full turn of the phase. -/
def turn : Float32 := Float32.ofBits 0x40C90FDB

def tone (config : Config) (band : Band) : Checked Float32 := do
  let ends ← Checked.word64 (band.startBin.toNat + band.endBin.toNat)
  let frequency ← config.binFrequency (ends / 2)
  return frequency.toFloat32

def configure (config : Config) : Checked Sweep := do
  let frequencies ← config.bands.mapM (tone config)
  return { sampleRate := config.sampleRate.toFloat32, frequencies, phase := 0, position := 0 }

/-- The tone at the current position. Without bands there is none. -/
def frequency (s : Sweep) (rate : Nat) : Checked Float32 := do
  let halfSteps ← Checked.word64 (s.position * 2)
  match s.frequencies[(halfSteps / max rate 1) % max s.frequencies.length 1]? with
  | some frequency => return frequency
  | none => .error .outOfBounds

def next (s : Sweep) : Checked (Sample × Sweep) := do
  let rate := s.sampleRate.toUInt64.toNat
  let frequency ← s.frequency rate
  let loud := s.position % max (rate / 4) 1 < rate / 10
  let amplitude : Float32 := if loud then 12000 else 800
  let advanced := s.phase + turn * frequency / s.sampleRate
  let phase := if turn < advanced then advanced - turn else advanced
  let position ← Checked.word64 (s.position + 1)
  return ((amplitude * phase.sin).toInt16, { s with phase, position })

def fill : Nat → Sweep → Checked (List Sample × Sweep)
  | 0, s => .ok ([], s)
  | count + 1, s => do
      let (sample, s) ← s.next
      let (samples, s) ← fill count s
      return (sample :: samples, s)

end Sweep

end BandLight.Demo
