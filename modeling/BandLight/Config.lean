import BandLight.PipelineError
import BandLight.Preset
import BandLight.Tuning

/-! The configuration of a pipeline and the quantities that follow from it. -/
namespace BandLight

structure Config where
  blockSize : UInt64
  sampleRate : UInt32
  bands : List Band
  tuning : Tuning
  tickIntervalMs : UInt64
  frequencyFloorBin : Option UInt64
  eventQueueCapacity : UInt64
  deriving DecidableEq, Repr

namespace Config

def standardEventQueueCapacity : UInt64 := 256

def ofPreset (preset : Preset) : Config :=
  { blockSize := preset.blockSize
    sampleRate := preset.sampleRate
    bands := preset.bands
    tuning := .standard
    tickIntervalMs := preset.tickIntervalMs
    frequencyFloorBin := preset.frequencyFloorBin
    eventQueueCapacity := standardEventQueueCapacity }

def standard : Config := ofPreset .music

instance : Inhabited Config := ⟨standard⟩

def spectrumLength (c : Config) : Nat := c.blockSize.toNat / 2

/-- What the pipeline itself asks of a configuration; block size, bands and
tuning are examined by the parts that use them. -/
def validate (c : Config) : Except PipelineError Unit := do
  unless 1000 ≤ c.sampleRate ∧ c.sampleRate ≤ 192000 do
    throw (.invalidSampleRate c.sampleRate.toNat)
  unless 1 ≤ c.tickIntervalMs ∧ c.tickIntervalMs ≤ 10000 do
    throw (.invalidTickInterval c.tickIntervalMs.toNat)
  unless 1 ≤ c.eventQueueCapacity do
    throw .invalidEventQueueCapacity
  match c.frequencyFloorBin with
  | some bin =>
      unless bin.toNat < c.spectrumLength do
        throw (.invalidFrequencyFloor bin.toNat c.spectrumLength)
  | none => return

/-- The time in which one block comes in, in nanoseconds; its analysis has to
be done by then. -/
def blockPeriod (c : Config) : Checked Nat :=
  if c.sampleRate = 0 then .ok 0
  else do
    let product ← Checked.word64 (c.blockSize.toNat * 1000000000)
    return product / c.sampleRate.toNat

def tickInterval (c : Config) : Nat := c.tickIntervalMs.toNat * 1000000

def binWidth (c : Config) : Float32 :=
  if c.blockSize = 0 then 0
  else c.sampleRate.toFloat32 / c.blockSize.toFloat32

def binFrequency (c : Config) (bin : Nat) : Checked UInt32 :=
  Spectrum.binFrequency bin c.sampleRate.toNat c.blockSize.toNat

end Config

end BandLight
