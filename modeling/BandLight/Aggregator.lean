import BandLight.Band
import BandLight.Tuning

/-! From spectra to level events. A tick sums every band; a band emits a level
when its sum has risen by more than the threshold over the sum at its last
emission. A band without energy forgets that sum, and a band that falls or
holds keeps it and stays quiet. -/
namespace BandLight

structure LevelEvent where
  band : UInt64
  level : UInt8
  deriving DecidableEq, Repr, Inhabited

structure Aggregator where
  bands : List Band
  tuning : Tuning
  spectrumLength : Nat
  sums : List Nat
  /-- The sum of each band at its last emission. -/
  previous : List Nat
  threshold : Nat
  divisor : Nat
  deriving DecidableEq, Repr, Inhabited

namespace Aggregator

def validateBands (spectrumLength : Nat) : Nat → List Band → Except SetupError Unit
  | _, [] => .ok ()
  | index, band :: bands =>
      if band.endBin < band.startBin then
        .error (.invertedBand index band.startBin.toNat band.endBin.toNat)
      else if spectrumLength ≤ band.endBin.toNat then
        .error (.bandOutOfRange index band.endBin.toNat spectrumLength)
      else validateBands spectrumLength (index + 1) bands

def fresh (bands : List Band) (spectrumLength : Nat) (tuning : Tuning) : Aggregator :=
  { bands, tuning, spectrumLength
    sums := bands.map fun _ => 0
    previous := bands.map fun _ => 0
    threshold := 0
    divisor := tuning.divisorBase.toNat }

def configure (bands : List Band) (spectrumLength : Nat) (tuning : Tuning) :
    Except SetupError Aggregator := do
  if bands.isEmpty then throw .noBands
  validateBands spectrumLength 0 bands
  tuning.validate
  return fresh bands spectrumLength tuning

/-- The level that a band emits, if it does, and the sum it will be compared
with from then on. -/
def judge (threshold divisor sum previous : Nat) : Checked (Option UInt8 × Nat) :=
  if sum = 0 then .ok (none, 0)
  else do
    let rise ← Checked.signed64 ((sum : Int) - previous)
    if (threshold : Int) < rise then
      let level ← Checked.div sum divisor
      return (some (UInt8.ofNat (min level 255)), sum)
    else return (none, previous)

def events (levels : List (Option UInt8)) : List LevelEvent :=
  levels.zipIdx.filterMap fun entry =>
    entry.1.map fun level => { band := UInt64.ofNat entry.2, level }

/-- The threshold and divisor for a total energy; silence keeps the old ones. -/
def scaling (a : Aggregator) (total : Nat) : Checked (Nat × Nat) :=
  if 0 < total then do
    let threshold ← a.tuning.threshold total
    let divisor ← a.tuning.divisor total
    return (threshold, divisor)
  else .ok (a.threshold, a.divisor)

/-- Aggregate a spectrum and append the bands that retriggered to a list. -/
def tickInto (a : Aggregator) (s : Spectrum) (collected : List LevelEvent) :
    Checked (List LevelEvent × Aggregator) := do
  let sums ← a.bands.mapM (·.sum s.bins)
  let total := sums.foldl saturatingAdd32 0
  let (threshold, divisor) ← a.scaling total
  let verdicts ← (sums.zip a.previous).mapM fun band =>
    judge threshold divisor band.1 band.2
  let next : Aggregator :=
    { a with sums, threshold, divisor, previous := verdicts.map (·.2) }
  return (collected ++ events (verdicts.map (·.1)), next)

def tick (a : Aggregator) (s : Spectrum) : Checked (List LevelEvent × Aggregator) :=
  a.tickInto s []

def setTuning (a : Aggregator) (tuning : Tuning) : Except SetupError Aggregator := do
  tuning.validate
  return { a with tuning }

def reset (a : Aggregator) : Aggregator :=
  { a with sums := a.sums.map fun _ => 0, previous := a.previous.map fun _ => 0
           threshold := 0, divisor := a.tuning.divisorBase.toNat }

end Aggregator

end BandLight
