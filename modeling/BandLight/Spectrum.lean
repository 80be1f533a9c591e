import BandLight.Fault

/-! The magnitude spectrum of one analysed block: one non-negative magnitude
per bin, where bin `k` of a spectrum of length `n` lies at `k / (2 n)` of the
sample rate. -/
namespace BandLight

def maxMagnitude : UInt16 := 32767

structure Spectrum where
  bins : List UInt16
  deriving DecidableEq, Repr, Inhabited

namespace Spectrum

def zeroed (length : Nat) : Spectrum := ⟨List.replicate length 0⟩

def binBytes : Nat := 2

def allocate (length : Nat) : Checked Spectrum := do
  Checked.buffer binBytes length
  return zeroed length

/-- Any magnitudes, those beyond the full scale brought down to it. -/
def ofBins (bins : List UInt16) : Spectrum := ⟨bins.map (min · maxMagnitude)⟩

def length (s : Spectrum) : Nat := s.bins.length

def isEmpty (s : Spectrum) : Bool := s.bins.isEmpty

def isSilent (s : Spectrum) : Bool := s.bins.all (· == 0)

/-- Overwrite `target` with `source`: bin by bin where the lengths agree, as a
whole where they do not. -/
def copyOnto (target source : Spectrum) : Checked Spectrum := do
  if target.length = source.length then
    let bins ← Checked.copyOver target.bins source.bins
    return ⟨bins⟩
  else return source

theorem copyOnto_eq (target source : Spectrum) : copyOnto target source = .ok source := by
  unfold copyOnto
  split
  · next same =>
      rw [Checked.copyOver_ok same]
      rfl
  · rfl

def binFrequency (bin rate blockSize : Nat) : Checked UInt32 :=
  if blockSize = 0 then .ok 0
  else do
    let product ← Checked.word64 (bin * rate)
    return UInt32.ofNat (product / blockSize)

/-- A mean that is updated one value at a time; each update rounds toward zero. -/
structure RunningMean where
  mean : Int
  count : Int
  deriving DecidableEq, Repr

def RunningMean.add (m : RunningMean) (value : Nat) : Checked RunningMean := do
  let count ← Checked.signed64 (m.count + 1)
  let distance ← Checked.signed64 (value - m.mean)
  let step ← Checked.signedDiv distance count
  let mean ← Checked.signed64 (m.mean + step)
  return { mean, count }

def activeBins (s : Spectrum) (floor : Nat) : List Nat :=
  ((s.bins.zipIdx.drop floor).filter (fun bin => bin.1 != 0)).map (·.2)

/-- The running mean of the frequencies of all bins from `floor` upward that
carry energy; nothing when there is none. -/
def meanActiveFrequency (s : Spectrum) (rate floor : Nat) : Checked (Option UInt32) := do
  let start : RunningMean := { mean := 0, count := 0 }
  let result ← (s.activeBins floor).foldlM (fun m bin => do
    let frequency ← binFrequency bin rate (2 * s.length)
    m.add frequency.toNat) start
  return if result.count > 0 then some (UInt32.ofNat (result.mean % 4294967296).toNat) else none

end Spectrum

end BandLight
