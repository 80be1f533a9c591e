import BandLight.SetupError
import BandLight.Transform.Magnitude

/-! A sliding analysis window and its spectrum. The window holds the last
samples that came in, the oldest first and as many as the block size; each
input slides it and yields the spectrum of what it then holds. -/
namespace BandLight

structure Transform where
  blockSize : Nat
  window : List Sample
  deriving DecidableEq, Repr, Inhabited

namespace Transform

def configure (blockSize : Nat) : Except SetupError Transform := do
  validateBlockSize blockSize
  return { blockSize, window := List.replicate blockSize 0 }

def spectrumLength (t : Transform) : Nat := t.blockSize / 2

/-- Move the samples to keep, which are those from `start` on, to the front of a
window. Behind them it stays as it is. -/
def shifted (window : List Sample) (start keep : Nat) : Checked (List Sample) :=
  if 0 < keep then do
    let moved ← Checked.slice window start window.length
    return moved ++ window.drop moved.length
  else .ok window

/-- Drop as many old samples as new ones come in. An input longer than the
window counts by its first samples only. -/
def slide (t : Transform) (samples : List Sample) : Checked Transform := do
  let incoming := min samples.length t.blockSize
  let keep ← Checked.sub t.blockSize incoming
  let window ← shifted t.window incoming keep
  let rest ← Checked.slice window keep window.length
  let arrived ← Checked.slice samples 0 incoming
  let written ← Checked.copyOver rest arrived
  return { t with window := window.take keep ++ written }

/-- Slide the window and write its spectrum over a spectrum at hand, which is
replaced when it has another length. -/
def analyzeInto (t : Transform) (samples : List Sample) (target : Spectrum) :
    Checked (Spectrum × Transform) := do
  let t ← t.slide samples
  let target :=
    if target.length = t.spectrumLength then target else .zeroed t.spectrumLength
  let bins ← Checked.slice (magnitudes t.window) 0 t.spectrumLength
  return (⟨List.zipWith (fun _ bin => bin) target.bins bins ++ target.bins.drop bins.length⟩, t)

def analyze (t : Transform) (samples : List Sample) : Checked (Spectrum × Transform) :=
  t.analyzeInto samples (.zeroed t.spectrumLength)

def reset (t : Transform) : Transform := { t with window := t.window.map fun _ => 0 }

def describe (t : Transform) : String :=
  "TransformEngine \x7b block_size: " ++ toString t.blockSize ++ ", .. \x7d"

end Transform

end BandLight
