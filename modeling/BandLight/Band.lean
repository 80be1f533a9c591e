import BandLight.Spectrum

/-! Bands of a spectrum: contiguous bins, of which those above a noise floor
count. -/
namespace BandLight

structure Band where
  startBin : UInt64
  /-- The last bin that belongs to the band. -/
  endBin : UInt64
  noiseFloor : UInt16
  deriving DecidableEq, Repr, Inhabited

namespace Band

def range (band : Band) (bins : List UInt16) : Checked (List UInt16) :=
  if bins.length ≤ band.startBin.toNat then .ok []
  else
    Checked.slice bins band.startBin.toNat (min band.endBin.toNat (bins.length - 1) + 1)

def total : List UInt16 → Checked Nat :=
  List.foldlM (fun sum magnitude => Checked.word32 (sum + magnitude.toNat)) 0

/-- The sum of the magnitudes in range that exceed the noise floor. The others
are left out rather than lowered. -/
def sum (band : Band) (bins : List UInt16) : Checked Nat := do
  let range ← band.range bins
  total (range.filter (band.noiseFloor < ·))

end Band

end BandLight
