import BandLight.Sample
import BandLight.Spectrum
import BandLight.Transform.Residue

/-! Magnitudes of a discrete Fourier transform in single precision. The absolute
value of a bin is rounded to twenty-four significant binary places, ties to
even; per sample, it is rounded to the nearest integer with halves going up, and
limited to the full scale. A fixed-point estimate with a known error decides
where it can; where it cannot, the square of the bin is compared with the
rounding edge in exact arithmetic. -/
namespace BandLight.Transform

structure Power where
  /-- A fixed-point estimate with twice the binary places. -/
  estimate : Int
  error : Nat
  residue : List Int
  /-- The turns to the angle of the bin, the latest first. -/
  turns : List Bool
  deriving Repr

/-- The powers of the odd bins of `2^(depth + 2)` samples, from the remainder
modulo `z^(2^(depth + 1)) + 1`, whose coefficients are at most `bound`. -/
def oddPowers (bound depth : Nat) (residue : List Int) : List Power :=
  let start : Node :=
    { root := 0, turns := [], residue := residue.map (· * (unit : Int)) }
  (splitAll depth [start]).map fun node =>
    { estimate := node.power, error := powerError bound depth, residue, turns := node.turns }

def interleave {α : Type} (evens odds : List α) : List α :=
  (evens.zip odds).flatMap fun pair => [pair.1, pair.2]

/-- The powers of the first half of the bins of `2^depth` samples. The even
bins are those of the two halves laid over each other; the odd ones come from
the difference of the halves. -/
def powers (bound : Nat) : Nat → List Int → List Power
  | 0, _ => []
  | 1, samples => oddPowers bound 0 [samples.sum, 0]
  | depth + 2, samples =>
      let (front, back) := halves samples
      interleave (powers bound (depth + 1) (List.zipWith (· + ·) front back))
        (oddPowers bound depth (List.zipWith (· - ·) front back))

/-- Below an odd multiple of a power of two, the part of the distance to the next
single-precision number that is rounded up to it, in units of `2^-25` of the power. -/
def slack (odd : Nat) : Nat := if odd = 1 then 1 else Nat.pow 2 (odd.log2 + 1)

/-- The square of the least absolute value at which a bin of `size` samples is
rounded to `magnitude`, times `2^52`. -/
def edge (size magnitude : Nat) : Nat :=
  let odd := 2 * magnitude - 1
  let side := size * (odd * 33554432 - slack odd)
  side * side

namespace Power

def reaches (size : Nat) (turns : List Bool) (exact : Surd) (magnitude : Nat) : Bool :=
  0 ≤ Surd.sign turns ((exact.scale 4503599627370496).sub (.int (edge size magnitude)))

def settle (reached : Nat → Bool) : Nat → Nat
  | 0 => 0
  | magnitude + 1 =>
      if reached (magnitude + 1) then magnitude + 1 else settle reached magnitude

def rounded (size : Nat) (p : Power) : Nat :=
  let greatest := 4503599627370496 * (p.estimate + p.error).toNat
  -- An edge is lower than the halfway point by a part in `2^24` at the most.
  let odd := Nat.sqrt greatest / (size * unit) / 33554430
  let candidate := min ((odd + 1) / 2) maxMagnitude.toNat
  let least := 4503599627370496 * (p.estimate - p.error)
  if candidate = 0 ∨ ((edge size candidate * (unit * unit) : Nat) : Int) ≤ least then candidate
  else settle (reaches size p.turns (powerExact p.turns.length p.residue)) candidate

end Power

def magnitudes (window : List Sample) : List UInt16 :=
  let size := window.length
  (powers (size * 32768) size.log2 (window.map Int16.toInt)).map fun p =>
    UInt16.ofNat (p.rounded size)

end BandLight.Transform
