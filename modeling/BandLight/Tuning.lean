import BandLight.Fault
import BandLight.SetupError

/-! Energy-dependent hysteresis. The rise that retriggers a band grows with the
total energy, but slower than it, and so does the divisor that turns a sum
into a level. -/
namespace BandLight

structure Tuning where
  thresholdBase : UInt32
  thresholdKnee : UInt32
  divisorBase : UInt32
  divisorKnee : UInt32
  deriving DecidableEq, Repr

namespace Tuning

def standard : Tuning :=
  { thresholdBase := 4, thresholdKnee := 5000, divisorBase := 6, divisorKnee := 1000 }

instance : Inhabited Tuning := ⟨standard⟩

/-- No field may be zero; the first that is gets reported. -/
def validate (t : Tuning) : Except SetupError Unit :=
  if t.thresholdBase = 0 then .error (.invalidTuning "threshold_base")
  else if t.thresholdKnee = 0 then .error (.invalidTuning "threshold_knee")
  else if t.divisorBase = 0 then .error (.invalidTuning "divisor_base")
  else if t.divisorKnee = 0 then .error (.invalidTuning "divisor_knee")
  else .ok ()

def threshold (t : Tuning) (total : Nat) : Checked Nat := do
  let extra ← Checked.div total t.thresholdKnee.toNat
  Checked.div total (saturatingAdd32 t.thresholdBase.toNat extra)

def divisor (t : Tuning) (total : Nat) : Checked Nat := do
  let extra ← Checked.div total t.divisorKnee.toNat
  return saturatingAdd32 t.divisorBase.toNat extra

end Tuning

end BandLight
