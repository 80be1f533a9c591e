/-! What can be wrong with the parts of an analysis when they are set up, and
the text that says so. -/
namespace BandLight

inductive SetupError
  | invalidBlockSize (size : Nat)
  | noBands
  | invertedBand (band startBin endBin : Nat)
  | bandOutOfRange (band endBin spectrumLength : Nat)
  | invalidTuning (field : String)
  | allocationFailed (what : String) (bytes : Nat)
  deriving DecidableEq, Repr, Inhabited

def minBlockSize : Nat := 32
def maxBlockSize : Nat := 8192

namespace SetupError

def message : SetupError → String
  | invalidBlockSize size =>
      "Invalid block size: " ++ toString size ++ " (must be a power of two in "
        ++ toString minBlockSize ++ "..=" ++ toString maxBlockSize ++ ")"
  | noBands => "At least one band must be configured"
  | invertedBand band startBin endBin =>
      "Band " ++ toString band ++ " is inverted: start bin " ++ toString startBin
        ++ " > end bin " ++ toString endBin
  | bandOutOfRange band endBin spectrumLength =>
      "Band " ++ toString band ++ " ends at bin " ++ toString endBin
        ++ ", spectrum only has " ++ toString spectrumLength ++ " bins"
  | invalidTuning field => "Invalid hysteresis tuning: " ++ field ++ " must be non-zero"
  | allocationFailed what bytes =>
      "Failed to allocate " ++ toString bytes ++ " bytes for " ++ what

end SetupError

/-- A block size is supported when it is a power of two from 32 to 8192. -/
def validateBlockSize (size : Nat) : Except SetupError Unit :=
  if minBlockSize ≤ size ∧ size ≤ maxBlockSize ∧ Nat.pow 2 size.log2 = size then .ok ()
  else .error (.invalidBlockSize size)

end BandLight
