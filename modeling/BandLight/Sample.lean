/-! PCM samples, sixteen bits each, and their little-endian byte form. -/
namespace BandLight

abbrev Sample := Int16

namespace Sample

def ofBytes (low high : UInt8) : Sample :=
  (low.toUInt16 ||| (high.toUInt16 <<< 8)).toInt16

/-- The complete byte pairs of a byte string; an odd last byte says nothing. -/
def decode : List UInt8 → List Sample
  | low :: high :: rest => ofBytes low high :: decode rest
  | _ => []

theorem length_decode : (bytes : List UInt8) → (decode bytes).length = bytes.length / 2
  | [] => rfl
  | [_] => by simp [decode]
  | low :: high :: rest => by
      simp only [decode, List.length_cons, length_decode rest]
      omega

end Sample

end BandLight
