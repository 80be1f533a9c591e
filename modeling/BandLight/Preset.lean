import BandLight.Band

/-! Built-in configurations by name. -/
namespace BandLight

structure Preset where
  name : String
  blockSize : UInt64
  sampleRate : UInt32
  bands : List Band
  tickIntervalMs : UInt64
  /-- The first bin that the mean frequency looks at, if it is reported. -/
  frequencyFloorBin : Option UInt64
  deriving DecidableEq, Repr, Inhabited

namespace Preset

/-- Bass, middle and treble at 31.25 Hz a bin. -/
def music : Preset :=
  { name := "Music", blockSize := 512, sampleRate := 16000
    bands := [⟨0, 80, 100⟩, ⟨81, 115, 100⟩, ⟨116, 255, 100⟩]
    tickIntervalMs := 60, frequencyFloorBin := none }

def whistle : Preset :=
  { name := "Whistle", blockSize := 256, sampleRate := 16000
    bands := [⟨8, 127, 0⟩]
    tickIntervalMs := 200, frequencyFloorBin := some 8 }

def all : List Preset := [music, whistle]

/-- The built-in configuration of a name, in any case of its ASCII letters. -/
def find? (name : String) : Option Preset :=
  all.find? fun preset =>
    preset.name.toList.map Char.toLower = name.toList.map Char.toLower

end Preset

end BandLight
