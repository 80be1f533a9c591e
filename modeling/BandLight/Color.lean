import BandLight.Aggregator

/-! Colours of band levels: each band lights one colour channel. -/
namespace BandLight

structure Rgb where
  red : UInt8
  green : UInt8
  blue : UInt8
  deriving DecidableEq, Repr, Inhabited

inductive Channel
  | red
  | green
  | blue
  deriving DecidableEq, Repr, Inhabited

def Channel.light (channel : Channel) (level : UInt8) : Rgb :=
  match channel with
  | red => { red := level, green := 0, blue := 0 }
  | green => { red := 0, green := level, blue := 0 }
  | blue => { red := 0, green := 0, blue := level }

/-- The channel of each band, by band number. -/
structure ColorMap where
  channels : List Channel
  deriving DecidableEq, Repr

namespace ColorMap

/-- Bass is blue, the middle green and treble red. -/
def standard : ColorMap := ⟨[.blue, .green, .red]⟩

instance : Inhabited ColorMap := ⟨standard⟩

def channel (map : ColorMap) (band : UInt64) : Option Channel := map.channels[band.toNat]?

def colorOf (map : ColorMap) (event : LevelEvent) : Option Rgb :=
  (map.channel event.band).map (·.light event.level)

end ColorMap

end BandLight
