import BandLight.Color

/-! What a pipeline tells its host. -/
namespace BandLight

inductive Event
  | bandLevel (band : UInt64) (level : UInt8)
  | meanFrequency (hz : UInt32)
  /-- A block was refused because those before it were not analysed yet. -/
  | overrun (droppedSamples : UInt64)
  /-- An analysis took longer than a block takes to come in. -/
  | deadlineMissed (elapsedUs budgetUs : UInt64)
  | error (message : String)
  | stopped
  deriving DecidableEq, Repr, Inhabited

def Event.ofLevel (event : LevelEvent) : Event := .bandLevel event.band event.level

end BandLight
