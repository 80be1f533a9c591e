/-! Counts of what a pipeline has done. -/
namespace BandLight

structure Stats where
  blocksDelivered : UInt64
  blocksAnalyzed : UInt64
  overruns : UInt64
  deadlineMisses : UInt64
  spectraConsumed : UInt64
  eventsEmitted : UInt64
  /-- Events that the host's full queue had no room for. -/
  eventsDropped : UInt64
  deriving DecidableEq, Repr, Inhabited

structure Counters where
  delivered : Nat := 0
  analyzed : Nat := 0
  overruns : Nat := 0
  deadlineMisses : Nat := 0
  consumed : Nat := 0
  emitted : Nat := 0
  deriving DecidableEq, Repr, Inhabited

/-- The counts as words, which start over at `2 ^ 64`. -/
def Counters.snapshot (counters : Counters) (dropped : Nat) : Stats :=
  { blocksDelivered := UInt64.ofNat counters.delivered
    blocksAnalyzed := UInt64.ofNat counters.analyzed
    overruns := UInt64.ofNat counters.overruns
    deadlineMisses := UInt64.ofNat counters.deadlineMisses
    spectraConsumed := UInt64.ofNat counters.consumed
    eventsEmitted := UInt64.ofNat counters.emitted
    eventsDropped := UInt64.ofNat dropped }

end BandLight
