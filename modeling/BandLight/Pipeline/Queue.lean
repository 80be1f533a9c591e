import BandLight.Event
import BandLight.Fault
import BandLight.Sample

/-! The queues between driver, pipeline and host. All of them are bounded and
none of them waits. -/
namespace BandLight

structure Bounded (α : Type) where
  capacity : Nat
  items : List α
  deriving DecidableEq, Repr, Inhabited

namespace Bounded

def empty {α : Type} (capacity : Nat) : Bounded α := { capacity, items := [] }

def isFull {α : Type} (q : Bounded α) : Bool := q.capacity ≤ q.items.length

def push {α : Type} (q : Bounded α) (item : α) : Bounded α :=
  { q with items := q.items ++ [item] }

def pop {α : Type} (q : Bounded α) : Bounded α := { q with items := q.items.tail }

end Bounded

/-- Samples on their way to the analysis, stored around a circle from `head` on.
A run of them that crosses the end of the storage is read in two pieces. -/
structure SampleQueue where
  capacity : Nat
  head : Nat
  samples : List Sample
  deriving DecidableEq, Repr, Inhabited

namespace SampleQueue

def empty (capacity : Nat) : SampleQueue := { capacity, head := 0, samples := [] }

def room (q : SampleQueue) : Nat := q.capacity - q.samples.length

def push (q : SampleQueue) (samples : List Sample) : SampleQueue :=
  { q with samples := q.samples ++ samples }

/-- The oldest `count` samples, cut where the storage ends; nothing when there
are fewer. -/
def peek? (q : SampleQueue) (count : Nat) : Option (List Sample × List Sample) :=
  if count ≤ q.samples.length then
    some ((q.samples.take count).splitAt (q.capacity - q.head))
  else none

def discard (q : SampleQueue) (count : Nat) : SampleQueue :=
  { q with head := (q.head + count) % q.capacity, samples := q.samples.drop count }

end SampleQueue

/-- Events on their way to the host. The queue keeps the oldest events and
counts those it has no room for. When the host has left, events are lost and
not counted. -/
structure EventQueue where
  queue : Bounded Event
  dropped : Nat
  attended : Bool
  deriving DecidableEq, Repr, Inhabited

namespace EventQueue

def empty (capacity : Nat) : EventQueue :=
  { queue := .empty capacity, dropped := 0, attended := true }

/-- An empty queue, if memory can hold so many events of `slotBytes` bytes. -/
def allocate (slotBytes capacity : Nat) : Checked EventQueue := do
  Checked.buffer slotBytes capacity
  return empty capacity

def post (q : EventQueue) (event : Event) : EventQueue :=
  if !q.attended then q
  else if q.queue.isFull then { q with dropped := q.dropped + 1 }
  else { q with queue := q.queue.push event }

def postAll (q : EventQueue) (events : List Event) : EventQueue := events.foldl post q

def poll (q : EventQueue) : Option Event × EventQueue :=
  (q.queue.items.head?, { q with queue := q.queue.pop })

def drain (q : EventQueue) : List Event × EventQueue :=
  (q.queue.items, { q with queue := { q.queue with items := [] } })

def leave (q : EventQueue) : EventQueue := { q with attended := false }

end EventQueue

end BandLight
