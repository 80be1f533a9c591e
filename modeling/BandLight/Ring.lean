import BandLight.Fault
import BandLight.Sample
import BandLight.SetupError

/-! Two sample blocks that change places. A writer fills the active block while
a reader has the other one; releasing the active block hands it to the reader
and makes the other one active and empty. A release that does not name the
active block is stale and does nothing. -/
namespace BandLight

inductive BlockId
  | a
  | b
  deriving DecidableEq, Repr, Inhabited

def BlockId.other : BlockId → BlockId
  | a => b
  | b => a

/-- Slots beyond the filled ones keep what they held before. -/
structure Block where
  slots : List Sample
  filled : Nat
  deriving DecidableEq, Repr, Inhabited

namespace Block

def zeroed (size : Nat) : Block := { slots := List.replicate size 0, filled := 0 }

def content (block : Block) : Checked (List Sample) :=
  Checked.slice block.slots 0 block.filled

def write (block : Block) (start : Nat) (samples : List Sample) : Checked Block := do
  let room ← Checked.slice block.slots start (start + samples.length)
  let written ← Checked.copyOver room samples
  return { slots := block.slots.take start ++ written ++ block.slots.drop (start + samples.length)
           filled := start + samples.length }

end Block

structure Ring where
  blockA : Block
  blockB : Block
  active : BlockId
  blockSize : Nat
  deriving DecidableEq, Repr, Inhabited

namespace Ring

/-- Both blocks empty, if `memory` bytes are enough for each of them. -/
def configure (memory blockSize : Nat) : Except SetupError Ring :=
  if blockSize = 0 then .error (.invalidBlockSize blockSize)
  else if memory < 2 * blockSize then
    .error (.allocationFailed "sample block A" (min (2 * blockSize) 18446744073709551615))
  else
    .ok { blockA := .zeroed blockSize, blockB := .zeroed blockSize, active := .a, blockSize }

def get (ring : Ring) : BlockId → Block
  | .a => ring.blockA
  | .b => ring.blockB

def set (ring : Ring) (id : BlockId) (block : Block) : Ring :=
  match id with
  | .a => { ring with blockA := block }
  | .b => { ring with blockB := block }

def activeBlock (ring : Ring) : Block := ring.get ring.active

def activeFill (ring : Ring) : Nat := ring.activeBlock.filled

def isActiveFull (ring : Ring) : Bool := ring.blockSize ≤ ring.activeFill

def fill (ring : Ring) (samples : List Sample) : Checked (Nat × Ring) := do
  let room ← Checked.sub ring.blockSize ring.activeFill
  let accepted ← Checked.slice samples 0 (min samples.length room)
  let block ← ring.activeBlock.write ring.activeFill accepted
  return (accepted.length, ring.set ring.active block)

/-- Append samples given as bytes: each free slot takes the next complete pair
of bytes, as long as both last. -/
def fillBytes (ring : Ring) (bytes : List UInt8) : Checked (Nat × Ring) := do
  let room ← Checked.sub ring.blockSize ring.activeFill
  let free ← Checked.slice ring.activeBlock.slots ring.activeFill ring.activeBlock.slots.length
  let written := ((free.zip (Sample.decode bytes)).take room).map (·.2)
  let slots := ring.activeBlock.slots.take ring.activeFill ++ written ++ free.drop written.length
  let block : Block := { slots, filled := ring.activeFill + written.length }
  return (written.length, ring.set ring.active block)

/-- Hand the slots of the active block to a writer that fills all of them: the
block counts as full, and the writer's samples replace what it held. -/
def writeActive (ring : Ring) (samples : List Sample) : List Sample × Ring :=
  let slots := ring.activeBlock.slots
  let written := samples.take slots.length
  let block : Block :=
    { slots := written ++ slots.drop written.length, filled := ring.blockSize }
  (slots, ring.set ring.active block)

/-- The writer reports a block as done. The answer names the block to read. -/
def release (ring : Ring) (id : BlockId) : Option BlockId × Ring :=
  if id = ring.active then
    let next := id.other
    (some id, { ring.set next { ring.get next with filled := 0 } with active := next })
  else (none, ring)

def block (ring : Ring) (id : BlockId) : Checked (List Sample) :=
  if id = ring.active then .error .blockInUse else (ring.get id).content

def reset (ring : Ring) : Ring :=
  let zero (block : Block) : Block := { slots := block.slots.map fun _ => 0, filled := 0 }
  { ring with blockA := zero ring.blockA, blockB := zero ring.blockB, active := .a }

end Ring

end BandLight
