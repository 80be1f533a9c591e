import BandLight.Spectrum

/-! A mailbox with one place for a spectrum, in which the latest one wins.
Publishing never waits and never fails; a spectrum that was not collected is
replaced. -/
namespace BandLight

structure Mailbox where
  slot : Spectrum
  ready : Bool
  /-- A copy of `ready` for readers that only look whether something waits. -/
  hint : Bool
  deriving DecidableEq, Repr, Inhabited

namespace Mailbox

def empty (length : Nat) : Mailbox :=
  { slot := .zeroed length, ready := false, hint := false }

def allocate (length : Nat) : Checked Mailbox := do
  Checked.buffer Spectrum.binBytes length
  return empty length

def holding (s : Spectrum) : Mailbox := { slot := s, ready := true, hint := true }

def publish (m : Mailbox) (s : Spectrum) : Checked Mailbox := do
  let slot ← m.slot.copyOnto s
  return holding slot

def isReady (m : Mailbox) : Bool := m.hint

def collect (m : Mailbox) : Option Spectrum × Mailbox :=
  if m.ready then (some m.slot, { m with ready := false, hint := false }) else (none, m)

/-- Collect into a spectrum at hand, which keeps its content when nothing
waits. The hint is asked first, so that a mailbox without news is not opened. -/
def collectInto (m : Mailbox) (target : Spectrum) : Checked (Bool × Spectrum × Mailbox) := do
  if !m.isReady then return (false, target, m)
  else if !m.ready then return (false, target, m)
  else
    let target ← target.copyOnto m.slot
    return (true, target, { m with ready := false, hint := false })

def clear (m : Mailbox) : Mailbox :=
  { slot := ⟨m.slot.bins.map fun _ => 0⟩, ready := false, hint := false }

def content (m : Mailbox) : Option Spectrum := if m.ready then some m.slot else none

def describe (m : Mailbox) : String :=
  "SpectrumStore \x7b ready: " ++ toString m.isReady ++ ", .. \x7d"

@[simp] theorem publish_eq (m : Mailbox) (s : Spectrum) : m.publish s = .ok (holding s) := by
  rw [publish, Spectrum.copyOnto_eq]
  rfl

end Mailbox

end BandLight
