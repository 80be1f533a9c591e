import BandLight.Chain
import BandLight.Proofs.QueuedBlocks

/-! Whole blocks through a chain. A block that is delivered on its own and a
block that is streamed into an empty ring are absorbed in the same way, provided
that the streamed one is as long as the ring's blocks. -/
namespace BandLight

namespace Analyzer

section
variable {a : Analyzer} {size : Nat}

theorem pushOnce_block (sound : a.Sound size) (empty : a.ring.activeFill = 0) (block : List Sample)
    (full : block.length = size) :
    a.pushOnce block = if a.Unspent then .ok ([(a.absorb block).1], [], (a.absorb block).2)
      else .error .overflow := by
  have fits : a.ring.activeFill + block.length ≤ size := by
    rw [empty, full, Nat.zero_add]
  have filled : (a.ring.append block).isActiveFull = true := by
    rw [Ring.isActiveFull, Ring.activeFill_append, empty, (sound.ring.append block fits).blockSize,
      full]
    exact decide_eq_true (by omega)
  have released := release_absorb sound block fits
  unfold pushOnce
  rw [Ring.fill_fits sound.ring block fits]
  simp only [Checked.ok_bind, Checked.slice_last (Nat.le_refl block.length), filled, if_true,
    Ring.active_append, released, List.drop_length]
  exact Checked.ite_bind a.Unspent _ _ _

theorem push_block (sound : a.Sound size) (empty : a.ring.activeFill = 0) (block : List Sample)
    (full : block.length = size) (nonempty : block ≠ []) :
    a.push block = if a.Unspent then .ok ([(a.absorb block).1], (a.absorb block).2)
      else .error .overflow := by
  cases block with
  | nil => exact absurd rfl nonempty
  | cons sample samples =>
    unfold push
    rw [pushRounds, pushOnce_block sound empty _ full]
    exact Checked.ite_bind a.Unspent _ _ _

end

end Analyzer

namespace Chain

def analyzeBlock (c : Chain) (samples : List Sample) : Checked (List Analysis × Chain) := do
  let (analysis, c) ← c.deliver samples
  return (analysis.toList, c)

section
variable {c : Chain} {size : Nat}

theorem analyzeBlock_eq (sound : c.analyzer.Sound size) (empty : c.analyzer.ring.activeFill = 0)
    (samples : List Sample) :
    c.analyzeBlock samples = if c.analyzer.Unspent then
        .ok ([(c.analyzer.absorb (samples.take size)).1],
          { c with analyzer := (c.analyzer.absorb (samples.take size)).2 })
      else .error .overflow := by
  have fits : c.analyzer.ring.activeFill + (samples.take size).length ≤ size := by
    rw [empty, List.length_take]
    omega
  unfold analyzeBlock deliver
  rw [sound.ring.blockSize, Ring.fill_fits sound.ring _ fits]
  simp only [Checked.ok_bind, Analyzer.release_absorb sound _ fits, Checked.ite_bind,
    Checked.pure_eq]
  rfl

theorem push_eq_analyzeBlock (sound : c.analyzer.Sound size)
    (empty : c.analyzer.ring.activeFill = 0) (samples : List Sample)
    (full : samples.length = size) (nonempty : samples ≠ []) :
    c.push samples = c.analyzeBlock samples := by
  have whole : samples.take size = samples := List.take_of_length_le (Nat.le_of_eq full)
  rw [analyzeBlock_eq sound empty, whole]
  unfold push
  rw [Analyzer.push_block sound empty samples full nonempty]
  exact Checked.ite_bind c.analyzer.Unspent _ _ _

end

theorem tick_silent (c : Chain) (waiting : c.analyzer.mailbox.ready = false) :
    c.tick = .ok (none, c) := by
  unfold tick Mailbox.collect
  rw [waiting]
  rfl

theorem tick_waiting (c : Chain) (waiting : c.analyzer.mailbox.ready = true)
    (levels : List LevelEvent) (aggregator : Aggregator) (mean : Option UInt32)
    (ticked : c.aggregator.tick c.analyzer.mailbox.slot = .ok (levels, aggregator))
    (found : (match c.frequencyFloorBin with
      | none => (.ok none : Checked (Option UInt32))
      | some bin =>
          c.analyzer.mailbox.slot.meanActiveFrequency c.sampleRate.toNat bin.toNat) = .ok mean) :
    c.tick = .ok (some { events := levels, meanFrequency := mean }, { c with
      aggregator
      analyzer := { c.analyzer with
        mailbox := { c.analyzer.mailbox with ready := false, hint := false } } }) := by
  unfold tick Mailbox.collect
  rw [waiting]
  simp only [if_true, ticked, Checked.ok_bind]
  cases floor : c.frequencyFloorBin with
  | none =>
    rw [floor] at found
    cases found
    rfl
  | some bin =>
    rw [floor] at found
    simp only at found
    simp only [found, Checked.ok_bind]
    rfl

end Chain

end BandLight
