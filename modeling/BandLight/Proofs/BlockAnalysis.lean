import BandLight.Analyzer
import BandLight.Proofs.RingContents
import BandLight.Proofs.SlidingWindow

/-! The analysis of one released block. In a sound analyzer a release can only
fail by running out of block numbers; the analysed block is what the active
block of the ring held, and its spectrum is in the mailbox afterwards. -/
namespace BandLight.Analyzer

/-- Ring, window, spectra and mailbox fit a supported block size. -/
structure Sound (a : Analyzer) (size : Nat) : Prop where
  supported : validateBlockSize size = .ok ()
  ring : a.ring.Sound size
  blockSize : a.transform.blockSize = size
  window : a.transform.window.length = size
  spectrum : a.spectrum.Sound (size / 2)
  mailbox : a.mailbox.Sound (size / 2)

def analyzed (a : Analyzer) : Analysis × Analyzer :=
  let block := a.ring.activeBlock.contents
  let transform := a.transform.slid block
  let spectrum := Transform.spectrumOf transform.window
  ({ block, spectrum },
    { ring := a.ring.swap, transform, spectrum, mailbox := .holding spectrum
      blocksAnalyzed := a.blocksAnalyzed + 1 })

def absorb (a : Analyzer) (block : List Sample) : Analysis × Analyzer :=
  { a with ring := a.ring.append block }.analyzed

/-- There is a number left for another analysed block. -/
def Unspent (a : Analyzer) : Prop := a.blocksAnalyzed + 1 < UInt64.size

instance (a : Analyzer) : Decidable a.Unspent := by
  unfold Unspent
  infer_instance

theorem configure_success (size : Nat) (a : Analyzer) (ok : configure size = .ok a) :
    validateBlockSize size = .ok () ∧
      a = {
        ring :=
          { blockA := .zeroed size, blockB := .zeroed size, active := .a, blockSize := size }
        transform := { blockSize := size, window := List.replicate size 0 }
        spectrum := .zeroed (size / 2)
        mailbox := .empty (size / 2)
        blocksAnalyzed := 0 } := by
  unfold configure Transform.configure at ok
  cases checked : validateBlockSize size with
  | error e => rw [checked] at ok; cases ok
  | ok valid =>
    rw [checked] at ok
    unfold Ring.configure at ok
    split at ok
    · cases ok
    · split at ok
      · cases ok
      · cases ok
        exact ⟨rfl, rfl⟩

theorem configure_sound (size : Nat) (a : Analyzer) (ok : configure size = .ok a) :
    a.Sound size ∧ a.ring.activeFill = 0 ∧ a.blocksAnalyzed = 0 := by
  obtain ⟨supported, rfl⟩ := configure_success size a ok
  refine ⟨⟨supported, ⟨rfl, ?_, ?_⟩, rfl, List.length_replicate, Spectrum.zeroed_sound _,
    Mailbox.empty_sound _⟩, rfl, rfl⟩
  · intro id
    cases id <;> exact List.length_replicate
  · intro id
    cases id <;> exact Nat.zero_le _

section
variable {a : Analyzer} {size : Nat}

theorem Sound.fits (sound : a.Sound size) : a.transform.window.length = a.transform.blockSize :=
  sound.window.trans sound.blockSize.symm

theorem Sound.positive (sound : a.Sound size) : 0 < size := validateBlockSize_pos size sound.supported

theorem Sound.accepts (sound : a.Sound size) :
    validateBlockSize a.transform.blockSize = .ok () := by
  rw [sound.blockSize]
  exact sound.supported

theorem release_active (sound : a.Sound size) :
    a.release a.ring.active =
      if a.Unspent then .ok (some a.analyzed.1, a.analyzed.2) else .error .overflow := by
  have read := Ring.block_swap sound.ring
  simp only [release, Ring.release_active, read, Checked.ok_bind,
    Transform.analyzeInto_eq sound.fits sound.accepts, Mailbox.publish_eq]
  by_cases unspent : a.Unspent
  · have counted : Checked.word64 (a.blocksAnalyzed + 1) = .ok (a.blocksAnalyzed + 1) :=
      Checked.below_ok unspent
    rw [counted, if_pos unspent]
    rfl
  · have spent : Checked.word64 (a.blocksAnalyzed + 1) = .error .overflow := if_neg unspent
    rw [spent, if_neg unspent]
    rfl

theorem analyzed_sound (sound : a.Sound size) : a.analyzed.2.Sound size := by
  have slid : (a.transform.slid a.ring.activeBlock.contents).window.length = size :=
    (Transform.length_window_slid sound.fits _).trans sound.blockSize
  have fresh := Transform.spectrumOf_sound slid sound.supported
  exact ⟨sound.supported, sound.ring.swap, sound.blockSize, slid, fresh, Mailbox.holding_sound fresh⟩

theorem absorb_sound (sound : a.Sound size) (block : List Sample)
    (fits : a.ring.activeFill + block.length ≤ size) : (a.absorb block).2.Sound size :=
  analyzed_sound { sound with ring := sound.ring.append block fits }

theorem activeFill_absorb (a : Analyzer) (block : List Sample) :
    (a.absorb block).2.ring.activeFill = 0 := Ring.activeFill_swap _

theorem block_absorb (sound : a.Sound size) (block : List Sample) (empty : a.ring.activeFill = 0)
    (fits : block.length ≤ size) : (a.absorb block).1.block = block :=
  Ring.contents_append sound.ring block empty fits

theorem release_absorb (sound : a.Sound size) (block : List Sample)
    (fits : a.ring.activeFill + block.length ≤ size) :
    { a with ring := a.ring.append block }.release a.ring.active =
      if a.Unspent then .ok (some (a.absorb block).1, (a.absorb block).2)
      else .error .overflow := by
  have released := release_active (a := { a with ring := a.ring.append block })
    { sound with ring := sound.ring.append block fits }
  rw [Ring.active_append] at released
  exact released

end

end BandLight.Analyzer
