import BandLight.Mailbox
import BandLight.Proofs.CheckedRuns
import BandLight.Transform

/-! Spectra within the full scale. No magnitude is beyond it, so nor is any bin
that a mailbox holds; and the mean frequency of a spectrum of any practical
length can be computed. -/
namespace BandLight

namespace Spectrum

/-- A spectrum of a known length with all bins within the full scale. -/
structure Sound (s : Spectrum) (length : Nat) : Prop where
  length_eq : s.bins.length = length
  scaled : ∀ bin ∈ s.bins, bin.toNat ≤ 32767

theorem zeroed_sound (length : Nat) : (zeroed length).Sound length := by
  refine ⟨List.length_replicate, ?_⟩
  intro bin member
  rw [List.eq_of_mem_replicate member]
  decide

end Spectrum

namespace Transform

theorem Power.settle_le (reached : Nat → Bool) (candidate : Nat) :
    settle reached candidate ≤ candidate := by
  induction candidate with
  | zero => exact Nat.le_refl _
  | succ candidate ih =>
    rw [settle]
    split
    · exact Nat.le_refl _
    · exact Nat.le_succ_of_le ih

theorem Power.rounded_le (size : Nat) (p : Power) : p.rounded size ≤ 32767 := by
  unfold rounded
  dsimp only
  split
  · exact Nat.min_le_right _ _
  · exact Nat.le_trans (settle_le _ _) (Nat.min_le_right _ _)

theorem magnitudes_scaled (window : List Sample) (bin : UInt16) (member : bin ∈ magnitudes window) :
    bin.toNat ≤ 32767 := by
  obtain ⟨power, _, rfl⟩ := List.mem_map.mp member
  have limited := power.rounded_le window.length
  rwa [UInt16.toNat_ofNat', Nat.mod_eq_of_lt (Nat.lt_of_le_of_lt limited (by decide))]

end Transform

namespace Mailbox

/-- The hint tells the truth, and the place holds a sound spectrum. -/
structure Sound (m : Mailbox) (length : Nat) : Prop where
  slot : m.slot.Sound length
  hint : m.hint = m.ready

theorem empty_sound (length : Nat) : (empty length).Sound length :=
  ⟨Spectrum.zeroed_sound length, rfl⟩

theorem holding_sound {s : Spectrum} {length : Nat} (sound : s.Sound length) :
    (holding s).Sound length := ⟨sound, rfl⟩

theorem Sound.clear {m : Mailbox} {length : Nat} (sound : m.Sound length) :
    m.clear.Sound length := by
  refine ⟨⟨(List.length_map _).trans sound.slot.length_eq, ?_⟩, rfl⟩
  intro bin member
  obtain ⟨old, _, rfl⟩ := List.mem_map.mp member
  decide

theorem collect_eq (m : Mailbox) (hint : m.hint = m.ready) :
    m.collect = (m.content, { m with ready := false, hint := false }) := by
  obtain ⟨slot, ready, _⟩ := m
  cases hint
  cases ready with
  | false => rfl
  | true => rfl

theorem collectInto_eq (m : Mailbox) (target : Spectrum) (hint : m.hint = m.ready) :
    m.collectInto target = .ok (if m.ready then
        (true, m.slot, { m with ready := false, hint := false })
      else (false, target, m)) := by
  cases waiting : m.ready with
  | false => simp [collectInto, isReady, hint, waiting]
  | true => simp [collectInto, isReady, hint, waiting, Spectrum.copyOnto_eq]

end Mailbox

namespace Spectrum

theorem binFrequency_success (bin rate blockSize : Nat) (narrow : bin < 4294967296)
    (slow : rate < 4294967296) : ∃ frequency, binFrequency bin rate blockSize = .ok frequency := by
  have product : bin * rate < UInt64.size := by
    have bound : bin * rate ≤ 4294967295 * 4294967295 := Nat.mul_le_mul (by omega) (by omega)
    exact Nat.lt_of_le_of_lt bound (by decide)
  unfold binFrequency
  split
  · exact ⟨0, rfl⟩
  · rw [Checked.word64, Checked.below_ok product]
    exact ⟨_, rfl⟩

/-- A step of the running mean stays between the mean and the new value. -/
theorem RunningMean.add_success (m : RunningMean) (value : Nat) (least : 0 ≤ m.mean)
    (greatest : m.mean < 4294967296) (small : value < 4294967296) (counted : 0 ≤ m.count)
    (few : m.count < 4294967296) :
    ∃ next, m.add value = .ok next ∧ 0 ≤ next.mean ∧ next.mean < 4294967296 ∧
      next.count = m.count + 1 := by
  obtain ⟨distance, defined⟩ : ∃ distance : Int, distance = value - m.mean := ⟨_, rfl⟩
  have step : 0 ≤ m.mean + distance.tdiv (m.count + 1) ∧
      m.mean + distance.tdiv (m.count + 1) < 4294967296 ∧
      -4294967296 < distance.tdiv (m.count + 1) ∧ distance.tdiv (m.count + 1) < 4294967296 := by
    by_cases rising : 0 ≤ distance
    · have lower : 0 ≤ distance.tdiv (m.count + 1) := Int.tdiv_nonneg rising (by omega)
      have upper := Int.tdiv_le_self (m.count + 1) rising
      omega
    · have upper := Int.tdiv_nonneg (a := -distance) (b := m.count + 1) (by omega) (by omega)
      have lower := Int.tdiv_le_self (a := -distance) (m.count + 1) (by omega)
      rw [Int.neg_tdiv] at upper lower
      omega
  refine ⟨⟨m.mean + distance.tdiv (m.count + 1), m.count + 1⟩, ?_, step.1, step.2.1, rfl⟩
  unfold RunningMean.add Checked.signedDiv Checked.signed64
  rw [← defined, if_pos (by omega), Checked.ok_bind, if_pos (by omega), Checked.ok_bind,
    if_neg (by omega), if_pos (by omega), Checked.ok_bind, if_pos (by omega), Checked.ok_bind]
  rfl

theorem activeBins_lt (s : Spectrum) (floor bin : Nat) (member : bin ∈ s.activeBins floor) :
    bin < s.length := by
  obtain ⟨entry, inside, rfl⟩ := List.mem_map.mp member
  have indexed := List.mem_of_mem_drop (List.mem_filter.mp inside).1
  have bound := List.snd_lt_of_mem_zipIdx indexed
  simpa [length] using bound

theorem length_activeBins_le (s : Spectrum) (floor : Nat) :
    (s.activeBins floor).length ≤ s.length := by
  have kept := List.length_filter_le (fun bin : UInt16 × Nat => bin.1 != 0)
    (s.bins.zipIdx.drop floor)
  rw [List.length_drop, List.length_zipIdx] at kept
  rw [activeBins, List.length_map, length]
  omega

theorem meanActiveFrequency_success (s : Spectrum) (rate floor : Nat)
    (short : s.length < 4294967296) (slow : rate < 4294967296) :
    ∃ mean, s.meanActiveFrequency rate floor = .ok mean := by
  let P (count : Nat) (m : RunningMean) : Prop :=
    0 ≤ m.mean ∧ m.mean < 4294967296 ∧ m.count = count
  have folded := Checked.foldlM_success (fun (m : RunningMean) bin => do
    let frequency ← binFrequency bin rate (2 * s.length)
    m.add frequency.toNat) P s.length (s.activeBins floor) ?_ 0 ⟨0, 0⟩ (by simp [P])
    (by have := s.length_activeBins_le floor; omega)
  · obtain ⟨last, computed, _⟩ := folded
    simp only [meanActiveFrequency, computed, Checked.ok_bind]
    exact ⟨_, rfl⟩
  · intro count m bin below member ⟨least, greatest, counted⟩
    have inside := s.activeBins_lt floor bin member
    obtain ⟨frequency, found⟩ := binFrequency_success bin rate (2 * s.length) (by omega) slow
    obtain ⟨next, added, bounds⟩ := RunningMean.add_success m frequency.toNat least greatest
      frequency.toNat_lt (by omega) (by omega)
    refine ⟨next, ?_, bounds.1, bounds.2.1, ?_⟩
    · rw [found, Checked.ok_bind, added]
    · rw [bounds.2.2, counted]
      rfl

end Spectrum

end BandLight
