import BandLight.Proofs.SpectrumBounds
import Mathlib.Algebra.Order.Ring.Nat
import Mathlib.Data.List.GetD
import Mathlib.Data.Nat.Choose.Basic

/-! The mean of the frequencies that sound, against the mean that it stands for. It is updated
one frequency at a time, and an update leaves a remainder below the count. Since the
frequencies rise, the mean never gets above the next one, the remainders have one sign, and
they add up to the distance from the exact sum. -/
namespace BandLight.Spectrum

/-- The bins from a floor upward that are not zero, in order. -/
def soundingBins (s : Spectrum) (floor : Nat) : List Nat :=
  (List.range' floor (s.length - floor)).filter fun bin => s.bins.getD bin 0 != 0

/-- Their frequencies in whole Hz, rounded down. -/
def frequencies (s : Spectrum) (rate floor : Nat) : List Nat :=
  (s.soundingBins floor).map fun bin => bin * rate / (2 * s.length)

/-- What a mean has to do with the values that it is a mean of. -/
structure BoundedMean (values : List Nat) (rate mean : Nat) : Prop where
  least : ∃ first ∈ values.head?, first ≤ mean
  greatest : ∃ last ∈ values.getLast?, mean ≤ last
  nyquist : 2 * mean ≤ rate
  below : values.length * mean ≤ values.sum
  shortfall : values.sum - values.length * mean ≤ values.length * (values.length - 1) / 2

/-- The same for the values that have been taken in so far; before the first the mean is zero. -/
structure Averages (past : List Nat) (mean : Nat) : Prop where
  least : ∀ first ∈ past.head?, first ≤ mean
  greatest : ∀ bound, (∀ value ∈ past, value ≤ bound) → mean ≤ bound
  below : past.length * mean ≤ past.sum
  above : past.sum ≤ past.length * mean + past.length * (past.length - 1) / 2

theorem zipIdx_getD {α : Type} (items : List α) (d : α) :
    items.zipIdx = (List.range' 0 items.length).map fun i => (items.getD i d, i) := by
  apply List.ext_getElem
  · simp
  · intro i left right
    have inside : i < items.length := by simpa using left
    simp [inside]

theorem activeBins_eq (s : Spectrum) (floor : Nat) : s.activeBins floor = s.soundingBins floor := by
  rw [activeBins, zipIdx_getD s.bins 0, ← List.map_drop, List.drop_range', List.filter_map,
    List.map_map, soundingBins]
  simp [Function.comp_def, length]

theorem mem_soundingBins (s : Spectrum) (floor bin : Nat) :
    bin ∈ s.soundingBins floor ↔ floor ≤ bin ∧ s.bins.getD bin 0 ≠ 0 := by
  rw [soundingBins, List.mem_filter, List.mem_range'_1, bne_iff_ne]
  constructor
  · rintro ⟨⟨least, -⟩, sounds⟩
    exact ⟨least, sounds⟩
  · rintro ⟨least, sounds⟩
    have inside : bin < s.length := by
      by_contra beyond
      exact sounds (List.getD_eq_default _ _ (Nat.not_lt.mp beyond))
    exact ⟨⟨least, by omega⟩, sounds⟩

theorem soundingBins_congr (s other : Spectrum) (floor : Nat) (size : other.length = s.length)
    (same : ∀ bin, floor ≤ bin → (other.bins.getD bin 0 = 0 ↔ s.bins.getD bin 0 = 0)) :
    other.soundingBins floor = s.soundingBins floor := by
  rw [soundingBins, soundingBins, size]
  refine List.filter_congr fun bin member => ?_
  have least := (List.mem_range'_1.mp member).1
  rw [Bool.eq_iff_iff, bne_iff_ne, bne_iff_ne]
  exact not_congr (same bin least)

theorem two_mul_frequency_le (bin rate length : Nat) (inside : bin < length) :
    2 * (bin * rate / (2 * length)) ≤ rate := by
  have scaled : length * (2 * (bin * rate / (2 * length))) ≤ length * rate :=
    calc length * (2 * (bin * rate / (2 * length)))
        = 2 * length * (bin * rate / (2 * length)) := by rw [← Nat.mul_assoc, Nat.mul_comm length 2]
      _ ≤ bin * rate := Nat.mul_div_le _ _
      _ ≤ length * rate := Nat.mul_le_mul_right rate inside.le
  exact Nat.le_of_mul_le_mul_left scaled (by omega)

theorem frequencies_le (s : Spectrum) (rate floor : Nat) :
    ∀ value ∈ s.frequencies rate floor, 2 * value ≤ rate := by
  intro value member
  obtain ⟨bin, sounding, rfl⟩ := List.mem_map.mp member
  rw [← activeBins_eq] at sounding
  exact two_mul_frequency_le bin rate s.length (s.activeBins_lt floor bin sounding)

theorem frequencies_rising (s : Spectrum) (rate floor : Nat) :
    (s.frequencies rate floor).Pairwise (· ≤ ·) := by
  refine List.pairwise_map.mpr ?_
  have ordered : (s.soundingBins floor).Pairwise (· < ·) := (List.pairwise_lt_range' 1 Nat.one_pos).filter _
  exact ordered.imp fun below => Nat.div_le_div_right (Nat.mul_le_mul_right rate below.le)

theorem binFrequency_eq (bin rate length : Nat) (inside : bin < length)
    (short : length < 2147483648) (slow : rate < 4294967296) :
    binFrequency bin rate (2 * length) = .ok (UInt32.ofNat (bin * rate / (2 * length))) := by
  have product : bin * rate < UInt64.size := by
    have bound : bin * rate ≤ 2147483647 * 4294967295 := Nat.mul_le_mul (by omega) (by omega)
    exact Nat.lt_of_le_of_lt bound (by decide)
  rw [binFrequency, if_neg (by omega), Checked.word64, Checked.below_ok product]
  rfl

namespace RunningMean

/-- No checked step of an update fails where the new value is not below the mean. -/
theorem add_rising (mean count value : Nat) (rising : mean ≤ value) (small : value < 4294967296)
    (few : count < 4294967296) : add ⟨mean, count⟩ value =
      .ok ⟨(mean + (value - mean) / (count + 1) : Nat), (count + 1 : Nat)⟩ := by
  have distance : (value : Int) - mean = ((value - mean : Nat) : Int) := by omega
  have divided : ((value - mean : Nat) : Int).tdiv ((count : Int) + 1) =
      ((value - mean) / (count + 1) : Nat) := (Int.ofNat_tdiv (value - mean) (count + 1)).symm
  have part : (value - mean) / (count + 1) ≤ value - mean := Nat.div_le_self _ _
  generalize (value - mean) / (count + 1) = quotient at divided part
  unfold add Checked.signedDiv Checked.signed64
  dsimp only
  rw [distance, if_pos (by omega), Checked.ok_bind, if_pos (by omega), Checked.ok_bind,
    if_neg (by omega), divided, if_pos (by omega), Checked.ok_bind, if_pos (by omega),
    Checked.ok_bind]
  rfl

end RunningMean

theorem Averages.add {past : List Nat} {mean value : Nat} (averages : Averages past mean)
    (rising : ∀ earlier ∈ past, earlier ≤ value) :
    mean ≤ value ∧
      Averages (past ++ [value]) (mean + (value - mean) / (past.length + 1)) := by
  have reached := averages.greatest value rising
  obtain ⟨quotient, remainder, divided, few, split⟩ : ∃ quotient remainder,
      (value - mean) / (past.length + 1) = quotient ∧ remainder ≤ past.length ∧
        value = mean + ((past.length + 1) * quotient + remainder) := by
    refine ⟨_, (value - mean) % (past.length + 1), rfl, ?_, ?_⟩
    · exact Nat.lt_succ_iff.mp (Nat.mod_lt _ (Nat.zero_lt_succ past.length))
    · rw [Nat.div_add_mod]
      omega
  have part : quotient ≤ (past.length + 1) * quotient :=
    Nat.le_mul_of_pos_left quotient (Nat.zero_lt_succ past.length)
  have grown : (past.length + 1) * (mean + quotient) =
      past.length * mean + mean + (past.length + 1) * quotient := by
    rw [Nat.mul_add, Nat.add_mul, Nat.one_mul]
  have triangle := Nat.triangle_succ past.length
  obtain ⟨least, greatest, below, above⟩ := averages
  rw [divided]
  refine ⟨reached, ?_, ?_, ?_, ?_⟩
  · intro first found
    cases past with
    | nil =>
      cases found
      rw [List.length_nil] at split few
      omega
    | cons earlier past =>
      have same : first ≤ mean := least first found
      omega
  · intro bound each
    have last := each value (by simp)
    omega
  -- What the update leaves behind adds to the distance, and is at most the count so far.
  · rw [List.length_append, List.length_singleton, List.sum_append, List.sum_singleton, grown]
    omega
  · rw [List.length_append, List.length_singleton, List.sum_append, List.sum_singleton, grown,
      triangle]
    omega

theorem foldlM_averages (values past : List Nat) (mean : Nat) (averages : Averages past mean)
    (rising : (past ++ values).Pairwise (· ≤ ·)) (small : ∀ value ∈ values, value < 4294967296)
    (few : past.length + values.length < 4294967296) :
    ∃ last, values.foldlM RunningMean.add ⟨(mean : Nat), (past.length : Nat)⟩ =
        .ok ⟨(last : Nat), ((past ++ values).length : Nat)⟩ ∧ Averages (past ++ values) last := by
  induction values generalizing past mean with
  | nil =>
    rw [List.append_nil]
    exact ⟨mean, rfl, averages⟩
  | cons value values ih =>
    rw [List.length_cons] at few
    have earlier := (List.pairwise_append.mp rising).2.2
    obtain ⟨reached, next⟩ := averages.add fun other member =>
      earlier other member value List.mem_cons_self
    have added := RunningMean.add_rising mean past.length value reached
      (small value List.mem_cons_self) (by omega)
    rw [List.append_cons] at rising ⊢
    obtain ⟨last, ran, final⟩ := ih (past ++ [value]) _ next rising
      (fun other member => small other (List.mem_cons_of_mem value member))
      (by rw [List.length_append, List.length_singleton]; omega)
    refine ⟨last, ?_, final⟩
    rw [List.length_append, List.length_singleton] at ran
    rw [List.foldlM_cons, added, Checked.ok_bind]
    exact ran

theorem foldlM_frequencies (s : Spectrum) (rate floor : Nat) (short : s.length < 2147483648)
    (slow : rate < 4294967296) (start : RunningMean) :
    ((s.activeBins floor).foldlM (fun m bin => do
      let frequency ← binFrequency bin rate (2 * s.length)
      m.add frequency.toNat) start) = (s.frequencies rate floor).foldlM RunningMean.add start := by
  rw [frequencies, List.foldlM_map, activeBins_eq]
  refine Checked.foldlM_congr _ _ _ _ fun bin member m => ?_
  rw [← activeBins_eq] at member
  have inside := s.activeBins_lt floor bin member
  have least := two_mul_frequency_le bin rate s.length inside
  rw [binFrequency_eq bin rate s.length inside short slow, Checked.ok_bind,
    UInt32.toNat_ofNat_of_lt' (by rw [UInt32.size]; omega)]

theorem Averages.bounded {values : List Nat} {rate mean : Nat} (averages : Averages values mean)
    (some : values ≠ []) (rising : values.Pairwise (· ≤ ·))
    (limited : ∀ value ∈ values, 2 * value ≤ rate) : BoundedMean values rate mean := by
  obtain ⟨least, greatest, below, above⟩ := averages
  have last : mean ≤ values.getLast some := greatest _ fun value member => by
    rw [← List.dropLast_concat_getLast some] at rising member
    rcases List.mem_append.mp member with earlier | own
    · exact (List.pairwise_append.mp rising).2.2 value earlier _ (by simp)
    · exact (List.mem_singleton.mp own).le
  refine ⟨⟨values.head some, List.head?_eq_some_head some, ?_⟩,
    ⟨values.getLast some, List.getLast?_eq_some_getLast some, last⟩, ?_, below, by omega⟩
  · exact least _ (List.head?_eq_some_head some)
  · have top := limited _ (List.getLast_mem some)
    omega

theorem averages_nil : Averages [] 0 :=
  ⟨by simp, fun bound _ => Nat.zero_le bound, by simp, by simp⟩

/-- The answer is the last of the means, unless nothing sounds. -/
theorem meanActiveFrequency_eq (s : Spectrum) (rate floor : Nat) (short : s.length < 2147483648)
    (slow : rate < 4294967296) : ∃ mean, Averages (s.frequencies rate floor) mean ∧
      s.meanActiveFrequency rate floor = .ok
        (if s.frequencies rate floor = [] then none else some (UInt32.ofNat mean)) := by
  have limited := s.frequencies_le rate floor
  have few : (s.frequencies rate floor).length ≤ s.length := by
    rw [frequencies, List.length_map, ← activeBins_eq]
    exact s.length_activeBins_le floor
  obtain ⟨mean, ran, averages⟩ := foldlM_averages (s.frequencies rate floor) [] 0 averages_nil
    (s.frequencies_rising rate floor)
    (fun value member => by have small := limited value member; omega)
    (by rw [List.length_nil]; omega)
  rw [List.nil_append] at averages ran
  have word : mean ≤ rate := averages.greatest rate fun value member => by
    have small := limited value member
    omega
  refine ⟨mean, averages, ?_⟩
  have folded := (s.foldlM_frequencies rate floor short slow ⟨0, 0⟩).trans ran
  have cast : ((mean : Int) % 4294967296).toNat = mean := by omega
  simp only [meanActiveFrequency, folded, Checked.ok_bind, Checked.pure_eq, cast]
  by_cases silent : s.frequencies rate floor = []
  · rw [if_pos silent, silent]
    rfl
  · have counted := List.length_pos_iff.mpr silent
    rw [if_neg silent, if_pos (by omega)]

theorem frequencies_eq_nil (s : Spectrum) (rate floor : Nat) :
    s.frequencies rate floor = [] ↔ ∀ bin, floor ≤ bin → s.bins.getD bin 0 = 0 := by
  rw [frequencies, List.map_eq_nil_iff, List.eq_nil_iff_forall_not_mem]
  refine forall_congr' fun bin => ?_
  rw [mem_soundingBins, not_and, ne_eq, not_not]

/-- The mean of the frequencies that sound is found for every rate and floor. It lies between
the first and the last of them and within half the rate, and it falls short of the exact mean
by half of one less than their number at most. Only which bins sound matters. -/
theorem mean_frequency_bounded (s : Spectrum) (rate : UInt32) (floor : Nat)
    (short : s.length < 2147483648) :
    ∃ mean, s.meanActiveFrequency rate.toNat floor = .ok mean ∧
      (mean = none ↔ ∀ bin, floor ≤ bin → s.bins.getD bin 0 = 0) ∧
      (∀ m ∈ mean, BoundedMean (s.frequencies rate.toNat floor) rate.toNat m.toNat) ∧
      ∀ other : Spectrum, other.length = s.length →
        (∀ bin, floor ≤ bin → (other.bins.getD bin 0 = 0 ↔ s.bins.getD bin 0 = 0)) →
        other.meanActiveFrequency rate.toNat floor = .ok mean := by
  have slow : rate.toNat < 4294967296 := rate.toNat_lt
  obtain ⟨mean, averages, computed⟩ := s.meanActiveFrequency_eq rate.toNat floor short slow
  have limited := s.frequencies_le rate.toNat floor
  refine ⟨_, computed, ?_, ?_, ?_⟩
  · rw [← s.frequencies_eq_nil rate.toNat floor]
    split
    · next silent => exact ⟨fun _ => silent, fun _ => rfl⟩
    · next sounding => exact ⟨nofun, fun silent => absurd silent sounding⟩
  · intro m found
    split at found
    · cases found
    · next sounding =>
      cases found
      have bounded := averages.bounded sounding (s.frequencies_rising rate.toNat floor) limited
      have word := bounded.nyquist
      rw [UInt32.toNat_ofNat_of_lt' (by rw [UInt32.size]; omega)]
      exact bounded
  · intro other size same
    rw [← computed, meanActiveFrequency, meanActiveFrequency, activeBins_eq, activeBins_eq,
      soundingBins_congr s other floor size same, size]

theorem mean_frequency_bounded_of_four :
    (⟨[3, 5, 0, 9, 1, 0, 0, 7]⟩ : Spectrum).meanActiveFrequency 101 1 = .ok (some 23) ∧
      BoundedMean [6, 18, 25, 44] 101 23 ∧
      (⟨[0, 1, 0, 1, 1, 0, 0, 2]⟩ : Spectrum).meanActiveFrequency 101 1 = .ok (some 23) := by
  obtain ⟨mean, computed, -, bounded, others⟩ :=
    mean_frequency_bounded ⟨[3, 5, 0, 9, 1, 0, 0, 7]⟩ 101 1 (by decide)
  have known : (⟨[3, 5, 0, 9, 1, 0, 0, 7]⟩ : Spectrum).meanActiveFrequency 101 1 =
      .ok (some 23) := rfl
  cases known.symm.trans computed
  have same : ∀ bin < 8, 1 ≤ bin → (([0, 1, 0, 1, 1, 0, 0, 2] : List UInt16).getD bin 0 = 0 ↔
      ([3, 5, 0, 9, 1, 0, 0, 7] : List UInt16).getD bin 0 = 0) := by decide
  refine ⟨known, bounded 23 rfl, others ⟨[0, 1, 0, 1, 1, 0, 0, 2]⟩ rfl fun bin least => ?_⟩
  by_cases inside : bin < 8
  · exact same bin inside least
  · rw [List.getD_eq_default _ _ (Nat.not_lt.mp inside),
      List.getD_eq_default _ _ (Nat.not_lt.mp inside)]

end BandLight.Spectrum
