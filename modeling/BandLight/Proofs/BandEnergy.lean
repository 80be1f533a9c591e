import BandLight.Proofs.TickTotality
import Mathlib.Data.List.GetD

/-! The energy of a band. Each of its bins counts with the magnitude that it has if this is
above the noise floor; a bin that a spectrum lacks is silent. The sum of a band is its
energy, and there is none exactly when the energy does not fit in a word. -/
namespace BandLight

namespace Band

def audible (band : Band) (magnitude : UInt16) : Nat :=
  if band.noiseFloor < magnitude then magnitude.toNat else 0

def energy (band : Band) (bins : List UInt16) : Nat :=
  ((List.range' band.startBin.toNat (band.endBin.toNat + 1 - band.startBin.toNat)).map
    fun bin => band.audible (bins.getD bin 0)).sum

theorem audible_zero (band : Band) : band.audible 0 = 0 := by
  simp [audible]

theorem sum_audible (band : Band) (magnitudes : List UInt16) :
    ((magnitudes.filter (band.noiseFloor < ·)).map UInt16.toNat).sum =
      (magnitudes.map band.audible).sum := by
  induction magnitudes with
  | nil => rfl
  | cons magnitude magnitudes ih =>
    by_cases heard : band.noiseFloor < magnitude
    · simp [heard, audible, ih]
    · simp [heard, audible, ih]

theorem silent_beyond (band : Band) (bins : List UInt16) (start count : Nat)
    (beyond : bins.length ≤ start) :
    ((List.range' start count).map fun bin => band.audible (bins.getD bin 0)).sum = 0 := by
  rw [List.sum_eq_zero_iff]
  intro value member
  obtain ⟨bin, inside, rfl⟩ := List.mem_map.mp member
  have missing := (List.mem_range'_1.mp inside).1
  rw [List.getD_eq_default _ _ (by omega), audible_zero]

theorem audible_within (band : Band) (bins : List UInt16) (start stop : Nat)
    (inside : stop ≤ bins.length) :
    ((bins.take stop).drop start).map band.audible =
      (List.range' start (stop - start)).map fun bin => band.audible (bins.getD bin 0) := by
  apply List.ext_getElem
  · simp
    omega
  · intro i left right
    rw [List.length_map, List.length_range'] at right
    have there : start + i < bins.length := by omega
    simp [there]

theorem range_energy (band : Band) (bins : List UInt16) (ordered : band.startBin ≤ band.endBin) :
    ∃ range, band.range bins = .ok range ∧ (range.map band.audible).sum = band.energy bins := by
  have start := UInt64.le_iff_toNat_le.mp ordered
  unfold range
  split
  · next outside =>
    exact ⟨[], rfl, (silent_beyond band bins _ _ outside).symm⟩
  · next within =>
    -- The bins that are there come first, and those that are missing add nothing.
    generalize last : min band.endBin.toNat (bins.length - 1) + 1 = stop
    have split : band.endBin.toNat + 1 - band.startBin.toNat =
        (stop - band.startBin.toNat) + (band.endBin.toNat + 1 - stop) := by omega
    have next : band.startBin.toNat + (stop - band.startBin.toNat) = stop := by omega
    refine ⟨_, Checked.slice_ok (by omega) (by omega), ?_⟩
    rw [audible_within band bins _ _ (by omega), energy, split, ← List.range'_append_1, next,
      List.map_append, List.sum_append]
    by_cases whole : stop = band.endBin.toNat + 1
    · simp [whole]
    · rw [silent_beyond band bins stop _ (by omega), Nat.add_zero]

theorem sum_eq_energy (band : Band) (bins : List UInt16) (ordered : band.startBin ≤ band.endBin) :
    band.sum bins = Checked.word32 (band.energy bins) := by
  obtain ⟨range, computed, energy⟩ := range_energy band bins ordered
  rw [sum, computed, Checked.ok_bind, total_eq, sum_audible, energy]

theorem sum_of_fits (band : Band) (bins : List UInt16) (ordered : band.startBin ≤ band.endBin)
    (fits : band.energy bins < UInt32.size) : band.sum bins = .ok (band.energy bins) :=
  (sum_eq_energy band bins ordered).trans (Checked.below_ok fits)

theorem energy_congr (band : Band) (bins others : List UInt16)
    (same : ∀ bin, band.startBin.toNat ≤ bin → bin ≤ band.endBin.toNat →
      bins.getD bin 0 = others.getD bin 0) : band.energy bins = band.energy others := by
  refine congrArg List.sum (List.map_congr_left fun bin member => ?_)
  have inside := List.mem_range'_1.mp member
  rw [same bin inside.1 (by omega)]

end Band

namespace Spectrum

/-- A spectrum cut or filled up with silent bins to a length. -/
def resized (s : Spectrum) (length : Nat) : Spectrum :=
  ⟨s.bins.take length ++ List.replicate (length - s.bins.length) 0⟩

theorem getD_padded (bins : List UInt16) (count bin : Nat) :
    (bins ++ List.replicate count 0).getD bin 0 = bins.getD bin 0 := by
  by_cases there : bin < bins.length
  · exact List.getD_append _ _ _ _ there
  · rw [List.getD_append_right _ _ _ _ (Nat.not_lt.mp there),
      List.getD_eq_default bins _ (Nat.not_lt.mp there), List.getD_eq_getElem?_getD,
      List.getElem?_replicate]
    split <;> rfl

theorem getD_resized (s : Spectrum) (length bin : Nat) (inside : bin < length) :
    (s.resized length).bins.getD bin 0 = s.bins.getD bin 0 := by
  rw [resized, getD_padded, List.getD_eq_getElem?_getD, List.getElem?_take_of_lt inside,
    List.getD_eq_getElem?_getD]

end Spectrum

theorem Band.energy_resized (band : Band) (s : Spectrum) (length : Nat)
    (inside : band.endBin.toNat < length) :
    band.energy (s.resized length).bins = band.energy s.bins :=
  energy_congr band _ _ fun bin _ below => s.getD_resized length bin (by omega)

end BandLight
