import BandLight.Proofs.BandEnergy
import BandLight.Proofs.BandTicks
import Mathlib.Algebra.BigOperators.Group.Finset.Basic
import Mathlib.Order.Interval.Finset.Nat

/-! Sums of bands are exact. A sum is what the bins in range and above the floor add up to, and
it faults exactly when that is no word. Contiguous bands of one floor share out the energy of
their range, louder bins and lower floors never lower it, and bins beyond the range, or silent
ones at the end, make no difference. -/
namespace BandLight

namespace Band

def Covers (band : Band) (bin : Nat) : Prop :=
  band.startBin.toNat ≤ bin ∧ bin ≤ band.endBin.toNat

instance (band : Band) (bin : Nat) : Decidable (band.Covers bin) :=
  inferInstanceAs (Decidable (_ ∧ _))

/-- The bins of a spectrum that lie in range and strictly above the noise floor. -/
def heard (band : Band) (bins : List UInt16) : Finset Nat :=
  (Finset.range bins.length).filter fun bin => band.Covers bin ∧ band.noiseFloor < bins.getD bin 0

/-- What they add up to, as a number of any size. -/
def heardSum (band : Band) (bins : List UInt16) : Nat :=
  ∑ bin ∈ band.heard bins, (bins.getD bin 0).toNat

def upTo (band : Band) (last : UInt64) : Band := { band with endBin := last }

def after (band : Band) (last : UInt64) : Band := { band with startBin := last + 1 }

@[simp] theorem startBin_upTo (band : Band) (last : UInt64) :
    (band.upTo last).startBin = band.startBin := rfl

@[simp] theorem endBin_upTo (band : Band) (last : UInt64) : (band.upTo last).endBin = last := rfl

@[simp] theorem endBin_after (band : Band) (last : UInt64) :
    (band.after last).endBin = band.endBin := rfl

def atFloor (band : Band) (floor : UInt16) : Band := { band with noiseFloor := floor }

/-- Bands of one floor that follow each other without a gap through the range of a band. -/
inductive Tiles : Band → List Band → Prop
  | whole (band : Band) : Tiles band [band]
  | cut {band : Band} {last : UInt64} {parts : List Band} (least : band.startBin ≤ last)
      (before : last < band.endBin) (rest : Tiles (band.after last) parts) :
      Tiles band (band.upTo last :: parts)

structure ExactSums (band : Band) : Prop where
  /-- The only fault is an overflow, and it is there exactly where the energy is no word. -/
  faults : ∀ bins fault, band.sum bins = .error fault ↔
    fault = .overflow ∧ UInt32.size ≤ band.heardSum bins
  value : ∀ bins sum, band.sum bins = .ok sum ↔
    sum = band.heardSum bins ∧ band.heardSum bins < UInt32.size
  /-- Wherever the range is cut, the two sides add up. -/
  cut : ∀ bins last total, band.startBin ≤ last → last < band.endBin →
    (band.sum bins = .ok total ↔ ∃ first second, (band.upTo last).sum bins = .ok first ∧
      (band.after last).sum bins = .ok second ∧ first + second = total ∧ total < UInt32.size)
  shared : ∀ bins parts total, band.Tiles parts →
    (band.sum bins = .ok total ↔ ∃ sums, parts.mapM (·.sum bins) = .ok sums ∧
      sums.sum = total ∧ total < UInt32.size)
  /-- Each bin of the range belongs to one of them, and no other bin to any. -/
  once : ∀ parts bin, band.Tiles parts →
    parts.countP (fun part => part.Covers bin) = if band.Covers bin then 1 else 0
  /-- An aggregator of such bands holds the whole energy in its sums after a tick. -/
  ticked : ∀ (a next : Aggregator) s collected listed, band.Tiles a.bands →
    a.tickInto s collected = .ok (listed, next) → next.sums.sum = band.heardSum s.bins
  /-- A sum of louder bins over a lower floor bounds the sum, and shows that there is one. -/
  monotone : ∀ bins louder floor greater, floor ≤ band.noiseFloor →
    (∀ bin, band.Covers bin → bins.getD bin 0 ≤ louder.getD bin 0) →
    (band.atFloor floor).sum louder = .ok greater → ∃ sum, band.sum bins = .ok sum ∧ sum ≤ greater
  outside : ∀ bins others, (∀ bin, band.Covers bin → others.getD bin 0 = bins.getD bin 0) →
    band.sum others = band.sum bins
  /-- Silent bins added at the end, or taken from it, are not noticed. -/
  padded : ∀ bins count, band.sum (bins ++ List.replicate count 0) = band.sum bins

theorem mem_heard (band : Band) (bins : List UInt16) (bin : Nat) :
    bin ∈ band.heard bins ↔ band.Covers bin ∧ band.noiseFloor < bins.getD bin 0 := by
  rw [heard, Finset.mem_filter, Finset.mem_range, and_iff_right_iff_imp]
  rintro ⟨-, loud⟩
  by_contra beyond
  rw [List.getD_eq_default _ _ (Nat.not_lt.mp beyond)] at loud
  exact UInt16.not_lt_zero loud

theorem heardSum_eq_energy (band : Band) (bins : List UInt16) :
    band.heardSum bins = band.energy bins := by
  have within : band.heard bins = (Finset.Icc band.startBin.toNat band.endBin.toNat).filter
      fun bin => band.noiseFloor < bins.getD bin 0 := by
    ext bin
    rw [mem_heard, Finset.mem_filter, Finset.mem_Icc, Covers]
  rw [heardSum, within, Finset.sum_filter]
  -- The interval is the list of numbers that the energy goes through.
  rfl

theorem sum_ok_iff (band : Band) (bins : List UInt16) (ordered : band.startBin ≤ band.endBin)
    (sum : Nat) :
    band.sum bins = .ok sum ↔ sum = band.energy bins ∧ band.energy bins < UInt32.size := by
  rw [sum_eq_energy band bins ordered, Checked.word32, Checked.below_ok_iff]

theorem startBin_after {band : Band} {last : UInt64} (before : last < band.endBin) :
    (band.after last).startBin.toNat = last.toNat + 1 := by
  have below := UInt64.lt_iff_toNat_lt.mp before
  have word := band.endBin.toNat_lt
  rw [after, UInt64.toNat_add]
  exact Nat.mod_eq_of_lt (Nat.lt_of_le_of_lt below word)

theorem ordered_after {band : Band} {last : UInt64} (before : last < band.endBin) :
    (band.after last).startBin ≤ (band.after last).endBin := by
  rw [UInt64.le_iff_toNat_le, startBin_after before]
  exact UInt64.lt_iff_toNat_lt.mp before

theorem covers_cut {band : Band} {last : UInt64} (least : band.startBin ≤ last)
    (before : last < band.endBin) (bin : Nat) :
    (band.Covers bin ↔ (band.upTo last).Covers bin ∨ (band.after last).Covers bin) ∧
      ¬ ((band.upTo last).Covers bin ∧ (band.after last).Covers bin) := by
  have start := UInt64.le_iff_toNat_le.mp least
  have stop := UInt64.lt_iff_toNat_lt.mp before
  simp only [Covers, startBin_upTo, endBin_upTo, startBin_after before, endBin_after]
  omega

theorem energy_cut (band : Band) (bins : List UInt16) (last : UInt64)
    (least : band.startBin ≤ last) (before : last < band.endBin) :
    (band.upTo last).energy bins + (band.after last).energy bins = band.energy bins := by
  have start := UInt64.le_iff_toNat_le.mp least
  have stop := UInt64.lt_iff_toNat_lt.mp before
  have split : band.endBin.toNat + 1 - band.startBin.toNat =
      (last.toNat + 1 - band.startBin.toNat) + (band.endBin.toNat + 1 - (last.toNat + 1)) := by omega
  have next : band.startBin.toNat + (last.toNat + 1 - band.startBin.toNat) = last.toNat + 1 := by
    omega
  rw [energy, energy, energy, startBin_after before, split, ← List.range'_append_1, next,
    List.map_append, List.sum_append]
  rfl

theorem audible_mono {band lower : Band} (floor : lower.noiseFloor ≤ band.noiseFloor)
    {magnitude louder : UInt16} (raised : magnitude ≤ louder) :
    band.audible magnitude ≤ lower.audible louder := by
  rw [UInt16.le_iff_toNat_le] at floor raised
  simp only [audible, UInt16.lt_iff_toNat_lt]
  split
  · next heard =>
    rw [if_pos (by omega)]
    exact raised
  · exact Nat.zero_le _

theorem energy_mono (band : Band) (bins louder : List UInt16) (floor : UInt16)
    (lower : floor ≤ band.noiseFloor)
    (raised : ∀ bin, band.Covers bin → bins.getD bin 0 ≤ louder.getD bin 0) :
    band.energy bins ≤ (band.atFloor floor).energy louder := by
  refine List.sum_le_sum fun bin member => ?_
  have inside := List.mem_range'_1.mp member
  exact audible_mono lower (raised bin ⟨inside.1, by omega⟩)

theorem sums_eq_energies (bins : List UInt16) {parts : List Band} {sums : List Nat}
    (ordered : ∀ part ∈ parts, part.startBin ≤ part.endBin)
    (summed : List.Forall₂ (fun (part : Band) sum => part.sum bins = .ok sum) parts sums) :
    sums = parts.map (·.energy bins) := by
  induction summed with
  | nil => rfl
  | @cons part sum parts sums first rest ih =>
    obtain ⟨rfl, -⟩ := (part.sum_ok_iff bins (ordered part (by simp)) sum).mp first
    rw [List.map_cons, ← ih fun other member => ordered other (by simp [member])]

namespace Tiles

variable {band : Band} {parts : List Band}

theorem ordered (tiles : band.Tiles parts) (upright : band.startBin ≤ band.endBin) :
    ∀ part ∈ parts, part.startBin ≤ part.endBin := by
  induction tiles with
  | whole band => simpa using upright
  | cut least before rest ih =>
    intro part member
    rcases List.mem_cons.mp member with rfl | later
    · exact least
    · exact ih (ordered_after before) part later

theorem energy (tiles : band.Tiles parts) (bins : List UInt16) :
    (parts.map (·.energy bins)).sum = band.energy bins := by
  induction tiles with
  | whole band => simp
  | cut least before rest ih =>
    rw [List.map_cons, List.sum_cons, ih, energy_cut _ bins _ least before]

theorem covers (tiles : band.Tiles parts) (bin : Nat) :
    parts.countP (fun part => part.Covers bin) = if band.Covers bin then 1 else 0 := by
  induction tiles with
  | whole band => simp [List.countP_cons]
  | @cut band last parts least before rest ih =>
    have sides := covers_cut least before bin
    rw [List.countP_cons, ih]
    by_cases early : (band.upTo last).Covers bin
    · have late : ¬ (band.after last).Covers bin := fun late => sides.2 ⟨early, late⟩
      simp [early, late, sides.1]
    · simp [early, sides.1]

/-- No part reaches a word where the whole does not. -/
theorem computed (tiles : band.Tiles parts) (upright : band.startBin ≤ band.endBin)
    (bins : List UInt16) (fits : band.energy bins < UInt32.size) :
    parts.mapM (·.sum bins) = .ok (parts.map (·.energy bins)) := by
  refine Checked.mapM_eq_map _ _ _ fun part member => ?_
  refine part.sum_of_fits bins (tiles.ordered upright part member) ?_
  have share : part.energy bins ≤ (parts.map (·.energy bins)).sum :=
    List.le_sum_of_mem (List.mem_map_of_mem member)
  rw [tiles.energy bins] at share
  exact Nat.lt_of_le_of_lt share fits

theorem total (tiles : band.Tiles parts) (upright : band.startBin ≤ band.endBin)
    (bins : List UInt16) {sums : List Nat}
    (summed : List.Forall₂ (fun (part : Band) sum => part.sum bins = .ok sum) parts sums) :
    sums.sum = band.energy bins := by
  rw [sums_eq_energies bins (tiles.ordered upright) summed, tiles.energy bins]

end Tiles

section
variable {band : Band} (ordered : band.startBin ≤ band.endBin)
include ordered

theorem sum_cut (bins : List UInt16) (last : UInt64) (total : Nat) (least : band.startBin ≤ last)
    (before : last < band.endBin) :
    band.sum bins = .ok total ↔ ∃ first second, (band.upTo last).sum bins = .ok first ∧
      (band.after last).sum bins = .ok second ∧ first + second = total ∧
        total < UInt32.size := by
  have whole := energy_cut band bins last least before
  simp only [sum_ok_iff band bins ordered, sum_ok_iff (band.upTo last) bins least,
    sum_ok_iff (band.after last) bins (ordered_after before)]
  constructor
  · rintro ⟨rfl, fits⟩
    exact ⟨_, _, ⟨rfl, by omega⟩, ⟨rfl, by omega⟩, whole, fits⟩
  · rintro ⟨_, _, ⟨rfl, -⟩, ⟨rfl, -⟩, rfl, fits⟩
    exact ⟨whole, by omega⟩

theorem sum_shared (bins : List UInt16) (parts : List Band) (total : Nat)
    (tiles : band.Tiles parts) :
    band.sum bins = .ok total ↔ ∃ sums, parts.mapM (·.sum bins) = .ok sums ∧
      sums.sum = total ∧ total < UInt32.size := by
  rw [sum_ok_iff band bins ordered]
  constructor
  · rintro ⟨rfl, fits⟩
    exact ⟨_, tiles.computed ordered bins fits, tiles.energy bins, fits⟩
  · rintro ⟨sums, computed, rfl, fits⟩
    rw [tiles.total ordered bins (Checked.mapM_forall₂ _ _ _ computed)] at fits ⊢
    exact ⟨rfl, fits⟩

theorem sum_mono (bins louder : List UInt16) (floor : UInt16) (greater : Nat)
    (lower : floor ≤ band.noiseFloor)
    (raised : ∀ bin, band.Covers bin → bins.getD bin 0 ≤ louder.getD bin 0)
    (computed : (band.atFloor floor).sum louder = .ok greater) :
    ∃ sum, band.sum bins = .ok sum ∧ sum ≤ greater := by
  obtain ⟨rfl, fits⟩ := (sum_ok_iff (band.atFloor floor) louder ordered greater).mp computed
  have bound := band.energy_mono bins louder floor lower raised
  exact ⟨_, band.sum_of_fits bins ordered (Nat.lt_of_le_of_lt bound fits), bound⟩

theorem sum_congr (bins others : List UInt16)
    (same : ∀ bin, band.Covers bin → others.getD bin 0 = bins.getD bin 0) :
    band.sum others = band.sum bins := by
  rw [sum_eq_energy band others ordered, sum_eq_energy band bins ordered,
    band.energy_congr others bins fun bin least most => same bin ⟨least, most⟩]

theorem tick_sums {a next : Aggregator} {s : Spectrum} {collected listed : List LevelEvent}
    (tiles : band.Tiles a.bands) (ran : a.tickInto s collected = .ok (listed, next)) :
    next.sums.sum = band.energy s.bins := by
  obtain ⟨own, ticked, -⟩ := Aggregator.tickInto_success ran
  obtain ⟨verdicts, told⟩ := Aggregator.ticked_of_tick ticked
  exact tiles.total ordered s.bins told.sums

end

/-- The laws hold of every band whose ends are in order, and of bins of any number and size. -/
theorem sums_exact (band : Band) (ordered : band.startBin ≤ band.endBin) : band.ExactSums where
  faults bins fault := by
    rw [band.sum_eq_energy bins ordered, heardSum_eq_energy, Checked.word32, Checked.below_error_iff]
  value bins sum := by
    rw [band.sum_ok_iff bins ordered, heardSum_eq_energy]
  cut := sum_cut ordered
  shared := sum_shared ordered
  once _ bin tiles := tiles.covers bin
  ticked _ _ s _ _ tiles ran := by
    rw [tick_sums ordered tiles ran, heardSum_eq_energy]
  monotone := sum_mono ordered
  outside := sum_congr ordered
  padded bins count := sum_congr ordered bins _ fun bin _ => Spectrum.getD_padded bins count bin

theorem heardSum_level (band : Band) (count : Nat) (magnitude : UInt16)
    (first : band.startBin = 0) (few : count ≤ band.endBin.toNat + 1)
    (above : band.noiseFloor < magnitude) :
    band.heardSum (List.replicate count magnitude) = count * magnitude.toNat := by
  have level (bin : Nat) (inside : bin < count) :
      (List.replicate count magnitude).getD bin 0 = magnitude := List.getD_replicate _ inside
  have all : band.heard (List.replicate count magnitude) = Finset.range count := by
    ext bin
    rw [heard, Finset.mem_filter, List.length_replicate, Finset.mem_range, and_iff_left_iff_imp]
    intro inside
    rw [level bin inside, Covers, first]
    exact ⟨⟨Nat.zero_le bin, by omega⟩, above⟩
  rw [heardSum, all, Finset.sum_const_nat fun bin inside => ?_, Finset.card_range]
  rw [level bin (Finset.mem_range.mp inside)]

/-- As many full bins as a word can add up, and one more; then a few bins in parts, and louder. -/
theorem sums_exact_at_word_edge :
    (⟨0, 65537, 0⟩ : Band).sum (List.replicate 65537 65535) = .ok 4294967295 ∧
    (⟨0, 65537, 0⟩ : Band).sum (List.replicate 65538 65535) = .error .overflow ∧
    (⟨2, 6, 100⟩ : Band).sum [7, 900, 100, 101, 50, 300] = .ok 401 ∧
    (∃ first second, (⟨2, 4, 100⟩ : Band).sum [7, 900, 100, 101, 50, 300] = .ok first ∧
      (⟨5, 6, 100⟩ : Band).sum [7, 900, 100, 101, 50, 300] = .ok second ∧
      first + second = 401) ∧
    (∃ sums, ([⟨2, 2, 100⟩, ⟨3, 5, 100⟩, ⟨6, 6, 100⟩] : List Band).mapM
      (·.sum [7, 900, 100, 101, 50, 300]) = .ok sums ∧ sums.sum = 401) ∧
    (⟨2, 6, 49⟩ : Band).sum [0, 0, 100, 102, 50, 300, 8, 400] = .ok 552 ∧ 401 ≤ 552 := by
  have edge := sums_exact ⟨0, 65537, 0⟩ (by decide)
  have loud (count : Nat) (few : count ≤ 65538) :
      (⟨0, 65537, 0⟩ : Band).heardSum (List.replicate count 65535) = count * 65535 :=
    heardSum_level _ count 65535 rfl few (by decide)
  refine ⟨(edge.value _ _).mpr ?_, (edge.faults _ _).mpr ?_, ?_⟩
  · rw [loud _ (by decide)]
    decide
  · rw [loud _ (by decide)]
    decide
  have laws := sums_exact ⟨2, 6, 100⟩ (by decide)
  have whole : (⟨2, 6, 100⟩ : Band).sum [7, 900, 100, 101, 50, 300] = .ok 401 := rfl
  have tiles : Tiles ⟨2, 6, 100⟩ [⟨2, 2, 100⟩, ⟨3, 5, 100⟩, ⟨6, 6, 100⟩] :=
    .cut (by decide) (by decide) (.cut (by decide) (by decide) (.whole _))
  have raised : ∀ bin < 7, 2 ≤ bin → ([7, 900, 100, 101, 50, 300] : List UInt16).getD bin 0 ≤
      ([0, 0, 100, 102, 50, 300, 8, 400] : List UInt16).getD bin 0 := by decide
  obtain ⟨first, second, left, right, added, -⟩ :=
    (laws.cut _ 4 _ (by decide) (by decide)).mp whole
  obtain ⟨sums, computed, shared, -⟩ := (laws.shared _ _ _ tiles).mp whole
  obtain ⟨sum, lesser, bound⟩ := laws.monotone _ _ 49 552 (by decide)
    (fun bin inside => raised bin (Nat.lt_succ_of_le inside.2) inside.1) rfl
  cases whole.symm.trans lesser
  exact ⟨whole, ⟨first, second, left, right, added⟩, ⟨sums, computed, shared⟩, rfl, bound⟩

end Band

end BandLight
