import BandLight.Proofs.RetriggerBounds
import Mathlib.Data.Finset.Max
import Mathlib.Data.Finset.Range

/-! The first onsets after silence. A band that remembers nothing is heard as soon as its
energy is above the threshold. The threshold is a part of the total energy, one of at least as
many as its base counts, so with fewer bands than that the loudest is always heard. -/
namespace BandLight.Aggregator

def Forgotten (a : Aggregator) : Prop := ∀ sum ∈ a.previous, sum = 0

/-- Nothing has happened yet, or the last that has is a reset or a tick in silence. -/
def Rested (log : List Entry) : Prop :=
  ∀ entry ∈ log.getLast?, entry.resets = true ∨
    ∃ s, entry.operation.spectrum? = some s ∧ ∀ energy ∈ entry.after.energies s, energy = 0

/-- What a tick on a spectrum lists when no band remembers a sum. -/
structure Onset (a : Aggregator) (s : Spectrum) (listed : List LevelEvent) (b : Aggregator) :
    Prop where
  summed : b.sums = a.energies s
  bands : ∃ threshold, a.tuning.threshold (a.totalEnergy s) = .ok threshold ∧
    listed.map (·.band) =
      ((List.range a.bands.length).filter (threshold < a.energyOf s ·)).map UInt64.ofNat
  loudest : a.bands.length < a.tuning.thresholdBase.toNat → ∀ i < a.bands.length,
    0 < a.energyOf s i → (∀ j, a.energyOf s j ≤ a.energyOf s i) →
    ∃ level, { band := UInt64.ofNat i, level } ∈ listed
  heard : a.bands.length < a.tuning.thresholdBase.toNat → ∀ i, 0 < a.energyOf s i → listed ≠ []

section
variable {a b : Aggregator} {bands : List Band} {length : Nat} {s : Spectrum} {log : List Entry}

theorem getD_eq_zero (items : List Nat) (zeros : ∀ item ∈ items, item = 0) (i : Nat) :
    items.getD i 0 = 0 := by
  refine Nat.lt_one_iff.mp (getD_lt items 1 Nat.one_pos (fun item member => ?_) i)
  rw [zeros item member]
  exact Nat.one_pos

theorem Forgotten.remembered (forgotten : a.Forgotten) (i : Nat) : a.remembered i = 0 :=
  getD_eq_zero a.previous forgotten i

theorem forgotten_of_silence (silent : ∀ energy ∈ a.energies s, energy = 0) :
    (a.ticked s).Forgotten := by
  intro sum member
  obtain ⟨i, -, rfl⟩ := List.mem_map.mp member
  exact if_pos (getD_eq_zero _ silent i)

theorem Forgotten.rises_iff (forgotten : a.Forgotten)
    (fits : ∀ band ∈ a.bands, band.energy s.bins < UInt32.size) (i : Nat) :
    a.Rises s i ↔ a.tuning.thresholdAt (a.totalEnergy s) < a.energyOf s i := by
  have part := energyOf_le_total fits i
  unfold Rises
  rw [forgotten.remembered i, tickThreshold]
  split <;> omega

theorem Forgotten.bands_onsets (forgotten : a.Forgotten)
    (fits : ∀ band ∈ a.bands, band.energy s.bins < UInt32.size) :
    (a.onsets s).map (·.band) = ((List.range a.bands.length).filter
      (a.tuning.thresholdAt (a.totalEnergy s) < a.energyOf s ·)).map UInt64.ofNat := by
  rw [onsets, List.map_filterMap, ← List.filterMap_eq_map, List.filterMap_filter]
  refine List.filterMap_congr fun i _ => ?_
  by_cases rises : a.Rises s i
  · simp [rises, (forgotten.rises_iff fits i).mp rises]
  · simp [rises, mt (forgotten.rises_iff fits i).mpr rises]

/-- All bands together have no more than each would at the energy of the loudest. -/
theorem totalEnergy_le_loudest (i : Nat) (loudest : ∀ j, a.energyOf s j ≤ a.energyOf s i) :
    a.totalEnergy s ≤ a.bands.length * a.energyOf s i := by
  have each : ∀ energy ∈ a.energies s, energy ≤ a.energyOf s i := by
    intro energy member
    obtain ⟨j, there, rfl⟩ := List.getElem_of_mem member
    have own := loudest j
    rwa [energyOf, List.getD_eq_getElem _ _ there] at own
  have bound := List.sum_le_card_nsmul _ _ each
  rw [energies, List.length_map, Nat.nsmul_eq_mul] at bound
  exact (Nat.min_le_left _ _).trans bound

theorem exists_loudest (some : 0 < a.bands.length) :
    ∃ i < a.bands.length, ∀ j, a.energyOf s j ≤ a.energyOf s i := by
  obtain ⟨i, member, most⟩ := Finset.exists_max_image (Finset.range a.bands.length)
    (a.energyOf s) ⟨0, Finset.mem_range.mpr some⟩
  refine ⟨i, Finset.mem_range.mp member, fun j => ?_⟩
  by_cases inside : j < a.bands.length
  · exact most j (Finset.mem_range.mpr inside)
  · rw [energyOf_beyond j inside]
    exact Nat.zero_le _

theorem Placed.onset (placed : a.Placed bands length) (forgotten : a.Forgotten)
    (fits : ∀ band ∈ bands, band.energy s.bins < UInt32.size) :
    Onset a s (a.onsets s) (a.ticked s) := by
  obtain ⟨⟨rfl, -, sound⟩, -, -⟩ := placed
  have loudest (few : a.bands.length < a.tuning.thresholdBase.toNat) (i : Nat)
      (inside : i < a.bands.length) (some : 0 < a.energyOf s i)
      (most : ∀ j, a.energyOf s j ≤ a.energyOf s i) :
      { band := UInt64.ofNat i, level := a.levelOf s i } ∈ a.onsets s := by
    have above := a.tuning.thresholdAt_lt few some (totalEnergy_le_loudest i most)
    exact (mem_onsets _).mpr ⟨i, inside, (forgotten.rises_iff fits i).mpr above, rfl⟩
  refine ⟨rfl, ⟨_, Tuning.threshold_eq sound.tuning _, forgotten.bands_onsets fits⟩,
    fun few i inside some most => ⟨_, loudest few i inside some most⟩, ?_⟩
  · intro few i some
    have inside : i < a.bands.length := by
      by_contra beyond
      exact some.ne' (energyOf_beyond i beyond)
    obtain ⟨j, there, most⟩ := exists_loudest (s := s) (Nat.zero_lt_of_lt inside)
    exact List.ne_nil_of_mem (loudest few j there (Nat.lt_of_lt_of_le some (most i)) most)

theorem forgotten_of_changed {operation : Operation} (changed : a.Changed operation b)
    (rested : operation = .reset ∨
      ∃ s, operation.spectrum? = some s ∧ ∀ energy ∈ b.energies s, energy = 0) :
    b.Forgotten := by
  cases changed with
  | ticked asked fits =>
    rcases rested with rfl | ⟨s, same, silent⟩
    · cases asked
    · cases asked.symm.trans same
      exact forgotten_of_silence silent
  | retuned valid =>
    rcases rested with reset | ⟨s, ticks, -⟩
    · cases reset
    · cases ticks
  | refused =>
    rcases rested with reset | ⟨s, ticks, -⟩
    · cases reset
    · cases ticks
  | reset =>
    intro sum member
    obtain ⟨old, -, rfl⟩ := List.mem_map.mp member
    rfl

theorem configure_forgotten {tuning : Tuning} (configured : configure bands length tuning = .ok a) :
    a.Forgotten := by
  obtain ⟨-, -, rfl⟩ := configure_success bands length tuning a configured
  intro sum member
  obtain ⟨band, -, rfl⟩ := List.mem_map.mp member
  rfl

theorem history_rested (placed : a.Placed bands length) (forgotten : a.Forgotten)
    {operations : List Operation} (ran : a.history operations = .ok (log, b)) :
    b.Placed bands length ∧ (Rested log → b.Forgotten) := by
  refine Checked.trace_induction note (fun _ log b => b.Placed bands length ∧
    (Rested log → b.Forgotten)) a ⟨placed, fun _ => forgotten⟩ ?_ operations log b ran
  intro _ log before operation entry after _ kept noted
  obtain ⟨rfl, rfl, changed, next⟩ := kept.1.note noted
  refine ⟨next, fun rested => forgotten_of_changed changed ?_⟩
  exact (rested entry (by simp)).imp_left beq_iff_eq.mp

end

/-- From a state in which no band remembers a sum, as after a reset or in silence, a tick hears
exactly the bands above the threshold of its total. With fewer bands than the base of the
threshold it hears the loudest band, and so some band whenever there is energy. -/
theorem onset_after_silence {bands : List Band} {length : Nat} {tuning : Tuning} {a : Aggregator}
    (configured : configure bands length tuning = .ok a) (operations : List Operation)
    (log : List Entry) (b : Aggregator) (ran : a.history operations = .ok (log, b)) :
    (Rested log → b.Forgotten) ∧
      (b.Forgotten → ∀ s : Spectrum, (∀ band ∈ bands, band.energy s.bins < UInt32.size) →
        ∃ listed next, b.tick s = .ok (listed, next) ∧ Onset b s listed next) := by
  obtain ⟨placed, rested⟩ :=
    history_rested (configure_placed configured) (configure_forgotten configured) ran
  refine ⟨rested, fun forgotten s fits => ?_⟩
  exact ⟨_, _, placed.keeps.tick_eq fits, placed.onset forgotten fits⟩

theorem onset_after_silent_tick : ∃ a log b listed next,
    configure [⟨0, 0, 0⟩, ⟨1, 1, 0⟩, ⟨2, 2, 0⟩] 3 .standard = .ok a ∧
      a.history [.tick ⟨[100, 0, 7]⟩, .tick ⟨[]⟩] = .ok (log, b) ∧ b.Forgotten ∧
      b.tick ⟨[5, 9, 9]⟩ = .ok (listed, next) ∧ listed.map (·.band) = [1, 2] ∧ listed ≠ [] := by
  obtain ⟨a, first, last, b, listed, next, configured, ran, ticks, silent, few, ticked, energy,
      bands⟩ : ∃ a first last b listed next,
      configure [⟨0, 0, 0⟩, ⟨1, 1, 0⟩, ⟨2, 2, 0⟩] 3 .standard = .ok a ∧
      a.history [.tick ⟨[100, 0, 7]⟩, .tick ⟨[]⟩] = .ok ([first, last], b) ∧
      last.operation = .tick ⟨[]⟩ ∧ last.after.energies ⟨[]⟩ = [0, 0, 0] ∧
      b.bands.length < b.tuning.thresholdBase.toNat ∧
      b.tick ⟨[5, 9, 9]⟩ = .ok (listed, next) ∧ b.energyOf ⟨[5, 9, 9]⟩ 1 = 9 ∧
      ∀ threshold, b.tuning.threshold (b.totalEnergy ⟨[5, 9, 9]⟩) = .ok threshold →
        ((List.range b.bands.length).filter
          (threshold < b.energyOf ⟨[5, 9, 9]⟩ ·)).map UInt64.ofNat = [1, 2] :=
    ⟨_, _, _, _, _, _, rfl, rfl, rfl, rfl, by decide, rfl, rfl, by rintro _ ⟨⟩; decide⟩
  obtain ⟨rested, heard⟩ := onset_after_silence configured _ _ b ran
  have forgotten : b.Forgotten := rested fun entry found => by
    cases found
    exact .inr ⟨⟨[]⟩, congrArg Operation.spectrum? ticks, by simp [silent]⟩
  obtain ⟨_, _, same, onset⟩ := heard forgotten ⟨[5, 9, 9]⟩ (by decide)
  rw [ticked] at same
  cases same
  obtain ⟨threshold, computed, listed_bands⟩ := onset.bands
  refine ⟨a, _, b, listed, next, configured, ran, forgotten, ticked, ?_, ?_⟩
  · rw [listed_bands, bands threshold computed]
  · exact onset.heard few 1 (by omega)

-- As many bands as the base counts may have the same energy and all go unheard.
example : ((fresh [⟨0, 0, 0⟩, ⟨1, 1, 0⟩, ⟨2, 2, 0⟩, ⟨3, 3, 0⟩] 4 .standard).tick
    ⟨[9, 9, 9, 9]⟩).map (·.1) = .ok [] := rfl

end BandLight.Aggregator
