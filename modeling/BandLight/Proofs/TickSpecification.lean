import BandLight.Proofs.BandEnergy
import BandLight.Proofs.BandHistory
import BandLight.Proofs.StartChecks
import BandLight.Proofs.TuningBounds

/-! A tick in closed form. Each band has an energy in the spectrum, their total sets the
threshold and the divisor, and the bands whose energy has risen by more than the threshold
are listed in order with their levels. An aggregator that a run has led to takes every
spectrum this way as long as the energies are words. -/
namespace BandLight.Aggregator

def Reachable (a : Aggregator) (bands : List Band) (length : Nat) : Prop :=
  ∃ tuning start operations log, configure bands length tuning = .ok start ∧
    start.history operations = .ok (log, a)

section
variable (a : Aggregator) (s : Spectrum)

def energies : List Nat := a.bands.map (·.energy s.bins)

def energyOf (i : Nat) : Nat := (a.energies s).getD i 0

/-- The energy of all bands together, which stays at the greatest word. -/
def totalEnergy : Nat := min (a.energies s).sum 4294967295

/-- Silence keeps the threshold of the last tick with energy. -/
def tickThreshold : Nat :=
  if 0 < a.totalEnergy s then a.tuning.thresholdAt (a.totalEnergy s) else a.threshold

def tickDivisor : Nat :=
  if 0 < a.totalEnergy s then a.tuning.divisorAt (a.totalEnergy s) else a.divisor

/-- A band has risen above what it remembers by more than the threshold. -/
def Rises (i : Nat) : Prop :=
  0 < a.energyOf s i ∧ (a.tickThreshold s : Int) < (a.energyOf s i : Int) - a.remembered i

instance (i : Nat) : Decidable (a.Rises s i) := inferInstanceAs (Decidable (_ ∧ _))

def levelOf (i : Nat) : UInt8 := UInt8.ofNat (min (a.energyOf s i / a.tickDivisor s) 255)

/-- The event of each band that rises, in the order of the bands. -/
def onsets : List LevelEvent :=
  (List.range a.bands.length).filterMap fun i =>
    if a.Rises s i then some { band := UInt64.ofNat i, level := a.levelOf s i } else none

/-- What a band is compared with at the next tick. -/
def nextRemembered (i : Nat) : Nat :=
  if a.energyOf s i = 0 then 0 else if a.Rises s i then a.energyOf s i else a.remembered i

/-- The aggregator after a tick: bands, tuning and spectrum length stay. -/
def ticked : Aggregator :=
  { a with
    sums := a.energies s
    previous := (List.range a.bands.length).map (a.nextRemembered s)
    threshold := a.tickThreshold s
    divisor := a.tickDivisor s }

end

structure Placed (a : Aggregator) (bands : List Band) (length : Nat) : Prop where
  keeps : a.Keeps bands
  spectrumLength : a.spectrumLength = length
  inside : ∀ band ∈ bands, band.endBin.toNat < length

theorem zipIdx_map_range {α : Type} (f : Nat → α) (n : Nat) :
    ((List.range n).map f).zipIdx = (List.range n).map fun i => (f i, i) := by
  induction n with
  | zero => rfl
  | succ n ih => simp [List.range_succ, List.zipIdx_append, ih]

theorem events_range (level : Nat → Option UInt8) (n : Nat) :
    events ((List.range n).map level) = (List.range n).filterMap fun i =>
      (level i).map fun level => { band := UInt64.ofNat i, level } := by
  rw [events, zipIdx_map_range, List.filterMap_map]
  rfl

section
variable {a b : Aggregator} {bands : List Band} {length : Nat} {s : Spectrum}

theorem totalEnergy_le (a : Aggregator) (s : Spectrum) : a.totalEnergy s ≤ 4294967295 :=
  Nat.min_le_right _ _

theorem foldl_energies (a : Aggregator) (s : Spectrum) :
    (a.energies s).foldl saturatingAdd32 0 = a.totalEnergy s := by
  rw [foldl_saturatingAdd32 _ _ (by decide), Nat.zero_add, totalEnergy]

theorem events_rises (a : Aggregator) (s : Spectrum) :
    events ((List.range a.bands.length).map fun i =>
      if a.Rises s i then some (a.levelOf s i) else none) = a.onsets s := by
  rw [events_range]
  refine List.filterMap_congr fun i _ => ?_
  split <;> rfl

theorem zip_range (items others : List Nat) (same : items.length = others.length) :
    items.zip others =
      (List.range items.length).map fun i => (items.getD i 0, others.getD i 0) := by
  apply List.ext_getElem
  · simp [same]
  · intro i left right
    have inside : i < items.length := by simpa using right
    have also : i < others.length := same ▸ inside
    simp [inside, also]

theorem getD_lt (items : List Nat) (limit : Nat) (positive : 0 < limit)
    (each : ∀ item ∈ items, item < limit) (i : Nat) : items.getD i 0 < limit := by
  by_cases inside : i < items.length
  · rw [List.getD_eq_getElem _ _ inside]
    exact each _ (List.getElem_mem inside)
  · rw [List.getD_eq_default _ _ (by omega)]
    exact positive

theorem energyOf_lt (fits : ∀ band ∈ a.bands, band.energy s.bins < UInt32.size) (i : Nat) :
    a.energyOf s i < UInt32.size := by
  refine getD_lt _ _ (by decide) (fun energy member => ?_) i
  obtain ⟨band, there, rfl⟩ := List.mem_map.mp member
  exact fits band there

theorem Sound.tickDivisor_ne (sound : a.Sound) (s : Spectrum) : a.tickDivisor s ≠ 0 := by
  unfold tickDivisor
  split
  · exact Tuning.divisorAt_ne_zero sound.tuning _
  · exact sound.divisor

theorem Sound.scaling_eq (sound : a.Sound) (s : Spectrum) :
    a.scaling (a.totalEnergy s) = .ok (a.tickThreshold s, a.tickDivisor s) := by
  unfold scaling tickThreshold tickDivisor
  split
  · rw [Tuning.threshold_eq sound.tuning, Tuning.divisor_eq sound.tuning]
    rfl
  · rfl

theorem Keeps.tickInto_eq (keeps : a.Keeps bands)
    (fits : ∀ band ∈ bands, band.energy s.bins < UInt32.size) (collected : List LevelEvent) :
    a.tickInto s collected = .ok (collected ++ a.onsets s, a.ticked s) := by
  obtain ⟨rfl, whole, sound⟩ := keeps
  have summed : a.bands.mapM (·.sum s.bins) = .ok (a.energies s) :=
    Checked.mapM_eq_map _ _ _ fun band member =>
      band.sum_of_fits s.bins (sound.ordered band member) (fits band member)
  have length : (a.energies s).length = a.bands.length := List.length_map _
  have pairs : (a.energies s).zip a.previous =
      (List.range a.bands.length).map fun i => (a.energyOf s i, a.remembered i) := by
    rw [zip_range _ _ (length.trans whole.symm), length]
    rfl
  have judged : ((List.range a.bands.length).map fun i => (a.energyOf s i, a.remembered i)).mapM
      (fun band => judge (a.tickThreshold s) (a.tickDivisor s) band.1 band.2) =
      .ok ((List.range a.bands.length).map fun i =>
        (if a.Rises s i then some (a.levelOf s i) else none, a.nextRemembered s i)) := by
    rw [List.mapM_map]
    refine Checked.mapM_eq_map _ _ _ fun i _ => ?_
    exact judge_eq _ _ _ _ (sound.tickDivisor_ne s) (energyOf_lt fits i)
      (getD_lt _ _ (by decide) sound.previous i)
  unfold tickInto
  simp only [summed, Checked.ok_bind, foldl_energies, sound.scaling_eq s, pairs, judged,
    List.map_map, Function.comp_def, events_rises]
  rfl

theorem Keeps.tick_eq (keeps : a.Keeps bands)
    (fits : ∀ band ∈ bands, band.energy s.bins < UInt32.size) :
    a.tick s = .ok (a.onsets s, a.ticked s) :=
  keeps.tickInto_eq fits []

theorem Keeps.tick_inv {listed : List LevelEvent} (keeps : a.Keeps bands)
    (ok : a.tick s = .ok (listed, b)) :
    (∀ band ∈ bands, band.energy s.bins < UInt32.size) ∧ listed = a.onsets s ∧
      b = a.ticked s := by
  obtain ⟨verdicts, told⟩ := ticked_of_tick ok
  have fits : ∀ band ∈ bands, band.energy s.bins < UInt32.size := by
    intro band member
    have ordered := keeps.sound.ordered band (keeps.table ▸ member)
    obtain ⟨i, inside, rfl⟩ := List.getElem_of_mem (keeps.table ▸ member : band ∈ a.bands)
    have summed := told.sum_eq i inside
    rw [Band.sum_eq_energy _ _ ordered] at summed
    exact (Checked.below_success _ _ _ summed).2
  rw [keeps.tick_eq fits] at ok
  cases ok
  exact ⟨fits, rfl, rfl⟩

theorem configure_placed {tuning : Tuning} (configured : configure bands length tuning = .ok a) :
    a.Placed bands length := by
  obtain ⟨keeps, -⟩ := configure_keeps configured
  obtain ⟨valid, -, rfl⟩ := configure_success bands length tuning a configured
  have checked := check_bands length 0 bands
  rw [valid] at checked
  have rules := (bandRules_hold length bands).mp ((Rule.check_ok _).mp checked)
  exact ⟨keeps, rfl, fun band member => (rules band member).2⟩

theorem Placed.ticked (placed : a.Placed bands length)
    (fits : ∀ band ∈ bands, band.energy s.bins < UInt32.size) :
    (a.ticked s).Placed bands length := by
  obtain ⟨keeps, size, inside⟩ := placed
  have sound := tick_sound keeps.sound s _ (keeps.tick_eq fits)
  refine ⟨⟨keeps.table, ?_, sound⟩, size, inside⟩
  rw [Aggregator.ticked, List.length_map, List.length_range, keeps.table]

inductive Changed (a : Aggregator) : Operation → Aggregator → Prop
  | ticked {operation : Operation} {s : Spectrum} (asked : operation.spectrum? = some s)
      (fits : ∀ band ∈ a.bands, band.energy s.bins < UInt32.size) : Changed a operation (a.ticked s)
  | retuned {tuning : Tuning} (valid : tuning.Valid) :
      Changed a (.setTuning tuning) { a with tuning }
  | refused {tuning : Tuning} : Changed a (.setTuning tuning) a
  | reset : Changed a .reset a.reset

theorem Keeps.changed (keeps : a.Keeps bands) {operation : Operation} {outcome : Outcome}
    (performed : a.perform operation = .ok (outcome, b)) : a.Changed operation b := by
  cases operation with
  | tick s =>
    obtain ⟨⟨listed, next⟩, ran, performed⟩ := Checked.bind_success _ _ _ performed
    cases performed
    obtain ⟨fits, -, rfl⟩ := keeps.tick_inv ran
    exact .ticked rfl (keeps.table ▸ fits)
  | tickInto s collected =>
    obtain ⟨⟨listed, next⟩, ran, performed⟩ := Checked.bind_success _ _ _ performed
    cases performed
    obtain ⟨own, ran, -⟩ := tickInto_success ran
    obtain ⟨fits, -, rfl⟩ := keeps.tick_inv ran
    exact .ticked rfl (keeps.table ▸ fits)
  | setTuning tuning =>
    cases valid : tuning.validate with
    | error e =>
      rw [Aggregator.perform, a.setTuning_error tuning e valid] at performed
      cases performed
      exact .refused
    | ok done =>
      rw [Aggregator.perform, a.setTuning_eq tuning valid] at performed
      cases performed
      exact .retuned valid
  | reset =>
    cases performed
    exact .reset

theorem Placed.changed (placed : a.Placed bands length) {operation : Operation}
    (changed : a.Changed operation b) : b.Placed bands length := by
  cases changed with
  | ticked _ fits => exact placed.ticked (placed.keeps.table ▸ fits)
  | retuned valid =>
    obtain ⟨⟨table, whole, sound⟩, size, inside⟩ := placed
    exact ⟨⟨table, whole, sound.ordered, valid, sound.previous, sound.divisor⟩, size, inside⟩
  | refused => exact placed
  | reset =>
    obtain ⟨⟨table, whole, sound⟩, size, inside⟩ := placed
    exact ⟨⟨table, (List.length_map _).trans whole, a.reset_sound sound⟩, size, inside⟩

theorem Placed.note (placed : a.Placed bands length) {operation : Operation} {entry : Entry}
    (noted : a.note operation = .ok (entry, b)) :
    entry.operation = operation ∧ entry.after = b ∧ a.Changed operation b ∧
      b.Placed bands length := by
  obtain ⟨⟨outcome, next⟩, performed, noted⟩ := Checked.bind_success _ _ _ noted
  cases noted
  have changed := placed.keeps.changed performed
  exact ⟨rfl, rfl, changed, placed.changed changed⟩

theorem history_placed (placed : a.Placed bands length) {operations : List Operation}
    {log : List Entry} (ran : a.history operations = .ok (log, b)) : b.Placed bands length := by
  refine Checked.trace_induction note (fun _ _ b => b.Placed bands length) a placed ?_
    operations log b ran
  intro _ _ before operation entry after _ kept noted
  exact (kept.note noted).2.2.2

theorem Reachable.placed (reached : a.Reachable bands length) : a.Placed bands length := by
  obtain ⟨_, _, _, _, configured, ran⟩ := reached
  exact history_placed (configure_placed configured) ran

/-- A tick looks at no bin beyond the length, and takes a missing one for silent. -/
theorem Placed.tickInto_resized (placed : a.Placed bands length) (s : Spectrum)
    (collected : List LevelEvent) :
    a.tickInto (s.resized length) collected = a.tickInto s collected := by
  obtain ⟨⟨rfl, _, sound⟩, _, inside⟩ := placed
  have sums : a.bands.mapM (·.sum (s.resized length).bins) = a.bands.mapM (·.sum s.bins) := by
    refine Checked.mapM_congr _ _ _ fun band member => ?_
    rw [band.sum_eq_energy _ (sound.ordered band member),
      band.sum_eq_energy _ (sound.ordered band member),
      band.energy_resized s length (inside band member)]
  rw [tickInto, sums]
  rfl

theorem Sound.scaling_of_pos (sound : a.Sound) (energetic : 0 < a.totalEnergy s) :
    a.tuning.threshold (a.totalEnergy s) = .ok (a.tickThreshold s) ∧
      a.tuning.divisor (a.totalEnergy s) = .ok (a.tickDivisor s) := by
  rw [tickThreshold, tickDivisor, if_pos energetic, if_pos energetic]
  exact ⟨Tuning.threshold_eq sound.tuning _, Tuning.divisor_eq sound.tuning _⟩

end

/-- Wherever a run has led, a tick lists the bands that rise and remembers their energies,
with the scaling that the tuning gives at the total energy. It puts its events behind those
in a list, and only the bins within the length of a spectrum count. -/
theorem tick_specified {a : Aggregator} {bands : List Band} {length : Nat}
    (reached : a.Reachable bands length) (s : Spectrum)
    (fits : ∀ band ∈ bands, band.energy s.bins < UInt32.size) (collected : List LevelEvent) :
    a.bands = bands ∧ a.spectrumLength = length ∧
      a.tickInto s collected = .ok (collected ++ a.onsets s, a.ticked s) ∧
      a.tick s = .ok (a.onsets s, a.ticked s) ∧
      a.tickInto (s.resized length) collected = a.tickInto s collected ∧
      (0 < a.totalEnergy s →
        a.tuning.threshold (a.totalEnergy s) = .ok (a.tickThreshold s) ∧
          a.tuning.divisor (a.totalEnergy s) = .ok (a.tickDivisor s)) := by
  have placed := reached.placed
  refine ⟨placed.keeps.table, placed.spectrumLength, placed.keeps.tickInto_eq fits collected,
    placed.keeps.tick_eq fits, placed.tickInto_resized s collected, ?_⟩
  exact placed.keeps.sound.scaling_of_pos

theorem tick_specified_overlapping :
    ∃ a : Aggregator, a.Reachable [⟨0, 1, 0⟩, ⟨1, 1, 0⟩, ⟨2, 3, 30⟩] 4 ∧
      a.previous = [120, 0, 50] ∧
      a.tickInto ⟨[250, 20]⟩ [⟨7, 7⟩] = .ok ([⟨7, 7⟩, ⟨0, 45⟩],
        { a with sums := [270, 20, 0], previous := [270, 0, 0], threshold := 72, divisor := 6 }) := by
  have reached : Reachable
      ⟨[⟨0, 1, 0⟩, ⟨1, 1, 0⟩, ⟨2, 3, 30⟩], .standard, 4, [120, 20, 50], [120, 0, 50], 47, 6⟩
      [⟨0, 1, 0⟩, ⟨1, 1, 0⟩, ⟨2, 3, 30⟩] 4 :=
    ⟨.standard, _, [.tick ⟨[100, 20, 50, 30]⟩], _, rfl, rfl⟩
  obtain ⟨-, -, specified, -⟩ := tick_specified reached ⟨[250, 20]⟩ (by decide) [⟨7, 7⟩]
  exact ⟨_, reached, rfl, specified⟩

end BandLight.Aggregator
