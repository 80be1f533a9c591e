import BandLight.Proofs.TickSpecification

/-! How far a band gets away from what it remembers. A tick that leaves a band unheard
finds it no further above than the threshold, and the threshold stays within the knee of the
tuning that it was made with. So a rise by more than the knee is heard whatever the other
bands do, and no run lets the history of a band lag further behind than that. -/
namespace BandLight.Aggregator

namespace Entry

def sounds (entry : Entry) : Bool := entry.ticks && decide (0 < entry.after.total)

def resets (entry : Entry) : Bool := entry.operation == .reset

end Entry

/-- The last tick that has found energy, if there is one since the last reset. -/
def lastSounding (log : List Entry) : Option Entry :=
  (log.reverse.takeWhile fun entry => !entry.resets).find? (·.sounds)

def kneeInForce (log : List Entry) : Nat :=
  (lastSounding log).elim 0 (·.after.tuning.thresholdKnee.toNat)

def lastEmitted (log : List Entry) (i : Nat) : Nat :=
  (log.reverse.find? (·.emits i)).elim 0 (·.after.sumOf i)

/-- Every tick of a run has summed the energies of its spectrum, and each band is left within
the threshold of what it remembers. -/
structure Lag (bands : List Band) (log : List Entry) (b : Aggregator) : Prop where
  summed : ∀ entry ∈ log, ∀ s, entry.operation.spectrum? = some s →
    entry.after.sums = bands.map (·.energy s.bins)
  behind : ∀ i, b.sumOf i ≤ b.remembered i + b.threshold
  reach : b.threshold ≤ kneeInForce log

/-- What a tick on a spectrum answers to after a run. -/
structure Heard (log : List Entry) (a : Aggregator) (s : Spectrum) (listed : List LevelEvent)
    (b : Aggregator) : Prop where
  summed : b.sums = a.energies s
  rise : ∀ i < a.bands.length, a.remembered i + a.tuning.thresholdKnee.toNat < a.energyOf s i →
    ∃ level, { band := UInt64.ofNat i, level } ∈ listed
  emitted : a.bands.length ≤ UInt64.size → ∀ i < a.bands.length,
    lastEmitted log i + a.tuning.thresholdKnee.toNat < a.energyOf s i → mentions listed i = true
  level : ∀ event ∈ listed, event.level.toNat ≤ min 255 a.tuning.divisorKnee.toNat

theorem kneeInForce_append (log : List Entry) (entry : Entry) :
    kneeInForce (log ++ [entry]) =
      if entry.resets then 0
      else if entry.sounds then entry.after.tuning.thresholdKnee.toNat
      else kneeInForce log := by
  unfold kneeInForce lastSounding
  rw [List.reverse_append, List.reverse_singleton, List.singleton_append, List.takeWhile_cons]
  cases entry.resets with
  | true => rfl
  | false =>
    cases sounds : entry.sounds with
    | true => simp [sounds]
    | false => simp [sounds]

theorem lastEmitted_append (log : List Entry) (entry : Entry) (i : Nat) :
    lastEmitted (log ++ [entry]) i =
      if entry.emits i then entry.after.sumOf i else lastEmitted log i := by
  unfold lastEmitted
  rw [List.reverse_append, List.reverse_singleton, List.singleton_append, List.find?_cons]
  cases entry.emits i with
  | true => rfl
  | false => rfl

section
variable {a b : Aggregator} {bands : List Band} {length : Nat} {s : Spectrum} {log : List Entry}

theorem mem_onsets (event : LevelEvent) :
    event ∈ a.onsets s ↔ ∃ i < a.bands.length, a.Rises s i ∧
      event = { band := UInt64.ofNat i, level := a.levelOf s i } := by
  unfold onsets
  rw [List.mem_filterMap]
  constructor
  · rintro ⟨i, inside, shown⟩
    split at shown
    · next rises => exact ⟨i, List.mem_range.mp inside, rises, (Option.some.inj shown).symm⟩
    · cases shown
  · rintro ⟨i, inside, rises, rfl⟩
    exact ⟨i, List.mem_range.mpr inside, if_pos rises⟩

theorem energyOf_beyond (i : Nat) (beyond : ¬ i < a.bands.length) : a.energyOf s i = 0 :=
  List.getD_eq_default _ _ (by rw [energies, List.length_map]; omega)

theorem energyOf_le_total (fits : ∀ band ∈ a.bands, band.energy s.bins < UInt32.size) (i : Nat) :
    a.energyOf s i ≤ a.totalEnergy s := by
  have size : UInt32.size = 4294967296 := rfl
  have word := energyOf_lt fits i
  refine Nat.le_min.mpr ⟨?_, by omega⟩
  by_cases inside : i < a.bands.length
  · have there : i < (a.energies s).length := by
      rw [energies, List.length_map]
      exact inside
    rw [energyOf, List.getD_eq_getElem _ _ there]
    exact List.le_sum_of_mem (List.getElem_mem there)
  · rw [energyOf_beyond i inside]
    exact Nat.zero_le _

theorem ticked_total : (a.ticked s).total = a.totalEnergy s :=
  foldl_energies a s

theorem ticked_remembered (i : Nat) (inside : i < a.bands.length) :
    (a.ticked s).remembered i = a.nextRemembered s i := by
  rw [remembered, ticked, List.getD_eq_getElem _ _ (by simpa using inside)]
  simp

theorem ticked_behind (i : Nat) :
    a.energyOf s i ≤ (a.ticked s).remembered i + a.tickThreshold s := by
  by_cases inside : i < a.bands.length
  · rw [ticked_remembered i inside, nextRemembered]
    split
    · omega
    · next sounding =>
      split
      · omega
      · next unheard =>
        unfold Rises at unheard
        omega
  · rw [energyOf_beyond i inside]
    exact Nat.zero_le _

theorem Sound.tickThreshold_le (sound : a.Sound) (energetic : 0 < a.totalEnergy s) :
    a.tickThreshold s ≤ a.tuning.thresholdKnee.toNat := by
  rw [tickThreshold, if_pos energetic]
  exact Tuning.thresholdAt_le_knee sound.tuning (totalEnergy_le a s)

theorem Sound.rises_of_knee (sound : a.Sound)
    (fits : ∀ band ∈ a.bands, band.energy s.bins < UInt32.size) (i : Nat)
    (beyond : a.remembered i + a.tuning.thresholdKnee.toNat < a.energyOf s i) : a.Rises s i := by
  have part := energyOf_le_total fits i
  have least := sound.tickThreshold_le (s := s) (by omega)
  unfold Rises
  omega

theorem Sound.levelOf_le (sound : a.Sound)
    (fits : ∀ band ∈ a.bands, band.energy s.bins < UInt32.size) (i : Nat) (rises : a.Rises s i) :
    (a.levelOf s i).toNat ≤ min 255 a.tuning.divisorKnee.toNat := by
  have part := energyOf_le_total fits i
  have energetic : 0 < a.totalEnergy s := Nat.lt_of_lt_of_le rises.1 part
  have scaled := Tuning.level_le_knee sound.tuning (totalEnergy_le a s) part
  have size : UInt8.size = 256 := rfl
  rw [levelOf, tickDivisor, if_pos energetic, UInt8.toNat_ofNat_of_lt' (by omega)]
  omega

theorem Keeps.changed_sums (keeps : a.Keeps bands) {operation : Operation}
    (changed : a.Changed operation b) (asked : operation.spectrum? = some s) :
    b.sums = bands.map (·.energy s.bins) := by
  cases changed with
  | ticked other fits =>
    cases asked.symm.trans other
    rw [ticked, energies, keeps.table]
  | retuned valid => cases asked
  | refused => cases asked
  | reset => cases asked

theorem Lag.changed (lag : Lag bands log a) (keeps : a.Keeps bands) {operation : Operation}
    (changed : a.Changed operation b) (outcome : Outcome) :
    Lag bands (log ++ [⟨operation, outcome, b⟩]) b := by
  have summed : ∀ entry ∈ log ++ [⟨operation, outcome, b⟩], ∀ s,
      entry.operation.spectrum? = some s → entry.after.sums = bands.map (·.energy s.bins) :=
    List.forall_mem_append.mpr ⟨lag.summed,
      List.forall_mem_singleton.mpr fun s => keeps.changed_sums changed⟩
  cases changed with
  | @ticked operation s asked fits =>
    refine ⟨summed, ticked_behind, ?_⟩
    have ticks : operation.spectrum?.isSome = true := by rw [asked]; rfl
    have other : operation ≠ .reset := by
      rintro rfl
      cases asked
    rw [kneeInForce_append, Entry.resets, beq_eq_false_iff_ne.mpr other, Entry.sounds, Entry.ticks,
      ticks, ticked_total]
    by_cases energetic : 0 < a.totalEnergy s
    · rw [decide_eq_true energetic]
      exact keeps.sound.tickThreshold_le energetic
    · have kept : (a.ticked s).threshold = a.threshold := if_neg energetic
      rw [decide_eq_false energetic, kept]
      exact lag.reach
  | retuned valid =>
    refine ⟨summed, lag.behind, ?_⟩
    rw [kneeInForce_append]
    exact lag.reach
  | refused =>
    refine ⟨summed, lag.behind, ?_⟩
    rw [kneeInForce_append]
    exact lag.reach
  | reset =>
    refine ⟨summed, fun i => ?_, Nat.zero_le _⟩
    rw [sumOf, Aggregator.reset, getD_zeros]
    exact Nat.zero_le _

/-- What a band remembers is never above the sum at its last event. -/
theorem Noted.remembered_le {entry : Entry} {i : Nat} (noted : Noted a entry i)
    (recalled : a.remembered i ≤ lastEmitted log i) :
    entry.after.remembered i ≤ lastEmitted (log ++ [entry]) i := by
  rw [lastEmitted_append]
  cases emits : entry.emits i with
  | true =>
    rw [(noted.emitted emits).2.1]
    exact Nat.le_refl _
  | false =>
    rw [noted.silent emits]
    split
    · exact Nat.zero_le _
    · exact recalled

theorem Placed.heard (placed : a.Placed bands length)
    (recalled : a.bands.length ≤ UInt64.size → ∀ i < a.bands.length,
      a.remembered i ≤ lastEmitted log i)
    (fits : ∀ band ∈ bands, band.energy s.bins < UInt32.size) :
    Heard log a s (a.onsets s) (a.ticked s) := by
  obtain ⟨⟨rfl, whole, sound⟩, -, -⟩ := placed
  have rise (i : Nat) (inside : i < a.bands.length)
      (beyond : a.remembered i + a.tuning.thresholdKnee.toNat < a.energyOf s i) :
      { band := UInt64.ofNat i, level := a.levelOf s i } ∈ a.onsets s :=
    (mem_onsets _).mpr ⟨i, inside, sound.rises_of_knee fits i beyond, rfl⟩
  refine ⟨rfl, fun i inside beyond => ⟨_, rise i inside beyond⟩, ?_, ?_⟩
  · intro few i inside beyond
    have least := recalled few i inside
    exact List.any_eq_true.mpr ⟨_, rise i inside (by omega), beq_self_eq_true _⟩
  · intro event member
    obtain ⟨i, -, rises, rfl⟩ := (mem_onsets event).mp member
    exact sound.levelOf_le fits i rises

theorem history_lag (placed : a.Placed bands length) (lag : Lag bands [] a)
    {operations : List Operation} (ran : a.history operations = .ok (log, b)) :
    b.Placed bands length ∧ Lag bands log b := by
  refine Checked.trace_induction note (fun _ log b => b.Placed bands length ∧ Lag bands log b) a
    ⟨placed, lag⟩ ?_ operations log b ran
  intro _ log before operation entry after _ kept noted
  obtain ⟨rfl, rfl, changed, next⟩ := kept.1.note noted
  exact ⟨next, kept.2.changed kept.1.keeps changed entry.outcome⟩

theorem history_recalled (keeps : a.Keeps bands) (few : bands.length ≤ UInt64.size)
    (forgotten : ∀ i, a.remembered i = 0) {operations : List Operation}
    (ran : a.history operations = .ok (log, b)) :
    ∀ i < bands.length, b.remembered i ≤ lastEmitted log i := by
  refine (Checked.trace_induction note (fun _ log b => b.Keeps bands ∧ ∀ i < bands.length,
    b.remembered i ≤ lastEmitted log i) a ⟨keeps, fun i _ => (forgotten i).le⟩ ?_
    operations log b ran).2
  intro _ log before operation entry after _ kept noted
  obtain ⟨-, rfl, next, each⟩ := note_success kept.1 few operation entry noted
  exact ⟨next, fun i inside => (each i inside).1.remembered_le (kept.2 i inside)⟩

end

/-- No tuning lets the threshold of a total energy beyond its knee. So on every run each band
stays within the knee of what it remembers, and the next tick hears one that is not. -/
theorem retrigger_bounded {bands : List Band} {length : Nat} {tuning : Tuning} {a : Aggregator}
    (configured : configure bands length tuning = .ok a) :
    (∀ t : Tuning, t.Valid → ∀ total ≤ 4294967295, ∃ threshold divisor,
      t.threshold total = .ok threshold ∧ t.divisor total = .ok divisor ∧
        t.Bounded total threshold divisor) ∧
    ∀ operations log b, a.history operations = .ok (log, b) → Lag bands log b ∧
      ∀ s : Spectrum, (∀ band ∈ bands, band.energy s.bins < UInt32.size) →
        ∃ listed next, b.tick s = .ok (listed, next) ∧ Heard log b s listed next := by
  constructor
  · intro t valid total word
    exact ⟨_, _, Tuning.threshold_eq valid total, Tuning.divisor_eq valid total,
      Tuning.bounded valid word⟩
  · intro operations log b ran
    obtain ⟨keeps, forgotten⟩ := configure_keeps configured
    have fresh : Lag bands [] a := by
      obtain ⟨-, -, rfl⟩ := configure_success bands length tuning a configured
      refine ⟨by simp, fun i => ?_, Nat.zero_le _⟩
      rw [sumOf, Aggregator.fresh, getD_zeros]
      exact Nat.zero_le _
    obtain ⟨placed, lag⟩ := history_lag (configure_placed configured) fresh ran
    refine ⟨lag, fun s fits => ⟨_, _, placed.keeps.tick_eq fits, placed.heard ?_ fits⟩⟩
    rw [placed.keeps.table]
    intro few
    exact history_recalled keeps few forgotten ran

theorem retrigger_bounded_beside_loud_band : ∃ a log b listed next,
    configure [⟨0, 0, 0⟩, ⟨1, 1, 0⟩] 2 ⟨1, 2, 1, 3⟩ = .ok a ∧
      a.history [.tick ⟨[10, 60000]⟩, .setTuning ⟨1, 7, 1, 3⟩, .tick ⟨[]⟩] = .ok (log, b) ∧
      kneeInForce log = 2 ∧ b.threshold ≤ 2 ∧
      b.tick ⟨[18, 65535]⟩ = .ok (listed, next) ∧ mentions listed 0 = true := by
  obtain ⟨a, log, b, listed, next, configured, ran, knee, last, few, within, ticked, sum⟩ :
      ∃ a log b listed next,
      configure [⟨0, 0, 0⟩, ⟨1, 1, 0⟩] 2 ⟨1, 2, 1, 3⟩ = .ok a ∧
      a.history [.tick ⟨[10, 60000]⟩, .setTuning ⟨1, 7, 1, 3⟩, .tick ⟨[]⟩] = .ok (log, b) ∧
      kneeInForce log = 2 ∧ lastEmitted log 0 = 10 ∧ b.bands.length = 2 ∧
      b.tuning.thresholdKnee.toNat = 7 ∧ b.tick ⟨[18, 65535]⟩ = .ok (listed, next) ∧
      b.energyOf ⟨[18, 65535]⟩ 0 = 18 := ⟨_, _, _, _, _, rfl, rfl, rfl, rfl, rfl, rfl, rfl, rfl⟩
  obtain ⟨lag, heard⟩ := (retrigger_bounded configured).2 _ log b ran
  obtain ⟨_, _, same, heard⟩ := heard ⟨[18, 65535]⟩ (by decide)
  rw [ticked] at same
  cases same
  refine ⟨a, log, b, listed, next, configured, ran, knee, knee ▸ lag.reach, ticked, ?_⟩
  exact heard.emitted (few ▸ by decide) 0 (by omega) (by omega)

end BandLight.Aggregator
