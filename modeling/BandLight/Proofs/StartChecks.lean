import BandLight.Proofs.PipelineHistory
import BandLight.Proofs.SlidingWindow
import Mathlib.Data.List.Basic

/-! What is checked before a pipeline starts. The checks are spread over the
configuration, the transform, the ring and the aggregator; taken together they go
through one list of rules in order and report the first one that is broken. A
configuration that breaks none is usable, and only the memory for waiting events
can then be missing. -/
namespace BandLight

/-- A condition on a configuration and what is reported when it does not hold. -/
structure Rule where
  holds : Bool
  error : PipelineError
  deriving DecidableEq, Repr

namespace Rule

def check : List Rule → Except PipelineError Unit
  | [] => .ok ()
  | rule :: rules => if rule.holds then check rules else .error rule.error

/-- The first rule that does not hold reports this error. -/
def Reports (rules : List Rule) (error : PipelineError) : Prop :=
  ∃ earlier rule later, rules = earlier ++ rule :: later ∧
    (∀ other ∈ earlier, other.holds = true) ∧ rule.holds = false ∧ rule.error = error

end Rule

def Tuning.NonZero (t : Tuning) : Prop :=
  t.thresholdBase ≠ 0 ∧ t.thresholdKnee ≠ 0 ∧ t.divisorBase ≠ 0 ∧ t.divisorKnee ≠ 0

theorem Tuning.validate_zero (t : Tuning) (zero : ¬ t.NonZero) :
    ∃ field, t.validate = .error (.invalidTuning field) := by
  unfold validate
  split
  · exact ⟨_, rfl⟩
  · next base =>
    split
    · exact ⟨_, rfl⟩
    · next knee =>
      split
      · exact ⟨_, rfl⟩
      · next divisorBase =>
        split
        · exact ⟨_, rfl⟩
        · next divisorKnee => exact absurd ⟨base, knee, divisorBase, divisorKnee⟩ zero

namespace Config

structure Usable (c : Config) : Prop where
  sampleRate : 1000 ≤ c.sampleRate.toNat ∧ c.sampleRate.toNat ≤ 192000
  tickInterval : 1 ≤ c.tickIntervalMs.toNat ∧ c.tickIntervalMs.toNat ≤ 10000
  eventQueueCapacity : 1 ≤ c.eventQueueCapacity.toNat
  frequencyFloor : ∀ bin, c.frequencyFloorBin = some bin → bin.toNat < c.blockSize.toNat / 2
  blockSize : c.blockSize.toNat.isPowerOfTwo ∧ 32 ≤ c.blockSize.toNat ∧ c.blockSize.toNat ≤ 8192
  someBand : c.bands ≠ []
  bands : ∀ band ∈ c.bands,
    band.startBin.toNat ≤ band.endBin.toNat ∧ band.endBin.toNat < c.blockSize.toNat / 2
  tuning : c.tuning.NonZero

def ownRules (c : Config) : List Rule :=
  [⟨1000 ≤ c.sampleRate.toNat ∧ c.sampleRate.toNat ≤ 192000,
      .invalidSampleRate c.sampleRate.toNat⟩,
    ⟨1 ≤ c.tickIntervalMs.toNat ∧ c.tickIntervalMs.toNat ≤ 10000,
      .invalidTickInterval c.tickIntervalMs.toNat⟩,
    ⟨1 ≤ c.eventQueueCapacity.toNat, .invalidEventQueueCapacity⟩] ++
  c.frequencyFloorBin.toList.map fun bin =>
    ⟨bin.toNat < c.blockSize.toNat / 2, .invalidFrequencyFloor bin.toNat (c.blockSize.toNat / 2)⟩

end Config

def blockSizeRule (size : Nat) : Rule :=
  ⟨size.isPowerOfTwo ∧ 32 ≤ size ∧ size ≤ 8192, .setup (.invalidBlockSize size)⟩

def bandRules (spectrumLength start : Nat) (bands : List Band) : List Rule :=
  (bands.zipIdx start).flatMap fun entry =>
    [⟨entry.1.startBin.toNat ≤ entry.1.endBin.toNat,
        .setup (.invertedBand entry.2 entry.1.startBin.toNat entry.1.endBin.toNat)⟩,
      ⟨entry.1.endBin.toNat < spectrumLength,
        .setup (.bandOutOfRange entry.2 entry.1.endBin.toNat spectrumLength)⟩]

def tuningRules (t : Tuning) : List Rule :=
  [(t.thresholdBase, "threshold_base"), (t.thresholdKnee, "threshold_knee"),
    (t.divisorBase, "divisor_base"), (t.divisorKnee, "divisor_knee")].map fun field =>
      ⟨field.1 ≠ 0, .setup (.invalidTuning field.2)⟩

/-- Everything that is asked of a configuration, in the order in which it is asked. -/
def Config.rules (c : Config) : List Rule :=
  [c.ownRules, [blockSizeRule c.blockSize.toNat], [⟨c.bands ≠ [], .setup .noBands⟩],
    bandRules (c.blockSize.toNat / 2) 0 c.bands, tuningRules c.tuning].flatten

namespace Rule

theorem check_append (first second : List Rule) :
    check (first ++ second) = check first >>= fun _ => check second := by
  induction first with
  | nil => rfl
  | cons rule rules ih =>
    simp only [List.cons_append, check, ih]
    split <;> rfl

theorem check_ok (rules : List Rule) :
    check rules = .ok () ↔ ∀ rule ∈ rules, rule.holds = true := by
  induction rules with
  | nil => simp [check]
  | cons rule rules ih =>
    cases holds : rule.holds <;> simp [check, holds, ih]

theorem check_error (rules : List Rule) (error : PipelineError) :
    check rules = .error error ↔ Reports rules error := by
  constructor
  · intro failed
    induction rules with
    | nil => cases failed
    | cons rule rules ih =>
      cases holds : rule.holds with
      | false =>
        simp only [check, holds, Bool.false_eq_true, if_false, Except.error.injEq] at failed
        exact ⟨[], rule, rules, rfl, by simp, holds, failed⟩
      | true =>
        simp only [check, holds, if_true] at failed
        obtain ⟨earlier, broken, later, rfl, kept, breaks, same⟩ := ih failed
        exact ⟨rule :: earlier, broken, later, rfl, by simpa [holds] using kept, breaks, same⟩
  · rintro ⟨earlier, rule, later, rfl, kept, breaks, rfl⟩
    rw [check_append, (check_ok earlier).mpr kept]
    exact if_neg (by simp [breaks])

end Rule

theorem isPowerOfTwo_iff (size : Nat) : Nat.pow 2 size.log2 = size ↔ size.isPowerOfTwo := by
  constructor
  · intro power
    exact ⟨size.log2, power.symm⟩
  · rintro ⟨exponent, rfl⟩
    rw [Nat.log2_two_pow]
    rfl

theorem check_blockSize (size : Nat) :
    Rule.check [blockSizeRule size] = (validateBlockSize size).mapError .setup := by
  have same : (size.isPowerOfTwo ∧ 32 ≤ size ∧ size ≤ 8192) ↔
      minBlockSize ≤ size ∧ size ≤ maxBlockSize ∧ Nat.pow 2 size.log2 = size := by
    rw [isPowerOfTwo_iff]
    exact ⟨fun h => ⟨h.2.1, h.2.2, h.1⟩, fun h => ⟨h.2.2, h.1, h.2.1⟩⟩
  simp only [Rule.check, blockSizeRule, same, validateBlockSize, decide_eq_true_eq]
  split <;> rfl

theorem check_bands (spectrumLength index : Nat) (bands : List Band) :
    Rule.check (bandRules spectrumLength index bands) =
      (Aggregator.validateBands spectrumLength index bands).mapError .setup := by
  induction bands generalizing index with
  | nil => rfl
  | cons band bands ih =>
    have rest := ih (index + 1)
    rw [bandRules] at rest ⊢
    rw [List.zipIdx_cons, List.flatMap_cons, Rule.check_append, rest]
    simp only [Rule.check, decide_eq_true_eq, Aggregator.validateBands, UInt64.lt_iff_toNat_lt]
    by_cases inverted : band.endBin.toNat < band.startBin.toNat
    · rw [if_neg (by omega), if_pos inverted]
      rfl
    · by_cases outside : spectrumLength ≤ band.endBin.toNat
      · rw [if_pos (by omega), if_neg (by omega), if_neg inverted, if_pos outside]
        rfl
      · rw [if_pos (by omega), if_pos (by omega), if_neg inverted, if_neg outside]
        rfl

theorem check_tuning (t : Tuning) :
    Rule.check (tuningRules t) = t.validate.mapError .setup := by
  simp only [Rule.check, tuningRules, List.map_cons, List.map_nil, decide_eq_true_eq,
    Tuning.validate, ne_eq, ite_not]
  repeat' split
  all_goals rfl

theorem check_own (c : Config) : Rule.check c.ownRules = c.validate := by
  have rate : (1000 ≤ c.sampleRate ∧ c.sampleRate ≤ 192000) ↔
      1000 ≤ c.sampleRate.toNat ∧ c.sampleRate.toNat ≤ 192000 := by
    simp [UInt32.le_iff_toNat_le]
  have interval : (1 ≤ c.tickIntervalMs ∧ c.tickIntervalMs ≤ 10000) ↔
      1 ≤ c.tickIntervalMs.toNat ∧ c.tickIntervalMs.toNat ≤ 10000 := by
    simp [UInt64.le_iff_toNat_le]
  have capacity : 1 ≤ c.eventQueueCapacity ↔ 1 ≤ c.eventQueueCapacity.toNat := by
    simp [UInt64.le_iff_toNat_le]
  simp only [Config.validate, rate, interval, capacity, Config.ownRules, List.cons_append,
    List.nil_append, Rule.check, decide_eq_true_eq, Config.spectrumLength]
  split
  · split
    · split
      · cases c.frequencyFloorBin with
        | none => rfl
        | some bin =>
          by_cases inside : bin.toNat < c.blockSize.toNat / 2
          · simp only [Option.toList_some, List.map_cons, List.map_nil, Rule.check, inside,
              decide_true, if_true]
            rfl
          · simp only [Option.toList_some, List.map_cons, List.map_nil, Rule.check, inside,
              decide_false, Bool.false_eq_true, if_false]
            rfl
      · rfl
    · rfl
  · rfl

theorem Analyzer.configure_checked (size : Nat) :
    (validateBlockSize size = .ok () ∧ ∃ a, configure size = .ok a) ∨
      ∃ error, validateBlockSize size = .error error ∧ configure size = .error error := by
  unfold configure Transform.configure
  cases checked : validateBlockSize size with
  | error error => exact .inr ⟨error, rfl, rfl⟩
  | ok supported =>
    have least := validateBlockSize_pos size checked
    have most := validateBlockSize_le size checked
    have ring : ∃ ring, Ring.configure (2 * size) size = .ok ring := by
      rw [Ring.configure, if_neg (by omega), if_neg (Nat.lt_irrefl _)]
      exact ⟨_, rfl⟩
    obtain ⟨ring, allocated⟩ := ring
    exact .inl ⟨rfl, _, by rw [allocated]; rfl⟩

theorem Aggregator.configure_checked (bands : List Band) (spectrumLength : Nat) (t : Tuning) :
    ((configure bands spectrumLength t).mapError PipelineError.setup).map (fun _ => ()) =
      Rule.check ([⟨bands ≠ [], .setup .noBands⟩] ++ (bandRules spectrumLength 0 bands ++
        tuningRules t)) := by
  rw [Rule.check_append, Rule.check_append, check_bands, check_tuning]
  unfold configure
  cases bands with
  | nil => rfl
  | cons band bands =>
    cases validateBands spectrumLength 0 (band :: bands) with
    | error error => rfl
    | ok ordered => cases t.validate <;> rfl

theorem Pipeline.configure_checked (c : Config) :
    (configure c).map (fun _ => ()) = Rule.check c.rules := by
  simp only [Config.rules, List.flatten_cons, List.flatten_nil, List.append_nil]
  rw [Rule.check_append, check_own, Rule.check_append, check_blockSize]
  unfold configure
  cases c.validate with
  | error error => rfl
  | ok valid =>
    rcases Analyzer.configure_checked c.blockSize.toNat with
      ⟨supported, analyzer, built⟩ | ⟨error, refused, failed⟩
    · obtain ⟨-, rfl⟩ := Analyzer.configure_success _ analyzer built
      have aggregator := Aggregator.configure_checked c.bands (c.blockSize.toNat / 2) c.tuning
      rw [supported, built]
      refine Eq.trans ?_ aggregator
      change (((Aggregator.configure c.bands (c.blockSize.toNat / 2) c.tuning).mapError
        PipelineError.setup) >>= fun g => pure (_, g)).map (fun _ => ()) = _
      cases Aggregator.configure c.bands (c.blockSize.toNat / 2) c.tuning <;> rfl
    · rw [refused, failed]
      rfl

theorem bandRules_hold (spectrumLength : Nat) (bands : List Band) :
    (∀ rule ∈ bandRules spectrumLength 0 bands, rule.holds = true) ↔ ∀ band ∈ bands,
      band.startBin.toNat ≤ band.endBin.toNat ∧ band.endBin.toNat < spectrumLength := by
  nth_rewrite 2 [← List.zipIdx_map_fst 0 bands]
  rw [List.forall_mem_map, bandRules, List.forall_mem_flatMap]
  simp

theorem tuningRules_hold (t : Tuning) :
    (∀ rule ∈ tuningRules t, rule.holds = true) ↔ t.NonZero := by
  simp [tuningRules, Tuning.NonZero]

namespace Config

theorem ownRules_hold (c : Config) : (∀ rule ∈ c.ownRules, rule.holds = true) ↔
    (1000 ≤ c.sampleRate.toNat ∧ c.sampleRate.toNat ≤ 192000) ∧
    (1 ≤ c.tickIntervalMs.toNat ∧ c.tickIntervalMs.toNat ≤ 10000) ∧
    1 ≤ c.eventQueueCapacity.toNat ∧
    ∀ bin, c.frequencyFloorBin = some bin → bin.toNat < c.blockSize.toNat / 2 := by
  simp only [ownRules, List.cons_append, List.nil_append, List.forall_mem_cons,
    List.forall_mem_map, Option.mem_toList, decide_eq_true_eq]

theorem rules_hold (c : Config) : (∀ rule ∈ c.rules, rule.holds = true) ↔ c.Usable := by
  simp only [rules, List.forall_mem_flatten, List.forall_mem_cons, bandRules_hold,
    tuningRules_hold, ownRules_hold, blockSizeRule, decide_eq_true_eq]
  constructor
  · rintro ⟨⟨rate, interval, capacity, floor⟩, ⟨size, -⟩, ⟨some, -⟩, bands, tuning, -⟩
    exact ⟨rate, interval, capacity, floor, size, some, bands, tuning⟩
  · rintro ⟨rate, interval, capacity, floor, size, some, bands, tuning⟩
    exact ⟨⟨rate, interval, capacity, floor⟩, ⟨size, by simp⟩, ⟨some, by simp⟩, bands, tuning,
      by simp⟩

/-- Every rule puts the blame on the configuration. -/
theorem rules_config (c : Config) : ∀ rule ∈ c.rules, rule.error.isConfigError = true := by
  simp only [rules, List.forall_mem_flatten, List.forall_mem_cons, ownRules, blockSizeRule,
    bandRules, tuningRules, List.forall_mem_append, List.forall_mem_map, List.forall_mem_flatMap]
  simp [PipelineError.isConfigError]

end Config

namespace Pipeline

section
variable (config : Config) (sink : Sink) (latency : Nat → Nat) (held : Bool)

theorem start_checked :
    (start config sink latency held).map (fun _ => ()) = Rule.check config.rules := by
  rw [← configure_checked, start]
  cases configure config <;> rfl

theorem start_iff_usable : (∃ p, start config sink latency held = .ok p) ↔ config.Usable := by
  rw [← Config.rules_hold, ← Rule.check_ok, ← start_checked config sink latency held]
  cases start config sink latency held with
  | error error => simp [Except.map]
  | ok p => simp [Except.map]

theorem start_error (error : PipelineError) :
    start config sink latency held = .error error ↔ Rule.Reports config.rules error := by
  rw [← Rule.check_error, ← start_checked config sink latency held]
  cases start config sink latency held with
  | error error => simp [Except.map]
  | ok p => simp [Except.map]

/-- Once a configuration has passed, only the memory for waiting events can be missing. -/
theorem launch_eq (slotBytes : Nat) : launch slotBytes config sink latency held =
    (start config sink latency held).map fun p =>
      if slotBytes * config.eventQueueCapacity.toNat < 9223372036854775808 then .ok p
      else .error .outOfMemory := by
  unfold launch
  cases started : start config sink latency held with
  | error error => rfl
  | ok p =>
    obtain ⟨analyzer, aggregator, -, rfl⟩ := start_success started
    by_cases fits : slotBytes * config.eventQueueCapacity.toNat < 9223372036854775808
    · simp [EventQueue.allocate, Checked.buffer, fits, Except.map]
    · simp [EventQueue.allocate, Checked.buffer, fits, Except.map]

theorem blockPeriod_success (usable : config.Usable) :
    ∃ period, config.blockPeriod = .ok period := by
  have small := usable.blockSize.2.2
  have product : config.blockSize.toNat * 1000000000 < UInt64.size := by
    change _ < 18446744073709551616
    omega
  unfold Config.blockPeriod
  split
  · exact ⟨0, rfl⟩
  · rw [Checked.word64, Checked.below_ok product]
    exact ⟨_, rfl⟩

end

/-- A pipeline starts with the usable configurations and no others. What is wrong with any
other one is reported by the first rule that it breaks, as an error of the configuration. No
check fails in any other way: only the memory for waiting events can still be missing when
all of them have passed. -/
theorem start_accepts_usable (config : Config) (sink : Sink) (latency : Nat → Nat) (held : Bool) :
    ((∃ p, start config sink latency held = .ok p) ↔ config.Usable) ∧
    (∀ error, start config sink latency held = .error error ↔
      Rule.Reports config.rules error) ∧
    (∀ error, Rule.Reports config.rules error → error.isConfigError = true) ∧
    (∀ slotBytes error, launch slotBytes config sink latency held = .error error ↔
      Rule.Reports config.rules error) ∧
    ∀ p, start config sink latency held = .ok p →
      (∃ period, p.config.blockPeriod = .ok period) ∧
      ∀ slotBytes, launch slotBytes config sink latency held = .ok (
        if slotBytes * config.eventQueueCapacity.toNat < 9223372036854775808 then .ok p
        else .error .outOfMemory) := by
  refine ⟨start_iff_usable config sink latency held, start_error config sink latency held,
    ?_, ?_, ?_⟩
  · rintro error ⟨earlier, rule, later, rules, -, -, rfl⟩
    exact config.rules_config rule (by simp [rules])
  · intro slotBytes error
    rw [← start_error config sink latency held, launch_eq]
    cases start config sink latency held <;> simp [Except.map]
  · intro p started
    have usable := (start_iff_usable config sink latency held).mp ⟨p, started⟩
    refine ⟨?_, fun slotBytes => by rw [launch_eq, started]; rfl⟩
    obtain ⟨analyzer, aggregator, -, rfl⟩ := start_success started
    exact blockPeriod_success config usable

/-- The second band is inverted and the third one out of range. -/
theorem start_reports_inverted_band : ∃ config : Config,
    config.bands = [⟨0, 80, 100⟩, ⟨81, 7, 0⟩, ⟨0, 300, 0⟩] ∧
    start config .null (fun _ => 0) false = .error (.setup (.invertedBand 1 81 7)) ∧
    Rule.Reports config.rules (.setup (.invertedBand 1 81 7)) ∧
    PipelineError.isConfigError (.setup (.invertedBand 1 81 7)) = true := by
  have refused : start { Config.standard with bands := [⟨0, 80, 100⟩, ⟨81, 7, 0⟩, ⟨0, 300, 0⟩] }
      .null (fun _ => 0) false = .error (.setup (.invertedBand 1 81 7)) := rfl
  obtain ⟨-, reported, blamed, -⟩ := start_accepts_usable _ .null (fun _ => 0) false
  exact ⟨_, rfl, refused, (reported _).mp refused, blamed _ ((reported _).mp refused)⟩

end Pipeline

end BandLight
