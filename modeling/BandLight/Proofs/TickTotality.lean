import BandLight.Aggregator
import BandLight.Proofs.SpectrumBounds
import Mathlib.Algebra.Order.BigOperators.Group.List
import Mathlib.Algebra.Order.Ring.Nat

/-! A tick cannot fault. Bands in order, a valid tuning, a divisor that is not
zero and earlier sums of one word each make every checked operation of a tick
succeed on a spectrum within the full scale, and the tick keeps all of them. -/
namespace BandLight

namespace Band

theorem total_word (magnitudes : List UInt16) (start : Nat) (word : start < UInt32.size) :
    magnitudes.foldlM (fun sum magnitude => Checked.word32 (sum + magnitude.toNat)) start =
      Checked.word32 (start + (magnitudes.map UInt16.toNat).sum) := by
  induction magnitudes generalizing start with
  | nil => exact (Checked.below_ok word).symm
  | cons magnitude magnitudes ih =>
    rw [List.foldlM_cons, List.map_cons, List.sum_cons, ← Nat.add_assoc]
    by_cases fits : start + magnitude.toNat < UInt32.size
    · rw [Checked.word32, Checked.below_ok fits, Checked.ok_bind, ih _ fits, Checked.word32]
    · have beyond : ¬ start + magnitude.toNat + (magnitudes.map UInt16.toNat).sum < UInt32.size := by
        omega
      simp [Checked.word32, Checked.below, fits, beyond]

theorem total_eq (magnitudes : List UInt16) :
    total magnitudes = Checked.word32 (magnitudes.map UInt16.toNat).sum := by
  rw [total, total_word _ 0 (by decide), Nat.zero_add]

theorem range_success (band : Band) (bins : List UInt16) (ordered : band.startBin ≤ band.endBin) :
    ∃ range, band.range bins = .ok range ∧ range.Sublist bins := by
  have start := UInt64.le_iff_toNat_le.mp ordered
  unfold range
  split
  · exact ⟨[], rfl, List.nil_sublist bins⟩
  · next within =>
    rw [Checked.slice_ok (by omega) (by omega)]
    exact ⟨_, rfl, (List.drop_sublist _ _).trans (List.take_sublist _ _)⟩

theorem sum_lt (band : Band) (bins : List UInt16) (result : Nat)
    (computed : band.sum bins = .ok result) : result < UInt32.size := by
  obtain ⟨range, _, added⟩ := Checked.bind_success _ _ _ computed
  rw [total_eq] at added
  obtain ⟨rfl, fits⟩ := Checked.below_success _ _ _ added
  exact fits

/-- At the full scale, 4096 bins still add up within a word. -/
theorem sum_success (band : Band) (s : Spectrum) (length : Nat)
    (ordered : band.startBin ≤ band.endBin) (sound : s.Sound length) (short : length ≤ 4096) :
    ∃ sum, band.sum s.bins = .ok sum ∧ sum < UInt32.size := by
  obtain ⟨range, computed, inside⟩ := range_success band s.bins ordered
  have counted : (range.filter (band.noiseFloor < ·)).Sublist s.bins :=
    List.filter_sublist.trans inside
  have few : (range.filter (band.noiseFloor < ·)).length ≤ 4096 := by
    have bound := counted.length_le
    rw [sound.length_eq] at bound
    omega
  have scaled : ∀ value ∈ (range.filter (band.noiseFloor < ·)).map UInt16.toNat, value ≤ 32767 := by
    intro value member
    obtain ⟨bin, present, rfl⟩ := List.mem_map.mp member
    exact sound.scaled bin (counted.subset present)
  have bound := List.sum_le_card_nsmul _ _ scaled
  rw [List.length_map, Nat.nsmul_eq_mul] at bound
  have fits : ((range.filter (band.noiseFloor < ·)).map UInt16.toNat).sum < UInt32.size := by
    have product := Nat.mul_le_mul_right 32767 few
    exact Nat.lt_of_le_of_lt (bound.trans product) (by decide)
  refine ⟨_, ?_, fits⟩
  rw [sum, computed, Checked.ok_bind, total_eq]
  exact Checked.below_ok fits

end Band

theorem le_saturatingAdd32 (base extra : Nat) (word : base ≤ 4294967295) :
    base ≤ saturatingAdd32 base extra := by
  unfold saturatingAdd32
  omega

namespace Tuning

def Valid (t : Tuning) : Prop := t.validate = .ok ()

theorem Valid.nonzero (t : Tuning) (valid : t.Valid) :
    t.thresholdBase.toNat ≠ 0 ∧ t.thresholdKnee.toNat ≠ 0 ∧ t.divisorBase.toNat ≠ 0 ∧
      t.divisorKnee.toNat ≠ 0 := by
  have word (value : UInt32) (different : value ≠ 0) : value.toNat ≠ 0 := by
    intro zero
    exact different (UInt32.toNat_inj.mp zero)
  unfold Valid validate at valid
  split at valid
  · cases valid
  · next base =>
    split at valid
    · cases valid
    · next knee =>
      split at valid
      · cases valid
      · next divisorBase =>
        split at valid
        · cases valid
        · next divisorKnee =>
          exact ⟨word _ base, word _ knee, word _ divisorBase, word _ divisorKnee⟩

/-- The threshold at a total energy, where there is one. -/
def thresholdAt (t : Tuning) (total : Nat) : Nat :=
  total / saturatingAdd32 t.thresholdBase.toNat (total / t.thresholdKnee.toNat)

def divisorAt (t : Tuning) (total : Nat) : Nat :=
  saturatingAdd32 t.divisorBase.toNat (total / t.divisorKnee.toNat)

theorem thresholdBase_le (t : Tuning) (extra : Nat) :
    t.thresholdBase.toNat ≤ saturatingAdd32 t.thresholdBase.toNat extra :=
  le_saturatingAdd32 _ _ (Nat.le_of_lt_succ t.thresholdBase.toNat_lt)

theorem divisorBase_le (t : Tuning) (total : Nat) : t.divisorBase.toNat ≤ t.divisorAt total :=
  le_saturatingAdd32 _ _ (Nat.le_of_lt_succ t.divisorBase.toNat_lt)

section
variable {t : Tuning} (valid : t.Valid)
include valid

theorem threshold_eq (total : Nat) : t.threshold total = .ok (t.thresholdAt total) := by
  obtain ⟨base, knee, -, -⟩ := valid.nonzero
  have least := t.thresholdBase_le (total / t.thresholdKnee.toNat)
  rw [Tuning.threshold, Checked.div_ok _ knee, Checked.ok_bind, Checked.div_ok _ (by omega)]
  rfl

theorem divisor_eq (total : Nat) : t.divisor total = .ok (t.divisorAt total) := by
  obtain ⟨-, -, -, knee⟩ := valid.nonzero
  rw [Tuning.divisor, Checked.div_ok _ knee, Checked.ok_bind]
  rfl

theorem divisorAt_ne_zero (total : Nat) : t.divisorAt total ≠ 0 := by
  have base := valid.nonzero.2.2.1
  have least := t.divisorBase_le total
  omega

end

end Tuning

namespace Aggregator

/-- What a tick relies on and keeps. -/
structure Sound (a : Aggregator) : Prop where
  ordered : ∀ band ∈ a.bands, band.startBin ≤ band.endBin
  tuning : a.tuning.Valid
  previous : ∀ sum ∈ a.previous, sum < UInt32.size
  divisor : a.divisor ≠ 0

theorem validateBands_ordered (length index : Nat) (bands : List Band)
    (ok : validateBands length index bands = .ok ()) :
    ∀ band ∈ bands, band.startBin ≤ band.endBin := by
  induction bands generalizing index with
  | nil => simp
  | cons first bands ih =>
    unfold validateBands at ok
    split at ok
    · cases ok
    · next upright =>
      split at ok
      · cases ok
      · intro band member
        rcases List.mem_cons.mp member with rfl | inside
        · exact UInt64.not_lt.mp upright
        · exact ih (index + 1) ok band inside

theorem reset_sound (a : Aggregator) (sound : a.Sound) : a.reset.Sound := by
  refine ⟨sound.ordered, sound.tuning, ?_, sound.tuning.nonzero.2.2.1⟩
  intro sum member
  obtain ⟨old, _, rfl⟩ := List.mem_map.mp member
  decide

theorem configure_success (bands : List Band) (length : Nat) (tuning : Tuning) (a : Aggregator)
    (ok : configure bands length tuning = .ok a) :
    validateBands length 0 bands = .ok () ∧ tuning.Valid ∧ a = fresh bands length tuning := by
  unfold configure at ok
  cases some : bands.isEmpty with
  | true => rw [some] at ok; cases ok
  | false =>
    rw [some] at ok
    cases ordered : validateBands length 0 bands with
    | error e => rw [ordered] at ok; cases ok
    | ok valid =>
      rw [ordered] at ok
      cases tuned : tuning.validate with
      | error e => rw [tuned] at ok; cases ok
      | ok valid =>
        rw [tuned] at ok
        cases ok
        exact ⟨rfl, tuned, rfl⟩

theorem configure_sound (bands : List Band) (length : Nat) (tuning : Tuning) (a : Aggregator)
    (ok : configure bands length tuning = .ok a) : a.Sound := by
  obtain ⟨ordered, tuned, rfl⟩ := configure_success bands length tuning a ok
  refine ⟨validateBands_ordered length 0 bands ordered, tuned, ?_, tuned.nonzero.2.2.1⟩
  intro sum member
  obtain ⟨band, _, rfl⟩ := List.mem_map.mp member
  decide

theorem setTuning_eq (a : Aggregator) (tuning : Tuning) (valid : tuning.Valid) :
    a.setTuning tuning = .ok { a with tuning } := by
  rw [setTuning, valid]
  rfl

theorem setTuning_error (a : Aggregator) (tuning : Tuning) (e : SetupError)
    (invalid : tuning.validate = .error e) : a.setTuning tuning = .error e := by
  rw [setTuning, invalid]
  rfl

theorem judge_eq (threshold divisor sum previous : Nat) (nonzero : divisor ≠ 0)
    (word : sum < UInt32.size) (earlier : previous < UInt32.size) :
    judge threshold divisor sum previous = .ok
      (if 0 < sum ∧ (threshold : Int) < (sum : Int) - previous then
          some (UInt8.ofNat (min (sum / divisor) 255)) else none,
        if sum = 0 then 0
        else if 0 < sum ∧ (threshold : Int) < (sum : Int) - previous then sum else previous) := by
  have size : UInt32.size = 4294967296 := rfl
  have rise : Checked.signed64 ((sum : Int) - previous) = .ok ((sum : Int) - previous) :=
    if_pos (by omega)
  by_cases silent : sum = 0
  · simp [judge, silent]
  · have positive : 0 < sum := Nat.pos_of_ne_zero silent
    by_cases higher : (threshold : Int) < (sum : Int) - previous
    · simp [judge, silent, positive, rise, higher, Checked.div_ok _ nonzero]
    · simp [judge, silent, rise, higher]

theorem judge_success (threshold divisor sum previous : Nat) (nonzero : divisor ≠ 0)
    (word : sum < UInt32.size) (earlier : previous < UInt32.size) :
    ∃ verdict, judge threshold divisor sum previous = .ok verdict ∧ verdict.2 < UInt32.size := by
  refine ⟨_, judge_eq threshold divisor sum previous nonzero word earlier, ?_⟩
  dsimp only
  split
  · decide
  · split
    · exact word
    · exact earlier

theorem scaling_success (a : Aggregator) (sound : a.Sound) (total : Nat) :
    ∃ threshold divisor, a.scaling total = .ok (threshold, divisor) ∧ divisor ≠ 0 := by
  unfold scaling
  split
  · rw [Tuning.threshold_eq sound.tuning, Checked.ok_bind, Tuning.divisor_eq sound.tuning]
    exact ⟨_, _, rfl, Tuning.divisorAt_ne_zero sound.tuning total⟩
  · exact ⟨a.threshold, a.divisor, rfl, sound.divisor⟩

theorem tick_fits (a : Aggregator) (sound : a.Sound) (s : Spectrum)
    (fits : ∀ band ∈ a.bands, ∃ sum, band.sum s.bins = .ok sum) :
    ∃ events next, a.tick s = .ok (events, next) ∧ next.Sound := by
  obtain ⟨sums, summed, words⟩ := Checked.mapM_success (fun band : Band => band.sum s.bins)
    (· < UInt32.size) a.bands (fun band member => by
      obtain ⟨sum, computed⟩ := fits band member
      exact ⟨sum, computed, band.sum_lt s.bins sum computed⟩)
  obtain ⟨threshold, divisor, scaling, nonzero⟩ :=
    a.scaling_success sound (sums.foldl saturatingAdd32 0)
  obtain ⟨verdicts, judged, kept⟩ := Checked.mapM_success
    (fun band : Nat × Nat => judge threshold divisor band.1 band.2) (·.2 < UInt32.size)
    (sums.zip a.previous) (fun band member => by
      have parts := List.of_mem_zip member
      exact judge_success _ _ _ _ nonzero (words _ parts.1) (sound.previous _ parts.2))
  simp only [tick, tickInto, summed, Checked.ok_bind, scaling, judged]
  refine ⟨_, _, rfl, sound.ordered, sound.tuning, ?_, nonzero⟩
  intro sum member
  obtain ⟨verdict, present, rfl⟩ := List.mem_map.mp member
  exact kept verdict present

theorem tick_success (a : Aggregator) (sound : a.Sound) (s : Spectrum) (length : Nat)
    (scaled : s.Sound length) (short : length ≤ 4096) :
    ∃ events next, a.tick s = .ok (events, next) ∧ next.Sound := by
  apply a.tick_fits sound s
  intro band member
  obtain ⟨sum, computed, _⟩ := band.sum_success s length (sound.ordered band member) scaled short
  exact ⟨sum, computed⟩

end Aggregator

end BandLight
