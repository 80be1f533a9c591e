import BandLight.Proofs.TickTotality
import Mathlib.Data.List.GetD

/-! What one tick does to one band. Its sum is compared with the sum that the
band remembers: a silent band forgets, a band that has risen by more than the
threshold emits one event and remembers its new sum, and any other band keeps
what it has. -/
namespace BandLight.Aggregator

def mentions (events : List LevelEvent) (i : Nat) : Bool :=
  events.any fun event => event.band == UInt64.ofNat i

def total (a : Aggregator) : Nat := a.sums.foldl saturatingAdd32 0

def sumOf (a : Aggregator) (i : Nat) : Nat := a.sums.getD i 0

/-- The sum that a band will be compared with. -/
def remembered (a : Aggregator) (i : Nat) : Nat := a.previous.getD i 0

/-- The outcome of a tick for a band that remembers a sum. -/
inductive Judged (a b : Aggregator) (i : Nat) : Bool → Prop
  | silent (sum : b.sumOf i = 0) (forgotten : b.remembered i = 0) : Judged a b i false
  | emitted (rise : a.remembered i + b.threshold < b.sumOf i)
      (kept : b.remembered i = b.sumOf i) : Judged a b i true
  | quiet (sum : b.sumOf i ≠ 0) (low : b.sumOf i ≤ a.remembered i + b.threshold)
      (kept : b.remembered i = a.remembered i) : Judged a b i false

structure Ticked (a : Aggregator) (s : Spectrum) (listed : List LevelEvent) (b : Aggregator)
    (verdicts : List (Option UInt8 × Nat)) : Prop where
  bands : b.bands = a.bands
  tuning : b.tuning = a.tuning
  sums : List.Forall₂ (fun (band : Band) sum => band.sum s.bins = .ok sum) a.bands b.sums
  scaling : a.scaling b.total = .ok (b.threshold, b.divisor)
  judged : List.Forall₂ (fun (sums : Nat × Nat) verdict =>
    judge b.threshold b.divisor sums.1 sums.2 = .ok verdict) (b.sums.zip a.previous) verdicts
  previous : b.previous = verdicts.map (·.2)
  events : listed = events (verdicts.map (·.1))

theorem judge_cases (threshold divisor sum previous : Nat) (verdict : Option UInt8 × Nat)
    (ok : judge threshold divisor sum previous = .ok verdict) :
    (sum = 0 ∧ verdict.1 = none ∧ verdict.2 = 0) ∨
      (previous + threshold < sum ∧ verdict.1.isSome ∧ verdict.2 = sum) ∨
      (sum ≠ 0 ∧ sum ≤ previous + threshold ∧ verdict.1 = none ∧ verdict.2 = previous) := by
  unfold judge at ok
  split at ok
  · next silent =>
    cases ok
    exact .inl ⟨silent, rfl, rfl⟩
  · next sounding =>
    obtain ⟨rise, difference, ok⟩ := Checked.bind_success _ _ _ ok
    have same : rise = (sum : Int) - previous := by
      unfold Checked.signed64 at difference
      split at difference
      · exact (Except.ok.inj difference).symm
      · cases difference
    split at ok
    · obtain ⟨scaled, _, ok⟩ := Checked.bind_success _ _ _ ok
      cases ok
      exact .inr (.inl ⟨by omega, rfl, rfl⟩)
    · cases ok
      exact .inr (.inr ⟨sounding, by omega, rfl, rfl⟩)

theorem mem_events (levels : List (Option UInt8)) (event : LevelEvent) :
    event ∈ events levels ↔
      ∃ (i : Nat) (level : UInt8), levels[i]? = some (some level) ∧
        event = { band := UInt64.ofNat i, level } := by
  unfold events
  rw [List.mem_filterMap]
  constructor
  · rintro ⟨⟨level, i⟩, member, shown⟩
    obtain ⟨value, rfl, rfl⟩ := Option.map_eq_some_iff.mp shown
    exact ⟨i, value, List.mem_zipIdx_iff_getElem?.mp member, rfl⟩
  · rintro ⟨i, level, found, rfl⟩
    exact ⟨(some level, i), List.mem_zipIdx_iff_getElem?.mpr found, rfl⟩

/-- Band numbers fit in a word, so that no event stands for another band. -/
theorem mentions_events (levels : List (Option UInt8)) (few : levels.length ≤ UInt64.size) (i : Nat)
    (inside : i < levels.length) : mentions (events levels) i = levels[i].isSome := by
  rw [Bool.eq_iff_iff, mentions, List.any_eq_true]
  constructor
  · rintro ⟨event, member, same⟩
    obtain ⟨j, level, found, rfl⟩ := (mem_events levels event).mp member
    obtain ⟨below, exact⟩ := List.getElem?_eq_some_iff.mp found
    have equal : j = i := by
      have words := congrArg UInt64.toNat (beq_iff_eq.mp same)
      rwa [UInt64.toNat_ofNat_of_lt' (Nat.lt_of_lt_of_le below few),
        UInt64.toNat_ofNat_of_lt' (Nat.lt_of_lt_of_le inside few)] at words
    subst equal
    rw [exact]
    rfl
  · intro shown
    obtain ⟨level, exact⟩ := Option.isSome_iff_exists.mp shown
    refine ⟨{ band := UInt64.ofNat i, level }, (mem_events levels _).mpr ⟨i, level, ?_, rfl⟩,
      beq_self_eq_true _⟩
    rw [List.getElem?_eq_getElem inside, exact]

theorem tickInto_eq (a : Aggregator) (s : Spectrum) (collected : List LevelEvent) :
    a.tickInto s collected = (a.tick s).map fun run => (collected ++ run.1, run.2) := by
  unfold tick tickInto
  cases a.bands.mapM (·.sum s.bins) with
  | error fault => rfl
  | ok sums =>
    simp only [Checked.ok_bind]
    cases a.scaling (sums.foldl saturatingAdd32 0) with
    | error fault => rfl
    | ok scaling =>
      simp only [Checked.ok_bind]
      cases (sums.zip a.previous).mapM fun band => judge scaling.1 scaling.2 band.1 band.2 with
      | error fault => rfl
      | ok verdicts => rfl

theorem tickInto_success {a b : Aggregator} {s : Spectrum} {collected listed : List LevelEvent}
    (ok : a.tickInto s collected = .ok (listed, b)) :
    ∃ own, a.tick s = .ok (own, b) ∧ listed = collected ++ own := by
  rw [tickInto_eq] at ok
  cases ran : a.tick s with
  | error fault => rw [ran] at ok; cases ok
  | ok result =>
    rw [ran] at ok
    cases ok
    exact ⟨result.1, rfl, rfl⟩

section
variable {a b : Aggregator} {s : Spectrum} {listed : List LevelEvent}
  {verdicts : List (Option UInt8 × Nat)}

theorem ticked_of_tick (ok : a.tick s = .ok (listed, b)) :
    ∃ verdicts, Ticked a s listed b verdicts := by
  obtain ⟨sums, summed, ok⟩ := Checked.bind_success _ _ _ ok
  obtain ⟨⟨threshold, divisor⟩, scaled, ok⟩ := Checked.bind_success _ _ _ ok
  obtain ⟨verdicts, judged, ok⟩ := Checked.bind_success _ _ _ ok
  cases ok
  exact ⟨verdicts, rfl, rfl, Checked.mapM_forall₂ _ _ _ summed, scaled,
    Checked.mapM_forall₂ _ _ _ judged, rfl, rfl⟩

theorem Ticked.lengths (ticked : Ticked a s listed b verdicts)
    (whole : a.previous.length = a.bands.length) :
    b.sums.length = a.bands.length ∧ verdicts.length = a.bands.length ∧
      b.previous.length = b.bands.length := by
  have sums := ticked.sums.length_eq
  have judged := ticked.judged.length_eq
  rw [List.length_zip] at judged
  rw [ticked.previous, List.length_map, ticked.bands]
  omega

theorem Ticked.sum_eq (ticked : Ticked a s listed b verdicts) (i : Nat)
    (inside : i < a.bands.length) : a.bands[i].sum s.bins = .ok (b.sumOf i) := by
  have found : i < b.sums.length := by
    rw [← ticked.sums.length_eq]
    exact inside
  have computed := (List.forall₂_iff_get.mp ticked.sums).2 i inside found
  rw [sumOf, List.getD_eq_getElem _ _ found]
  exact computed

theorem Ticked.judged_band (ticked : Ticked a s listed b verdicts)
    (whole : a.previous.length = a.bands.length) (few : a.bands.length ≤ UInt64.size) (i : Nat)
    (inside : i < a.bands.length) : Judged a b i (mentions listed i) := by
  obtain ⟨sums, judged, previous⟩ := ticked.lengths whole
  have shown : mentions listed i = verdicts[i].1.isSome := by
    rw [ticked.events, mentions_events _ (by rw [List.length_map]; omega) i
      (by rw [List.length_map]; omega), List.getElem_map]
  have next : b.remembered i = verdicts[i].2 := by
    rw [remembered, List.getD_eq_getElem _ _ (by rw [previous, ticked.bands]; exact inside)]
    simp only [ticked.previous, List.getElem_map]
  have verdict := (List.forall₂_iff_get.mp ticked.judged).2 i
    (by rw [List.length_zip]; omega) (by omega)
  simp only [List.get_eq_getElem, List.getElem_zip] at verdict
  rw [← List.getD_eq_getElem b.sums 0, ← List.getD_eq_getElem a.previous 0] at verdict
  rw [shown]
  rcases judge_cases _ _ _ _ verdicts[i] verdict with
    ⟨silent, none, zero⟩ | ⟨rise, some, same⟩ | ⟨sounding, low, none, same⟩
  · rw [none]
    exact .silent silent (next.trans zero)
  · rw [some]
    exact .emitted rise (next.trans same)
  · rw [none]
    exact .quiet sounding low (next.trans same)

theorem foldl_saturatingAdd32 (sums : List Nat) (start : Nat) (small : start ≤ 4294967295) :
    sums.foldl saturatingAdd32 start = min (start + sums.sum) 4294967295 := by
  induction sums generalizing start with
  | nil => simp [small]
  | cons sum sums ih =>
    have step : saturatingAdd32 start sum ≤ 4294967295 := Nat.min_le_right _ _
    rw [List.foldl_cons, List.sum_cons, ih _ step]
    unfold saturatingAdd32
    omega

theorem total_pos (sums : List Nat) (sum : Nat) (member : sum ∈ sums) (positive : 0 < sum) :
    0 < sums.foldl saturatingAdd32 0 := by
  have part := List.le_sum_of_mem member
  rw [foldl_saturatingAdd32 _ _ (by decide), Nat.zero_add]
  omega

/-- A band with energy is compared under a scaling of its own tick. -/
theorem Ticked.scaling_eq (ticked : Ticked a s listed b verdicts) (i : Nat)
    (sounding : b.sumOf i ≠ 0) : b.tuning.threshold b.total = .ok b.threshold ∧
      b.tuning.divisor b.total = .ok b.divisor := by
  have found : i < b.sums.length := by
    by_contra outside
    exact sounding (List.getD_eq_default _ _ (Nat.not_lt.mp outside))
  have positive : 0 < b.total := by
    rw [sumOf, List.getD_eq_getElem _ _ found] at sounding
    exact total_pos b.sums _ (List.getElem_mem found) (Nat.pos_of_ne_zero sounding)
  have scaling := ticked.scaling
  rw [Aggregator.scaling, if_pos positive, ← ticked.tuning] at scaling
  obtain ⟨threshold, first, scaling⟩ := Checked.bind_success _ _ _ scaling
  obtain ⟨divisor, second, scaling⟩ := Checked.bind_success _ _ _ scaling
  cases scaling
  exact ⟨first, second⟩

theorem Ticked.threshold_eq (ticked : Ticked a s listed b verdicts) (i : Nat)
    (sounding : b.sumOf i ≠ 0) : b.tuning.threshold b.total = .ok b.threshold :=
  (ticked.scaling_eq i sounding).1

end

end BandLight.Aggregator
