import BandLight.Proofs.BandHistory

/-! What an aggregator carries from tick to tick. Next to its bands and its
tuning only the remembered sums matter: threshold and divisor are read for a band
with energy alone, and such a band has the tick compute both anew. What they were
before shows in no event, in no level and in no sum that is remembered. -/
namespace BandLight.Aggregator

/-- The same bands, tuning and remembered sums, whatever else is retained. -/
structure SameMemory (a b : Aggregator) : Prop where
  bands : b.bands = a.bands
  tuning : b.tuning = a.tuning
  previous : b.previous = a.previous

/-- What lets an aggregator tick, whatever threshold and divisor it has retained. -/
structure Ready (a : Aggregator) : Prop where
  ordered : ∀ band ∈ a.bands, band.startBin ≤ band.endBin
  numbered : a.bands.length ≤ UInt64.size
  tuning : a.tuning.Valid
  whole : a.previous.length = a.bands.length
  previous : ∀ sum ∈ a.previous, sum < UInt32.size

namespace Entry

structure Same (first second : Entry) : Prop where
  operation : second.operation = first.operation
  outcome : second.outcome = first.outcome
  after : first.after.SameMemory second.after

/-- The event of a band whose sum exceeds the threshold of this very tick, at the
level that the divisor of this very tick gives. -/
def Accounts (entry : Entry) (event : LevelEvent) : Prop :=
  ∃ i threshold divisor, entry.after.tuning.threshold entry.after.total = .ok threshold ∧
    entry.after.tuning.divisor entry.after.total = .ok divisor ∧
    threshold < entry.after.sumOf i ∧
    event = { band := UInt64.ofNat i
              level := UInt8.ofNat (min (entry.after.sumOf i / divisor) 255) }

end Entry

theorem judge_silent (threshold divisor previous : Nat) :
    judge threshold divisor 0 previous = .ok (none, 0) := by
  simp [judge]

theorem silent_of_total (sums : List Nat) (silent : ¬ 0 < sums.foldl saturatingAdd32 0) :
    ∀ sum ∈ sums, sum = 0 := by
  intro sum member
  by_contra sounding
  exact silent (total_pos sums sum member (Nat.pos_of_ne_zero sounding))

/-- Silent bands are judged without a look at threshold or divisor. -/
theorem judge_all_silent (threshold divisor : Nat) (bands : List (Nat × Nat))
    (silent : ∀ band ∈ bands, band.1 = 0) :
    bands.mapM (fun band => judge threshold divisor band.1 band.2) =
      .ok (bands.map fun _ => (none, 0)) := by
  induction bands with
  | nil => simp
  | cons band bands ih =>
    have rest := ih fun other member => silent other (by simp [member])
    rw [List.mapM_cons, silent band (by simp), judge_silent, rest]
    simp

section
variable {a b : Aggregator}

theorem scaling_congr (tuning : b.tuning = a.tuning) {total : Nat} (sounding : 0 < total) :
    b.scaling total = a.scaling total := by
  simp only [scaling, if_pos sounding, tuning]

theorem tickInto_same (same : a.SameMemory b) (s : Spectrum) (collected : List LevelEvent) :
    Checked.Matched (fun x y => x.1 = y.1 ∧ x.2.SameMemory y.2)
      (a.tickInto s collected) (b.tickInto s collected) := by
  obtain ⟨bands, tuning, previous⟩ := same
  unfold tickInto
  rw [bands, previous]
  apply (Checked.matched_self (a.bands.mapM (·.sum s.bins))).bind
  rintro sums _ rfl
  by_cases sounding : 0 < sums.foldl saturatingAdd32 0
  · simp only [scaling_congr tuning sounding]
    apply (Checked.matched_self (a.scaling _)).bind
    rintro scaling _ rfl
    apply (Checked.matched_self _).bind
    rintro verdicts _ rfl
    exact ⟨rfl, rfl, tuning, rfl⟩
  · -- Without energy the two may have different scalings, but no band is compared with them.
    have none (threshold divisor : Nat) := judge_all_silent threshold divisor
      (sums.zip a.previous) fun band member =>
        silent_of_total sums sounding band.1 (List.of_mem_zip member).1
    simp only [scaling, if_neg sounding, Checked.ok_bind, none]
    exact ⟨rfl, rfl, tuning, rfl⟩

theorem perform_same (same : a.SameMemory b) (operation : Operation) :
    Checked.Matched (fun x y => x.1 = y.1 ∧ x.2.SameMemory y.2)
      (a.perform operation) (b.perform operation) := by
  cases operation with
  | tick s =>
    apply (tickInto_same same s []).bind
    intro x y both
    exact ⟨congrArg Outcome.listed both.1, both.2⟩
  | tickInto s collected =>
    apply (tickInto_same same s collected).bind
    intro x y both
    exact ⟨congrArg Outcome.listed both.1, both.2⟩
  | setTuning tuning =>
    cases checked : tuning.validate with
    | error e =>
      simp only [perform, setTuning_error _ tuning e checked]
      exact ⟨rfl, same⟩
    | ok valid =>
      simp only [perform, setTuning_eq _ tuning checked]
      exact ⟨rfl, same.bands, rfl, same.previous⟩
  | reset =>
    refine ⟨rfl, same.bands, same.tuning, ?_⟩
    simp only [reset, same.previous]

theorem note_same (same : a.SameMemory b) (operation : Operation) :
    Checked.Matched (fun x y => x.1.Same y.1 ∧ x.2.SameMemory y.2)
      (a.note operation) (b.note operation) := by
  apply (perform_same same operation).bind
  intro x y both
  exact ⟨⟨rfl, both.1.symm, both.2⟩, both.2⟩

theorem Ready.keeps (ready : a.Ready) : Keeps { a with divisor := 1 } a.bands :=
  ⟨rfl, ready.whole, ready.ordered, ready.tuning, ready.previous, Nat.one_ne_zero⟩

/-- Not even a retained divisor of zero is in the way of a run. -/
theorem Ready.history_success (ready : a.Ready) (operations : List Operation)
    (fits : ∀ operation ∈ operations, operation.Fits a.bands) :
    ∃ log c, a.history operations = .ok (log, c) := by
  -- With a divisor of one the run is known to succeed, and it shows the same.
  obtain ⟨log, c, ran⟩ := Aggregator.history_success ready.keeps ready.numbered operations fits
  have matched := Checked.trace_matched note note SameMemory Entry.Same
    (fun a b operation same => note_same same operation) { a with divisor := 1 } a
    ⟨rfl, rfl, rfl⟩ operations
  rw [history] at ran
  rw [ran] at matched
  cases own : a.history operations with
  | ok run => exact ⟨run.1, run.2, rfl⟩
  | error fault =>
    rw [history] at own
    rw [own] at matched
    exact matched.elim

theorem judge_level (threshold divisor sum previous next : Nat) (level : UInt8)
    (judged : judge threshold divisor sum previous = .ok (some level, next)) :
    previous + threshold < sum ∧ level = UInt8.ofNat (min (sum / divisor) 255) := by
  have rise : previous + threshold < sum := by
    rcases judge_cases _ _ _ _ _ judged with silent | rise | quiet
    · simp at silent
    · exact rise.1
    · simp at quiet
  refine ⟨rise, ?_⟩
  unfold judge at judged
  rw [if_neg (by omega)] at judged
  obtain ⟨difference, _, judged⟩ := Checked.bind_success _ _ _ judged
  split at judged
  · obtain ⟨quotient, divided, judged⟩ := Checked.bind_success _ _ _ judged
    unfold Checked.div at divided
    split at divided
    · cases divided
    · cases divided
      cases judged
      rfl
  · cases judged

theorem Ticked.accounts {s : Spectrum} {listed : List LevelEvent}
    {verdicts : List (Option UInt8 × Nat)} (ticked : Ticked a s listed b verdicts)
    (event : LevelEvent) (member : event ∈ listed) :
    ∃ i, b.tuning.threshold b.total = .ok b.threshold ∧ b.tuning.divisor b.total = .ok b.divisor ∧
      b.threshold < b.sumOf i ∧ event = { band := UInt64.ofNat i
                                          level := UInt8.ofNat (min (b.sumOf i / b.divisor) 255) } := by
  rw [ticked.events] at member
  obtain ⟨i, level, found, rfl⟩ := (mem_events _ event).mp member
  obtain ⟨inside, shown⟩ := List.getElem?_eq_some_iff.mp found
  rw [List.length_map] at inside
  rw [List.getElem_map] at shown
  have judged := List.forall₂_iff_get.mp ticked.judged
  have verdict := judged.2 i (by rw [judged.1]; exact inside) inside
  simp only [List.get_eq_getElem, List.getElem_zip] at verdict
  rw [← Prod.eta verdicts[i], shown] at verdict
  obtain ⟨rise, scaled⟩ := judge_level _ _ _ _ _ level verdict
  have found : i < b.sums.length := by
    have short := judged.1
    rw [List.length_zip] at short
    omega
  rw [← List.getD_eq_getElem b.sums 0 found, ← sumOf] at rise scaled
  obtain ⟨threshold, divisor⟩ := ticked.scaling_eq i (by omega)
  exact ⟨i, threshold, divisor, by omega, by rw [scaled]⟩

theorem note_accounts (operation : Operation) (entry : Entry)
    (noted : a.note operation = .ok (entry, b)) :
    ∀ event ∈ entry.added, entry.Accounts event := by
  obtain ⟨⟨outcome, after⟩, performed, noted⟩ := Checked.bind_success _ _ _ noted
  cases noted
  have ticks (s : Spectrum) (listed : List LevelEvent) (ran : a.tick s = .ok (listed, b)) :
      ∀ event ∈ listed, Entry.Accounts ⟨operation, outcome, b⟩ event := by
    intro event member
    obtain ⟨verdicts, ticked⟩ := ticked_of_tick ran
    obtain ⟨i, threshold, divisor, rise, same⟩ := ticked.accounts event member
    exact ⟨i, _, _, threshold, divisor, rise, same⟩
  cases operation with
  | tick s =>
    obtain ⟨⟨listed, next⟩, ticked, performed⟩ := Checked.bind_success _ _ _ performed
    cases performed
    exact ticks s listed ticked
  | tickInto s collected =>
    obtain ⟨⟨listed, next⟩, ticked, performed⟩ := Checked.bind_success _ _ _ performed
    cases performed
    obtain ⟨listed, run, rfl⟩ := tickInto_success ticked
    intro event member
    change event ∈ (collected ++ listed).drop collected.length at member
    rw [List.drop_left] at member
    exact ticks s listed run event member
  | setTuning tuning => simp [Entry.added]
  | reset => simp [Entry.added]

end

/-- Aggregators with the same bands, tuning and remembered sums take every run
alike. Whatever threshold and divisor they have retained, the run comes to its end
where the band sums fit, and the events that it lists account for themselves. -/
theorem retained_scaling_unobservable {a b : Aggregator} (same : a.SameMemory b)
    (operations : List Operation) :
    Checked.Matched (fun x y => List.Forall₂ Entry.Same x.1 y.1 ∧ x.2.SameMemory y.2)
      (a.history operations) (b.history operations) ∧
    (a.Ready → (∀ operation ∈ operations, operation.Fits a.bands) →
      ∃ log c, a.history operations = .ok (log, c)) ∧
    ∀ log c, a.history operations = .ok (log, c) →
      ∀ entry ∈ log, ∀ event ∈ entry.added, entry.Accounts event := by
  refine ⟨?_, fun ready fits => ready.history_success operations fits, ?_⟩
  · exact Checked.trace_matched note note SameMemory Entry.Same
      (fun a b operation same => note_same same operation) a b same operations
  · intro log c ran entry member
    obtain ⟨before, after, rfl⟩ := List.append_of_mem member
    obtain ⟨_, operation, _, _, next, _, _, noted, _⟩ := Checked.trace_split note _ _ _ _ _ _ ran
    exact note_accounts operation entry noted

theorem retained_scaling_after_silence : ∃ a b entry other c d,
    configure [⟨0, 1, 0⟩] 2 .standard = .ok a ∧
    (∃ log, a.history [.tick ⟨[100, 20]⟩, .tick ⟨[0, 0]⟩] = .ok (log, b)) ∧
    a.threshold ≠ b.threshold ∧
    a.history [.tick ⟨[60, 0]⟩] = .ok ([entry], c) ∧ b.history [.tick ⟨[60, 0]⟩] = .ok ([other], d) ∧
    entry.added ≠ [] ∧ other.outcome = entry.outcome := by
  obtain ⟨a, b, entry, other, c, d, configured, ran, differs, same, first, second, shown⟩ :
      ∃ a b entry other c d, configure [⟨0, 1, 0⟩] 2 .standard = .ok a ∧
      (∃ log, a.history [.tick ⟨[100, 20]⟩, .tick ⟨[0, 0]⟩] = .ok (log, b)) ∧
      a.threshold ≠ b.threshold ∧ a.SameMemory b ∧
      a.history [.tick ⟨[60, 0]⟩] = .ok ([entry], c) ∧
      b.history [.tick ⟨[60, 0]⟩] = .ok ([other], d) ∧ entry.added ≠ [] :=
    ⟨_, _, _, _, _, _, rfl, ⟨_, rfl⟩, by decide, ⟨rfl, rfl, rfl⟩, rfl, rfl, by decide⟩
  have alike := (retained_scaling_unobservable same [.tick ⟨[60, 0]⟩]).1
  rw [first, second] at alike
  obtain ⟨entries, -⟩ := alike
  cases entries with
  | cons own rest => exact ⟨a, b, entry, other, c, d, configured, ran, differs, first, second, shown,
      own.outcome⟩

end BandLight.Aggregator
