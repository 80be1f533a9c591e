import BandLight.Proofs.QueuedBlocks

/-! A tick of a sound pipeline. Commands that were valid when they were sent
change the aggregator only; a waiting spectrum is collected and aggregated
without a fault; and the intake of the pipeline is left as it was. -/
namespace BandLight

/-- The aggregator after a command. A tuning that is no good changes nothing. -/
def Aggregator.obey (a : Aggregator) : Command → Aggregator
  | .setTuning tuning =>
      match a.setTuning tuning with
      | .ok next => next
      | .error _ => a
  | .resetHistory => a.reset

theorem Aggregator.obey_sound (a : Aggregator) (sound : a.Sound) (command : Command) :
    (a.obey command).Sound := by
  cases command with
  | resetHistory => exact a.reset_sound sound
  | setTuning tuning =>
    cases valid : tuning.validate with
    | error e =>
      have same : a.obey (.setTuning tuning) = a := by
        simp only [obey, a.setTuning_error tuning e valid]
      rw [same]
      exact sound
    | ok done =>
      have same : a.obey (.setTuning tuning) = { a with tuning } := by
        simp only [obey, a.setTuning_eq tuning valid]
      rw [same]
      exact ⟨sound.ordered, valid, sound.previous, sound.divisor⟩

theorem Aggregator.obey_all_sound (a : Aggregator) (sound : a.Sound) (commands : List Command) :
    (commands.foldl obey a).Sound := by
  induction commands generalizing a with
  | nil => exact sound
  | cons command commands ih => exact ih (a.obey command) (a.obey_sound sound command)

namespace Pipeline

theorem applyCommand_eq (p : Pipeline) (command : Command)
    (valid : ∀ tuning, command = .setTuning tuning → tuning.Valid) :
    p.applyCommand command = { p with aggregator := p.aggregator.obey command } := by
  cases command with
  | resetHistory => rfl
  | setTuning tuning =>
    simp only [applyCommand, Aggregator.obey, Aggregator.setTuning_eq _ _ (valid tuning rfl)]

theorem applyCommands_from (p : Pipeline) (commands : List Command)
    (valid : ∀ tuning, .setTuning tuning ∈ commands → tuning.Valid) :
    commands.foldl applyCommand p =
      { p with aggregator := commands.foldl Aggregator.obey p.aggregator } := by
  induction commands generalizing p with
  | nil => rfl
  | cons command commands ih =>
    have first := applyCommand_eq p command (fun tuning same => valid tuning (by simp [same]))
    rw [List.foldl_cons, first, ih _ (fun tuning member => valid tuning (by simp [member]))]
    rfl

theorem applyCommands_eq (p : Pipeline)
    (valid : ∀ tuning, .setTuning tuning ∈ p.commands → tuning.Valid) :
    p.applyCommands =
      { p with commands := [], aggregator := p.commands.foldl Aggregator.obey p.aggregator } :=
  applyCommands_from { p with commands := [] } p.commands valid

theorem applyCommands_sound (p : Pipeline) (sound : p.Sound) : p.applyCommands.Sound := by
  rw [applyCommands_eq p sound.commands]
  exact { sound with
    aggregator := p.aggregator.obey_all_sound sound.aggregator p.commands
    commands := by simp }

theorem meanFrequency_success (p : Pipeline) (s : Spectrum) (short : s.length < 4294967296) :
    ∃ mean, p.meanFrequency s = .ok mean := by
  unfold meanFrequency
  split
  · exact ⟨none, rfl⟩
  · exact s.meanActiveFrequency_success _ _ short p.config.sampleRate.toNat_lt

/-- The intake and the flags that decide over it, apart from the mailbox. -/
structure SameIntake (p q : Pipeline) : Prop where
  config : q.config = p.config
  samples : q.samples = p.samples
  lengths : q.lengths = p.lengths
  ring : q.analyzer.ring = p.analyzer.ring
  counted : q.analyzer.blocksAnalyzed = p.analyzer.blocksAnalyzed
  running : q.running = p.running
  held : q.held = p.held
  attended : q.events.attended = p.events.attended

theorem SameIntake.trans {p q r : Pipeline} (first : p.SameIntake q) (second : q.SameIntake r) :
    p.SameIntake r where
  config := second.config.trans first.config
  samples := second.samples.trans first.samples
  lengths := second.lengths.trans first.lengths
  ring := second.ring.trans first.ring
  counted := second.counted.trans first.counted
  running := second.running.trans first.running
  held := second.held.trans first.held
  attended := second.attended.trans first.attended

theorem applyCommands_intake (p : Pipeline) (sound : p.Sound) : p.SameIntake p.applyCommands := by
  rw [applyCommands_eq p sound.commands]
  exact ⟨rfl, rfl, rfl, rfl, rfl, rfl, rfl, rfl⟩

theorem aggregate_success (p : Pipeline) (sound : p.Sound) (s : Spectrum)
    (scaled : s.Sound (p.size / 2)) :
    ∃ tick q, p.aggregate s = .ok (tick, q) ∧ q.Sound ∧ p.SameIntake q := by
  have small := sound.small
  obtain ⟨levels, aggregator, ticked, kept⟩ :=
    p.aggregator.tick_success sound.aggregator s (p.size / 2) scaled (by omega)
  simp only [aggregate, ticked, Checked.ok_bind]
  cases whole : (p.sink.acceptAll p.received levels).2.2 with
  | false =>
    exact ⟨_, _, rfl, { sound with aggregator := kept },
      ⟨rfl, rfl, rfl, rfl, rfl, rfl, rfl, EventQueue.attended_postAll _ _⟩⟩
  | true =>
    obtain ⟨mean, found⟩ := p.meanFrequency_success s (by
      change s.bins.length < _
      rw [scaled.length_eq]
      omega)
    have found : meanFrequency { p with
        aggregator
        received := p.received ++ (p.sink.acceptAll p.received levels).2.1
        events := p.events.postAll
          ((p.sink.acceptAll p.received levels).2.1.map Event.ofLevel) } s =
        .ok mean := found
    simp only [if_true, found, Checked.ok_bind]
    exact ⟨_, _, rfl, { sound with aggregator := kept },
      ⟨rfl, rfl, rfl, rfl, rfl, rfl, rfl, by simp⟩⟩

def collected (p : Pipeline) : Pipeline :=
  { p with
    analyzer := { p.analyzer with
      mailbox := { p.analyzer.mailbox with ready := false, hint := false } }
    counters := { p.counters with consumed := p.counters.consumed + 1 } }

theorem collected_sound (p : Pipeline) (sound : p.Sound) : p.collected.Sound :=
  { sound with
    analyzer := { sound.analyzer with mailbox := ⟨sound.analyzer.mailbox.slot, rfl⟩ } }

theorem collected_intake (p : Pipeline) : p.SameIntake p.collected :=
  ⟨rfl, rfl, rfl, rfl, rfl, rfl, rfl, rfl⟩

theorem applyCommands_mailbox (p : Pipeline) (sound : p.Sound) :
    p.applyCommands.analyzer.mailbox = p.analyzer.mailbox := by
  rw [applyCommands_eq p sound.commands]

theorem tick_eq (p : Pipeline) (sound : p.Sound) :
    p.tick = if p.analyzer.mailbox.ready then
        p.applyCommands.collected.aggregate p.analyzer.mailbox.slot
      else .ok ({ consumed := false, calls := [], broken := false }, p.applyCommands) := by
  have same := applyCommands_mailbox p sound
  unfold tick
  simp only [same, Mailbox.collectInto_eq _ _ sound.analyzer.mailbox.hint, Checked.ok_bind]
  cases waiting : p.analyzer.mailbox.ready with
  | false => rfl
  | true => simp only [if_true, collected, same]

theorem tick_success (p : Pipeline) (sound : p.Sound) :
    ∃ tick q, p.tick = .ok (tick, q) ∧ q.Sound ∧ p.SameIntake q := by
  have applied := applyCommands_sound p sound
  have obeyed := applyCommands_intake p sound
  rw [tick_eq p sound]
  cases waiting : p.analyzer.mailbox.ready with
  | false => exact ⟨_, _, rfl, applied, obeyed⟩
  | true =>
    have taken := obeyed.trans (collected_intake _)
    have scaled : p.analyzer.mailbox.slot.Sound (p.applyCommands.collected.size / 2) := by
      rw [size, taken.config]
      exact sound.analyzer.mailbox.slot
    obtain ⟨tick, q, ticked, kept, intake⟩ :=
      aggregate_success _ (collected_sound _ applied) p.analyzer.mailbox.slot scaled
    exact ⟨tick, q, ticked, kept, taken.trans intake⟩

end Pipeline

end BandLight
