import BandLight.Proofs.BandTicks
import BandLight.Proofs.DrainSchedules
import BandLight.Proofs.PipelineLog
import BandLight.Proofs.Refinement

/-! A tick in one equation. The aggregate side reads what the plain chain would
read in its place, hands the levels to the sink, and tells the host of every level
that the sink has taken and then of the mean frequency; a sink that breaks ends the
aggregate side. -/
namespace BandLight

namespace Aggregator

theorem bands_obey_all (a : Aggregator) (commands : List Command) :
    (commands.foldl obey a).bands = a.bands := by
  have each (a : Aggregator) (command : Command) : (a.obey command).bands = a.bands := by
    cases command with
    | resetHistory => rfl
    | setTuning tuning =>
      simp only [obey, setTuning]
      cases tuning.validate <;> rfl
  induction commands generalizing a with
  | nil => rfl
  | cons command commands ih => rw [List.foldl_cons, ih, each]

theorem filterMap_sublist_map {α β : Type} (f : α → Option β) (g : α → β) (items : List α)
    (same : ∀ item value, f item = some value → value = g item) :
    (items.filterMap f).Sublist (items.map g) := by
  induction items with
  | nil => simp
  | cons item items ih =>
    cases found : f item with
    | none => simpa [found] using ih.cons (g item)
    | some value => simpa [found, same item value found] using ih

theorem bands_listed {a b : Aggregator} {s : Spectrum} {listed : List LevelEvent}
    (ticked : a.tick s = .ok (listed, b)) :
    (listed.map (·.band)).Sublist ((List.range a.bands.length).map UInt64.ofNat) := by
  obtain ⟨verdicts, told⟩ := ticked_of_tick ticked
  have few : (verdicts.map (·.1)).length ≤ a.bands.length := by
    have sums := told.sums.length_eq
    have judged := told.judged.length_eq
    rw [List.length_zip] at judged
    rw [List.length_map]
    omega
  refine List.Sublist.trans ?_ ((List.range_sublist.mpr few).map UInt64.ofNat)
  rw [told.events, events, List.map_filterMap, List.range_eq_range', ← List.zipIdx_map_snd,
    List.map_map]
  apply filterMap_sublist_map
  rintro ⟨level, i⟩ band shown
  cases level with
  | none => simp at shown
  | some level => simpa using shown.symm

end Aggregator

theorem Chain.tick_cases (c next : Chain) (reading : Option Reading)
    (ran : c.tick = .ok (reading, next)) : (reading = none ∧ next = c) ∨
      ∃ found s, reading = some found ∧ c.aggregator.tick s = .ok (found.events, next.aggregator) := by
  unfold tick at ran
  split at ran
  · cases ran
    exact .inl ⟨rfl, rfl⟩
  · next s mailbox collected =>
    obtain ⟨⟨events, aggregator⟩, ticked, ran⟩ := Checked.bind_success _ _ _ ran
    dsimp only at ran
    split at ran
    · cases ran
      exact .inr ⟨_, s, rfl, ticked⟩
    · obtain ⟨mean, _, ran⟩ := Checked.bind_success _ _ _ ran
      cases ran
      exact .inr ⟨_, s, rfl, ticked⟩

namespace Pipeline

/-- What the plain chain reads when it has obeyed the commands, and its aggregator
afterwards. -/
def listened (p : Pipeline) : Option Reading × Aggregator :=
  match p.reference.commanded.tick with
  | .ok (reading, chain) => (reading, chain.aggregator)
  | .error _ => (none, p.aggregator)

def levels (p : Pipeline) : List LevelEvent := (p.listened.1.map (·.events)).getD []

def mean (p : Pipeline) : Option UInt32 := p.listened.1.bind (·.meanFrequency)

def tidings (p : Pipeline) : List Event :=
  let (_, accepted, whole) := p.sink.acceptAll p.received p.levels
  accepted.map .ofLevel ++ if whole then p.mean.toList.map .meanFrequency else []

def ticked (p : Pipeline) : Tick × Pipeline :=
  let (calls, accepted, whole) := p.sink.acceptAll p.received p.levels
  let consumed := p.listened.1.isSome
  ({ consumed, calls, broken := !whole },
    { p with
      commands := []
      aggregator := p.listened.2
      received := p.received ++ accepted
      analyzer := if consumed then p.analyzer.emptied else p.analyzer
      counters := { p.counters with
        consumed := p.counters.consumed + if consumed then 1 else 0
        emitted := p.counters.emitted + if whole then p.levels.length else 0 }
      events := p.events.postAll p.tidings
      aggregating := p.aggregating && whole })

section
variable {p q r : Pipeline}

theorem listened_silent (silent : p.analyzer.mailbox.ready = false) :
    p.listened = (none, p.commands.foldl Aggregator.obey p.aggregator) := by
  have quiet : p.reference.commanded.tick = .ok (none, p.reference.commanded) :=
    Chain.tick_silent _ silent
  rw [listened, quiet]
  rfl

theorem aggregate_eq (s : Spectrum) (levels : List LevelEvent) (aggregator : Aggregator)
    (mean : Option UInt32) (ticked : p.aggregator.tick s = .ok (levels, aggregator))
    (found : p.meanFrequency s = .ok mean) :
    p.aggregate s =
      let (calls, accepted, whole) := p.sink.acceptAll p.received levels
      .ok ({ consumed := true, calls, broken := !whole },
        { p with
          aggregator
          received := p.received ++ accepted
          counters := { p.counters with
            emitted := p.counters.emitted + if whole then levels.length else 0 }
          events := p.events.postAll (accepted.map .ofLevel ++
            if whole then mean.toList.map .meanFrequency else [])
          aggregating := p.aggregating && whole }) := by
  have found (received : List LevelEvent) (events : EventQueue) :
      meanFrequency { p with aggregator, received, events } s = .ok mean := found
  unfold aggregate
  simp only [ticked, Checked.ok_bind]
  cases (p.sink.acceptAll p.received levels).2.2 with
  | false => simp
  | true => simp [found, EventQueue.postAll_append]

theorem listened_waiting (sound : p.Sound) (ready : p.analyzer.mailbox.ready = true) :
    ∃ levels aggregator mean chain,
      (p.commands.foldl Aggregator.obey p.aggregator).tick p.analyzer.mailbox.slot =
        .ok (levels, aggregator) ∧
      p.meanFrequency p.analyzer.mailbox.slot = .ok mean ∧
      p.reference.commanded.tick =
        .ok (some { events := levels, meanFrequency := mean }, chain) ∧
      p.listened = (some { events := levels, meanFrequency := mean }, aggregator) := by
  have obedient := p.aggregator.obey_all_sound sound.aggregator p.commands
  have small := sound.small
  obtain ⟨levels, aggregator, judged, -⟩ :=
    (p.commands.foldl Aggregator.obey p.aggregator).tick_success obedient p.analyzer.mailbox.slot
      (p.size / 2) sound.analyzer.mailbox.slot (by omega)
  obtain ⟨mean, found⟩ := p.meanFrequency_success p.analyzer.mailbox.slot (by
    change p.analyzer.mailbox.slot.bins.length < _
    rw [sound.analyzer.mailbox.slot.length_eq]
    omega)
  have read := p.reference.commanded.tick_waiting ready levels aggregator mean judged found
  refine ⟨levels, aggregator, mean, _, judged, found, read, ?_⟩
  rw [listened, read]

/-- What is listened to is what the plain chain reads. -/
theorem commanded_tick (sound : p.Sound) : ∃ chain,
    p.reference.commanded.tick = .ok (p.listened.1, chain) ∧ p.listened.2 = chain.aggregator := by
  have told (run : Option Reading × Chain) (read : p.reference.commanded.tick = .ok run) :
      ∃ chain, p.reference.commanded.tick = .ok (p.listened.1, chain) ∧
        p.listened.2 = chain.aggregator := by
    refine ⟨run.2, ?_, ?_⟩
    · rw [listened, read]
    · rw [listened, read]
  cases ready : p.analyzer.mailbox.ready with
  | false => exact told _ (Chain.tick_silent _ ready)
  | true =>
    obtain ⟨_, _, _, _, -, -, read, -⟩ := listened_waiting sound ready
    exact told _ read

theorem tick_eq_ticked (sound : p.Sound) : p.tick = .ok p.ticked := by
  rw [tick_eq p sound, applyCommands_eq p sound.commands]
  cases ready : p.analyzer.mailbox.ready with
  | false =>
    have none := listened_silent ready
    simp [ticked, tidings, levels, mean, none, Sink.acceptAll, EventQueue.postAll]
  | true =>
    obtain ⟨levels, aggregator, mean, _, judged, found, -, heard⟩ := listened_waiting sound ready
    -- The worker judges the spectrum that is waiting, as the plain chain does.
    let obeyed : Pipeline :=
      { p with commands := [], aggregator := p.commands.foldl Aggregator.obey p.aggregator }
    have all := aggregate_eq (p := obeyed.collected) p.analyzer.mailbox.slot levels aggregator mean
      judged found
    rw [if_pos rfl]
    refine all.trans ?_
    simp only [ticked, tidings, Pipeline.levels, Pipeline.mean, heard]
    rfl

theorem move_ticked (order : p.InOrder) : p.move .tick = p.ticked.2 :=
  move_tick _ (tick_eq_ticked order.1)

theorem tick_report (order : p.InOrder) (report : Report)
    (acted : p.act (.step (.host .tick)) = .ok (report, q)) :
    report = { answer := .stopped } ∨ report = { answer := .aggregatorGone } ∨
      report = { answer := .ticked p.ticked.1 } := by
  rw [act, perform] at acted
  split at acted
  · rw [hostStep] at acted
    split at acted
    · rw [tick_eq_ticked order.1] at acted
      cases acted
      exact .inr (.inr rfl)
    · cases acted
      exact .inr (.inl rfl)
  · cases acted
    exact .inl rfl

theorem bands_commanded (p : Pipeline) :
    p.reference.commanded.aggregator.bands = p.aggregator.bands :=
  p.aggregator.bands_obey_all p.commands

theorem listened_cases (p : Pipeline) :
    (p.listened.1 = none ∧ p.listened.2.bands = p.aggregator.bands) ∨
      ∃ reading s, p.listened.1 = some reading ∧ p.listened.2.bands = p.aggregator.bands ∧
        p.reference.commanded.aggregator.tick s = .ok (reading.events, p.listened.2) := by
  have kept := p.bands_commanded
  unfold listened
  cases read : p.reference.commanded.tick with
  | error fault => exact .inl ⟨rfl, rfl⟩
  | ok run =>
    rcases Chain.tick_cases _ _ _ read with ⟨none, same⟩ | ⟨reading, s, some, ticked⟩
    · exact .inl ⟨none, by rw [← kept, ← same]⟩
    · right
      obtain ⟨verdicts, told⟩ := Aggregator.ticked_of_tick ticked
      exact ⟨reading, s, some, told.bands.trans kept, ticked⟩

theorem levels_sublist (p : Pipeline) : (p.levels.map (·.band)).Sublist
    ((List.range p.aggregator.bands.length).map UInt64.ofNat) := by
  rcases p.listened_cases with ⟨none, -⟩ | ⟨reading, s, some, bands, ticked⟩
  · simp [levels, none]
  · have listed := Aggregator.bands_listed ticked
    rw [bands_commanded] at listed
    simpa [levels, some] using listed

structure Fixed (p q : Pipeline) : Prop where
  config : q.config = p.config
  sink : q.sink = p.sink
  latency : q.latency = p.latency
  bands : q.aggregator.bands = p.aggregator.bands

theorem Fixed.trans (first : p.Fixed q) (second : q.Fixed r) : p.Fixed r :=
  ⟨second.config.trans first.config, second.sink.trans first.sink,
    second.latency.trans first.latency, second.bands.trans first.bands⟩

theorem move_fixed (order : p.InOrder) (move : Move) : p.Fixed (p.move move) := by
  cases move with
  | tick =>
    rw [move_ticked order]
    rcases p.listened_cases with ⟨-, bands⟩ | ⟨_, _, -, bands, -⟩
    · exact ⟨rfl, rfl, rfl, bands⟩
    · exact ⟨rfl, rfl, rfl, bands⟩
  | stop =>
    obtain ⟨events, stopped, -⟩ := stop_eq p
    rw [Pipeline.move, stopped]
    exact ⟨rfl, rfl, rfl, rfl⟩
  | _ => exact ⟨rfl, rfl, rfl, rfl⟩

theorem Moves.fixed {moves : List Move} (moved : Moves p moves q) : p.Fixed q := by
  induction moved with
  | nil p => exact ⟨rfl, rfl, rfl, rfl⟩
  | cons move moves order rest ih => exact (move_fixed order move).trans ih

theorem log_fixed (order : p.InOrder) (actions : List Action) (entries : List Entry)
    (ran : p.log actions = .ok (entries, q)) :
    p.Fixed q ∧ ∀ entry ∈ entries, p.Fixed entry.before := by
  refine (log_induction (fun entries q => p.Fixed q ∧ ∀ entry ∈ entries, p.Fixed entry.before)
    order ⟨⟨rfl, rfl, rfl, rfl⟩, by simp⟩ actions ?_ entries ran).2
  intro entries entry made _ ⟨fixed, each⟩
  refine ⟨fixed.trans made.moved.fixed, ?_⟩
  intro other member
  rcases List.mem_append.mp member with earlier | last
  · exact each other earlier
  · rw [List.mem_singleton.mp last]
    exact fixed

end

end Pipeline

end BandLight
