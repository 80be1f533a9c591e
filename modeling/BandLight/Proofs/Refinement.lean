import BandLight.Proofs.ChainBlocks
import BandLight.Proofs.PipelineHistory

/-! A pipeline that is not held back refines the plain chain. Deliveries,
commands and ticks in any order get the answers of a reference run that has no
queue, no counters and no bound on events: it analyses each delivery at once,
and each tick applies the commands since the last one and aggregates what waits
in the mailbox. -/
namespace BandLight

inductive Feed
  | deliver (samples : List Sample)
  | deliverBytes (bytes : List UInt8)
  | setTuning (tuning : Tuning)
  | resetHistory
  | tick
  deriving DecidableEq, Repr, Inhabited

namespace Feed

def step : Feed → Pipeline.Step
  | .deliver samples => .driver (.deliver samples)
  | .deliverBytes bytes => .driver (.deliverBytes bytes)
  | .setTuning tuning => .host (.setTuning tuning)
  | .resetHistory => .host .resetHistory
  | .tick => .host .tick

/-- Nothing is delivered but blocks of one size. -/
def Whole (size : Nat) : Feed → Prop
  | .deliver samples => samples.length = size
  | .deliverBytes bytes => (Sample.decode bytes).length = size
  | _ => True

end Feed

/-- The reference run: a chain, the sink of its level events with those that it
has received, and the commands that wait for a tick. -/
structure Reference where
  chain : Chain
  sink : Sink
  received : List LevelEvent
  commands : List Command

/-- A report and the level and mean frequency events that are posted for it. -/
structure Reply where
  report : Pipeline.Report
  posted : List Event := []

namespace Reference

/-- Take no more than the block size in, and nothing in when nothing comes. -/
def deliver (intake : Chain → List Sample → Checked (List Analysis × Chain)) (r : Reference)
    (samples : List Sample) : Checked (Reply × Reference) :=
  if samples.take r.chain.analyzer.ring.blockSize = [] then
    .ok ({ report := { answer := .accepted true } }, r)
  else do
    let (analyses, chain) ← intake r.chain samples
    return ({ report := { answer := .accepted true, analyses } }, { r with chain })

def tick (r : Reference) : Checked (Reply × Reference) := do
  let aggregator := r.commands.foldl Aggregator.obey r.chain.aggregator
  let (reading, chain) ← { r.chain with aggregator }.tick
  let next : Reference := { r with chain, commands := [] }
  match reading with
  | none =>
      return ({ report := { answer := .ticked { consumed := false, calls := [], broken := false } } },
        next)
  | some reading =>
      let calls := (r.sink.acceptAll r.received reading.events).1
      return ({ report := { answer := .ticked { consumed := true, calls, broken := false } }
                posted := reading.events.map .ofLevel ++
                  reading.meanFrequency.toList.map .meanFrequency },
        { next with received := r.received ++ reading.events })

def step (intake : Chain → List Sample → Checked (List Analysis × Chain)) (r : Reference) :
    Feed → Checked (Reply × Reference)
  | .deliver samples => r.deliver intake samples
  | .deliverBytes bytes => r.deliver intake (Sample.decode bytes)
  | .setTuning tuning =>
      match tuning.validate with
      | .error error => .ok ({ report := { answer := .rejected (.setup error) } }, r)
      | .ok () =>
          .ok ({ report := { answer := .done } },
            { r with commands := r.commands ++ [.setTuning tuning] })
  | .resetHistory =>
      .ok ({ report := { answer := .done } }, { r with commands := r.commands ++ [.resetHistory] })
  | .tick => r.tick

def trace (intake : Chain → List Sample → Checked (List Analysis × Chain)) (r : Reference)
    (feeds : List Feed) : Checked (List Reply × Reference) :=
  Checked.trace (step intake) r feeds

theorem trace_step (intake : Chain → List Sample → Checked (List Analysis × Chain))
    (r next : Reference) (feed : Feed) (feeds : List Feed) (reply : Reply)
    (replied : r.step intake feed = .ok (reply, next)) :
    r.trace intake (feed :: feeds) =
      (next.trace intake feeds).map fun run => (reply :: run.1, run.2) :=
  Checked.trace_cons_eq (step intake) r next feed feeds reply replied

def commanded (r : Reference) : Chain :=
  { r.chain with aggregator := r.commands.foldl Aggregator.obey r.chain.aggregator }

theorem tick_silent (r : Reference) (silent : r.chain.analyzer.mailbox.ready = false) :
    r.tick = .ok
      ({ report := { answer := .ticked { consumed := false, calls := [], broken := false } } },
        { r with chain := r.commanded, commands := [] }) := by
  have quiet : r.commanded.tick = .ok (none, r.commanded) := Chain.tick_silent _ silent
  unfold commanded at quiet
  unfold tick
  simp only [quiet, Checked.ok_bind]
  rfl

theorem tick_reading (r : Reference) (reading : Reading) (chain : Chain)
    (read : r.commanded.tick = .ok (some reading, chain)) :
    r.tick = .ok
      ({ report := { answer := .ticked { consumed := true
                                         calls := (r.sink.acceptAll r.received reading.events).1
                                         broken := false } }
         posted := reading.events.map .ofLevel ++
           reading.meanFrequency.toList.map .meanFrequency },
        { r with chain, commands := [], received := r.received ++ reading.events }) := by
  unfold commanded at read
  unfold tick
  simp only [read, Checked.ok_bind]
  rfl

end Reference

/-- The sink never breaks. -/
def Sink.Whole (sink : Sink) : Prop :=
  ∀ received event, (sink.accept received event).isSome = true

theorem Sink.acceptAll_whole (sink : Sink) (whole : sink.Whole) (received events : List LevelEvent) :
    (sink.acceptAll received events).2 = (events, true) := by
  induction events generalizing received with
  | nil => rfl
  | cons event events ih =>
    obtain ⟨calls, accepted⟩ := Option.isSome_iff_exists.mp (whole received event)
    simp only [acceptAll, accepted, ih]

/-- Level and mean frequency events, as opposed to news of the pipeline itself. -/
def Event.measured : Event → Bool
  | .bandLevel .. | .meanFrequency .. => true
  | _ => false

theorem filter_measured (levels : List LevelEvent) (mean : Option UInt32) :
    (levels.map Event.ofLevel ++ mean.toList.map Event.meanFrequency).filter Event.measured =
      levels.map Event.ofLevel ++ mean.toList.map Event.meanFrequency := by
  apply List.filter_eq_self.mpr
  intro event member
  rcases List.mem_append.mp member with level | frequency
  · obtain ⟨own, _, rfl⟩ := List.mem_map.mp level
    rfl
  · obtain ⟨hz, _, rfl⟩ := List.mem_map.mp frequency
    rfl

theorem EventQueue.postAll_append (q : EventQueue) (first second : List Event) :
    (q.postAll first).postAll second = q.postAll (first ++ second) := List.foldl_append.symm

theorem Config.measured_lateness (c : Config) (elapsed : Nat) :
    (c.lateness elapsed).filter Event.measured = [] := by
  unfold lateness
  split
  · rfl
  · rfl

namespace Pipeline

/-- A pipeline in which the transform side follows every delivery, with a
producer, an aggregate side and a whole sink. -/
structure Flowing (p : Pipeline) : Prop where
  sound : p.Sound
  backlog : p.Backlog []
  running : p.running = true
  unheld : p.held = false
  producer : p.hasProducer = true
  aggregating : p.aggregating = true
  whole : p.sink.Whole

def reference (p : Pipeline) : Reference where
  chain :=
    { analyzer := p.analyzer
      aggregator := p.aggregator
      sampleRate := p.config.sampleRate
      frequencyFloorBin := p.config.frequencyFloorBin }
  sink := p.sink
  received := p.received
  commands := p.commands

/-- The analysis of a block that is queued and absorbed at once. -/
def passThrough (p : Pipeline) (block : List Sample) : Analysis × Pipeline :=
  (p.enlist block).absorb block

section
variable {p : Pipeline}

theorem Flowing.with_events (flowing : p.Flowing) (events : EventQueue) :
    Flowing { p with events } :=
  { flowing with sound := { flowing.sound with }, backlog := { flowing.backlog with } }

theorem deliver_drained (sound : p.Sound) (drained : p.Backlog [])
    (follows : p.running = true ∧ ¬ p.held = true) (producer : p.hasProducer = true)
    (samples : List Sample) :
    p.driverStep (.deliver samples) =
      if samples.take p.size = [] then .ok ({ answer := .accepted true }, p)
      else if p.analyzer.Unspent then
        .ok ({ answer := .accepted true, analyses := [(p.passThrough (samples.take p.size)).1] },
          (p.passThrough (samples.take p.size)).2)
      else .error .overflow := by
  have short : (samples.take p.size).length ≤ p.size := List.length_take_le _ _
  have nothing : p.samples.samples.length = 0 := by
    rw [drained.samples]
    rfl
  rw [driverStep_deliver, producer, if_pos rfl, offered_eq sound drained samples]
  generalize samples.take p.size = block at short ⊢
  by_cases empty : block = []
  · rw [if_pos empty, if_pos empty, afterOffer, advance, if_pos follows, drain,
      drained.lengths]
    rfl
  · have fits : ¬ 2 * p.size < p.samples.samples.length + block.length := by omega
    -- The queue was empty, so the drain finds this block and no other.
    have queued := enlist_backlog drained block empty short (by omega)
    have alone : (p.enlist block).lengths.items.length = 1 := by
      rw [queued.lengths]
      rfl
    have drained : (p.enlist block).advance = analyzeQueued 1 (p.enlist block) := by
      rw [advance, if_pos (by exact follows), drain, alone]
    rw [analyzeQueued_eq (enlist_sound sound block) queued] at drained
    rw [if_neg empty, if_neg empty, if_neg fits, afterOffer]
    simp only [drained]
    exact Checked.ite_bind p.analyzer.Unspent _ _ _

theorem aggregate_whole (whole : p.sink.Whole) (s : Spectrum) (levels : List LevelEvent)
    (aggregator : Aggregator) (mean : Option UInt32)
    (ticked : p.aggregator.tick s = .ok (levels, aggregator))
    (found : p.meanFrequency s = .ok mean) :
    p.aggregate s = .ok
      ({ consumed := true, calls := (p.sink.acceptAll p.received levels).1, broken := false },
        { p with
          aggregator
          received := p.received ++ levels
          counters := { p.counters with emitted := p.counters.emitted + levels.length }
          events := p.events.postAll
            (levels.map .ofLevel ++ mean.toList.map .meanFrequency) }) := by
  have all := p.sink.acceptAll_whole whole p.received levels
  have found (received : List LevelEvent) (events : EventQueue) :
      meanFrequency { p with aggregator, received, events } s = .ok mean := found
  unfold aggregate
  simp only [ticked, Checked.ok_bind, all, if_true, found, Checked.pure_eq,
    EventQueue.postAll_append]

/-- What a pipeline does for a feed is what the reference run does: either both
run out of block numbers, or they give the same report and the pipeline posts
the events of the reference, among news of its own. -/
def Refined (p : Pipeline) (feed : Feed) : Prop :=
  ((∀ events, perform { p with events } feed.step = .error .overflow) ∧
    p.reference.step Chain.analyzeBlock feed = .error .overflow) ∨
  ∃ (reply : Reply) (q : Pipeline) (log : List Event),
    p.reference.step Chain.analyzeBlock feed = .ok (reply, q.reference) ∧
    (∀ events, perform { p with events } feed.step =
      .ok (reply.report, { q with events := events.postAll log })) ∧
    log.filter Event.measured = reply.posted ∧ q.Flowing ∧ q.config = p.config

theorem delivery_refined (flowing : p.Flowing) (samples : List Sample) :
    p.Refined (.deliver samples) := by
  have size : p.reference.chain.analyzer.ring.blockSize = p.size :=
    flowing.sound.analyzer.ring.blockSize
  have intake := Chain.analyzeBlock_eq (c := p.reference.chain) flowing.sound.analyzer
    flowing.sound.idle samples
  have performed (events : EventQueue) :=
    deliver_drained (flowing.with_events events).sound (flowing.with_events events).backlog
      ⟨flowing.running, by simp [flowing.unheld]⟩ flowing.producer samples
  have short : (samples.take p.size).length ≤ p.size := List.length_take_le _ _
  by_cases empty : samples.take p.size = []
  · refine Or.inr ⟨⟨{ answer := .accepted true }, []⟩, p, [], ?_, ?_, rfl, flowing, rfl⟩
    · rw [Reference.step, Reference.deliver, size, if_pos empty]
    · intro events
      exact (performed events).trans (if_pos empty)
  · by_cases unspent : p.analyzer.Unspent
    · let after := p.passThrough (samples.take p.size)
      refine Or.inr ⟨⟨{ answer := .accepted true, analyses := [after.1] }, []⟩, after.2,
        p.config.lateness (p.latency p.counters.analyzed),
        ?_, ?_, p.config.measured_lateness _, ?_, rfl⟩
      · rw [Reference.step, Reference.deliver, size, if_neg empty, intake,
          if_pos (by exact unspent)]
        rfl
      · intro events
        exact (performed events).trans ((if_neg empty).trans (if_pos unspent))
      · have queued := enlist_backlog flowing.backlog _ empty short (by
          rw [flowing.backlog.samples]
          change 0 + (samples.take p.size).length ≤ _
          omega)
        have sound := enlist_sound flowing.sound (samples.take p.size)
        exact { flowing with
          sound := absorb_sound sound _ short unspent
          backlog := absorb_backlog _ queued }
    · refine Or.inl ⟨?_, ?_⟩
      · intro events
        exact (performed events).trans ((if_neg empty).trans (if_neg unspent))
      · rw [Reference.step, Reference.deliver, size, if_neg empty, intake,
          if_neg (by exact unspent)]
        rfl

theorem perform_host (flowing : p.Flowing) (s : HostStep) : p.perform (.host s) = p.hostStep s :=
  if_pos flowing.running

theorem Flowing.with_command (flowing : p.Flowing) (command : Command)
    (valid : ∀ tuning, command = .setTuning tuning → tuning.Valid) :
    Flowing { p with commands := p.commands ++ [command] } := by
  have sound := flowing.sound
  refine { flowing with
    sound := { sound with commands := ?_ }
    backlog := { flowing.backlog with } }
  intro tuning member
  rcases List.mem_append.mp member with earlier | last
  · exact sound.commands tuning earlier
  · exact valid tuning (List.mem_singleton.mp last).symm

theorem setTuning_refined (flowing : p.Flowing) (tuning : Tuning) :
    p.Refined (.setTuning tuning) := by
  have performed (events : EventQueue) :=
    perform_host (flowing.with_events events) (.setTuning tuning)
  cases checked : tuning.validate with
  | error error =>
    refine Or.inr ⟨⟨{ answer := .rejected (.setup error) }, []⟩, p, [], ?_, ?_, rfl, flowing, rfl⟩
    · simp only [Reference.step, checked]
    · intro events
      refine (performed events).trans ?_
      simp only [hostStep, sendTuning, checked]
      rfl
  | ok done =>
    refine Or.inr ⟨⟨{ answer := .done }, []⟩,
      { p with commands := p.commands ++ [.setTuning tuning] }, [], ?_, ?_, rfl, ?_, rfl⟩
    · simp only [Reference.step, checked]
      rfl
    · intro events
      refine (performed events).trans ?_
      have sent := send_there (p := { p with events }) flowing.running flowing.aggregating
        (.setTuning tuning)
      have tuned : sendTuning { p with events } tuning =
          send { p with events } (.setTuning tuning) := by
        unfold sendTuning
        rw [checked]
        rfl
      rw [hostStep, tuned, sent]
      rfl
    · apply flowing.with_command
      intro other same
      cases same
      exact checked

theorem resetHistory_refined (flowing : p.Flowing) : p.Refined .resetHistory := by
  refine Or.inr ⟨⟨{ answer := .done }, []⟩,
    { p with commands := p.commands ++ [.resetHistory] }, [], rfl, ?_, rfl,
    flowing.with_command _ (fun _ same => Command.noConfusion same), rfl⟩
  intro events
  refine (perform_host (flowing.with_events events) .resetHistory).trans ?_
  rw [hostStep, send_there (p := { p with events }) flowing.running flowing.aggregating]
  rfl

theorem perform_tick (flowing : p.Flowing) (events : EventQueue) :
    perform { p with events } (.host .tick) =
      tick { p with events } >>= fun ticked => pure ({ answer := .ticked ticked.1 }, ticked.2) := by
  rw [perform_host (flowing.with_events events), hostStep]
  exact if_pos flowing.aggregating

theorem tick_silent_refined (flowing : p.Flowing) (silent : p.analyzer.mailbox.ready = false) :
    p.Refined .tick := by
  have sound := flowing.sound
  have obedient := p.aggregator.obey_all_sound sound.aggregator p.commands
  refine Or.inr ⟨⟨{ answer := .ticked { consumed := false, calls := [], broken := false } }, []⟩,
    { p with commands := [], aggregator := p.commands.foldl Aggregator.obey p.aggregator }, [],
    ?_, ?_, rfl, ?_, rfl⟩
  · exact p.reference.tick_silent silent
  · intro events
    refine (perform_tick flowing events).trans ?_
    rw [tick_eq { p with events } (flowing.with_events events).sound, if_neg (by simp [silent]),
      applyCommands_eq { p with events } sound.commands]
    rfl
  · exact { flowing with
      sound := { sound with aggregator := obedient, commands := by simp }
      backlog := { flowing.backlog with } }

theorem tick_waiting_refined (flowing : p.Flowing) (waiting : p.analyzer.mailbox.ready = true) :
    p.Refined .tick := by
  have sound := flowing.sound
  have small := sound.small
  have obedient := p.aggregator.obey_all_sound sound.aggregator p.commands
  obtain ⟨levels, aggregator, judged, kept⟩ :=
    (p.commands.foldl Aggregator.obey p.aggregator).tick_success obedient p.analyzer.mailbox.slot
      (p.size / 2) sound.analyzer.mailbox.slot (by omega)
  obtain ⟨mean, found⟩ := p.meanFrequency_success p.analyzer.mailbox.slot (by
    change p.analyzer.mailbox.slot.bins.length < _
    rw [sound.analyzer.mailbox.slot.length_eq]
    omega)
  have read := p.reference.commanded.tick_waiting waiting levels aggregator mean judged found
  refine Or.inr ⟨_, { p.collected with
    commands := []
    aggregator
    received := p.received ++ levels
    counters := { p.counters with
      consumed := p.counters.consumed + 1
      emitted := p.counters.emitted + levels.length } }, _,
    p.reference.tick_reading _ _ read, ?_, filter_measured levels mean, ?_, rfl⟩
  · intro events
    refine (perform_tick flowing events).trans ?_
    have all := aggregate_whole (p := collected { p with
      events, commands := [], aggregator := p.commands.foldl Aggregator.obey p.aggregator })
      flowing.whole p.analyzer.mailbox.slot levels aggregator mean judged found
    rw [tick_eq { p with events } (flowing.with_events events).sound, if_pos waiting,
      applyCommands_eq { p with events } sound.commands, all]
    rfl
  · exact { flowing with
      sound := { collected_sound p sound with aggregator := kept, commands := by simp }
      backlog := { flowing.backlog with } }

theorem feed_refined (flowing : p.Flowing) (feed : Feed) : p.Refined feed := by
  cases feed with
  | deliver samples => exact delivery_refined flowing samples
  | deliverBytes bytes =>
    have refined := delivery_refined flowing (Sample.decode bytes)
    simpa only [Refined, Feed.step, Reference.step, perform_deliverBytes] using refined
  | setTuning tuning => exact setTuning_refined flowing tuning
  | resetHistory => exact resetHistory_refined flowing
  | tick =>
    cases ready : p.analyzer.mailbox.ready with
    | false => exact tick_silent_refined flowing ready
    | true => exact tick_waiting_refined flowing ready

theorem feeds_refined (flowing : p.Flowing) (feeds : List Feed) :
    ((∀ events, trace { p with events } (feeds.map (.step ·.step)) = .error .overflow) ∧
      p.reference.trace Chain.analyzeBlock feeds = .error .overflow) ∨
    ∃ (replies : List Reply) (q : Pipeline) (logs : List (List Event)),
      p.reference.trace Chain.analyzeBlock feeds = .ok (replies, q.reference) ∧
      (∀ events, trace { p with events } (feeds.map (.step ·.step)) =
        .ok (replies.map (·.report), { q with events := events.postAll logs.flatten })) ∧
      logs.map (·.filter Event.measured) = replies.map (·.posted) ∧ q.Flowing := by
  induction feeds generalizing p with
  | nil => exact .inr ⟨[], p, [], rfl, fun _ => rfl, rfl, flowing⟩
  | cons feed feeds ih =>
    rcases feed_refined flowing feed with
      ⟨failed, spent⟩ | ⟨reply, q, log, replied, stepped, posted, next, _⟩
    · exact .inl ⟨
        fun events => Checked.trace_cons_error act _ (.step feed.step) _ _ (failed events),
        Checked.trace_cons_error _ _ _ _ _ spent⟩
    · have first (events : EventQueue) :=
        trace_act _ _ (feeds.map (.step ·.step)) (.step feed.step) _ (stepped events)
      have answered := Reference.trace_step _ _ _ feed feeds _ replied
      -- The queue that the rest of the run posts to already has this feed's events.
      rcases ih next with ⟨failed, spent⟩ | ⟨replies, r, logs, rest, ran, others, last⟩
      · refine .inl ⟨?_, ?_⟩
        · intro events
          rw [List.map_cons, first events, failed]
          rfl
        · rw [answered, spent]
          rfl
      · refine .inr ⟨reply :: replies, r, log :: logs, ?_, ?_, ?_, last⟩
        · rw [answered, rest]
          rfl
        · intro events
          rw [List.map_cons, first events, ran, EventQueue.postAll_append]
          rfl
        · rw [List.map_cons, List.map_cons, posted, others]

theorem push_step (flowing : p.Flowing) (feed : Feed) (whole : feed.Whole p.size) :
    p.reference.step Chain.push feed = p.reference.step Chain.analyzeBlock feed := by
  have same (samples : List Sample) (full : samples.length = p.size) :
      p.reference.deliver Chain.push samples = p.reference.deliver Chain.analyzeBlock samples := by
    by_cases empty : samples = []
    · rw [empty, Reference.deliver, Reference.deliver, List.take_nil, if_pos rfl, if_pos rfl]
    · rw [Reference.deliver, Reference.deliver, Chain.push_eq_analyzeBlock (c := p.reference.chain)
        flowing.sound.analyzer flowing.sound.idle samples full empty]
  cases feed with
  | deliver samples => exact same samples whole
  | deliverBytes bytes => exact same (Sample.decode bytes) whole
  | _ => rfl

theorem push_feeds (flowing : p.Flowing) (feeds : List Feed)
    (whole : ∀ feed ∈ feeds, feed.Whole p.size) :
    p.reference.trace Chain.push feeds = p.reference.trace Chain.analyzeBlock feeds := by
  induction feeds generalizing p with
  | nil => rfl
  | cons feed feeds ih =>
    have first := push_step flowing feed (whole feed (by simp))
    rcases feed_refined flowing feed with ⟨_, spent⟩ | ⟨reply, q, log, replied, _, _, next, config⟩
    · exact (Checked.trace_cons_error _ _ _ _ _ (first.trans spent)).trans
        (Checked.trace_cons_error _ _ _ _ _ spent).symm
    · have rest := ih next (fun other member => by
        rw [Pipeline.size, config]
        exact whole other (by simp [member]))
      rw [Reference.trace_step _ _ _ _ _ _ (first.trans replied),
        Reference.trace_step _ _ _ _ _ _ replied, rest]

theorem start_flowing {config : Config} {sink : Sink} {latency : Nat → Nat}
    (started : start config sink latency false = .ok p) (whole : sink.Whole) : p.Flowing := by
  have fresh := start_fresh started
  obtain ⟨analyzer, aggregator, -, rfl⟩ := start_success started
  exact ⟨fresh.sound, fresh.backlog, rfl, rfl, rfl, rfl, whole⟩

theorem start_reference {config : Config} {sink : Sink} {latency : Nat → Nat} {held : Bool}
    (started : start config sink latency held = .ok p) :
    ∃ chain, Chain.configure config = .ok chain ∧ p.reference = ⟨chain, sink, [], []⟩ := by
  obtain ⟨analyzer, aggregator, configured, rfl⟩ := start_success started
  obtain ⟨first, second⟩ := configure_success config analyzer aggregator configured
  have length : analyzer.transform.spectrumLength = config.spectrumLength := by
    have size := (Analyzer.configure_sound _ analyzer first).1.blockSize
    rw [Transform.spectrumLength, size, Config.spectrumLength]
  rw [length] at second
  refine ⟨_, ?_, rfl⟩
  unfold Chain.configure
  rw [first]
  change (Aggregator.configure config.bands config.spectrumLength config.tuning >>= _) = _
  rw [second]
  rfl

end

/-- Unless the block numbers run out, a pipeline that is not held back reports
what the reference run reports and posts its level and mean frequency events,
feed by feed and whatever queue the events go to. A tick that finds no spectrum
follows the commands and does nothing else, and blocks of exactly the block size
may as well be streamed into the reference. -/
theorem refines_chain {config : Config} {sink : Sink} {latency : Nat → Nat} {p : Pipeline}
    (started : start config sink latency false = .ok p) (whole : sink.Whole) (feeds : List Feed) :
    ∃ chain, Chain.configure config = .ok chain ∧
      ((p.Exhausts (feeds.map (.step ·.step)) ∧
          p.trace (feeds.map (.step ·.step)) = .error .overflow ∧
          Reference.trace Chain.analyzeBlock ⟨chain, sink, [], []⟩ feeds = .error .overflow) ∨
        ∃ (replies : List Reply) (r : Reference) (q : Pipeline) (logs : List (List Event)),
          Reference.trace Chain.analyzeBlock ⟨chain, sink, [], []⟩ feeds = .ok (replies, r) ∧
          (∀ events, trace { p with events } (feeds.map (.step ·.step)) =
            .ok (replies.map (·.report), { q with events := events.postAll logs.flatten })) ∧
          logs.map (·.filter Event.measured) = replies.map (·.posted) ∧
          (q.analyzer.mailbox.ready = false → ∀ events, tick { q with events } =
            .ok ({ consumed := false, calls := [], broken := false },
              { q with events, commands := []
                       aggregator := q.commands.foldl Aggregator.obey q.aggregator }))) ∧
      ((∀ feed ∈ feeds, feed.Whole config.blockSize.toNat) →
        Reference.trace Chain.push ⟨chain, sink, [], []⟩ feeds =
          Reference.trace Chain.analyzeBlock ⟨chain, sink, [], []⟩ feeds) := by
  have flowing := start_flowing started whole
  obtain ⟨chain, configured, initial⟩ := start_reference started
  have size : p.size = config.blockSize.toNat := by
    obtain ⟨_, _, _, rfl⟩ := start_success started
    rfl
  refine ⟨chain, configured, ?_, ?_⟩
  · rw [← initial]
    rcases feeds_refined flowing feeds with
      ⟨failed, spent⟩ | ⟨replies, q, logs, replied, ran, posted, last⟩
    · have fault : p.trace (feeds.map (.step ·.step)) = .error .overflow := failed p.events
      rcases trace_complete (start_fresh started) (feeds.map (.step ·.step)) with
        exhausts | ⟨reports, q, ran⟩
      · exact .inl ⟨exhausts, fault, spent⟩
      · rw [fault] at ran
        cases ran
    · refine .inr ⟨replies, q.reference, q, logs, replied, ran, posted, ?_⟩
      intro silent events
      rw [tick_eq { q with events } (last.with_events events).sound, if_neg (by simp [silent]),
        applyCommands_eq { q with events } last.sound.commands]
  · intro full
    rw [← initial]
    rw [← size] at full
    exact push_feeds flowing feeds full

theorem chord_refines_chain : ∃ (p : Pipeline) (chain : Chain) (replies : List Reply)
    (r : Reference) (q : Pipeline) (logs : List (List Event)),
    start twoBands .log (fun _ => 0) false = .ok p ∧ Chain.configure twoBands = .ok chain ∧
    Reference.trace Chain.analyzeBlock ⟨chain, .log, [], []⟩ [.deliver chord, .tick] =
      .ok (replies, r) ∧
    p.trace [.step (.driver (.deliver chord)), .step (.host .tick)] =
      .ok (replies.map (·.report), { q with events := p.events.postAll logs.flatten }) ∧
    (replies.map (·.report)).map (·.answer) =
      [.accepted true, .ticked ⟨true, [.level ⟨0, 255⟩, .level ⟨1, 222⟩], false⟩] ∧
    (p.events.postAll logs.flatten).queue.items = [.bandLevel 0 255] ∧
    (p.events.postAll logs.flatten).dropped = 2 := by
  obtain ⟨p, started⟩ : ∃ p, start twoBands .log (fun _ => 0) false = .ok p := ⟨_, rfl⟩
  obtain ⟨chain, configured, refined, -⟩ :=
    refines_chain started (fun _ _ => rfl) [.deliver chord, .tick]
  rcases refined with ⟨exhausts, -⟩ | ⟨replies, r, q, logs, replied, ran, -⟩
  · exact absurd exhausts (not_exhausts_of_length (start_fresh started) _ (by decide))
  have ran := ran p.events
  refine ⟨p, chain, replies, r, q, logs, started, configured, replied, ran, ?_, ?_, ?_⟩
  · refine eq_of_evaluated (·.trace _) (·.1.map (·.answer)) started ran ?_
    decide +kernel
  · exact eq_of_evaluated (·.trace _) (·.2.events.queue.items) started ran (by decide +kernel)
  · exact eq_of_evaluated (·.trace _) (·.2.events.dropped) started ran (by decide +kernel)

end Pipeline

end BandLight
