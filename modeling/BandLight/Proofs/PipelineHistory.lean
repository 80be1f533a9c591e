import BandLight.Proofs.PipelineRuns

/-! The history of a run. In every run of a started pipeline the accepted
blocks are the analysed ones followed by those that still wait, and a run comes
to its end unless it asks for more analyses than there are block numbers. -/
namespace BandLight

theorem validateBlockSize_le (size : Nat) (ok : validateBlockSize size = .ok ()) : size ≤ 8192 := by
  unfold validateBlockSize at ok
  split at ok
  · next supported => exact supported.2.1
  · cases ok

namespace Pipeline

structure Fresh (p : Pipeline) : Prop where
  sound : p.Sound
  backlog : p.Backlog []
  counted : p.analyzer.blocksAnalyzed = 0
  attended : p.events.attended = p.running

theorem configure_success (config : Config) (a : Analyzer) (g : Aggregator)
    (ok : configure config = .ok (a, g)) :
    Analyzer.configure config.blockSize.toNat = .ok a ∧
      Aggregator.configure config.bands a.transform.spectrumLength config.tuning = .ok g := by
  unfold configure at ok
  cases validated : config.validate with
  | error e => rw [validated] at ok; cases ok
  | ok valid =>
    rw [validated] at ok
    cases first : Analyzer.configure config.blockSize.toNat with
    | error e => rw [first] at ok; cases ok
    | ok analyzer =>
      rw [first] at ok
      change (((Aggregator.configure config.bands analyzer.transform.spectrumLength
        config.tuning).mapError PipelineError.setup) >>= fun g => pure (analyzer, g)) = _ at ok
      cases second : Aggregator.configure config.bands analyzer.transform.spectrumLength
          config.tuning with
      | error e => rw [second] at ok; cases ok
      | ok aggregator =>
        rw [second] at ok
        cases ok
        exact ⟨rfl, second⟩

section
variable {config : Config} {sink : Sink} {latency : Nat → Nat} {held : Bool} {p : Pipeline}

theorem start_success (started : start config sink latency held = .ok p) :
    ∃ analyzer aggregator, configure config = .ok (analyzer, aggregator) ∧
      p = { config, sink, latency, analyzer, aggregator, held
            samples := .empty (2 * config.blockSize.toNat)
            lengths := .empty (2 * config.blockSize.toNat)
            received := []
            commands := []
            events := .empty config.eventQueueCapacity.toNat
            counters := {}
            hasProducer := true
            aggregating := true
            running := true } := by
  unfold start at started
  cases configured : configure config with
  | error e => rw [configured] at started; cases started
  | ok parts =>
    rw [configured] at started
    cases started
    exact ⟨parts.1, parts.2, rfl, rfl⟩

/-- What is shown of a run from the start can be evaluated. -/
theorem eq_of_evaluated {α β : Type} {outcome : α} (run : Pipeline → Checked α) (shown : α → β)
    {value : β} (started : start config sink latency held = .ok p) (ran : run p = .ok outcome)
    (evaluated : ((start config sink latency held).toOption.bind fun p =>
      (run p).toOption.map shown) = some value) : shown outcome = value := by
  rw [started] at evaluated
  simpa [Except.toOption, ran] using evaluated

theorem start_fresh (started : start config sink latency held = .ok p) : p.Fresh := by
  obtain ⟨analyzer, aggregator, configured, rfl⟩ := start_success started
  obtain ⟨first, second⟩ := configure_success config analyzer aggregator configured
  obtain ⟨sound, idle, counted⟩ := Analyzer.configure_sound _ analyzer first
  have small := validateBlockSize_le _ (Analyzer.configure_success _ analyzer first).1
  refine ⟨⟨small, sound, idle, ?_, Aggregator.configure_sound _ _ _ aggregator second, ?_, rfl,
    rfl⟩, ⟨rfl, rfl, ?_, ?_, ?_⟩, counted, rfl⟩
  · change analyzer.blocksAnalyzed < _
    rw [counted]
    decide
  · intro tuning member
    cases member
  · intro block member
    cases member
  · intro block member
    cases member
  · exact Nat.zero_le _

end

theorem length_taken_le (size : Nat) (action : Action) (report : Report) :
    (action.taken size report).length ≤ 1 := by
  unfold Action.taken
  split
  · exact Nat.le_refl _
  · exact Nat.zero_le _

theorem length_accepted_le (size : Nat) (actions : List Action) (reports : List Report) :
    (accepted size actions reports).length ≤ actions.length := by
  induction actions generalizing reports with
  | nil => exact Nat.le_refl _
  | cons action actions ih =>
    cases reports with
    | nil => exact Nat.zero_le _
    | cons report reports =>
      have first := length_taken_le size action report
      have others := ih reports
      have whole : accepted size (action :: actions) (report :: reports) =
          action.taken size report ++ accepted size actions reports := by
        simp only [accepted, List.zip_cons_cons, List.flatMap_cons]
      rw [whole, List.length_append, List.length_cons]
      omega

section
variable {p : Pipeline} {blocks : List (List Sample)}

theorem flow_le (backlog : p.Backlog blocks) : p.flow ≤ blocks.length := by
  rw [flow_eq backlog]
  split
  · exact Nat.le_refl _
  · exact Nat.zero_le _

theorem flow_offer_le (sound : p.Sound) (backlog : p.Backlog blocks) (samples : List Sample) :
    (if p.hasProducer then (p.offered samples).2.flow else 0) ≤ blocks.length + 1 := by
  obtain ⟨rest, _, queued, _, order⟩ := offer_spec sound backlog samples
  have longest := flow_le queued
  rw [← order, List.length_append] at longest
  have single : (if (p.offered samples).1 = true ∧ samples.take p.size ≠ [] then
      [samples.take p.size] else []).length ≤ 1 := by
    split
    · exact Nat.le_refl _
    · exact Nat.zero_le _
  split
  · omega
  · omega

theorem due_le (sound : p.Sound) (backlog : p.Backlog blocks) (action : Action) :
    p.due action ≤ blocks.length + 1 := by
  have flushed : { p with held := false }.flow ≤ blocks.length :=
    flow_le { backlog with }
  have queued := backlog.length_lengths
  cases action with
  | queue samples => exact Nat.zero_le _
  | queueBytes bytes => exact Nat.zero_le _
  | analyze count =>
    rw [due, queued]
    split
    · omega
    · omega
  | step s =>
    cases s with
    | driver s =>
      cases s with
      | deliver samples => exact flow_offer_le sound backlog samples
      | deliverBytes bytes =>
        rw [due, offerBytes_eq]
        exact flow_offer_le sound backlog (Sample.decode bytes)
      | dropProducer => exact Nat.le_succ_of_le flushed
      | askConnected => exact Nat.zero_le _
    | host s =>
      cases s with
      | release => exact Nat.le_succ_of_le flushed
      | shutdown => exact Nat.le_succ_of_le flushed
      | _ => exact Nat.zero_le _

end

structure History (p : Pipeline) (actions : List Action) (reports : List Report) (q : Pipeline)
    (blocks : List (List Sample)) : Prop where
  sound : q.Sound
  backlog : q.Backlog blocks
  config : q.config = p.config
  order : accepted p.size actions reports = analysed reports ++ blocks
  counted : q.analyzer.blocksAnalyzed = (analysed reports).length
  running : q.running = true ↔ p.running = true ∧ .step (.host .shutdown) ∉ actions
  attended : q.events.attended = q.running
  settled : (∀ action ∈ actions, ∃ s, action = .step s) → q.flow = 0

theorem accepted_append (size : Nat) (first second : List Action) (reports others : List Report)
    (same : reports.length = first.length) :
    accepted size (first ++ second) (reports ++ others) =
      accepted size first reports ++ accepted size second others := by
  rw [accepted, List.zip_append same.symm, List.flatMap_append]
  rfl

theorem analysed_append (reports others : List Report) :
    analysed (reports ++ others) = analysed reports ++ analysed others := List.flatMap_append

section
variable {p : Pipeline}

theorem trace_history (fresh : p.Fresh) (actions : List Action) (reports : List Report)
    (q : Pipeline) (ran : p.trace actions = .ok (reports, q)) :
    ∃ blocks, History p actions reports q blocks := by
  refine Checked.trace_induction act
    (fun actions reports q => ∃ blocks, History p actions reports q blocks) p
    ⟨[], fresh.sound, fresh.backlog, rfl, rfl, fresh.counted, by simp, fresh.attended, fun _ => ?_⟩
    ?_ actions reports q ran
  · rw [flow_eq fresh.backlog, List.length_nil, ite_self]
  -- The action's analyses come off the front of the queue, its own block goes to the end.
  intro actions reports q action report r ran ⟨blocks, history⟩ acted
  obtain ⟨rest, stepped⟩ := stepped_of_act history.sound history.backlog action report r acted
  have size : q.size = p.size := congrArg (·.blockSize.toNat) history.config
  have single : accepted p.size [action] [report] = action.taken p.size report := by
    simp [accepted]
  have last : analysed [report] = report.analyses.map (·.block) := by
    simp [analysed]
  refine ⟨rest, stepped.sound, stepped.backlog, stepped.config.trans history.config, ?_, ?_, ?_,
    stepped.going.attended history.attended, ?_⟩
  · rw [accepted_append _ _ _ _ _ (Checked.length_trace _ _ _ _ _ ran), single, history.order,
      analysed_append, last, List.append_assoc, List.append_assoc, ← stepped.order, size]
  · rw [stepped.counted, history.counted, analysed_append, last, List.length_append,
      List.length_map]
  · rw [stepped.going.running, history.running, List.mem_append, List.mem_singleton, not_or,
      and_assoc, ne_comm]
  · intro steps
    obtain ⟨s, same⟩ := steps action (by simp)
    have earlier := history.settled fun earlier member => steps earlier (by simp [member])
    exact stepped.settled s same earlier

theorem Exhausts.append {actions : List Action} (exhausts : p.Exhausts actions)
    (others : List Action) : p.Exhausts (actions ++ others) := by
  obtain ⟨before, action, after, reports, q, rfl, ran, spent⟩ := exhausts
  exact ⟨before, action, after ++ others, reports, q, by simp, ran, spent⟩

theorem trace_complete (fresh : p.Fresh) (actions : List Action) :
    p.Exhausts actions ∨ ∃ reports q, p.trace actions = .ok (reports, q) := by
  induction actions using List.reverseRecOn with
  | nil => exact .inr ⟨[], p, rfl⟩
  | append_singleton actions action ih =>
    rcases ih with exhausts | ⟨reports, q, ran⟩
    · exact .inl (exhausts.append [action])
    · obtain ⟨blocks, history⟩ := trace_history fresh actions reports q ran
      by_cases unspent : q.analyzer.blocksAnalyzed + q.due action < UInt64.size
      · obtain ⟨report, r, rest, acted, _⟩ :=
          act_stepped history.sound history.backlog action unspent
        have whole := Checked.trace_snoc_success act p actions action reports q report r ran acted
        exact .inr ⟨_, r, whole⟩
      · rw [history.counted] at unspent
        exact .inl ⟨actions, action, [], reports, q, rfl, ran, Nat.not_lt.mp unspent⟩

theorem not_exhausts_of_length (fresh : p.Fresh) (actions : List Action)
    (few : actions.length < UInt64.size) : ¬ p.Exhausts actions := by
  intro ⟨before, action, after, reports, q, same, ran, spent⟩
  obtain ⟨waiting, history⟩ := trace_history fresh before reports q ran
  have taken := length_accepted_le p.size before reports
  have last := due_le history.sound history.backlog action
  rw [history.order, List.length_append] at taken
  rw [same, List.length_append, List.length_cons] at few
  omega

end

/-- Two bands of the smallest block, and room for a single event. -/
def twoBands : Config :=
  { Config.standard with
    blockSize := 32, bands := [⟨0, 7, 0⟩, ⟨8, 15, 0⟩], frequencyFloorBin := some 1
    eventQueueCapacity := 1 }

/-- A block that is loud in both bands. -/
def chord : List Sample := (List.replicate 8 [16000, 8000, 0, 8000]).flatten

end Pipeline

end BandLight
