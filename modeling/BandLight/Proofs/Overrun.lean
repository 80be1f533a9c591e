import BandLight.Proofs.PipelineHistory

/-! Refused deliveries. A block is refused exactly when its samples do not fit
behind those that are queued, and a refusal shows in the waiting events and in
its own count only: whatever the parties do next, they find the same queues and
make the same analyses as without it. -/
namespace BandLight

namespace Pipeline

/-- Two pipelines that differ in the waiting events and the count of refusals only. -/
def Alike (p q : Pipeline) : Prop :=
  ∃ events overruns, q = { p with events, counters := { p.counters with overruns } }

/-- The same result, and pipelines that are alike. -/
def Continues {α : Type} (x y : α × Pipeline) : Prop := x.1 = y.1 ∧ x.2.Alike y.2

/-- The same analyses, whatever else is reported, and pipelines that are alike. -/
def Repeats (x y : Report × Pipeline) : Prop := x.1.analyses = y.1.analyses ∧ x.2.Alike y.2

/-- An answer without what the host reads out of the waiting events and the counts. -/
def Answer.essence : Answer → Answer
  | event _ => event none
  | events _ => events []
  | count _ => count 0
  | statistics _ running => statistics default running
  | finished tick _ _ => finished tick default []
  | answer => answer

def Agrees (x y : Report × Pipeline) : Prop :=
  x.1.answer.essence = y.1.answer.essence ∧ Repeats x y

section
variable {p q : Pipeline}

theorem checkDeadline_alike (alike : p.Alike q) (elapsed : Nat) :
    Checked.Matched Alike (p.checkDeadline elapsed) (q.checkDeadline elapsed) := by
  obtain ⟨events, overruns, rfl⟩ := alike
  refine (Checked.matched_self p.config.blockPeriod).bind _ _ ?_
  rintro budget _ rfl
  by_cases within : elapsed ≤ budget
  · rw [if_pos within, if_pos within]
    exact ⟨events, overruns, rfl⟩
  · rw [if_neg within, if_neg within]
    exact ⟨_, overruns, rfl⟩

theorem analyzeNext_alike (alike : p.Alike q) :
    Checked.Matched (Option.Rel Continues) p.analyzeNext q.analyzeNext := by
  obtain ⟨events, overruns, rfl⟩ := alike
  unfold analyzeNext
  dsimp only
  cases p.lengths.items with
  | nil => exact .none
  | cons length rest =>
    dsimp only
    cases p.samples.peek? length with
    | none => exact .none
    | some pieces =>
      refine (Checked.matched_self (p.analyzer.ring.fill pieces.1)).bind _ _ ?_
      rintro half _ rfl
      refine (Checked.matched_self (half.2.fill pieces.2)).bind _ _ ?_
      rintro full _ rfl
      let loaded : Analyzer := { p.analyzer with ring := full.2 }
      refine (Checked.matched_self (loaded.release _)).bind _ _ ?_
      rintro ⟨analysis, analyzer⟩ _ rfl
      cases analysis with
      | none => exact .some ⟨rfl, events, overruns, rfl⟩
      | some analysis =>
        refine (checkDeadline_alike ⟨events, overruns, rfl⟩ _).bind _ _ ?_
        intro r s later
        exact .some ⟨rfl, later⟩

theorem analyzeQueued_alike (alike : p.Alike q) (count : Nat) :
    Checked.Matched Continues (analyzeQueued count p) (analyzeQueued count q) := by
  induction count generalizing p q with
  | zero => exact ⟨rfl, alike⟩
  | succ count ih =>
    refine (analyzeNext_alike alike).bind _ _ ?_
    rintro first second (⟨same, later⟩ | _)
    · refine (ih later).bind _ _ ?_
      intro rest others continues
      exact ⟨by rw [same, continues.1], continues.2⟩
    · exact ⟨rfl, alike⟩

theorem advance_alike (alike : p.Alike q) : Checked.Matched Continues p.advance q.advance := by
  have queued := analyzeQueued_alike alike p.lengths.items.length
  obtain ⟨events, overruns, rfl⟩ := alike
  unfold advance
  by_cases flowing : p.running ∧ ¬ p.held
  · rw [if_pos flowing, if_pos flowing]
    exact queued
  · rw [if_neg flowing, if_neg flowing]
    exact ⟨rfl, events, overruns, rfl⟩

theorem release_alike (alike : p.Alike q) : Checked.Matched Continues p.release q.release := by
  obtain ⟨events, overruns, rfl⟩ := alike
  exact advance_alike ⟨events, overruns, rfl⟩

theorem enqueue_alike (alike : p.Alike q) (count : Nat) (samples : List Sample) :
    Continues (p.enqueue count samples) (q.enqueue count samples) := by
  obtain ⟨events, overruns, rfl⟩ := alike
  unfold enqueue
  dsimp only
  split
  · exact ⟨rfl, events, overruns, rfl⟩
  · split
    · exact ⟨rfl, _, _, rfl⟩
    · split
      · exact ⟨rfl, _, _, rfl⟩
      · exact ⟨rfl, events, overruns, rfl⟩

theorem offer_alike (alike : p.Alike q) (samples : List Sample) :
    Continues (p.offered samples) (q.offered samples) := by
  have same : q.config = p.config := by
    obtain ⟨events, overruns, rfl⟩ := alike
    rfl
  unfold offered size
  rw [same]
  exact enqueue_alike alike _ _

theorem applyCommand_alike (alike : p.Alike q) (command : Command) :
    (p.applyCommand command).Alike (q.applyCommand command) := by
  obtain ⟨events, overruns, rfl⟩ := alike
  cases command with
  | resetHistory => exact ⟨events, overruns, rfl⟩
  | setTuning tuning =>
    simp only [applyCommand]
    cases p.aggregator.setTuning tuning with
    | ok aggregator => exact ⟨events, overruns, rfl⟩
    | error error => exact ⟨_, overruns, rfl⟩

theorem applyCommands_alike (alike : p.Alike q) : p.applyCommands.Alike q.applyCommands := by
  have each (commands : List Command) (r s : Pipeline) (same : r.Alike s) :
      (commands.foldl applyCommand r).Alike (commands.foldl applyCommand s) := by
    induction commands generalizing r s with
    | nil => exact same
    | cons command commands ih => exact ih _ _ (applyCommand_alike same command)
  obtain ⟨events, overruns, rfl⟩ := alike
  exact each p.commands _ _ ⟨events, overruns, rfl⟩

theorem aggregate_alike (alike : p.Alike q) (s : Spectrum) :
    Checked.Matched Continues (p.aggregate s) (q.aggregate s) := by
  obtain ⟨events, overruns, rfl⟩ := alike
  refine (Checked.matched_self (p.aggregator.tick s)).bind _ _ ?_
  rintro ⟨levels, aggregator⟩ _ rfl
  dsimp only
  split
  · refine (Checked.matched_self (p.meanFrequency s)).bind _ _ ?_
    rintro mean _ rfl
    exact ⟨rfl, _, overruns, rfl⟩
  · exact ⟨rfl, _, overruns, rfl⟩

theorem tick_alike (alike : p.Alike q) : Checked.Matched Continues p.tick q.tick := by
  unfold tick
  generalize p.applyCommands = r, q.applyCommands = s, applyCommands_alike alike = later
  obtain ⟨events, overruns, rfl⟩ := later
  refine (Checked.matched_self (r.analyzer.mailbox.collectInto ⟨[]⟩)).bind _ _ ?_
  rintro ⟨claimed, spectrum, mailbox⟩ _ rfl
  dsimp only
  split
  · exact aggregate_alike ⟨events, overruns, rfl⟩ _
  · exact ⟨rfl, events, overruns, rfl⟩

theorem stop_alike (alike : p.Alike q) : p.stop.2.2.Alike q.stop.2.2 := by
  obtain ⟨events, overruns, rfl⟩ := alike
  unfold stop
  dsimp only
  split
  · exact ⟨_, overruns, rfl⟩
  · exact ⟨_, overruns, rfl⟩

theorem afterOffer_alike (offered other : Bool × Pipeline) (same : Continues offered other) :
    Checked.Matched Agrees (afterOffer offered) (afterOffer other) := by
  refine (advance_alike same.2).bind _ _ ?_
  intro x y continues
  exact ⟨congrArg Answer.accepted same.1, continues⟩

theorem shutdown_alike (alike : p.Alike q) : Checked.Matched Agrees p.shutdown q.shutdown := by
  refine (release_alike alike).bind _ _ ?_
  rintro ⟨analyses, r⟩ ⟨_, s⟩ ⟨rfl, later⟩
  dsimp only
  have same : s.aggregating = r.aggregating := by
    obtain ⟨events, overruns, rfl⟩ := later
    rfl
  rw [same]
  split
  · refine (tick_alike later).bind _ _ ?_
    rintro ⟨tick, r⟩ ⟨_, s⟩ ⟨rfl, ticked⟩
    exact ⟨rfl, rfl, stop_alike ticked⟩
  · exact ⟨rfl, rfl, stop_alike later⟩

theorem answerSend_alike (alike : p.Alike q) (command : Command) :
    Agrees (p.answerSend (p.send command)) (q.answerSend (q.send command)) := by
  obtain ⟨events, overruns, rfl⟩ := alike
  unfold send
  dsimp only
  split
  · exact ⟨rfl, rfl, events, overruns, rfl⟩
  · split
    · exact ⟨rfl, rfl, events, overruns, rfl⟩
    · exact ⟨rfl, rfl, events, overruns, rfl⟩

theorem hostStep_alike (alike : p.Alike q) (s : HostStep) :
    Checked.Matched Agrees (p.hostStep s) (q.hostStep s) := by
  cases s with
  | release =>
    refine (release_alike alike).bind _ _ ?_
    intro x y continues
    exact ⟨rfl, continues⟩
  | tick =>
    have same : q.aggregating = p.aggregating := by
      obtain ⟨events, overruns, rfl⟩ := alike
      rfl
    rw [hostStep, hostStep, same]
    split
    · refine (tick_alike alike).bind _ _ ?_
      intro x y continues
      exact ⟨congrArg Answer.ticked continues.1, rfl, continues.2⟩
    · exact ⟨rfl, rfl, alike⟩
  | setTuning tuning =>
    change Agrees (p.answerSend (p.sendTuning tuning)) (q.answerSend (q.sendTuning tuning))
    unfold sendTuning
    cases tuning.validate with
    | error e => exact ⟨rfl, rfl, alike⟩
    | ok valid => exact answerSend_alike alike _
  | resetHistory => exact answerSend_alike alike _
  | poll =>
    obtain ⟨events, overruns, rfl⟩ := alike
    exact ⟨rfl, rfl, _, overruns, rfl⟩
  | drainEvents =>
    obtain ⟨events, overruns, rfl⟩ := alike
    exact ⟨rfl, rfl, _, overruns, rfl⟩
  | countEvents => exact ⟨rfl, rfl, alike⟩
  | askStats =>
    obtain ⟨events, overruns, rfl⟩ := alike
    exact ⟨rfl, rfl, events, overruns, rfl⟩
  | shutdown => exact shutdown_alike alike

theorem driverStep_alike (alike : p.Alike q) (s : DriverStep) :
    Checked.Matched Agrees (p.driverStep s) (q.driverStep s) := by
  have same : q.hasProducer = p.hasProducer := by
    obtain ⟨events, overruns, rfl⟩ := alike
    rfl
  cases s with
  | deliver samples =>
    rw [driverStep_deliver, driverStep_deliver, same]
    split
    · exact afterOffer_alike _ _ (offer_alike alike samples)
    · exact ⟨rfl, rfl, alike⟩
  | deliverBytes bytes =>
    rw [driverStep, driverStep, same, offerBytes_eq, offerBytes_eq]
    split
    · exact afterOffer_alike _ _ (offer_alike alike _)
    · exact ⟨rfl, rfl, alike⟩
  | dropProducer =>
    refine (release_alike alike).bind _ _ ?_
    rintro ⟨analyses, r⟩ ⟨_, s⟩ ⟨rfl, events, overruns, rfl⟩
    exact ⟨rfl, rfl, events, overruns, rfl⟩
  | askConnected =>
    rw [driverStep, driverStep, same]
    split
    · obtain ⟨events, overruns, rfl⟩ := alike
      exact ⟨rfl, rfl, events, overruns, rfl⟩
    · exact ⟨rfl, rfl, alike⟩

theorem afterQueue_alike (offered other : Bool × Pipeline) (same : Continues offered other) :
    Agrees (afterQueue offered) (afterQueue other) :=
  ⟨congrArg Answer.accepted same.1, rfl, same.2⟩

theorem act_alike (alike : p.Alike q) (action : Action) :
    Checked.Matched Agrees (p.act action) (q.act action) := by
  have producer : q.hasProducer = p.hasProducer := by
    obtain ⟨events, overruns, rfl⟩ := alike
    rfl
  have running : q.running = p.running := by
    obtain ⟨events, overruns, rfl⟩ := alike
    rfl
  cases action with
  | queue samples =>
    rw [act_queue, act_queue, producer]
    split
    · exact afterQueue_alike _ _ (offer_alike alike samples)
    · exact ⟨rfl, rfl, alike⟩
  | queueBytes bytes =>
    rw [act, act, producer, offerBytes_eq, offerBytes_eq]
    split
    · exact afterQueue_alike _ _ (offer_alike alike _)
    · exact ⟨rfl, rfl, alike⟩
  | analyze count =>
    rw [act, act, running]
    split
    · refine (analyzeQueued_alike alike count).bind _ _ ?_
      intro x y continues
      exact ⟨rfl, continues⟩
    · exact ⟨rfl, rfl, alike⟩
  | step s =>
    cases s with
    | driver s => exact driverStep_alike alike s
    | host s =>
      rw [act, act, perform, perform, running]
      split
      · exact hostStep_alike alike s
      · exact ⟨rfl, rfl, alike⟩

theorem trace_agrees (alike : p.Alike q) (actions : List Action) :
    Checked.Matched (fun x y => List.Forall₂ (fun first second : Report =>
      first.answer.essence = second.answer.essence ∧ first.analyses = second.analyses) x.1 y.1 ∧
        x.2.Alike y.2) (p.trace actions) (q.trace actions) := by
  apply Checked.trace_matched act act Alike (fun first second =>
    first.answer.essence = second.answer.essence ∧ first.analyses = second.analyses) ?_ p q alike
  intro p q action same
  refine (act_alike same action).imp ?_
  intro x y agrees
  exact ⟨⟨agrees.1, agrees.2.1⟩, agrees.2.2⟩

theorem trace_alike (alike : p.Alike q) (actions : List Action) :
    Checked.Matched (fun x y => List.Forall₂ (fun first second : Report =>
      first.analyses = second.analyses) x.1 y.1 ∧ x.2.Alike y.2)
      (p.trace actions) (q.trace actions) := by
  refine (trace_agrees alike actions).imp ?_
  intro x y agrees
  exact ⟨agrees.1.imp fun _ _ => And.right, agrees.2⟩

end

/-- What becomes of a block that is offered to a pipeline, and of everything
after it when it is refused. -/
structure Verdict (p : Pipeline) (block : List Sample) (taken : Bool) (q : Pipeline) : Prop where
  empty : block = [] → taken = true ∧ q = p
  refused : block ≠ [] →
    (taken = false ↔ 2 * p.size < p.samples.samples.length + block.length)
  room : block ≠ [] → p.samples.samples.length + block.length ≤ 2 * p.size →
    p.lengths.items.length < p.lengths.capacity
  enlisted : taken = true → block ≠ [] → q = { p with
    samples := { p.samples with samples := p.samples.samples ++ block }
    lengths := { p.lengths with items := p.lengths.items ++ [block.length] }
    counters := { p.counters with delivered := p.counters.delivered + 1 } }
  overrun : taken = false → ∃ dropped events, dropped.toNat = block.length ∧
    q = { p with events, counters := { p.counters with overruns := p.counters.overruns + 1 } } ∧
    (p.running = false → events = p.events) ∧
    (p.running = true → p.events.queue.isFull = true →
      events = { p.events with dropped := p.events.dropped + 1 }) ∧
    (p.running = true → p.events.queue.isFull = false →
      events = { p.events with queue := p.events.queue.push (.overrun dropped) })
  unchanged : taken = false → ∀ actions,
    Checked.Matched (fun x y => List.Forall₂ (fun first second : Report =>
      first.analyses = second.analyses) x.1 y.1 ∧ x.2.Alike y.2) (p.trace actions) (q.trace actions)

section
variable {p : Pipeline} {blocks : List (List Sample)}

theorem offer_verdict (sound : p.Sound) (backlog : p.Backlog blocks)
    (attended : p.events.attended = p.running) (samples : List Sample) :
    p.Verdict (samples.take p.size) (p.offered samples).1 (p.offered samples).2 := by
  have short : (samples.take p.size).length ≤ 8192 :=
    Nat.le_trans (List.length_take_le _ _) sound.small
  have fewer := backlog.length_le
  have capacity := sound.lengthRoom
  rw [offered_eq sound backlog samples]
  generalize samples.take p.size = block at short ⊢
  by_cases empty : block = []
  · rw [if_pos empty]
    refine ⟨fun _ => ⟨rfl, rfl⟩, absurd empty, absurd empty, fun _ => absurd empty, nofun, nofun⟩
  · have positive := List.length_pos_iff.mpr empty
    rw [if_neg empty]
    by_cases refused : 2 * p.size < p.samples.samples.length + block.length
    · rw [if_pos refused]
      refine ⟨fun none => absurd none empty, fun _ => ⟨fun _ => refused, fun _ => rfl⟩, ?_, nofun,
        ?_, ?_⟩
      · intro _ fits
        omega
      · intro _
        have counted : (UInt64.ofNat block.length).toNat = block.length :=
          UInt64.toNat_ofNat_of_lt' (Nat.lt_of_le_of_lt short (by decide))
        refine ⟨_, _, counted, rfl, ?_, ?_, ?_⟩
        · intro stopped
          exact p.events.post_left _ (attended.trans stopped)
        · intro running full
          exact p.events.post_full _ (attended.trans running) full
        · intro running free
          exact p.events.post_free _ (attended.trans running) free
      · intro _ actions
        exact trace_alike ⟨_, _, rfl⟩ actions
    · rw [if_neg refused]
      refine ⟨fun none => absurd none empty,
        fun _ => ⟨nofun, fun exceeded => absurd exceeded refused⟩, ?_, fun _ _ => rfl, nofun, nofun⟩
      intro _ fits
      omega

theorem due_stopped (stopped : p.running = false) (action : Action) : p.due action = 0 := by
  have idle (q : Pipeline) (same : q.running = p.running) : q.flow = 0 := by
    rw [flow, same, stopped]
    exact if_neg fun both => Bool.false_ne_true both.1
  have offered (samples : List Sample) :
      (if p.hasProducer then (p.offered samples).2.flow else 0) = 0 := by
    rw [idle _ (offer_steady p samples).running, ite_self]
  cases action with
  | queue samples => rfl
  | queueBytes bytes => rfl
  | analyze count =>
    rw [due, stopped]
    rfl
  | step s =>
    cases s with
    | driver s =>
      cases s with
      | deliver samples => exact offered samples
      | deliverBytes bytes =>
        rw [due, offerBytes_eq]
        exact offered (Sample.decode bytes)
      | dropProducer => exact idle _ rfl
      | askConnected => rfl
    | host s =>
      cases s with
      | release => exact idle _ rfl
      | shutdown => exact idle _ rfl
      | _ => rfl

theorem analysed_stopped (sound : p.Sound) (backlog : p.Backlog blocks)
    (stopped : p.running = false) (actions : List Action) (reports : List Report) (q : Pipeline)
    (ran : p.trace actions = .ok (reports, q)) : analysed reports = [] := by
  induction actions generalizing p blocks reports with
  | nil =>
    cases ran
    rfl
  | cons action actions ih =>
    obtain ⟨report, next, others, acted, tail, rfl⟩ := Checked.trace_cons act _ _ _ _ _ ran
    obtain ⟨rest, stepped⟩ := stepped_of_act sound backlog action report next acted
    have none : report.analyses = [] := by
      apply List.eq_nil_of_length_eq_zero
      rw [stepped.due, due_stopped stopped]
    have still : next.running = false := by
      cases running : next.running with
      | false => rfl
      | true => exact absurd (stepped.going.running.mp running).1 (by simp [stopped])
    have later := ih stepped.sound stepped.backlog still others tail
    rw [analysed, List.flatMap_cons, none]
    exact later

/-- A transform side that has taken all it would take leaves room for a block. -/
theorem offer_settled (sound : p.Sound) (backlog : p.Backlog blocks) (flowing : p.running = true ∧
    ¬ p.held = true) (settled : p.flow = 0) (samples : List Sample) :
    (p.offered samples).1 = true := by
  rw [flow_eq backlog, if_pos flowing] at settled
  have nothing : p.samples.samples.length = 0 := by
    rw [backlog.samples, List.eq_nil_of_length_eq_zero settled]
    rfl
  have short : (samples.take p.size).length ≤ p.size := List.length_take_le _ _
  rw [offered_eq sound backlog samples]
  split
  · rfl
  · rw [if_neg (by omega)]

/-- Once nothing is taken out of the queue, what it holds and what is accepted
later share its room. -/
theorem accepted_stopped (fresh : p.Fresh) (actions : List Action) (reports : List Report)
    (q : Pipeline) (ran : p.trace actions = .ok (reports, q)) (stopped : q.running = false)
    (later : List Action) (others : List Report) (r : Pipeline)
    (after : q.trace later = .ok (others, r)) :
    q.samples.samples.length + (accepted p.size later others).flatten.length ≤ 2 * p.size := by
  obtain ⟨blocks, history⟩ := trace_history fresh actions reports q ran
  have none := analysed_stopped history.sound history.backlog stopped later others r after
  -- Seen from the start it is one run, of which the queue still holds the end.
  have whole := Checked.trace_append_success act p actions later reports others q r ran after
  obtain ⟨rest, past⟩ := trace_history fresh (actions ++ later) (reports ++ others) r whole
  have order := past.order
  rw [accepted_append _ _ _ _ _ (Checked.length_trace act _ _ _ _ ran), history.order,
    analysed_append, none, List.append_nil, List.append_assoc] at order
  have queued := congrArg (fun blocks => blocks.flatten.length) (List.append_cancel_left order)
  have room := past.backlog.room
  rw [past.backlog.samples, Pipeline.size, past.config] at room
  rw [List.flatten_append, List.length_append, ← history.backlog.samples] at queued
  rw [queued]
  exact room

end

/-- A delivery offers its block and gives the driver the answer to that, and then
the transform side advances. -/
theorem deliver_offers (p : Pipeline) (producer : p.hasProducer = true) (samples : List Sample)
    (report : Report) (q : Pipeline)
    (delivered : p.perform (.driver (.deliver samples)) = .ok (report, q)) :
    report.answer = .accepted (p.offered samples).1 ∧
      (p.offered samples).2.advance = .ok (report.analyses, q) := by
  rw [perform, driverStep_deliver, producer, if_pos rfl] at delivered
  obtain ⟨⟨analyses, r⟩, advanced, same⟩ := Checked.bind_success _ _ _ delivered
  cases same
  exact ⟨rfl, advanced⟩

/-- A block is refused exactly when its samples do not fit, and then nothing but
its event and its count shows; a pipeline whose transform side follows every
step refuses none, and a stopped one accepts what it has room for. -/
theorem overrun_exact {config : Config} {sink : Sink} {latency : Nat → Nat} {held : Bool}
    {p : Pipeline} (started : start config sink latency held = .ok p) (actions : List Action)
    (reports : List Report) (q : Pipeline) (ran : p.trace actions = .ok (reports, q)) :
    (∀ samples, ∃ taken next, q.offer samples = .ok (taken, next) ∧
      q.Verdict (samples.take config.blockSize.toNat) taken next ∧
      (q.hasProducer = true → ∀ report r,
        q.perform (.driver (.deliver samples)) = .ok (report, r) →
          report.answer = .accepted taken ∧ next.advance = .ok (report.analyses, r)) ∧
      ((∀ action ∈ actions, ∃ s, action = .step s) → q.running = true → q.held = false →
        taken = true)) ∧
    (∀ bytes, q.offer (Sample.decode bytes) = .ok (q.offerBytes bytes)) ∧
    (.step (.host .shutdown) ∈ actions → ∀ later others r, q.trace later = .ok (others, r) →
      q.samples.samples.length + (accepted config.blockSize.toNat later others).flatten.length ≤
        2 * config.blockSize.toNat) := by
  have fresh := start_fresh started
  have size : p.size = config.blockSize.toNat := by
    obtain ⟨_, _, _, rfl⟩ := start_success started
    rfl
  obtain ⟨blocks, history⟩ := trace_history fresh actions reports q ran
  rw [← size]
  refine ⟨fun samples => ⟨(q.offered samples).1, (q.offered samples).2, q.offer_eq samples, ?_,
    fun producer => q.deliver_offers producer samples, ?_⟩, ?_, ?_⟩
  · have verdict := offer_verdict history.sound history.backlog history.attended samples
    rw [Pipeline.size, history.config] at verdict
    exact verdict
  · intro steps running unheld
    have flowing : q.running = true ∧ ¬ q.held = true := ⟨running, by simp [unheld]⟩
    exact offer_settled history.sound history.backlog flowing (history.settled steps) samples
  · intro bytes
    rw [q.offerBytes_eq, q.offer_eq]
  · intro closed later others r after
    have stopped : q.running = false := by
      cases running : q.running with
      | false => rfl
      | true => exact absurd closed (history.running.mp running).2
    exact accepted_stopped fresh actions reports q ran stopped later others r after

/-- A queue of two blocks of the block size is full, and refuses a single sample
without any further effect on what is analysed. -/
theorem overrun_of_full_queue : ∃ p reports q next,
    start { Config.standard with blockSize := 32, bands := [⟨0, 1, 0⟩], frequencyFloorBin := none }
      .log (fun _ => 0) true = .ok p ∧
    p.trace [.queue (List.replicate 40 7), .queue (List.replicate 32 9)] = .ok (reports, q) ∧
    q.offer [3] = .ok (false, next) ∧ next.events.queue.items = [.overrun 1] ∧
    ∀ actions, Checked.Matched (fun x y => List.Forall₂ (fun first second : Report =>
      first.analyses = second.analyses) x.1 y.1 ∧ x.2.Alike y.2)
      (q.trace actions) (next.trace actions) := by
  obtain ⟨p, reports, q, started, ran, size, queued, running, none, free⟩ : ∃ p reports q,
      start { Config.standard with
        blockSize := 32, bands := [⟨0, 1, 0⟩], frequencyFloorBin := none } .log (fun _ => 0) true =
        .ok p ∧
      p.trace [.queue (List.replicate 40 7), .queue (List.replicate 32 9)] = .ok (reports, q) ∧
      q.size = 32 ∧ q.samples.samples.length = 64 ∧ q.running = true ∧
      q.events.queue.items = [] ∧ q.events.queue.isFull = false :=
    ⟨_, _, _, rfl, rfl, rfl, rfl, rfl, rfl, rfl⟩
  obtain ⟨taken, next, offered, verdict, -, -⟩ := (overrun_exact started _ reports q ran).1 [3]
  have refused : taken = false := by
    rw [verdict.refused (List.cons_ne_nil _ _), size, queued]
    decide
  obtain ⟨dropped, events, counted, rfl, -, -, posted⟩ := verdict.overrun refused
  have single : dropped = 1 := UInt64.toNat_inj.mp counted
  refine ⟨p, reports, q, _, started, ran, by rw [offered, refused], ?_,
    verdict.unchanged refused⟩
  change events.queue.items = _
  rw [posted running free, single]
  change q.events.queue.items ++ _ = _
  rw [none]
  rfl

end Pipeline

end BandLight
