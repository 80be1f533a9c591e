import BandLight.Proofs.PipelineHistory

/-! When the transform side drains the queue. What it makes of the accepted
blocks depends on their order only: not on how many of them it takes at a time,
and not on what ticks do to the mailbox in the meantime. -/
namespace BandLight

namespace Analyzer

def absorbEach : Analyzer → List (List Sample) → List Analysis × Analyzer
  | a, [] => ([], a)
  | a, block :: blocks =>
      let (analysis, b) := a.absorb block
      let (others, b) := b.absorbEach blocks
      (analysis :: others, b)

/-- The analyzer when what waited in its mailbox has been taken. -/
def emptied (a : Analyzer) : Analyzer :=
  { a with mailbox := { a.mailbox with ready := false, hint := false } }

theorem absorbEach_append (a : Analyzer) (first second : List (List Sample)) :
    a.absorbEach (first ++ second) =
      ((a.absorbEach first).1 ++ ((a.absorbEach first).2.absorbEach second).1,
        ((a.absorbEach first).2.absorbEach second).2) := by
  induction first generalizing a with
  | nil => rfl
  | cons block first ih =>
    have rest := ih (a.absorb block).2
    exact congrArg (fun run => ((a.absorb block).1 :: run.1, run.2)) rest

structure Absorbs (a : Analyzer) (analyses : List Analysis) (b : Analyzer) : Prop where
  made : analyses = (a.absorbEach (analyses.map (·.block))).1
  left : b = (a.absorbEach (analyses.map (·.block))).2

/-- An analysis writes to the mailbox and never reads it. -/
theorem absorbEach_mailbox (a : Analyzer) (mailbox : Mailbox) (blocks : List (List Sample)) :
    ({ a with mailbox }.absorbEach blocks).1 = (a.absorbEach blocks).1 ∧
      ∃ last, ({ a with mailbox }.absorbEach blocks).2 =
        { (a.absorbEach blocks).2 with mailbox := last } := by
  induction blocks generalizing a mailbox with
  | nil => exact ⟨rfl, mailbox, rfl⟩
  | cons block blocks ih =>
    obtain ⟨same, last, later⟩ :=
      ih (a.absorb block).2 (.holding (a.absorb block).1.spectrum)
    exact ⟨congrArg ((a.absorb block).1 :: ·) same, last, later⟩

theorem content_absorbEach (a : Analyzer) (blocks : List (List Sample)) :
    (a.absorbEach blocks).2.mailbox.content =
      ((a.absorbEach blocks).1.getLast?.map (·.spectrum)).or a.mailbox.content := by
  induction blocks generalizing a with
  | nil => rfl
  | cons block blocks ih =>
    have single : (a.absorb block).2.mailbox.content = some (a.absorb block).1.spectrum := rfl
    change ((a.absorb block).2.absorbEach blocks).2.mailbox.content =
      (((a.absorb block).1 :: ((a.absorb block).2.absorbEach blocks).1).getLast?.map _).or _
    rw [ih, single, List.getLast?_cons]
    cases ((a.absorb block).2.absorbEach blocks).1.getLast? with
    | none => rfl
    | some analysis => rfl

end Analyzer

namespace Pipeline

/-- A tick took a spectrum out of the mailbox. -/
def Report.consumes (report : Report) : Bool :=
  match report.answer with
  | .ticked tick => tick.consumed
  | .finished (some tick) _ _ => tick.consumed
  | _ => false

/-- The spectrum that waits after a report, given what waited before it. -/
def Report.pend (waiting : Option Spectrum) (report : Report) : Option Spectrum :=
  if report.consumes then none
  else (report.analyses.getLast?.map (·.spectrum)).or waiting

def published (reports : List Report) : List Analysis := reports.flatMap (·.analyses)

/-- What was published last, unless a tick has taken it since. -/
def pending (reports : List Report) : Option Spectrum := reports.foldl Report.pend none

def Follows (p : Pipeline) (report : Report) (q : Pipeline) : Prop :=
  ∃ a, p.analyzer.Absorbs report.analyses a ∧
    q.analyzer = if report.consumes then a.emptied else a

/-- What the reports of a run tell of the analyzer. -/
structure Replay (p : Pipeline) (reports : List Report) (q : Pipeline) : Prop where
  analyses : published reports = (p.analyzer.absorbEach (analysed reports)).1
  analyzer : ∃ mailbox, q.analyzer = { (p.analyzer.absorbEach (analysed reports)).2 with mailbox }
  pending : q.analyzer.mailbox.content = reports.foldl Report.pend p.analyzer.mailbox.content

section
variable {p q : Pipeline} {blocks : List (List Sample)}

theorem absorbAll_analyzer (p : Pipeline) (blocks : List (List Sample)) :
    (p.absorbAll blocks).1 = (p.analyzer.absorbEach blocks).1 ∧
      (p.absorbAll blocks).2.analyzer = (p.analyzer.absorbEach blocks).2 := by
  induction blocks generalizing p with
  | nil => exact ⟨rfl, rfl⟩
  | cons block blocks ih =>
    obtain ⟨analyses, analyzer⟩ := ih (p.absorb block).2
    exact ⟨congrArg ((p.absorb block).1 :: ·) analyses, analyzer⟩

theorem analyzeQueued_absorbs (sound : p.Sound) (backlog : p.Backlog blocks) (count : Nat)
    (analyses : List Analysis) (ran : analyzeQueued count p = .ok (analyses, q)) :
    p.analyzer.Absorbs analyses q.analyzer := by
  rw [analyzeQueued_eq sound backlog] at ran
  split at ran
  · next unspent =>
    have whole : p.Backlog (blocks.take count ++ blocks.drop count) := by
      rw [List.take_append_drop]
      exact backlog
    obtain ⟨-, -, taken, -⟩ := absorbAll_spec sound (blocks.take count) (blocks.drop count) whole
      (by rw [List.length_take]; exact unspent)
    obtain ⟨made, left⟩ := absorbAll_analyzer p (blocks.take count)
    obtain ⟨rfl, rfl⟩ := Prod.mk.inj (Except.ok.inj ran)
    exact ⟨by rw [taken, made], by rw [taken, left]⟩
  · cases ran

theorem advance_absorbs (sound : p.Sound) (backlog : p.Backlog blocks) (analyses : List Analysis)
    (ran : p.advance = .ok (analyses, q)) : p.analyzer.Absorbs analyses q.analyzer := by
  unfold advance at ran
  split at ran
  · exact analyzeQueued_absorbs sound backlog _ analyses ran
  · cases ran
    exact ⟨rfl, rfl⟩

theorem release_absorbs (sound : p.Sound) (backlog : p.Backlog blocks) (analyses : List Analysis)
    (ran : p.release = .ok (analyses, q)) : p.analyzer.Absorbs analyses q.analyzer :=
  advance_absorbs (p := { p with held := false }) { sound with } { backlog with } analyses ran

theorem aggregate_consumes (s : Spectrum) (tick : Tick) (ran : p.aggregate s = .ok (tick, q)) :
    tick.consumed = true ∧ q.analyzer = p.analyzer := by
  obtain ⟨⟨levels, aggregator⟩, _, ran⟩ := Checked.bind_success _ _ _ ran
  dsimp only at ran
  split at ran
  · obtain ⟨mean, _, ran⟩ := Checked.bind_success _ _ _ ran
    cases ran
    exact ⟨rfl, rfl⟩
  · cases ran
    exact ⟨rfl, rfl⟩

theorem tick_analyzer (sound : p.Sound) (tick : Tick) (ran : p.tick = .ok (tick, q)) :
    q.analyzer = if tick.consumed then p.analyzer.emptied else p.analyzer := by
  have obeyed : p.applyCommands.analyzer = p.analyzer := by
    rw [applyCommands_eq p sound.commands]
  rw [tick_eq p sound] at ran
  split at ran
  · obtain ⟨consumed, same⟩ := aggregate_consumes _ tick ran
    rw [consumed, if_pos rfl, same, collected, obeyed]
    rfl
  · cases ran
    exact obeyed

theorem Follows.still {answer : Answer} (silent : Report.consumes { answer } = false)
    (same : q.analyzer = p.analyzer) : p.Follows { answer } q :=
  ⟨p.analyzer, ⟨rfl, rfl⟩, by rw [silent, same]; rfl⟩

theorem afterOffer_follows (sound : p.Sound) (backlog : p.Backlog blocks) (samples : List Sample)
    (report : Report) (ran : afterOffer (p.offered samples) = .ok (report, q)) :
    p.Follows report q := by
  obtain ⟨rest, kept, queued, analyzer, -⟩ := offer_spec sound backlog samples
  obtain ⟨⟨analyses, r⟩, advanced, ran⟩ := Checked.bind_success _ _ _ ran
  have absorbs := advance_absorbs kept queued analyses advanced
  rw [analyzer] at absorbs
  cases ran
  exact ⟨_, absorbs, rfl⟩

theorem shutdown_follows (sound : p.Sound) (backlog : p.Backlog blocks)
    (unspent : p.analyzer.blocksAnalyzed + p.due (.step (.host .shutdown)) < UInt64.size)
    (report : Report) (ran : p.shutdown = .ok (report, q)) : p.Follows report q := by
  -- What is queued is published before the last tick, which may take it.
  obtain ⟨_, r, _, released, kept, -⟩ := release_spec sound backlog unspent
  have absorbs := release_absorbs sound backlog _ released
  rw [shutdown, released, Checked.ok_bind] at ran
  dsimp only at ran
  split at ran
  · obtain ⟨⟨tick, s⟩, ticked, ran⟩ := Checked.bind_success _ _ _ ran
    obtain ⟨events, stopped, -⟩ := stop_eq s
    cases ran
    refine ⟨_, absorbs, ?_⟩
    rw [stopped]
    exact tick_analyzer (q := s) kept tick ticked
  · obtain ⟨events, stopped, -⟩ := stop_eq r
    cases ran
    refine ⟨_, absorbs, ?_⟩
    rw [stopped]
    rfl

theorem driverStep_follows (sound : p.Sound) (backlog : p.Backlog blocks) (s : DriverStep)
    (report : Report) (ran : p.driverStep s = .ok (report, q)) : p.Follows report q := by
  cases s with
  | deliver samples =>
    rw [driverStep_deliver] at ran
    split at ran
    · exact afterOffer_follows sound backlog samples report ran
    · cases ran
      exact .still rfl rfl
  | deliverBytes bytes =>
    rw [driverStep, offerBytes_eq] at ran
    split at ran
    · exact afterOffer_follows sound backlog _ report ran
    · cases ran
      exact .still rfl rfl
  | dropProducer =>
    obtain ⟨⟨analyses, r⟩, released, ran⟩ := Checked.bind_success _ _ _ ran
    have absorbs := release_absorbs sound backlog analyses released
    cases ran
    exact ⟨_, absorbs, rfl⟩
  | askConnected =>
    rw [driverStep] at ran
    split at ran
    · cases ran
      exact .still rfl rfl
    · cases ran
      exact .still rfl rfl

theorem answerSend_follows (command : Command) (sent : Except PipelineError Pipeline)
    (kept : ∀ next, sent = .ok next → next = { p with commands := p.commands ++ [command] })
    (report : Report) (ran : p.answerSend sent = (report, q)) : p.Follows report q := by
  cases sent with
  | error e =>
    cases ran
    exact .still rfl rfl
  | ok next =>
    cases ran
    rw [kept q rfl]
    exact .still rfl rfl

theorem hostStep_follows (sound : p.Sound) (backlog : p.Backlog blocks) (s : HostStep)
    (unspent : p.analyzer.blocksAnalyzed + p.due (.step (.host s)) < UInt64.size)
    (report : Report) (ran : p.hostStep s = .ok (report, q)) : p.Follows report q := by
  cases s with
  | release =>
    obtain ⟨⟨analyses, r⟩, released, ran⟩ := Checked.bind_success _ _ _ ran
    have absorbs := release_absorbs sound backlog analyses released
    cases ran
    exact ⟨_, absorbs, rfl⟩
  | tick =>
    rw [hostStep] at ran
    split at ran
    · obtain ⟨⟨tick, r⟩, ticked, ran⟩ := Checked.bind_success _ _ _ ran
      cases ran
      exact ⟨_, ⟨rfl, rfl⟩, tick_analyzer sound tick ticked⟩
    · cases ran
      exact .still rfl rfl
  | setTuning tuning =>
    exact answerSend_follows _ _ (fun next sent => (sendTuning_success tuning next sent).2) report
      (Except.ok.inj ran)
  | resetHistory =>
    exact answerSend_follows _ _ (fun next sent => send_success .resetHistory next sent) report
      (Except.ok.inj ran)
  | shutdown => exact shutdown_follows sound backlog unspent report ran
  | _ =>
    cases ran
    exact .still rfl rfl

/-- Every action analyses a part of the queue, or none of it, and a tick takes
what waits in the mailbox. -/
theorem act_follows (sound : p.Sound) (backlog : p.Backlog blocks) (action : Action)
    (report : Report) (ran : p.act action = .ok (report, q)) : p.Follows report q := by
  have queued (samples : List Sample) : (p.offered samples).2.analyzer = p.analyzer := by
    obtain ⟨_, _, _, analyzer, _⟩ := offer_spec sound backlog samples
    exact analyzer
  cases action with
  | queue samples =>
    rw [act_queue] at ran
    split at ran
    · cases ran
      exact .still rfl (queued samples)
    · cases ran
      exact .still rfl rfl
  | queueBytes bytes =>
    rw [act, offerBytes_eq] at ran
    split at ran
    · cases ran
      exact .still rfl (queued _)
    · cases ran
      exact .still rfl rfl
  | analyze count =>
    rw [act] at ran
    split at ran
    · obtain ⟨⟨analyses, r⟩, made, ran⟩ := Checked.bind_success _ _ _ ran
      cases ran
      exact ⟨_, analyzeQueued_absorbs sound backlog count analyses made, rfl⟩
    · cases ran
      exact .still rfl rfl
  | step s =>
    cases s with
    | driver s => exact driverStep_follows sound backlog s report ran
    | host s =>
      by_cases unspent : p.analyzer.blocksAnalyzed + p.due (.step (.host s)) < UInt64.size
      · rw [act, perform] at ran
        split at ran
        · exact hostStep_follows sound backlog s unspent report ran
        · cases ran
          exact .still rfl rfl
      · rw [act_spent sound backlog _ (Nat.not_lt.mp unspent)] at ran
        cases ran

theorem published_append (reports others : List Report) :
    published (reports ++ others) = published reports ++ published others := List.flatMap_append

theorem Replay.snoc {r : Pipeline} {reports : List Report} (replay : p.Replay reports q)
    (report : Report) (follows : q.Follows report r) : p.Replay (reports ++ [report]) r := by
  obtain ⟨mailbox, analyzer⟩ := replay.analyzer
  have single : published [report] = report.analyses := List.append_nil _
  have taken : analysed [report] = report.analyses.map (·.block) := List.append_nil _
  obtain ⟨a, ⟨made, rfl⟩, left⟩ := follows
  have waiting := q.analyzer.content_absorbEach (report.analyses.map (·.block))
  rw [← made] at waiting
  obtain ⟨same, last, later⟩ := (p.analyzer.absorbEach (analysed reports)).2.absorbEach_mailbox
    mailbox (report.analyses.map (·.block))
  rw [← analyzer] at same later
  refine ⟨?_, ?_, ?_⟩
  · rw [published_append, replay.analyses, single, analysed_append, taken,
      Analyzer.absorbEach_append, ← same, ← made]
  · rw [left, later, analysed_append, taken, Analyzer.absorbEach_append]
    split
    · exact ⟨_, rfl⟩
    · exact ⟨last, rfl⟩
  · rw [List.foldl_append, ← replay.pending, List.foldl_cons, List.foldl_nil, Report.pend, left]
    split
    · rfl
    · exact waiting

theorem trace_replay (fresh : p.Fresh) (actions : List Action) (reports : List Report)
    (ran : p.trace actions = .ok (reports, q)) : p.Replay reports q := by
  refine Checked.trace_induction act (fun _ reports q => p.Replay reports q) p
    ⟨rfl, ⟨_, rfl⟩, rfl⟩ ?_ actions reports q ran
  intro actions reports q action report r ran replay acted
  obtain ⟨blocks, history⟩ := trace_history fresh actions reports q ran
  exact replay.snoc report (act_follows history.sound history.backlog action report acted)

theorem foldl_pend_quiet (reports : List Report) (waiting : Option Spectrum)
    (quiet : ∀ report ∈ reports, report.consumes = false) :
    reports.foldl Report.pend waiting =
      ((published reports).getLast?.map (·.spectrum)).or waiting := by
  induction reports generalizing waiting with
  | nil => rfl
  | cons report reports ih =>
    have silent := quiet report (by simp)
    have whole : published (report :: reports) = report.analyses ++ published reports := rfl
    rw [List.foldl_cons, ih _ fun other member => quiet other (by simp [member]), whole,
      List.getLast?_append, Report.pend, silent]
    cases (published reports).getLast? with
    | none => rfl
    | some analysis => rfl

theorem analysed_drained (fresh : p.Fresh) (actions : List Action) (reports : List Report)
    (ran : p.trace actions = .ok (reports, q)) (drained : q.lengths.items = []) :
    analysed reports = accepted p.size actions reports := by
  obtain ⟨blocks, history⟩ := trace_history fresh actions reports q ran
  have none : blocks = [] := by
    rw [history.backlog.lengths] at drained
    exact List.map_eq_nil_iff.mp drained
  rw [history.order, none, List.append_nil]

end

/-- Two runs that have drained their queues have left the same analyzer and have
published the same spectra. The same spectrum waits if the same one has waited
before and no tick has taken anything since. -/
structure SameSchedule (reports replies : List Report) (q r : Pipeline) : Prop where
  analyzer : ∃ mailbox, q.analyzer = { r.analyzer with mailbox }
  analyses : published reports = published replies
  contents : q.analyzer.mailbox.content = pending reports ∧
    r.analyzer.mailbox.content = pending replies
  waiting : ∀ early late first second, reports = early ++ late → replies = first ++ second →
    published early = published first → pending early = pending first →
    (∀ report ∈ late ++ second, report.consumes = false) →
    q.analyzer.mailbox.content = r.analyzer.mailbox.content

section
variable {p q r s : Pipeline} {reports replies : List Report}

theorem pending_drained (replay : p.Replay reports q) (empty : p.analyzer.mailbox.content = none)
    (early late : List Report) (same : reports = early ++ late)
    (quiet : ∀ report ∈ late, report.consumes = false) :
    q.analyzer.mailbox.content =
      ((published late).getLast?.map (·.spectrum)).or (pending early) := by
  rw [replay.pending, empty, same, List.foldl_append, foldl_pend_quiet late _ quiet]
  rfl

theorem sameSchedule (analyzer : q.analyzer = p.analyzer)
    (empty : p.analyzer.mailbox.content = none)
    (first : p.Replay reports r) (second : q.Replay replies s)
    (same : analysed reports = analysed replies) : SameSchedule reports replies r s := by
  have shown : published reports = published replies := by
    rw [first.analyses, second.analyses, analyzer, same]
  have none : q.analyzer.mailbox.content = none := by rw [analyzer, empty]
  refine ⟨?_, shown, ⟨?_, ?_⟩, ?_⟩
  · obtain ⟨mailbox, left⟩ := first.analyzer
    obtain ⟨_, right⟩ := second.analyzer
    rw [left, right, analyzer, same]
    exact ⟨mailbox, rfl⟩
  · rw [first.pending, empty, pending]
  · rw [second.pending, none, pending]
  · intro early late before after cut other published_early pending_early quiet
    have later : published late = published after := by
      rw [cut, other, published_append, published_append, published_early] at shown
      exact List.append_cancel_left shown
    have left := pending_drained first empty early late cut fun report member =>
      quiet report (by simp [member])
    have right := pending_drained second none before after other fun report member =>
      quiet report (by simp [member])
    rw [left, right, later, pending_early]

end

theorem start_analyzer {config : Config} {sink other : Sink} {latency pace : Nat → Nat}
    {held unheld : Bool} {p q : Pipeline} (started : start config sink latency held = .ok p)
    (again : start config other pace unheld = .ok q) : q.analyzer = p.analyzer := by
  obtain ⟨_, _, configured, rfl⟩ := start_success started
  obtain ⟨_, _, same, rfl⟩ := start_success again
  rw [configured] at same
  cases same
  rfl

theorem start_content {config : Config} {sink : Sink} {latency : Nat → Nat} {held : Bool}
    {p : Pipeline} (started : start config sink latency held = .ok p) :
    p.analyzer.mailbox.content = none := by
  obtain ⟨analyzer, aggregator, configured, rfl⟩ := start_success started
  obtain ⟨first, -⟩ := configure_success config analyzer aggregator configured
  obtain ⟨-, rfl⟩ := Analyzer.configure_success _ analyzer first
  rfl

end Pipeline

end BandLight
