import BandLight.Proofs.DrainSchedules
import BandLight.Proofs.Overrun
import BandLight.Proofs.Refinement

/-! Runs in which the transform side is held back. A held pipeline only queues
what is delivered; when it is released it takes all of it at once, and is then
as a pipeline that was never held, but for the waiting events. -/
namespace BandLight.Pipeline

/-- The steps that neither tick nor wake up a transform side that is held. -/
def Step.Waits : Step → Prop
  | .driver .dropProducer | .host .release | .host .tick | .host .shutdown => False
  | _ => True

/-- The steps after which nothing is held any more. -/
def Step.Releases : Step → Prop
  | .driver .dropProducer | .host .release | .host .shutdown => True
  | _ => False

/-- The pipeline when it is no longer held and has taken the blocks in its queue. -/
def caughtUp (p : Pipeline) (blocks : List (List Sample)) : Pipeline :=
  ({ p with held := false }.absorbAll blocks).2

/-- A held pipeline and one that has already taken what is queued. -/
structure Trails (p q : Pipeline) (blocks : List (List Sample)) : Prop where
  sound : p.Sound
  backlog : p.Backlog blocks
  held : p.held = true
  running : p.running = true
  untouched : p.analyzer.blocksAnalyzed = 0
  caught : (p.caughtUp blocks).Alike q

/-- A pipeline takes a step with the same answer as one that trails it, and is
trailed afterwards. -/
def Trailed (q : Pipeline) (s : Step) (report : Report) (next : Pipeline) : Prop :=
  ∃ blocks reply later, q.perform s = .ok (reply, later) ∧
    report.answer.essence = reply.answer.essence ∧ next.Trails later blocks

/-- What a step that leaves the intake alone looks at, besides the events. -/
structure SameHost (p q : Pipeline) : Prop where
  config : q.config = p.config
  commands : q.commands = p.commands
  producer : q.hasProducer = p.hasProducer
  aggregating : q.aggregating = p.aggregating
  running : q.running = p.running

section
variable {p q r : Pipeline} {blocks : List (List Sample)}

theorem Alike.trans (first : p.Alike q) (second : q.Alike r) : p.Alike r := by
  obtain ⟨_, _, rfl⟩ := first
  obtain ⟨events, overruns, rfl⟩ := second
  exact ⟨events, overruns, rfl⟩

theorem absorbAll_alike (alike : p.Alike q) (blocks : List (List Sample)) :
    (p.absorbAll blocks).2.Alike (q.absorbAll blocks).2 := by
  induction blocks generalizing p q with
  | nil => exact alike
  | cons block blocks ih =>
    have next : (p.absorb block).2.Alike (q.absorb block).2 := by
      obtain ⟨events, overruns, rfl⟩ := alike
      exact ⟨_, overruns, rfl⟩
    exact ih next

theorem caughtUp_alike (alike : p.Alike q) (blocks : List (List Sample)) :
    (p.caughtUp blocks).Alike (q.caughtUp blocks) := by
  have unheld : Alike { p with held := false } { q with held := false } := by
    obtain ⟨events, overruns, rfl⟩ := alike
    exact ⟨events, overruns, rfl⟩
  exact absorbAll_alike unheld blocks

theorem absorbAll_commands (p : Pipeline) (commands : List Command)
    (blocks : List (List Sample)) :
    ({ p with commands }.absorbAll blocks).2 = { (p.absorbAll blocks).2 with commands } := by
  induction blocks generalizing p with
  | nil => rfl
  | cons block blocks ih => exact ih (p.absorb block).2

theorem absorb_enlist (block last : List Sample) (backlog : p.Backlog (block :: blocks)) :
    ((p.enlist last).absorb block).2 = (p.absorb block).2.enlist last := by
  have enough : block.length ≤ p.samples.samples.length := by
    rw [backlog.samples, List.flatten_cons, List.length_append]
    omega
  have samples : (p.samples.push last).discard block.length =
      (p.samples.discard block.length).push last := by
    simp only [SampleQueue.push, SampleQueue.discard, List.drop_append_of_le_length enough]
  have lengths : (p.lengths.push last.length).pop = p.lengths.pop.push last.length := by
    simp only [Bounded.push, Bounded.pop, backlog.lengths, List.map_cons, List.cons_append,
      List.tail_cons]
  simp only [absorb, enlist, samples, lengths]

/-- A block that comes in last is taken last, whether the others are taken before
it comes or after. -/
theorem absorbAll_enlist (last : List Sample) (backlog : p.Backlog blocks) :
    ((p.enlist last).absorbAll (blocks ++ [last])).2 =
      ((p.absorbAll blocks).2.passThrough last).2 := by
  induction blocks generalizing p with
  | nil => rfl
  | cons block blocks ih =>
    have rest := ih (absorb_backlog block backlog)
    rw [← absorb_enlist block last backlog] at rest
    exact rest

theorem caughtUp_enlist (last : List Sample) (backlog : p.Backlog blocks) :
    (p.enlist last).caughtUp (blocks ++ [last]) = ((p.caughtUp blocks).passThrough last).2 :=
  absorbAll_enlist (p := { p with held := false }) last { backlog with }

theorem caughtUp_frame (p : Pipeline) (blocks : List (List Sample)) :
    ∃ analyzer samples lengths counters events, p.caughtUp blocks =
      { p with held := false, analyzer, samples, lengths, counters, events } :=
  absorbAll_frame { p with held := false } blocks

theorem caughtUp_host (p : Pipeline) (blocks : List (List Sample)) :
    p.SameHost (p.caughtUp blocks) := by
  obtain ⟨_, _, _, _, _, frame⟩ := p.caughtUp_frame blocks
  rw [frame]
  exact ⟨rfl, rfl, rfl, rfl, rfl⟩

theorem held_caughtUp (p : Pipeline) (blocks : List (List Sample)) :
    (p.caughtUp blocks).held = false := by
  obtain ⟨_, _, _, _, _, frame⟩ := p.caughtUp_frame blocks
  rw [frame]

theorem length_queued (sound : p.Sound) (backlog : p.Backlog blocks) : blocks.length ≤ 16384 := by
  have fewer := backlog.length_le
  have room := backlog.room
  have small := sound.small
  rw [backlog.length_lengths] at fewer
  omega

theorem Trails.caughtUp_spec (trails : p.Trails q blocks) :
    (p.caughtUp blocks).Sound ∧ (p.caughtUp blocks).Backlog [] ∧
      (p.caughtUp blocks).analyzer.blocksAnalyzed = blocks.length := by
  have few := length_queued trails.sound trails.backlog
  have sound : Sound { p with held := false } := { trails.sound with }
  have whole : Backlog { p with held := false } (blocks ++ []) := by
    rw [List.append_nil]
    exact { trails.backlog with }
  have unspent : p.analyzer.blocksAnalyzed + blocks.length < UInt64.size := by
    rw [trails.untouched, Nat.zero_add]
    exact Nat.lt_of_le_of_lt few (by decide)
  obtain ⟨kept, drained, -, counted⟩ := absorbAll_spec sound blocks [] whole unspent
  refine ⟨kept, drained, counted.trans ?_⟩
  rw [trails.untouched, Nat.zero_add]

theorem Trails.replies (trails : p.Trails q blocks) (s : Step) (report : Report) (next : Pipeline)
    (performed : (p.caughtUp blocks).perform s = .ok (report, next)) :
    ∃ reply later, q.perform s = .ok (reply, later) ∧
      report.answer.essence = reply.answer.essence ∧ next.Alike later := by
  have agrees := act_alike trails.caught (.step s)
  rw [act, act, performed] at agrees
  cases other : q.perform s with
  | error fault =>
    rw [other] at agrees
    exact agrees.elim
  | ok run =>
    rw [other] at agrees
    exact ⟨run.1, run.2, rfl, agrees.1, agrees.2.2⟩

theorem advance_held (held : p.held = true) : p.advance = .ok ([], p) := by
  rw [advance, if_neg (by simp [held])]

theorem afterOffer_held (held : p.held = true) (samples : List Sample) :
    afterOffer (p.offered samples) =
      .ok ({ answer := .accepted (p.offered samples).1 }, (p.offered samples).2) := by
  rw [afterOffer, advance_held ((offer_steady p samples).held.trans held)]
  rfl

/-- A step that leaves the intake alone does the same before and after the
blocks in the queue are taken. -/
theorem Trails.still (trails : p.Trails q blocks) (s : Step) (commands : List Command)
    (answer : Pipeline → Answer) (events : Pipeline → EventQueue)
    (valid : ∀ tuning, .setTuning tuning ∈ commands → tuning.Valid)
    (does : ∀ r, p.SameHost r →
      r.perform s = .ok ({ answer := answer r }, { r with commands, events := events r }))
    (essence : ∀ r, p.SameHost r → (answer p).essence = (answer r).essence) (report : Report)
    (next : Pipeline) (performed : p.perform s = .ok (report, next)) :
    q.Trailed s report next := by
  have host := p.caughtUp_host blocks
  obtain ⟨reply, later, replied, agrees, after⟩ := trails.replies s _ _ (does _ host)
  rw [does p ⟨rfl, rfl, rfl, rfl, rfl⟩] at performed
  cases performed
  refine ⟨blocks, reply, later, replied, (essence _ host).trans agrees,
    { trails.sound with commands := valid }, { trails.backlog with }, trails.held, trails.running,
    trails.untouched, ?_⟩
  -- The two steps change the events, and taking the queue does not look at commands.
  have posted : Alike { p with commands, events := events p } { p with commands } :=
    ⟨p.events, p.counters.overruns, rfl⟩
  have obeyed : caughtUp { p with commands } blocks = { p.caughtUp blocks with commands } :=
    absorbAll_commands { p with held := false } commands blocks
  have taken := caughtUp_alike posted blocks
  rw [obeyed] at taken
  exact (taken.trans ⟨_, _, rfl⟩).trans after

theorem Trails.enlist (trails : p.Trails q blocks) (block : List Sample) (nonempty : block ≠ [])
    (short : block.length ≤ p.size) (fits : p.samples.samples.length + block.length ≤ 2 * p.size)
    (alike : ((p.caughtUp blocks).passThrough block).2.Alike r) :
    (p.enlist block).Trails r (blocks ++ [block]) := by
  rw [← caughtUp_enlist block trails.backlog] at alike
  exact ⟨enlist_sound trails.sound block, enlist_backlog trails.backlog block nonempty short fits,
    trails.held, trails.running, trails.untouched, alike⟩

theorem Trails.deliver (trails : p.Trails q blocks) (samples : List Sample) (report : Report)
    (next : Pipeline) (performed : p.perform (.driver (.deliver samples)) = .ok (report, next))
    (taken : report.answer ≠ .accepted false) :
    q.Trailed (.driver (.deliver samples)) report next := by
  cases producer : p.hasProducer with
  | false =>
    refine trails.still (.driver (.deliver samples)) p.commands (fun _ => .noProducer) (·.events)
      trails.sound.commands (fun r same => ?_) (fun _ _ => rfl) report next performed
    rw [perform, driverStep_deliver, if_neg (by simp [same.producer, producer]), ← same.commands]
  | true =>
    obtain ⟨sound, drained, counted⟩ := trails.caughtUp_spec
    have host := p.caughtUp_host blocks
    have follows : (p.caughtUp blocks).running = true ∧ ¬ (p.caughtUp blocks).held = true := by
      rw [held_caughtUp]
      exact ⟨host.running.trans trails.running, Bool.false_ne_true⟩
    have delivered : (p.caughtUp blocks).perform (.driver (.deliver samples)) = _ :=
      deliver_drained sound drained follows (host.producer.trans producer) samples
    have short : (samples.take p.size).length ≤ p.size := List.length_take_le _ _
    rw [perform, driverStep_deliver, producer, if_pos rfl, afterOffer_held trails.held,
      offered_eq trails.sound trails.backlog samples] at performed
    rw [Pipeline.size, host.config] at delivered
    generalize samples.take p.size = block at short performed delivered
    by_cases empty : block = []
    · rw [if_pos empty] at performed delivered
      cases performed
      obtain ⟨reply, later, replied, same, alike⟩ := trails.replies _ _ _ delivered
      exact ⟨blocks, reply, later, replied, same, { trails with caught := alike }⟩
    · rw [if_neg empty] at performed delivered
      split at performed
      · cases performed
        exact absurd rfl taken
      · next fits =>
        -- The queue is too short for block numbers to run out.
        have few := length_queued trails.sound trails.backlog
        have unspent : (p.caughtUp blocks).analyzer.Unspent := by
          rw [Analyzer.Unspent, counted]
          exact Nat.lt_of_le_of_lt (Nat.succ_le_succ few) (by decide)
        rw [if_pos unspent] at delivered
        cases performed
        obtain ⟨reply, later, replied, same, alike⟩ := trails.replies _ _ _ delivered
        exact ⟨blocks ++ [block], reply, later, replied, same,
          trails.enlist block empty short (Nat.not_lt.mp fits) alike⟩

theorem Trails.command (trails : p.Trails q blocks) (s : HostStep) (command : Command)
    (valid : ∀ tuning, command = .setTuning tuning → tuning.Valid)
    (sends : ∀ r : Pipeline, r.hostStep s = .ok (r.answerSend (r.send command))) (report : Report)
    (next : Pipeline) (performed : p.perform (.host s) = .ok (report, next)) :
    q.Trailed (.host s) report next := by
  cases aggregating : p.aggregating with
  | false =>
    refine trails.still (.host s) p.commands (fun _ => .rejected .channelSendError) (·.events)
      trails.sound.commands (fun r same => ?_) (fun _ _ => rfl) report next performed
    have running := same.running.trans trails.running
    rw [perform, if_pos running, sends, send_gone running (same.aggregating.trans aggregating),
      ← same.commands]
    rfl
  | true =>
    refine trails.still (.host s) (p.commands ++ [command]) (fun _ => .done) (·.events) ?_
      (fun r same => ?_) (fun _ _ => rfl) report next performed
    · intro tuning member
      rcases List.mem_append.mp member with earlier | last
      · exact trails.sound.commands tuning earlier
      · exact valid tuning (List.mem_singleton.mp last).symm
    · have running := same.running.trans trails.running
      rw [perform, if_pos running, sends, send_there running (same.aggregating.trans aggregating),
        ← same.commands]
      rfl

theorem Trails.attend (trails : p.Trails q blocks) (s : HostStep) (waits : Step.Waits (.host s))
    (report : Report) (next : Pipeline) (performed : p.perform (.host s) = .ok (report, next)) :
    q.Trailed (.host s) report next := by
  have running (r : Pipeline) (same : p.SameHost r) : r.perform (.host s) = r.hostStep s :=
    if_pos (same.running.trans trails.running)
  cases s with
  | release => exact waits.elim
  | tick => exact waits.elim
  | shutdown => exact waits.elim
  | setTuning tuning =>
    cases checked : tuning.validate with
    | error e =>
      refine trails.still _ p.commands (fun _ => .rejected (.setup e)) (·.events)
        trails.sound.commands (fun r same => ?_) (fun _ _ => rfl) report next performed
      rw [running r same, hostStep, sendTuning, checked, ← same.commands]
      rfl
    | ok done =>
      refine trails.command _ (.setTuning tuning) ?_ (fun r => ?_) report next performed
      · intro valid same
        cases same
        exact checked
      · rw [hostStep, sendTuning, checked]
        rfl
  | resetHistory =>
    exact trails.command _ .resetHistory (fun _ same => by cases same) (fun _ => rfl) report next
      performed
  | poll =>
    refine trails.still _ p.commands (fun r => .event r.events.poll.1) (·.events.poll.2)
      trails.sound.commands (fun r same => ?_) (fun _ _ => rfl) report next performed
    rw [running r same, ← same.commands]
    rfl
  | drainEvents =>
    refine trails.still _ p.commands (fun r => .events r.events.drain.1) (·.events.drain.2)
      trails.sound.commands (fun r same => ?_) (fun _ _ => rfl) report next performed
    rw [running r same, ← same.commands]
    rfl
  | countEvents =>
    refine trails.still _ p.commands (fun r => .count r.events.queue.items.length) (·.events)
      trails.sound.commands (fun r same => ?_) (fun _ _ => rfl) report next performed
    rw [running r same, ← same.commands]
    rfl
  | askStats =>
    refine trails.still _ p.commands (fun r => .statistics r.stats r.running) (·.events)
      trails.sound.commands (fun r same => ?_) (fun r same => ?_) report next performed
    · rw [running r same, ← same.commands]
      rfl
    · rw [same.running]
      rfl

theorem Trails.step (trails : p.Trails q blocks) (s : Step) (waits : s.Waits) (report : Report)
    (next : Pipeline) (performed : p.perform s = .ok (report, next))
    (taken : report.answer ≠ .accepted false) :
    q.Trailed s report next := by
  cases s with
  | driver s =>
    cases s with
    | deliver samples => exact trails.deliver samples report next performed taken
    | deliverBytes bytes =>
      rw [perform_deliverBytes] at performed
      rw [Trailed, perform_deliverBytes]
      exact trails.deliver _ report next performed taken
    | dropProducer => exact waits.elim
    | askConnected =>
      let answer (r : Pipeline) : Answer :=
        if r.hasProducer then .connection r.isConnected r.config.blockSize.toNat else .noProducer
      refine trails.still (.driver .askConnected) p.commands answer (·.events) trails.sound.commands
        (fun r same => ?_) (fun r same => ?_) report next performed
      · rw [perform, driverStep, ← same.commands]
        simp only [answer]
        split
        · rfl
        · rfl
      · simp only [answer, isConnected, same.producer, same.config, same.running]
  | host s => exact trails.attend s waits report next performed

theorem waits_success (held : p.held = true) (s : Step) (waits : s.Waits) :
    ∃ report next, p.perform s = .ok (report, next) ∧ next.held = true := by
  cases s with
  | driver s =>
    cases s with
    | deliver samples =>
      rw [perform, driverStep_deliver, afterOffer_held held]
      split
      · exact ⟨_, _, rfl, (offer_steady p samples).held.trans held⟩
      · exact ⟨_, _, rfl, held⟩
    | deliverBytes bytes =>
      rw [perform_deliverBytes, perform, driverStep_deliver, afterOffer_held held]
      split
      · exact ⟨_, _, rfl, (offer_steady p _).held.trans held⟩
      · exact ⟨_, _, rfl, held⟩
    | dropProducer => exact waits.elim
    | askConnected =>
      rw [perform, driverStep]
      split
      · exact ⟨_, _, rfl, held⟩
      · exact ⟨_, _, rfl, held⟩
  | host s =>
    rw [perform]
    split
    · have answered (sent : Except PipelineError Pipeline)
          (kept : ∀ next, sent = .ok next → next.held = p.held) :
          (p.answerSend sent).2.held = true := by
        cases sent with
        | error e => exact held
        | ok next => exact (kept next rfl).trans held
      cases s with
      | release => exact waits.elim
      | tick => exact waits.elim
      | shutdown => exact waits.elim
      | setTuning tuning =>
        refine ⟨_, _, rfl, answered _ fun next sent => ?_⟩
        rw [(sendTuning_success tuning next sent).2]
      | resetHistory =>
        refine ⟨_, _, rfl, answered _ fun next sent => ?_⟩
        rw [send_success _ next sent]
      | _ => exact ⟨_, _, rfl, held⟩
    · exact ⟨_, _, rfl, held⟩

theorem held_success (held : p.held = true) (steps : List Step) (waits : ∀ s ∈ steps, s.Waits) :
    ∃ reports next, p.trace (steps.map .step) = .ok (reports, next) := by
  induction steps generalizing p with
  | nil => exact ⟨[], p, rfl⟩
  | cons s steps ih =>
    obtain ⟨report, next, performed, still⟩ := waits_success held s (waits s (by simp))
    obtain ⟨reports, last, ran⟩ := ih still fun other member => waits other (by simp [member])
    have whole := trace_act p next (steps.map .step) (.step s) report performed
    rw [ran] at whole
    exact ⟨_, _, whole⟩

theorem Trails.trace (trails : p.Trails q blocks) (steps : List Step) (waits : ∀ s ∈ steps, s.Waits)
    (reports : List Report) (next : Pipeline)
    (ran : p.trace (steps.map .step) = .ok (reports, next))
    (taken : ∀ report ∈ reports, report.answer ≠ .accepted false) :
    ∃ rest replies later, q.trace (steps.map .step) = .ok (replies, later) ∧
      List.Forall₂ (fun report reply : Report => report.answer.essence = reply.answer.essence)
        reports replies ∧ next.Trails later rest := by
  induction steps generalizing p q blocks reports with
  | nil =>
    cases ran
    exact ⟨blocks, [], q, rfl, .nil, trails⟩
  | cons s steps ih =>
    obtain ⟨report, middle, others, performed, tail, rfl⟩ := Checked.trace_cons act _ _ _ _ _ ran
    obtain ⟨_, reply, after, replied, same, kept⟩ :=
      trails.step s (waits s (by simp)) report middle performed (taken report (by simp))
    obtain ⟨rest, replies, later, followed, agrees, last⟩ := ih kept
      (fun other member => waits other (by simp [member])) others tail
      (fun other member => taken other (by simp [member]))
    have whole := trace_act q after (steps.map .step) (.step s) reply replied
    rw [followed] at whole
    exact ⟨rest, _, later, whole, .cons same agrees, last⟩

theorem Trails.release (trails : p.Trails q blocks) :
    ∃ analyses, p.release = .ok (analyses, p.caughtUp blocks) ∧
      (p.caughtUp blocks).release = .ok ([], p.caughtUp blocks) := by
  obtain ⟨-, drained, -⟩ := trails.caughtUp_spec
  obtain ⟨_, _, _, _, _, frame⟩ := p.caughtUp_frame blocks
  have few := length_queued trails.sound trails.backlog
  refine ⟨({ p with held := false }.absorbAll blocks).1, ?_, ?_⟩
  -- One takes all that is queued, the other has nothing left to take.
  · have sound : Sound { p with held := false } := { trails.sound with }
    have queued : Backlog { p with held := false } blocks := { trails.backlog with }
    have unspent : p.analyzer.blocksAnalyzed + min blocks.length blocks.length < UInt64.size := by
      rw [trails.untouched, Nat.min_self, Nat.zero_add]
      exact Nat.lt_of_le_of_lt few (by decide)
    rw [Pipeline.release, advance, if_pos ⟨trails.running, Bool.false_ne_true⟩, drain,
      queued.length_lengths, analyzeQueued_eq sound queued, if_pos unspent, List.take_length]
    rfl
  · have unheld : { p.caughtUp blocks with held := false } = p.caughtUp blocks := by rw [frame]
    rw [Pipeline.release, unheld, advance, drain, drained.lengths]
    exact ite_self _

theorem shutdown_released (analyses : List Analysis) (released : p.release = .ok (analyses, q))
    (again : q.release = .ok ([], q)) :
    p.shutdown = q.shutdown.map fun run => ({ run.1 with analyses }, run.2) := by
  rw [shutdown, shutdown, released, again, Checked.ok_bind, Checked.ok_bind]
  dsimp only
  split
  · cases q.tick <;> rfl
  · rfl

theorem Trails.released (trails : p.Trails q blocks) (s : Step) (releases : s.Releases) :
    ∃ report next reply later, p.perform s = .ok (report, next) ∧ q.perform s = .ok (reply, later) ∧
      report.answer.essence = reply.answer.essence ∧ next.Alike later := by
  obtain ⟨analyses, own, none⟩ := trails.release
  obtain ⟨sound, drained, counted⟩ := trails.caughtUp_spec
  have running := (p.caughtUp_host blocks).running.trans trails.running
  have few := length_queued trails.sound trails.backlog
  -- It is enough to compare with the pipeline that has caught up.
  suffices both : ∃ report next reply, p.perform s = .ok (report, next) ∧
      (p.caughtUp blocks).perform s = .ok (reply, next) ∧ report.answer = reply.answer by
    obtain ⟨report, next, reply, performed, other, same⟩ := both
    obtain ⟨last, later, replied, agrees, alike⟩ := trails.replies s reply next other
    exact ⟨report, next, last, later, performed, replied, same ▸ agrees, alike⟩
  cases s with
  | driver s =>
    cases s with
    | dropProducer =>
      refine ⟨{ answer := .done, analyses }, { p.caughtUp blocks with hasProducer := false },
        { answer := .done }, ?_, ?_, rfl⟩
      · rw [perform, driverStep, own]
        rfl
      · rw [perform, driverStep, none]
        rfl
    | _ => exact releases.elim
  | host s =>
    rw [perform, perform, if_pos trails.running, if_pos running]
    cases s with
    | release =>
      refine ⟨{ answer := .done, analyses }, p.caughtUp blocks, { answer := .done }, ?_, ?_, rfl⟩
      · rw [hostStep, own]
        rfl
      · rw [hostStep, none]
        rfl
    | shutdown =>
      have nothing : (p.caughtUp blocks).due (.step (.host .shutdown)) = 0 := by
        rw [due, flow_eq (p := { p.caughtUp blocks with held := false }) { drained with },
          List.length_nil, ite_self]
      obtain ⟨reply, next, _, ended, -⟩ := shutdown_stepped sound drained (by
        rw [nothing, counted]
        exact Nat.lt_of_le_of_lt few (by decide))
      refine ⟨{ reply with analyses }, next, reply, ?_, ended, rfl⟩
      rw [hostStep, shutdown_released analyses own none, ended]
      rfl
    | _ => exact releases.elim

theorem Answer.essence_ticked (answer : Answer) (tick : Tick) :
    answer.essence = .ticked tick ↔ answer = .ticked tick := by
  cases answer <;> simp only [essence, reduceCtorEq]

theorem start_trails {config : Config} {sink : Sink} {latency : Nat → Nat}
    (started : start config sink latency true = .ok p)
    (other : start config sink latency false = .ok q) : p.Trails q [] := by
  have fresh := start_fresh started
  obtain ⟨_, _, configured, rfl⟩ := start_success started
  obtain ⟨_, _, again, rfl⟩ := start_success other
  rw [configured] at again
  cases again
  exact ⟨fresh.sound, fresh.backlog, rfl, rfl, fresh.counted, _, _, rfl⟩

end

/-- The same analyses and answers in both runs, apart from waiting events and
counts, and the same ticks. -/
def Alongside (reports replies : List Report) : Prop :=
  List.Forall₂ (fun report reply : Report =>
    report.answer.essence = reply.answer.essence ∧ report.analyses = reply.analyses ∧
      ∀ tick, report.answer = .ticked tick ↔ reply.answer = .ticked tick) reports replies

/-- It does not matter when the transform side drains the queue. Two runs that
have accepted the same blocks agree whenever both have drained it, and a run
that was held until a release goes on as if it had never been held. -/
theorem drain_schedule_unobservable {config : Config} {sink other : Sink} {latency pace : Nat → Nat}
    {held unheld : Bool} {p q : Pipeline} (started : start config sink latency held = .ok p)
    (again : start config other pace unheld = .ok q) :
    (∀ actions others, p.Exhausts actions ∨ q.Exhausts others ∨ ∃ reports r replies s,
      p.trace actions = .ok (reports, r) ∧ q.trace others = .ok (replies, s) ∧
      (accepted config.blockSize.toNat actions reports =
          accepted config.blockSize.toNat others replies →
        r.lengths.items = [] → s.lengths.items = [] → SameSchedule reports replies r s)) ∧
    (held = true → unheld = false → other = sink → pace = latency →
      ∀ before, (∀ step ∈ before, step.Waits) → ∃ reports middle,
        p.trace (before.map .step) = .ok (reports, middle) ∧
        ((∀ report ∈ reports, report.answer ≠ .accepted false) → ∀ step, step.Releases →
          ∃ report r replies reply s,
            p.trace ((before ++ [step]).map .step) = .ok (reports ++ [report], r) ∧
            q.trace ((before ++ [step]).map .step) = .ok (replies ++ [reply], s) ∧
            List.Forall₂ (fun report reply : Report => report.answer.essence = reply.answer.essence)
              (reports ++ [report]) (replies ++ [reply]) ∧
            ∀ after, Checked.Matched (fun x y => Alongside x.1 y.1)
              (r.trace after) (s.trace after))) := by
  have fresh := start_fresh started
  have other_fresh := start_fresh again
  refine ⟨?_, ?_⟩
  · intro actions others
    rcases trace_complete fresh actions with exhausts | ⟨reports, r, ran⟩
    · exact .inl exhausts
    rcases trace_complete other_fresh others with exhausts | ⟨replies, s, followed⟩
    · exact .inr (.inl exhausts)
    refine .inr (.inr ⟨reports, r, replies, s, ran, followed, fun same drained emptied => ?_⟩)
    have size : p.size = config.blockSize.toNat ∧ q.size = config.blockSize.toNat := by
      obtain ⟨_, _, _, rfl⟩ := start_success started
      obtain ⟨_, _, _, rfl⟩ := start_success again
      exact ⟨rfl, rfl⟩
    have nothing := start_content started
    apply sameSchedule (start_analyzer started again) nothing
      (trace_replay fresh actions reports ran) (trace_replay other_fresh others replies followed)
    rw [analysed_drained fresh actions reports ran drained,
      analysed_drained other_fresh others replies followed emptied, size.1, size.2, same]
  · rintro rfl rfl rfl rfl before waits
    have trails := start_trails started again
    obtain ⟨reports, middle, ran⟩ := held_success trails.held before waits
    refine ⟨reports, middle, ran, fun taken step releases => ?_⟩
    obtain ⟨rest, replies, later, followed, agrees, kept⟩ :=
      trails.trace before waits reports middle ran taken
    obtain ⟨report, r, reply, s, performed, replied, same, alike⟩ := kept.released step releases
    refine ⟨report, r, replies, reply, s, ?_, ?_, List.rel_append agrees (.cons same .nil),
      fun after => ?_⟩
    · rw [List.map_append]
      exact Checked.trace_snoc_success act p _ (.step step) reports middle report r ran performed
    · rw [List.map_append]
      exact Checked.trace_snoc_success act q _ (.step step) replies later reply s followed replied
    · refine (trace_agrees alike after).imp fun x y both => both.1.imp fun first second agree => ?_
      refine ⟨agree.1, agree.2, fun tick => ?_⟩
      rw [← first.answer.essence_ticked, agree.1, second.answer.essence_ticked]

theorem standard_drain_schedule : ∃ p q report r replies reply s,
    start .standard .log (fun _ => 0) true = .ok p ∧
    start .standard .log (fun _ => 0) false = .ok q ∧
    p.trace [.step (.driver (.deliver [1200, -700])), .step (.host .release)] =
      .ok ([{ answer := .accepted true }, report], r) ∧
    q.trace [.step (.driver (.deliver [1200, -700])), .step (.host .release)] =
      .ok (replies ++ [reply], s) ∧
    Checked.Matched (fun x y => Alongside x.1 y.1) (r.trace [.step (.host .tick)])
      (s.trace [.step (.host .tick)]) := by
  obtain ⟨p, middle, started, waited⟩ : ∃ p middle,
      start .standard .log (fun _ => 0) true = .ok p ∧
      p.trace [.step (.driver (.deliver [1200, -700]))] =
        .ok ([{ answer := .accepted true }], middle) := ⟨_, _, rfl, rfl⟩
  obtain ⟨q, again⟩ : ∃ q, start .standard .log (fun _ => 0) false = .ok q := ⟨_, rfl⟩
  obtain ⟨reports, _, ran, released⟩ :=
    (drain_schedule_unobservable started again).2 rfl rfl rfl rfl
      [.driver (.deliver [1200, -700])] (by simp [Step.Waits])
  obtain ⟨rfl, rfl⟩ := Prod.mk.inj (Except.ok.inj (waited.symm.trans ran))
  obtain ⟨report, r, replies, reply, s, held, unheld, -, after⟩ :=
    released (by simp) (.host .release) trivial
  exact ⟨p, q, report, r, replies, reply, s, started, again, held, unheld, after _⟩

end BandLight.Pipeline
