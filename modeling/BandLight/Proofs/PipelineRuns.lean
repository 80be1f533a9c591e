import BandLight.Proofs.PipelineTick

/-! Runs of a pipeline with its parties in any order. Besides the steps of
driver and host, in which the transform side follows at once, a delivery may
only queue its block and the transform side may take queued blocks at any time.
No action fails unless it would analyse a block when the block numbers are
spent, and every action keeps the two queues, the ring and the history of
deliveries and analyses in agreement. -/
namespace BandLight.Pipeline

inductive Action
  | step (step : Step)
  /-- The driver queues a block and the transform side does not wake up. -/
  | queue (samples : List Sample)
  | queueBytes (bytes : List UInt8)
  /-- The transform side takes up to so many blocks, whether it is held or not. -/
  | analyze (blocks : Nat)
  deriving DecidableEq, Repr, Inhabited

def afterQueue (offered : Bool × Pipeline) : Report × Pipeline :=
  ({ answer := .accepted offered.1 }, offered.2)

def act (p : Pipeline) : Action → Checked (Report × Pipeline)
  | .step s => p.perform s
  | .queue samples =>
      if p.hasProducer then do
        let offered ← p.offer samples
        return afterQueue offered
      else .ok ({ answer := .noProducer }, p)
  | .queueBytes bytes =>
      .ok (if p.hasProducer then afterQueue (p.offerBytes bytes) else ({ answer := .noProducer }, p))
  | .analyze blocks =>
      if p.running then do
        let (analyses, p) ← p.analyzeQueued blocks
        return ({ answer := .done, analyses }, p)
      else .ok ({ answer := .stopped }, p)

def trace (p : Pipeline) (actions : List Action) : Checked (List Report × Pipeline) :=
  Checked.trace act p actions

theorem trace_act (p q : Pipeline) (actions : List Action) (action : Action) (report : Report)
    (acted : p.act action = .ok (report, q)) :
    p.trace (action :: actions) = (q.trace actions).map fun run => (report :: run.1, run.2) :=
  Checked.trace_cons_eq act p q action actions report acted

theorem act_queue (p : Pipeline) (samples : List Sample) :
    p.act (.queue samples) =
      .ok (if p.hasProducer then afterQueue (p.offered samples)
        else ({ answer := .noProducer }, p)) := by
  rw [act, offer_eq]
  cases p.hasProducer <;> rfl

/-- What an action delivers: as many samples as the block size, from the first. -/
def Action.block (size : Nat) : Action → List Sample
  | .queue samples | .step (.driver (.deliver samples)) => samples.take size
  | .queueBytes bytes | .step (.driver (.deliverBytes bytes)) => (Sample.decode bytes).take size
  | _ => []

/-- The block that was delivered and accepted, if there was one. -/
def Action.taken (size : Nat) (action : Action) (report : Report) : List (List Sample) :=
  if report.answer = .accepted true ∧ action.block size ≠ [] then [action.block size] else []

def accepted (size : Nat) (actions : List Action) (reports : List Report) : List (List Sample) :=
  (actions.zip reports).flatMap fun entry => entry.1.taken size entry.2

def analysed (reports : List Report) : List (List Sample) :=
  reports.flatMap fun report => report.analyses.map (·.block)

/-- The number of blocks that the transform side takes on its own. -/
def flow (p : Pipeline) : Nat := if p.running ∧ ¬ p.held then p.lengths.items.length else 0

def due (p : Pipeline) : Action → Nat
  | .queue _ | .queueBytes _ => 0
  | .analyze blocks => if p.running then min blocks p.lengths.items.length else 0
  | .step (.driver (.deliver samples)) => if p.hasProducer then (p.offered samples).2.flow else 0
  | .step (.driver (.deliverBytes bytes)) => if p.hasProducer then (p.offerBytes bytes).2.flow else 0
  | .step (.driver .dropProducer) | .step (.host .release) | .step (.host .shutdown) =>
      { p with held := false }.flow
  | _ => 0

/-- A run comes to an action that would analyse more blocks than there are
block numbers. -/
def Exhausts (p : Pipeline) (actions : List Action) : Prop :=
  ∃ before action after reports q, actions = before ++ action :: after ∧
    p.trace before = .ok (reports, q) ∧ UInt64.size ≤ (analysed reports).length + q.due action

/-- What neither a delivery nor an analysis changes. -/
structure Steady (p q : Pipeline) : Prop where
  config : q.config = p.config
  running : q.running = p.running
  held : q.held = p.held
  attended : q.events.attended = p.events.attended

/-- A pipeline runs until it is shut down, and its host leaves when it stops. -/
structure Going (p : Pipeline) (action : Action) (q : Pipeline) : Prop where
  running : q.running = true ↔ p.running = true ∧ action ≠ .step (.host .shutdown)
  attended : p.events.attended = p.running → q.events.attended = q.running

/-- What an action does to a pipeline whose queue holds some blocks. -/
structure Stepped (p : Pipeline) (blocks : List (List Sample)) (action : Action) (report : Report)
    (q : Pipeline) (rest : List (List Sample)) : Prop where
  sound : q.Sound
  backlog : q.Backlog rest
  config : q.config = p.config
  order : blocks ++ action.taken p.size report = report.analyses.map (·.block) ++ rest
  counted : q.analyzer.blocksAnalyzed = p.analyzer.blocksAnalyzed + report.analyses.length
  due : report.analyses.length = p.due action
  going : p.Going action q
  /-- A step leaves nothing that the transform side would take on its own. -/
  settled : ∀ s, action = .step s → p.flow = 0 → q.flow = 0

section
variable {p : Pipeline} {blocks : List (List Sample)}

theorem analyzeQueued_spec (sound : p.Sound) (backlog : p.Backlog blocks) (count : Nat)
    (unspent : p.analyzer.blocksAnalyzed + min count blocks.length < UInt64.size) :
    ∃ analyses q, analyzeQueued count p = .ok (analyses, q) ∧ q.Sound ∧
      q.Backlog (blocks.drop count) ∧ p.Steady q ∧
      analyses.map (·.block) = blocks.take count ∧
      q.analyzer.blocksAnalyzed = p.analyzer.blocksAnalyzed + analyses.length := by
  have split : p.Backlog (blocks.take count ++ blocks.drop count) := by
    rw [List.take_append_drop]
    exact backlog
  have size : (blocks.take count).length = min count blocks.length := List.length_take
  obtain ⟨kept, left, analysed, counted⟩ :=
    absorbAll_spec sound (blocks.take count) (blocks.drop count) split (by rw [size]; exact unspent)
  have attended := attended_absorbAll p (blocks.take count)
  obtain ⟨_, _, _, _, _, frame⟩ := absorbAll_frame p (blocks.take count)
  refine ⟨_, _, ?_, kept, left, ?_, analysed, ?_⟩
  · rw [analyzeQueued_eq sound backlog, if_pos unspent]
  · rw [frame] at attended ⊢
    exact ⟨rfl, rfl, rfl, attended⟩
  · have length := congrArg List.length analysed
    rw [List.length_map] at length
    rw [counted, length]

theorem flow_eq (backlog : p.Backlog blocks) :
    p.flow = if p.running ∧ ¬ p.held then blocks.length else 0 := by
  rw [flow, backlog.length_lengths]

theorem advance_spec (sound : p.Sound) (backlog : p.Backlog blocks)
    (unspent : p.analyzer.blocksAnalyzed + p.flow < UInt64.size) :
    ∃ analyses q rest, p.advance = .ok (analyses, q) ∧ q.Sound ∧ q.Backlog rest ∧
      p.Steady q ∧ blocks = analyses.map (·.block) ++ rest ∧
      q.analyzer.blocksAnalyzed = p.analyzer.blocksAnalyzed + analyses.length ∧
      analyses.length = p.flow ∧ q.flow = 0 := by
  rw [flow_eq backlog] at unspent ⊢
  by_cases flowing : p.running ∧ ¬ p.held
  · rw [if_pos flowing] at unspent ⊢
    obtain ⟨analyses, q, ran, kept, left, steady, analysed, counted⟩ :=
      analyzeQueued_spec sound backlog blocks.length (by rw [Nat.min_self]; exact unspent)
    rw [List.drop_length] at left
    rw [List.take_length] at analysed
    refine ⟨analyses, q, [], ?_, kept, left, steady, ?_, counted, ?_, ?_⟩
    · rw [advance, if_pos flowing, drain, backlog.length_lengths, ran]
    · rw [analysed, List.append_nil]
    · rw [← analysed, List.length_map]
    · rw [flow_eq left, List.length_nil, ite_self]
  · have still : p.flow = 0 := if_neg flowing
    rw [if_neg flowing]
    refine ⟨[], p, blocks, ?_, sound, backlog, ⟨rfl, rfl, rfl, rfl⟩, rfl, rfl, rfl, still⟩
    rw [advance, if_neg flowing]

theorem offer_steady (p : Pipeline) (samples : List Sample) : p.Steady (p.offered samples).2 := by
  have kept (count : Nat) (block : List Sample) : p.Steady (p.enqueue count block).2 := by
    unfold enqueue
    split
    · exact ⟨rfl, rfl, rfl, rfl⟩
    · split
      · exact ⟨rfl, rfl, rfl, EventQueue.attended_post _ _⟩
      · split
        · exact ⟨rfl, rfl, rfl, EventQueue.attended_post _ _⟩
        · exact ⟨rfl, rfl, rfl, rfl⟩
  exact kept _ _

theorem offer_spec (sound : p.Sound) (backlog : p.Backlog blocks) (samples : List Sample) :
    ∃ rest, (p.offered samples).2.Sound ∧ (p.offered samples).2.Backlog rest ∧
      (p.offered samples).2.analyzer = p.analyzer ∧
      blocks ++ (if (p.offered samples).1 = true ∧ samples.take p.size ≠ [] then
        [samples.take p.size] else []) = rest := by
  rw [offered_eq sound backlog samples]
  have short : (samples.take p.size).length ≤ p.size := List.length_take_le _ _
  generalize samples.take p.size = block at short ⊢
  by_cases empty : block = []
  · rw [if_pos empty]
    refine ⟨blocks, sound, backlog, rfl, ?_⟩
    rw [if_neg (fun both => both.2 empty), List.append_nil]
  · rw [if_neg empty]
    by_cases refused : 2 * p.size < p.samples.samples.length + block.length
    · rw [if_pos refused]
      refine ⟨blocks, overrun_sound sound _, overrun_backlog backlog _, rfl, ?_⟩
      rw [if_neg (fun both => Bool.false_ne_true both.1), List.append_nil]
    · rw [if_neg refused]
      refine ⟨blocks ++ [block], enlist_sound sound _,
        enlist_backlog backlog block empty short (by omega), rfl, ?_⟩
      rw [if_pos ⟨rfl, empty⟩]

theorem release_spec (sound : p.Sound) (backlog : p.Backlog blocks)
    (unspent : p.analyzer.blocksAnalyzed + { p with held := false }.flow < UInt64.size) :
    ∃ analyses q rest, p.release = .ok (analyses, q) ∧ q.Sound ∧ q.Backlog rest ∧
      Steady { p with held := false } q ∧ blocks = analyses.map (·.block) ++ rest ∧
      q.analyzer.blocksAnalyzed = p.analyzer.blocksAnalyzed + analyses.length ∧
      analyses.length = { p with held := false }.flow ∧ q.flow = 0 :=
  advance_spec (p := { p with held := false }) { sound with }
    { backlog with } unspent

theorem Going.of_same {q : Pipeline} {action : Action} (running : q.running = p.running)
    (attended : q.events.attended = p.events.attended)
    (other : p.running = true → action ≠ .step (.host .shutdown)) : p.Going action q := by
  refine ⟨?_, ?_⟩
  · rw [running]
    exact ⟨fun runs => ⟨runs, other runs⟩, And.left⟩
  · rw [attended, running]
    exact id

theorem Stepped.still {q : Pipeline} {action : Action} (answer : Answer)
    (before : p.Backlog blocks) (sound : q.Sound)
    (backlog : q.Backlog blocks) (steady : p.Steady q)
    (counted : q.analyzer.blocksAnalyzed = p.analyzer.blocksAnalyzed)
    (untaken : action.taken p.size { answer } = []) (due : p.due action = 0)
    (other : p.running = true → action ≠ .step (.host .shutdown)) :
    Stepped p blocks action { answer } q blocks := by
  refine ⟨sound, backlog, steady.config, ?_, counted, due.symm,
    .of_same steady.running steady.attended other, ?_⟩
  · rw [untaken, List.append_nil]
    rfl
  · intro s _ idle
    rw [flow_eq before] at idle
    rw [flow_eq backlog, steady.running, steady.held, idle]

theorem Stepped.posted (sound : p.Sound) (backlog : p.Backlog blocks) (events : EventQueue)
    (attended : events.attended = p.events.attended) (answer : Answer) (action : Action)
    (block : action.block p.size = []) (due : p.due action = 0)
    (other : p.running = true → action ≠ .step (.host .shutdown)) :
    Stepped p blocks action { answer } { p with events } blocks :=
  .still _ backlog { sound with } { backlog with } ⟨rfl, rfl, rfl, attended⟩ rfl
    (if_neg fun both => both.2 block) due other

theorem posted_step (sound : p.Sound) (backlog : p.Backlog blocks) (events : EventQueue)
    (attended : events.attended = p.events.attended) (answer : Answer) (action : Action)
    (block : action.block p.size = []) (due : p.due action = 0)
    (other : action ≠ .step (.host .shutdown)) :
    ∃ report q rest, (.ok ({ answer }, { p with events }) : Checked (Report × Pipeline)) =
      .ok (report, q) ∧ Stepped p blocks action report q rest :=
  ⟨_, _, _, rfl, .posted sound backlog events attended answer action block due fun _ => other⟩

theorem untaken_of_answer (action : Action) (size : Nat) (report : Report)
    (other : report.answer ≠ .accepted true) : action.taken size report = [] :=
  if_neg fun both => other both.1

theorem untaken_of_block (action : Action) (size : Nat) (report : Report)
    (empty : action.block size = []) : action.taken size report = [] :=
  if_neg fun both => both.2 empty

theorem taken_accepted (action : Action) (size : Nat) (taken : Bool) (analyses : List Analysis) :
    action.taken size { answer := .accepted taken, analyses } =
      if taken = true ∧ action.block size ≠ [] then [action.block size] else [] := by
  simp only [Action.taken, Answer.accepted.injEq]

theorem queue_stepped (sound : p.Sound) (backlog : p.Backlog blocks) (samples : List Sample)
    (action : Action) (block : action.block p.size = samples.take p.size) (due : p.due action = 0)
    (manual : ∀ s, action ≠ .step s) :
    ∃ report q rest,
      (if p.hasProducer then afterQueue (p.offered samples) else ({ answer := .noProducer }, p)) =
        (report, q) ∧ Stepped p blocks action report q rest := by
  cases p.hasProducer with
  | false =>
    exact ⟨_, _, _, rfl, .still .noProducer backlog sound backlog ⟨rfl, rfl, rfl, rfl⟩ rfl
      (untaken_of_answer _ _ _ (by decide)) due (fun _ => manual _)⟩
  | true =>
    have steady := offer_steady p samples
    obtain ⟨rest, kept, queued, analyzer, order⟩ := offer_spec sound backlog samples
    refine ⟨_, _, rest, rfl, kept, queued, steady.config, ?_, ?_, due.symm,
      .of_same steady.running steady.attended (fun _ => manual _),
      fun s same => absurd same (manual s)⟩
    · rw [taken_accepted, block, order]
      rfl
    · rw [analyzer]
      rfl

theorem deliver_stepped (sound : p.Sound) (backlog : p.Backlog blocks) (samples : List Sample)
    (action : Action) (block : action.block p.size = samples.take p.size)
    (due : p.due action = if p.hasProducer then (p.offered samples).2.flow else 0)
    (other : action ≠ .step (.host .shutdown))
    (unspent : p.analyzer.blocksAnalyzed + p.due action < UInt64.size) :
    ∃ report q rest,
      (if p.hasProducer then afterOffer (p.offered samples) else .ok ({ answer := .noProducer }, p)) =
        .ok (report, q) ∧ Stepped p blocks action report q rest := by
  cases producer : p.hasProducer with
  | false =>
    rw [producer] at due
    exact ⟨_, _, _, rfl, .still .noProducer backlog sound backlog ⟨rfl, rfl, rfl, rfl⟩ rfl
      (untaken_of_answer _ _ _ (by decide)) due (fun _ => other)⟩
  | true =>
    rw [producer, if_pos rfl] at due
    have steady := offer_steady p samples
    obtain ⟨queue, kept, queued, analyzer, order⟩ := offer_spec sound backlog samples
    rw [due, ← analyzer] at unspent
    obtain ⟨analyses, q, rest, ran, finished, left, still, split, counted, number, idle⟩ :=
      advance_spec kept queued unspent
    refine ⟨{ answer := .accepted (p.offered samples).1, analyses }, q, rest, ?_, finished, left,
      still.config.trans steady.config, ?_, ?_, number.trans due.symm,
      .of_same (still.running.trans steady.running) (still.attended.trans steady.attended)
        (fun _ => other), fun _ _ _ => idle⟩
    · rw [if_pos rfl, afterOffer, ran]
      rfl
    · rw [taken_accepted, block, order, split]
    · rw [counted, analyzer]

theorem release_stepped (sound : p.Sound) (backlog : p.Backlog blocks) (action : Action)
    (block : action.block p.size = []) (due : p.due action = { p with held := false }.flow)
    (other : action ≠ .step (.host .shutdown))
    (unspent : p.analyzer.blocksAnalyzed + p.due action < UInt64.size) :
    ∃ analyses q rest, p.release = .ok (analyses, q) ∧
      ∀ answer, Stepped p blocks action { answer, analyses } q rest := by
  rw [due] at unspent
  obtain ⟨analyses, q, rest, ran, kept, left, steady, order, counted, number, idle⟩ :=
    release_spec sound backlog unspent
  refine ⟨analyses, q, rest, ran, fun answer =>
    ⟨kept, left, steady.config, ?_, counted, number.trans due.symm,
      .of_same steady.running steady.attended (fun _ => other), fun _ _ _ => idle⟩⟩
  rw [untaken_of_block _ _ _ block, List.append_nil, order]

theorem stop_eq (p : Pipeline) :
    ∃ events, p.stop.2.2 = { p with events, running := false, aggregating := false } ∧
      events.attended = false := by
  unfold stop
  split
  · exact ⟨_, rfl, rfl⟩
  · exact ⟨_, rfl, rfl⟩

theorem stop_stepped {q r : Pipeline} {rest : List (List Sample)} {analyses : List Analysis}
    (answer : Answer) (kept : q.Sound) (left : q.Backlog rest)
    (steady : Steady { p with held := false } q) (order : blocks = analyses.map (·.block) ++ rest)
    (counted : q.analyzer.blocksAnalyzed = p.analyzer.blocksAnalyzed + analyses.length)
    (number : analyses.length = { p with held := false }.flow)
    (stopped : ∃ events, r = { q with events, running := false, aggregating := false } ∧
      events.attended = false) :
    Stepped p blocks (.step (.host .shutdown)) { answer, analyses } r rest := by
  obtain ⟨events, rfl, left_out⟩ := stopped
  refine ⟨{ kept with }, { left with }, steady.config, ?_, counted, number, ⟨?_, fun _ => left_out⟩,
    fun _ _ _ => if_neg fun both => Bool.false_ne_true both.1⟩
  · rw [untaken_of_block _ _ _ rfl, List.append_nil, order]
  · exact ⟨fun running => absurd running Bool.false_ne_true, fun both => absurd rfl both.2⟩

theorem driver_stepped (sound : p.Sound) (backlog : p.Backlog blocks) (s : DriverStep)
    (unspent : p.analyzer.blocksAnalyzed + p.due (.step (.driver s)) < UInt64.size) :
    ∃ report q rest, p.driverStep s = .ok (report, q) ∧
      Stepped p blocks (.step (.driver s)) report q rest := by
  have going : Action.step (.driver s) ≠ .step (.host .shutdown) := by rintro ⟨⟩
  cases s with
  | deliver samples =>
    rw [driverStep_deliver]
    exact deliver_stepped sound backlog samples _ rfl rfl going unspent
  | deliverBytes bytes =>
    rw [driverStep, offerBytes_eq]
    exact deliver_stepped sound backlog (Sample.decode bytes) _ rfl
      (by rw [← offerBytes_eq]; rfl) going unspent
  | dropProducer =>
    obtain ⟨analyses, q, rest, ran, stepped⟩ :=
      release_stepped sound backlog (.step (.driver .dropProducer)) rfl rfl going unspent
    refine ⟨{ answer := .done, analyses }, { q with hasProducer := false }, rest, ?_, ?_⟩
    · rw [driverStep, ran]
      rfl
    · have same := stepped .done
      exact { same with
        sound := { same.sound with }
        backlog := { same.backlog with }
        going := { same.going with } }
  | askConnected =>
    rw [driverStep]
    split
    · exact posted_step sound backlog p.events rfl _ _ rfl rfl going
    · exact posted_step sound backlog p.events rfl _ _ rfl rfl going

theorem send_there (running : p.running = true) (there : p.aggregating = true)
    (command : Command) : p.send command = .ok { p with commands := p.commands ++ [command] } := by
  unfold send
  rw [running, there]
  rfl

theorem send_gone (running : p.running = true) (gone : p.aggregating = false)
    (command : Command) : p.send command = .error .channelSendError := by
  unfold send
  rw [running, gone]
  rfl

theorem send_success (command : Command) (q : Pipeline) (sent : p.send command = .ok q) :
    q = { p with commands := p.commands ++ [command] } := by
  unfold send at sent
  split at sent
  · cases sent
  · split at sent
    · cases sent
    · exact (Except.ok.inj sent).symm

theorem sendTuning_success (tuning : Tuning) (q : Pipeline) (sent : p.sendTuning tuning = .ok q) :
    tuning.Valid ∧ q = { p with commands := p.commands ++ [.setTuning tuning] } := by
  unfold sendTuning at sent
  cases valid : tuning.validate with
  | error e => rw [valid] at sent; cases sent
  | ok done =>
    rw [valid] at sent
    exact ⟨valid, send_success _ q sent⟩

/-- A command that is sent waits behind those sent before. -/
theorem command_stepped (sound : p.Sound) (backlog : p.Backlog blocks) (action : Action)
    (block : action.block p.size = []) (due : p.due action = 0)
    (other : action ≠ .step (.host .shutdown)) (sent : Except PipelineError Pipeline)
    (command : Command)
    (valid : ∀ q, sent = .ok q → (∀ tuning, command = .setTuning tuning → tuning.Valid) ∧
      q = { p with commands := p.commands ++ [command] }) :
    ∃ report q rest, p.answerSend sent = (report, q) ∧ Stepped p blocks action report q rest := by
  cases sent with
  | error e =>
    exact ⟨_, _, _, rfl, .posted sound backlog p.events rfl _ _ block due (fun _ => other)⟩
  | ok q =>
    obtain ⟨good, rfl⟩ := valid q rfl
    refine ⟨_, _, _, rfl, .still _ backlog ?_ { backlog with } ⟨rfl, rfl, rfl, rfl⟩ rfl
      (untaken_of_block _ _ _ block) due (fun _ => other)⟩
    refine { sound with commands := ?_ }
    intro tuning member
    rcases List.mem_append.mp member with earlier | last
    · exact sound.commands tuning earlier
    · exact good tuning (List.mem_singleton.mp last).symm

theorem shutdown_stepped (sound : p.Sound) (backlog : p.Backlog blocks)
    (unspent : p.analyzer.blocksAnalyzed + p.due (.step (.host .shutdown)) < UInt64.size) :
    ∃ report q rest, p.shutdown = .ok (report, q) ∧
      Stepped p blocks (.step (.host .shutdown)) report q rest := by
  obtain ⟨analyses, q, rest, ran, kept, left, steady, order, counted, number, _⟩ :=
    release_spec sound backlog unspent
  unfold shutdown
  rw [ran]
  simp only [Checked.ok_bind]
  split
  · obtain ⟨tick, r, ticked, sane, intake⟩ := q.tick_success kept
    simp only [ticked, Checked.ok_bind]
    refine ⟨_, _, rest, rfl, stop_stepped _ sane (left.congr _ intake.config intake.samples
      intake.lengths) ⟨?_, ?_, ?_, ?_⟩ order (intake.counted.trans counted) number (stop_eq r)⟩
    · exact intake.config.trans steady.config
    · exact intake.running.trans steady.running
    · exact intake.held.trans steady.held
    · exact intake.attended.trans steady.attended
  · exact ⟨_, _, rest, rfl, stop_stepped _ kept left steady order counted number (stop_eq q)⟩

theorem host_stepped (sound : p.Sound) (backlog : p.Backlog blocks) (s : HostStep)
    (unspent : p.analyzer.blocksAnalyzed + p.due (.step (.host s)) < UInt64.size) :
    ∃ report q rest, p.hostStep s = .ok (report, q) ∧
      Stepped p blocks (.step (.host s)) report q rest := by
  cases s with
  | release =>
    obtain ⟨analyses, q, rest, ran, stepped⟩ :=
      release_stepped sound backlog (.step (.host .release)) rfl rfl nofun unspent
    refine ⟨{ answer := .done, analyses }, q, rest, ?_, stepped _⟩
    rw [hostStep, ran]
    rfl
  | tick =>
    rw [hostStep]
    split
    · obtain ⟨tick, q, ticked, kept, intake⟩ := p.tick_success sound
      rw [ticked]
      exact ⟨_, _, _, rfl, .still _ backlog kept
        (backlog.congr _ intake.config intake.samples intake.lengths)
        ⟨intake.config, intake.running, intake.held, intake.attended⟩ intake.counted
        (untaken_of_block _ _ _ rfl) rfl (fun _ => nofun)⟩
    · exact posted_step sound backlog p.events rfl _ _ rfl rfl nofun
  | setTuning tuning =>
    obtain ⟨report, q, rest, answered, stepped⟩ := command_stepped sound backlog
      (.step (.host (.setTuning tuning))) rfl rfl nofun (p.sendTuning tuning) (.setTuning tuning)
      (fun q sent => by
        obtain ⟨valid, same⟩ := sendTuning_success tuning q sent
        refine ⟨fun other equal => ?_, same⟩
        cases equal
        exact valid)
    exact ⟨report, q, rest, congrArg Except.ok answered, stepped⟩
  | resetHistory =>
    obtain ⟨report, q, rest, answered, stepped⟩ := command_stepped sound backlog
      (.step (.host .resetHistory)) rfl rfl nofun (p.send .resetHistory) .resetHistory
      (fun q sent => ⟨fun _ equal => Command.noConfusion equal, send_success _ q sent⟩)
    exact ⟨report, q, rest, congrArg Except.ok answered, stepped⟩
  | poll => exact posted_step sound backlog p.events.poll.2 rfl _ _ rfl rfl nofun
  | drainEvents => exact posted_step sound backlog p.events.drain.2 rfl _ _ rfl rfl nofun
  | countEvents => exact posted_step sound backlog p.events rfl _ _ rfl rfl nofun
  | askStats => exact posted_step sound backlog p.events rfl _ _ rfl rfl nofun
  | shutdown => exact shutdown_stepped sound backlog unspent

theorem act_stepped (sound : p.Sound) (backlog : p.Backlog blocks) (action : Action)
    (unspent : p.analyzer.blocksAnalyzed + p.due action < UInt64.size) :
    ∃ report q rest, p.act action = .ok (report, q) ∧ Stepped p blocks action report q rest := by
  cases action with
  | queue samples =>
    obtain ⟨report, q, rest, ran, stepped⟩ :=
      queue_stepped sound backlog samples (.queue samples) rfl rfl nofun
    exact ⟨report, q, rest, (act_queue p samples).trans (congrArg Except.ok ran), stepped⟩
  | queueBytes bytes =>
    obtain ⟨report, q, rest, ran, stepped⟩ :=
      queue_stepped sound backlog (Sample.decode bytes) (.queueBytes bytes) rfl rfl nofun
    rw [← offerBytes_eq] at ran
    exact ⟨report, q, rest, congrArg Except.ok ran, stepped⟩
  | analyze count =>
    have length := backlog.length_lengths
    have number : p.due (.analyze count) = if p.running then min count blocks.length else 0 := by
      rw [due, length]
    rw [act]
    cases running : p.running with
    | false =>
      exact ⟨_, _, _, rfl, .posted sound backlog p.events rfl _ _ rfl (by rw [number, running]; rfl)
        (fun _ => nofun)⟩
    | true =>
      rw [running, if_pos rfl] at number
      rw [number] at unspent
      obtain ⟨analyses, q, ran, kept, left, steady, order, counted⟩ :=
        analyzeQueued_spec sound backlog count unspent
      refine ⟨{ answer := .done, analyses }, q, blocks.drop count, ?_, kept, left, steady.config,
        ?_, counted, ?_, .of_same steady.running steady.attended (fun _ => nofun), nofun⟩
      · rw [if_pos rfl, ran]
        rfl
      · rw [untaken_of_block _ _ _ rfl, List.append_nil, order, List.take_append_drop]
      · have length := congrArg List.length order
        rw [List.length_map, List.length_take] at length
        rw [number, length]
  | step s =>
    cases s with
    | driver s => exact driver_stepped sound backlog s unspent
    | host s =>
      change ∃ report q rest, (if p.running then p.hostStep s else _) = _ ∧ _
      split
      · exact host_stepped sound backlog s unspent
      · next stopped =>
        have none : p.due (.step (.host s)) = 0 := by
          cases s <;> first | rfl | exact if_neg (fun both => stopped both.1)
        exact ⟨_, _, _, rfl, .posted sound backlog p.events rfl _ _ (by cases s <;> rfl) none
          (fun running => absurd running stopped)⟩

theorem advance_spent (sound : p.Sound) (backlog : p.Backlog blocks)
    (spent : UInt64.size ≤ p.analyzer.blocksAnalyzed + p.flow) : p.advance = .error .overflow := by
  have counted := sound.counted
  have length := backlog.length_lengths
  rw [flow] at spent
  split at spent
  · next flowing =>
    rw [length] at spent
    rw [advance, if_pos flowing, drain, length, analyzeQueued_eq sound backlog, if_neg]
    rw [Nat.min_self]
    omega
  · omega

theorem release_spent (sound : p.Sound) (backlog : p.Backlog blocks)
    (spent : UInt64.size ≤ p.analyzer.blocksAnalyzed + { p with held := false }.flow) :
    p.release = .error .overflow :=
  advance_spent (p := { p with held := false }) { sound with }
    { backlog with } spent

theorem deliver_spent (sound : p.Sound) (backlog : p.Backlog blocks) (samples : List Sample)
    (spent : UInt64.size ≤ p.analyzer.blocksAnalyzed +
      if p.hasProducer then (p.offered samples).2.flow else 0) :
    (if p.hasProducer then afterOffer (p.offered samples) else .ok ({ answer := .noProducer }, p)) =
      .error .overflow := by
  have counted := sound.counted
  obtain ⟨queue, kept, queued, analyzer, order⟩ := offer_spec sound backlog samples
  cases producer : p.hasProducer with
  | false =>
    rw [producer] at spent
    simp only [Bool.false_eq_true, if_false] at spent
    omega
  | true =>
    rw [producer, if_pos rfl, ← analyzer] at spent
    rw [if_pos rfl, afterOffer, advance_spent kept queued spent]
    rfl

/-- An action that needs more block numbers than are left fails. -/
theorem act_spent (sound : p.Sound) (backlog : p.Backlog blocks) (action : Action)
    (spent : UInt64.size ≤ p.analyzer.blocksAnalyzed + p.due action) :
    p.act action = .error .overflow := by
  have counted := sound.counted
  have released (held : UInt64.size ≤ p.analyzer.blocksAnalyzed + { p with held := false }.flow) :
      p.release = .error .overflow ∧ p.running = true := by
    refine ⟨release_spent sound backlog held, ?_⟩
    cases running : p.running with
    | true => rfl
    | false =>
      simp only [flow, running, Bool.false_eq_true, false_and, if_false] at held
      omega
  cases action with
  | queue samples => exact absurd spent (Nat.not_le.mpr counted)
  | queueBytes bytes => exact absurd spent (Nat.not_le.mpr counted)
  | analyze count =>
    have length := backlog.length_lengths
    rw [due, length] at spent
    split at spent
    · next running =>
      rw [act, if_pos running, analyzeQueued_eq sound backlog, if_neg (by omega)]
      rfl
    · exact absurd spent (Nat.not_le.mpr counted)
  | step s =>
    cases s with
    | driver s =>
      cases s with
      | deliver samples =>
        rw [act, perform, driverStep_deliver]
        exact deliver_spent sound backlog samples spent
      | deliverBytes bytes =>
        rw [due, offerBytes_eq] at spent
        rw [act, perform, driverStep, offerBytes_eq]
        exact deliver_spent sound backlog _ spent
      | dropProducer =>
        rw [act, perform, driverStep, (released spent).1]
        rfl
      | askConnected => exact absurd spent (Nat.not_le.mpr counted)
    | host s =>
      cases s with
      | release =>
        rw [act, perform, if_pos (released spent).2, hostStep, (released spent).1]
        rfl
      | shutdown =>
        rw [act, perform, if_pos (released spent).2, hostStep, shutdown, (released spent).1]
        rfl
      | _ => exact absurd spent (Nat.not_le.mpr counted)

theorem stepped_of_act (sound : p.Sound) (backlog : p.Backlog blocks) (action : Action)
    (report : Report) (q : Pipeline) (acted : p.act action = .ok (report, q)) :
    ∃ rest, Stepped p blocks action report q rest := by
  by_cases unspent : p.analyzer.blocksAnalyzed + p.due action < UInt64.size
  · obtain ⟨other, r, rest, ran, stepped⟩ := act_stepped sound backlog action unspent
    rw [acted] at ran
    cases ran
    exact ⟨rest, stepped⟩
  · rw [act_spent sound backlog action (Nat.not_lt.mp unspent)] at acted
    cases acted

end

end BandLight.Pipeline
