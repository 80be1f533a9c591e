import BandLight.Proofs.PipelineHistory

/-! The moves of a pipeline. A move is one change that one party makes: a block is
queued, refused or analysed, a command is sent, the aggregate side ticks, the host
takes events. Every action is a list of moves which can be read off its report, so
that what every move keeps is kept by every action. -/
namespace BandLight.Pipeline

inductive Move
  | enlist (block : List Sample)
  | refuse (count : Nat)
  | absorb (block : List Sample)
  /-- The transform side is held back no longer. -/
  | unhold
  | dropProducer
  | send (command : Command)
  | tick
  /-- The host takes so many events, the oldest first. -/
  | take (count : Nat)
  | stop
  deriving DecidableEq, Repr, Inhabited

/-- The driver's producer, the aggregate side or the host move last in an action. -/
def Move.closes : Move → Bool
  | .dropProducer | .send _ | .tick | .take _ | .stop => true
  | _ => false

def move (p : Pipeline) : Move → Pipeline
  | .enlist block => p.enlist block
  | .refuse count => p.overrun count
  | .absorb block => (p.absorb block).2
  | .unhold => { p with held := false }
  | .dropProducer => { p with hasProducer := false }
  | .send command => { p with commands := p.commands ++ [command] }
  | .tick =>
      match p.tick with
      | .ok (_, q) => q
      | .error _ => p
  | .take count =>
      let items := p.events.queue.items.drop count
      { p with events := { p.events with queue := { p.events.queue with items } } }
  | .stop => p.stop.2.2

namespace Action

/-- What becomes of the block that an action delivers. -/
def delivering (size : Nat) (action : Action) (report : Report) : List Move :=
  if report.answer = .accepted false then [.refuse (action.block size).length]
  else (action.taken size report).map .enlist

def waking (action : Action) (report : Report) : List Move :=
  match action with
  | .step (.driver .dropProducer) => [.unhold]
  | .step (.host .release) | .step (.host .shutdown) =>
      if report.answer = .stopped then [] else [.unhold]
  | _ => []

def closing (action : Action) (report : Report) : List Move :=
  match action, report.answer with
  | .step (.driver .dropProducer), _ => [.dropProducer]
  | .step (.host .tick), .ticked _ => [.tick]
  | .step (.host (.setTuning tuning)), .done => [.send (.setTuning tuning)]
  | .step (.host .resetHistory), .done => [.send .resetHistory]
  | .step (.host .poll), .event event => [.take event.toList.length]
  | .step (.host .drainEvents), .events events => [.take events.length]
  | .step (.host .shutdown), .finished tick _ _ => (tick.toList.map fun _ => .tick) ++ [.stop]
  | _, _ => []

/-- Delivered and analysed blocks come in between what wakes the transform side up
and what the aggregate side and the host do. -/
def moves (size : Nat) (action : Action) (report : Report) : List Move :=
  action.delivering size report ++ action.waking report ++
    report.analyses.map (fun analysis => .absorb analysis.block) ++ action.closing report

end Action

/-- The two queues of a sound pipeline hold some blocks between them. -/
def InOrder (p : Pipeline) : Prop := p.Sound ∧ ∃ blocks, p.Backlog blocks

/-- Moves that lead from one pipeline to another, each from a pipeline in order. -/
inductive Moves : Pipeline → List Move → Pipeline → Prop
  | nil (p) : Moves p [] p
  | cons {p q} (move moves) (order : p.InOrder) (rest : Moves (p.move move) moves q) :
      Moves p (move :: moves) q

section
variable {p q r : Pipeline} {blocks : List (List Sample)}

theorem Moves.append {first second : List Move} (moves : Moves p first q)
    (others : Moves q second r) : Moves p (first ++ second) r := by
  induction moves with
  | nil => exact others
  | cons move moves order rest ih => exact .cons move _ order (ih others)

theorem Moves.single (move : Move) (order : p.InOrder) : Moves p [move] (p.move move) :=
  .cons move [] order (.nil _)

theorem InOrder.act (order : p.InOrder) (action : Action) (report : Report)
    (acted : p.act action = .ok (report, q)) : q.InOrder := by
  obtain ⟨sound, blocks, backlog⟩ := order
  obtain ⟨rest, stepped⟩ := stepped_of_act sound backlog action report q acted
  exact ⟨stepped.sound, rest, stepped.backlog⟩

theorem Fresh.inOrder (fresh : p.Fresh) : p.InOrder := ⟨fresh.sound, [], fresh.backlog⟩

theorem absorbAll_moves (sound : p.Sound) (first rest : List (List Sample))
    (backlog : p.Backlog (first ++ rest))
    (unspent : p.analyzer.blocksAnalyzed + first.length < UInt64.size) :
    Moves p (first.map .absorb) (p.absorbAll first).2 := by
  induction first generalizing p with
  | nil => exact .nil p
  | cons block first ih =>
    rw [List.length_cons] at unspent
    -- What is left of the backlog is the backlog of the pipeline after the first block.
    have later := absorb_sound sound block (backlog.short block (by simp))
      (by change p.analyzer.blocksAnalyzed + 1 < UInt64.size; omega)
    exact .cons (.absorb block) _ ⟨sound, _, backlog⟩ (ih later (absorb_backlog block backlog)
      (by change p.analyzer.blocksAnalyzed + 1 + first.length < UInt64.size; omega))

theorem analyzeQueued_moves (sound : p.Sound) (backlog : p.Backlog blocks) (count : Nat)
    (analyses : List Analysis) (ran : analyzeQueued count p = .ok (analyses, q)) :
    Moves p (analyses.map fun analysis => .absorb analysis.block) q ∧ q.InOrder := by
  rw [analyzeQueued_eq sound backlog] at ran
  split at ran
  · next unspent =>
    have whole : p.Backlog (blocks.take count ++ blocks.drop count) := by
      rw [List.take_append_drop]
      exact backlog
    rw [← List.length_take] at unspent
    have moves := absorbAll_moves sound (blocks.take count) (blocks.drop count) whole unspent
    obtain ⟨kept, left, taken, -⟩ :=
      absorbAll_spec sound (blocks.take count) (blocks.drop count) whole unspent
    obtain ⟨rfl, rfl⟩ := Prod.mk.inj (Except.ok.inj ran)
    rw [← congrArg (List.map Move.absorb) taken, List.map_map] at moves
    exact ⟨moves, kept, _, left⟩
  · cases ran

theorem advance_moves (order : p.InOrder) (analyses : List Analysis)
    (ran : p.advance = .ok (analyses, q)) :
    Moves p (analyses.map fun analysis => .absorb analysis.block) q ∧ q.InOrder := by
  obtain ⟨sound, blocks, backlog⟩ := order
  unfold advance at ran
  split at ran
  · exact analyzeQueued_moves sound backlog _ analyses ran
  · cases ran
    exact ⟨.nil p, sound, blocks, backlog⟩

theorem InOrder.unhold (order : p.InOrder) : InOrder { p with held := false } := by
  obtain ⟨sound, blocks, backlog⟩ := order
  exact ⟨{ sound with }, blocks, { backlog with }⟩

theorem release_moves (order : p.InOrder) (analyses : List Analysis)
    (ran : p.release = .ok (analyses, q)) :
    Moves p (.unhold :: analyses.map fun analysis => .absorb analysis.block) q ∧ q.InOrder := by
  obtain ⟨moves, last⟩ := advance_moves order.unhold analyses ran
  exact ⟨.cons .unhold _ order moves, last⟩

theorem offer_inOrder (order : p.InOrder) (samples : List Sample) :
    (p.offered samples).2.InOrder := by
  obtain ⟨sound, blocks, backlog⟩ := order
  obtain ⟨rest, kept, queued, -⟩ := offer_spec sound backlog samples
  exact ⟨kept, rest, queued⟩

theorem offer_moves (order : p.InOrder) (samples : List Sample) :
    Moves p (if (p.offered samples).1 = false then [.refuse (samples.take p.size).length]
      else if samples.take p.size = [] then [] else [.enlist (samples.take p.size)])
      (p.offered samples).2 := by
  obtain ⟨sound, blocks, backlog⟩ := order
  rw [offered_eq sound backlog samples]
  generalize samples.take p.size = block
  by_cases empty : block = []
  · simp only [if_pos empty]
    exact .nil p
  · by_cases refused : 2 * p.size < p.samples.samples.length + block.length
    · simp only [if_neg empty, if_pos refused]
      exact .single (.refuse block.length) ⟨sound, blocks, backlog⟩
    · simp only [if_neg empty, if_neg refused]
      exact .single (.enlist block) ⟨sound, blocks, backlog⟩

theorem delivering_accepted (action : Action) (size : Nat) (taken : Bool)
    (analyses : List Analysis) : action.delivering size { answer := .accepted taken, analyses } =
      if taken = false then [.refuse (action.block size).length]
      else if action.block size = [] then [] else [.enlist (action.block size)] := by
  rw [Action.delivering, taken_accepted]
  cases taken with
  | false => rfl
  | true =>
    by_cases empty : action.block size = []
    · simp [empty]
    · simp [empty]

theorem delivering_other (action : Action) (size : Nat) (report : Report)
    (other : ∀ taken, report.answer ≠ .accepted taken) : action.delivering size report = [] := by
  rw [Action.delivering, if_neg (other false), untaken_of_answer _ _ _ (other true), List.map_nil]

theorem waking_unhold (action : Action) (report : Report) :
    ∀ move ∈ action.waking report, move = .unhold := by
  unfold Action.waking
  split
  · simp
  · split <;> simp
  · split <;> simp
  · simp

theorem mem_closing {action : Action} {size : Nat} {report : Report} {move : Move}
    (member : move ∈ action.moves size report) (closes : move.closes = true) :
    move ∈ action.closing report := by
  simp only [Action.moves, List.mem_append] at member
  rcases member with ((delivered | woken) | absorbed) | closing
  · unfold Action.delivering at delivered
    split at delivered
    · cases List.mem_singleton.mp delivered
      cases closes
    · obtain ⟨block, _, rfl⟩ := List.mem_map.mp delivered
      cases closes
  · cases waking_unhold _ _ move woken
    cases closes
  · obtain ⟨analysis, _, rfl⟩ := List.mem_map.mp absorbed
    cases closes
  · exact closing

theorem offered_moves (order : p.InOrder) (samples : List Sample) (action : Action)
    (block : action.block p.size = samples.take p.size) (analyses : List Analysis)
    (waking : action.waking { answer := .accepted (p.offered samples).1, analyses } = [])
    (closing : action.closing { answer := .accepted (p.offered samples).1, analyses } = [])
    (rest : Moves (p.offered samples).2 (analyses.map fun analysis => .absorb analysis.block) q) :
    Moves p (action.moves p.size { answer := .accepted (p.offered samples).1, analyses }) q := by
  have offered := (offer_moves order samples).append rest
  rw [← block] at offered
  rw [Action.moves, waking, closing, delivering_accepted, List.append_nil, List.append_nil]
  exact offered

theorem deliver_moves (order : p.InOrder) (samples : List Sample) (action : Action)
    (block : action.block p.size = samples.take p.size)
    (plain : ∀ report, action.waking report = [] ∧ action.closing report = [])
    (report : Report) (ran : (if p.hasProducer then afterOffer (p.offered samples)
      else .ok ({ answer := .noProducer }, p)) = .ok (report, q)) :
    Moves p (action.moves p.size report) q := by
  split at ran
  · obtain ⟨⟨analyses, r⟩, advanced, ran⟩ := Checked.bind_success _ _ _ ran
    obtain ⟨moves, -⟩ := advance_moves (offer_inOrder order samples) analyses advanced
    cases ran
    exact offered_moves order samples action block analyses (plain _).1 (plain _).2 moves
  · cases ran
    rw [Action.moves, (plain _).1, (plain _).2, delivering_other _ _ _ (by simp)]
    exact .nil p

theorem queue_moves (order : p.InOrder) (samples : List Sample) (action : Action)
    (block : action.block p.size = samples.take p.size)
    (plain : ∀ report, action.waking report = [] ∧ action.closing report = [])
    (report : Report) (ran : (if p.hasProducer then afterQueue (p.offered samples)
      else ({ answer := .noProducer }, p)) = (report, q)) :
    Moves p (action.moves p.size report) q := by
  split at ran
  · cases ran
    exact offered_moves order samples action block [] (plain _).1 (plain _).2 (.nil _)
  · cases ran
    rw [Action.moves, (plain _).1, (plain _).2, delivering_other _ _ _ (by simp)]
    exact .nil p

theorem move_tick (tick : Tick) (ticked : p.tick = .ok (tick, q)) : p.move .tick = q := by
  rw [move, ticked]

theorem tick_inOrder (order : p.InOrder) (tick : Tick) (ticked : p.tick = .ok (tick, q)) :
    q.InOrder := by
  obtain ⟨sound, blocks, backlog⟩ := order
  obtain ⟨_, _, same, kept, intake⟩ := p.tick_success sound
  rw [ticked] at same
  cases same
  exact ⟨kept, blocks, backlog.congr _ intake.config intake.samples intake.lengths⟩

theorem shutdown_moves (order : p.InOrder) (report : Report)
    (acted : p.shutdown = .ok (report, q)) :
    Moves p (Action.moves p.size (.step (.host .shutdown)) report) q := by
  obtain ⟨⟨analyses, r⟩, released, acted⟩ := Checked.bind_success _ _ _ acted
  obtain ⟨moves, last⟩ := release_moves order analyses released
  dsimp only at acted
  split at acted
  · obtain ⟨⟨tick, s⟩, ticked, acted⟩ := Checked.bind_success _ _ _ acted
    cases acted
    have ended : Moves r [.tick, .stop] s.stop.2.2 := by
      apply Moves.cons .tick [.stop] last
      rw [move_tick tick ticked]
      exact .single .stop (tick_inOrder last tick ticked)
    rw [Action.moves, delivering_other _ _ _ (by simp)]
    exact moves.append ended
  · cases acted
    rw [Action.moves, delivering_other _ _ _ (by simp)]
    exact moves.append (.single .stop last)

theorem command_moves (order : p.InOrder) (action : Action) (command : Command)
    (sent : Except PipelineError Pipeline)
    (kept : ∀ next, sent = .ok next → next = { p with commands := p.commands ++ [command] })
    (report : Report) (ran : p.answerSend sent = (report, q))
    (done : action.moves p.size { answer := .done } = [.send command])
    (rejected : ∀ error, action.moves p.size { answer := .rejected error } = []) :
    Moves p (action.moves p.size report) q := by
  cases sent with
  | error error =>
    cases ran
    rw [rejected]
    exact .nil p
  | ok next =>
    cases ran
    rw [done, kept q rfl]
    exact .single (.send command) order

theorem host_moves (order : p.InOrder) (s : HostStep) (report : Report)
    (acted : p.hostStep s = .ok (report, q)) :
    Moves p (Action.moves p.size (.step (.host s)) report) q := by
  cases s with
  | release =>
    obtain ⟨⟨analyses, r⟩, released, acted⟩ := Checked.bind_success _ _ _ acted
    obtain ⟨moves, -⟩ := release_moves order analyses released
    cases acted
    rw [Action.moves, delivering_other _ _ _ (by simp)]
    exact moves.append (.nil _)
  | tick =>
    rw [hostStep] at acted
    split at acted
    · obtain ⟨⟨tick, r⟩, ticked, acted⟩ := Checked.bind_success _ _ _ acted
      cases acted
      rw [← move_tick tick ticked]
      exact .single .tick order
    · cases acted
      exact .nil p
  | setTuning tuning =>
    exact command_moves order _ (.setTuning tuning) _
      (fun next sent => (sendTuning_success tuning next sent).2) report (Except.ok.inj acted)
      rfl fun _ => rfl
  | resetHistory =>
    exact command_moves order _ .resetHistory _
      (fun next sent => send_success .resetHistory next sent) report (Except.ok.inj acted)
      rfl fun _ => rfl
  | poll =>
    have moves := Moves.single (.take p.events.poll.1.toList.length) order
    have taken : p.move (.take p.events.poll.1.toList.length) =
        { p with events := p.events.poll.2 } := by
      simp only [move, EventQueue.poll, Bounded.pop]
      cases p.events.queue.items <;> rfl
    rw [taken] at moves
    cases acted
    exact moves
  | drainEvents =>
    have moves := Moves.single (.take p.events.drain.1.length) order
    have taken : p.move (.take p.events.drain.1.length) =
        { p with events := p.events.drain.2 } := by
      simp [move, EventQueue.drain]
    rw [taken] at moves
    cases acted
    exact moves
  | countEvents =>
    cases acted
    exact .nil p
  | askStats =>
    cases acted
    exact .nil p
  | shutdown => exact shutdown_moves order report acted

theorem driver_moves (order : p.InOrder) (s : DriverStep) (report : Report)
    (acted : p.driverStep s = .ok (report, q)) :
    Moves p (Action.moves p.size (.step (.driver s)) report) q := by
  cases s with
  | deliver samples =>
    rw [driverStep_deliver] at acted
    exact deliver_moves order samples _ rfl (fun _ => ⟨rfl, rfl⟩) report acted
  | deliverBytes bytes =>
    rw [driverStep, offerBytes_eq] at acted
    exact deliver_moves order _ _ rfl (fun _ => ⟨rfl, rfl⟩) report acted
  | dropProducer =>
    obtain ⟨⟨analyses, r⟩, released, acted⟩ := Checked.bind_success _ _ _ acted
    obtain ⟨moves, last⟩ := release_moves order analyses released
    cases acted
    rw [Action.moves, delivering_other _ _ _ (by simp)]
    exact moves.append (.single .dropProducer last)
  | askConnected =>
    rw [driverStep] at acted
    split at acted
    · cases acted
      exact .nil p
    · cases acted
      exact .nil p

theorem act_moves (order : p.InOrder) (action : Action) (report : Report)
    (acted : p.act action = .ok (report, q)) : Moves p (action.moves p.size report) q := by
  cases action with
  | queue samples =>
    rw [act_queue] at acted
    exact queue_moves order samples _ rfl (fun _ => ⟨rfl, rfl⟩) report (Except.ok.inj acted)
  | queueBytes bytes =>
    rw [act, offerBytes_eq] at acted
    exact queue_moves order _ _ rfl (fun _ => ⟨rfl, rfl⟩) report (Except.ok.inj acted)
  | analyze count =>
    rw [act] at acted
    split at acted
    · obtain ⟨⟨analyses, r⟩, ran, acted⟩ := Checked.bind_success _ _ _ acted
      obtain ⟨sound, blocks, backlog⟩ := order
      obtain ⟨moves, -⟩ := analyzeQueued_moves sound backlog count analyses ran
      cases acted
      rw [Action.moves, delivering_other _ _ _ (by simp)]
      exact moves.append (.nil _)
    · cases acted
      exact .nil p
  | step s =>
    cases s with
    | driver s => exact driver_moves order s report acted
    | host s =>
      rw [act, perform] at acted
      split at acted
      · exact host_moves order s report acted
      · -- A stopped pipeline reports nothing that could be a move.
        cases acted
        have none : Action.moves p.size (.step (.host s)) { answer := .stopped } = [] := by
          cases s <;> rfl
        rw [none]
        exact .nil p

end

end BandLight.Pipeline
