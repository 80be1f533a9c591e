import BandLight.Proofs.DrainSchedules
import BandLight.Proofs.PipelineLog
import BandLight.Proofs.TickReadings

/-! The intake of a pipeline. Driver and transform side see a machine of its own: a
queue of whole blocks, an analyzer that nobody reads, and three counts. It never
gets to know of ticks, commands, events or the sink, so pipelines with the same
configuration take in, refuse and analyse the same blocks whatever is done about
the spectra. -/
namespace BandLight

namespace Analyzer

def unread (a : Analyzer) : Analyzer := { a with mailbox := .empty 0 }

theorem absorbEach_unread (a : Analyzer) (blocks : List (List Sample)) :
    (a.unread.absorbEach blocks).1 = (a.absorbEach blocks).1 ∧
      (a.unread.absorbEach blocks).2.unread = (a.absorbEach blocks).2.unread := by
  obtain ⟨same, last, later⟩ := a.absorbEach_mailbox (.empty 0) blocks
  exact ⟨same, (congrArg unread later).trans rfl⟩

end Analyzer

namespace Pipeline

structure Intake where
  blockSize : Nat
  waiting : List (List Sample)
  analyzer : Analyzer
  delivered : Nat
  analyzed : Nat
  overruns : Nat
  held : Bool
  hasProducer : Bool
  running : Bool
  deriving DecidableEq, Repr

/-- What an intake shows of an action, apart from the last tick of a shutdown. -/
structure Front where
  action : Action
  report : Report
  delivered : Nat
  analyzed : Nat
  overruns : Nat
  deriving DecidableEq, Repr

namespace Intake

def absorb (i : Intake) (count : Nat) : Checked (List Analysis × Intake) :=
  if i.analyzer.blocksAnalyzed + min count i.waiting.length < UInt64.size then
    let (analyses, analyzer) := i.analyzer.absorbEach (i.waiting.take count)
    .ok (analyses, { i with
      waiting := i.waiting.drop count
      analyzer := analyzer.unread
      analyzed := i.analyzed + min count i.waiting.length })
  else .error .overflow

def advance (i : Intake) : Checked (List Analysis × Intake) :=
  if i.running ∧ ¬ i.held then i.absorb i.waiting.length else .ok ([], i)

def release (i : Intake) : Checked (List Analysis × Intake) := advance { i with held := false }

/-- A block is queued when its samples fit behind those that wait. -/
def offer (i : Intake) (block : List Sample) : Bool × Intake :=
  if block = [] then (true, i)
  else if 2 * i.blockSize < i.waiting.flatten.length + block.length then
    (false, { i with overruns := i.overruns + 1 })
  else (true, { i with waiting := i.waiting ++ [block], delivered := i.delivered + 1 })

def queue (i : Intake) (samples : List Sample) : Report × Intake :=
  if i.hasProducer then
    let (taken, next) := i.offer (samples.take i.blockSize)
    ({ answer := .accepted taken }, next)
  else ({ answer := .noProducer }, i)

def deliver (i : Intake) (samples : List Sample) : Checked (Report × Intake) :=
  if i.hasProducer then do
    let (taken, next) := i.offer (samples.take i.blockSize)
    let (analyses, next) ← next.advance
    return ({ answer := .accepted taken, analyses }, next)
  else .ok ({ answer := .noProducer }, i)

def act (i : Intake) : Action → Checked (Report × Intake)
  | .queue samples => .ok (i.queue samples)
  | .queueBytes bytes => .ok (i.queue (Sample.decode bytes))
  | .analyze count =>
      if i.running then do
        let (analyses, i) ← i.absorb count
        return ({ answer := .done, analyses }, i)
      else .ok ({ answer := .stopped }, i)
  | .step (.driver (.deliver samples)) => i.deliver samples
  | .step (.driver (.deliverBytes bytes)) => i.deliver (Sample.decode bytes)
  | .step (.driver .dropProducer) => do
      let (analyses, i) ← i.release
      return ({ answer := .done, analyses }, { i with hasProducer := false })
  | .step (.host .release) =>
      if i.running then do
        let (analyses, i) ← i.release
        return ({ answer := .done, analyses }, i)
      else .ok ({ answer := .stopped }, i)
  | .step (.host .shutdown) =>
      if i.running then do
        let (analyses, i) ← i.release
        return ({ answer := .finished none default [], analyses }, { i with running := false })
      else .ok ({ answer := .stopped }, i)
  | .step _ => .ok ({ answer := .stopped }, i)

def note (i : Intake) (action : Action) : Checked (Front × Intake) := do
  let (report, i) ← i.act action
  return ({ action, report, delivered := i.delivered, analyzed := i.analyzed
            overruns := i.overruns }, i)

end Intake

def intake (p : Pipeline) (waiting : List (List Sample)) : Intake where
  blockSize := p.size
  waiting
  analyzer := p.analyzer.unread
  delivered := p.counters.delivered
  analyzed := p.counters.analyzed
  overruns := p.counters.overruns
  held := p.held
  hasProducer := p.hasProducer
  running := p.running

/-- A sound pipeline and its intake, with the blocks that the two queues hold. -/
inductive Feeds (p : Pipeline) : Intake → Prop
  | intro (waiting) (sound : p.Sound) (backlog : p.Backlog waiting) : Feeds p (p.intake waiting)

/-- Driver or transform side do something themselves. -/
def Action.inward : Action → Bool
  | .step (.driver .askConnected) => false
  | .step (.host .release) | .step (.host .shutdown) => true
  | .step (.host _) => false
  | _ => true

/-- An answer without what a shutdown tells of the other side. -/
def Answer.bare : Answer → Answer
  | .finished _ _ _ => .finished none default []
  | answer => answer

def Report.bare (report : Report) : Report := { report with answer := report.answer.bare }

def Entry.front (entry : Entry) : Option Front :=
  if entry.action.inward then
    some { action := entry.action
           report := entry.report.bare
           delivered := entry.after.counters.delivered
           analyzed := entry.after.counters.analyzed
           overruns := entry.after.counters.overruns }
  else none

section
variable {p q : Pipeline} {i : Intake}

theorem absorbAll_intake (p : Pipeline) (blocks rest : List (List Sample)) :
    (p.absorbAll blocks).2.intake rest = { p.intake rest with
      analyzer := (p.analyzer.absorbEach blocks).2.unread
      analyzed := p.counters.analyzed + blocks.length } := by
  induction blocks generalizing p with
  | nil => rfl
  | cons block blocks ih =>
    have later := ih (p.absorb block).2
    have count : p.counters.analyzed + 1 + blocks.length =
        p.counters.analyzed + (block :: blocks).length := by
      rw [List.length_cons]
      omega
    rw [← count]
    exact later

theorem absorb_feeds (feeds : p.Feeds i) (count : Nat) :
    Checked.Matched (fun x y => x.1 = y.1 ∧ x.2.Feeds y.2) (analyzeQueued count p)
      (i.absorb count) := by
  obtain ⟨waiting, sound, backlog⟩ := feeds
  rw [analyzeQueued_eq sound backlog, Intake.absorb]
  by_cases unspent : p.analyzer.blocksAnalyzed + min count waiting.length < UInt64.size
  · rw [if_pos unspent, if_pos (by exact unspent)]
    have whole : p.Backlog (waiting.take count ++ waiting.drop count) := by
      rw [List.take_append_drop]
      exact backlog
    obtain ⟨kept, left, -⟩ := absorbAll_spec sound (waiting.take count) (waiting.drop count) whole
      (by rw [List.length_take]; exact unspent)
    obtain ⟨analyses, analyzer⟩ := p.analyzer.absorbEach_unread (waiting.take count)
    have later := absorbAll_intake p (waiting.take count) (waiting.drop count)
    rw [List.length_take, ← analyzer] at later
    refine ⟨(absorbAll_analyzer p _).1.trans analyses.symm, ?_⟩
    have stands := Feeds.intro (waiting.drop count) kept left
    rw [later] at stands
    exact stands
  · rw [if_neg unspent, if_neg (by exact unspent)]
    exact rfl

theorem advance_feeds (feeds : p.Feeds i) :
    Checked.Matched (fun x y => x.1 = y.1 ∧ x.2.Feeds y.2) p.advance i.advance := by
  have drained := absorb_feeds feeds i.waiting.length
  obtain ⟨waiting, sound, backlog⟩ := feeds
  unfold advance Intake.advance drain
  rw [backlog.length_lengths]
  by_cases flowing : p.running ∧ ¬ p.held
  · rw [if_pos flowing, if_pos (by exact flowing)]
    exact drained
  · rw [if_neg flowing, if_neg (by exact flowing)]
    exact ⟨rfl, .intro waiting sound backlog⟩

theorem release_feeds (feeds : p.Feeds i) :
    Checked.Matched (fun x y => x.1 = y.1 ∧ x.2.Feeds y.2) p.release i.release := by
  obtain ⟨waiting, sound, backlog⟩ := feeds
  exact advance_feeds (.intro (p := { p with held := false }) waiting { sound with }
    { backlog with })

theorem offer_feeds (feeds : p.Feeds i) (samples : List Sample) :
    (p.offered samples).1 = (i.offer (samples.take i.blockSize)).1 ∧
      (p.offered samples).2.Feeds (i.offer (samples.take i.blockSize)).2 := by
  obtain ⟨waiting, sound, backlog⟩ := feeds
  have short : (samples.take p.size).length ≤ p.size := List.length_take_le _ _
  rw [offered_eq sound backlog samples, backlog.samples]
  change _ = ((p.intake waiting).offer (samples.take p.size)).1 ∧
    Feeds _ ((p.intake waiting).offer (samples.take p.size)).2
  generalize samples.take p.size = block at short ⊢
  unfold Intake.offer
  by_cases empty : block = []
  · rw [if_pos empty, if_pos empty]
    exact ⟨rfl, .intro waiting sound backlog⟩
  · rw [if_neg empty, if_neg empty]
    by_cases refused : 2 * p.size < waiting.flatten.length + block.length
    · rw [if_pos refused, if_pos (by exact refused)]
      exact ⟨rfl, .intro waiting (overrun_sound sound _) (overrun_backlog backlog _)⟩
    · rw [if_neg refused, if_neg (by exact refused)]
      refine ⟨rfl, .intro (waiting ++ [block]) (enlist_sound sound block)
        (enlist_backlog backlog block empty short ?_)⟩
      rw [backlog.samples]
      omega

theorem ticked_feeds (feeds : p.Feeds i) : p.ticked.2.Feeds i := by
  obtain ⟨waiting, sound, backlog⟩ := feeds
  obtain ⟨tick, q, ticked, kept, intake⟩ := p.tick_success sound
  rw [tick_eq_ticked sound] at ticked
  cases ticked
  have left := backlog.congr _ intake.config intake.samples intake.lengths
  have same : p.ticked.2.intake waiting = p.intake waiting := by
    have analyzer : p.ticked.2.analyzer.unread = p.analyzer.unread := by
      simp only [ticked]
      split
      · rfl
      · rfl
    simp only [Pipeline.intake, analyzer]
    rfl
  rw [← same]
  exact .intro waiting kept left

theorem stop_feeds (feeds : p.Feeds i) : p.stop.2.2.Feeds { i with running := false } := by
  obtain ⟨waiting, sound, backlog⟩ := feeds
  obtain ⟨events, stopped, -⟩ := stop_eq p
  rw [stopped]
  exact .intro (p := { p with events, running := false, aggregating := false }) waiting
    { sound with } { backlog with }

theorem Feeds.sound (feeds : p.Feeds i) : p.Sound := by
  obtain ⟨waiting, sound, backlog⟩ := feeds
  exact sound

theorem Feeds.running (feeds : p.Feeds i) : i.running = p.running := by
  obtain ⟨waiting, sound, backlog⟩ := feeds
  rfl

theorem Feeds.hasProducer (feeds : p.Feeds i) : i.hasProducer = p.hasProducer := by
  obtain ⟨waiting, sound, backlog⟩ := feeds
  rfl

theorem deliver_feeds (feeds : p.Feeds i) (samples : List Sample) :
    Checked.Matched (fun x y => x.1.bare = y.1 ∧ x.2.Feeds y.2)
      (if p.hasProducer then afterOffer (p.offered samples) else .ok ({ answer := .noProducer }, p))
      (i.deliver samples) := by
  obtain ⟨taken, offered⟩ := offer_feeds feeds samples
  unfold Intake.deliver
  rw [feeds.hasProducer]
  split
  · apply (advance_feeds offered).bind
    rintro ⟨analyses, r⟩ ⟨_, j⟩ ⟨rfl, later⟩
    exact ⟨by rw [taken]; rfl, later⟩
  · exact ⟨rfl, feeds⟩

theorem queue_feeds (feeds : p.Feeds i) (samples : List Sample) :
    (if p.hasProducer then afterQueue (p.offered samples)
        else ({ answer := .noProducer }, p)).1.bare = (i.queue samples).1 ∧
      (if p.hasProducer then afterQueue (p.offered samples)
        else ({ answer := .noProducer }, p)).2.Feeds (i.queue samples).2 := by
  obtain ⟨taken, offered⟩ := offer_feeds feeds samples
  unfold Intake.queue
  rw [feeds.hasProducer]
  split
  · exact ⟨by rw [afterQueue, taken]; rfl, offered⟩
  · exact ⟨rfl, feeds⟩

theorem shutdown_feeds (feeds : p.Feeds i) :
    Checked.Matched (fun x y => x.1.bare = y.1 ∧ x.2.Feeds y.2) p.shutdown (do
      let (analyses, i) ← i.release
      return ({ answer := .finished none default [], analyses }, { i with running := false })) := by
  apply (release_feeds feeds).bind
  rintro ⟨analyses, r⟩ ⟨_, j⟩ ⟨rfl, later⟩
  dsimp only
  split
  · -- The last tick shows in the other side's part of the answer only.
    rw [tick_eq_ticked later.sound]
    exact ⟨rfl, stop_feeds (ticked_feeds later)⟩
  · exact ⟨rfl, stop_feeds later⟩

theorem act_feeds (feeds : p.Feeds i) (action : Action) (inward : action.inward = true) :
    Checked.Matched (fun x y => x.1.bare = y.1 ∧ x.2.Feeds y.2) (p.act action) (i.act action) := by
  have running := feeds.running
  cases action with
  | queue samples =>
    rw [act_queue]
    exact queue_feeds feeds samples
  | queueBytes bytes =>
    rw [act, offerBytes_eq]
    exact queue_feeds feeds _
  | analyze count =>
    rw [act, Intake.act, running]
    split
    · apply (absorb_feeds feeds count).bind
      rintro ⟨analyses, r⟩ ⟨_, j⟩ ⟨rfl, later⟩
      exact ⟨rfl, later⟩
    · exact ⟨rfl, feeds⟩
  | step s =>
    cases s with
    | driver s =>
      cases s with
      | deliver samples =>
        rw [act, perform, driverStep_deliver]
        exact deliver_feeds feeds samples
      | deliverBytes bytes =>
        rw [act, perform, driverStep, offerBytes_eq]
        exact deliver_feeds feeds _
      | dropProducer =>
        apply (release_feeds feeds).bind
        rintro ⟨analyses, r⟩ ⟨_, j⟩ ⟨rfl, waiting, sound, backlog⟩
        exact ⟨rfl, .intro (p := { r with hasProducer := false }) waiting { sound with }
          { backlog with }⟩
      | askConnected => cases inward
    | host s =>
      cases s with
      | release =>
        rw [act, perform, Intake.act, running]
        split
        · apply (release_feeds feeds).bind
          rintro ⟨analyses, r⟩ ⟨_, j⟩ ⟨rfl, later⟩
          exact ⟨rfl, later⟩
        · exact ⟨rfl, feeds⟩
      | shutdown =>
        rw [act, perform, Intake.act, running]
        split
        · exact shutdown_feeds feeds
        · exact ⟨rfl, feeds⟩
      | _ => cases inward

theorem Feeds.told (feeds : p.Feeds i) (events : EventQueue) (commands : List Command)
    (valid : ∀ tuning, .setTuning tuning ∈ commands → tuning.Valid) :
    Feeds { p with events, commands } i := by
  obtain ⟨waiting, sound, backlog⟩ := feeds
  exact .intro (p := { p with events, commands }) waiting { sound with commands := valid }
    { backlog with }

theorem answerSend_feeds (feeds : p.Feeds i) (command : Command)
    (sent : Except PipelineError Pipeline)
    (valid : ∀ q, sent = .ok q → (∀ tuning, command = .setTuning tuning → tuning.Valid) ∧
      q = { p with commands := p.commands ++ [command] }) :
    (p.answerSend sent).1.analyses = [] ∧ (p.answerSend sent).2.Feeds i := by
  cases sent with
  | error error => exact ⟨rfl, feeds⟩
  | ok q =>
    obtain ⟨good, rfl⟩ := valid q rfl
    refine ⟨rfl, feeds.told p.events _ ?_⟩
    intro tuning member
    rcases List.mem_append.mp member with earlier | last
    · exact feeds.sound.commands tuning earlier
    · exact good tuning (List.mem_singleton.mp last).symm

/-- Nothing is analysed for any other action, and the intake stays as it is. -/
theorem outward_feeds (feeds : p.Feeds i) (action : Action) (outward : action.inward = false) :
    ∃ report q, p.act action = .ok (report, q) ∧ report.analyses = [] ∧ q.Feeds i := by
  have valid := feeds.sound.commands
  cases action with
  | queue samples => cases outward
  | queueBytes bytes => cases outward
  | analyze count => cases outward
  | step s =>
    cases s with
    | driver s =>
      cases s with
      | askConnected =>
        rw [act, perform, driverStep]
        split
        · exact ⟨_, _, rfl, rfl, feeds⟩
        · exact ⟨_, _, rfl, rfl, feeds⟩
      | _ => cases outward
    | host s =>
      rw [act, perform]
      split
      · cases s with
        | tick =>
          rw [hostStep]
          split
          · rw [tick_eq_ticked feeds.sound]
            exact ⟨_, _, rfl, rfl, ticked_feeds feeds⟩
          · exact ⟨_, _, rfl, rfl, feeds⟩
        | setTuning tuning =>
          refine ⟨_, _, rfl, answerSend_feeds feeds (.setTuning tuning) _ fun q sent => ?_⟩
          obtain ⟨good, same⟩ := sendTuning_success tuning q sent
          refine ⟨fun other equal => ?_, same⟩
          cases equal
          exact good
        | resetHistory =>
          exact ⟨_, _, rfl, answerSend_feeds feeds .resetHistory _ fun q sent =>
            ⟨fun _ same => (by cases same), send_success _ q sent⟩⟩
        | poll => exact ⟨_, _, rfl, rfl, feeds.told _ _ valid⟩
        | drainEvents => exact ⟨_, _, rfl, rfl, feeds.told _ _ valid⟩
        | countEvents => exact ⟨_, _, rfl, rfl, feeds⟩
        | askStats => exact ⟨_, _, rfl, rfl, feeds⟩
        | release => cases outward
        | shutdown => cases outward
      · exact ⟨_, _, rfl, rfl, feeds⟩

theorem intake_projects : Checked.Projects note Intake.note Feeds Action.inward Entry.front where
  hidden := by
    intro p i action feeds outward
    obtain ⟨report, q, acted, -, later⟩ := outward_feeds feeds action outward
    exact ⟨_, q, note_act action report acted, by simp [Entry.front, outward], later⟩
  seen := by
    intro p i action feeds inward
    apply (act_feeds feeds action inward).bind
    rintro ⟨report, q⟩ ⟨_, j⟩ ⟨rfl, later⟩
    refine ⟨?_, later⟩
    obtain ⟨waiting, sound, backlog⟩ := later
    simp only [Entry.front, inward, if_true]

theorem Entry.Made.analyses {entry : Entry} (made : entry.Made) :
    entry.report.analyses = (entry.front.map (·.report.analyses)).getD [] := by
  cases turned : entry.action.inward with
  | true => simp [Entry.front, turned, Report.bare]
  | false =>
    obtain ⟨sound, waiting, backlog⟩ := made.order
    obtain ⟨report, q, acted, none, -⟩ :=
      outward_feeds (.intro waiting sound backlog) entry.action turned
    have same := made.acted
    rw [acted] at same
    cases same
    simp [Entry.front, turned, none]

theorem published_fronts (entries : List Entry) (made : ∀ entry ∈ entries, entry.Made) :
    published (entries.map (·.report)) =
      (entries.filterMap Entry.front).flatMap (·.report.analyses) := by
  induction entries with
  | nil => rfl
  | cons entry entries ih =>
    have own := (made entry (by simp)).analyses
    have rest := ih fun other member => made other (by simp [member])
    unfold published at rest ⊢
    rw [List.map_cons, List.flatMap_cons, own, rest]
    cases shown : entry.front with
    | none => simp [shown]
    | some front => simp [shown]

end

/-- Pipelines with the same configuration, the same deliveries, and transform sides
that are held back, woken up and shut down alike, give their drivers the same
answers, count the same blocks and publish the same spectra, whatever their sinks,
ticks, commands and polls are: driver and transform side see the same intake. -/
theorem intake_independent {config : Config} {sink other : Sink} {latency pace : Nat → Nat}
    {held : Bool} {p q : Pipeline} (started : start config sink latency held = .ok p)
    (again : start config other pace held = .ok q) (actions others : List Action)
    (same : actions.filter Action.inward = others.filter Action.inward) :
    (p.Exhausts actions ∧ q.Exhausts others) ∨
      ∃ log r entries s fronts i, p.log actions = .ok (log, r) ∧ q.log others = .ok (entries, s) ∧
        log.filterMap Entry.front = fronts ∧ entries.filterMap Entry.front = fronts ∧
        published (log.map (·.report)) = fronts.flatMap (·.report.analyses) ∧
        published (entries.map (·.report)) = fronts.flatMap (·.report.analyses) ∧
        r.Feeds i ∧ s.Feeds i := by
  have fresh := start_fresh started
  have anew := start_fresh again
  have alike : q.intake [] = p.intake [] := by
    obtain ⟨_, _, configured, rfl⟩ := start_success started
    obtain ⟨_, _, same, rfl⟩ := start_success again
    rw [configured] at same
    cases same
    rfl
  have first := Feeds.intro [] fresh.sound fresh.backlog
  have second := Feeds.intro [] anew.sound anew.backlog
  rw [alike] at second
  have runs := intake_projects.independent p q (p.intake []) first second actions others same
  rcases runs.cases with ⟨fault, failed, ended⟩ | ⟨x, y, ran, went, shows, i, stands, stays⟩
  · exact .inl ⟨exhausts_of_fault fresh actions fault failed,
      exhausts_of_fault anew others fault ended⟩
  · refine .inr ⟨x.1, x.2, y.1, y.2, x.1.filterMap Entry.front, i, ran, went, rfl, shows.symm, ?_,
      ?_, stands, stays⟩
    · exact published_fronts _ (log_made fresh.inOrder actions x.1 ran)
    · rw [shows]
      exact published_fronts _ (log_made anew.inOrder others y.1 went)

/-- A sink that breaks at the second event. -/
def onceOnly : Sink := .ofState 0 fun count event =>
  if count = 1 then none else some ([.level event], count + 1)

/-- The sink of the first pipeline breaks in its tick, and its analyses are late. -/
theorem broken_intake_independent : ∃ p q log r entries s fronts i,
    start twoBands onceOnly (fun _ => 40000000) true = .ok p ∧
    start twoBands .log (fun _ => 0) true = .ok q ∧
    p.log [.queue chord, .analyze 1, .step (.host .tick), .queue [5], .analyze 1] = .ok (log, r) ∧
    q.log [.step (.host .poll), .queue chord, .step (.driver .askConnected), .analyze 1,
      .queue [5], .analyze 1] = .ok (entries, s) ∧
    log.filterMap Entry.front = fronts ∧ entries.filterMap Entry.front = fronts ∧
    r.Feeds i ∧ s.Feeds i ∧
    log.map (·.report.answer) = [.accepted true, .done, .ticked ⟨true, [.level ⟨0, 255⟩], true⟩,
      .accepted true, .done] ∧
    r.aggregating = false ∧ r.events.dropped = 2 ∧ s.events.dropped = 0 ∧
    analysed (log.map (·.report)) = [chord, [5]] := by
  obtain ⟨p, q, started, again⟩ : ∃ p q,
      start twoBands onceOnly (fun _ => 40000000) true = .ok p ∧
      start twoBands .log (fun _ => 0) true = .ok q := ⟨_, _, rfl, rfl⟩
  rcases intake_independent started again
      [.queue chord, .analyze 1, .step (.host .tick), .queue [5], .analyze 1]
      [.step (.host .poll), .queue chord, .step (.driver .askConnected), .analyze 1,
        .queue [5], .analyze 1] rfl with
    ⟨exhausts, -⟩ | ⟨log, r, entries, s, fronts, i, ran, went, first, second, -, -, last, other⟩
  · exact absurd exhausts (not_exhausts_of_length (start_fresh started) _ (by decide))
  refine ⟨p, q, log, r, entries, s, fronts, i, started, again, ran, went, first, second, last,
    other, ?_, ?_, ?_, ?_, ?_⟩
  · refine eq_of_evaluated (·.log _) (·.1.map (·.report.answer)) started ran ?_
    decide +kernel
  · exact eq_of_evaluated (·.log _) (·.2.aggregating) started ran (by decide +kernel)
  · exact eq_of_evaluated (·.log _) (·.2.events.dropped) started ran (by decide +kernel)
  · exact eq_of_evaluated (·.log _) (·.2.events.dropped) again went (by decide +kernel)
  · refine eq_of_evaluated (·.log _) (fun run => analysed (run.1.map (·.report))) started ran ?_
    decide +kernel

end Pipeline

end BandLight
