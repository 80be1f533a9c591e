import BandLight.Proofs.IntakeRuns
import BandLight.Proofs.PostedEvents
import BandLight.Proofs.RetainedScaling

/-! Pipelines that only a look inside can tell apart. Commands and aggregator show in
ticks alone, and a tick reads no more of them than the memory of the aggregator when it
has obeyed the commands. Pipelines that agree in that memory and in everything else tell
the same in every run, the calls of the sink and the posted events included. -/
namespace BandLight

theorem Aggregator.obey_same {a b : Aggregator} (same : a.SameMemory b) (command : Command) :
    (a.obey command).SameMemory (b.obey command) := by
  obtain ⟨bands, tuning, previous⟩ := same
  cases command with
  | resetHistory => exact ⟨bands, tuning, by simp only [obey, reset, previous]⟩
  | setTuning tuning =>
    cases checked : tuning.validate with
    | error error =>
      simp only [obey, setTuning_error _ tuning error checked]
      exact ⟨bands, ‹_›, previous⟩
    | ok valid =>
      simp only [obey, setTuning_eq _ tuning checked]
      exact ⟨bands, rfl, previous⟩

/-- What a chain reads does not depend on what its aggregator retains besides its memory. -/
theorem Chain.tick_same (c : Chain) (aggregator : Aggregator)
    (memory : c.aggregator.SameMemory aggregator) :
    Checked.Matched (fun x y => x.1 = y.1 ∧ x.2.aggregator.SameMemory y.2.aggregator)
      c.tick { c with aggregator }.tick := by
  unfold tick
  cases c.analyzer.mailbox.collect with
  | mk waiting mailbox =>
    cases waiting with
    | none => exact ⟨rfl, memory⟩
    | some spectrum =>
      apply (Aggregator.tickInto_same memory spectrum []).bind
      rintro ⟨events, next⟩ ⟨_, other⟩ ⟨rfl, later⟩
      dsimp only
      cases c.frequencyFloorBin with
      | none => exact ⟨rfl, later⟩
      | some bin =>
        apply (Checked.matched_self (spectrum.meanActiveFrequency _ _)).bind
        rintro mean _ rfl
        exact ⟨rfl, later⟩

namespace Pipeline

def recommand (p : Pipeline) (commands : List Command) (aggregator : Aggregator) : Pipeline :=
  { p with commands, aggregator }

def obeyed (p : Pipeline) : Aggregator := p.commands.foldl Aggregator.obey p.aggregator

/-- Pipelines that differ in their commands and their aggregators only. -/
def Apart (p q : Pipeline) : Prop :=
  ∃ commands aggregator, q = p.recommand commands aggregator

/-- Pipelines that no tick can tell from one another. -/
structure Kin (p q : Pipeline) : Prop where
  apart : p.Apart q
  memory : p.obeyed.SameMemory q.obeyed

/-- The aggregate side ticks in this action. -/
def Action.timed : Action → Bool
  | .step (.host .tick) | .step (.host .shutdown) => true
  | _ => false

/-- What an action tells the outside: the report has the calls of the sink. -/
structure Told where
  action : Action
  report : Report
  posted : List Event
  deriving DecidableEq, Repr

def Entry.told (entry : Entry) : Told where
  action := entry.action
  report := entry.report
  posted := entry.along Pipeline.posted

section
variable {p q r : Pipeline}

theorem unfinished (action : Action) (inward : action.inward = true)
    (going : action ≠ .step (.host .shutdown)) (report : Report)
    (acted : p.act action = .ok (report, q)) : report.bare = report := by
  have offered (block : Bool × Pipeline) (answered : (if p.hasProducer then afterOffer block
      else .ok ({ answer := .noProducer }, p)) = .ok (report, q)) : report.bare = report := by
    split at answered
    · obtain ⟨_, _, answered⟩ := Checked.bind_success _ _ _ answered
      cases answered
      rfl
    · cases answered
      rfl
  have queued (block : Bool × Pipeline) (answered : (if p.hasProducer then afterQueue block
      else ({ answer := .noProducer }, p)) = (report, q)) : report.bare = report := by
    split at answered
    · cases answered
      rfl
    · cases answered
      rfl
  cases action with
  | queue samples =>
    rw [act_queue] at acted
    exact queued _ (Except.ok.inj acted)
  | queueBytes bytes => exact queued _ (Except.ok.inj acted)
  | analyze count =>
    rw [act] at acted
    split at acted
    · obtain ⟨_, _, acted⟩ := Checked.bind_success _ _ _ acted
      cases acted
      rfl
    · cases acted
      rfl
  | step s =>
    cases s with
    | driver s =>
      cases s with
      | deliver samples =>
        rw [act, perform, driverStep_deliver] at acted
        exact offered _ acted
      | deliverBytes bytes => exact offered _ acted
      | dropProducer =>
        obtain ⟨_, _, acted⟩ := Checked.bind_success _ _ _ acted
        cases acted
        rfl
      | askConnected => cases inward
    | host s =>
      cases s with
      | release =>
        rw [act, perform] at acted
        split at acted
        · obtain ⟨_, _, acted⟩ := Checked.bind_success _ _ _ acted
          cases acted
          rfl
        · cases acted
          rfl
      | shutdown => exact absurd rfl going
      | _ => cases inward

theorem Apart.symm (apart : p.Apart q) : q.Apart p := by
  obtain ⟨_, _, rfl⟩ := apart
  exact ⟨p.commands, p.aggregator, rfl⟩

theorem Apart.trans (first : p.Apart q) (second : q.Apart r) : p.Apart r := by
  obtain ⟨_, _, rfl⟩ := first
  obtain ⟨commands, aggregator, rfl⟩ := second
  exact ⟨commands, aggregator, rfl⟩

theorem Apart.feeds (apart : p.Apart q) (order : p.InOrder) (ordered : q.InOrder) :
    ∃ i, p.Feeds i ∧ q.Feeds i := by
  obtain ⟨commands, aggregator, rfl⟩ := apart
  obtain ⟨sound, waiting, backlog⟩ := order
  exact ⟨_, .intro waiting sound backlog,
    .intro (p := p.recommand commands aggregator) waiting ordered.1 { backlog with }⟩

theorem answerSend_apart (apart : p.Apart q) (command : Command) :
    (p.answerSend (p.send command)).1 = (q.answerSend (q.send command)).1 := by
  obtain ⟨commands, aggregator, rfl⟩ := apart
  dsimp only [send, recommand]
  split
  · rfl
  · split <;> rfl

theorem sendTuning_apart (apart : p.Apart q) (tuning : Tuning) :
    (p.answerSend (p.sendTuning tuning)).1 = (q.answerSend (q.sendTuning tuning)).1 := by
  unfold sendTuning
  cases tuning.validate with
  | error error => rfl
  | ok valid => exact answerSend_apart apart (.setTuning tuning)

/-- Commands and aggregator show in ticks only. -/
theorem act_apart (apart : p.Apart q) (order : p.InOrder) (ordered : q.InOrder) (action : Action)
    (untimed : action.timed = false) :
    Checked.Matched (fun x y => x.1 = y.1) (p.act action) (q.act action) := by
  cases inward : action.inward with
  | true =>
    -- Both pipelines feed one intake, which answers for them.
    have going : action ≠ .step (.host .shutdown) := by
      rintro rfl
      cases untimed
    obtain ⟨i, own, other⟩ := apart.feeds order ordered
    refine ((act_feeds own action inward).meet (act_feeds other action inward)).imp_ok ?_
    rintro ⟨report, r⟩ ⟨reply, s⟩ acted went ⟨_, ⟨bare, -⟩, same, -⟩
    rw [unfinished action inward going report acted] at bare
    rw [unfinished action inward going reply went] at same
    exact bare.trans same.symm
  | false =>
    have sends := answerSend_apart apart
    have tunes := sendTuning_apart apart
    obtain ⟨commands, aggregator, rfl⟩ := apart
    cases action with
    | queue samples => cases inward
    | queueBytes bytes => cases inward
    | analyze count => cases inward
    | step s =>
      cases s with
      | driver s =>
        cases s with
        | askConnected => exact .ite (p.hasProducer = true) (Eq.refl _) (Eq.refl _)
        | _ => cases inward
      | host s =>
        refine Checked.Matched.ite (p.running = true) ?_ (Eq.refl _)
        cases s with
        | setTuning tuning => exact tunes tuning
        | resetHistory => exact sends .resetHistory
        | release => cases inward
        | shutdown => cases inward
        | tick => cases untimed
        | _ => exact rfl

theorem move_apart (apart : p.Apart q) (move : Move) (untimed : move ≠ .tick) :
    (p.move move).Apart (q.move move) ∧ q.posted move = p.posted move := by
  obtain ⟨commands, aggregator, rfl⟩ := apart
  cases move with
  | tick => exact absurd rfl untimed
  | send command => exact ⟨⟨commands ++ [command], aggregator, rfl⟩, rfl⟩
  | stop =>
    refine ⟨⟨commands, aggregator, ?_⟩, rfl⟩
    dsimp only [Pipeline.move, stop, recommand]
    split <;> rfl
  | _ => exact ⟨⟨commands, aggregator, rfl⟩, rfl⟩

theorem listened_kin (kin : p.Kin q) (order : p.InOrder) (ordered : q.InOrder) :
    q.listened.1 = p.listened.1 ∧ p.listened.2.SameMemory q.listened.2 := by
  obtain ⟨chain, read, aggregator⟩ := commanded_tick order.1
  obtain ⟨other, also, reached⟩ := commanded_tick ordered.1
  obtain ⟨⟨commands, next, rfl⟩, memory⟩ := kin
  have same := Chain.tick_same p.reference.commanded (p.recommand commands next).obeyed memory
  rw [read] at same
  have again : { p.reference.commanded with aggregator := (p.recommand commands next).obeyed }.tick =
      .ok ((p.recommand commands next).listened.1, other) := also
  rw [again] at same
  rw [aggregator, reached]
  exact ⟨same.1.symm, same.2⟩

theorem ticked_kin (kin : p.Kin q) (order : p.InOrder) (ordered : q.InOrder) :
    q.ticked.1 = p.ticked.1 ∧ q.tidings = p.tidings ∧ p.ticked.2.Kin q.ticked.2 := by
  obtain ⟨heard, memory⟩ := listened_kin kin order ordered
  obtain ⟨commands, aggregator, rfl⟩ := kin.apart
  have levels : (p.recommand commands aggregator).levels = p.levels := by
    rw [Pipeline.levels, heard, Pipeline.levels]
  have mean : (p.recommand commands aggregator).mean = p.mean := by
    rw [Pipeline.mean, heard, Pipeline.mean]
  have tidings : (p.recommand commands aggregator).tidings = p.tidings := by
    rw [Pipeline.tidings, levels, mean, Pipeline.tidings]
    rfl
  refine ⟨?_, tidings, ⟨[], (p.recommand commands aggregator).listened.2, ?_⟩, memory⟩
  · simp only [ticked, levels, heard]
    rfl
  · simp only [ticked, levels, heard, tidings]
    rfl

theorem move_kin (order : p.InOrder) (ordered : q.InOrder) (kin : p.Kin q) (move : Move) :
    (p.move move).Kin (q.move move) ∧ q.posted move = p.posted move := by
  by_cases ticks : move = .tick
  · obtain ⟨-, tidings, later⟩ := ticked_kin kin order ordered
    rw [ticks, move_ticked order, move_ticked ordered]
    exact ⟨later, tidings⟩
  · obtain ⟨apart, posted⟩ := move_apart kin.apart move ticks
    refine ⟨⟨apart, ?_⟩, posted⟩
    cases move with
    | tick => exact absurd rfl ticks
    | send command =>
      have obeys (r : Pipeline) : (r.move (.send command)).obeyed = r.obeyed.obey command := by
        rw [obeyed, Pipeline.move, List.foldl_append]
        rfl
      rw [obeys, obeys]
      exact Aggregator.obey_same kin.memory command
    | stop =>
      obtain ⟨_, stopped, -⟩ := stop_eq p
      obtain ⟨_, ended, -⟩ := stop_eq q
      rw [Pipeline.move, Pipeline.move, stopped, ended]
      exact kin.memory
    | _ => exact kin.memory

theorem release_kin (kin : p.Kin q) (order : p.InOrder) (ordered : q.InOrder) :
    Checked.Matched (fun x y => x.1 = y.1 ∧ x.2.InOrder ∧ y.2.InOrder ∧ x.2.Kin y.2)
      p.release q.release := by
  obtain ⟨i, own, other⟩ := kin.apart.feeds order ordered
  refine ((release_feeds own).meet (release_feeds other)).imp_ok ?_
  rintro ⟨analyses, r⟩ ⟨others, s⟩ ran went ⟨_, ⟨same, -⟩, again, -⟩
  obtain rfl : analyses = others := same.trans again.symm
  obtain ⟨moves, last⟩ := release_moves order analyses ran
  obtain ⟨also, ended⟩ := release_moves ordered analyses went
  have both := moves.related Kin posted also kin fun p q order ordered kin move _ =>
    move_kin order ordered kin move
  exact ⟨rfl, last, ended, both.1⟩

theorem stop_apart (apart : p.Apart q) : q.stop.1 = p.stop.1 ∧ q.stop.2.1 = p.stop.2.1 := by
  obtain ⟨commands, aggregator, rfl⟩ := apart
  dsimp only [stop, recommand]
  split
  · exact ⟨rfl, rfl⟩
  · exact ⟨rfl, rfl⟩

theorem shutdown_kin (kin : p.Kin q) (order : p.InOrder) (ordered : q.InOrder) :
    Checked.Matched (fun x y => x.1 = y.1) p.shutdown q.shutdown := by
  apply (release_kin kin order ordered).bind
  rintro ⟨analyses, r⟩ ⟨_, s⟩ ⟨rfl, last, ended, kin⟩
  have there : s.aggregating = r.aggregating := by
    obtain ⟨_, _, rfl⟩ := kin.apart
    rfl
  dsimp only
  rw [there]
  apply Checked.Matched.ite
  · obtain ⟨tick, -, later⟩ := ticked_kin kin last ended
    obtain ⟨stats, events⟩ := stop_apart later.apart
    rw [tick_eq_ticked last.1, tick_eq_ticked ended.1]
    change Report.mk (.finished (some r.ticked.1) r.ticked.2.stop.1 r.ticked.2.stop.2.1) analyses =
      Report.mk (.finished (some s.ticked.1) s.ticked.2.stop.1 s.ticked.2.stop.2.1) analyses
    rw [tick, stats, events]
  · obtain ⟨stats, events⟩ := stop_apart kin.apart
    change Report.mk (.finished none r.stop.1 r.stop.2.1) analyses =
      Report.mk (.finished none s.stop.1 s.stop.2.1) analyses
    rw [stats, events]

theorem tick_kin (kin : p.Kin q) (order : p.InOrder) (ordered : q.InOrder) :
    Checked.Matched (fun x y => x.1 = y.1) (p.hostStep .tick) (q.hostStep .tick) := by
  have there : q.aggregating = p.aggregating := by
    obtain ⟨_, _, rfl⟩ := kin.apart
    rfl
  rw [hostStep, hostStep, there, tick_eq_ticked order.1, tick_eq_ticked ordered.1]
  apply Checked.Matched.ite
  · exact congrArg (fun tick => Report.mk (.ticked tick) []) (ticked_kin kin order ordered).1.symm
  · exact rfl

theorem act_kin (kin : p.Kin q) (order : p.InOrder) (ordered : q.InOrder) (action : Action) :
    Checked.Matched (fun x y => x.1 = y.1) (p.act action) (q.act action) := by
  have running : q.running = p.running := by
    obtain ⟨_, _, rfl⟩ := kin.apart
    rfl
  by_cases ticks : action = .step (.host .tick)
  · rw [ticks, act, act, perform, perform, running]
    exact .ite _ (tick_kin kin order ordered) (Eq.refl _)
  by_cases shuts : action = .step (.host .shutdown)
  · rw [shuts, act, act, perform, perform, running]
    exact .ite _ (shutdown_kin kin order ordered) (Eq.refl _)
  have untimed : action.timed = false := by
    unfold Action.timed
    split
    · exact absurd rfl ticks
    · exact absurd rfl shuts
    · rfl
  exact act_apart kin.apart order ordered action untimed

theorem note_related (related : Pipeline → Pipeline → Prop) (order : p.InOrder)
    (ordered : q.InOrder) (start : related p q) (size : q.size = p.size) (action : Action)
    (kept : ∀ report u v, u.InOrder → v.InOrder → related u v →
      ∀ move ∈ action.moves p.size report, related (u.move move) (v.move move) ∧
        v.posted move = u.posted move)
    (reports : Checked.Matched (fun x y => x.1 = y.1) (p.act action) (q.act action)) :
    Checked.Matched (fun x y => x.1.told = y.1.told ∧ x.2.InOrder ∧ y.2.InOrder ∧ related x.2 y.2)
      (p.note action) (q.note action) := by
  have both := reports.imp_ok fun x y (acted : p.act action = .ok x) (went : q.act action = .ok y)
    same => And.intro acted (And.intro went same)
  apply both.bind
  rintro ⟨report, r⟩ ⟨_, s⟩ ⟨acted, went, rfl⟩
  have also := act_moves ordered action report went
  rw [size] at also
  obtain ⟨last, posted⟩ := (act_moves order action report acted).related related posted
    also start (kept report)
  refine ⟨?_, order.act action report acted, ordered.act action report went, last⟩
  simp only [Entry.told, Entry.along, Entry.moves, size, posted]

theorem Apart.size (apart : p.Apart q) : q.size = p.size := by
  obtain ⟨_, _, rfl⟩ := apart
  rfl

theorem untimed_moves (action : Action) (untimed : action.timed = false) (size : Nat)
    (report : Report) : ∀ move ∈ action.moves size report, move ≠ .tick ∧ move ≠ .stop := by
  intro move member
  by_contra moves
  have closes : move = .tick ∨ move = .stop := by
    by_contra other
    exact moves (not_or.mp other)
  have closing : move ∈ action.closing report := by
    rcases closes with rfl | rfl
    · exact mem_closing member rfl
    · exact mem_closing member rfl
  unfold Action.closing at closing
  split at closing
  case h_7 => cases untimed
  all_goals rcases closes with rfl | rfl <;> simp [Action.timed] at closing untimed

theorem note_apart (apart : p.Apart q) (order : p.InOrder) (ordered : q.InOrder) (action : Action)
    (untimed : action.timed = false) :
    Checked.Matched (fun x y => x.1.told = y.1.told ∧ x.2.InOrder ∧ y.2.InOrder ∧ x.2.Apart y.2)
      (p.note action) (q.note action) := by
  refine note_related Apart order ordered apart apart.size action ?_
    (act_apart apart order ordered action untimed)
  intro report u v _ _ apart move member
  exact move_apart apart move (untimed_moves action untimed _ report move member).1

theorem note_kin (kin : p.Kin q) (order : p.InOrder) (ordered : q.InOrder) (action : Action) :
    Checked.Matched (fun x y => x.1.told = y.1.told ∧ x.2.InOrder ∧ y.2.InOrder ∧ x.2.Kin y.2)
      (p.note action) (q.note action) := by
  refine note_related Kin order ordered kin kin.apart.size action ?_
    (act_kin kin order ordered action)
  intro report u v order ordered kin move _
  exact move_kin order ordered kin move

theorem log_kin (kin : p.Kin q) (order : p.InOrder) (ordered : q.InOrder) (actions : List Action) :
    Checked.Matched (fun x y => x.1.map Entry.told = y.1.map Entry.told)
      (p.log actions) (q.log actions) := by
  have runs := Checked.trace_matched note note
    (fun p q => p.InOrder ∧ q.InOrder ∧ p.Kin q) (fun x y => x.told = y.told)
    (fun p q action both => note_kin both.2.2 both.1 both.2.1 action) p q ⟨order, ordered, kin⟩
    actions
  refine runs.imp ?_
  rintro ⟨entries, r⟩ ⟨others, s⟩ ⟨told, -⟩
  rw [← List.forall₂_eq_eq_eq, List.forall₂_map_left_iff, List.forall₂_map_right_iff]
  exact told

end

end Pipeline

end BandLight
