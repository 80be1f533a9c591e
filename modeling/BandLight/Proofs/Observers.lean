import BandLight.Proofs.IntakeRuns
import BandLight.Proofs.PostedEvents

/-! What is observed does not depend on the observers: on a sink that never breaks,
on the capacity of the host's queue, or on when the host looks. A pipeline without
any of them hands the same levels over at the same ticks and counts the same. A
sink gets all of them in order, and whatever it makes of them, they are counted and
posted. -/
namespace BandLight

def Event.isLevel : Event → Bool
  | .bandLevel .. => true
  | _ => false

namespace Sink

/-- What a sink passes on for events that come one after the other. -/
def passes (sink : Sink) : List LevelEvent → List LevelEvent → List SinkCall
  | _, [] => []
  | received, event :: events =>
      (sink.accept received event).getD [] ++ passes sink (received ++ [event]) events

theorem acceptAll_intact (sink : Sink) (received events : List LevelEvent)
    (intact : (sink.acceptAll received events).2.2 = true) :
    (sink.acceptAll received events).1 = sink.passes received events := by
  induction events generalizing received with
  | nil => rfl
  | cons event events ih =>
    unfold acceptAll at intact ⊢
    cases accepted : sink.accept received event with
    | none => simp [accepted] at intact
    | some calls =>
      simp only [accepted] at intact
      simp [passes, accepted, ih _ intact]

theorem calls_whole (sink : Sink) (whole : sink.Whole) (received events : List LevelEvent) :
    (sink.acceptAll received events).1 = sink.passes received events :=
  sink.acceptAll_intact received events
    (congrArg Prod.snd (sink.acceptAll_whole whole received events))

theorem passes_ofCalls (calls : LevelEvent → List SinkCall) (received events : List LevelEvent) :
    (ofCalls calls).passes received events = events.flatMap calls := by
  induction events generalizing received with
  | nil => rfl
  | cons event events ih => exact congrArg (calls event ++ ·) (ih _)

theorem passes_color (map : ColorMap) (received events : List LevelEvent) :
    (color map).passes received events =
      events.filterMap fun event => (map.colorOf event).map (.light event.band) := by
  rw [color, passes_ofCalls]
  induction events with
  | nil => rfl
  | cons event events ih =>
    cases found : map.colorOf event <;> simp [found, ih]

end Sink

namespace Pipeline

def unwatched (p : Pipeline) : Pipeline :=
  { p with config := { p.config with eventQueueCapacity := 0 }
           sink := .null
           received := []
           events := .empty 0 }

/-- The levels that a move hands to the sink. -/
def handed (p : Pipeline) : Move → List LevelEvent
  | .tick => p.levels
  | _ => []

namespace Action

/-- The host only looks. -/
def observes : Action → Bool
  | .step (.host .poll) | .step (.host .drainEvents) => true
  | .step (.host .countEvents) | .step (.host .askStats) => true
  | _ => false

/-- An answer without what it tells of the sink and of the host's queue. -/
def gist (action : Action) (answer : Answer) : Answer :=
  match action, answer with
  | .step (.host .tick), .ticked tick => .ticked { tick with calls := [] }
  | .step (.host .shutdown), .finished tick stats _ =>
      .finished (tick.map fun tick => { tick with calls := [] }) { stats with eventsDropped := 0 } []
  | _, answer => answer.bare

end Action

/-- What an action shows whoever observes it. -/
structure Shown where
  action : Action
  answer : Answer
  analyses : List Analysis
  handed : List LevelEvent
  counters : Counters
  deriving DecidableEq, Repr

namespace Entry

def handed (entry : Entry) : List LevelEvent := entry.along Pipeline.handed

def calls (entry : Entry) : List SinkCall :=
  match entry.action, entry.report.answer with
  | .step (.host .tick), .ticked tick => tick.calls
  | .step (.host .shutdown), .finished (some tick) _ _ => tick.calls
  | _, _ => []

def reveal (entry : Entry) : Shown where
  action := entry.action
  answer := entry.action.gist entry.report.answer
  analyses := entry.report.analyses
  handed := entry.handed
  counters := entry.after.counters

def shown (entry : Entry) : Option Shown :=
  if entry.action.observes then none else some entry.reveal

/-- The sink has received the levels handed to it and passed on what it passes on
for them after those before, and all of them are counted and posted. What is posted
goes to the host's queue, which is given up when the pipeline is shut down. -/
structure HandsTo (entry : Entry) (sink : Sink) : Prop where
  calls : entry.calls = sink.passes entry.before.received entry.handed
  received : entry.after.received = entry.before.received ++ entry.handed
  counted : entry.after.counters.emitted = entry.before.counters.emitted + entry.handed.length
  posted : (entry.along Pipeline.posted).filter Event.isLevel = entry.handed.map Event.ofLevel
  queued : entry.action.observes = false → entry.action ≠ .step (.host .shutdown) →
    entry.after.events = entry.before.events.postAll (entry.along Pipeline.posted)

end Entry

section
variable {p q u v : Pipeline}

theorem InOrder.unwatched (order : p.InOrder) : p.unwatched.InOrder := by
  obtain ⟨sound, blocks, backlog⟩ := order
  exact ⟨{ sound with }, blocks, { backlog with }⟩

theorem null_whole : Sink.null.Whole := fun _ _ => rfl

theorem tidings_whole (whole : p.sink.Whole) :
    p.tidings = p.levels.map .ofLevel ++ p.mean.toList.map .meanFrequency := by
  simp [tidings, p.sink.acceptAll_whole whole p.received]

theorem ticked_whole (whole : p.sink.Whole) : p.ticked =
    ({ consumed := p.listened.1.isSome
       calls := p.sink.passes p.received p.levels
       broken := false },
      { p with
        commands := []
        aggregator := p.listened.2
        received := p.received ++ p.levels
        analyzer := if p.listened.1.isSome then p.analyzer.emptied else p.analyzer
        counters := { p.counters with
          consumed := p.counters.consumed + if p.listened.1.isSome then 1 else 0
          emitted := p.counters.emitted + p.levels.length }
        events := p.events.postAll
          (p.levels.map .ofLevel ++ p.mean.toList.map .meanFrequency) }) := by
  simp [ticked, tidings_whole whole, p.sink.acceptAll_whole whole p.received,
    p.sink.calls_whole whole]

theorem ticked_unwatched (whole : p.sink.Whole) :
    p.unwatched.ticked.2.unwatched = p.ticked.2.unwatched := by
  rw [ticked_whole whole, ticked_whole (p := p.unwatched) null_whole]
  rfl

theorem move_unwatched (order : p.InOrder) (whole : p.sink.Whole) (move : Move) :
    (p.unwatched.move move).unwatched = (p.move move).unwatched := by
  cases move with
  | tick =>
    rw [move_ticked order, move_ticked order.unwatched]
    exact ticked_unwatched whole
  | stop =>
    obtain ⟨_, stopped, -⟩ := stop_eq p
    obtain ⟨_, ended, -⟩ := stop_eq p.unwatched
    rw [Pipeline.move, Pipeline.move, stopped, ended]
    rfl
  | _ => rfl

theorem handed_unwatched (p : Pipeline) (move : Move) : p.unwatched.handed move = p.handed move := by
  cases move <;> rfl

theorem Moves.unwatched {moves : List Move} (moved : Moves p moves q) (also : Moves u moves v)
    (whole : p.sink.Whole) (other : u.sink.Whole) (same : u.unwatched = p.unwatched) :
    v.unwatched = q.unwatched ∧ along handed u moves = along handed p moves := by
  suffices both : (q.sink.Whole ∧ v.sink.Whole ∧ v.unwatched = q.unwatched) ∧
      along handed u moves = along handed p moves from ⟨both.1.2.2, both.2⟩
  refine moved.related (fun p u => p.sink.Whole ∧ u.sink.Whole ∧ u.unwatched = p.unwatched)
    handed also ⟨whole, other, same⟩ ?_
  rintro p u order ordered ⟨whole, other, same⟩ move -
  have next := move_unwatched ordered other move
  rw [same, move_unwatched order whole move] at next
  have first := handed_unwatched u move
  rw [same, handed_unwatched] at first
  rw [(move_fixed order move).sink, (move_fixed ordered move).sink]
  exact ⟨⟨whole, other, next.symm⟩, first.symm⟩

/-- The moves of an action can be read off the gist of its answer. -/
theorem moves_gist (action : Action) (size : Nat) (report : Report) :
    action.moves size { report with answer := action.gist report.answer } =
      action.moves size report := by
  obtain ⟨answer, analyses⟩ := report
  cases action with
  | queue samples => cases answer <;> rfl
  | queueBytes bytes => cases answer <;> rfl
  | analyze count => cases answer <;> rfl
  | step s =>
    cases s with
    | driver s => cases s <;> cases answer <;> rfl
    | host s =>
      cases s with
      | shutdown =>
        cases answer with
        | finished tick stats events => cases tick <;> rfl
        | _ => rfl
      | _ => cases answer <;> rfl

theorem gist_bare (action : Action) (answer : Answer) (untimed : action ≠ .step (.host .tick))
    (going : action ≠ .step (.host .shutdown)) : action.gist answer = answer.bare := by
  unfold Action.gist
  split
  · exact absurd rfl untimed
  · exact absurd rfl going
  · rfl

/-- The same analyses, and answers of the same gist. -/
def Resembles (action : Action) (first second : Report) : Prop :=
  action.gist first.answer = action.gist second.answer ∧ first.analyses = second.analyses

theorem Resembles.moves {action : Action} {first second : Report}
    (resembles : Resembles action first second) (size : Nat) :
    action.moves size first = action.moves size second := by
  rw [← moves_gist action size first, ← moves_gist action size second, resembles.1]
  obtain ⟨answer, analyses⟩ := first
  cases resembles.2
  rfl

/-- With and without observers the same condition lets an action happen. -/
theorem matched_if (condition : Bool) (action : Action) (answer : Answer)
    (first second : Checked (Report × Pipeline))
    (matched : Checked.Matched (fun x y => Resembles action x.1 y.1) first second) :
    Checked.Matched (fun x y => Resembles action x.1 y.1)
      (if condition then first else .ok ({ answer }, p))
      (if condition then second else .ok ({ answer }, p.unwatched)) :=
  .ite _ matched ⟨rfl, rfl⟩

theorem tick_gist (order : p.InOrder) (whole : p.sink.Whole) :
    Checked.Matched (fun x y => Resembles (.step (.host .tick)) x.1 y.1)
      (p.act (.step (.host .tick))) (p.unwatched.act (.step (.host .tick))) := by
  have own := tick_eq_ticked order.1
  have other := tick_eq_ticked order.unwatched.1
  rw [ticked_whole whole] at own
  rw [ticked_whole (p := p.unwatched) null_whole] at other
  apply matched_if p.running
  rw [hostStep, hostStep, own, other]
  apply matched_if p.aggregating
  exact ⟨rfl, rfl⟩

theorem stop_stats (p : Pipeline) :
    { p.stop.1 with eventsDropped := 0 } = p.counters.snapshot 0 := by
  unfold stop
  split <;> rfl

structure Twins (p q : Pipeline) : Prop where
  first : p.InOrder
  second : q.InOrder
  whole : p.sink.Whole
  also : q.sink.Whole
  same : q.unwatched = p.unwatched

theorem eq_of_unwatched {α : Type} (f : Pipeline → α) (blind : ∀ r, f r.unwatched = f r)
    (same : q.unwatched = p.unwatched) : f q = f p := by
  rw [← blind q, same, blind]

theorem Twins.ticked (twins : p.Twins q) :
    { q.ticked.1 with calls := [] } = { p.ticked.1 with calls := [] } ∧
      q.ticked.2.counters = p.ticked.2.counters := by
  have heard : q.listened = p.listened := eq_of_unwatched listened (fun _ => rfl) twins.same
  have state : q.ticked.2.unwatched = p.ticked.2.unwatched := by
    rw [← ticked_unwatched twins.whole, ← ticked_unwatched twins.also, twins.same]
  refine ⟨?_, eq_of_unwatched (·.counters) (fun _ => rfl) state⟩
  rw [ticked_whole twins.whole, ticked_whole twins.also, heard]

theorem release_twins (order : p.InOrder) (whole : p.sink.Whole) :
    Checked.Matched (fun x y => x.1 = y.1 ∧ x.2.Twins y.2) p.release p.unwatched.release := by
  have ordered := order
  obtain ⟨sound, waiting, backlog⟩ := ordered
  have first := release_feeds (.intro waiting sound backlog)
  have second := release_feeds (.intro (p := p.unwatched) waiting { sound with } { backlog with })
  refine (first.meet second).imp_ok ?_
  rintro ⟨analyses, r⟩ ⟨others, s⟩ ran went ⟨c, ⟨same, -⟩, again, -⟩
  obtain rfl : analyses = others := same.trans again.symm
  obtain ⟨moves, last⟩ := release_moves order analyses ran
  obtain ⟨also, ended⟩ := release_moves order.unwatched analyses went
  refine ⟨rfl, last, ended, ?_, ?_, (moves.unwatched also whole null_whole rfl).1⟩
  · rw [moves.fixed.sink]
    exact whole
  · rw [also.fixed.sink]
    exact null_whole

theorem shutdown_gist (order : p.InOrder) (whole : p.sink.Whole) :
    Checked.Matched (fun x y => Resembles (.step (.host .shutdown)) x.1 y.1)
      p.shutdown p.unwatched.shutdown := by
  apply (release_twins order whole).bind
  rintro ⟨analyses, r⟩ ⟨_, s⟩ ⟨rfl, twins⟩
  obtain ⟨tick, counters⟩ := twins.ticked
  have there := eq_of_unwatched (·.aggregating) (fun _ => rfl) twins.same
  have counted := eq_of_unwatched (·.counters) (fun _ => rfl) twins.same
  dsimp only
  rw [there]
  split
  · rw [tick_eq_ticked twins.first.1, tick_eq_ticked twins.second.1]
    refine ⟨?_, rfl⟩
    change Answer.finished (some { r.ticked.1 with calls := [] })
        { r.ticked.2.stop.1 with eventsDropped := 0 } [] =
      Answer.finished (some { s.ticked.1 with calls := [] })
        { s.ticked.2.stop.1 with eventsDropped := 0 } []
    rw [tick, stop_stats, stop_stats, counters]
  · refine ⟨?_, rfl⟩
    change Answer.finished none { r.stop.1 with eventsDropped := 0 } [] =
      Answer.finished none { s.stop.1 with eventsDropped := 0 } []
    rw [stop_stats, stop_stats, counted]

theorem send_unwatched (command : Command) :
    (p.unwatched.answerSend (p.unwatched.send command)).1 = (p.answerSend (p.send command)).1 := by
  dsimp only [send, unwatched]
  split
  · rfl
  · split
    · rfl
    · rfl

theorem sendTuning_unwatched (tuning : Tuning) :
    (p.unwatched.answerSend (p.unwatched.sendTuning tuning)).1 =
      (p.answerSend (p.sendTuning tuning)).1 := by
  unfold sendTuning
  cases tuning.validate with
  | error error => rfl
  | ok valid => exact send_unwatched (.setTuning tuning)

theorem act_gist (order : p.InOrder) (whole : p.sink.Whole) (action : Action)
    (visible : action.observes = false) :
    Checked.Matched (fun x y => Resembles action x.1 y.1) (p.act action)
      (p.unwatched.act action) := by
  have told (first second : Report × Pipeline) (same : second.1 = first.1) :
      Checked.Matched (fun x y => Resembles action x.1 y.1) (.ok first) (.ok second) :=
    ⟨by rw [same], by rw [same]⟩
  cases inward : action.inward with
  | true =>
    by_cases going : action = .step (.host .shutdown)
    · rw [going]
      apply matched_if p.running
      exact shutdown_gist order whole
    -- Both pipelines feed one intake, which answers for them.
    have untimed : action ≠ .step (.host .tick) := by
      rintro rfl
      cases inward
    obtain ⟨sound, waiting, backlog⟩ := order
    have first := act_feeds (.intro waiting sound backlog) action inward
    have second := act_feeds (.intro (p := p.unwatched) waiting { sound with } { backlog with })
      action inward
    refine (first.meet second).imp ?_
    rintro x y ⟨c, ⟨bare, -⟩, same, -⟩
    have equal : x.1.bare = y.1.bare := bare.trans same.symm
    have answers : x.1.bare.answer = y.1.bare.answer := by rw [equal]
    have analyses : x.1.bare.analyses = y.1.bare.analyses := by rw [equal]
    refine ⟨?_, analyses⟩
    rw [gist_bare _ _ untimed going, gist_bare _ _ untimed going]
    exact answers
  | false =>
    cases action with
    | queue samples => cases inward
    | queueBytes bytes => cases inward
    | analyze count => cases inward
    | step s =>
      cases s with
      | driver s =>
        cases s with
        | askConnected =>
          apply matched_if p.hasProducer
          exact ⟨rfl, rfl⟩
        | _ => cases inward
      | host s =>
        cases s with
        | tick => exact tick_gist order whole
        | setTuning tuning =>
          apply matched_if p.running
          exact told _ _ (sendTuning_unwatched tuning)
        | resetHistory =>
          apply matched_if p.running
          exact told _ _ (send_unwatched .resetHistory)
        | release => cases inward
        | shutdown => cases inward
        | _ => cases visible

structure Stands (p u : Pipeline) : Prop where
  order : p.InOrder
  whole : p.sink.Whole
  same : u = p.unwatched

theorem observed (p : Pipeline) (action : Action) (observes : action.observes = true) :
    ∃ report q, p.act action = .ok (report, q) ∧ q.unwatched = p.unwatched := by
  cases action with
  | queue samples => cases observes
  | queueBytes bytes => cases observes
  | analyze count => cases observes
  | step s =>
    cases s with
    | driver s => cases s <;> cases observes
    | host s =>
      rw [act, perform]
      split
      · cases s with
        | poll => exact ⟨_, _, rfl, rfl⟩
        | drainEvents => exact ⟨_, _, rfl, rfl⟩
        | countEvents => exact ⟨_, _, rfl, rfl⟩
        | askStats => exact ⟨_, _, rfl, rfl⟩
        | _ => cases observes
      · exact ⟨_, _, rfl, rfl⟩

def conduct (u : Pipeline) (action : Action) : Checked (Shown × Pipeline) := do
  let (report, after) ← u.act action
  return (Entry.reveal { before := u, action, report, after }, after.unwatched)

theorem observers_project :
    Checked.Projects note conduct Stands (fun action => !action.observes) Entry.shown where
  hidden := by
    rintro p u action ⟨order, whole, rfl⟩ observes
    have looks : action.observes = true := by simpa using observes
    obtain ⟨report, q, acted, same⟩ := observed p action looks
    refine ⟨_, q, note_act action report acted, by simp [Entry.shown, looks],
      order.act action report acted, ?_, same.symm⟩
    rw [(act_moves order action report acted).fixed.sink]
    exact whole
  seen := by
    rintro p u action ⟨order, whole, rfl⟩ counts
    have visible : action.observes = false := by simpa using counts
    have both := (act_gist order whole action visible).imp_ok
      fun x y (acted : p.act action = .ok x) (went : p.unwatched.act action = .ok y) alike =>
        And.intro acted (And.intro went alike)
    refine both.bind _ _ ?_
    rintro ⟨report, q⟩ ⟨reply, v⟩ ⟨acted, went, alike⟩
    -- Answers of the same gist tell the same moves, which the two make side by side.
    have moves := act_moves order action report acted
    have kept := alike.moves p.size
    have also : p.unwatched.Moves (action.moves p.size report) v := by
      rw [kept]
      exact act_moves order.unwatched action reply went
    obtain ⟨last, handed⟩ := moves.unwatched also whole null_whole rfl
    refine ⟨?_, order.act action report acted, by rw [moves.fixed.sink]; exact whole, last⟩
    have counted := eq_of_unwatched (·.counters) (fun _ => rfl) last
    have levels : along Pipeline.handed p.unwatched (action.moves p.size reply) =
        along Pipeline.handed p (action.moves p.size report) := by
      rw [← kept]
      exact handed
    simp only [Entry.shown, visible, Bool.false_eq_true, if_false, Entry.reveal, Entry.handed,
      Entry.along, Entry.moves, alike.1, Option.some.injEq, Shown.mk.injEq, true_and]
    exact ⟨alike.2, levels.symm, counted.symm⟩

theorem level_lateness (c : Config) (elapsed : Nat) :
    (c.lateness elapsed).filter Event.isLevel = [] := by
  unfold Config.lateness
  split <;> rfl

theorem move_hands (order : p.InOrder) (whole : p.sink.Whole) (move : Move) :
    (p.move move).received = p.received ++ p.handed move ∧
      (p.move move).counters.emitted = p.counters.emitted + (p.handed move).length ∧
      (p.posted move).filter Event.isLevel = (p.handed move).map Event.ofLevel := by
  have silent : p.received = p.received ++ [] := (List.append_nil _).symm
  cases move with
  | tick =>
    rw [move_ticked order, ticked_whole whole, posted, tidings_whole whole]
    refine ⟨rfl, rfl, ?_⟩
    simp [handed, List.filter_map, Function.comp_def, Event.ofLevel, Event.isLevel]
  | absorb block => exact ⟨silent, rfl, level_lateness _ _⟩
  | stop =>
    obtain ⟨_, stopped, -⟩ := stop_eq p
    rw [Pipeline.move, stopped, posted]
    refine ⟨silent, rfl, ?_⟩
    split <;> rfl
  | _ => exact ⟨silent, rfl, rfl⟩

theorem Moves.hands {moves : List Move} (moved : Moves p moves q) (whole : p.sink.Whole) :
    q.received = p.received ++ along handed p moves ∧
      q.counters.emitted = p.counters.emitted + (along handed p moves).length ∧
      (along posted p moves).filter Event.isLevel = (along handed p moves).map Event.ofLevel := by
  induction moved with
  | nil p => exact ⟨(List.append_nil _).symm, rfl, rfl⟩
  | cons move moves order rest ih =>
    obtain ⟨heard, counted, told⟩ := move_hands order whole move
    obtain ⟨later, others, news⟩ := ih (by rw [(move_fixed order move).sink]; exact whole)
    refine ⟨?_, ?_, by simp [along, told, news]⟩
    · rw [later, heard, along, List.append_assoc]
    · rw [others, counted, along, List.length_append, Nat.add_assoc]

theorem unhanded (action : Action) (size : Nat) (report : Report)
    (untimed : action ≠ .step (.host .tick)) (going : action ≠ .step (.host .shutdown)) :
    along handed p (action.moves size report) = [] := by
  apply along_eq_nil
  intro move member q
  cases move with
  | tick =>
    have closing := mem_closing member rfl
    unfold Action.closing at closing
    split at closing <;> simp_all
  | _ => rfl

theorem tick_calls (order : p.InOrder) (whole : p.sink.Whole) (report : Report)
    (acted : p.act (.step (.host .tick)) = .ok (report, q)) :
    Entry.calls { before := p, action := .step (.host .tick), report, after := q } =
      p.sink.passes p.received
        (along handed p (Action.moves p.size (.step (.host .tick)) report)) := by
  rcases tick_report order report acted with rfl | rfl | rfl
  · rfl
  · rfl
  · change p.ticked.1.calls = p.sink.passes p.received (p.levels ++ [])
    rw [List.append_nil, ticked_whole whole]

theorem shutdown_calls (order : p.InOrder) (whole : p.sink.Whole) (report : Report)
    (acted : p.act (.step (.host .shutdown)) = .ok (report, q)) :
    Entry.calls { before := p, action := .step (.host .shutdown), report, after := q } =
      p.sink.passes p.received
        (along handed p (Action.moves p.size (.step (.host .shutdown)) report)) := by
  rw [act, perform] at acted
  split at acted
  · obtain ⟨⟨analyses, r⟩, released, acted⟩ := Checked.bind_success _ _ _ acted
    obtain ⟨moves, last⟩ := release_moves order analyses released
    -- Nothing is handed over before the last tick, if there is one.
    have silent : along handed p (.unhold :: analyses.map fun analysis => .absorb analysis.block) =
        [] := along_eq_nil _ (by simp [handed])
    obtain ⟨received, -⟩ := moves.hands whole
    rw [silent, List.append_nil] at received
    dsimp only at acted
    split at acted
    · have intact : r.sink.Whole := by
        rw [moves.fixed.sink]
        exact whole
      rw [tick_eq_ticked last.1, ticked_whole intact] at acted
      cases acted
      rw [Action.moves, delivering_other _ _ _ (by simp)]
      refine Eq.trans ?_ (congrArg (p.sink.passes p.received)
        (moves.along_append [.tick, .stop])).symm
      rw [silent, ← moves.fixed.sink, ← received]
      simp [along, handed, Entry.calls]
    · cases acted
      rw [Action.moves, delivering_other _ _ _ (by simp)]
      refine Eq.trans ?_ (congrArg (p.sink.passes p.received)
        (moves.along_append [.stop])).symm
      rw [silent]
      simp [along, handed, Entry.calls, Sink.passes]
  · cases acted
    rfl

theorem made_hands {entry : Entry} (made : entry.Made) (whole : entry.before.sink.Whole) :
    entry.HandsTo entry.before.sink := by
  obtain ⟨received, counted, posted⟩ := made.moved.hands whole
  refine ⟨?_, received, counted, posted, ?_⟩
  · obtain ⟨p, action, report, q⟩ := entry
    by_cases ticks : action = .step (.host .tick)
    · cases ticks
      exact tick_calls made.order whole report made.acted
    by_cases shuts : action = .step (.host .shutdown)
    · cases shuts
      exact shutdown_calls made.order whole report made.acted
    have silent : Entry.calls { before := p, action, report, after := q } = [] := by
      unfold Entry.calls
      split
      · next same _ => exact absurd same ticks
      · next same _ => exact absurd same shuts
      · rfl
    rw [silent, Entry.handed, Entry.along, Entry.moves, unhanded action _ report ticks shuts]
    rfl
  · intro visible going
    apply made.moved.events
    · apply untaken entry.action _ entry.report
      · rintro same
        simp [same, Action.observes] at visible
      · rintro same
        simp [same, Action.observes] at visible
    · exact going_on entry.action _ entry.report going

theorem log_hands (order : p.InOrder) (whole : p.sink.Whole) (actions : List Action)
    (entries : List Entry) (ran : p.log actions = .ok (entries, q)) :
    ∀ entry ∈ entries, entry.HandsTo p.sink := by
  intro entry member
  have same := ((log_fixed order actions entries ran).2 entry member).sink
  rw [← same]
  exact made_hands (log_made order actions entries ran entry member) (by rw [same]; exact whole)

end

theorem start_unwatched {config : Config} {capacity : UInt64} {sink other : Sink}
    {latency : Nat → Nat} {held : Bool} {p q : Pipeline}
    (started : start config sink latency held = .ok p)
    (again : start { config with eventQueueCapacity := capacity } other latency held = .ok q) :
    q.unwatched = p.unwatched := by
  obtain ⟨analyzer, aggregator, configured, rfl⟩ := start_success started
  obtain ⟨second, next, also, rfl⟩ := start_success again
  obtain ⟨first, judged⟩ := configure_success config analyzer aggregator configured
  obtain ⟨same, alike⟩ := configure_success _ second next also
  cases first.symm.trans same
  cases judged.symm.trans alike
  rfl

/-- Pipelines that differ in the capacity of the host's queue, in sinks that never
break and in when the host looks show the same: every action has the same answer
but for the sink's calls and the host's events, hands the same levels to the sink
and leaves the same counts. Each sink gets all levels in order; a color sink passes
on the colours of those that have one. -/
theorem observers_unobservable {config : Config} {capacity : UInt64} {sink other : Sink}
    {latency : Nat → Nat} {held : Bool} {p q : Pipeline}
    (started : start config sink latency held = .ok p)
    (again : start { config with eventQueueCapacity := capacity } other latency held = .ok q)
    (whole : sink.Whole) (also : other.Whole) (actions others : List Action)
    (same : (actions.filter fun action => !action.observes) =
      others.filter fun action => !action.observes) :
    (p.Exhausts actions ∧ q.Exhausts others) ∨
      ∃ log r entries s, p.log actions = .ok (log, r) ∧ q.log others = .ok (entries, s) ∧
        log.filterMap Entry.shown = entries.filterMap Entry.shown ∧ r.counters = s.counters ∧
        (∀ entry ∈ log, entry.HandsTo sink) ∧ (∀ entry ∈ entries, entry.HandsTo other) ∧
        ∀ map, sink = .color map → ∀ entry ∈ log, entry.calls =
          entry.handed.filterMap fun event => (map.colorOf event).map (.light event.band) := by
  have fresh := start_fresh started
  have anew := start_fresh again
  have sinks : p.sink = sink ∧ q.sink = other := by
    obtain ⟨_, _, _, rfl⟩ := start_success started
    obtain ⟨_, _, _, rfl⟩ := start_success again
    exact ⟨rfl, rfl⟩
  obtain ⟨rfl, rfl⟩ := sinks
  have runs := observers_project.independent p q p.unwatched ⟨fresh.inOrder, whole, rfl⟩
    ⟨anew.inOrder, also, (start_unwatched started again).symm⟩ actions others same
  rcases runs.cases with ⟨fault, failed, ended⟩ | ⟨x, y, ran, went, shows, u, first, second⟩
  · exact .inl ⟨exhausts_of_fault fresh actions fault failed,
      exhausts_of_fault anew others fault ended⟩
  · have hands := log_hands fresh.inOrder whole actions x.1 ran
    refine .inr ⟨x.1, x.2, y.1, y.2, ran, went, shows, ?_, hands,
      log_hands anew.inOrder also others y.1 went, ?_⟩
    · exact eq_of_unwatched (·.counters) (fun _ => rfl) (first.same.symm.trans second.same)
    · intro map colored entry member
      rw [(hands entry member).calls, colored, Sink.passes_color]

/-- The second host has room for one event of three, and its sink is another one. -/
theorem chord_observers : ∃ p q log r entries s,
    start { twoBands with eventQueueCapacity := 8 } (.color .standard) (fun _ => 0) false =
      .ok p ∧
    start twoBands .log (fun _ => 0) false = .ok q ∧
    p.log [.step (.driver (.deliver chord)), .step (.host .tick)] = .ok (log, r) ∧
    q.log [.step (.driver (.deliver chord)), .step (.host .poll), .step (.host .tick),
      .step (.host .drainEvents)] = .ok (entries, s) ∧
    log.filterMap Entry.shown = entries.filterMap Entry.shown ∧ r.counters = s.counters ∧
    log.flatMap Entry.calls = [.light 0 ⟨0, 0, 255⟩, .light 1 ⟨0, 222, 0⟩] ∧
    entries.flatMap Entry.calls = [.level ⟨0, 255⟩, .level ⟨1, 222⟩] ∧
    r.events.dropped = 0 ∧ s.events.dropped = 2 := by
  obtain ⟨p, q, started, again⟩ : ∃ p q,
      start { twoBands with eventQueueCapacity := 8 } (.color .standard) (fun _ => 0) false =
        .ok p ∧
      start twoBands .log (fun _ => 0) false = .ok q := ⟨_, _, rfl, rfl⟩
  rcases observers_unobservable started again (fun _ _ => rfl) (fun _ _ => rfl)
      [.step (.driver (.deliver chord)), .step (.host .tick)]
      [.step (.driver (.deliver chord)), .step (.host .poll), .step (.host .tick),
        .step (.host .drainEvents)] rfl with
    ⟨exhausts, -⟩ | ⟨log, r, entries, s, ran, went, shows, counts, -⟩
  · exact absurd exhausts (not_exhausts_of_length (start_fresh started) _ (by decide))
  refine ⟨p, q, log, r, entries, s, started, again, ran, went, shows, counts, ?_, ?_, ?_, ?_⟩
  · exact eq_of_evaluated (·.log _) (·.1.flatMap Entry.calls) started ran (by decide +kernel)
  · exact eq_of_evaluated (·.log _) (·.1.flatMap Entry.calls) again went (by decide +kernel)
  · exact eq_of_evaluated (·.log _) (·.2.events.dropped) started ran (by decide +kernel)
  · exact eq_of_evaluated (·.log _) (·.2.events.dropped) again went (by decide +kernel)

end Pipeline

end BandLight
