import BandLight.Proofs.PipelineKin
import BandLight.Proofs.StartChecks

/-! Batches of commands. The aggregate side obeys what was sent since its last tick in
order, but only the last tuning and whether there was a reset reach its memory. What is
retained besides differs with the order of the commands and shows in no tick. A tuning
that is no good is turned away where it is sent and leaves no trace. -/
namespace BandLight

namespace Command

def tuning? : Command → Option Tuning
  | .setTuning tuning => some tuning
  | .resetHistory => none

def lastTuning (commands : List Command) : Option Tuning := (commands.filterMap tuning?).getLast?

/-- What commands come to: the last tuning, and one reset if there was any. -/
def collapse (commands : List Command) : List Command :=
  (lastTuning commands).toList.map .setTuning ++
    if .resetHistory ∈ commands then [.resetHistory] else []

def Valid (command : Command) : Prop := ∀ tuning, command = .setTuning tuning → tuning.Valid

theorem lastTuning_mem (commands : List Command) (tuning : Tuning)
    (last : lastTuning commands = some tuning) : .setTuning tuning ∈ commands := by
  obtain ⟨command, member, same⟩ := List.mem_filterMap.mp (List.mem_of_getLast? last)
  cases command with
  | setTuning other =>
    cases same
    exact member
  | resetHistory => cases same

theorem filterMap_collapse (commands : List Command) :
    (collapse commands).filterMap tuning? = (lastTuning commands).toList := by
  unfold collapse
  cases lastTuning commands <;> split <;> rfl

/-- In either order, collapsed commands have the tuning and the reset of all of them. -/
theorem collapse_perm (commands kept : List Command) (collapsed : kept.Perm (collapse commands)) :
    lastTuning kept = lastTuning commands ∧ (.resetHistory ∈ kept ↔ .resetHistory ∈ commands) := by
  constructor
  · have tunings := collapsed.filterMap tuning?
    rw [filterMap_collapse] at tunings
    rw [lastTuning]
    cases last : lastTuning commands with
    | none =>
      rw [last] at tunings
      rw [List.perm_nil.mp tunings]
      rfl
    | some tuning =>
      rw [last] at tunings
      rw [List.perm_singleton.mp tunings]
      rfl
  · rw [collapsed.mem_iff, collapse]
    by_cases forgets : Command.resetHistory ∈ commands
    · simp [forgets]
    · simp [forgets]

theorem mem_of_mem_collapse (commands : List Command) (command : Command)
    (member : command ∈ collapse commands) : command ∈ commands := by
  rcases List.mem_append.mp member with last | reset
  · obtain ⟨tuning, listed, rfl⟩ := List.mem_map.mp last
    exact lastTuning_mem commands tuning (Option.mem_toList.mp listed)
  · split at reset
    · next forgets =>
      rw [List.mem_singleton.mp reset]
      exact forgets
    · cases reset

end Command

namespace Aggregator

/-- An aggregator with the memory that commands leave. -/
def instructed (a : Aggregator) (tuning : Option Tuning) (forgets : Bool) : Aggregator :=
  { a with tuning := tuning.getD a.tuning
           previous := if forgets then a.previous.map fun _ => 0 else a.previous }

theorem obey_all_instructed (a : Aggregator) (commands : List Command)
    (valid : ∀ tuning, .setTuning tuning ∈ commands → tuning.Valid) :
    (a.instructed (Command.lastTuning commands) (.resetHistory ∈ commands)).SameMemory
      (commands.foldl obey a) := by
  induction commands generalizing a with
  | nil => exact ⟨rfl, rfl, rfl⟩
  | cons command commands ih =>
    obtain ⟨bands, tuning, previous⟩ :=
      ih (a.obey command) fun tuning member => valid tuning (by simp [member])
    rw [List.foldl_cons]
    cases command with
    | resetHistory =>
      refine ⟨bands, tuning, ?_⟩
      rw [previous]
      simp [instructed, obey, reset]
    | setTuning first =>
      have obeyed : a.obey (.setTuning first) = { a with tuning := first } := by
        simp only [obey, setTuning_eq _ first (valid first (by simp))]
      rw [obeyed] at bands tuning previous ⊢
      refine ⟨bands, ?_, ?_⟩
      · rw [tuning]
        simp [instructed, Command.lastTuning, Command.tuning?, List.getLast?_cons]
      · rw [previous]
        simp [instructed]

theorem obey_all_collapse (a : Aggregator) (commands kept : List Command)
    (collapsed : kept.Perm (Command.collapse commands))
    (valid : ∀ tuning, .setTuning tuning ∈ commands → tuning.Valid) :
    (commands.foldl obey a).SameMemory (kept.foldl obey a) := by
  have all := a.obey_all_instructed commands valid
  have few := a.obey_all_instructed kept fun tuning member => valid tuning
    (Command.mem_of_mem_collapse commands _ (collapsed.mem_iff.mp member))
  obtain ⟨tuning, forgets⟩ := Command.collapse_perm commands kept collapsed
  simp only [tuning, forgets] at few
  exact ⟨few.bands.trans all.bands.symm, few.tuning.trans all.tuning.symm,
    few.previous.trans all.previous.symm⟩

end Aggregator

namespace Pipeline

/-- Some commands have come in, and the aggregate side has not moved. -/
structure Receives (p : Pipeline) (commands : List Command) (q : Pipeline) : Prop where
  commands : q.commands = p.commands ++ commands
  aggregator : q.aggregator = p.aggregator
  running : q.running = p.running
  aggregating : q.aggregating = p.aggregating

def Move.command? : Move → Option Command
  | .send command => some command
  | _ => none

namespace Action

def command? : Action → Option Command
  | .step (.host (.setTuning tuning)) => some (.setTuning tuning)
  | .step (.host .resetHistory) => some .resetHistory
  | _ => none

def quiet (action : Action) : Bool := action.command?.isNone

end Action

def Entry.sent (entry : Entry) : Option Command :=
  if entry.report.answer = .done then entry.action.command? else none

section
variable {p q r : Pipeline}

theorem obeyed_append (commands : List Command) (received : p.Receives commands q) :
    q.obeyed = commands.foldl Aggregator.obey p.obeyed := by
  rw [obeyed, received.commands, received.aggregator, List.foldl_append]
  rfl

theorem quiet_of_timed (action : Action) (ticks : action.timed = true) : action.quiet = true := by
  unfold Action.timed at ticks
  split at ticks
  · rfl
  · rfl
  · cases ticks

theorem answerSend_send (command : Command) (running : p.running = true) :
    (p.aggregating = true ∧
      p.answerSend (p.send command) = ({ answer := .done }, p.move (.send command))) ∨
    (¬ p.aggregating = true ∧
      p.answerSend (p.send command) = ({ answer := .rejected .channelSendError }, p)) := by
  by_cases there : p.aggregating = true
  · rw [send_there running there]
    exact .inl ⟨there, rfl⟩
  · rw [send_gone running (by simpa using there)]
    exact .inr ⟨there, rfl⟩

/-- A command is accepted if it is valid and the aggregate side is there, and nothing is
changed if it is not accepted. -/
theorem act_command (action : Action) (command : Command) (sends : action.command? = some command) :
    (p.running = true ∧ p.aggregating = true ∧ command.Valid ∧
      p.act action = .ok ({ answer := .done }, p.move (.send command))) ∨
    (¬ (p.running = true ∧ p.aggregating = true ∧ command.Valid) ∧
      ∃ answer, answer ≠ .done ∧ p.act action = .ok ({ answer }, p)) := by
  by_cases running : p.running = true
  · unfold Action.command? at sends
    split at sends
    · next tuning =>
      cases sends
      rw [act, perform, if_pos running, hostStep, sendTuning]
      cases checked : tuning.validate with
      | error error =>
        refine .inr ⟨fun good => ?_, _, by simp, rfl⟩
        have valid := good.2.2 tuning rfl
        rw [Tuning.Valid, checked] at valid
        cases valid
      | ok done =>
        have valid : Command.Valid (.setTuning tuning) := by
          rintro other same
          cases same
          exact checked
        rcases answerSend_send (.setTuning tuning) running with ⟨there, sent⟩ | ⟨gone, sent⟩
        · exact .inl ⟨running, there, valid, congrArg Except.ok sent⟩
        · exact .inr ⟨fun good => gone good.2.1, _, by simp, congrArg Except.ok sent⟩
    · cases sends
      rw [act, perform, if_pos running, hostStep]
      rcases answerSend_send .resetHistory running with ⟨there, sent⟩ | ⟨gone, sent⟩
      · exact .inl ⟨running, there, by rintro _ ⟨⟩, congrArg Except.ok sent⟩
      · exact .inr ⟨fun good => gone good.2.1, _, by simp, congrArg Except.ok sent⟩
    · cases sends
  · have stopped (s : HostStep) : p.act (.step (.host s)) = .ok ({ answer := .stopped }, p) := by
      rw [act, perform, if_neg running]
    refine .inr ⟨fun good => running good.1, .stopped, by simp, ?_⟩
    unfold Action.command? at sends
    split at sends
    · exact stopped _
    · exact stopped _
    · cases sends

theorem sent_iff {entry : Entry} (made : entry.Made) (command : Command) :
    entry.sent = some command ↔ entry.action.command? = some command ∧
      entry.before.running = true ∧ entry.before.aggregating = true ∧ command.Valid := by
  have acted := made.acted
  constructor
  · intro sent
    rw [Entry.sent] at sent
    split at sent
    · next done =>
      refine ⟨sent, ?_⟩
      rcases act_command entry.action command sent with
        ⟨running, there, valid, -⟩ | ⟨-, answer, other, refused⟩
      · exact ⟨running, there, valid⟩
      · rw [refused] at acted
        rw [← (Prod.mk.inj (Except.ok.inj acted)).1] at done
        exact absurd done other
    · cases sent
  · rintro ⟨sends, accepted⟩
    rcases act_command entry.action command sends with ⟨-, -, -, done⟩ | ⟨refused, -⟩
    · rw [acted] at done
      have answer : entry.report.answer = .done := by
        rw [(Prod.mk.inj (Except.ok.inj done)).1]
      rw [Entry.sent, if_pos answer, sends]
    · exact absurd accepted refused

theorem move_receives (move : Move) (still : move ≠ .tick ∧ move ≠ .stop) :
    p.Receives move.command?.toList (p.move move) := by
  cases move with
  | tick => exact absurd rfl still.1
  | stop => exact absurd rfl still.2
  | send command => exact ⟨rfl, rfl, rfl, rfl⟩
  | _ => exact ⟨(List.append_nil _).symm, rfl, rfl, rfl⟩

theorem Receives.trans {first second : List Command} (received : p.Receives first q)
    (others : q.Receives second r) : p.Receives (first ++ second) r where
  commands := by rw [others.commands, received.commands, List.append_assoc]
  aggregator := others.aggregator.trans received.aggregator
  running := others.running.trans received.running
  aggregating := others.aggregating.trans received.aggregating

theorem Moves.receives {moves : List Move} (moved : Moves p moves q)
    (still : ∀ move ∈ moves, move ≠ .tick ∧ move ≠ .stop) :
    p.Receives (moves.filterMap Move.command?) q := by
  induction moved with
  | nil p => exact ⟨(List.append_nil _).symm, rfl, rfl, rfl⟩
  | cons move moves order rest ih =>
    have whole := (move_receives move (still move (by simp))).trans
      (ih fun other member => still other (by simp [member]))
    rw [List.filterMap_cons]
    cases found : move.command? <;> simpa [found] using whole

theorem closing_command (action : Action) (report : Report) :
    (action.closing report).filterMap Move.command? =
      (if report.answer = .done then action.command? else none).toList := by
  obtain ⟨answer, analyses⟩ := report
  cases action with
  | step s =>
    cases s with
    | driver s => cases s <;> cases answer <;> rfl
    | host s =>
      cases s with
      | shutdown =>
        cases answer with
        | finished tick stats events => cases tick <;> rfl
        | _ => rfl
      | _ => cases answer <;> rfl
  | _ => cases answer <;> rfl

theorem moves_sent (entry : Entry) :
    entry.moves.filterMap Move.command? = entry.sent.toList := by
  have delivered : (entry.action.delivering entry.before.size entry.report).filterMap
      Move.command? = [] := by
    unfold Action.delivering
    split
    · rfl
    · simp [Move.command?]
  have woken : (entry.action.waking entry.report).filterMap Move.command? = [] := by
    refine List.filterMap_eq_nil_iff.mpr fun move member => ?_
    rw [waking_unhold entry.action entry.report move member]
    rfl
  have absorbed : (entry.report.analyses.map fun analysis =>
      Move.absorb analysis.block).filterMap Move.command? = [] := by
    simp [Move.command?]
  rw [Entry.moves, Action.moves, List.filterMap_append, List.filterMap_append,
    List.filterMap_append, delivered, woken, absorbed, closing_command]
  rfl

/-- Between two ticks the aggregate side gets the accepted commands and nothing else. -/
theorem log_receives (order : p.InOrder) (batch : List Action)
    (untimed : ∀ action ∈ batch, action.timed = false) (entries : List Entry)
    (ran : p.log batch = .ok (entries, q)) :
    p.Receives (entries.filterMap Entry.sent) q ∧ ∀ entry ∈ entries,
      entry.before.running = p.running ∧ entry.before.aggregating = p.aggregating := by
  refine (log_induction (fun entries q => p.Receives (entries.filterMap Entry.sent) q ∧
    ∀ entry ∈ entries, entry.before.running = p.running ∧
      entry.before.aggregating = p.aggregating) order
    ⟨⟨(List.append_nil _).symm, rfl, rfl, rfl⟩, by simp⟩ batch ?_ entries ran).2
  intro entries entry made member ⟨received, each⟩
  have single := made.moved.receives
    (untimed_moves entry.action (untimed entry.action member) _ entry.report)
  rw [moves_sent] at single
  refine ⟨?_, ?_⟩
  · have whole := received.trans single
    rw [List.filterMap_append, List.filterMap_cons]
    cases found : entry.sent <;> simpa [found] using whole
  · intro other member
    rcases List.mem_append.mp member with earlier | last
    · exact each other earlier
    · rw [List.mem_singleton.mp last]
      exact ⟨received.running, received.aggregating⟩

theorem log_quiet (order : p.InOrder) (ordered : q.InOrder) (apart : p.Apart q)
    (batch : List Action) (untimed : ∀ action ∈ batch, action.timed = false) :
    Checked.Matched (fun x y => (x.1.filter (·.action.quiet)).map Entry.told =
        y.1.map Entry.told ∧ x.2.InOrder ∧ y.2.InOrder ∧ x.2.Apart y.2)
      (p.log batch) (q.log (batch.filter Action.quiet)) := by
  induction batch generalizing p q with
  | nil => exact ⟨rfl, order, ordered, apart⟩
  | cons action batch ih =>
    have rest : ∀ other ∈ batch, other.timed = false := fun other member =>
      untimed other (by simp [member])
    cases sends : action.command? with
    | some command =>
      obtain ⟨report, next, acted, later⟩ : ∃ report next, p.act action = .ok (report, next) ∧
          next.Apart q := by
        obtain ⟨commands, aggregator, rfl⟩ := apart
        rcases act_command action command sends with ⟨-, -, -, done⟩ | ⟨-, _, -, refused⟩
        · exact ⟨_, _, done, commands, aggregator, rfl⟩
        · exact ⟨_, _, refused, commands, aggregator, rfl⟩
      rw [List.filter_cons_of_neg (by simp [Action.quiet, sends]), log,
        Checked.trace_cons_eq note _ _ _ batch _ (note_act action report acted)]
      apply Checked.Matched.map_left
      refine (ih (order.act action report acted) ordered later rest).imp ?_
      rintro x y ⟨told, both⟩
      refine ⟨?_, both⟩
      rw [List.filter_cons_of_neg (by simp [Action.quiet, sends])]
      exact told
    | none =>
      rw [List.filter_cons_of_pos (by simp [Action.quiet, sends])]
      have first := (note_apart apart order ordered action (untimed action (by simp))).imp_ok
        fun x y (noted : p.note action = .ok x) _ both => And.intro noted both
      refine first.bind _ _ ?_
      rintro ⟨entry, r⟩ ⟨other, s⟩ ⟨noted, told, last, ended, later⟩
      refine (ih last ended later rest).bind _ _ ?_
      rintro ⟨entries, r⟩ ⟨others, s⟩ ⟨tail, both⟩
      refine ⟨?_, both⟩
      have quiet : entry.action.quiet = true := by
        rw [(note_success action entry noted).2.1, Action.quiet, sends]
        rfl
      rw [List.filter_cons, if_pos quiet, List.map_cons, List.map_cons, told, tail]

theorem sent_collapse (order : p.InOrder) (batch other : List Action)
    (untimed : ∀ action ∈ batch, action.timed = false)
    (untimely : ∀ action ∈ other, action.timed = false) (entries others : List Entry)
    (ran : p.log batch = .ok (entries, q)) (went : p.log other = .ok (others, r))
    (collapsed : (other.filterMap Action.command?).Perm
      (Command.collapse (entries.filterMap Entry.sent))) :
    others.filterMap Entry.sent = other.filterMap Action.command? := by
  obtain ⟨-, flags⟩ := log_receives order batch untimed entries ran
  obtain ⟨-, same⟩ := log_receives order other untimely others went
  rw [← log_actions other others went, List.filterMap_map]
  apply List.filterMap_congr
  intro entry member
  change entry.sent = entry.action.command?
  cases sends : entry.action.command? with
  | none => rw [Entry.sent, sends, ite_self]
  | some command =>
    have listed : command ∈ other.filterMap Action.command? := by
      rw [← log_actions other others went]
      exact List.mem_filterMap.mpr ⟨entry.action, List.mem_map_of_mem member, sends⟩
    obtain ⟨first, inside, sent⟩ := List.mem_filterMap.mp
      (Command.mem_of_mem_collapse _ command (collapsed.mem_iff.mp listed))
    obtain ⟨-, running, there, valid⟩ :=
      (sent_iff (log_made order batch entries ran first inside) command).mp sent
    refine (sent_iff (log_made order other others went entry member) command).mpr
      ⟨sends, ?_, ?_, valid⟩
    · rw [(same entry member).1, ← (flags first inside).1, running]
    · rw [(same entry member).2, ← (flags first inside).2, there]

theorem log_rejected (tuning : Tuning) (zero : ¬ tuning.NonZero) : ∃ field, ∀ later,
    p.log (.step (.host (.setTuning tuning)) :: later) = (p.log later).map fun run =>
      ({ before := p
         action := .step (.host (.setTuning tuning))
         report := { answer :=
           if p.running then .rejected (.setup (.invalidTuning field)) else .stopped }
         after := p } :: run.1, run.2) := by
  obtain ⟨field, refused⟩ := tuning.validate_zero zero
  refine ⟨field, fun later => Checked.trace_cons_eq note p p _ later _ (note_act _ _ ?_)⟩
  rw [act, perform]
  split
  · rw [hostStep, sendTuning, refused]
    rfl
  · rfl

end

/-- Commands collapse, and a tuning with a zero field leaves no trace. Between two ticks of
any pipeline that was reached, the accepted commands may be replaced by the last tuning and
one reset, wherever they are sent and in either order: these are accepted, nothing else that
is told before the tick changes, and nothing that is told from then on. -/
theorem commands_collapse {config : Config} {sink : Sink} {latency : Nat → Nat} {held : Bool}
    {p q : Pipeline} (started : start config sink latency held = .ok p) (before : List Action)
    (earlier : List Entry) (reached : p.log before = .ok (earlier, q)) :
    (∀ tuning : Tuning, ¬ tuning.NonZero → ∃ field, ∀ later,
      q.log (.step (.host (.setTuning tuning)) :: later) = (q.log later).map fun run =>
        ({ before := q
           action := .step (.host (.setTuning tuning))
           report := { answer :=
             if q.running then .rejected (.setup (.invalidTuning field)) else .stopped }
           after := q } :: run.1, run.2)) ∧
    ∀ batch entries r, (∀ action ∈ batch, action.timed = false) →
      q.log batch = .ok (entries, r) → ∀ other,
      other.filter Action.quiet = batch.filter Action.quiet →
      (other.filterMap Action.command?).Perm
        (Command.collapse (entries.filterMap Entry.sent)) →
      ∃ others s, q.log other = .ok (others, s) ∧
        others.filterMap Entry.sent = other.filterMap Action.command? ∧
        (others.filter (·.action.quiet)).map Entry.told =
          (entries.filter (·.action.quiet)).map Entry.told ∧
        ∀ later, Checked.Matched (fun x y => x.1.map Entry.told = y.1.map Entry.told)
          (r.log later) (s.log later) := by
  have order : q.InOrder := (log_induction (fun _ _ => True) (start_fresh started).inOrder
    trivial before (fun _ _ _ _ _ => trivial) earlier reached).1
  refine ⟨fun tuning zero => log_rejected tuning zero, ?_⟩
  intro batch entries r untimed ran other same collapsed
  have untimely : ∀ action ∈ other, action.timed = false := by
    intro action member
    by_contra ticks
    have timed : action.timed = true := by simpa using ticks
    have kept : action ∈ other.filter Action.quiet :=
      List.mem_filter.mpr ⟨member, quiet_of_timed action timed⟩
    rw [same] at kept
    exact ticks (untimed action (List.mem_filter.mp kept).1)
  have own := log_quiet order order ⟨q.commands, q.aggregator, rfl⟩ batch untimed
  have also := log_quiet order order ⟨q.commands, q.aggregator, rfl⟩ other untimely
  rw [same] at also
  rw [ran] at own
  rcases (own.meet also).cases with
    ⟨_, failed, -⟩ | ⟨_, ⟨others, s⟩, ended, went, z, ⟨told, left, -, first⟩, retold, right, -, second⟩
  · cases failed
  cases ended
  have sent := sent_collapse order batch other untimed untimely entries others ran went collapsed
  refine ⟨others, s, went, sent, retold.trans told.symm, fun later => ?_⟩
  obtain ⟨received, -⟩ := log_receives order batch untimed entries ran
  obtain ⟨instead, -⟩ := log_receives order other untimely others went
  have valid : ∀ tuning, .setTuning tuning ∈ entries.filterMap Entry.sent → tuning.Valid := by
    intro tuning member
    obtain ⟨entry, inside, sent⟩ := List.mem_filterMap.mp member
    exact ((sent_iff (log_made order batch entries ran entry inside) _).mp sent).2.2.2 tuning rfl
  refine log_kin ⟨first.trans second.symm, ?_⟩ left right later
  rw [obeyed_append _ received, obeyed_append _ instead, sent]
  exact q.obeyed.obey_all_collapse _ _ collapsed valid

/-- Two tunings and two resets around a delivery and a tuning that is rejected. -/
theorem standard_commands_collapse : ∃ p entries q others r,
    start .standard .log (fun _ => 0) true = .ok p ∧
    p.log [.step (.host (.setTuning ⟨1, 2, 3, 4⟩)), .step (.host .resetHistory),
      .step (.driver (.deliver [1200, -700])), .step (.host (.setTuning ⟨7, 7, 0, 7⟩)),
      .step (.host (.setTuning ⟨5, 6, 7, 8⟩)), .step (.host .resetHistory)] = .ok (entries, q) ∧
    p.log [.step (.host .resetHistory), .step (.driver (.deliver [1200, -700])),
      .step (.host (.setTuning ⟨5, 6, 7, 8⟩))] = .ok (others, r) ∧
    entries.filterMap Entry.sent = [.setTuning ⟨1, 2, 3, 4⟩, .resetHistory,
      .setTuning ⟨5, 6, 7, 8⟩, .resetHistory] ∧
    others.filterMap Entry.sent = [.resetHistory, .setTuning ⟨5, 6, 7, 8⟩] ∧
    ∀ later, Checked.Matched (fun x y => x.1.map Entry.told = y.1.map Entry.told)
      (q.log later) (r.log later) := by
  obtain ⟨p, entries, q, started, ran, sent⟩ : ∃ p entries q,
      start .standard .log (fun _ => 0) true = .ok p ∧
      p.log [.step (.host (.setTuning ⟨1, 2, 3, 4⟩)), .step (.host .resetHistory),
        .step (.driver (.deliver [1200, -700])), .step (.host (.setTuning ⟨7, 7, 0, 7⟩)),
        .step (.host (.setTuning ⟨5, 6, 7, 8⟩)), .step (.host .resetHistory)] = .ok (entries, q) ∧
      entries.filterMap Entry.sent = [.setTuning ⟨1, 2, 3, 4⟩, .resetHistory,
        .setTuning ⟨5, 6, 7, 8⟩, .resetHistory] :=
    ⟨_, _, _, rfl, rfl, rfl⟩
  obtain ⟨others, r, went, accepted, -, later⟩ := (commands_collapse started [] [] rfl).2 _ entries
    q (by decide) ran [.step (.host .resetHistory), .step (.driver (.deliver [1200, -700])),
      .step (.host (.setTuning ⟨5, 6, 7, 8⟩))] rfl (by rw [sent]; decide)
  exact ⟨p, entries, q, others, r, started, ran, went, sent, accepted, later⟩

end Pipeline

end BandLight
