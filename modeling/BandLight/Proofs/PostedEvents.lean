import BandLight.Proofs.TickReadings

/-! The events that are posted to the host, wherever they come from: a tick posts
levels and a mean frequency, a refusal and a late analysis post one event each. The
queue loses no event but those that are posted while it is full, and it counts
them; the host gets all others in the order of posting. -/
namespace BandLight

/-- A posted event and the number of events that waited for the host then. -/
structure Posting where
  event : Event
  waiting : Nat
  deriving DecidableEq, Repr, Inhabited

/-- The event was posted to a full queue. -/
def Posting.missed (limit : Nat) (posting : Posting) : Bool := posting.waiting == limit

namespace EventQueue

def postings : EventQueue → List Event → List Posting
  | _, [] => []
  | q, event :: events =>
      { event, waiting := q.queue.items.length } :: (q.post event).postings events

/-- What the host has polled and what waits for it, against all that was posted. -/
structure Accounts (limit : Nat) (polled : List Event) (postings : List Posting)
    (q : EventQueue) : Prop where
  attended : q.attended = true
  capacity : q.queue.capacity = limit
  bounded : q.queue.items.length ≤ limit
  waiting : ∀ posting ∈ postings, posting.waiting ≤ limit
  kept : polled ++ q.queue.items =
    (postings.filter fun posting => !posting.missed limit).map (·.event)
  dropped : q.dropped = (postings.filter (·.missed limit)).length

section
variable {limit : Nat} {polled : List Event} {posted : List Posting} {q : EventQueue}

theorem events_postings (q : EventQueue) (events : List Event) :
    (q.postings events).map (·.event) = events := by
  induction events generalizing q with
  | nil => rfl
  | cons event events ih => simp [postings, ih]

theorem Accounts.post (accounts : q.Accounts limit polled posted) (event : Event) :
    (q.post event).Accounts limit polled
      (posted ++ [{ event, waiting := q.queue.items.length }]) := by
  have bounded := accounts.bounded
  have waiting : ∀ posting ∈ posted ++ [{ event, waiting := q.queue.items.length }],
      posting.waiting ≤ limit := by
    intro posting member
    rcases List.mem_append.mp member with earlier | last
    · exact accounts.waiting posting earlier
    · rw [List.mem_singleton.mp last]
      exact bounded
  -- The posting is missed just when the queue has no room for it.
  by_cases full : q.queue.items.length = limit
  · have isFull : q.queue.isFull = true := by simp [Bounded.isFull, accounts.capacity, full]
    rw [post_full _ _ accounts.attended isFull]
    refine ⟨accounts.attended, accounts.capacity, bounded, waiting, ?_, ?_⟩
    · simp [Posting.missed, full, accounts.kept]
    · simp [Posting.missed, full, accounts.dropped]
  · have isFree : q.queue.isFull = false := by
      simp only [Bounded.isFull, accounts.capacity, decide_eq_false_iff_not]
      omega
    rw [post_free _ _ accounts.attended isFree]
    refine ⟨accounts.attended, accounts.capacity, ?_, waiting, ?_, ?_⟩
    · simp only [Bounded.push, List.length_append, List.length_singleton]
      omega
    · rw [List.filter_append, List.map_append, ← accounts.kept]
      simp [Posting.missed, full, Bounded.push]
    · simp [Posting.missed, full, accounts.dropped]

theorem Accounts.postAll (accounts : q.Accounts limit polled posted) (events : List Event) :
    (q.postAll events).Accounts limit polled (posted ++ q.postings events) := by
  induction events generalizing q posted with
  | nil => simpa [postings, EventQueue.postAll] using accounts
  | cons event events ih => simpa [postings, EventQueue.postAll] using ih (accounts.post event)

theorem Accounts.take (accounts : q.Accounts limit polled posted) (count : Nat) :
    Accounts limit (polled ++ q.queue.items.take count) posted
      { q with queue := { q.queue with items := q.queue.items.drop count } } := by
  have bounded := accounts.bounded
  refine { accounts with bounded := ?_, kept := ?_ }
  · rw [List.length_drop]
    omega
  · rw [List.append_assoc, List.take_append_drop]
    exact accounts.kept

theorem Accounts.balance (accounts : q.Accounts limit polled posted) :
    posted.length = polled.length + q.queue.items.length + q.dropped := by
  have kept := congrArg List.length accounts.kept
  have parts := List.length_eq_length_filter_add (l := posted) (·.missed limit)
  rw [List.length_append, List.length_map] at kept
  rw [accounts.dropped]
  omega

end

end EventQueue

theorem Sink.acceptAll_prefix (sink : Sink) (received events : List LevelEvent) :
    (sink.acceptAll received events).2.1 <+: events := by
  induction events generalizing received with
  | nil => simp [acceptAll]
  | cons event events ih =>
    unfold acceptAll
    split
    · simp
    · simpa using ih (received ++ [event])

namespace Pipeline

def posted (p : Pipeline) : Move → List Event
  | .refuse count => [.overrun (UInt64.ofNat count)]
  | .absorb _ => p.config.lateness (p.latency p.counters.analyzed)
  | .tick => p.tidings
  | .stop => if p.aggregating then [.stopped] else []
  | _ => []

def postings (p : Pipeline) (move : Move) : List Posting := p.events.postings (p.posted move)

def polled (p : Pipeline) : Move → List Event
  | .take count => p.events.queue.items.take count
  | _ => []

namespace Entry

def postings (entry : Entry) : List Posting := entry.along Pipeline.postings

def polled (entry : Entry) : List Event :=
  match entry.action, entry.report.answer with
  | .step (.host .poll), .event event => event.toList
  | .step (.host .drainEvents), .events events => events
  | _, _ => []

def refusal (entry : Entry) : List Event :=
  if entry.report.answer = .accepted false then
    [.overrun (UInt64.ofNat (entry.action.block entry.before.size).length)]
  else []

/-- One event for every analysis that takes longer than a block period. -/
def lateness (entry : Entry) : List Event :=
  (List.range entry.report.analyses.length).flatMap fun i =>
    entry.before.config.lateness (entry.before.latency (entry.before.counters.analyzed + i))

def measures (entry : Entry) : List Event :=
  match entry.action, entry.report.answer with
  | .step (.host .tick), .ticked _ => entry.before.tidings
  | _, _ => []

/-- Everything that is posted for an action before a shutdown. -/
def news (entry : Entry) : List Event := entry.refusal ++ entry.lateness ++ entry.measures

end Entry

section
variable {p q : Pipeline} {limit : Nat} {polls : List Event} {posts : List Posting}

theorem move_events (order : p.InOrder) (move : Move) (left : ∀ count, move ≠ .take count)
    (going : move ≠ .stop) : (p.move move).events = p.events.postAll (p.posted move) := by
  cases move with
  | tick =>
    rw [move_ticked order]
    rfl
  | take count => exact absurd rfl (left count)
  | stop => exact absurd rfl going
  | _ => rfl

theorem Moves.events {moves : List Move} (moved : Moves p moves q)
    (left : ∀ count, .take count ∉ moves) (going : .stop ∉ moves) :
    q.events = p.events.postAll (along posted p moves) := by
  induction moved with
  | nil p => rfl
  | cons move moves order rest ih =>
    have first := move_events order move (by rintro count rfl; exact left count (by simp))
      (by rintro rfl; simp at going)
    rw [ih (fun count member => left count (by simp [member])) (by simp_all), first, along,
      EventQueue.postAll, EventQueue.postAll, EventQueue.postAll, List.foldl_append]

theorem move_accounts (order : p.InOrder) (accounts : p.events.Accounts limit polls posts)
    (move : Move) (going : move ≠ .stop) :
    (p.move move).events.Accounts limit (polls ++ p.polled move) (posts ++ p.postings move) := by
  by_cases takes : ∃ count, move = .take count
  · obtain ⟨count, rfl⟩ := takes
    simpa [postings, posted, EventQueue.postings, polled, Pipeline.move] using accounts.take count
  · have silent : p.polled move = [] := by
      unfold polled
      split
      · exact absurd ⟨_, rfl⟩ takes
      · rfl
    rw [move_events order move (fun count same => takes ⟨count, same⟩) going, silent,
      List.append_nil]
    exact accounts.postAll (p.posted move)

theorem Moves.accounts {moves : List Move} (moved : Moves p moves q) (going : .stop ∉ moves)
    (accounts : p.events.Accounts limit polls posts) :
    q.events.Accounts limit (polls ++ along polled p moves)
      (posts ++ along postings p moves) := by
  induction moved generalizing polls posts with
  | nil p => simpa [along] using accounts
  | cons move moves order rest ih =>
    have first := move_accounts order accounts move (by rintro rfl; simp at going)
    simpa [along] using ih (by simp_all) first

theorem events_along (p : Pipeline) (moves : List Move) :
    (along postings p moves).map (·.event) = along posted p moves := by
  induction moves generalizing p with
  | nil => rfl
  | cons move moves ih => simp [along, postings, EventQueue.events_postings, ih]

theorem Moves.split (first : List Move) {second : List Move} (moved : Moves p (first ++ second) q) :
    ∃ r, Moves p first r ∧ Moves r second q := by
  induction first generalizing p with
  | nil => exact ⟨p, .nil p, moved⟩
  | cons move first ih =>
    cases moved with
    | cons _ _ order rest =>
      obtain ⟨r, head, tail⟩ := ih rest
      exact ⟨r, .cons move first order head, tail⟩

theorem Moves.analyzed {moves : List Move} (moved : Moves p moves q)
    (none : ∀ block, .absorb block ∉ moves) : q.counters.analyzed = p.counters.analyzed := by
  induction moved with
  | nil p => rfl
  | @cons p q move moves order rest ih =>
    refine (ih fun block member => none block (by simp [member])).trans ?_
    cases move with
    | absorb block => exact absurd (by simp) (none block)
    | tick =>
      rw [move_ticked order]
      rfl
    | stop =>
      obtain ⟨events, stopped, -⟩ := stop_eq p
      rw [Pipeline.move, stopped]
    | _ => rfl

theorem along_absorb (p : Pipeline) (analyses : List Analysis) :
    along posted p (analyses.map fun analysis => .absorb analysis.block) =
      (List.range analyses.length).flatMap fun i =>
        p.config.lateness (p.latency (p.counters.analyzed + i)) := by
  induction analyses generalizing p with
  | nil => rfl
  | cons analysis analyses ih =>
    rw [List.length_cons, List.range_succ_eq_map, List.flatMap_cons, List.flatMap_map, List.map_cons,
      along, ih]
    simp only [Nat.add_succ, ← Nat.succ_add]
    rfl

theorem along_refusal (entry : Entry) : along posted p (entry.action.delivering entry.before.size
    entry.report ++ entry.action.waking entry.report) = entry.refusal := by
  have woken : ∀ move ∈ entry.action.waking entry.report, ∀ q, posted q move = [] := by
    intro move member q
    rw [waking_unhold _ _ move member]
    rfl
  unfold Action.delivering Entry.refusal
  split
  · simp [along, posted, along_eq_nil _ woken]
  · apply along_eq_nil
    intro move member q
    rcases List.mem_append.mp member with delivered | waking
    · obtain ⟨block, _, rfl⟩ := List.mem_map.mp delivered
      rfl
    · exact woken move waking q

theorem unabsorbed (entry : Entry) (block : List Sample) : .absorb block ∉
    entry.action.delivering entry.before.size entry.report ++ entry.action.waking entry.report := by
  intro member
  rcases List.mem_append.mp member with delivered | waking
  · unfold Action.delivering at delivered
    split at delivered <;> simp at delivered
  · exact Move.noConfusion (waking_unhold _ _ _ waking)

/-- Apart from ticks and shutdowns an action ends with moves that post nothing. -/
theorem closing_silent (action : Action) (report : Report) (other : action ≠ .step (.host .tick))
    (going : action ≠ .step (.host .shutdown)) :
    ∀ move ∈ action.closing report, ∀ q, posted q move = [] := by
  unfold Action.closing
  split <;> simp_all [posted]

theorem tick_news (order : p.InOrder) (report : Report)
    (acted : p.act (.step (.host .tick)) = .ok (report, q)) :
    along posted p (Action.moves p.size (.step (.host .tick)) report) =
      Entry.news { before := p, action := .step (.host .tick), report, after := q } := by
  rcases tick_report order report acted with rfl | rfl | rfl
  · rfl
  · rfl
  · simp [Action.moves, Action.delivering, Action.taken, Action.waking, Action.closing, along,
      posted, Entry.news, Entry.refusal, Entry.lateness, Entry.measures]

/-- What the moves of an action post is one event for a refusal, one for every
late analysis, and the events of a tick. -/
theorem made_news {entry : Entry} (made : entry.Made)
    (going : entry.action ≠ .step (.host .shutdown)) : entry.along posted = entry.news := by
  by_cases ticks : entry.action = .step (.host .tick)
  · obtain ⟨p, action, report, q⟩ := entry
    cases ticks
    exact tick_news made.order report made.acted
  · -- The moves are cut behind the refusal: latencies are counted from there.
    have quiet := closing_silent entry.action entry.report ticks going
    have none : entry.measures = [] := by
      unfold Entry.measures
      split
      · next same _ => exact absurd same ticks
      · rfl
    obtain ⟨r, early, closing⟩ := Moves.split _ made.moved
    obtain ⟨s, first, absorbing⟩ := Moves.split _ early
    have unchanged := first.fixed
    have count := first.analyzed (unabsorbed entry)
    have late := along_absorb s entry.report.analyses
    rw [unchanged.config, unchanged.latency, count] at late
    rw [Entry.along, Entry.moves, Action.moves, early.along_append, first.along_append,
      along_refusal, late, along_eq_nil _ quiet, Entry.news, none]
    rfl

theorem untaken (action : Action) (size : Nat) (report : Report)
    (other : action ≠ .step (.host .poll)) (further : action ≠ .step (.host .drainEvents))
    (count : Nat) : .take count ∉ action.moves size report := by
  intro member
  have closing := mem_closing member rfl
  unfold Action.closing at closing
  split at closing <;> simp_all

theorem going_on (action : Action) (size : Nat) (report : Report)
    (going : action ≠ .step (.host .shutdown)) : .stop ∉ action.moves size report := by
  intro member
  have closing := mem_closing member rfl
  unfold Action.closing at closing
  split at closing <;> simp_all

theorem poll_polled (report : Report) (acted : p.act (.step (.host .poll)) = .ok (report, q)) :
    along polled p (Action.moves p.size (.step (.host .poll)) report) =
      Entry.polled { before := p, action := .step (.host .poll), report, after := q } := by
  rw [act, perform] at acted
  split at acted
  · cases acted
    change p.events.queue.items.take p.events.queue.items.head?.toList.length ++ [] =
      p.events.queue.items.head?.toList
    cases p.events.queue.items <;> simp
  · cases acted
    rfl

theorem drain_polled (report : Report)
    (acted : p.act (.step (.host .drainEvents)) = .ok (report, q)) :
    along polled p (Action.moves p.size (.step (.host .drainEvents)) report) =
      Entry.polled { before := p, action := .step (.host .drainEvents), report, after := q } := by
  rw [act, perform] at acted
  split at acted
  · cases acted
    change p.events.queue.items.take p.events.queue.items.length ++ [] = p.events.queue.items
    simp
  · cases acted
    rfl

theorem made_polled {entry : Entry} (made : entry.Made) : entry.along polled = entry.polled := by
  obtain ⟨p, action, report, q⟩ := entry
  by_cases polls : action = .step (.host .poll)
  · cases polls
    exact poll_polled report made.acted
  · by_cases drains : action = .step (.host .drainEvents)
    · cases drains
      exact drain_polled report made.acted
    · have none : Entry.polled { before := p, action, report, after := q } = [] := by
        unfold Entry.polled
        split
        · next same _ => exact absurd same polls
        · next same _ => exact absurd same drains
        · rfl
      rw [none]
      apply along_eq_nil
      intro move member q
      cases move with
      | take count => exact absurd member (untaken action p.size report polls drains count)
      | _ => rfl

theorem made_accounts {entry : Entry} (made : entry.Made)
    (going : entry.action ≠ .step (.host .shutdown))
    (accounts : entry.before.events.Accounts limit polls posts) :
    entry.after.events.Accounts limit (polls ++ entry.polled) (posts ++ entry.postings) := by
  have later := made.moved.accounts (going_on entry.action _ entry.report going) accounts
  rw [← made_polled made]
  exact later

/-- Levels in the order of the bands, then a mean frequency if there is one. -/
def Measures (bands : Nat) (events : List Event) : Prop :=
  ∃ (levels : List LevelEvent) (mean : Option UInt32),
    events = levels.map .ofLevel ++ mean.toList.map .meanFrequency ∧
      (levels.map (·.band)).Sublist ((List.range bands).map UInt64.ofNat)

theorem tidings_measures (p : Pipeline) : Measures p.aggregator.bands.length p.tidings := by
  have ordered :=
    ((p.sink.acceptAll_prefix p.received p.levels).sublist.map (·.band)).trans p.levels_sublist
  unfold tidings
  cases whole : (p.sink.acceptAll p.received p.levels).2.2 with
  | false => exact ⟨_, none, by simp [whole], ordered⟩
  | true => exact ⟨_, p.mean, by simp [whole], ordered⟩

theorem entry_measures (entry : Entry) :
    Measures entry.before.aggregator.bands.length entry.measures := by
  unfold Entry.measures
  split
  · exact entry.before.tidings_measures
  · exact ⟨[], none, rfl, by simp⟩

theorem log_accounts (order : p.InOrder) (initial : p.events.Accounts limit [] [])
    (actions : List Action) (going : .step (.host .shutdown) ∉ actions) (entries : List Entry)
    (ran : p.log actions = .ok (entries, q)) :
    q.events.Accounts limit (entries.flatMap Entry.polled) (entries.flatMap Entry.postings) ∧
      (entries.flatMap Entry.postings).map (·.event) = entries.flatMap Entry.news := by
  refine (log_induction (fun entries q =>
    q.events.Accounts limit (entries.flatMap Entry.polled) (entries.flatMap Entry.postings) ∧
      (entries.flatMap Entry.postings).map (·.event) = entries.flatMap Entry.news)
    order ⟨initial, rfl⟩ actions ?_ entries ran).2
  intro entries entry made member ⟨accounts, news⟩
  have other : entry.action ≠ .step (.host .shutdown) := ne_of_mem_of_not_mem member going
  have own : entry.postings.map (·.event) = entry.news := by
    rw [← made_news made other]
    exact events_along entry.before entry.moves
  exact ⟨by simpa using made_accounts made other accounts, by simp [news, own]⟩

end

/-- The host's queue loses only what it counts. Before a shutdown, what is posted is
an event for each refusal, one for each late analysis and, for each tick, levels in
the order of the bands and then a mean frequency at the most. What the host has
polled and what waits for it are these events in order, apart from those that were
posted while the queue was full; as many have been dropped, and the queue never
holds more than its capacity. -/
theorem posted_events_accounted {config : Config} {sink : Sink} {latency : Nat → Nat} {held : Bool}
    {p : Pipeline} (started : start config sink latency held = .ok p) (actions : List Action)
    (going : .step (.host .shutdown) ∉ actions) :
    p.Exhausts actions ∨ ∃ entries q, p.log actions = .ok (entries, q) ∧
      q.events.Accounts config.eventQueueCapacity.toNat (entries.flatMap Entry.polled)
        (entries.flatMap Entry.postings) ∧
      (entries.flatMap Entry.postings).map (·.event) = entries.flatMap Entry.news ∧
      (entries.flatMap Entry.news).length =
        (entries.flatMap Entry.polled).length + q.events.queue.items.length + q.events.dropped ∧
      q.stats.eventsDropped = UInt64.ofNat ((entries.flatMap Entry.postings).filter
        (·.missed config.eventQueueCapacity.toNat)).length ∧
      ∀ entry ∈ entries, Measures config.bands.length entry.measures := by
  have fresh := start_fresh started
  rcases log_complete fresh actions with exhausts | ⟨entries, q, ran⟩
  · exact .inl exhausts
  obtain ⟨initial, bands⟩ : p.events.Accounts config.eventQueueCapacity.toNat [] [] ∧
      p.aggregator.bands = config.bands := by
    obtain ⟨analyzer, aggregator, configured, rfl⟩ := start_success started
    obtain ⟨-, second⟩ := configure_success config analyzer aggregator configured
    obtain ⟨-, -, rfl⟩ := Aggregator.configure_success _ _ _ aggregator second
    exact ⟨⟨rfl, rfl, Nat.zero_le _, by simp, rfl, rfl⟩, rfl⟩
  obtain ⟨accounts, news⟩ := log_accounts fresh.inOrder initial actions going entries ran
  refine .inr ⟨entries, q, ran, accounts, news, ?_, ?_, ?_⟩
  · rw [← news, List.length_map]
    exact accounts.balance
  · rw [stats, Counters.snapshot, accounts.dropped]
  · intro entry member
    rw [← bands, ← ((log_fixed fresh.inOrder actions entries ran).2 entry member).bands]
    exact entry_measures entry

/-- An analysis that is late and a tick with three events, of which the host's queue takes one. -/
theorem chord_posted_events : ∃ p entries q,
    start twoBands .log (fun _ => 40000000) false = .ok p ∧
    p.log [.step (.driver (.deliver chord)), .step (.host .tick), .step (.host .poll)] =
      .ok (entries, q) ∧
    entries.flatMap Entry.news = [.deadlineMissed 40000 2000, .bandLevel 0 255, .bandLevel 1 222,
      .meanFrequency 4000] ∧
    entries.flatMap Entry.polled = [.deadlineMissed 40000 2000] ∧
    q.events.queue.items.length + q.events.dropped = 3 := by
  obtain ⟨p, started⟩ : ∃ p, start twoBands .log (fun _ => 40000000) false = .ok p := ⟨_, rfl⟩
  rcases posted_events_accounted started
      [.step (.driver (.deliver chord)), .step (.host .tick), .step (.host .poll)]
      (by decide) with exhausts | ⟨entries, q, ran, accounts, -, balance, -⟩
  · exact absurd exhausts (not_exhausts_of_length (start_fresh started) _ (by decide))
  have news : entries.flatMap Entry.news = [.deadlineMissed 40000 2000, .bandLevel 0 255,
      .bandLevel 1 222, .meanFrequency 4000] :=
    eq_of_evaluated (·.log _) (·.1.flatMap Entry.news) started ran (by decide +kernel)
  have polled : entries.flatMap Entry.polled = [.deadlineMissed 40000 2000] :=
    eq_of_evaluated (·.log _) (·.1.flatMap Entry.polled) started ran (by decide +kernel)
  rw [news, polled, List.length_cons, List.length_singleton] at balance
  exact ⟨p, entries, q, started, ran, news, polled, by simp at balance; omega⟩

end Pipeline

end BandLight
