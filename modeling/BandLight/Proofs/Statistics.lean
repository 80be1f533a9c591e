import BandLight.Proofs.Observers
import Mathlib.Algebra.BigOperators.Group.List.Basic

/-! The statistics of a run. The counts are the sum of what the entries of its log
show, and they agree with the queue, with the mailbox and with one another. A tick
that a broken sink has cut short counts its spectrum and none of its levels. -/
namespace BandLight

attribute [ext] Counters

namespace Counters

instance : Zero Counters := ⟨{}⟩

instance : Add Counters where
  add a b :=
    { delivered := a.delivered + b.delivered
      analyzed := a.analyzed + b.analyzed
      overruns := a.overruns + b.overruns
      deadlineMisses := a.deadlineMisses + b.deadlineMisses
      consumed := a.consumed + b.consumed
      emitted := a.emitted + b.emitted }

instance : AddMonoid Counters where
  add_assoc a b c := by ext <;> exact Nat.add_assoc _ _ _
  zero_add a := by ext <;> exact Nat.zero_add _
  add_zero a := rfl
  nsmul := nsmulRec

theorem sum_map (f : Counters → Nat) (zero : f 0 = 0) (add : ∀ a b, f (a + b) = f a + f b)
    (items : List Counters) : f items.sum = (items.map f).sum :=
  map_list_sum (⟨⟨f, zero⟩, add⟩ : Counters →+ Nat) items

end Counters

theorem length_filter_eq_sum {α : Type} (keep : α → Bool) (items : List α) :
    (items.filter keep).length = (items.map fun item => if keep item then 1 else 0).sum := by
  induction items with
  | nil => rfl
  | cons item items ih => cases kept : keep item <;> simp [kept, ih, Nat.add_comm]

namespace Pipeline

def counts (p : Pipeline) : Move → Counters
  | .enlist _ => { delivered := 1 }
  | .refuse _ => { overruns := 1 }
  | .absorb _ =>
      { analyzed := 1
        deadlineMisses := (p.config.lateness (p.latency p.counters.analyzed)).length }
  | .tick =>
      { consumed := if p.ticked.1.consumed then 1 else 0
        emitted := if p.ticked.1.broken then 0 else p.levels.length }
  | _ => 0

def tallies (p : Pipeline) (move : Move) : List Counters := [p.counts move]

/-- Each spectrum that was taken or waits has been made by an analysis, which was late
once at the most, and each spectrum that was taken gave a level for a band at the
most. -/
structure Credited (p : Pipeline) : Prop where
  spectra : p.counters.consumed + (if p.analyzer.mailbox.ready then 1 else 0) ≤ p.counters.analyzed
  levels : p.counters.emitted ≤ p.aggregator.bands.length * p.counters.consumed
  late : p.counters.deadlineMisses ≤ p.counters.analyzed

namespace Entry

/-- The tick that an action was, if the aggregate side was there for it. -/
def tick? (entry : Entry) : Option Tick :=
  match entry.action, entry.report.answer with
  | .step (.host .tick), .ticked tick => some tick
  | _, _ => none

def consumes (entry : Entry) : Bool := entry.tick?.any (·.consumed)

def breaks (entry : Entry) : Bool := entry.tick?.any (·.broken)

/-- A block with samples was accepted. -/
def accepts (entry : Entry) : Bool :=
  entry.report.answer = .accepted true ∧ entry.action.block entry.before.size ≠ []

def refuses (entry : Entry) : Bool := entry.report.answer = .accepted false

def counts (entry : Entry) : Counters where
  delivered := if entry.accepts then 1 else 0
  analyzed := entry.report.analyses.length
  overruns := if entry.refuses then 1 else 0
  deadlineMisses := entry.lateness.length
  consumed := if entry.consumes then 1 else 0
  emitted := if entry.breaks then 0 else entry.handed.length

end Entry

/-- What the host is told after a run, against the log of the run. -/
structure Consistent (q : Pipeline) (entries : List Entry) : Prop where
  delivered : q.stats.blocksDelivered.toNat = (entries.filter Entry.accepts).length
  overruns : q.stats.overruns.toNat = (entries.filter Entry.refuses).length
  queued : q.stats.blocksDelivered.toNat = q.stats.blocksAnalyzed.toNat + q.lengths.items.length
  consumed : q.stats.spectraConsumed.toNat = (entries.filter Entry.consumes).length
  spectra : q.stats.spectraConsumed.toNat + (if q.analyzer.mailbox.ready then 1 else 0) ≤
    q.stats.blocksAnalyzed.toNat
  emitted : q.stats.eventsEmitted.toNat = (entries.flatMap Entry.handed).length
  levels : q.stats.eventsEmitted.toNat ≤ q.config.bands.length * q.stats.spectraConsumed.toNat
  late : q.stats.deadlineMisses.toNat ≤ q.stats.blocksAnalyzed.toNat

section
variable {p q : Pipeline}

theorem move_counts (order : p.InOrder) (move : Move) :
    (p.move move).counters = p.counters + p.counts move := by
  cases move with
  | tick =>
    rw [move_ticked order]
    cases whole : (p.sink.acceptAll p.received p.levels).2.2 <;> simp [ticked, counts, whole] <;> rfl
  | stop =>
    obtain ⟨events, stopped, -⟩ := stop_eq p
    rw [Pipeline.move, stopped]
    rfl
  | _ => rfl

theorem Moves.counts {moves : List Move} (moved : Moves p moves q) :
    q.counters = p.counters + (along tallies p moves).sum := by
  induction moved with
  | nil p => exact (add_zero _).symm
  | cons move moves order rest ih =>
    rw [ih, move_counts order move, along, tallies, List.singleton_append, List.sum_cons, add_assoc]

theorem sum_tallies_eq_zero (moves : List Move)
    (silent : ∀ move ∈ moves, ∀ q, counts q move = 0) : (along tallies p moves).sum = 0 := by
  induction moves generalizing p with
  | nil => rfl
  | cons move moves ih =>
    rw [along, tallies, silent move (by simp), List.singleton_append, List.sum_cons, zero_add]
    exact ih fun other member => silent other (by simp [member])

theorem sum_tallies_absorb (p : Pipeline) (analyses : List Analysis) :
    (along tallies p (analyses.map fun analysis => .absorb analysis.block)).sum =
      { analyzed := analyses.length
        deadlineMisses := ((List.range analyses.length).flatMap fun i =>
          p.config.lateness (p.latency (p.counters.analyzed + i))).length } := by
  induction analyses generalizing p with
  | nil => rfl
  | cons analysis analyses ih =>
    rw [List.map_cons, along, tallies, List.singleton_append, List.sum_cons, ih, List.length_cons,
      List.range_succ_eq_map, List.flatMap_cons, List.flatMap_map, List.length_append]
    simp only [Nat.add_succ, ← Nat.succ_add]
    ext
    · rfl
    · exact Nat.add_comm _ _
    all_goals rfl

theorem length_taken (entry : Entry) : (entry.action.taken entry.before.size entry.report).length =
    if entry.accepts then 1 else 0 := by
  unfold Action.taken Entry.accepts
  split
  · next accepted => simp [accepted]
  · next other => simp [other]

theorem sum_tallies_delivery (entry : Entry) :
    (along tallies p (entry.action.delivering entry.before.size entry.report ++
      entry.action.waking entry.report)).sum =
      { delivered := if entry.accepts then 1 else 0
        overruns := if entry.refuses then 1 else 0 } := by
  have woken (r : Pipeline) : (along tallies r (entry.action.waking entry.report)).sum = 0 := by
    apply sum_tallies_eq_zero
    intro move member q
    rw [waking_unhold _ _ move member]
    rfl
  rw [← length_taken]
  unfold Action.delivering Entry.refuses
  split
  · next refused =>
    rw [untaken_of_answer _ _ _ (by rw [refused]; simp), List.singleton_append, along, tallies,
      List.singleton_append, List.sum_cons, woken]
    simp [refused, counts]
  · next other =>
    unfold Action.taken
    split
    · rw [List.map_singleton, List.singleton_append, along, tallies, List.singleton_append,
        List.sum_cons, woken]
      simp [other, counts]
    · simp only [other, decide_false, Bool.false_eq_true, if_false]
      exact woken p

/-- Apart from ticks and shutdowns an action ends with moves that count nothing. -/
theorem closing_uncounted (action : Action) (report : Report)
    (other : action ≠ .step (.host .tick)) (going : action ≠ .step (.host .shutdown)) :
    ∀ move ∈ action.closing report, ∀ q, counts q move = 0 := by
  unfold Action.closing
  split <;> simp_all [counts]

theorem tick_counts (order : p.InOrder) (report : Report)
    (acted : p.act (.step (.host .tick)) = .ok (report, q)) :
    (along tallies p (Action.moves p.size (.step (.host .tick)) report)).sum =
      Entry.counts { before := p, action := .step (.host .tick), report, after := q } := by
  rcases tick_report order report acted with rfl | rfl | rfl
  · rfl
  · rfl
  · have handed : Entry.handed { before := p, action := .step (.host .tick)
                                 report := { answer := .ticked p.ticked.1 }, after := q } =
        p.levels := List.append_nil _
    rw [Entry.counts, handed]
    exact add_zero (p.counts .tick)

theorem made_counts {entry : Entry} (made : entry.Made)
    (going : entry.action ≠ .step (.host .shutdown)) :
    entry.after.counters = entry.before.counters + entry.counts := by
  rw [made.moved.counts]
  congr 1
  by_cases ticks : entry.action = .step (.host .tick)
  · obtain ⟨p, action, report, q⟩ := entry
    cases ticks
    exact tick_counts made.order report made.acted
  · -- The moves are cut behind the delivery: latencies are counted from there.
    have quiet := closing_uncounted entry.action entry.report ticks going
    have handed : entry.handed = [] := unhanded entry.action _ entry.report ticks going
    have none : entry.tick? = none := by
      unfold Entry.tick?
      split
      · next same _ => exact absurd same ticks
      · rfl
    obtain ⟨r, early, closing⟩ := Moves.split _ made.moved
    obtain ⟨s, first, absorbing⟩ := Moves.split _ early
    have unchanged := first.fixed
    have count := first.analyzed (unabsorbed entry)
    have late := sum_tallies_absorb s entry.report.analyses
    rw [unchanged.config, unchanged.latency, count] at late
    rw [Entry.moves, Action.moves, early.along_append, first.along_append, List.sum_append,
      List.sum_append, sum_tallies_delivery, late, sum_tallies_eq_zero _ quiet, add_zero,
      Entry.counts, handed, Entry.consumes, Entry.breaks, none]
    ext
    case analyzed => exact Nat.zero_add _
    case deadlineMisses => exact Nat.zero_add _
    all_goals rfl

theorem length_levels_le (p : Pipeline) :
    p.levels.length ≤ p.aggregator.bands.length * if p.listened.1.isSome then 1 else 0 := by
  cases heard : p.listened.1 with
  | none => simp [levels, heard]
  | some reading =>
    have bound := p.levels_sublist.length_le
    rw [List.length_map, List.length_map, List.length_range] at bound
    simpa using bound

theorem ticked_credited (credited : p.Credited) : p.ticked.2.Credited := by
  obtain ⟨spectra, levels, late⟩ := credited
  have bands : p.ticked.2.aggregator.bands = p.aggregator.bands := by
    rcases p.listened_cases with ⟨-, bands⟩ | ⟨_, _, -, bands, -⟩ <;> exact bands
  have gained := p.length_levels_le
  refine ⟨?_, ?_, late⟩
  · change p.counters.consumed + (if p.listened.1.isSome then 1 else 0) +
      (if (if p.listened.1.isSome then p.analyzer.emptied else p.analyzer).mailbox.ready then 1
        else 0) ≤ p.counters.analyzed
    cases heard : p.listened.1 with
    | none => exact spectra
    | some reading =>
      have waiting : p.analyzer.mailbox.ready = true := by
        by_contra silent
        rw [listened_silent (by simpa using silent)] at heard
        cases heard
      rw [waiting] at spectra
      exact spectra
  · rw [bands]
    change p.counters.emitted + (if (p.sink.acceptAll p.received p.levels).2.2 then p.levels.length else 0) ≤
      p.aggregator.bands.length * (p.counters.consumed + if p.listened.1.isSome then 1 else 0)
    rw [Nat.mul_add]
    split
    · omega
    · omega

theorem absorb_credited (credited : p.Credited) (block : List Sample) :
    (p.absorb block).2.Credited := by
  obtain ⟨spectra, levels, late⟩ := credited
  have once : (p.config.lateness (p.latency p.counters.analyzed)).length ≤ 1 := by
    unfold Config.lateness
    split <;> simp
  refine ⟨?_, levels, ?_⟩
  · change p.counters.consumed + 1 ≤ p.counters.analyzed + 1
    omega
  · change p.counters.deadlineMisses + _ ≤ p.counters.analyzed + 1
    omega

theorem move_credited (order : p.InOrder) (credited : p.Credited) (move : Move) :
    (p.move move).Credited := by
  cases move with
  | tick =>
    rw [move_ticked order]
    exact ticked_credited credited
  | absorb block => exact absorb_credited credited block
  | stop =>
    obtain ⟨events, stopped, -⟩ := stop_eq p
    rw [Pipeline.move, stopped]
    exact { credited with }
  | _ => exact { credited with }

theorem Moves.credited {moves : List Move} (moved : Moves p moves q) (credited : p.Credited) :
    q.Credited := by
  induction moved with
  | nil p => exact credited
  | cons move moves order rest ih => exact ih (move_credited order credited move)

theorem made_queued {entry : Entry} (made : entry.Made)
    (going : entry.action ≠ .step (.host .shutdown))
    (queued : entry.before.counters.delivered =
      entry.before.counters.analyzed + entry.before.lengths.items.length) :
    entry.after.counters.delivered =
      entry.after.counters.analyzed + entry.after.lengths.items.length := by
  obtain ⟨sound, blocks, backlog⟩ := made.order
  obtain ⟨rest, stepped⟩ :=
    stepped_of_act sound backlog entry.action entry.report entry.after made.acted
  have balance := congrArg List.length stepped.order
  rw [List.length_append, List.length_append, List.length_map] at balance
  rw [backlog.length_lengths] at queued
  rw [length_taken] at balance
  rw [stepped.backlog.length_lengths, made_counts made going]
  change entry.before.counters.delivered + (if entry.accepts then 1 else 0) =
    entry.before.counters.analyzed + entry.report.analyses.length + rest.length
  omega

theorem log_counted (order : p.InOrder) (credited : p.Credited)
    (queued : p.counters.delivered = p.counters.analyzed + p.lengths.items.length)
    (actions : List Action) (going : .step (.host .shutdown) ∉ actions) (entries : List Entry)
    (ran : p.log actions = .ok (entries, q)) :
    q.counters = p.counters + (entries.map Entry.counts).sum ∧ q.Credited ∧
      q.counters.delivered = q.counters.analyzed + q.lengths.items.length := by
  refine (log_induction (fun entries q => q.counters = p.counters + (entries.map Entry.counts).sum ∧
      q.Credited ∧ q.counters.delivered = q.counters.analyzed + q.lengths.items.length)
    order ⟨(add_zero _).symm, credited, queued⟩ actions ?_ entries ran).2
  intro entries entry made member ⟨counted, sane, waiting⟩
  have other : entry.action ≠ .step (.host .shutdown) := ne_of_mem_of_not_mem member going
  refine ⟨?_, made.moved.credited sane, made_queued made other waiting⟩
  rw [made_counts made other, counted, List.map_append, List.sum_append, List.map_singleton,
    List.sum_singleton, add_assoc]

theorem made_calls {entry : Entry} (made : entry.Made)
    (going : entry.action ≠ .step (.host .shutdown)) (intact : entry.breaks = false) :
    entry.calls = entry.before.sink.passes entry.before.received entry.handed := by
  obtain ⟨p, action, report, q⟩ := entry
  by_cases ticks : action = .step (.host .tick)
  · cases ticks
    have reported : report = { answer := .stopped } ∨ report = { answer := .aggregatorGone } ∨
        report = { answer := .ticked p.ticked.1 } := tick_report made.order report made.acted
    rcases reported with rfl | rfl | rfl
    · rfl
    · rfl
    · have whole : (p.sink.acceptAll p.received p.levels).2.2 = true := by
        simpa [Entry.breaks, Entry.tick?, ticked] using intact
      change p.ticked.1.calls = p.sink.passes p.received (p.levels ++ [])
      rw [List.append_nil, ← p.sink.acceptAll_intact p.received p.levels whole]
      rfl
  · have handed : Entry.handed { before := p, action, report, after := q } = [] :=
      unhanded action _ report ticks going
    rw [handed]
    unfold Entry.calls
    split
    · next same _ => exact absurd same ticks
    · next same _ => exact absurd same going
    · rfl

theorem sum_counts_filter (entries : List Entry) (f : Counters → Nat) (zero : f 0 = 0)
    (add : ∀ a b, f (a + b) = f a + f b) (shows : Entry → Bool)
    (single : ∀ entry, f entry.counts = if shows entry then 1 else 0) :
    f (entries.map Entry.counts).sum = (entries.filter shows).length := by
  rw [Counters.sum_map f zero add, List.map_map, length_filter_eq_sum]
  exact congrArg List.sum (List.map_congr_left fun entry _ => single entry)

theorem sum_counts_emitted (entries : List Entry)
    (intact : ∀ entry ∈ entries, entry.breaks = false) :
    (entries.map Entry.counts).sum.emitted = (entries.flatMap Entry.handed).length := by
  rw [Counters.sum_map (·.emitted) rfl fun _ _ => rfl, List.map_map, List.length_flatMap]
  apply congrArg List.sum
  apply List.map_congr_left
  intro entry member
  simp [Entry.counts, intact entry member]

theorem start_counts {config : Config} {sink : Sink} {latency : Nat → Nat} {held : Bool}
    (started : start config sink latency held = .ok p) :
    p.counters = 0 ∧ p.Credited ∧ p.lengths.items = [] ∧ p.running = true ∧ p.sink = sink ∧
      p.aggregator.bands = p.config.bands := by
  obtain ⟨analyzer, aggregator, configured, rfl⟩ := start_success started
  obtain ⟨first, second⟩ := configure_success config analyzer aggregator configured
  obtain ⟨-, -, rfl⟩ := Aggregator.configure_success _ _ _ aggregator second
  obtain ⟨-, rfl⟩ := Analyzer.configure_success _ analyzer first
  exact ⟨rfl, ⟨Nat.le_refl _, Nat.zero_le _, Nat.le_refl _⟩, rfl, rfl, rfl, rfl⟩

/-- As long as no count has started over, the statistics are the sums that the log shows. -/
theorem consistent_of_counts (entries : List Entry)
    (counted : q.counters = (entries.map Entry.counts).sum) (credited : q.Credited)
    (bands : q.aggregator.bands = q.config.bands)
    (queued : q.counters.delivered = q.counters.analyzed + q.lengths.items.length)
    (intact : ∀ entry ∈ entries, entry.breaks = false)
    (accepted : (entries.filter Entry.accepts).length < UInt64.size)
    (refused : (entries.filter Entry.refuses).length < UInt64.size)
    (handed : (entries.flatMap Entry.handed).length < UInt64.size) : q.Consistent entries := by
  obtain ⟨spectra, levels, late⟩ := credited
  have delivered : q.counters.delivered = (entries.filter Entry.accepts).length := by
    rw [counted]
    exact sum_counts_filter entries (·.delivered) rfl (fun _ _ => rfl) _ fun _ => rfl
  have overruns : q.counters.overruns = (entries.filter Entry.refuses).length := by
    rw [counted]
    exact sum_counts_filter entries (·.overruns) rfl (fun _ _ => rfl) _ fun _ => rfl
  have consumed : q.counters.consumed = (entries.filter Entry.consumes).length := by
    rw [counted]
    exact sum_counts_filter entries (·.consumed) rfl (fun _ _ => rfl) _ fun _ => rfl
  have emitted : q.counters.emitted = (entries.flatMap Entry.handed).length := by
    rw [counted, sum_counts_emitted entries intact]
  have words : q.stats.blocksDelivered.toNat = q.counters.delivered ∧
      q.stats.blocksAnalyzed.toNat = q.counters.analyzed ∧
      q.stats.overruns.toNat = q.counters.overruns ∧
      q.stats.deadlineMisses.toNat = q.counters.deadlineMisses ∧
      q.stats.spectraConsumed.toNat = q.counters.consumed ∧
      q.stats.eventsEmitted.toNat = q.counters.emitted := by
    refine ⟨?_, ?_, ?_, ?_, ?_, ?_⟩ <;> exact UInt64.toNat_ofNat_of_lt' (by omega)
  obtain ⟨first, second, third, fourth, fifth, sixth⟩ := words
  exact {
    delivered := by rw [first, delivered]
    overruns := by rw [third, overruns]
    queued := by rw [first, second, queued]
    consumed := by rw [fifth, consumed]
    spectra := by rw [fifth, second]; exact spectra
    emitted := by rw [sixth, emitted]
    levels := by rw [sixth, fifth, ← bands]; exact levels
    late := by rw [fourth, second]; exact late }

end

/-- Before a shutdown, and as long as no sink breaks, the statistics tell how many
blocks were accepted and refused, how many ticks took a spectrum and how many levels
the sink got. The accepted blocks are those that were analysed and those that wait. -/
theorem statistics_consistent {config : Config} {sink : Sink} {latency : Nat → Nat} {held : Bool}
    {p : Pipeline} (started : start config sink latency held = .ok p) (actions : List Action)
    (going : .step (.host .shutdown) ∉ actions) :
    p.Exhausts actions ∨ ∃ entries q, p.log actions = .ok (entries, q) ∧
      ((∀ action ∈ actions, ∃ s, action = .step s) → q.held = false → q.lengths.items = []) ∧
      ((∀ entry ∈ entries, entry.breaks = false) →
        (entries.filter Entry.accepts).length < UInt64.size →
        (entries.filter Entry.refuses).length < UInt64.size →
        (entries.flatMap Entry.handed).length < UInt64.size →
        q.Consistent entries ∧ ∀ entry ∈ entries,
          entry.calls = sink.passes entry.before.received entry.handed) := by
  have fresh := start_fresh started
  rcases log_complete fresh actions with exhausts | ⟨entries, q, ran⟩
  · exact .inl exhausts
  obtain ⟨zero, credited, nothing, running, same, bands⟩ := start_counts started
  obtain ⟨counted, sane, queued⟩ := log_counted fresh.inOrder credited
    (by rw [zero, nothing]; rfl) actions going entries ran
  rw [zero, zero_add] at counted
  refine .inr ⟨entries, q, ran, ?_, ?_⟩
  · intro steps unheld
    have traced : p.trace actions = .ok (entries.map (·.report), q) := by
      rw [trace_eq_log, ran]
      rfl
    obtain ⟨blocks, history⟩ := trace_history fresh actions _ q traced
    have settled := history.settled steps
    rw [flow, if_pos ⟨history.running.mpr ⟨running, going⟩, by simp [unheld]⟩] at settled
    exact List.eq_nil_of_length_eq_zero settled
  · intro intact accepted refused handed
    obtain ⟨fixed, each⟩ := log_fixed fresh.inOrder actions entries ran
    refine ⟨consistent_of_counts entries counted sane (by rw [fixed.bands, fixed.config, bands])
      queued intact accepted refused handed, ?_⟩
    intro entry member
    have other : entry.action ≠ .step (.host .shutdown) := by
      rintro shuts
      rw [← log_actions actions entries ran, ← shuts] at going
      exact going (List.mem_map_of_mem member)
    rw [made_calls (log_made fresh.inOrder actions entries ran entry member) other
      (intact entry member), (each entry member).sink, same]

/-- Two blocks wait and the third is refused. -/
theorem statistics_of_full_queue : ∃ p entries q,
    start { Config.standard with blockSize := 32, bands := [⟨0, 1, 0⟩], frequencyFloorBin := none }
      .log (fun _ => 0) true = .ok p ∧
    p.log [.step (.driver (.deliver (List.replicate 40 7))),
      .step (.driver (.deliver (List.replicate 32 9))), .step (.driver (.deliver [1])),
      .step (.host .tick)] = .ok (entries, q) ∧
    (entries.filter Entry.accepts).length = 2 ∧ (entries.filter Entry.refuses).length = 1 ∧
    q.Consistent entries := by
  let actions : List Action :=
    [.step (.driver (.deliver (List.replicate 40 7))),
      .step (.driver (.deliver (List.replicate 32 9))), .step (.driver (.deliver [1])),
      .step (.host .tick)]
  obtain ⟨p, entries, q, started, ran, accepted, refused, handed, intact⟩ : ∃ p entries q,
      start { Config.standard with
        blockSize := 32, bands := [⟨0, 1, 0⟩], frequencyFloorBin := none } .log (fun _ => 0) true =
        .ok p ∧
      p.log actions = .ok (entries, q) ∧ (entries.filter Entry.accepts).length = 2 ∧
      (entries.filter Entry.refuses).length = 1 ∧ (entries.flatMap Entry.handed).length = 0 ∧
      (entries.all fun entry => !entry.breaks) = true :=
    ⟨_, _, _, rfl, rfl, rfl, rfl, rfl, rfl⟩
  refine ⟨p, entries, q, started, ran, accepted, refused, ?_⟩
  rcases statistics_consistent started actions (by decide) with
    exhausts | ⟨log, r, logged, -, consistent⟩
  · exact absurd exhausts (not_exhausts_of_length (start_fresh started) _ (by decide))
  · rw [ran] at logged
    cases logged
    exact (consistent (by simpa using intact) (by rw [accepted]; decide) (by rw [refused]; decide)
      (by rw [handed]; decide)).1

end Pipeline

end BandLight
