import BandLight.Pipeline
import BandLight.Proofs.BlockAnalysis
import BandLight.Proofs.TickTotality

/-! The blocks that wait in a pipeline. The sample queue holds their
concatenation and the length queue their lengths, none of them zero, so a block
is refused exactly when its samples do not fit. Analysing the queue absorbs the
waiting blocks one after the other, each as a block of its own. -/
namespace BandLight

namespace Config

def period (c : Config) : Nat := c.blockSize.toNat * 1000000000 / c.sampleRate.toNat

/-- What the host is told about an analysis that took so many nanoseconds. -/
def lateness (c : Config) (elapsed : Nat) : List Event :=
  if elapsed ≤ c.period then []
  else [.deadlineMissed (UInt64.ofNat (elapsed / 1000)) (UInt64.ofNat (c.period / 1000))]

theorem blockPeriod_eq (c : Config) (small : c.blockSize.toNat ≤ 8192) :
    c.blockPeriod = .ok c.period := by
  unfold blockPeriod period
  split
  · next zero =>
    rw [zero, UInt32.toNat_zero, Nat.div_zero]
  · have fits : c.blockSize.toNat * 1000000000 < UInt64.size := by
      have size : UInt64.size = 18446744073709551616 := rfl
      omega
    rw [Checked.word64, Checked.below_ok fits]
    rfl

end Config

namespace EventQueue

@[simp] theorem attended_post (q : EventQueue) (event : Event) :
    (q.post event).attended = q.attended := by
  unfold post
  split
  · rfl
  · split <;> rfl

@[simp] theorem attended_postAll (q : EventQueue) (events : List Event) :
    (q.postAll events).attended = q.attended := by
  unfold postAll
  induction events generalizing q with
  | nil => rfl
  | cons event events ih => rw [List.foldl_cons, ih, attended_post]

theorem post_left (q : EventQueue) (event : Event) (left : q.attended = false) :
    q.post event = q := by
  rw [post, left]
  rfl

theorem post_full (q : EventQueue) (event : Event) (attended : q.attended = true)
    (full : q.queue.isFull = true) : q.post event = { q with dropped := q.dropped + 1 } := by
  rw [post, attended, full]
  rfl

theorem post_free (q : EventQueue) (event : Event) (attended : q.attended = true)
    (free : q.queue.isFull = false) : q.post event = { q with queue := q.queue.push event } := by
  rw [post, attended, free]
  rfl

end EventQueue

namespace Pipeline

abbrev size (p : Pipeline) : Nat := p.config.blockSize.toNat

/-- What every part of a pipeline relies on. Between two analyses the active
block of the ring is empty. -/
structure Sound (p : Pipeline) : Prop where
  small : p.size ≤ 8192
  analyzer : p.analyzer.Sound p.size
  idle : p.analyzer.ring.activeFill = 0
  counted : p.analyzer.blocksAnalyzed < UInt64.size
  aggregator : p.aggregator.Sound
  commands : ∀ tuning, .setTuning tuning ∈ p.commands → tuning.Valid
  sampleRoom : p.samples.capacity = 2 * p.size
  lengthRoom : p.lengths.capacity = 2 * p.size

/-- The blocks that the two queues hold between them. -/
structure Backlog (p : Pipeline) (blocks : List (List Sample)) : Prop where
  samples : p.samples.samples = blocks.flatten
  lengths : p.lengths.items = blocks.map List.length
  nonempty : ∀ block ∈ blocks, block ≠ []
  short : ∀ block ∈ blocks, block.length ≤ p.size
  room : p.samples.samples.length ≤ 2 * p.size

def enlist (p : Pipeline) (block : List Sample) : Pipeline :=
  { p with samples := p.samples.push block
           lengths := p.lengths.push block.length
           counters := { p.counters with delivered := p.counters.delivered + 1 } }

/-- The analysis of the oldest block, and the pipeline after it. -/
def absorb (p : Pipeline) (block : List Sample) : Analysis × Pipeline :=
  let (analysis, analyzer) := p.analyzer.absorb block
  let late := p.config.lateness (p.latency p.counters.analyzed)
  (analysis,
    { p with analyzer, samples := p.samples.discard block.length, lengths := p.lengths.pop
             counters := { p.counters with
               analyzed := p.counters.analyzed + 1
               deadlineMisses := p.counters.deadlineMisses + late.length }
             events := p.events.postAll late })

def absorbAll : Pipeline → List (List Sample) → List Analysis × Pipeline
  | p, [] => ([], p)
  | p, block :: blocks =>
      let (analysis, q) := p.absorb block
      let (others, q) := q.absorbAll blocks
      (analysis :: others, q)

section
variable {p : Pipeline} {blocks : List (List Sample)}

theorem Backlog.congr (backlog : p.Backlog blocks) (q : Pipeline) (config : q.config = p.config)
    (samples : q.samples = p.samples) (lengths : q.lengths = p.lengths) : q.Backlog blocks := by
  have same : q.size = p.size := by rw [size, config]
  refine ⟨?_, ?_, backlog.nonempty, ?_, ?_⟩
  · rw [samples]; exact backlog.samples
  · rw [lengths]; exact backlog.lengths
  · rw [same]; exact backlog.short
  · rw [same, samples]; exact backlog.room

theorem length_le_length_flatten (blocks : List (List Sample))
    (nonempty : ∀ block ∈ blocks, block ≠ []) : blocks.length ≤ blocks.flatten.length := by
  induction blocks with
  | nil => exact Nat.le_refl _
  | cons block blocks ih =>
    have positive := List.length_pos_iff.mpr (nonempty block (by simp))
    have rest := ih (fun other member => nonempty other (by simp [member]))
    rw [List.length_cons, List.flatten_cons, List.length_append]
    omega

theorem Backlog.length_lengths (backlog : p.Backlog blocks) :
    p.lengths.items.length = blocks.length := by
  rw [backlog.lengths, List.length_map]

theorem Backlog.length_le (backlog : p.Backlog blocks) :
    p.lengths.items.length ≤ p.samples.samples.length := by
  have fewer := length_le_length_flatten blocks backlog.nonempty
  rw [backlog.length_lengths, backlog.samples]
  exact fewer

def offered (p : Pipeline) (samples : List Sample) : Bool × Pipeline :=
  let block := samples.take (min samples.length p.size)
  p.enqueue block.length block

/-- A block is cut to a length that it has. -/
theorem offer_eq (p : Pipeline) (samples : List Sample) :
    p.offer samples = .ok (p.offered samples) := by
  rw [offer, Checked.slice_first (Nat.min_le_left _ _)]
  rfl

theorem driverStep_deliver (p : Pipeline) (samples : List Sample) :
    p.driverStep (.deliver samples) =
      if p.hasProducer then afterOffer (p.offered samples)
      else .ok ({ answer := .noProducer }, p) := by
  rw [driverStep, offer_eq]
  rfl

theorem offerBytes_eq (p : Pipeline) (bytes : List UInt8) :
    p.offerBytes bytes = p.offered (Sample.decode bytes) := by
  have size : (Sample.decode bytes).length = bytes.length / 2 := Sample.length_decode bytes
  unfold offerBytes offered
  rw [size]
  have taken (limit : Nat) : ((Sample.decode bytes).take (min (bytes.length / 2) limit)).length =
      min (bytes.length / 2) limit := by
    rw [List.length_take, size]
    omega
  simp only [taken]

theorem perform_deliverBytes (p : Pipeline) (bytes : List UInt8) :
    p.perform (.driver (.deliverBytes bytes)) =
      p.perform (.driver (.deliver (Sample.decode bytes))) := by
  rw [perform, perform, driverStep_deliver, driverStep, offerBytes_eq]

/-- A block is refused exactly when its samples do not fit; the queue of
lengths is never the one that is full. -/
theorem offered_eq (sound : p.Sound) (backlog : p.Backlog blocks) (samples : List Sample) :
    p.offered samples =
      if samples.take p.size = [] then (true, p)
      else if 2 * p.size < p.samples.samples.length + (samples.take p.size).length then
        (false, p.overrun (samples.take p.size).length)
      else (true, p.enlist (samples.take p.size)) := by
  have cut : samples.take (min samples.length p.size) = samples.take p.size := by
    rw [Nat.min_comm, List.take_eq_take_min (i := p.size)]
  -- Every waiting block has a sample of its own, so a full queue of lengths means full storage.
  have fewer := backlog.length_le
  have full : p.lengths.isFull = true ↔ 2 * p.size ≤ p.lengths.items.length := by
    rw [Bounded.isFull, decide_eq_true_iff, sound.lengthRoom]
  have room : p.samples.room = 2 * p.size - p.samples.samples.length := by
    rw [SampleQueue.room, sound.sampleRoom]
  unfold offered enqueue
  simp only [cut, List.take_length]
  generalize samples.take p.size = block
  by_cases empty : block = []
  · rw [if_pos empty, empty]
    rfl
  · have positive := List.length_pos_iff.mpr empty
    rw [if_neg empty, if_neg (by omega)]
    by_cases refused : 2 * p.size < p.samples.samples.length + block.length
    · rw [if_pos refused]
      split
      · rfl
      · rw [if_pos (by omega)]
    · rw [if_neg refused, if_neg (by rw [full]; omega), if_neg (by omega)]
      rfl

theorem overrun_sound (sound : p.Sound) (count : Nat) : (p.overrun count).Sound := { sound with }

theorem overrun_backlog (backlog : p.Backlog blocks) (count : Nat) :
    (p.overrun count).Backlog blocks :=
  { backlog with }

theorem enlist_sound (sound : p.Sound) (block : List Sample) : (p.enlist block).Sound :=
  { sound with }

theorem enlist_backlog (backlog : p.Backlog blocks) (block : List Sample) (nonempty : block ≠ [])
    (short : block.length ≤ p.size) (fits : p.samples.samples.length + block.length ≤ 2 * p.size) :
    (p.enlist block).Backlog (blocks ++ [block]) := by
  refine ⟨?_, ?_, ?_, ?_, ?_⟩
  · change p.samples.samples ++ block = _
    rw [backlog.samples, List.flatten_append, List.flatten_singleton]
  · change p.lengths.items ++ [block.length] = _
    rw [backlog.lengths, List.map_append, List.map_singleton]
  · intro other member
    rcases List.mem_append.mp member with old | new
    · exact backlog.nonempty other old
    · rw [List.mem_singleton.mp new]
      exact nonempty
  · intro other member
    rcases List.mem_append.mp member with old | new
    · exact backlog.short other old
    · rw [List.mem_singleton.mp new]
      exact short
  · change (p.samples.samples ++ block).length ≤ _
    rw [List.length_append]
    exact fits

theorem checkDeadline_eq (p : Pipeline) (small : p.size ≤ 8192) (elapsed : Nat) :
    p.checkDeadline elapsed = .ok
      { p with counters := { p.counters with
                 deadlineMisses := p.counters.deadlineMisses + (p.config.lateness elapsed).length }
               events := p.events.postAll (p.config.lateness elapsed) } := by
  unfold checkDeadline Config.lateness
  rw [Config.blockPeriod_eq _ small, Checked.ok_bind]
  split <;> rfl

theorem analyzeNext_nil (backlog : p.Backlog []) : p.analyzeNext = .ok none := by
  unfold analyzeNext
  rw [backlog.lengths]
  rfl

theorem peek_oldest (block : List Sample) (backlog : p.Backlog (block :: blocks)) :
    ∃ first second, p.samples.peek? block.length = some (first, second) ∧
      first ++ second = block := by
  have stored : p.samples.samples = block ++ blocks.flatten := by
    rw [backlog.samples, List.flatten_cons]
  have enough : block.length ≤ p.samples.samples.length := by
    rw [stored, List.length_append]
    omega
  let cut := p.samples.capacity - p.samples.head
  refine ⟨block.take cut, block.drop cut, ?_, List.take_append_drop cut block⟩
  rw [SampleQueue.peek?, if_pos enough, List.splitAt_eq, stored, List.take_left]

theorem analyzeNext_cons (sound : p.Sound) (block : List Sample)
    (backlog : p.Backlog (block :: blocks)) :
    p.analyzeNext = if p.analyzer.Unspent then
        .ok (some ([(p.absorb block).1], (p.absorb block).2))
      else .error .overflow := by
  obtain ⟨first, second, pieces, whole⟩ := peek_oldest block backlog
  have fits : p.analyzer.ring.activeFill + (first ++ second).length ≤ p.size := by
    rw [whole, sound.idle, Nat.zero_add]
    exact backlog.short block (by simp)
  obtain ⟨firstFill, secondFill⟩ := Ring.fill_pieces sound.analyzer.ring first second fits
  have released := Analyzer.release_absorb sound.analyzer (first ++ second) fits
  rw [whole] at secondFill released
  unfold analyzeNext
  rw [backlog.lengths, List.map_cons]
  simp only [pieces, firstFill, Checked.ok_bind, secondFill, released, Checked.ite_bind]
  rw [checkDeadline_eq _ (by exact sound.small)]
  rfl

theorem absorb_backlog (block : List Sample) (backlog : p.Backlog (block :: blocks)) :
    (p.absorb block).2.Backlog blocks := by
  have rest : (p.absorb block).2.samples.samples = blocks.flatten := by
    change p.samples.samples.drop block.length = _
    rw [backlog.samples, List.flatten_cons, List.drop_left]
  refine ⟨rest, ?_, ?_, ?_, ?_⟩
  · change p.lengths.items.tail = _
    rw [backlog.lengths, List.map_cons, List.tail_cons]
  · exact fun other member => backlog.nonempty other (by simp [member])
  · exact fun other member => backlog.short other (by simp [member])
  · have all := backlog.room
    rw [backlog.samples, List.flatten_cons, List.length_append] at all
    rw [rest]
    change _ ≤ 2 * p.size
    omega

theorem absorb_sound (sound : p.Sound) (block : List Sample) (short : block.length ≤ p.size)
    (unspent : p.analyzer.Unspent) : (p.absorb block).2.Sound := by
  have fits : p.analyzer.ring.activeFill + block.length ≤ p.size := by
    rw [sound.idle]
    omega
  exact { sound with
    analyzer := Analyzer.absorb_sound sound.analyzer block fits
    idle := Analyzer.activeFill_absorb _ _
    counted := unspent }

/-- Analysing some of the queue absorbs as many of its blocks, unless the block
numbers run out on the way. -/
theorem analyzeQueued_eq (sound : p.Sound) (backlog : p.Backlog blocks) (count : Nat) :
    analyzeQueued count p =
      if p.analyzer.blocksAnalyzed + min count blocks.length < UInt64.size then
        .ok (p.absorbAll (blocks.take count))
      else .error .overflow := by
  induction count generalizing p blocks with
  | zero =>
    rw [Nat.zero_min, Nat.add_zero, if_pos sound.counted]
    rfl
  | succ count ih =>
    cases blocks with
    | nil =>
      rw [List.length_nil, Nat.min_zero, Nat.add_zero p.analyzer.blocksAnalyzed,
        if_pos sound.counted, analyzeQueued, analyzeNext_nil backlog]
      rfl
    | cons block blocks =>
      have total : p.analyzer.blocksAnalyzed + min (count + 1) (block :: blocks).length =
          p.analyzer.blocksAnalyzed + 1 + min count blocks.length := by
        rw [List.length_cons]
        omega
      rw [total, analyzeQueued, analyzeNext_cons sound block backlog]
      -- A block number that is missing for the oldest block is missing for all of them.
      by_cases unspent : p.analyzer.Unspent
      · have later := absorb_sound sound block (backlog.short block (by simp)) unspent
        have rest := ih later (absorb_backlog block backlog)
        change _ = if p.analyzer.blocksAnalyzed + 1 + min count blocks.length < UInt64.size then _
          else _ at rest
        rw [if_pos unspent, Checked.ok_bind]
        simp only [rest]
        split <;> rfl
      · have spent : ¬ p.analyzer.blocksAnalyzed + 1 + min count blocks.length < UInt64.size := by
          unfold Analyzer.Unspent at unspent
          omega
        rw [if_neg unspent, if_neg spent]
        rfl

theorem absorbAll_frame (p : Pipeline) (blocks : List (List Sample)) :
    ∃ analyzer samples lengths counters events,
      (p.absorbAll blocks).2 = { p with analyzer, samples, lengths, counters, events } := by
  induction blocks generalizing p with
  | nil => exact ⟨_, _, _, _, _, rfl⟩
  | cons block blocks ih =>
    obtain ⟨analyzer, samples, lengths, counters, events, same⟩ := ih (p.absorb block).2
    exact ⟨analyzer, samples, lengths, counters, events, same⟩

theorem attended_absorbAll (p : Pipeline) (blocks : List (List Sample)) :
    (p.absorbAll blocks).2.events.attended = p.events.attended := by
  induction blocks generalizing p with
  | nil => rfl
  | cons block blocks ih =>
    change ((p.absorb block).2.absorbAll blocks).2.events.attended = _
    rw [ih]
    exact EventQueue.attended_postAll _ _

theorem absorbAll_spec (sound : p.Sound) (first rest : List (List Sample))
    (backlog : p.Backlog (first ++ rest))
    (unspent : p.analyzer.blocksAnalyzed + first.length < UInt64.size) :
    (p.absorbAll first).2.Sound ∧ (p.absorbAll first).2.Backlog rest ∧
      (p.absorbAll first).1.map (·.block) = first ∧
      (p.absorbAll first).2.analyzer.blocksAnalyzed = p.analyzer.blocksAnalyzed + first.length := by
  induction first generalizing p with
  | nil => exact ⟨sound, backlog, rfl, rfl⟩
  | cons block first ih =>
    rw [List.length_cons] at unspent
    have short := backlog.short block (by simp)
    have later := absorb_sound sound block short
      (by change p.analyzer.blocksAnalyzed + 1 < UInt64.size; omega)
    obtain ⟨kept, left, analysed, counted⟩ := ih later (absorb_backlog block backlog)
      (by change p.analyzer.blocksAnalyzed + 1 + first.length < UInt64.size; omega)
    refine ⟨kept, left, ?_, ?_⟩
    · have own : (p.absorb block).1.block = block :=
        Analyzer.block_absorb sound.analyzer block sound.idle short
      change (p.absorb block).1.block :: ((p.absorb block).2.absorbAll first).1.map _ = _
      rw [own, analysed]
    · change ((p.absorb block).2.absorbAll first).2.analyzer.blocksAnalyzed = _
      rw [counted, List.length_cons]
      change p.analyzer.blocksAnalyzed + 1 + first.length = _
      omega

end

end Pipeline

end BandLight
