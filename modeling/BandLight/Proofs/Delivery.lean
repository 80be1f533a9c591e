import BandLight.Proofs.PipelineHistory

/-! From an accepted delivery to its analysis. Whatever the parties do and in
whatever order, the queues hold the accepted blocks that were not analysed yet,
and each block reaches the transform alone, whole and in its turn. -/
namespace BandLight.Pipeline

/-- How the oldest queued block reaches the transform. The queue gives it in two
pieces, the second of which is empty unless the block crosses the end of the
storage. The active block of the ring is empty and takes both of them, and the
report that it is filled is not stale. -/
structure Copies (p : Pipeline) (block : List Sample) : Prop where
  empty : p.analyzer.ring.activeFill = 0
  copied : ∃ first second half full next,
    p.samples.peek? block.length = some (first, second) ∧ first ++ second = block ∧
      p.analyzer.ring.fill first = .ok (first.length, half) ∧
      half.fill second = .ok (second.length, full) ∧
      full.release p.analyzer.ring.active = (some p.analyzer.ring.active, next) ∧
      next.block p.analyzer.ring.active = .ok block

/-- The actions that leave nothing in the queue of a running pipeline. -/
def Action.Flushes : Action → Prop
  | .step (.host .release) | .step (.driver .dropProducer) => True
  | _ => False

section
variable {p : Pipeline} {blocks : List (List Sample)}

theorem copies_oldest (sound : p.Sound) (block : List Sample)
    (backlog : p.Backlog (block :: blocks)) : p.Copies block := by
  obtain ⟨first, second, pieces, whole⟩ := peek_oldest block backlog
  have short : block.length ≤ p.size := backlog.short block (by simp)
  have fits : p.analyzer.ring.activeFill + block.length ≤ p.size := by
    rw [sound.idle, Nat.zero_add]
    exact short
  have filled := Ring.fill_pieces sound.analyzer.ring first second (by rw [whole]; exact fits)
  rw [whole] at filled
  have released : (p.analyzer.ring.append block).release p.analyzer.ring.active =
      (some p.analyzer.ring.active, (p.analyzer.ring.append block).swap) := by
    have own := (p.analyzer.ring.append block).release_active
    rw [Ring.active_append] at own
    exact own
  have read : (p.analyzer.ring.append block).swap.block p.analyzer.ring.active = .ok block := by
    have own := Ring.block_swap (sound.analyzer.ring.append block fits)
    rw [Ring.active_append, Ring.contents_append sound.analyzer.ring block sound.idle short] at own
    exact own
  exact ⟨sound.idle, first, second, _, _, _, pieces, whole, filled.1, filled.2, released, read⟩

theorem Stepped.length_rest {action : Action} {report : Report} {q : Pipeline}
    {rest : List (List Sample)} (stepped : Stepped p blocks action report q rest) :
    blocks.length + (action.taken p.size report).length = p.due action + rest.length := by
  have order := congrArg List.length stepped.order
  rw [List.length_append, List.length_append, List.length_map, stepped.due] at order
  exact order

theorem flushed (backlog : p.Backlog blocks) (running : p.running = true) (action : Action)
    (flushes : action.Flushes) {report : Report} {q : Pipeline} {rest : List (List Sample)}
    (stepped : Stepped p blocks action report q rest) : rest = [] := by
  -- As many blocks are due as wait, and none is added.
  have all : { p with held := false }.flow = blocks.length := by
    rw [flow_eq (p := { p with held := false }) { backlog with },
      if_pos ⟨running, Bool.false_ne_true⟩]
  have due : p.due action = blocks.length ∧ action.block p.size = [] := by
    unfold Action.Flushes at flushes
    split at flushes
    · exact ⟨all, rfl⟩
    · exact ⟨all, rfl⟩
    · exact flushes.elim
  have length := stepped.length_rest
  rw [due.1, untaken_of_block _ _ _ due.2, List.length_nil] at length
  exact List.eq_nil_of_length_eq_zero (by omega)

end

/-- No accepted block is lost, duplicated, merged, split or reordered. -/
theorem accepted_blocks_in_order {config : Config} {sink : Sink} {latency : Nat → Nat} {held : Bool}
    {p : Pipeline} (started : start config sink latency held = .ok p) (actions : List Action) :
    p.Exhausts actions ∨ ∃ reports q blocks, p.trace actions = .ok (reports, q) ∧
      q.samples.samples = blocks.flatten ∧ q.lengths.items = blocks.map List.length ∧
      accepted config.blockSize.toNat actions reports = analysed reports ++ blocks ∧
      (∀ block rest, blocks = block :: rest → q.Copies block) ∧
      (∀ before last, actions = before ++ [last] → last.Flushes →
        .step (.host .shutdown) ∉ before → blocks = []) := by
  have fresh := start_fresh started
  obtain ⟨analyzer, aggregator, -, shape⟩ := start_success started
  have size : p.size = config.blockSize.toNat := by rw [shape]
  have running : p.running = true := by rw [shape]
  rcases trace_complete fresh actions with exhausts | ⟨reports, q, ran⟩
  · exact .inl exhausts
  · obtain ⟨blocks, history⟩ := trace_history fresh actions reports q ran
    refine .inr ⟨reports, q, blocks, ran, history.backlog.samples, history.backlog.lengths, ?_, ?_,
      ?_⟩
    · rw [← size]
      exact history.order
    · intro block rest same
      have backlog := history.backlog
      rw [same] at backlog
      exact copies_oldest history.sound block backlog
    · intro before last same flushes going
      subst same
      obtain ⟨earlier, middle, report, head, acted, -⟩ := Checked.trace_snoc act _ _ _ _ _ ran
      obtain ⟨waiting, past⟩ := trace_history fresh before earlier middle head
      obtain ⟨rest, stepped⟩ := stepped_of_act past.sound past.backlog last report q acted
      have none := flushed past.backlog (past.running.mpr ⟨running, going⟩) last flushes stepped
      have empty : blocks.map List.length = [] := by
        rw [← history.backlog.lengths, stepped.backlog.lengths, none, List.map_nil]
      exact List.map_eq_nil_iff.mp empty

def ramp (first length : Nat) : List Sample := (List.range' first length).map Int16.ofNat

/-- The third block crosses the end of the storage. -/
def crossing : List Action :=
  [.queue (ramp 0 30), .queue (ramp 30 20), .analyze 2, .queue (ramp 50 25)]

theorem crossing_blocks_in_order : ∃ p before middle reports q,
    start twoBands .log (fun _ => 0) true = .ok p ∧ p.trace crossing = .ok (before, middle) ∧
    middle.samples.peek? 25 = some (ramp 50 14, ramp 64 11) ∧
    p.trace (crossing ++ [.queue (ramp 75 7), .step (.host .release)]) = .ok (reports, q) ∧
    accepted 32 (crossing ++ [.queue (ramp 75 7), .step (.host .release)]) reports =
      analysed reports ∧
    analysed reports = [ramp 0 30, ramp 30 20, ramp 50 25, ramp 75 7] := by
  obtain ⟨p, started⟩ : ∃ p, start twoBands .log (fun _ => 0) true = .ok p := ⟨_, rfl⟩
  have fresh := start_fresh started
  rcases trace_complete fresh crossing with exhausts | ⟨before, middle, began⟩
  · exact absurd exhausts (not_exhausts_of_length fresh _ (by decide))
  rcases accepted_blocks_in_order started
      (crossing ++ [.queue (ramp 75 7), .step (.host .release)]) with
    exhausts | ⟨reports, q, blocks, ran, -, -, order, -, flushed⟩
  · exact absurd exhausts (not_exhausts_of_length fresh _ (by decide))
  have empty : blocks = [] := flushed (crossing ++ [.queue (ramp 75 7)]) (.step (.host .release))
    rfl trivial (by decide)
  rw [empty, List.append_nil] at order
  refine ⟨p, before, middle, reports, q, started, began, ?_, ran, order, ?_⟩
  · exact eq_of_evaluated (·.trace crossing) (·.2.samples.peek? 25) started began (by decide +kernel)
  · exact eq_of_evaluated (·.trace _) (analysed ·.1) started ran (by decide +kernel)

end BandLight.Pipeline
