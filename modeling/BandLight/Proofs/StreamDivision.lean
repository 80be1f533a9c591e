import BandLight.Proofs.AnalyzerRuns

/-! A stream divided into blocks. A push ends, however full it finds the active block. With what
was unreleased before, its samples are cut into whole blocks, in order, and a rest that is shorter
than a block: there are as many blocks as the quotient of the lengths, and the rest is as long as
the remainder. -/
namespace BandLight.Analyzer

/-- Some analyses have taken the whole blocks of a stream, and its rest is unreleased. -/
structure Divides (size : Nat) (a : Analyzer) (samples : List Sample) (analyses : List Analysis)
    (b : Analyzer) : Prop where
  count : analyses.length = (a.ring.activeFill + samples.length) / size
  fill : b.ring.activeFill = (a.ring.activeFill + samples.length) % size
  rest : b.unreleased =
    (a.unreleased ++ samples).rtake ((a.ring.activeFill + samples.length) % size)
  block : ∀ i (inside : i < analyses.length),
    analyses[i].block = ((a.unreleased ++ samples).drop (i * size)).take size

theorem length_flatten_blocks {size : Nat} (blocks : List (List Sample))
    (each : ∀ block ∈ blocks, block.length = size) :
    blocks.flatten.length = blocks.length * size := by
  induction blocks with
  | nil => simp
  | cons block blocks ih =>
    obtain ⟨first, others⟩ := List.forall_mem_cons.mp each
    rw [List.flatten_cons, List.length_append, first, ih others, List.length_cons, Nat.succ_mul,
      Nat.add_comm]

theorem take_drop_flatten {size : Nat} (blocks : List (List Sample)) (rest : List Sample)
    (each : ∀ block ∈ blocks, block.length = size) (i : Nat) (inside : i < blocks.length) :
    ((blocks.flatten ++ rest).drop (i * size)).take size = blocks[i] := by
  induction blocks generalizing i with
  | nil => cases inside
  | cons block blocks ih =>
    obtain ⟨first, others⟩ := List.forall_mem_cons.mp each
    rw [List.flatten_cons, List.append_assoc]
    cases i with
    | zero =>
      rw [Nat.zero_mul, List.drop_zero, List.take_left' first]
      rfl
    | succ i =>
      have later := ih others i (Nat.lt_of_succ_lt_succ inside)
      rw [Nat.succ_mul, Nat.add_comm, ← first, List.drop_length_add_append, first]
      exact later

section
variable {a b : Analyzer} {size : Nat}

theorem length_unreleased (sound : a.Sound size) : a.unreleased.length = a.ring.activeFill := by
  have filled : a.ring.activeFill ≤ size := sound.ring.filled a.ring.active
  have slots : a.ring.activeBlock.slots.length = size := sound.ring.slots a.ring.active
  change (a.ring.activeBlock.slots.take a.ring.activeFill).length = _
  rw [List.length_take, slots, Nat.min_eq_left filled]

theorem length_block_absorb (sound : a.Sound size) (samples : List Sample)
    (full : size ≤ a.ring.activeFill + samples.length) :
    (a.absorb (samples.take a.room)).1.block.length = size := by
  have fits := fits_room sound samples
  have block : (a.absorb (samples.take a.room)).1.block = a.unreleased ++ samples.take a.room :=
    unreleased_append sound (samples.take a.room) fits
  rw [List.length_take, room_eq sound] at fits
  rw [block, List.length_append, length_unreleased sound, List.length_take, room_eq sound]
  omega

/-- The analysed blocks are whole, and once samples have come in the active block has room. -/
theorem push_blocks (sound : a.Sound size) (samples : List Sample) :
    ∀ analyses b, a.push samples = .ok (analyses, b) →
      (∀ analysis ∈ analyses, analysis.block.length = size) ∧
        (samples ≠ [] → b.ring.activeFill < size) := by
  refine stream_induction ?_ ?_ ?_ sound samples
  · intro a sound analyses b ran
    rw [push_nil] at ran
    cases ran
    exact ⟨by simp, fun some => absurd rfl some⟩
  · intro a samples sound short analyses b ran
    rw [push_short sound samples short] at ran
    cases ran
    refine ⟨by simp, fun _ => ?_⟩
    change (a.ring.append samples).activeFill < size
    rwa [Ring.activeFill_append]
  · intro a samples sound nonempty full ih analyses b ran
    rw [push_full sound samples nonempty full] at ran
    split at ran
    · obtain ⟨⟨others, last⟩, pushed, same⟩ := Checked.bind_success _ _ _ ran
      cases same
      obtain ⟨whole, open_⟩ := ih others b pushed
      refine ⟨List.forall_mem_cons.mpr ⟨length_block_absorb sound samples full, whole⟩, fun _ => ?_⟩
      -- When the stream ends with the block, the other block is active and empty.
      by_cases ended : samples.drop a.room = []
      · rw [ended, push_nil] at pushed
        cases pushed
        rw [activeFill_absorb]
        exact sound.positive
      · exact open_ ended
    · cases ran

theorem Pushed.divides (sound : a.Sound size) (samples : List Sample) (analyses : List Analysis)
    (pushed : Pushed size a samples analyses b)
    (whole : ∀ analysis ∈ analyses, analysis.block.length = size)
    (open_ : b.ring.activeFill < size) : Divides size a samples analyses b := by
  have conserved := pushed.conserved
  rw [List.flatMap_def] at conserved
  have blocks : ∀ block ∈ analyses.map (·.block), block.length = size := by
    simpa using whole
  have lengths := congrArg List.length conserved
  rw [List.length_append, List.length_append, length_flatten_blocks _ blocks,
    length_unreleased pushed.analyzes.sound, length_unreleased sound, List.length_map] at lengths
  obtain ⟨quotient, remainder⟩ : (a.ring.activeFill + samples.length) / size = analyses.length ∧
      (a.ring.activeFill + samples.length) % size = b.ring.activeFill := by
    refine (Nat.div_mod_unique (Nat.zero_lt_of_lt open_)).mpr ⟨?_, open_⟩
    rw [← lengths, Nat.mul_comm, Nat.add_comm]
  refine ⟨quotient.symm, remainder.symm, ?_, fun i inside => ?_⟩
  · rw [remainder, ← conserved, ← length_unreleased pushed.analyzes.sound, List.rtake,
      List.length_append, Nat.add_sub_cancel, List.drop_left]
  · have counted : i < (analyses.map (·.block)).length := by rwa [List.length_map]
    rw [← conserved, take_drop_flatten _ _ blocks i counted, List.getElem_map]

end

/-- A push of no samples does nothing. Any other ends after at most one round more than it has
samples, and it fails only for want of block numbers; it has analysed the whole blocks of what
was unreleased and the samples behind it, and leaves the rest in the active block. -/
theorem push_divides {size : Nat} {a : Analyzer} (reached : Reached size a) :
    (a.ring.activeFill ≤ size ∧ a.unreleased.length = a.ring.activeFill) ∧
    a.push [] = .ok ([], a) ∧
    ∀ samples, samples ≠ [] →
      (∀ rounds, samples.length < rounds → pushRounds rounds a samples = a.push samples) ∧
      (a.blocksAnalyzed + (a.ring.activeFill + samples.length) / size < UInt64.size →
        ∃ analyses b, a.push samples = .ok (analyses, b) ∧ Divides size a samples analyses b) ∧
      (UInt64.size ≤ a.blocksAnalyzed + (a.ring.activeFill + samples.length) / size →
        a.push samples = .error .overflow) := by
  obtain ⟨sound, fewer⟩ := reached.sound
  refine ⟨⟨sound.ring.filled a.ring.active, length_unreleased sound⟩, push_nil a, ?_⟩
  intro samples nonempty
  have completed : a.completed samples = (a.ring.activeFill + samples.length) / size := by
    rw [completed, if_neg nonempty, sound.ring.blockSize]
  rw [← completed]
  refine ⟨fun rounds enough => ?_, fun unspent => ?_, push_spent sound samples fewer⟩
  · apply pushRounds_enough sound
    · split <;> omega
    · split <;> omega
  · obtain ⟨analyses, b, ran, pushed⟩ := push_pushed sound samples unspent
    obtain ⟨whole, open_⟩ := push_blocks sound samples analyses b ran
    exact ⟨analyses, b, ran, pushed.divides sound samples analyses whole (open_ nonempty)⟩

theorem push_divides_from_full_block : ∃ a analyses b, Reached 32 a ∧ a.ring.activeFill = 32 ∧
    a.push (List.replicate 33 7) = .ok (analyses, b) ∧ analyses.length = 2 ∧
    b.ring.activeFill = 1 ∧ b.unreleased = [7] := by
  obtain ⟨first, configured⟩ : ∃ first, configure 32 = .ok first := ⟨_, rfl⟩
  obtain ⟨a, ran, full, none, slots⟩ : ∃ a, first.trace [.writeActive [1200, -700]] =
      .ok ([.slots (List.replicate 32 0)], a) ∧ a.ring.activeFill = 32 ∧ a.blocksAnalyzed = 0 ∧
      a.unreleased = 1200 :: -700 :: List.replicate 30 0 := by
    cases configured
    exact ⟨_, rfl, rfl, rfl, rfl⟩
  have reached : Reached 32 a := ⟨first, _, _, configured, ran⟩
  obtain ⟨-, -, push⟩ := push_divides reached
  obtain ⟨-, enough, -⟩ := push (List.replicate 33 7) (by decide)
  rw [full, none] at enough
  obtain ⟨analyses, b, pushed, divides⟩ := enough (by decide)
  have rest := divides.rest
  rw [full, slots] at rest
  exact ⟨a, analyses, b, reached, full, pushed, divides.count.trans (by rw [full]; rfl),
    divides.fill.trans (by rw [full]; rfl), rest.trans (by decide)⟩

end BandLight.Analyzer
