import BandLight.Proofs.RingRuns

/-! Blocks in a reader's hands. From its release until the next one, whatever is
filled or overwritten, a block reads as the samples that it held; then it becomes
active and empty, and the other block is handed out in its place. -/
namespace BandLight.Ring

/-- A ring in which a block with some content is out. -/
structure Lends (size : Nat) (id : BlockId) (held : List Sample) (ring : Ring) : Prop where
  sound : ring.Sound size
  active : ring.active = id.other
  contents : (ring.get id).contents = held

/-- What a reader that has a block, and the one who comes next, may count on. -/
structure Keeps (size : Nat) (id : BlockId) (held : List Sample) (ring : Ring) : Prop where
  inactive : ring.active ≠ id
  read : ring.block id = .ok held
  stale : ring.release id = (none, ring)
  /-- The next release takes the block back, empty, and hands out the other one. -/
  returned : ∃ next, ring.perform (.release id.other) =
      .ok (.released id.other ring.activeBlock.contents, next) ∧
    next.active = id ∧ next.activeFill = 0 ∧
    next.block id.other = .ok ring.activeBlock.contents

section
variable {ring next last : Ring} {size : Nat} {id : BlockId} {held : List Sample}
  {operation : Operation} {outcome : Outcome}

theorem Lends.other_active (lends : Lends size id held ring) : id ≠ ring.active := by
  rw [lends.active]
  exact (other_ne id).symm

theorem Lends.of_swap (sound : ring.Sound size) :
    Lends size ring.active ring.activeBlock.contents ring.swap := by
  refine ⟨sound.swap, rfl, ?_⟩
  have same : ring.swap.get ring.active = ring.activeBlock := by
    change (ring.set _ _).get ring.active = _
    rw [get_set, if_neg (other_ne ring.active).symm]
    rfl
  rw [same]

theorem Lends.written (lends : Lends size id held ring) (block : Block)
    (sound : (ring.set ring.active block).Sound size) :
    Lends size id held (ring.set ring.active block) := by
  refine ⟨sound, (active_set _ _ _).trans lends.active, ?_⟩
  rw [get_set, if_neg lends.other_active, lends.contents]

theorem Lends.moved (lends : Lends size id held ring)
    (moved : Moved size ring operation outcome next) (other : operation ≠ .reset)
    (out : outcome.id? = none) : Lends size id held next := by
  have later := moved.sound lends.sound
  cases moved with
  | filled _ input _ => exact lends.written _ later
  | overwritten samples => exact lends.written _ later
  | released => cases out
  | stale => exact lends
  | forgotten => exact absurd rfl other

theorem Lends.keeps (lends : Lends size id held ring) : Keeps size id held ring := by
  have read : ring.block id = .ok held := by
    rw [block, if_neg lends.other_active, Block.content_eq, lends.contents]
    rw [lends.sound.slots]
    exact lends.sound.filled id
  have back : ring.swap.active = id := by
    change ring.active.other = id
    rw [lends.active]
    cases id <;> rfl
  refine ⟨lends.other_active.symm, read, release_stale ring id lends.other_active,
    ring.swap, ?_, back, activeFill_swap ring, ?_⟩
  · rw [← lends.active, perform, release_active]
    simp only [block_swap lends.sound, Checked.ok_bind, Checked.pure_eq]
  · rw [← lends.active]
    exact block_swap lends.sound

theorem Lends.trace (lends : Lends size id held ring) (operations : List Operation)
    (others : ∀ operation ∈ operations, operation ≠ .reset) (outcomes : List Outcome)
    (ran : ring.trace operations = .ok (outcomes, last))
    (out : ∀ outcome ∈ outcomes, outcome.id? = none) : Lends size id held last := by
  refine Checked.trace_induction perform
    (fun operations outcomes state => (∀ operation ∈ operations, operation ≠ .reset) →
      (∀ outcome ∈ outcomes, outcome.id? = none) → Lends size id held state)
    ring (fun _ _ => lends) ?_ operations outcomes last ran others out
  intro operations outcomes state operation outcome next _ before performed others out
  have lends := before (fun other member => others other (List.mem_append_left _ member))
    fun other member => out other (List.mem_append_left _ member)
  exact lends.moved (moved_of_perform lends.sound performed) (others operation (by simp))
    (out outcome (by simp))

end

/-- In every ring that can be reached the blocks have all their slots, and the
block that a release hands out keeps what it held until the next release, whatever
is done to the ring but a reset. -/
theorem handed_block_kept {memory size : Nat} {ring : Ring}
    (reached : Reached memory size ring) :
    (∀ id, (ring.get id).slots.length = size ∧ (ring.get id).filled ≤ size) ∧
    ∃ handed, ring.perform (.release ring.active) =
        .ok (.released ring.active ring.activeBlock.contents, handed) ∧
      ∀ operations : List Operation, (∀ operation ∈ operations, operation ≠ .reset) →
        ∃ outcomes last, handed.trace operations = .ok (outcomes, last) ∧
          ((∀ outcome ∈ outcomes, outcome.id? = none) →
            Keeps size ring.active ring.activeBlock.contents last) := by
  have sound := reached.sound
  refine ⟨fun id => ⟨sound.slots id, sound.filled id⟩, ring.swap, ?_, ?_⟩
  · rw [perform, release_active]
    simp only [block_swap sound, Checked.ok_bind, Checked.pure_eq]
  · intro operations others
    obtain ⟨outcomes, last, ran⟩ := trace_total sound.swap operations
    exact ⟨outcomes, last, ran, fun out =>
      ((Lends.of_swap sound).trace operations others outcomes ran out).keeps⟩

theorem handed_block_kept_under_writes : ∃ first ring, configure 4 2 = .ok first ∧
    first.trace [.fill [1, 2], .release .a, .fill [3]] =
      .ok ([.accepted 2, .released .a [1, 2], .accepted 1], ring) ∧
    ∃ handed last, ring.perform (.release .b) = .ok (.released .b [3], handed) ∧
      handed.trace [.writeActive [7, 8], .release .b, .fillBytes [9, 0]] =
        .ok ([.slots [1, 2], .stale, .accepted 0], last) ∧ Keeps 2 .b [3] last := by
  obtain ⟨first, configured⟩ : ∃ first, configure 4 2 = .ok first := ⟨_, rfl⟩
  obtain ⟨ring, ran⟩ : ∃ ring, first.trace [.fill [1, 2], .release .a, .fill [3]] =
      .ok ([.accepted 2, .released .a [1, 2], .accepted 1], ring) := by
    cases configured
    exact ⟨_, rfl⟩
  obtain ⟨-, handed, released, kept⟩ := handed_block_kept ⟨first, _, _, configured, ran⟩
  obtain ⟨outcomes, last, later, keeps⟩ :=
    kept [.writeActive [7, 8], .release .b, .fillBytes [9, 0]] (by simp)
  cases configured
  cases ran
  cases released
  cases later
  exact ⟨_, _, rfl, rfl, _, _, rfl, rfl, keeps (by simp [Outcome.id?])⟩

end BandLight.Ring
