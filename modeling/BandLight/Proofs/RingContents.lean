import BandLight.Proofs.CheckedRuns
import BandLight.Ring

/-! What the blocks of a ring hold. In a ring whose blocks have all their slots,
filling appends to the active block, writing in place overwrites its first slots,
releasing swaps it with an empty one, and the released block reads back as the
samples that it held. -/
namespace BandLight

namespace Block

/-- The samples written since the block became active. -/
def contents (block : Block) : List Sample := block.slots.take block.filled

/-- The block after further samples have been written behind the filled ones. -/
def append (block : Block) (samples : List Sample) : Block :=
  { slots := block.slots.take block.filled ++ samples
      ++ block.slots.drop (block.filled + samples.length)
    filled := block.filled + samples.length }

theorem content_eq (block : Block) (inside : block.filled ≤ block.slots.length) :
    block.content = .ok block.contents := by
  rw [content, Checked.slice_first inside, contents]

theorem write_eq_append (block : Block) (samples : List Sample)
    (fits : block.filled + samples.length ≤ block.slots.length) :
    block.write block.filled samples = .ok (block.append samples) := by
  have room : ((block.slots.take (block.filled + samples.length)).drop block.filled).length =
      samples.length := by
    rw [List.length_drop, List.length_take]
    omega
  rw [write, Checked.slice_ok (Nat.le_add_right _ _) fits, Checked.ok_bind, Checked.copyOver_ok room]
  rfl

theorem length_slots_append (block : Block) (samples : List Sample)
    (fits : block.filled + samples.length ≤ block.slots.length) :
    (block.append samples).slots.length = block.slots.length := by
  simp only [append, List.length_append, List.length_take, List.length_drop]
  omega

theorem contents_append (block : Block) (samples : List Sample)
    (fits : block.filled + samples.length ≤ block.slots.length) :
    (block.append samples).contents = block.contents ++ samples := by
  have size :
      (block.slots.take block.filled ++ samples).length = block.filled + samples.length := by
    rw [List.length_append, List.length_take, Nat.min_eq_left (by omega)]
  rw [contents, append]
  exact List.take_left' size

theorem append_append (block : Block) (first second : List Sample)
    (fits : block.filled + first.length ≤ block.slots.length) :
    (block.append first).append second = block.append (first ++ second) := by
  let slots :=
    block.slots.take block.filled ++ first ++ block.slots.drop (block.filled + first.length)
  have size : (block.slots.take block.filled ++ first).length = block.filled + first.length := by
    rw [List.length_append, List.length_take, Nat.min_eq_left (by omega)]
  have front : slots.take (block.filled + first.length) = block.slots.take block.filled ++ first :=
    List.take_left' size
  have back : slots.drop (block.filled + first.length + second.length) =
      block.slots.drop (block.filled + first.length + second.length) := by
    rw [← List.drop_drop, List.drop_left' size, List.drop_drop]
  simp only [slots] at front back
  simp only [append, front, back]
  simp only [List.length_append, Nat.add_assoc, List.append_assoc]

theorem append_nil (block : Block) : block.append [] = block := by
  simp [append]

/-- The block after samples have been written over its first slots. It counts as full. -/
def overwrite (block : Block) (samples : List Sample) : Block :=
  { slots := samples.take block.slots.length ++ block.slots.drop samples.length
    filled := block.slots.length }

theorem length_slots_overwrite (block : Block) (samples : List Sample) :
    (block.overwrite samples).slots.length = block.slots.length := by
  simp only [overwrite, List.length_append, List.length_take, List.length_drop]
  omega

theorem contents_overwrite (block : Block) (samples : List Sample) :
    (block.overwrite samples).contents =
      samples.take block.slots.length ++ block.slots.drop samples.length := by
  have whole : (block.overwrite samples).slots.take block.slots.length =
      (block.overwrite samples).slots :=
    List.take_of_length_le (Nat.le_of_eq (block.length_slots_overwrite samples))
  exact whole

end Block

namespace Ring

@[simp] theorem activeBlock_set_active (ring : Ring) (block : Block) :
    (ring.set ring.active block).activeBlock = block := by
  cases same : ring.active <;> simp [set, activeBlock, get, same]

@[simp] theorem active_set (ring : Ring) (id : BlockId) (block : Block) :
    (ring.set id block).active = ring.active := by
  cases id <;> rfl

@[simp] theorem blockSize_set (ring : Ring) (id : BlockId) (block : Block) :
    (ring.set id block).blockSize = ring.blockSize := by
  cases id <;> rfl

theorem get_set (ring : Ring) (id other : BlockId) (block : Block) :
    (ring.set id block).get other = if other = id then block else ring.get other := by
  cases id <;> cases other <;> rfl

theorem set_set (ring : Ring) (id : BlockId) (first second : Block) :
    (ring.set id first).set id second = ring.set id second := by
  cases id <;> rfl

theorem other_ne (id : BlockId) : id.other ≠ id := by
  cases id <;> decide

/-- Both blocks have all their slots and are filled no further than that. -/
structure Sound (ring : Ring) (size : Nat) : Prop where
  blockSize : ring.blockSize = size
  slots : ∀ id, (ring.get id).slots.length = size
  filled : ∀ id, (ring.get id).filled ≤ size

/-- The ring after samples have been written behind those of the active block. -/
def append (ring : Ring) (samples : List Sample) : Ring :=
  ring.set ring.active (ring.activeBlock.append samples)

def swap (ring : Ring) : Ring :=
  let next := ring.active.other
  { ring.set next { ring.get next with filled := 0 } with active := next }

theorem release_active (ring : Ring) :
    ring.release ring.active = (some ring.active, ring.swap) := by
  simp [release, swap]

@[simp] theorem activeFill_swap (ring : Ring) : ring.swap.activeFill = 0 := by
  cases same : ring.active <;> simp [swap, activeFill, activeBlock, get, set, BlockId.other, same]

@[simp] theorem active_append (ring : Ring) (samples : List Sample) :
    (ring.append samples).active = ring.active := active_set _ _ _

@[simp] theorem activeBlock_append (ring : Ring) (samples : List Sample) :
    (ring.append samples).activeBlock = ring.activeBlock.append samples :=
  activeBlock_set_active _ _

theorem append_nil (ring : Ring) : ring.append [] = ring := by
  rw [append, Block.append_nil]
  obtain ⟨first, second, active, size⟩ := ring
  cases active with
  | a => rfl
  | b => rfl

@[simp] theorem activeFill_append (ring : Ring) (samples : List Sample) :
    (ring.append samples).activeFill = ring.activeFill + samples.length := by
  rw [activeFill, activeBlock_append]
  rfl

section
variable {ring : Ring} {size : Nat}

theorem Sound.set_active (sound : ring.Sound size) (block : Block)
    (slots : block.slots.length = size) (filled : block.filled ≤ size) :
    (ring.set ring.active block).Sound size := by
  refine ⟨?_, ?_, ?_⟩
  · rw [blockSize_set, sound.blockSize]
  · intro id
    rw [get_set]
    split
    · exact slots
    · exact sound.slots id
  · intro id
    rw [get_set]
    split
    · exact filled
    · exact sound.filled id

theorem Sound.append (sound : ring.Sound size) (samples : List Sample)
    (fits : ring.activeFill + samples.length ≤ size) : (ring.append samples).Sound size := by
  have room : ring.activeBlock.filled + samples.length ≤ ring.activeBlock.slots.length := by
    rw [activeBlock, sound.slots]
    exact fits
  apply sound.set_active _ _ fits
  rw [Block.length_slots_append _ _ room, activeBlock, sound.slots]

theorem Sound.swap (sound : ring.Sound size) : ring.swap.Sound size := by
  have kept (id : BlockId) : (ring.swap.get id).slots = (ring.get id).slots ∧
      (ring.swap.get id).filled ≤ (ring.get id).filled := by
    have same : ring.swap.get id =
        if id = ring.active.other then { ring.get ring.active.other with filled := 0 }
        else ring.get id := get_set _ _ _ _
    rw [same]
    split
    · next equal => exact ⟨by rw [equal], Nat.zero_le _⟩
    · exact ⟨rfl, Nat.le_refl _⟩
  refine ⟨?_, ?_, ?_⟩
  · exact (blockSize_set _ _ _).trans sound.blockSize
  · intro id
    rw [(kept id).1, sound.slots]
  · intro id
    exact Nat.le_trans (kept id).2 (sound.filled id)

theorem fill_eq (sound : ring.Sound size) (samples : List Sample) :
    ring.fill samples = .ok (min samples.length (size - ring.activeFill),
      ring.append (samples.take (size - ring.activeFill))) := by
  have filled : ring.activeFill ≤ size := sound.filled ring.active
  have taken : samples.take (min samples.length (size - ring.activeFill)) =
      samples.take (size - ring.activeFill) := by
    rw [Nat.min_comm, List.take_eq_take_min (i := size - ring.activeFill)]
  have room : ring.activeBlock.filled + (samples.take (size - ring.activeFill)).length ≤
      ring.activeBlock.slots.length := by
    have all : ring.activeBlock.slots.length = size := sound.slots ring.active
    rw [all, List.length_take]
    change ring.activeFill + _ ≤ size
    omega
  rw [fill, sound.blockSize, Checked.sub_ok filled, Checked.ok_bind,
    Checked.slice_first (Nat.min_le_left _ _), Checked.ok_bind, taken]
  change (do
    let block ← ring.activeBlock.write ring.activeBlock.filled _
    return (_, ring.set ring.active block)) = _
  rw [Block.write_eq_append _ _ room]
  simp only [Checked.ok_bind, Checked.pure_eq, append, List.length_take]
  rw [Nat.min_comm]

theorem fill_fits (sound : ring.Sound size) (samples : List Sample)
    (fits : ring.activeFill + samples.length ≤ size) :
    ring.fill samples = .ok (samples.length, ring.append samples) := by
  rw [fill_eq sound, List.take_of_length_le (by omega), Nat.min_eq_left (by omega)]

theorem append_append (sound : ring.Sound size) (first second : List Sample)
    (fits : ring.activeFill + first.length ≤ size) :
    (ring.append first).append second = ring.append (first ++ second) := by
  have room : ring.activeBlock.filled + first.length ≤ ring.activeBlock.slots.length := by
    rw [activeBlock, sound.slots]
    exact fits
  rw [append, active_append, activeBlock_append, Block.append_append _ _ _ room, append, set_set]
  rfl

theorem fill_pieces (sound : ring.Sound size) (first second : List Sample)
    (fits : ring.activeFill + (first ++ second).length ≤ size) :
    ring.fill first = .ok (first.length, ring.append first) ∧
      (ring.append first).fill second = .ok (second.length, ring.append (first ++ second)) := by
  rw [List.length_append] at fits
  have firstFits : ring.activeFill + first.length ≤ size := by omega
  have secondFits : (ring.append first).activeFill + second.length ≤ size := by
    rw [activeFill_append]
    omega
  refine ⟨fill_fits sound first firstFits, ?_⟩
  rw [fill_fits (sound.append first firstFits) second secondFits,
    append_append sound first second firstFits]

theorem block_swap (sound : ring.Sound size) :
    ring.swap.block ring.active = .ok ring.activeBlock.contents := by
  have different : ring.active ≠ ring.swap.active := (other_ne ring.active).symm
  have same : ring.swap.get ring.active = ring.activeBlock := by
    change (ring.set _ _).get ring.active = _
    rw [get_set, if_neg (other_ne ring.active).symm]
    rfl
  rw [block, if_neg different, same, Block.content_eq]
  rw [activeBlock, sound.slots]
  exact sound.filled ring.active

theorem contents_append (sound : ring.Sound size) (samples : List Sample)
    (empty : ring.activeFill = 0) (fits : samples.length ≤ size) :
    (ring.append samples).activeBlock.contents = samples := by
  have room : ring.activeBlock.filled + samples.length ≤ ring.activeBlock.slots.length := by
    rw [activeBlock, sound.slots]
    change ring.activeFill + _ ≤ size
    omega
  have none : ring.activeBlock.contents = [] := by
    change ring.activeBlock.slots.take ring.activeFill = []
    rw [empty, List.take_zero]
  rw [activeBlock_append, Block.contents_append _ _ room, none, List.nil_append]

theorem fillBytes_eq (sound : ring.Sound size) (bytes : List UInt8) :
    ring.fillBytes bytes = ring.fill (Sample.decode bytes) := by
  have all : ring.activeBlock.slots.length = size := sound.slots ring.active
  have filled : ring.activeFill ≤ size := sound.filled ring.active
  have free : (ring.activeBlock.slots.drop ring.activeFill).length = size - ring.activeFill := by
    rw [List.length_drop, all]
  -- Each free slot is paired with a sample, so the pairs are as many as there is room for.
  have written : (((ring.activeBlock.slots.drop ring.activeFill).zip (Sample.decode bytes)).take
      (size - ring.activeFill)).map (·.2) =
      (Sample.decode bytes).take (size - ring.activeFill) := by
    rw [List.zip, List.take_zipWith, ← List.zip, List.map_snd_zip]
    simp only [List.length_take, free]
    omega
  rw [fill_eq sound, fillBytes, sound.blockSize, Checked.sub_ok filled, all,
    Checked.slice_ok filled (Nat.le_of_eq all.symm), List.take_of_length_le (Nat.le_of_eq all)]
  simp only [Checked.ok_bind, written, Checked.pure_eq, List.length_take, List.drop_drop]
  simp only [append, Block.append, List.length_take, Nat.min_comm]
  rfl

theorem writeActive_eq (sound : ring.Sound size) (samples : List Sample) :
    ring.writeActive samples = (ring.activeBlock.slots,
      ring.set ring.active (ring.activeBlock.overwrite samples)) := by
  have all : ring.activeBlock.slots.length = size := sound.slots ring.active
  have rest : ring.activeBlock.slots.drop (min size samples.length) =
      ring.activeBlock.slots.drop samples.length := by
    by_cases long : size ≤ samples.length
    · rw [Nat.min_eq_left long, List.drop_of_length_le (by omega), List.drop_of_length_le (by omega)]
    · rw [Nat.min_eq_right (by omega)]
  simp only [writeActive, Block.overwrite, List.length_take, all, rest, sound.blockSize]

theorem Sound.overwrite (sound : ring.Sound size) (samples : List Sample) :
    (ring.set ring.active (ring.activeBlock.overwrite samples)).Sound size := by
  have all : ring.activeBlock.slots.length = size := sound.slots ring.active
  refine sound.set_active _ ?_ ?_
  · rw [Block.length_slots_overwrite, all]
  · exact Nat.le_of_eq all

theorem Sound.reset (sound : ring.Sound size) : ring.reset.Sound size := by
  refine ⟨sound.blockSize, ?_, ?_⟩
  · intro id
    cases id with
    | a => exact (List.length_map _).trans (sound.slots .a)
    | b => exact (List.length_map _).trans (sound.slots .b)
  · intro id
    cases id with
    | a => exact Nat.zero_le _
    | b => exact Nat.zero_le _

end

end Ring

end BandLight
