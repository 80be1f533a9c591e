import BandLight.Proofs.RingContents

/-! Runs of a ring. A writer may fill and overwrite the active block and release
either block in any order. No operation fails, and as long as nothing is
overwritten the blocks that are handed out, with what the active block holds, are
the samples that were accepted, in order. -/
namespace BandLight.Ring

inductive Operation
  | fill (samples : List Sample)
  | fillBytes (bytes : List UInt8)
  /-- The writer takes the slots of the active block and writes the first of them. -/
  | writeActive (samples : List Sample)
  | release (id : BlockId)
  | reset
  deriving DecidableEq, Repr, Inhabited

inductive Outcome
  | accepted (samples : Nat)
  | slots (before : List Sample)
  | released (id : BlockId) (samples : List Sample)
  | stale
  | done
  deriving DecidableEq, Repr, Inhabited

def perform (ring : Ring) : Operation → Checked (Outcome × Ring)
  | .fill samples => do
      let (count, ring) ← ring.fill samples
      return (.accepted count, ring)
  | .fillBytes bytes => do
      let (count, ring) ← ring.fillBytes bytes
      return (.accepted count, ring)
  | .writeActive samples =>
      let (before, ring) := ring.writeActive samples
      .ok (.slots before, ring)
  | .release id =>
      match ring.release id with
      | (none, ring) => .ok (.stale, ring)
      | (some id, ring) => do
          let samples ← ring.block id
          return (.released id samples, ring)
  | .reset => .ok (.done, ring.reset)

def trace (ring : Ring) (operations : List Operation) : Checked (List Outcome × Ring) :=
  Checked.trace perform ring operations

def Operation.input? : Operation → Option (List Sample)
  | fill samples => some samples
  | fillBytes bytes => some (Sample.decode bytes)
  | _ => none

/-- Nothing is overwritten and nothing is forgotten. -/
def Operation.Streams : Operation → Prop
  | writeActive _ | reset => False
  | _ => True

def Operation.accepted (operation : Operation) : Outcome → List Sample
  | .accepted count => (operation.input?.getD []).take count
  | _ => []

def Outcome.handed : Outcome → List Sample
  | released _ samples => samples
  | _ => []

def Outcome.id? : Outcome → Option BlockId
  | released id _ => some id
  | _ => none

def accepted (operations : List Operation) (outcomes : List Outcome) : List Sample :=
  (operations.zip outcomes).flatMap fun step => step.1.accepted step.2

def Reached (memory size : Nat) (ring : Ring) : Prop :=
  ∃ first operations outcomes, configure memory size = .ok first ∧
    first.trace operations = .ok (outcomes, ring)

/-- A ring that was just configured, or just reset after any operations. -/
inductive Starts (size : Nat) : Ring → Prop
  | configured (memory : Nat) (ring : Ring) (ok : configure memory size = .ok ring) :
      Starts size ring
  | reset (memory : Nat) (ring : Ring) (reached : Reached memory size ring) :
      Starts size ring.reset

inductive Moved (size : Nat) (ring : Ring) : Operation → Outcome → Ring → Prop
  | filled (operation : Operation) (input : List Sample) (brought : operation.input? = some input) :
      Moved size ring operation (.accepted (min input.length (size - ring.activeFill)))
        (ring.append (input.take (size - ring.activeFill)))
  | overwritten (samples : List Sample) :
      Moved size ring (.writeActive samples) (.slots ring.activeBlock.slots)
        (ring.set ring.active (ring.activeBlock.overwrite samples))
  | released : Moved size ring (.release ring.active)
      (.released ring.active ring.activeBlock.contents) ring.swap
  | stale (id : BlockId) (other : id ≠ ring.active) : Moved size ring (.release id) .stale ring
  | forgotten : Moved size ring .reset .done ring.reset

section
variable {ring next last : Ring} {memory size : Nat} {operation : Operation} {outcome : Outcome}

theorem release_stale (ring : Ring) (id : BlockId) (other : id ≠ ring.active) :
    ring.release id = (none, ring) := if_neg other

theorem perform_moved (sound : ring.Sound size) (operation : Operation) :
    ∃ outcome next, ring.perform operation = .ok (outcome, next) ∧
      Moved size ring operation outcome next := by
  cases operation with
  | fill samples =>
    refine ⟨_, _, ?_, .filled (.fill samples) samples rfl⟩
    rw [perform, fill_eq sound]
    rfl
  | fillBytes bytes =>
    refine ⟨_, _, ?_, .filled (.fillBytes bytes) (Sample.decode bytes) rfl⟩
    rw [perform, fillBytes_eq sound, fill_eq sound]
    rfl
  | writeActive samples =>
    refine ⟨_, _, ?_, .overwritten samples⟩
    rw [perform, writeActive_eq sound]
  | release id =>
    by_cases active : id = ring.active
    · subst active
      refine ⟨_, _, ?_, .released⟩
      rw [perform, release_active]
      simp only [block_swap sound, Checked.ok_bind, Checked.pure_eq]
    · refine ⟨_, _, ?_, .stale id active⟩
      rw [perform, release_stale ring id active]
  | reset => exact ⟨_, _, rfl, .forgotten⟩

theorem Moved.sound (moved : Moved size ring operation outcome next) (sound : ring.Sound size) :
    next.Sound size := by
  cases moved with
  | filled _ input _ =>
    have filled : ring.activeFill ≤ size := sound.filled ring.active
    apply sound.append
    rw [List.length_take]
    omega
  | overwritten samples => exact sound.overwrite samples
  | released => exact sound.swap
  | stale other => exact sound
  | forgotten => exact sound.reset

theorem moved_of_perform (sound : ring.Sound size)
    (performed : ring.perform operation = .ok (outcome, next)) :
    Moved size ring operation outcome next := by
  obtain ⟨other, after, same, moved⟩ := perform_moved sound operation
  rw [performed] at same
  cases same
  exact moved

theorem trace_total (sound : ring.Sound size) (operations : List Operation) :
    ∃ outcomes last, ring.trace operations = .ok (outcomes, last) := by
  induction operations generalizing ring with
  | nil => exact ⟨[], ring, rfl⟩
  | cons operation operations ih =>
    obtain ⟨outcome, next, performed, moved⟩ := perform_moved sound operation
    obtain ⟨outcomes, last, ran⟩ := ih (moved.sound sound)
    refine ⟨outcome :: outcomes, last, ?_⟩
    rw [trace, Checked.trace_cons_eq perform _ _ _ _ _ performed]
    exact congrArg (Except.map _) ran

theorem trace_sound (sound : ring.Sound size) (operations : List Operation)
    (outcomes : List Outcome) (ran : ring.trace operations = .ok (outcomes, last)) :
    last.Sound size := by
  refine Checked.trace_induction perform (fun _ _ state => state.Sound size) ring sound ?_
    operations outcomes last ran
  intro _ _ state operation outcome next _ sound performed
  exact (moved_of_perform sound performed).sound sound

theorem configure_success (configured : configure memory size = .ok ring) :
    ring = { blockA := .zeroed size, blockB := .zeroed size, active := .a, blockSize := size } := by
  unfold configure at configured
  split at configured
  · cases configured
  split at configured
  · cases configured
  · cases configured
    rfl

theorem configure_fresh (configured : configure memory size = .ok ring) :
    ring.Sound size ∧ ring.active = .a ∧ ring.activeFill = 0 := by
  obtain rfl := configure_success configured
  refine ⟨⟨rfl, ?_, ?_⟩, rfl, rfl⟩
  · rintro (_ | _) <;> exact List.length_replicate
  · rintro (_ | _) <;> exact Nat.zero_le _

theorem Reached.sound (reached : Reached memory size ring) : ring.Sound size := by
  obtain ⟨first, operations, outcomes, configured, ran⟩ := reached
  exact trace_sound (configure_fresh configured).1 operations outcomes ran

theorem Starts.fresh (starts : Starts size ring) :
    ring.Sound size ∧ ring.active = .a ∧ ring.activeFill = 0 := by
  cases starts with
  | configured memory _ ok => exact configure_fresh ok
  | reset memory ring reached => exact ⟨reached.sound.reset, rfl, rfl⟩

end

/-- The block whose turn it is when so many have been handed out. -/
def turn (count : Nat) : BlockId := if count % 2 = 0 then .a else .b

theorem other_turn (count : Nat) : (turn count).other = turn (count + 1) := by
  unfold turn
  rcases Nat.mod_two_eq_zero_or_one count with even | odd
  · rw [if_pos even, if_neg (by omega)]
    rfl
  · rw [if_neg (by omega), if_pos (by omega)]
    rfl

structure Conserves (size : Nat) (operations : List Operation) (outcomes : List Outcome)
    (last : Ring) : Prop where
  sound : last.Sound size
  conserved : outcomes.flatMap (·.handed) ++ last.activeBlock.contents =
    accepted operations outcomes
  active : last.active = turn (outcomes.filterMap (·.id?)).length
  alternate : outcomes.filterMap (·.id?) =
    (List.range (outcomes.filterMap (·.id?)).length).map turn

section
variable {ring next last : Ring} {size : Nat} {operations : List Operation}
  {outcomes : List Outcome} {operation : Operation} {outcome : Outcome}

theorem accepted_snoc (operations : List Operation) (outcomes : List Outcome)
    (operation : Operation) (outcome : Outcome) (same : outcomes.length = operations.length) :
    accepted (operations ++ [operation]) (outcomes ++ [outcome]) =
      accepted operations outcomes ++ operation.accepted outcome := by
  rw [accepted, List.zip_append same.symm, List.flatMap_append]
  simp [accepted]

theorem contents_of_empty (empty : ring.activeFill = 0) : ring.activeBlock.contents = [] := by
  change ring.activeBlock.slots.take ring.activeFill = []
  rw [empty, List.take_zero]

theorem Conserves.snoc (conserves : Conserves size operations outcomes ring)
    (same : outcomes.length = operations.length) (moved : Moved size ring operation outcome next)
    (streams : operation.Streams) :
    Conserves size (operations ++ [operation]) (outcomes ++ [outcome]) next := by
  have later := moved.sound conserves.sound
  have before := conserves.conserved
  have added := accepted_snoc operations outcomes operation outcome same
  cases moved with
  | filled _ input brought =>
    have room : ring.activeBlock.filled + (input.take (size - ring.activeFill)).length ≤
        ring.activeBlock.slots.length := by
      have filled : ring.activeFill ≤ size := conserves.sound.filled ring.active
      have slots : ring.activeBlock.slots.length = size := conserves.sound.slots ring.active
      rw [slots, List.length_take]
      change ring.activeFill + _ ≤ size
      omega
    have taken : input.take (min input.length (size - ring.activeFill)) =
        input.take (size - ring.activeFill) := by
      rw [Nat.min_comm, List.take_eq_take_min (i := size - ring.activeFill)]
    refine ⟨later, ?_, ?_, ?_⟩
    · rw [added, ← before, activeBlock_append, Block.contents_append _ _ room]
      simp [Outcome.handed, Operation.accepted, brought, taken]
    · simpa [Outcome.id?] using conserves.active
    · simpa [Outcome.id?] using conserves.alternate
  | overwritten samples => exact streams.elim
  | released =>
    have counted : (outcomes ++ [Outcome.released ring.active ring.activeBlock.contents]).filterMap
        (·.id?) = outcomes.filterMap (·.id?) ++ [ring.active] := by
      simp [Outcome.id?]
    refine ⟨later, ?_, ?_, ?_⟩
    · rw [added, ← before, contents_of_empty (activeFill_swap ring)]
      simp [Outcome.handed, Operation.accepted]
    · rw [counted, List.length_append, List.length_singleton, ← other_turn, ← conserves.active]
      rfl
    · rw [counted, List.length_append, List.length_singleton, List.range_succ, List.map_append,
        ← conserves.alternate, List.map_singleton, ← conserves.active]
  | stale id other =>
    refine ⟨later, ?_, ?_, ?_⟩
    · rw [added, ← before]
      simp [Outcome.handed, Operation.accepted]
    · simpa [Outcome.id?] using conserves.active
    · simpa [Outcome.id?] using conserves.alternate
  | forgotten => exact streams.elim

theorem trace_conserves (starts : Starts size ring) (operations : List Operation)
    (streams : ∀ operation ∈ operations, operation.Streams) (outcomes : List Outcome)
    (ran : ring.trace operations = .ok (outcomes, last)) :
    Conserves size operations outcomes last := by
  obtain ⟨sound, active, empty⟩ := starts.fresh
  refine Checked.trace_induction perform
    (fun operations outcomes state => (∀ operation ∈ operations, operation.Streams) →
      Conserves size operations outcomes state) ring ?_ ?_ operations outcomes last ran streams
  · exact fun _ => ⟨sound, contents_of_empty empty, active, rfl⟩
  · intro operations outcomes state operation outcome next ran conserves performed streams
    have before := conserves fun other member => streams other (List.mem_append_left _ member)
    exact before.snoc (Checked.length_trace perform _ _ _ _ ran)
      (moved_of_perform before.sound performed) (streams operation (by simp))

end

/-- What the operations do to a ring, whatever is asked of it next. -/
structure Admits (size : Nat) (ring : Ring) : Prop where
  fill : ∀ samples, ∃ next,
    ring.fill samples = .ok (min samples.length (size - ring.activeFill), next)
  fillBytes : ∀ bytes, ∃ next, ring.fillBytes bytes =
    .ok (min (Sample.decode bytes).length (size - ring.activeFill), next)
  released : ∀ id, (ring.release id).1 = if id = ring.active then some id else none
  stale : ∀ id, id ≠ ring.active → ring.release id = (none, ring)

theorem Sound.admits {ring : Ring} {size : Nat} (sound : ring.Sound size) : Admits size ring := by
  refine ⟨fun samples => ⟨_, fill_eq sound samples⟩,
    fun bytes => ⟨_, (fillBytes_eq sound bytes).trans (fill_eq sound _)⟩, ?_, release_stale ring⟩
  intro id
  by_cases active : id = ring.active
  · rw [active, release_active, if_pos rfl]
  · rw [release_stale ring id active, if_neg active]

/-- A ring that is filled and released in any order, by any names, hands out what
it accepted: the blocks in turn, and after them what is in the active block. -/
theorem conserves_samples {size : Nat} {ring : Ring} (starts : Starts size ring)
    (operations : List Operation) (streams : ∀ operation ∈ operations, operation.Streams) :
    ∃ outcomes last, ring.trace operations = .ok (outcomes, last) ∧
      outcomes.flatMap (·.handed) ++ last.activeBlock.contents = accepted operations outcomes ∧
      outcomes.filterMap (·.id?) = (List.range (outcomes.filterMap (·.id?)).length).map turn ∧
      last.active = turn (outcomes.filterMap (·.id?)).length ∧ Admits size last := by
  obtain ⟨outcomes, last, ran⟩ := trace_total starts.fresh.1 operations
  have conserves := trace_conserves starts operations streams outcomes ran
  exact ⟨outcomes, last, ran, conserves.conserved, conserves.alternate, conserves.active,
    conserves.sound.admits⟩

theorem conserves_samples_of_two_slots : ∃ ring, configure 4 2 = .ok ring ∧
    (∀ operation ∈ [Operation.fill [1, 2, 3], .release .b, .release .a, .fillBytes [4, 0, 5]],
      operation.Streams) ∧
    ∃ outcomes last, ring.trace [.fill [1, 2, 3], .release .b, .release .a,
        .fillBytes [4, 0, 5]] = .ok (outcomes, last) ∧
      outcomes.flatMap (·.handed) ++ last.activeBlock.contents = [1, 2, 4] := by
  obtain ⟨ring, configured⟩ : ∃ ring, configure 4 2 = .ok ring := ⟨_, rfl⟩
  have streams : ∀ operation ∈ [Operation.fill [1, 2, 3], .release .b, .release .a,
      .fillBytes [4, 0, 5]], operation.Streams := by
    simp [Operation.Streams]
  obtain ⟨outcomes, last, ran, conserved, -⟩ :=
    conserves_samples (.configured 4 ring configured) _ streams
  refine ⟨ring, configured, streams, outcomes, last, ran, ?_⟩
  rw [conserved]
  cases configured
  cases ran
  rfl

end BandLight.Ring
