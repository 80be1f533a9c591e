import BandLight.Proofs.SampleStream
import Mathlib.Algebra.Order.Ring.Nat

/-! Runs of an analyzer. A driver may fill, overwrite, push and release in any
order and with any block, and a reader may collect or clear what waits. No
operation fails unless it would release more blocks than there are numbers, and
the samples that are written come out as the released blocks, in order, or are
still unreleased. In every state of a run, a stream may be cut into pushes in
any way. -/
namespace BandLight.Analyzer

inductive Operation
  | fill (samples : List Sample)
  | fillBytes (bytes : List UInt8)
  /-- The driver takes the slots of the active block and writes the first of them. -/
  | writeActive (samples : List Sample)
  | push (samples : List Sample)
  | release (id : BlockId)
  | collect
  | clearMailbox
  | resetRing
  | reset
  deriving DecidableEq, Repr, Inhabited

inductive Outcome
  | accepted (samples : Nat)
  | slots (before : List Sample)
  | analysed (analyses : List Analysis)
  | released (analysis : Option Analysis)
  | collected (spectrum : Option Spectrum)
  | done
  deriving DecidableEq, Repr, Inhabited

def Outcome.analyses : Outcome → List Analysis
  | analysed analyses => analyses
  | released analysis => analysis.toList
  | _ => []

def perform (a : Analyzer) : Operation → Checked (Outcome × Analyzer)
  | .fill samples => do
      let (count, ring) ← a.ring.fill samples
      return (.accepted count, { a with ring })
  | .fillBytes bytes => do
      let (count, ring) ← a.ring.fillBytes bytes
      return (.accepted count, { a with ring })
  | .writeActive samples =>
      let (before, ring) := a.ring.writeActive samples
      .ok (.slots before, { a with ring })
  | .push samples => do
      let (analyses, a) ← a.push samples
      return (.analysed analyses, a)
  | .release id => do
      let (analysis, a) ← a.release id
      return (.released analysis, a)
  | .collect =>
      let (spectrum, mailbox) := a.mailbox.collect
      .ok (.collected spectrum, { a with mailbox })
  | .clearMailbox => .ok (.done, { a with mailbox := a.mailbox.clear })
  | .resetRing => .ok (.done, { a with ring := a.ring.reset })
  | .reset => .ok (.done, a.reset)

def trace (a : Analyzer) (operations : List Operation) : Checked (List Outcome × Analyzer) :=
  Checked.trace perform a operations

def due (a : Analyzer) : Operation → Nat
  | .push samples => a.completed samples
  | .release id => if id = a.ring.active then 1 else 0
  | _ => 0

/-- A run comes to an operation that would release more blocks than there are
block numbers. -/
def Exhausts (a : Analyzer) (operations : List Operation) : Prop :=
  ∃ before operation after outcomes b, operations = before ++ operation :: after ∧
    a.trace before = .ok (outcomes, b) ∧ UInt64.size ≤ b.blocksAnalyzed + b.due operation

/-- What is unreleased when an operation has written and before it releases. -/
def written (a : Analyzer) : Operation → List Sample
  | .fill samples => a.unreleased ++ samples.take a.room
  | .fillBytes bytes => a.unreleased ++ (Sample.decode bytes).take a.room
  | .writeActive samples =>
      let slots := a.ring.activeBlock.slots
      samples.take slots.length ++ slots.drop samples.length
  | .push samples => a.unreleased ++ samples
  | .resetRing | .reset => []
  | _ => a.unreleased

/-- What waits in the mailbox unless an operation publishes. -/
def waiting (a : Analyzer) : Operation → Option Spectrum
  | .collect | .clearMailbox | .reset => none
  | _ => a.mailbox.content

structure Performed (size : Nat) (a : Analyzer) (operation : Operation) (outcome : Outcome)
    (b : Analyzer) : Prop where
  sound : b.Sound size
  due : outcome.analyses.length = a.due operation
  counted : b.blocksAnalyzed =
    (if operation = .reset then 0 else a.blocksAnalyzed) + outcome.analyses.length
  mailbox : b.mailbox.content =
    (outcome.analyses.getLast?.map (·.spectrum)).or (a.waiting operation)
  published : ∀ past, a.transform.window = Transform.recent size past →
    Published size past outcome.analyses ∧
      b.transform.window = Transform.recent size
        (if operation = .reset then [] else past ++ outcome.analyses.flatMap (·.block))
  conserved : outcome.analyses.flatMap (·.block) ++ b.unreleased = a.written operation

section
variable {a : Analyzer} {size : Nat}

theorem Analyzes.performed {operation : Operation} {outcome : Outcome} {b : Analyzer}
    (analyzes : Analyzes size a outcome.analyses b)
    (due : outcome.analyses.length = a.due operation)
    (other : operation ≠ .reset) (waiting : a.waiting operation = a.mailbox.content)
    (conserved : outcome.analyses.flatMap (·.block) ++ b.unreleased = a.written operation) :
    Performed size a operation outcome b where
  sound := analyzes.sound
  due := due
  counted := by rw [if_neg other, analyzes.counted]
  mailbox := by rw [waiting, analyzes.mailbox]
  published := by simpa only [if_neg other] using analyzes.published
  conserved := conserved

theorem fill_performed (sound : a.Sound size) (samples : List Sample) (operation : Operation)
    (due : a.due operation = 0) (other : operation ≠ .reset)
    (waiting : a.waiting operation = a.mailbox.content)
    (written : a.written operation = a.unreleased ++ samples.take a.room) :
    ∃ count ring, a.ring.fill samples = .ok (count, ring) ∧
      Performed size a operation (.accepted count) { a with ring } := by
  have fits := fits_room sound samples
  refine ⟨_, _, Ring.fill_eq sound.ring samples, ?_⟩
  rw [← room_eq sound]
  have kept : Sound { a with ring := a.ring.append (samples.take a.room) } size :=
    { sound with ring := sound.ring.append _ fits }
  refine Analyzes.performed (.none kept rfl rfl rfl) due.symm other waiting ?_
  rw [written]
  exact unreleased_append sound _ fits

theorem emptied_performed (sound : a.Sound size) (operation : Operation) (mailbox : Mailbox)
    (kept : mailbox.Sound (size / 2)) (empty : mailbox.content = none)
    {outcome : Outcome} (none : outcome.analyses = []) (due : a.due operation = 0)
    (waiting : a.waiting operation = Option.none) (written : a.written operation = a.unreleased)
    (other : operation ≠ .reset) :
    Performed size a operation outcome { a with mailbox } := by
  refine ⟨{ sound with mailbox := kept }, ?_, ?_, ?_, ?_, ?_⟩
  · rw [none, due, List.length_nil]
  · rw [none, if_neg other, List.length_nil]
    rfl
  · rw [none, empty, waiting]
    rfl
  · intro past window
    rw [none, if_neg other, List.flatMap_nil, List.append_nil]
    exact ⟨trivial, window⟩
  · rw [none, written]
    rfl

theorem push_performed (sound : a.Sound size) (samples : List Sample)
    (unspent : a.blocksAnalyzed + a.due (.push samples) < UInt64.size) :
    ∃ outcome b, a.perform (.push samples) = .ok (outcome, b) ∧
      Performed size a (.push samples) outcome b := by
  obtain ⟨analyses, b, ran, pushed⟩ := push_pushed sound samples unspent
  refine ⟨.analysed analyses, b, ?_, pushed.analyzes.performed pushed.completed nofun rfl
    pushed.conserved⟩
  rw [perform, ran]
  rfl

theorem release_stale (a : Analyzer) (id : BlockId) (stale : id ≠ a.ring.active) :
    a.release id = .ok (none, a) := by
  rw [release, Ring.release, if_neg stale]

theorem release_performed (sound : a.Sound size) (id : BlockId)
    (unspent : a.blocksAnalyzed + a.due (.release id) < UInt64.size) :
    ∃ outcome b, a.perform (.release id) = .ok (outcome, b) ∧
      Performed size a (.release id) outcome b := by
  by_cases active : id = a.ring.active
  · have one : a.due (.release id) = 1 := if_pos active
    rw [one] at unspent
    refine ⟨.released (some a.analyzed.1), a.analyzed.2, ?_,
      (analyzed_analyzes sound).performed one.symm nofun rfl ?_⟩
    · rw [perform, active, release_active sound, if_pos (by exact unspent)]
      rfl
    · have empty : a.analyzed.2.unreleased = [] :=
        unreleased_of_empty (a := a.analyzed.2) (Ring.activeFill_swap _)
      have block : a.analyzed.1.block = a.unreleased := rfl
      simp [Outcome.analyses, empty, block, written]
  · have none : a.due (.release id) = 0 := if_neg active
    refine ⟨.released Option.none, a, ?_, Analyzes.performed (.none sound rfl rfl rfl) none.symm
      nofun rfl rfl⟩
    rw [perform, release_stale a id active]
    rfl

theorem perform_performed (sound : a.Sound size) (operation : Operation)
    (unspent : a.blocksAnalyzed + a.due operation < UInt64.size) :
    ∃ outcome b, a.perform operation = .ok (outcome, b) ∧
      Performed size a operation outcome b := by
  cases operation with
  | fill samples =>
    obtain ⟨count, ring, ran, performed⟩ :=
      fill_performed sound samples (.fill samples) rfl nofun rfl rfl
    refine ⟨_, _, ?_, performed⟩
    rw [perform, ran]
    rfl
  | fillBytes bytes =>
    obtain ⟨count, ring, ran, performed⟩ :=
      fill_performed sound (Sample.decode bytes) (.fillBytes bytes) rfl nofun rfl rfl
    refine ⟨_, _, ?_, performed⟩
    rw [perform, Ring.fillBytes_eq sound.ring, ran]
    rfl
  | writeActive samples =>
    let ring := a.ring.set a.ring.active (a.ring.activeBlock.overwrite samples)
    have kept : Sound { a with ring } size := { sound with ring := sound.ring.overwrite samples }
    refine ⟨.slots a.ring.activeBlock.slots, { a with ring }, ?_,
      Analyzes.performed (.none kept rfl rfl rfl) rfl nofun rfl ?_⟩
    · rw [perform, Ring.writeActive_eq sound.ring]
    · change ring.activeBlock.contents = _
      rw [Ring.activeBlock_set_active, Block.contents_overwrite]
      rfl
  | push samples => exact push_performed sound samples unspent
  | release id => exact release_performed sound id unspent
  | collect =>
    refine ⟨.collected a.mailbox.content, _, ?_, emptied_performed sound .collect
      { a.mailbox with ready := false, hint := false } ⟨sound.mailbox.slot, rfl⟩ rfl rfl rfl rfl rfl
      nofun⟩
    rw [perform, Mailbox.collect_eq a.mailbox sound.mailbox.hint]
  | clearMailbox =>
    exact ⟨.done, _, rfl, emptied_performed sound .clearMailbox _ sound.mailbox.clear rfl rfl rfl
      rfl rfl nofun⟩
  | resetRing =>
    have kept : Sound { a with ring := a.ring.reset } size :=
      { sound with ring := sound.ring.reset }
    exact ⟨.done, _, rfl, Analyzes.performed (.none kept rfl rfl rfl) rfl nofun rfl
      (unreleased_of_empty (a := { a with ring := a.ring.reset }) rfl)⟩
  | reset =>
    have silent : a.transform.reset.window = Transform.recent size [] := by
      rw [Transform.recent_nil, ← sound.window]
      exact List.map_const'
    have kept : a.reset.Sound size :=
      { supported := sound.supported
        ring := sound.ring.reset
        blockSize := sound.blockSize
        window := by rw [reset, silent, Transform.length_recent]
        spectrum := sound.spectrum
        mailbox := sound.mailbox.clear }
    exact ⟨.done, a.reset, rfl, kept, rfl, rfl, rfl, fun _ _ => ⟨trivial, silent⟩,
      unreleased_of_empty (a := a.reset) rfl⟩

theorem perform_spent (sound : a.Sound size) (counted : a.blocksAnalyzed < UInt64.size) (operation : Operation)
    (spent : UInt64.size ≤ a.blocksAnalyzed + a.due operation) :
    a.perform operation = .error .overflow := by
  cases operation with
  | push samples =>
    rw [perform, push_spent sound samples counted spent]
    rfl
  | release id =>
    by_cases active : id = a.ring.active
    · have one : a.due (.release id) = 1 := if_pos active
      rw [one] at spent
      rw [perform, active, release_active sound, if_neg (by unfold Unspent; omega)]
      rfl
    · have none : a.due (.release id) = 0 := if_neg active
      rw [none] at spent
      omega
  | _ => exact absurd spent (Nat.not_le.mpr counted)

theorem performed_of_perform (sound : a.Sound size) (counted : a.blocksAnalyzed < UInt64.size)
    (operation : Operation) (outcome : Outcome)
    (b : Analyzer) (ran : a.perform operation = .ok (outcome, b)) :
    Performed size a operation outcome b ∧ b.blocksAnalyzed < UInt64.size := by
  by_cases unspent : a.blocksAnalyzed + a.due operation < UInt64.size
  · obtain ⟨other, c, same, performed⟩ := perform_performed sound operation unspent
    rw [ran] at same
    cases same
    refine ⟨performed, ?_⟩
    rw [performed.counted, performed.due]
    split
    · omega
    · exact unspent
  · rw [perform_spent sound counted operation (Nat.not_lt.mp unspent)] at ran
    cases ran

end

def released (operations : List Operation) (outcomes : List Outcome) : List (List Sample) :=
  (operations.zip outcomes).foldl (fun blocks entry =>
    if entry.1 = .reset then [] else blocks ++ entry.2.analyses.map (·.block)) []

def Operation.most : Operation → Nat
  | .push samples => samples.length + 1
  | .release _ => 1
  | _ => 0

structure History (size : Nat) (operations : List Operation) (outcomes : List Outcome)
    (b : Analyzer) : Prop where
  sound : b.Sound size
  fewer : b.blocksAnalyzed < UInt64.size
  most : b.blocksAnalyzed ≤ (operations.map Operation.most).sum
  counted : b.blocksAnalyzed = (released operations outcomes).length
  window : b.transform.window = Transform.recent size (released operations outcomes).flatten

theorem released_snoc (operations : List Operation) (outcomes : List Outcome)
    (operation : Operation) (outcome : Outcome) (same : outcomes.length = operations.length) :
    released (operations ++ [operation]) (outcomes ++ [outcome]) =
      if operation = .reset then []
      else released operations outcomes ++ outcome.analyses.map (·.block) := by
  rw [released, List.zip_append same.symm, List.foldl_append]
  rfl

section
variable {a b : Analyzer} {size : Nat}

theorem due_le (sound : a.Sound size) (operation : Operation) : a.due operation ≤ operation.most := by
  cases operation with
  | push samples =>
    have filled : a.ring.activeFill ≤ size := sound.ring.filled a.ring.active
    change a.completed samples ≤ samples.length + 1
    rw [completed, sound.ring.blockSize]
    split
    · exact Nat.zero_le _
    · rcases Nat.eq_zero_or_pos size with zero | positive
      · rw [zero, Nat.div_zero]
        exact Nat.zero_le _
      · have longer := Nat.le_mul_of_pos_left samples.length positive
        apply Nat.div_le_of_le_mul
        rw [Nat.mul_add, Nat.mul_one]
        omega
  | release id =>
    change (if id = a.ring.active then 1 else 0) ≤ 1
    split
    · exact Nat.le_refl _
    · exact Nat.zero_le _
  | _ => exact Nat.le_refl _

theorem trace_history (configured : configure size = .ok a) (operations : List Operation)
    (outcomes : List Outcome) (ran : a.trace operations = .ok (outcomes, b)) :
    History size operations outcomes b := by
  obtain ⟨-, shape⟩ := configure_success size a configured
  have silent : a.transform.window = Transform.recent size [] := by
    rw [shape, Transform.recent_nil]
  obtain ⟨sound, -, zero⟩ := configure_sound size a configured
  refine Checked.trace_induction perform (History size) a ?_ ?_ operations outcomes b ran
  · exact ⟨sound, by rw [zero]; decide, by rw [zero]; exact Nat.zero_le _, zero, silent⟩
  -- What the operation releases is put behind what was released before, or starts anew.
  intro operations outcomes b operation outcome c ran history performed
  obtain ⟨step, fewer⟩ :=
    performed_of_perform history.sound history.fewer operation outcome c performed
  obtain ⟨_, window⟩ := step.published _ history.window
  have bound := due_le history.sound operation
  have earlier := history.most
  have counted := step.counted
  rw [← step.due] at bound
  have same : outcomes.length = operations.length := Checked.length_trace perform _ _ _ _ ran
  refine ⟨step.sound, fewer, ?_, ?_, ?_⟩
  · rw [List.map_append, List.sum_append, List.map_singleton, List.sum_singleton]
    split at counted
    · omega
    · omega
  · rw [released_snoc _ _ _ _ same, counted, history.counted]
    by_cases reset : operation = .reset
    · subst reset
      rw [step.due]
      rfl
    · rw [if_neg reset, if_neg reset, List.length_append, List.length_map]
  · rw [window, released_snoc _ _ _ _ same]
    split
    · rfl
    · rw [List.flatten_append, List.flatMap_def]

theorem Exhausts.append {operations : List Operation} (exhausts : a.Exhausts operations)
    (others : List Operation) : a.Exhausts (operations ++ others) := by
  obtain ⟨before, operation, after, outcomes, b, rfl, ran, spent⟩ := exhausts
  exact ⟨before, operation, after ++ others, outcomes, b, by simp, ran, spent⟩

/-- Only block numbers can run out. -/
theorem trace_complete (configured : configure size = .ok a) (operations : List Operation) :
    a.Exhausts operations ∨ ∃ outcomes b, a.trace operations = .ok (outcomes, b) := by
  induction operations using List.reverseRecOn with
  | nil => exact .inr ⟨[], a, rfl⟩
  | append_singleton operations operation ih =>
    rcases ih with exhausts | ⟨outcomes, b, ran⟩
    · exact .inl (exhausts.append [operation])
    · have history := trace_history configured operations outcomes ran
      by_cases unspent : b.blocksAnalyzed + b.due operation < UInt64.size
      · obtain ⟨outcome, c, performed, -⟩ :=
          perform_performed history.sound operation unspent
        have whole :=
          Checked.trace_snoc_success perform a operations operation outcomes b outcome c ran performed
        exact .inr ⟨_, c, whole⟩
      · exact .inl ⟨operations, operation, [], outcomes, b, rfl, ran, Nat.not_lt.mp unspent⟩

theorem not_exhausts_of_most (configured : configure size = .ok a) (operations : List Operation)
    (few : (operations.map Operation.most).sum < UInt64.size) : ¬ a.Exhausts operations := by
  intro ⟨before, operation, after, outcomes, b, same, ran, spent⟩
  have history := trace_history configured before outcomes ran
  have most := history.most
  have last := due_le history.sound operation
  rw [same, List.map_append, List.sum_append, List.map_cons, List.sum_cons] at few
  omega

end

def Reached (size : Nat) (a : Analyzer) : Prop :=
  ∃ first operations outcomes, configure size = .ok first ∧
    first.trace operations = .ok (outcomes, a)

theorem Reached.sound {size : Nat} {a : Analyzer} (reached : Reached size a) :
    a.Sound size ∧ a.blocksAnalyzed < UInt64.size := by
  obtain ⟨first, operations, outcomes, configured, ran⟩ := reached
  have history := trace_history configured operations outcomes ran
  exact ⟨history.sound, history.fewer⟩

/-- However a run has left the ring, a stream that comes in pieces is analysed
like the whole of it: the same analyses, of which there are as many, and the same
analyzer. A push does not fail as long as there are numbers for its blocks. -/
theorem chunking_unobservable {size : Nat} {a : Analyzer} (configured : configure size = .ok a)
    (operations : List Operation) :
    a.Exhausts operations ∨ ∃ outcomes b, a.trace operations = .ok (outcomes, b) ∧
      (∀ first second, b.push (first ++ second) = do
        let (analyses, c) ← b.push first
        let (others, d) ← c.push second
        return (analyses ++ others, d)) ∧
      (∀ chunks : List (List Sample), b.push chunks.flatten =
        (Checked.trace push b chunks).map fun run => (run.1.flatten, run.2)) ∧
      (∀ samples, b.blocksAnalyzed + b.completed samples < UInt64.size →
        ∃ analyses c, b.push samples = .ok (analyses, c) ∧
          analyses.length = b.completed samples) := by
  rcases trace_complete configured operations with exhausts | ⟨outcomes, b, ran⟩
  · exact .inl exhausts
  · have history := trace_history configured operations outcomes ran
    refine .inr ⟨outcomes, b, ran, push_append history.sound,
      push_flatten history.sound history.fewer, ?_⟩
    intro samples unspent
    obtain ⟨analyses, c, pushed, made⟩ := push_pushed history.sound samples unspent
    exact ⟨analyses, c, pushed, made.completed⟩

theorem chunking_unobservable_full_block : ∃ a outcomes b, configure 32 = .ok a ∧
    a.trace [.writeActive [1200, -700]] = .ok (outcomes, b) ∧
    b.push ([] ++ [5, 6]) = do
      let (analyses, c) ← b.push []
      let (others, d) ← c.push [5, 6]
      return (analyses ++ others, d) := by
  obtain ⟨a, configured⟩ : ∃ a, configure 32 = .ok a := ⟨_, rfl⟩
  rcases chunking_unobservable configured [.writeActive [1200, -700]] with
    exhausts | ⟨outcomes, b, ran, split, -⟩
  · exact absurd exhausts (not_exhausts_of_most configured _ (by decide))
  · exact ⟨a, outcomes, b, configured, ran, split [] [5, 6]⟩

end BandLight.Analyzer
