import BandLight.Proofs.BlockAnalysis

/-! Samples that stream through an analyzer. They fill up the active block and
then one block after the other, each of which is analysed when its last sample
comes in; the samples of the last block that are too few wait in the ring. How a
stream is cut into pushes makes no difference. -/
namespace BandLight

namespace Analyzer

/-- The samples that were written since the last release. -/
def unreleased (a : Analyzer) : List Sample := a.ring.activeBlock.contents

def room (a : Analyzer) : Nat := a.ring.blockSize - a.ring.activeFill

def completed (a : Analyzer) (samples : List Sample) : Nat :=
  if samples = [] then 0 else (a.ring.activeFill + samples.length) / a.ring.blockSize

/-- Each analysis shows the last samples up to and with its own block. -/
def Published (size : Nat) : List Sample → List Analysis → Prop
  | _, [] => True
  | past, analysis :: analyses =>
      analysis.spectrum = Transform.spectrumOf (Transform.recent size (past ++ analysis.block)) ∧
        Published size (past ++ analysis.block) analyses

/-- What some analyses make of an analyzer, apart from its ring. -/
structure Analyzes (size : Nat) (a : Analyzer) (analyses : List Analysis) (b : Analyzer) : Prop where
  sound : b.Sound size
  counted : b.blocksAnalyzed = a.blocksAnalyzed + analyses.length
  mailbox : b.mailbox.content = (analyses.getLast?.map (·.spectrum)).or a.mailbox.content
  published : ∀ past, a.transform.window = Transform.recent size past →
    Published size past analyses ∧
      b.transform.window = Transform.recent size (past ++ analyses.flatMap (·.block))

theorem Published.append {size : Nat} {past : List Sample} {first second : List Analysis}
    (before : Published size past first)
    (after : Published size (past ++ first.flatMap (·.block)) second) :
    Published size past (first ++ second) := by
  induction first generalizing past with
  | nil => simpa using after
  | cons analysis first ih =>
    refine ⟨before.1, ih before.2 ?_⟩
    simpa using after

section
variable {a b c : Analyzer} {size : Nat}

theorem Analyzes.none (sound : b.Sound size) (transform : b.transform = a.transform)
    (mailbox : b.mailbox = a.mailbox) (counted : b.blocksAnalyzed = a.blocksAnalyzed) :
    Analyzes size a [] b := by
  refine ⟨sound, counted, ?_, ?_⟩
  · rw [mailbox]
    rfl
  · intro past window
    rw [transform, List.flatMap_nil, List.append_nil]
    exact ⟨trivial, window⟩

theorem Analyzes.trans {first second : List Analysis} (before : Analyzes size a first b)
    (after : Analyzes size b second c) : Analyzes size a (first ++ second) c := by
  refine ⟨after.sound, ?_, ?_, ?_⟩
  · rw [after.counted, before.counted, List.length_append, Nat.add_assoc]
  · rw [after.mailbox, before.mailbox, List.getLast?_append]
    cases second.getLast? with
    | none => rfl
    | some analysis => rfl
  · intro past window
    obtain ⟨shown, slid⟩ := before.published past window
    obtain ⟨later, last⟩ := after.published _ slid
    rw [List.flatMap_append, ← List.append_assoc]
    exact ⟨shown.append later, last⟩

theorem length_unreleased_le (sound : a.ring.Sound size) : a.unreleased.length ≤ size := by
  have filled : a.ring.activeFill ≤ size := sound.filled a.ring.active
  exact Nat.le_trans (List.length_take_le _ _) filled

theorem analyzed_analyzes (sound : a.Sound size) :
    Analyzes size a [a.analyzed.1] a.analyzed.2 := by
  refine ⟨analyzed_sound sound, rfl, rfl, fun past window => ?_⟩
  have slid := a.transform.window_slid past a.unreleased (by rw [sound.blockSize]; exact window)
  rw [sound.blockSize, List.take_of_length_le (length_unreleased_le sound.ring)] at slid
  have block : [a.analyzed.1].flatMap (·.block) = a.unreleased := List.append_nil _
  rw [block]
  exact ⟨⟨congrArg Transform.spectrumOf slid, trivial⟩, slid⟩

theorem room_eq (sound : a.Sound size) : a.room = size - a.ring.activeFill := by
  rw [room, sound.ring.blockSize]

theorem fits_room (sound : a.Sound size) (samples : List Sample) :
    a.ring.activeFill + (samples.take a.room).length ≤ size := by
  have filled : a.ring.activeFill ≤ size := sound.ring.filled a.ring.active
  rw [List.length_take, room_eq sound]
  omega

theorem pushOnce_short (sound : a.Sound size) (samples : List Sample)
    (short : a.ring.activeFill + samples.length < size) :
    a.pushOnce samples = .ok ([], [], { a with ring := a.ring.append samples }) := by
  have open_ : (a.ring.append samples).isActiveFull = false := by
    rw [Ring.isActiveFull, Ring.activeFill_append, (sound.ring.append samples (by omega)).blockSize]
    exact decide_eq_false (by omega)
  unfold pushOnce
  rw [Ring.fill_fits sound.ring samples (by omega)]
  simp only [Checked.ok_bind, Checked.slice_last (Nat.le_refl _), open_, Bool.false_eq_true, if_false,
    List.drop_length, Checked.pure_eq]

theorem pushOnce_full (sound : a.Sound size) (samples : List Sample)
    (full : size ≤ a.ring.activeFill + samples.length) :
    a.pushOnce samples = if a.Unspent then
        .ok ([(a.absorb (samples.take a.room)).1], samples.drop a.room,
          (a.absorb (samples.take a.room)).2)
      else .error .overflow := by
  have space := room_eq sound
  have fits := fits_room sound samples
  have taken : (samples.take a.room).length = size - a.ring.activeFill := by
    rw [List.length_take, space]
    omega
  have closed : (a.ring.append (samples.take a.room)).isActiveFull = true := by
    rw [Ring.isActiveFull, Ring.activeFill_append, (sound.ring.append _ fits).blockSize, taken]
    exact decide_eq_true (by omega)
  have released := release_absorb sound (samples.take a.room) fits
  have rest : Checked.slice samples a.room samples.length = .ok (samples.drop a.room) :=
    Checked.slice_last (by omega)
  unfold pushOnce
  rw [Ring.fill_eq sound.ring, ← space, Nat.min_eq_right (by omega)]
  simp only [Checked.ok_bind, rest, closed, if_true, Ring.active_append, released]
  exact Checked.ite_bind a.Unspent _ _ _

/-- A first round may take no sample, when it finds the block full; every other
takes one. So many rounds are as good as any greater number. -/
theorem pushRounds_enough (sound : a.Sound size) (samples : List Sample)
    (rounds others : Nat)
    (enough : samples.length + (if size ≤ a.ring.activeFill then 1 else 0) ≤ rounds)
    (more : samples.length + (if size ≤ a.ring.activeFill then 1 else 0) ≤ others) :
    pushRounds rounds a samples = pushRounds others a samples := by
  have positive := sound.positive
  induction rounds generalizing a samples others with
  | zero =>
    have none : samples = [] := List.eq_nil_of_length_eq_zero (by omega)
    rw [none, pushRounds, pushRounds]
  | succ rounds ih =>
    cases samples with
    | nil => rw [pushRounds, pushRounds]
    | cons sample samples =>
      obtain ⟨others, rfl⟩ : ∃ n, others = n + 1 := ⟨others - 1, by simp at more; omega⟩
      rw [pushRounds, pushRounds]
      by_cases short : a.ring.activeFill + (sample :: samples).length < size
      · rw [pushOnce_short sound _ short]
        simp only [Checked.ok_bind, pushRounds]
      · rw [pushOnce_full sound _ (by omega)]
        split
        · have space := room_eq sound
          have fits := fits_room sound (sample :: samples)
          have fresh := activeFill_absorb a ((sample :: samples).take a.room)
          have fewer : ((sample :: samples).drop a.room).length ≤ rounds ∧
              ((sample :: samples).drop a.room).length ≤ others := by
            rw [List.length_drop]
            by_cases closed : size ≤ a.ring.activeFill
            · rw [if_pos closed] at enough more
              omega
            · rw [if_neg closed] at enough more
              omega
          have same := ih (absorb_sound sound _ fits) ((sample :: samples).drop a.room) others
            (by rw [fresh, if_neg (by omega)]; omega) (by rw [fresh, if_neg (by omega)]; omega)
          simp only [Checked.ok_bind, same]
        · rfl

theorem push_nil (a : Analyzer) : a.push [] = .ok ([], a) := by
  rw [push, pushRounds]

theorem push_short (sound : a.Sound size) (samples : List Sample)
    (short : a.ring.activeFill + samples.length < size) :
    a.push samples = .ok ([], { a with ring := a.ring.append samples }) := by
  cases samples with
  | nil => rw [push_nil, Ring.append_nil]
  | cons sample samples =>
    rw [push, pushRounds, pushOnce_short sound _ short]
    simp only [Checked.ok_bind, pushRounds]
    rfl

theorem push_full (sound : a.Sound size) (samples : List Sample)
    (nonempty : samples ≠ []) (full : size ≤ a.ring.activeFill + samples.length) :
    a.push samples = if a.Unspent then do
        let (others, b) ← (a.absorb (samples.take a.room)).2.push (samples.drop a.room)
        return ((a.absorb (samples.take a.room)).1 :: others, b)
      else .error .overflow := by
  have positive := sound.positive
  cases samples with
  | nil => exact absurd rfl nonempty
  | cons sample samples =>
    have fresh := activeFill_absorb a ((sample :: samples).take a.room)
    have fewer : ((sample :: samples).drop a.room).length ≤ (sample :: samples).length := by
      rw [List.length_drop]
      omega
    have same := pushRounds_enough (absorb_sound sound _ (fits_room sound _))
      ((sample :: samples).drop a.room) (sample :: samples).length
      (((sample :: samples).drop a.room).length + 1)
      (by rw [fresh, if_neg (by omega)]; omega) (by rw [fresh, if_neg (by omega)]; omega)
    rw [push, pushRounds, pushOnce_full sound _ full]
    split
    · simp only [Checked.ok_bind, same]
      rfl
    · rfl

/-- Induction along the blocks that a stream completes. -/
@[elab_as_elim]
theorem stream_induction {motive : Analyzer → List Sample → Prop}
    (nil : ∀ a, a.Sound size → motive a [])
    (short : ∀ a samples, a.Sound size → a.ring.activeFill + samples.length < size →
      motive a samples)
    (full : ∀ a samples, a.Sound size → samples ≠ [] →
      size ≤ a.ring.activeFill + samples.length →
      motive (a.absorb (samples.take a.room)).2 (samples.drop a.room) → motive a samples)
    (sound : a.Sound size) (samples : List Sample) : motive a samples := by
  -- A block that was full from the start takes no sample, but no later one is.
  have bounded (n : Nat) : ∀ a : Analyzer, ∀ samples, a.Sound size →
      samples.length + (if size ≤ a.ring.activeFill then 1 else 0) ≤ n → motive a samples := by
    induction n with
    | zero =>
      intro a samples sound none
      rw [List.eq_nil_of_length_eq_zero (l := samples) (by omega)]
      exact nil a sound
    | succ n ih =>
      intro a samples sound within
      by_cases empty : samples = []
      · rw [empty]
        exact nil a sound
      · have some := List.length_pos_iff.mpr empty
        have positive := sound.positive
        by_cases more : a.ring.activeFill + samples.length < size
        · exact short a samples sound more
        · apply full a samples sound empty (by omega)
          apply ih _ _ (absorb_sound sound _ (fits_room sound samples))
          rw [activeFill_absorb, if_neg (by omega), List.length_drop, room_eq sound]
          split at within
          · omega
          · omega
  exact bounded _ a samples sound (Nat.le_refl _)

theorem push_append_short (sound : a.Sound size) (first second : List Sample)
    (short : a.ring.activeFill + first.length < size) :
    a.push (first ++ second) = Analyzer.push { a with ring := a.ring.append first } second := by
  let b : Analyzer := { a with ring := a.ring.append first }
  have later : b.Sound size := { sound with ring := sound.ring.append first (by omega) }
  have fill : b.ring.activeFill = a.ring.activeFill + first.length := Ring.activeFill_append _ _
  have joined (rest : List Sample) :
      (a.ring.append first).append rest = a.ring.append (first ++ rest) :=
    Ring.append_append sound.ring first rest (by omega)
  change _ = b.push second
  by_cases more : a.ring.activeFill + (first ++ second).length < size
  · have length : (first ++ second).length = first.length + second.length := List.length_append
    rw [push_short sound _ more, push_short later second (by omega), joined]
  · rw [List.length_append] at more
    have nonempty : second ≠ [] := by
      rintro rfl
      rw [List.length_nil] at more
      omega
    have space : a.room = first.length + b.room := by
      rw [room_eq sound, room_eq later]
      omega
    have block : b.absorb (second.take b.room) = a.absorb ((first ++ second).take a.room) := by
      rw [space, List.take_length_add_append]
      simp only [absorb, b, joined]
    rw [push_full sound _ (by simp [nonempty]) (by rw [List.length_append]; omega),
      push_full later _ nonempty (by omega), block, space, List.drop_length_add_append]
    rfl

theorem push_append (sound : a.Sound size) (first second : List Sample) :
    a.push (first ++ second) = do
      let (analyses, a) ← a.push first
      let (others, a) ← a.push second
      return (analyses ++ others, a) := by
  refine stream_induction ?_ ?_ ?_ sound first
  · intro a sound
    simp only [push_nil, List.nil_append, Checked.ok_bind, Checked.pure_eq]
    exact (bind_pure _).symm
  · intro a first sound short
    rw [push_append_short sound first second short, push_short sound first short]
    exact (bind_pure _).symm
  · intro a first sound nonempty full ih
    have within : a.room ≤ first.length := by
      rw [room_eq sound]
      omega
    have longer : size ≤ a.ring.activeFill + (first ++ second).length := by
      rw [List.length_append]
      omega
    rw [push_full sound first nonempty full,
      push_full sound _ (by simp [nonempty]) longer,
      List.take_append_of_le_length within, List.drop_append_of_le_length within, ih]
    split
    · simp only [bind_assoc, pure_bind, List.cons_append]
    · rfl

theorem unreleased_append (sound : a.Sound size) (samples : List Sample)
    (fits : a.ring.activeFill + samples.length ≤ size) :
    unreleased { a with ring := a.ring.append samples } = a.unreleased ++ samples := by
  have room : a.ring.activeBlock.filled + samples.length ≤ a.ring.activeBlock.slots.length := by
    rw [Ring.activeBlock, sound.ring.slots]
    exact fits
  rw [unreleased, Ring.activeBlock_append, Block.contents_append _ _ room]
  rfl

theorem unreleased_of_empty (empty : a.ring.activeFill = 0) : a.unreleased = [] := by
  change a.ring.activeBlock.slots.take a.ring.activeFill = []
  rw [empty, List.take_zero]

theorem completed_short (sound : a.Sound size) (samples : List Sample)
    (short : a.ring.activeFill + samples.length < size) : a.completed samples = 0 := by
  rw [completed, sound.ring.blockSize, Nat.div_eq_of_lt short, ite_self]

theorem completed_full (sound : a.Sound size) (samples : List Sample)
    (nonempty : samples ≠ []) (full : size ≤ a.ring.activeFill + samples.length) :
    a.completed samples =
      (a.absorb (samples.take a.room)).2.completed (samples.drop a.room) + 1 := by
  have later := absorb_sound sound (samples.take a.room) (fits_room sound samples)
  have length : (samples.drop a.room).length = a.ring.activeFill + samples.length - size := by
    have filled : a.ring.activeFill ≤ size := sound.ring.filled a.ring.active
    rw [List.length_drop, room_eq sound]
    omega
  rw [completed, completed, if_neg nonempty, sound.ring.blockSize, later.ring.blockSize,
    activeFill_absorb, Nat.zero_add, length, Nat.div_eq_sub_div sound.positive full]
  split
  · next none =>
    rw [none] at length
    rw [← length, List.length_nil, Nat.zero_div]
  · rfl

structure Pushed (size : Nat) (a : Analyzer) (samples : List Sample) (analyses : List Analysis)
    (b : Analyzer) : Prop where
  analyzes : Analyzes size a analyses b
  completed : analyses.length = a.completed samples
  conserved : analyses.flatMap (·.block) ++ b.unreleased = a.unreleased ++ samples

theorem push_pushed (sound : a.Sound size) (samples : List Sample)
    (unspent : a.blocksAnalyzed + a.completed samples < UInt64.size) :
    ∃ analyses b, a.push samples = .ok (analyses, b) ∧ Pushed size a samples analyses b := by
  revert unspent
  refine stream_induction ?_ ?_ ?_ sound samples
  · intro a sound _
    refine ⟨[], a, push_nil a, .none sound rfl rfl rfl, ?_, ?_⟩
    · simp [Analyzer.completed]
    · simp
  · intro a samples sound short _
    have fits : a.ring.activeFill + samples.length ≤ size := by omega
    have kept : Sound { a with ring := a.ring.append samples } size :=
      { sound with ring := sound.ring.append samples fits }
    exact ⟨[], _, push_short sound samples short, .none kept rfl rfl rfl,
      (completed_short sound samples short).symm, unreleased_append sound samples fits⟩
  · intro a samples sound nonempty full ih unspent
    have number := completed_full sound samples nonempty full
    have fits := fits_room sound samples
    rw [number] at unspent
    obtain ⟨analyses, b, ran, pushed⟩ := ih (by
      change a.blocksAnalyzed + 1 + _ < _
      omega)
    let filled : Analyzer := { a with ring := a.ring.append (samples.take a.room) }
    have first : Analyzes size a [filled.analyzed.1] filled.analyzed.2 :=
      { analyzed_analyzes (a := filled) { sound with ring := sound.ring.append _ fits } with }
    refine ⟨filled.analyzed.1 :: analyses, b, ?_, first.trans pushed.analyzes, ?_, ?_⟩
    · rw [push_full sound samples nonempty full, if_pos (by unfold Unspent; omega), ran]
      rfl
    · rw [List.length_cons, pushed.completed, number]
    · have block : filled.analyzed.1.block = a.unreleased ++ samples.take a.room :=
        unreleased_append sound (samples.take a.room) fits
      have rest := pushed.conserved
      rw [unreleased_of_empty (activeFill_absorb _ _), List.nil_append] at rest
      rw [List.flatMap_cons, List.append_assoc, rest, block, List.append_assoc,
        List.take_append_drop]

theorem push_spent (sound : a.Sound size) (samples : List Sample)
    (counted : a.blocksAnalyzed < UInt64.size)
    (spent : UInt64.size ≤ a.blocksAnalyzed + a.completed samples) :
    a.push samples = .error .overflow := by
  revert counted spent
  refine stream_induction ?_ ?_ ?_ sound samples
  · intro a sound counted spent
    simp only [completed, if_true] at spent
    omega
  · intro a samples sound short counted spent
    rw [completed_short sound samples short] at spent
    omega
  · intro a samples sound nonempty full ih counted spent
    rw [completed_full sound samples nonempty full] at spent
    rw [push_full sound samples nonempty full]
    split
    · next unspent =>
      rw [ih unspent (by
        change _ ≤ a.blocksAnalyzed + 1 + _
        omega)]
      rfl
    · rfl

theorem pushed_of_push (sound : a.Sound size) (counted : a.blocksAnalyzed < UInt64.size)
    (samples : List Sample) (analyses : List Analysis)
    (b : Analyzer) (ran : a.push samples = .ok (analyses, b)) :
    Pushed size a samples analyses b ∧ b.blocksAnalyzed < UInt64.size := by
  by_cases unspent : a.blocksAnalyzed + a.completed samples < UInt64.size
  · obtain ⟨others, c, same, pushed⟩ := push_pushed sound samples unspent
    rw [ran] at same
    cases same
    refine ⟨pushed, ?_⟩
    rw [pushed.analyzes.counted, pushed.completed]
    exact unspent
  · rw [push_spent sound samples counted (Nat.not_lt.mp unspent)] at ran
    cases ran

/-- A stream that is cut into any number of pushes is analysed as a whole. -/
theorem push_flatten (sound : a.Sound size) (counted : a.blocksAnalyzed < UInt64.size)
    (chunks : List (List Sample)) :
    a.push chunks.flatten =
      (Checked.trace push a chunks).map fun run => (run.1.flatten, run.2) := by
  induction chunks generalizing a with
  | nil => exact push_nil a
  | cons chunk chunks ih =>
    rw [List.flatten_cons, push_append sound]
    cases first : a.push chunk with
    | error fault =>
      rw [Checked.trace_cons_error _ _ _ _ _ first]
      rfl
    | ok run =>
      obtain ⟨pushed, fewer⟩ := pushed_of_push sound counted chunk run.1 run.2 first
      rw [Checked.trace_cons_eq _ _ _ _ _ _ first]
      simp only [Checked.ok_bind, ih pushed.analyzes.sound fewer]
      cases Checked.trace push run.2 chunks with
      | error fault => rfl
      | ok rest => rfl

end

end Analyzer

end BandLight
