import BandLight.Proofs.Overrun
import BandLight.Proofs.RingRuns

/-! Bytes taken in as samples. Two bytes make a sample, the lower one first, and an odd last byte
makes none. A ring and a pipeline do with bytes what they do with the samples that the bytes make,
in every state and over whole runs, and as many samples are written as are announced. -/
namespace BandLight

namespace Sample

/-- The samples are the complete pairs of the bytes, each read as a signed number. -/
structure Pairs (bytes : List UInt8) (samples : List Sample) : Prop where
  length : samples.length = bytes.length / 2
  value : ∀ i sample, samples[i]? = some sample → ∃ low high, bytes[2 * i]? = some low ∧
    bytes[2 * i + 1]? = some high ∧
    sample.toInt = ((low.toNat + 256 * high.toNat : Nat) : Int).bmod 65536

/-- The higher byte stands above the lower one, so that no bits meet. -/
theorem toNat_ofBytes (low high : UInt8) :
    (low.toUInt16 ||| (high.toUInt16 <<< 8)).toNat = low.toNat + 256 * high.toNat := by
  have least : low.toNat < Nat.pow 2 8 := low.toNat_lt
  have greatest : high.toNat < 256 := high.toNat_lt
  have apart := Nat.shiftLeft_add_eq_or_of_lt least high.toNat
  rw [UInt16.toNat_or, UInt16.toNat_shiftLeft, UInt8.toNat_toUInt16, UInt8.toNat_toUInt16]
  change low.toNat ||| high.toNat <<< 8 % 65536 = _
  have shifted : high.toNat <<< 8 = 256 * high.toNat := by
    rw [Nat.shiftLeft_eq, Nat.mul_comm]
  rw [shifted] at apart ⊢
  rw [Nat.mod_eq_of_lt (by omega), Nat.or_comm, ← apart, Nat.add_comm]

theorem toInt_ofBytes (low high : UInt8) :
    (ofBytes low high).toInt = ((low.toNat + 256 * high.toNat : Nat) : Int).bmod 65536 := by
  rw [← toNat_ofBytes]
  exact BitVec.toInt_eq_toNat_bmod _

theorem decode_pairs (bytes : List UInt8) : Pairs bytes (decode bytes) := by
  refine ⟨length_decode bytes, fun i sample found => ?_⟩
  induction bytes using decode.induct generalizing i with
  | case1 low high rest ih =>
    cases i with
    | zero =>
      cases found
      exact ⟨low, high, rfl, rfl, toInt_ofBytes low high⟩
    | succ i => exact ih i found
  | case2 bytes short =>
    rw [decode] at found
    · cases found
    · exact short

end Sample

namespace Ring

def Operation.decoded : Operation → Operation
  | fillBytes bytes => fill (Sample.decode bytes)
  | operation => operation

structure Reads (size : Nat) (ring : Ring) (bytes : List UInt8) : Prop where
  same : ring.fillBytes bytes = ring.fill (Sample.decode bytes)
  /-- The answer is the number of samples that have been written. -/
  written : ∃ count next, ring.fillBytes bytes = .ok (count, next) ∧
    count = min (bytes.length / 2) (size - ring.activeFill) ∧
    next.activeFill = ring.activeFill + count ∧
    next.activeBlock.contents = ring.activeBlock.contents ++ (Sample.decode bytes).take count ∧
    ((Sample.decode bytes).take count).length = count
  runs : ∀ operations, ring.trace (operations.map Operation.decoded) = ring.trace operations

section
variable {ring : Ring} {size : Nat}

theorem perform_decoded (sound : ring.Sound size) (operation : Operation) :
    ring.perform operation.decoded = ring.perform operation := by
  cases operation with
  | fillBytes bytes =>
    change ring.perform (.fill (Sample.decode bytes)) = _
    rw [perform, perform, fillBytes_eq sound]
  | _ => rfl

theorem trace_decoded (sound : ring.Sound size) (operations : List Operation) :
    ring.trace (operations.map Operation.decoded) = ring.trace operations := by
  induction operations generalizing ring with
  | nil => rfl
  | cons operation operations ih =>
    obtain ⟨outcome, next, performed, moved⟩ := perform_moved sound operation
    have read := (perform_decoded sound operation).trans performed
    rw [List.map_cons, trace, trace, Checked.trace_cons_eq perform _ _ _ _ _ read,
      Checked.trace_cons_eq perform _ _ _ _ _ performed]
    exact congrArg (Except.map _) (ih (moved.sound sound))

theorem Sound.reads (sound : ring.Sound size) (bytes : List UInt8) : Reads size ring bytes := by
  have same := fillBytes_eq sound bytes
  have filled : ring.activeFill ≤ size := sound.filled ring.active
  have slots : ring.activeBlock.slots.length = size := sound.slots ring.active
  have pairs := Sample.length_decode bytes
  let count := min (bytes.length / 2) (size - ring.activeFill)
  have taken : ((Sample.decode bytes).take count).length = count := by
    rw [List.length_take, pairs]
    omega
  have cut : (Sample.decode bytes).take (size - ring.activeFill) =
      (Sample.decode bytes).take count := by
    rw [List.take_eq_take_min, pairs, Nat.min_comm]
  have room : ring.activeBlock.filled + ((Sample.decode bytes).take count).length ≤
      ring.activeBlock.slots.length := by
    rw [taken, slots]
    change ring.activeFill + count ≤ size
    omega
  refine ⟨same, ⟨count, ring.append ((Sample.decode bytes).take count), ?_, rfl, ?_, ?_, taken⟩,
    trace_decoded sound⟩
  · rw [same, fill_eq sound, pairs, cut]
  · rw [activeFill_append, taken]
  · rw [activeBlock_append, Block.contents_append _ _ room]

end

end Ring

namespace Pipeline

def Action.decoded : Action → Action
  | .queueBytes bytes => .queue (Sample.decode bytes)
  | .step (.driver (.deliverBytes bytes)) => .step (.driver (.deliver (Sample.decode bytes)))
  | action => action

structure Reads (p : Pipeline) (bytes : List UInt8) : Prop where
  offered : p.offer (Sample.decode bytes) = .ok (p.offerBytes bytes)
  delivered : p.perform (.driver (.deliverBytes bytes)) =
    p.perform (.driver (.deliver (Sample.decode bytes)))
  /-- A block that is taken is queued with its number of samples. -/
  taken : ∀ count, count = min (bytes.length / 2) p.size → 0 < count →
    (p.offerBytes bytes).1 = true →
    (p.offerBytes bytes).2.lengths.items = p.lengths.items ++ [count] ∧
    (p.offerBytes bytes).2.samples.samples =
      p.samples.samples ++ (Sample.decode bytes).take count ∧
    ((Sample.decode bytes).take count).length = count
  /-- A block that is refused is reported with it, and the queues stay as they are. -/
  refused : ∀ count, count = min (bytes.length / 2) p.size → (p.offerBytes bytes).1 = false →
    (p.offerBytes bytes).2 = p.overrun count
  runs : ∀ actions, p.trace (actions.map Action.decoded) = p.trace actions

theorem act_decoded (p : Pipeline) (action : Action) : p.act action.decoded = p.act action := by
  cases action with
  | queueBytes bytes =>
    change p.act (.queue (Sample.decode bytes)) = _
    rw [act_queue, act, offerBytes_eq]
  | step s =>
    cases s with
    | driver s =>
      cases s with
      | deliverBytes bytes => exact (p.perform_deliverBytes bytes).symm
      | _ => rfl
    | host s => rfl
  | _ => rfl

theorem trace_decoded (p : Pipeline) (actions : List Action) :
    p.trace (actions.map Action.decoded) = p.trace actions := by
  induction actions generalizing p with
  | nil => rfl
  | cons action actions ih =>
    rw [List.map_cons]
    change (p.act action.decoded >>= _) = (p.act action >>= _)
    rw [act_decoded]
    refine congrArg (p.act action >>= ·) (funext fun acted => ?_)
    change (acted.2.trace _ >>= _) = (acted.2.trace _ >>= _)
    rw [ih]

theorem enqueue_cases (p : Pipeline) (count : Nat) (samples : List Sample) (some : 0 < count) :
    (p.enqueue count samples).1 = false ∧ (p.enqueue count samples).2 = p.overrun count ∨
    (p.enqueue count samples).1 = true ∧
      (p.enqueue count samples).2.lengths.items = p.lengths.items ++ [count] ∧
      (p.enqueue count samples).2.samples.samples = p.samples.samples ++ samples.take count := by
  unfold enqueue
  rw [if_neg (Nat.ne_of_gt some)]
  split
  · exact .inl ⟨rfl, rfl⟩
  · split
    · exact .inl ⟨rfl, rfl⟩
    · exact .inr ⟨rfl, rfl, rfl⟩

theorem reads (p : Pipeline) (bytes : List UInt8) : p.Reads bytes := by
  refine ⟨by rw [p.offer_eq, p.offerBytes_eq], p.perform_deliverBytes bytes, ?_, ?_, p.trace_decoded⟩
  · rintro count rfl some taken
    rcases p.enqueue_cases _ ((Sample.decode bytes).take (min (bytes.length / 2) p.size)) some with
      ⟨refused, -⟩ | ⟨-, lengths, samples⟩
    · cases refused.symm.trans taken
    · refine ⟨lengths, ?_, ?_⟩
      · rw [List.take_take, Nat.min_self] at samples
        exact samples
      · rw [List.length_take, Sample.length_decode]
        omega
  · rintro count rfl refused
    rcases Nat.eq_zero_or_pos (min (bytes.length / 2) p.size) with none | some
    · have taken : (p.offerBytes bytes).1 = true := by
        rw [offerBytes, enqueue, if_pos none]
      cases refused.symm.trans taken
    · rcases p.enqueue_cases _ ((Sample.decode bytes).take (min (bytes.length / 2) p.size)) some with
        ⟨-, overrun⟩ | ⟨taken, -⟩
      · exact overrun
      · cases refused.symm.trans taken

end Pipeline

/-- In every ring that can be reached and in every pipeline, bytes are taken in as the samples
that they make: the same answers and the same effect, now and over every run that follows, and as
many samples are written as the answer or the queue of lengths says. -/
theorem bytes_read_as_samples {memory size : Nat} {ring : Ring} (reached : ring.Reached memory size)
    (p : Pipeline) (bytes : List UInt8) :
    Sample.Pairs bytes (Sample.decode bytes) ∧ Ring.Reads size ring bytes ∧ p.Reads bytes :=
  ⟨Sample.decode_pairs bytes, reached.sound.reads bytes, p.reads bytes⟩

theorem odd_bytes_read_as_samples : ∃ (ring next : Ring) (p : Pipeline),
    ring.Reached 8 4 ∧ ring.activeFill = 3 ∧
    Pipeline.start .standard .log (fun _ => 0) true = .ok p ∧
    ring.fillBytes [1, 0, 254, 255, 7] = .ok (1, next) ∧
    next.activeBlock.contents = [5, 6, 7, 1] ∧
    (p.offerBytes [1, 0, 254, 255, 7]).2.lengths.items = [2] ∧
    (p.offerBytes [1, 0, 254, 255, 7]).2.samples.samples = [1, -2] := by
  obtain ⟨first, configured⟩ : ∃ first, Ring.configure 8 4 = .ok first := ⟨_, rfl⟩
  obtain ⟨ring, ran, fill, contents⟩ : ∃ ring, first.trace [.fill [5, 6, 7]] =
      .ok ([.accepted 3], ring) ∧ ring.activeFill = 3 ∧ ring.activeBlock.contents = [5, 6, 7] := by
    cases configured
    exact ⟨_, rfl, rfl, rfl⟩
  obtain ⟨p, started, size, idle, taken⟩ : ∃ p, Pipeline.start .standard .log (fun _ => 0) true =
      .ok p ∧ p.size = 512 ∧ (p.lengths.items = [] ∧ p.samples.samples = []) ∧
      (p.offerBytes [1, 0, 254, 255, 7]).1 = true := ⟨_, rfl, rfl, ⟨rfl, rfl⟩, rfl⟩
  have reached : ring.Reached 8 4 := ⟨first, _, _, configured, ran⟩
  obtain ⟨-, ringReads, pipelineReads⟩ := bytes_read_as_samples reached p [1, 0, 254, 255, 7]
  obtain ⟨count, next, filled, counted, -, held, -⟩ := ringReads.written
  rw [fill] at counted
  obtain ⟨lengths, samples, -⟩ := pipelineReads.taken 2 (by rw [size]; rfl) (by decide) taken
  rw [idle.1] at lengths
  rw [idle.2] at samples
  rw [counted] at filled held
  rw [contents] at held
  exact ⟨ring, next, p, reached, fill, started, filled, held, lengths, samples⟩

end BandLight
