import BandLight.Proofs.FixedPointNodes
import BandLight.Proofs.RoundedPowers
import BandLight.Proofs.SlidingWindow

/-! The bins of a discrete Fourier transform. The odd bins are those of the difference of the two
halves of the samples, at the angles that the splitting leads to; the even bins are all the bins
of the sum of the halves. So each power that is computed speaks of its own bin, and a magnitude is
the rounded absolute value of the bin per sample. -/
namespace BandLight.Transform

open Real

/-- The square of the absolute value of a polynomial at an angle on the unit circle. -/
noncomputable def squareAt (coefficients : List Int) (θ : ℝ) : ℝ :=
  Complex.normSq (evaluate (Complex.exp (θ * Complex.I)) (coefficients.map fun n : Int => (n : ℝ)))

theorem start_tracks (bound : Nat) (residue : List Int) (small : ∀ x ∈ residue, x.natAbs ≤ bound) :
    Node.Tracks bound (residue.map fun n : Int => (n : ℝ))
      { root := 0, turns := [], residue := residue.map (· * (unit : Int)) } := by
  refine ⟨?_, ?_, ?_⟩
  · simp [root_nil]
  · simp
  · refine List.forall₂_map_left_iff.mpr (List.forall₂_map_right_iff.mpr (List.forall₂_same.mpr ?_))
    intro x member
    have least : |(x : ℝ)| ≤ bound := by
      rw [← Int.cast_abs, Int.abs_eq_natAbs]
      exact_mod_cast small x member
    refine ⟨?_, least⟩
    push_cast
    rw [mul_comm, sub_self, abs_zero]
    exact Nat.cast_nonneg _

theorem oddPowers_shows (bound depth : Nat) (residue : List Int)
    (length : residue.length = 2 ^ (depth + 1)) (small : ∀ x ∈ residue, x.natAbs ≤ bound) :
    List.Forall₂ Power.Shows (oddPowers bound depth residue)
      ((oddAngles depth).map (squareAt residue)) := by
  let start : Node := { root := 0, turns := [], residue := residue.map (· * (unit : Int)) }
  have reached := splitAll_induction
    (fun height n => n.Tracks bound (residue.map fun n : Int => (n : ℝ)) ∧ n.turns.length = height)
    (fun height n turn before => ⟨Node.part_tracks before.1 turn, by
      rw [Node.part_eq, List.length_cons, before.2]⟩)
    depth 0 [start] (List.forall_mem_singleton.mpr ⟨start_tracks bound residue small, rfl⟩)
  have angles := splitAll_angles depth 0 [start] (by simp [start, oddAngles, angle])
  rw [Nat.zero_add] at angles reached
  rw [← angles, List.map_map, oddPowers]
  refine List.forall₂_map_left_iff.mpr (List.forall₂_map_right_iff.mpr (List.forall₂_same.mpr ?_))
  intro n member
  obtain ⟨tracks, height⟩ := reached n member
  refine ⟨Complex.normSq_nonneg _, ?_, ?_⟩
  · have near := Node.power_near tracks (by rw [List.length_map, length, height])
    rwa [height] at near
  · exact powerExact_stands n.turns residue (by rw [length, height])

section
variable {α β : Type} {R : α → β → Prop}

theorem forall₂_interleave {as cs : List α} {bs ds : List β} (evens : List.Forall₂ R as bs)
    (odds : List.Forall₂ R cs ds) : List.Forall₂ R (interleave as cs) (interleave bs ds) := by
  induction evens generalizing cs ds with
  | nil => exact .nil
  | cons even _ ih =>
    cases odds with
    | nil => exact .nil
    | cons odd rest => exact .cons even (.cons odd (ih rest))

theorem interleave_range (f : Nat → β) (count : Nat) :
    interleave ((List.range count).map fun j => f (2 * j)) ((List.range count).map fun j => f (2 * j + 1)) =
      (List.range (2 * count)).map f := by
  induction count with
  | zero => rfl
  | succ count ih =>
    have even := List.range_succ (n := 2 * count + 1)
    have both := List.range_succ (n := 2 * count)
    rw [Nat.mul_succ, even, both, List.map_append, List.map_append, ← ih, List.range_succ]
    simp only [interleave, List.map_append, List.zip_append, List.length_map, List.flatMap_append,
      List.append_assoc]
    rfl

end

theorem exp_pow_half (size k : Nat) (some : size ≠ 0) :
    Complex.exp ((π * k / size : ℝ) * Complex.I) ^ size = (-1) ^ k := by
  have known : (size : ℂ) ≠ 0 := Nat.cast_ne_zero.mpr some
  rw [← Complex.exp_nat_mul, ← Complex.exp_pi_mul_I, ← Complex.exp_nat_mul]
  congr 1
  push_cast
  field_simp

section
variable {front back : List Int} {size : Nat} (first : front.length = size) (second : back.length = size)
  (some : size ≠ 0)
include first second some

/-- At the angle of an even bin the halves are laid over each other. -/
theorem squareAt_even (j : Nat) : squareAt (front ++ back) (π * (2 * j : Nat) / size) =
    squareAt (List.zipWith (· + ·) front back) (π * (2 * j : Nat) / size) := by
  have turned := exp_pow_half size (2 * j) some
  rw [pow_mul, neg_one_sq, one_pow] at turned
  have cast : (List.zipWith (· + ·) front back).map (fun n : Int => (n : ℝ)) =
      List.zipWith (· + ·) (front.map fun n : Int => (n : ℝ)) (back.map fun n : Int => (n : ℝ)) := by
    simp [List.map_zipWith, List.zipWith_map]
  rw [squareAt, squareAt, List.map_append, evaluate_append, List.length_map, first, turned, one_mul,
    cast, evaluate_add _ _ _ (by simp [first, second])]

theorem squareAt_odd (j : Nat) : squareAt (front ++ back) (π * (2 * j + 1 : Nat) / size) =
    squareAt (List.zipWith (· - ·) front back) (π * (2 * j + 1 : Nat) / size) := by
  have turned := exp_pow_half size (2 * j + 1) some
  rw [pow_succ, pow_mul, neg_one_sq, one_pow, one_mul] at turned
  have cast : (List.zipWith (· - ·) front back).map (fun n : Int => (n : ℝ)) =
      List.zipWith (· - ·) (front.map fun n : Int => (n : ℝ)) (back.map fun n : Int => (n : ℝ)) := by
    simp [List.map_zipWith, List.zipWith_map]
  rw [squareAt, squareAt, List.map_append, evaluate_append, List.length_map, first, turned,
    neg_one_mul, ← sub_eq_add_neg, cast, evaluate_sub _ _ _ (by simp [first, second])]

end

/-- The squares of the first half of the bins of so many samples. -/
noncomputable def binSquares (depth : Nat) (samples : List Int) : List ℝ :=
  (List.range (2 ^ depth)).map fun k : Nat => squareAt samples (π * k / (2 ^ depth : Nat))

theorem binSquares_of_halves (depth : Nat) {front back : List Int}
    (first : front.length = 2 ^ (depth + 1)) (second : back.length = 2 ^ (depth + 1)) :
    binSquares (depth + 1) (front ++ back) =
      interleave (binSquares depth (List.zipWith (· + ·) front back))
        ((oddAngles depth).map (squareAt (List.zipWith (· - ·) front back))) := by
  have size : 2 ^ (depth + 1) ≠ 0 := by positivity
  have double : 2 ^ (depth + 1) = 2 * 2 ^ depth := pow_succ' 2 depth
  have all := interleave_range
    (fun k : Nat => squareAt (front ++ back) (π * k / (2 ^ (depth + 1) : Nat))) (2 ^ depth)
  rw [← double] at all
  rw [binSquares, ← all, binSquares, oddAngles, List.map_map]
  refine congrArg₂ interleave (List.map_congr_left fun j _ => ?_) (List.map_congr_left fun j _ => ?_)
  · rw [squareAt_even first second size]
    congr 1
    rw [double]
    push_cast
    field_simp
  · rw [squareAt_odd first second size]
    refine congrArg (squareAt _) ?_
    push_cast
    ring

theorem natAbs_zipWith_le (f : Int → Int → Int) (grows : ∀ x y, (f x y).natAbs ≤ x.natAbs + y.natAbs)
    {front back : List Int} {bound size : Nat} (first : ∀ x ∈ front, x.natAbs * (2 * size) ≤ bound)
    (second : ∀ x ∈ back, x.natAbs * (2 * size) ≤ bound) :
    ∀ x ∈ List.zipWith f front back, x.natAbs * size ≤ bound := by
  intro x member
  obtain ⟨n, inside, rfl⟩ := List.mem_iff_getElem.mp member
  rw [List.length_zipWith] at inside
  rw [List.getElem_zipWith]
  have own := first front[n] (List.getElem_mem _)
  have other := second back[n] (List.getElem_mem _)
  have sum := Nat.mul_le_mul_right size (grows front[n] back[n])
  have twice (y : Nat) : y * (2 * size) = 2 * (y * size) := Nat.mul_left_comm y 2 size
  rw [twice] at own other
  rw [Nat.add_mul] at sum
  omega

theorem powers_shows (bound depth : Nat) (samples : List Int)
    (length : samples.length = 2 ^ (depth + 1))
    (small : ∀ x ∈ samples, x.natAbs * 2 ^ (depth + 1) ≤ bound) :
    List.Forall₂ Power.Shows (powers bound (depth + 1) samples) (binSquares depth samples) := by
  induction depth generalizing samples with
  | zero =>
    obtain ⟨x, y, rfl⟩ := List.length_eq_two.mp length
    have own := small x (by simp)
    have other := small y (by simp)
    have odd := oddPowers_shows bound 0 [x + y, 0] rfl (by
      simp only [List.forall_mem_cons]
      refine ⟨?_, Nat.zero_le _, by simp⟩
      have sum := Int.natAbs_add_le x y
      omega)
    have total : powers bound (0 + 1) [x, y] = oddPowers bound 0 [x + y, 0] := by
      change oddPowers bound 0 [[x, y].sum, 0] = _
      simp
    rw [total]
    simpa [binSquares, squareAt, oddAngles, evaluate] using odd
  | succ depth ih =>
    obtain ⟨front, back, rfl, first, second⟩ : ∃ front back, samples = front ++ back ∧
        front.length = 2 ^ (depth + 1) ∧ back.length = 2 ^ (depth + 1) := by
      refine ⟨samples.take (2 ^ (depth + 1)), samples.drop (2 ^ (depth + 1)),
        (List.take_append_drop _ _).symm, ?_, ?_⟩
      · rw [List.length_take]
        omega
      · rw [List.length_drop]
        omega
    have double : 2 ^ (depth + 1 + 1) = 2 * 2 ^ (depth + 1) := pow_succ' 2 (depth + 1)
    rw [double] at small
    obtain ⟨begins, ends⟩ := List.forall_mem_append.mp small
    have even := ih (List.zipWith (· + ·) front back) (by simp [first, second])
      (natAbs_zipWith_le _ Int.natAbs_add_le begins ends)
    have odd := oddPowers_shows bound depth (List.zipWith (· - ·) front back)
      (by simp [first, second]) fun x member => by
        have fits := natAbs_zipWith_le _ Int.natAbs_sub_le begins ends x member
        have grows := Nat.le_mul_of_pos_right x.natAbs (Nat.two_pow_pos (depth + 1))
        exact grows.trans fits
    rw [binSquares_of_halves depth first second]
    change List.Forall₂ _ (interleave
      (powers bound (depth + 1) (List.zipWith (· + ·) (halves (front ++ back)).1 (halves (front ++ back)).2))
      (oddPowers bound depth (List.zipWith (· - ·) (halves (front ++ back)).1 (halves (front ++ back)).2))) _
    rw [halves_append front back (first.trans second.symm)]
    exact forall₂_interleave even odd

theorem evaluate_map_eq_sum {α : Type} (z : ℂ) (f : α → ℝ) (items : List α) :
    evaluate z (items.map f) = ∑ n : Fin items.length, (f (items.get n) : ℂ) * z ^ (n : Nat) := by
  induction items with
  | nil => rfl
  | cons item items ih =>
    rw [List.map_cons, evaluate, ih]
    simp only [List.length_cons, Fin.sum_univ_succ, Finset.mul_sum]
    refine congrArg₂ (· + ·) (by simp) (Finset.sum_congr rfl fun n _ => ?_)
    rw [Fin.val_succ, pow_succ, List.get_cons_succ']
    ring

theorem evaluate_conj (z : ℂ) (items : List ℝ) :
    evaluate (starRingEnd ℂ z) items = starRingEnd ℂ (evaluate z items) := by
  induction items with
  | nil => exact (map_zero _).symm
  | cons item items ih => rw [evaluate, evaluate, ih, map_add, map_mul, Complex.conj_ofReal]

/-- A bin of the discrete Fourier transform of a window. -/
noncomputable def fourier (window : List Sample) (k : Nat) : ℂ :=
  ∑ n : Fin window.length,
    ((window.get n).toInt : ℂ) * Complex.exp (-(2 * k * n : Nat) / window.length * π * Complex.I)

theorem squareAt_eq_norm_fourier (window : List Sample) (k : Nat) :
    squareAt (window.map Int16.toInt) (2 * π * k / window.length) = ‖fourier window k‖ ^ 2 := by
  have turn : Complex.exp (((-(2 * π * k / window.length) : ℝ) : ℂ) * Complex.I) =
      starRingEnd ℂ (Complex.exp ((2 * π * k / window.length : ℝ) * Complex.I)) := by
    rw [← Complex.exp_conj, map_mul, Complex.conj_ofReal, Complex.conj_I]
    congr 1
    push_cast
    ring
  rw [squareAt, List.map_map, ← Complex.normSq_conj, ← evaluate_conj, ← turn, evaluate_map_eq_sum,
    Complex.normSq_eq_norm_sq, fourier]
  refine congrArg (‖·‖ ^ 2) (Finset.sum_congr rfl fun n _ => ?_)
  rw [← Complex.exp_nat_mul]
  refine congrArg₂ (· * ·) (Complex.ofReal_intCast _) (congrArg Complex.exp ?_)
  push_cast
  ring

/-- The absolute value of a bin in single precision, per sample and rounded with halves going up,
away from zero. -/
noncomputable def roundedBin (window : List Sample) (k : Nat) : Nat :=
  (round (single ‖fourier window k‖ / window.length)).toNat

theorem magnitudes_eq (window : List Sample) (supported : validateBlockSize window.length = .ok ()) :
    magnitudes window =
      (List.range (window.length / 2)).map fun k =>
        UInt16.ofNat (min (roundedBin window k) 32767) := by
  obtain ⟨least, power⟩ := validateBlockSize_supported _ supported
  obtain ⟨depth, log⟩ : ∃ depth, window.length.log2 = depth + 1 :=
    Nat.exists_eq_succ_of_ne_zero fun none => by
      rw [none] at power
      change 1 = _ at power
      omega
  have size : window.length = 2 ^ (depth + 1) := by rw [← log]; exact power.symm
  have half : window.length / 2 = 2 ^ depth := by rw [size, pow_succ]; omega
  have shows := powers_shows (window.length * 32768) depth (window.map Int16.toInt)
    (by rw [List.length_map, size]) fun x member => by
      obtain ⟨sample, -, rfl⟩ := List.mem_map.mp member
      have lower : -32768 ≤ sample.toInt := sample.le_toInt
      have upper : sample.toInt ≤ 32767 := sample.toInt_le
      rw [← size, Nat.mul_comm]
      exact Nat.mul_le_mul_left _ (by omega)
  have bin (k : Nat) : nearest window.length
      (squareAt (window.map Int16.toInt) (π * k / (2 ^ depth : Nat))) = roundedBin window k := by
    have turn : π * k / (2 ^ depth : Nat) = 2 * π * k / window.length := by
      rw [size, pow_succ]
      push_cast
      field_simp
    rw [nearest, turn, squareAt_eq_norm_fourier, sqrt_sq (norm_nonneg _), roundedBin]
  have rounds : List.Forall₂ (fun p square => UInt16.ofNat (p.rounded window.length) =
      UInt16.ofNat (min (nearest window.length square) 32767))
      (powers (window.length * 32768) (depth + 1) (window.map Int16.toInt))
      (binSquares depth (window.map Int16.toInt)) :=
    shows.imp fun p square shown => by rw [Power.rounded_eq size shown]
  have same := List.forall₂_eq_eq_eq.le _ _
    (List.forall₂_map_left_iff.mpr (List.forall₂_map_right_iff.mpr rounds))
  rw [magnitudes, log, half]
  refine same.trans ?_
  rw [binSquares, List.map_map]
  exact List.map_congr_left fun k _ => congrArg (fun rounded => UInt16.ofNat (min rounded 32767)) (bin k)

end BandLight.Transform
