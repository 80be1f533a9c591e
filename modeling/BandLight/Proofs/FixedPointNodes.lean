import BandLight.Proofs.FixedPointNumbers
import BandLight.Proofs.PolynomialRemainders

/-! The splitting in fixed-point numbers. Each node of it keeps, within errors that are known
beforehand, the root of its chain of turns and the remainder that the chain leads to; after the
last turn its power is the squared absolute value at the angle of the chain within another known
error. The nodes come in the order of their angles. -/
namespace BandLight.Transform

open Real

namespace Node

/-- A node keeps the root of its turns and the remainder that they lead to. -/
structure Tracks (bound : Nat) (start : List ℝ) (n : Node) : Prop where
  root : |(n.root : ℝ) - unit * Transform.root n.turns| ≤ rootError n.turns.length
  limit : |(n.root : ℝ)| ≤ 2 * unit
  residue : List.Forall₂ (Near (residueError bound n.turns.length) (residueBound bound n.turns.length))
    n.residue (remainder n.turns start)

/-- The root that both parts of a split node take, with either sign. -/
def nextRoot (n : Node) : Int := Nat.sqrt ((2 * unit + n.root) * unit).toNat

section
variable {bound : Nat} {start : List ℝ} {n : Node}

theorem nextRoot_bounds (limit : |(n.root : ℝ)| ≤ 2 * unit) :
    0 ≤ (n.nextRoot : ℝ) ∧ (n.nextRoot : ℝ) ≤ 2 * unit ∧
      |(n.nextRoot : ℝ) - √((2 * unit + n.root) * unit)| ≤ 1 := by
  have positive := unit_pos
  obtain ⟨least, greatest⟩ := abs_le.mp limit
  have square : (0 : ℝ) ≤ (2 * unit + n.root) * unit := mul_nonneg (by linarith) positive.le
  have whole : (((2 * (unit : Int) + n.root) * unit).toNat : ℝ) = (2 * unit + n.root) * unit := by
    have known : (0 : Int) ≤ (2 * unit + n.root) * unit := by exact_mod_cast square
    rw [← Int.cast_natCast, Int.toNat_of_nonneg known]
    push_cast
    rfl
  have lower := nat_sqrt_le_real_sqrt (a := ((2 * (unit : Int) + n.root) * unit).toNat)
  have upper := real_sqrt_lt_nat_sqrt_succ (a := ((2 * (unit : Int) + n.root) * unit).toNat)
  rw [whole] at lower upper
  have same : (n.nextRoot : ℝ) = (Nat.sqrt ((2 * (unit : Int) + n.root) * unit).toNat : ℝ) :=
    Int.cast_natCast _
  rw [← same] at lower upper
  have top : √((2 * unit + n.root) * unit) ≤ 2 * unit := by
    rw [sqrt_le_left (by positivity)]
    nlinarith
  refine ⟨?_, lower.trans top, abs_le.mpr ⟨by linarith, by linarith⟩⟩
  rw [same]
  exact Nat.cast_nonneg _

theorem rootError_succ (height : Nat) :
    (rootError (height + 1) : ℝ) = 2 ^ height * rootError height + 1 := by
  rw [rootError, Nat.pow_eq]
  push_cast
  rfl

theorem nextRoot_near (tracks : n.Tracks bound start) :
    |(n.nextRoot : ℝ) - unit * Transform.root (true :: n.turns)| ≤ rootError (n.turns.length + 1) := by
  have positive := unit_pos
  obtain ⟨-, -, rounded⟩ := nextRoot_bounds tracks.limit
  have known := two_add_root_nonneg n.turns
  obtain ⟨least, -⟩ := abs_le.mp tracks.limit
  have scaled : unit * Transform.root (true :: n.turns) = √((2 + Transform.root n.turns) * (unit * unit)) := by
    rw [root_eq_sqrt, sqrt_mul known, sqrt_mul_self positive.le, mul_comm]
  have apart : |(2 * unit + n.root) * (unit : ℝ) - (2 + Transform.root n.turns) * (unit * unit)| ≤
      unit * rootError n.turns.length := by
    have factor : (2 * unit + n.root) * (unit : ℝ) - (2 + Transform.root n.turns) * (unit * unit) =
        unit * (n.root - unit * Transform.root n.turns) := by ring
    rw [factor, abs_mul, abs_of_pos positive]
    exact mul_le_mul_of_nonneg_left tracks.root positive.le
  have close := abs_sqrt_sub_sqrt_mul_le ((2 * unit + n.root) * unit)
    ((2 + Transform.root n.turns) * (unit * unit))
    (mul_nonneg (by linarith) positive.le) (mul_nonneg known (by positivity))
  rw [← scaled] at close
  -- The new root is not small, so that the error grows by a power of two at most.
  have lower := root_lower n.turns
  have power : (0 : ℝ) < 2 ^ n.turns.length := by positivity
  let distance := |√((2 * unit + n.root) * (unit : ℝ)) - unit * Transform.root (true :: n.turns)|
  have bounded : distance ≤ 2 ^ n.turns.length * rootError n.turns.length := by
    have small : unit * (distance / 2 ^ n.turns.length) ≤ unit * rootError n.turns.length := calc
      unit * (distance / 2 ^ n.turns.length) = distance * (unit * (1 / 2 ^ n.turns.length)) := by ring
      _ ≤ distance * (unit * Transform.root (true :: n.turns)) :=
          mul_le_mul_of_nonneg_left (mul_le_mul_of_nonneg_left lower positive.le) (abs_nonneg _)
      _ ≤ unit * rootError n.turns.length := close.trans apart
    rw [mul_comm ((2 : ℝ) ^ _)]
    exact (div_le_iff₀ power).mp (le_of_mul_le_mul_left small positive)
  rw [rootError_succ]
  calc _ = |((n.nextRoot : ℝ) - √((2 * unit + n.root) * unit))
        + (√((2 * unit + n.root) * unit) - unit * Transform.root (true :: n.turns))| := by ring_nf
    _ ≤ 1 + 2 ^ n.turns.length * rootError n.turns.length :=
        (abs_add_le _ _).trans (add_le_add rounded bounded)
    _ = _ := add_comm _ _

theorem rootError_le_succ (height : Nat) :
    (rootError height : ℝ) ≤ rootError (height + 1) := by
  have least : (1 : ℝ) ≤ 2 ^ height := one_le_pow₀ one_le_two
  have known : (0 : ℝ) ≤ rootError height := Nat.cast_nonneg _
  rw [rootError_succ]
  nlinarith

theorem residueError_succ (bound depth : Nat) : (residueError bound (depth + 1) : ℝ) =
    6 * residueError bound depth + 2 * rootError (depth + 1) * residueBound bound depth + 2 := by
  rw [residueError]
  push_cast
  rfl

theorem residueBound_succ (bound depth : Nat) :
    (residueBound bound (depth + 1) : ℝ) = 6 * residueBound bound depth := by
  rw [residueBound]
  push_cast
  rfl

def part (n : Node) (turn : Bool) : Node := if turn then n.split.1 else n.split.2

theorem part_eq (n : Node) (turn : Bool) : n.part turn =
    { root := if turn then n.nextRoot else -n.nextRoot
      turns := turn :: n.turns
      residue :=
        List.zipWith (fun x y => if turn then x - y else x + y)
          (List.zipWith (· - ·) (halves (halves n.residue).1).1 (halves (halves n.residue).2).1)
          ((halves (halves n.residue).2).2.map (mulFixed n.nextRoot))
        ++ List.zipWith (fun x y => if turn then x + y else x - y)
          (List.zipWith (· + ·) (halves (halves n.residue).1).2
            ((halves (halves n.residue).2).2.map fun x => x + mulFixed n.root x))
          ((halves (halves n.residue).2).1.map (mulFixed n.nextRoot)) } := by
  cases turn with
  | false => rfl
  | true => rfl

theorem near_turned (tracks : n.Tracks bound start) (turn : Bool) {e R : ℝ} {xs : List Int}
    {ys : List ℝ} (near : List.Forall₂ (Near e R) xs ys) :
    List.Forall₂ (fun x y => Near (rootError (n.turns.length + 1) * R + 2 * e + 1) (2 * R) x
        (if turn then y else -y))
      (xs.map (mulFixed n.nextRoot)) (ys.map (Transform.root (turn :: n.turns) * ·)) := by
  obtain ⟨least, greatest, -⟩ := nextRoot_bounds tracks.limit
  have small : |(n.nextRoot : ℝ)| ≤ 2 * unit := by rwa [abs_of_nonneg least]
  refine List.forall₂_map_left_iff.mpr (List.forall₂_map_right_iff.mpr (near.imp fun x y close => ?_))
  have product := close.mulFixed (nextRoot_near tracks) small (abs_root_le _)
  cases turn with
  | false =>
    rw [root_supplement, neg_mul, if_neg Bool.false_ne_true, neg_neg]
    exact product
  | true => exact product

theorem part_near (tracks : n.Tracks bound start) (turn : Bool) :
    List.Forall₂ (Near (residueError bound (n.turns.length + 1)) (residueBound bound (n.turns.length + 1)))
      (n.part turn).residue (remainder (turn :: n.turns) start) := by
  have halved := forall₂_halves tracks.residue
  have front := forall₂_halves halved.1
  have back := forall₂_halves halved.2
  have errors := residueError_succ bound n.turns.length
  have bounds := residueBound_succ bound n.turns.length
  have rising := rootError_le_succ n.turns.length
  have known : (0 : ℝ) ≤ residueBound bound n.turns.length := Nat.cast_nonneg _
  have off : (0 : ℝ) ≤ residueError bound n.turns.length := Nat.cast_nonneg _
  have wide := mul_le_mul_of_nonneg_right rising known
  have product : (0 : ℝ) ≤ rootError n.turns.length * residueBound bound n.turns.length := by
    positivity
  rw [part_eq, remainder]
  refine List.rel_append ?_ ?_
  · have low := forall₂_zipWith _ _ front.1 back.1 fun _ _ _ _ => Near.sub
    refine forall₂_zipWith _ _ low (near_turned tracks turn back.2) fun x y v w close turned => ?_
    exact (close.sub_turned turn turned).mono (by rw [errors]; linarith) (by rw [bounds]; linarith)
  · have folded := List.forall₂_map_left_iff.mpr (List.forall₂_map_right_iff.mpr (back.2.imp
      fun x y close => close.add (close.mulFixed tracks.root tracks.limit (abs_root_le n.turns))))
    have high := forall₂_zipWith _ _ front.2 folded fun _ _ _ _ => Near.add
    refine forall₂_zipWith _ _ high (near_turned tracks turn back.1) fun x y v w close turned => ?_
    exact (close.add_turned turn turned).mono (by rw [errors]; linarith) (by rw [bounds]; linarith)

theorem part_tracks (tracks : n.Tracks bound start) (turn : Bool) :
    (n.part turn).Tracks bound start := by
  obtain ⟨least, greatest, -⟩ := nextRoot_bounds tracks.limit
  have close := nextRoot_near tracks
  have turns : (n.part turn).turns = turn :: n.turns := by rw [part_eq]
  have root : ((n.part turn).root : ℝ) = if turn then (n.nextRoot : ℝ) else -n.nextRoot := by
    rw [part_eq]
    cases turn with
    | false => exact Int.cast_neg _
    | true => rfl
  refine ⟨?_, ?_, ?_⟩
  · rw [root, turns]
    cases turn with
    | false =>
      rw [root_supplement, if_neg Bool.false_ne_true, mul_neg, neg_sub_neg, abs_sub_comm]
      exact close
    | true => exact close
  · rw [root]
    cases turn with
    | false =>
      rw [if_neg Bool.false_ne_true, abs_neg, abs_of_nonneg least]
      exact greatest
    | true => exact (abs_of_nonneg least).le.trans greatest
  · rw [turns]
    exact part_near tracks turn

theorem powerError_succ (bound depth : Nat) : (powerError bound (depth + 1) : ℝ) =
    4 * residueError bound (depth + 1)
        * (2 * unit * residueBound bound (depth + 1) + residueError bound (depth + 1))
      + rootError (depth + 1) * unit * residueBound bound (depth + 1) * residueBound bound (depth + 1)
      + 1 := by
  rw [powerError]
  push_cast
  rfl

/-- After its last turn the power of a node is the squared absolute value at its angle. -/
theorem power_near (tracks : n.Tracks bound start) (length : start.length = 2 ^ (n.turns.length + 1)) :
    |(n.power : ℝ) - unit ^ 2 * Complex.normSq (evaluate (Complex.exp (angle n.turns * Complex.I)) start)| ≤
      powerError bound n.turns.length := by
  obtain ⟨y, w, pair, power⟩ := exists_remainder n.turns start length
  obtain ⟨root, limit, residue⟩ := tracks
  rw [pair] at residue
  obtain ⟨x, v, same, near, also⟩ := forall₂_pair residue
  have own : n.power = x * x + v * v + mulFixed n.root (x * v) := by
    rw [Node.power, same]
  rw [← power, own]
  cases height : n.turns.length with
  | zero =>
    -- Before any turn nothing is rounded.
    rw [height] at root near also
    rw [residueError, Nat.cast_zero] at near also
    have flat : n.root = 0 := by
      have turns := List.eq_nil_of_length_eq_zero height
      have none : |(n.root : ℝ)| ≤ 0 := by simpa [turns, root_nil, rootError] using root
      exact_mod_cast abs_nonpos_iff.mp none
    have none : mulFixed 0 (x * v) = 0 := by simp [mulFixed]
    rw [flat, none, List.eq_nil_of_length_eq_zero height, root_nil, powerError]
    push_cast
    rw [near.exact, also.exact, abs_nonpos_iff]
    ring
  | succ depth =>
    rw [powerError_succ, ← height]
    exact abs_power_sub_le near also root limit

end

end Node

theorem splitAll_succ (depth : Nat) (nodes : List Node) : splitAll (depth + 1) nodes =
    splitAll depth (nodes.map (Node.part · true) ++ (nodes.map (Node.part · false)).reverse) := by
  rw [splitAll, List.map_map, List.map_map]
  rfl

theorem splitAll_induction (holds : Nat → Node → Prop)
    (step : ∀ height n turn, holds height n → holds (height + 1) (n.part turn)) (depth height : Nat)
    (nodes : List Node) (each : ∀ n ∈ nodes, holds height n) :
    ∀ n ∈ splitAll depth nodes, holds (height + depth) n := by
  induction depth generalizing height nodes with
  | zero => exact each
  | succ depth ih =>
    rw [splitAll_succ, ← Nat.add_assoc, Nat.add_right_comm]
    refine ih (height + 1) _ fun n member => ?_
    rcases List.mem_append.mp member with half | supplement
    · obtain ⟨before, inside, rfl⟩ := List.mem_map.mp half
      exact step height before true (each before inside)
    · obtain ⟨before, inside, rfl⟩ := List.mem_map.mp (List.mem_reverse.mp supplement)
      exact step height before false (each before inside)

/-- The angles that so many turns lead to, in order: the odd multiples of the least one. -/
noncomputable def oddAngles (height : Nat) : List ℝ :=
  (List.range (2 ^ height)).map fun j => π * (2 * j + 1 : Nat) / (2 ^ (height + 1) : Nat)

theorem oddAngles_succ (height : Nat) : oddAngles (height + 1) =
    (oddAngles height).map (· / 2) ++ ((oddAngles height).map (π - · / 2)).reverse := by
  have double : 2 ^ (height + 1) = 2 ^ height + 2 ^ height := by omega
  have further : 2 ^ (height + 1 + 1) = 2 * 2 ^ (height + 1) := pow_succ' 2 (height + 1)
  refine List.ext_getElem (by simp [oddAngles, double]) fun j inside also => ?_
  have below : j < 2 ^ (height + 1) := by simpa [oddAngles] using inside
  by_cases half : j < 2 ^ height
  · rw [List.getElem_append_left (by simpa [oddAngles] using half)]
    simp only [oddAngles, List.getElem_map, List.getElem_range, further]
    push_cast
    field_simp
  · have sum : (2 * (2 ^ height - 1 - (j - 2 ^ height)) + 1) + (2 * j + 1) = 2 * 2 ^ (height + 1) := by
      omega
    have mirrored : ((2 * (2 ^ height - 1 - (j - 2 ^ height)) + 1 : Nat) : ℝ) =
        (2 * 2 ^ (height + 1) : Nat) - (2 * j + 1 : Nat) := by
      rw [eq_sub_iff_add_eq]
      exact_mod_cast sum
    rw [List.getElem_append_right (by simpa [oddAngles] using half)]
    simp only [oddAngles, List.getElem_reverse, List.getElem_map, List.getElem_range,
      List.length_map, List.length_range, mirrored, further]
    push_cast
    field_simp
    ring

theorem splitAll_angles (depth height : Nat) (nodes : List Node)
    (angles : nodes.map (fun n => angle n.turns) = oddAngles height) :
    (splitAll depth nodes).map (fun n => angle n.turns) = oddAngles (height + depth) := by
  induction depth generalizing height nodes with
  | zero => exact angles
  | succ depth ih =>
    rw [splitAll_succ, ← Nat.add_assoc, Nat.add_right_comm]
    refine ih (height + 1) _ ?_
    have half (n : Node) : angle (n.part true).turns = angle n.turns / 2 := by
      rw [Node.part_eq]
      rfl
    have supplement (n : Node) : angle (n.part false).turns = π - angle n.turns / 2 := by
      rw [Node.part_eq]
      rfl
    rw [List.map_append, List.map_reverse, List.map_map, List.map_map, oddAngles_succ, ← angles,
      List.map_map, List.map_map]
    exact congrArg₂ (· ++ ·.reverse) (List.map_congr_left fun n _ => half n)
      (List.map_congr_left fun n _ => supplement n)

end BandLight.Transform
