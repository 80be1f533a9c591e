import BandLight.Transform.Surd
import Mathlib.Analysis.SpecialFunctions.Trigonometric.Bounds
import Mathlib.Data.Sign.Basic

/-! Nested roots as real numbers. A chain of turns leads from a right angle to the angle that it
halves and supplements, and the root of the chain is twice the cosine of that angle. An element
over the chain is a real number, on which the operations are those of the reals, and the sign that
is computed for it is its sign. -/
namespace BandLight.Transform

open Real

/-- The angle that a chain of turns leads to. -/
noncomputable def angle : List Bool → ℝ
  | [] => π / 2
  | true :: turns => angle turns / 2
  | false :: turns => π - angle turns / 2

noncomputable def root (turns : List Bool) : ℝ := 2 * cos (angle turns)

/-- No chain of turns comes closer to a straight line than half the last step. -/
theorem angle_bounds (turns : List Bool) :
    π / 2 ^ (turns.length + 1) ≤ angle turns ∧ angle turns ≤ π - π / 2 ^ (turns.length + 1) := by
  have positive := pi_pos
  induction turns with
  | nil =>
    simp only [angle, List.length_nil]
    constructor <;> linarith
  | cons turn turns ih =>
    obtain ⟨least, greatest⟩ := ih
    have half : π / 2 ^ ((turn :: turns).length + 1) = π / 2 ^ (turns.length + 1) / 2 := by
      rw [List.length_cons, pow_succ (2 : ℝ) (turns.length + 1), div_mul_eq_div_div]
    rw [half]
    have step : 0 < π / 2 ^ (turns.length + 1) := by positivity
    cases turn with
    | false =>
      simp only [angle]
      constructor <;> linarith
    | true =>
      simp only [angle]
      constructor <;> linarith

theorem root_nil : root [] = 0 := by
  rw [root, angle, cos_pi_div_two, mul_zero]

theorem root_supplement (turns : List Bool) : root (false :: turns) = -root (true :: turns) := by
  rw [root, root, angle, angle, cos_pi_sub, mul_neg]

theorem root_sq (turn : Bool) (turns : List Bool) :
    root (turn :: turns) ^ 2 = 2 + root turns := by
  have double : cos (angle turns) = 2 * cos (angle turns / 2) ^ 2 - 1 := by
    rw [← cos_two_mul, mul_div_cancel₀ _ two_ne_zero]
  cases turn with
  | false =>
    rw [root_supplement, root, root, angle, double]
    ring
  | true =>
    rw [root, root, angle, double]
    ring

/-- The root of a half angle stays away from zero, as the angle from a straight line. -/
theorem root_lower (turns : List Bool) : 1 / 2 ^ turns.length ≤ root (true :: turns) := by
  have bounds := angle_bounds turns
  have positive := pi_pos
  have power : (0 : ℝ) < 2 ^ turns.length := by positivity
  have half : π / 2 ^ (turns.length + 1) / 2 ≤ π / 2 - angle turns / 2 := by linarith [bounds.2]
  have step : 0 ≤ π / 2 ^ (turns.length + 1) := by positivity
  have concave := mul_le_sin (x := π / 2 - angle turns / 2) (by linarith) (by linarith)
  rw [sin_pi_div_two_sub] at concave
  calc 1 / 2 ^ turns.length = 2 * (2 / π * (π / 2 ^ (turns.length + 1) / 2)) := by
        rw [pow_succ]
        field_simp
    _ ≤ 2 * (2 / π * (π / 2 - angle turns / 2)) := by gcongr
    _ ≤ root (true :: turns) := by
        rw [root, angle]
        linarith

theorem root_pos (turns : List Bool) : 0 < root (true :: turns) :=
  lt_of_lt_of_le (by positivity) (root_lower turns)

theorem abs_root_le (turns : List Bool) : |root turns| ≤ 2 := by
  rw [root, abs_mul, abs_of_pos two_pos]
  linarith [abs_cos_le_one (angle turns)]

theorem two_add_root_nonneg (turns : List Bool) : 0 ≤ 2 + root turns := by
  linarith [(abs_le.mp (abs_root_le turns)).1]

theorem root_eq_sqrt (turns : List Bool) : root (true :: turns) = √(2 + root turns) := by
  rw [← root_sq true turns, sqrt_sq (root_pos turns).le]

namespace Surd

/-- An element over so many turns at most. -/
inductive Over : Nat → Surd → Prop
  | int (height : Nat) (n : Int) : Over height (int n)
  | pair {height : Nat} {a b : Surd} (first : Over height a) (second : Over height b) :
      Over (height + 1) (pair a b)

/-- The real number that an element stands for over a chain of turns. -/
noncomputable def value : List Bool → Surd → ℝ
  | _, int n => n
  | [], pair _ _ => 0
  | turn :: turns, pair a b => value turns a + root (turn :: turns) * value turns b

section
variable {height : Nat} {x y : Surd}

theorem Over.neg (spans : Over height x) : Over height x.neg := by
  induction spans with
  | int height n => exact .int height _
  | pair first second firstNeg secondNeg => exact .pair firstNeg secondNeg

theorem Over.scale (spans : Over height x) (factor : Int) : Over height (x.scale factor) := by
  induction spans with
  | int height n => exact .int height _
  | pair first second firstScale secondScale => exact .pair firstScale secondScale

theorem Over.add (spans : Over height x) (also : Over height y) : Over height (x.add y) := by
  induction spans generalizing y with
  | int height n =>
    induction also with
    | int height m =>
      rw [Surd.add]
      exact .int height _
    | pair first second sum _ =>
      rw [Surd.add]
      exact .pair sum second
  | pair first second firstAdd secondAdd =>
    cases also with
    | int height m =>
      rw [Surd.add]
      exact .pair (firstAdd (.int _ m)) second
    | pair third fourth =>
      rw [Surd.add]
      exact .pair (firstAdd third) (secondAdd fourth)

theorem Over.sub (spans : Over height x) (also : Over height y) : Over height (x.sub y) :=
  spans.add also.neg

theorem Over.mulRoot (spans : Over height x) : Over height (x.mulRoot height) := by
  induction spans with
  | int height n =>
    cases height with
    | zero => exact .int _ _
    | succ height => exact .pair (.int _ _) (.int _ _)
  | pair first second _ secondRoot => exact .pair ((second.add second).add secondRoot) first

theorem Over.mul (spans : Over height x) (also : Over height y) : Over height (mul height x y) := by
  induction height generalizing x y with
  | zero =>
    cases spans with
    | int _ n => exact also.scale n
  | succ height ih =>
    cases spans with
    | int _ n => exact also.scale n
    | pair first second =>
      cases also with
      | int _ m => exact (Over.pair first second).scale m
      | pair third fourth =>
        have square := ih second fourth
        exact .pair ((ih first third).add ((square.add square).add square.mulRoot))
          ((ih first fourth).add (ih second third))

end

section
variable {turns : List Bool} {x y : Surd}

@[simp] theorem value_int (turns : List Bool) (n : Int) : value turns (int n) = n := by
  cases turns <;> rfl

theorem value_pair (turn : Bool) (turns : List Bool) (a b : Surd) :
    value (turn :: turns) (pair a b) = value turns a + root (turn :: turns) * value turns b := rfl

theorem value_neg (turns : List Bool) (x : Surd) : value turns x.neg = -value turns x := by
  induction x generalizing turns with
  | int n => simp [neg]
  | pair a b first second =>
    cases turns with
    | nil => exact neg_zero.symm
    | cons turn turns =>
      rw [neg, value_pair, value_pair, first, second]
      ring

theorem value_scale (turns : List Bool) (factor : Int) (x : Surd) :
    value turns (x.scale factor) = factor * value turns x := by
  induction x generalizing turns with
  | int n => simp [scale]
  | pair a b first second =>
    cases turns with
    | nil => exact (mul_zero _).symm
    | cons turn turns =>
      rw [scale, value_pair, value_pair, first, second]
      ring

theorem value_add (spans : Over turns.length x) (also : Over turns.length y) :
    value turns (x.add y) = value turns x + value turns y := by
  induction turns generalizing x y with
  | nil =>
    cases spans with
    | int _ n =>
      cases also with
      | int _ m => simp [add]
  | cons turn turns ih =>
    cases spans with
    | int _ n =>
      cases also with
      | int _ m => simp [add]
      | pair first second =>
        rw [add, value_pair, value_pair, ih (.int _ n) first, value_int, value_int]
        ring
    | pair first second =>
      cases also with
      | int _ m =>
        rw [add, value_pair, value_pair, ih first (.int _ m), value_int, value_int]
        ring
      | pair third fourth =>
        rw [add, value_pair, value_pair, value_pair, ih first third, ih second fourth]
        ring

theorem value_sub (spans : Over turns.length x) (also : Over turns.length y) :
    value turns (x.sub y) = value turns x - value turns y := by
  rw [sub, value_add spans also.neg, value_neg, sub_eq_add_neg]

theorem value_mulRoot (spans : Over turns.length x) :
    value turns (x.mulRoot turns.length) = root turns * value turns x := by
  induction turns generalizing x with
  | nil => simp [mulRoot, root_nil]
  | cons turn turns ih =>
    cases spans with
    | int _ n => simp [mulRoot, value_pair]
    | @pair _ a b first second =>
      have square := root_sq turn turns
      have twice := second.add second
      rw [List.length_cons, mulRoot, value_pair, value_pair, value_add twice second.mulRoot,
        value_add second second, ih second]
      linear_combination -value turns b * square

theorem value_mul (spans : Over turns.length x) (also : Over turns.length y) :
    value turns (mul turns.length x y) = value turns x * value turns y := by
  induction turns generalizing x y with
  | nil =>
    cases spans with
    | int _ n => rw [mul, value_scale, value_int]
  | cons turn turns ih =>
    cases spans with
    | int _ n => rw [mul, value_scale, value_int]
    | @pair _ a b first second =>
      cases also with
      | int _ m =>
        rw [List.length_cons, mul, value_scale, value_int, mul_comm]
        rintro n ⟨⟩
      | @pair _ c d third fourth =>
        have square := root_sq turn turns
        have product := second.mul fourth
        have twice := product.add product
        rw [List.length_cons, mul, value_pair, value_pair, value_pair,
          value_add (first.mul third) (twice.add product.mulRoot),
          value_add twice product.mulRoot, value_add product product, value_mulRoot product,
          value_add (first.mul fourth) (second.mul third), ih first third, ih second fourth,
          ih first fourth, ih second third]
        linear_combination -(value turns b * value turns d) * square

/-- Of two numbers with opposite signs the one with the greater square gives its sign to the sum. -/
theorem sign_add_of_squares (u v : ℝ) :
    (if (SignType.sign v : ℤ) = 0 then (SignType.sign u : ℤ)
      else if (SignType.sign u : ℤ) = 0 ∨ (SignType.sign u : ℤ) = SignType.sign v then
        (SignType.sign v : ℤ)
      else SignType.sign u * SignType.sign (u ^ 2 - v ^ 2)) = (SignType.sign (u + v) : ℤ) := by
  rcases lt_trichotomy v 0 with negative | rfl | positive
  · rcases lt_trichotomy u 0 with below | rfl | above
    · simp [sign_neg negative, sign_neg below, sign_neg (add_neg below negative)]
    · simp [sign_neg negative]
    · have factors : u ^ 2 - v ^ 2 = (u - v) * (u + v) := by ring
      have apart : 0 < u - v := by linarith
      simp [sign_neg negative, sign_pos above, factors, sign_mul, sign_pos apart]
  · simp
  · rcases lt_trichotomy u 0 with below | rfl | above
    · have factors : u ^ 2 - v ^ 2 = (u - v) * (u + v) := by ring
      have apart : u - v < 0 := by linarith
      simp [sign_pos positive, sign_neg below, factors, sign_mul, sign_neg apart]
    · simp [sign_pos positive]
    · simp [sign_pos positive, sign_pos above, sign_pos (add_pos above positive)]

theorem sign_eq (spans : Over turns.length x) : sign turns x = SignType.sign (value turns x) := by
  induction turns generalizing x with
  | nil =>
    cases spans with
    | int _ n => simp [sign, Int.sign_eq_sign]
  | cons turn turns ih =>
    cases spans with
    | int _ n => simp [sign, Int.sign_eq_sign]
    | @pair _ a b first second =>
      have factor : (if turn then sign turns b else -sign turns b) =
          SignType.sign (root (turn :: turns) * value turns b) := by
        cases turn with
        | false => simp [root_supplement, sign_mul, sign_pos (root_pos turns), ih second, Left.sign_neg]
        | true => simp [sign_mul, sign_pos (root_pos turns), ih second]
      have product := second.mul second
      have twice := product.add product
      have squares : sign turns (sub (mul turns.length a a)
          (add (add (mul turns.length b b) (mul turns.length b b))
            (mulRoot turns.length (mul turns.length b b)))) =
          SignType.sign (value turns a ^ 2 - (root (turn :: turns) * value turns b) ^ 2) := by
        rw [ih ((first.mul first).sub (twice.add product.mulRoot)),
          value_sub (first.mul first) (twice.add product.mulRoot),
          value_add twice product.mulRoot, value_add product product, value_mulRoot product,
          value_mul first first, value_mul second second, mul_pow, root_sq]
        congr 2
        ring
      simp only [sign, factor, squares, ih first, value_pair]
      exact sign_add_of_squares _ _

end

end Surd

end BandLight.Transform
