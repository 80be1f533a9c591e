import BandLight.Transform.Residue
import Mathlib.Analysis.Real.Sqrt
import Mathlib.Tactic.FieldSimp
import Mathlib.Tactic.Linarith
import Mathlib.Tactic.LinearCombination
import Mathlib.Tactic.Positivity

/-! Fixed-point numbers and the real numbers that they keep. The error of a sum, of a product that is
rounded down and of the squared absolute value that two coefficients give follows from the errors
and bounds of what they are made from. -/
namespace BandLight.Transform

open Real

theorem unit_pos : (0 : ℝ) < unit := by
  have positive : 0 < unit := Nat.pow_pos (by decide)
  exact_mod_cast positive

/-- A fixed-point number and the bounded number that it keeps within an error. -/
def Near (error bound : ℝ) (x : Int) (y : ℝ) : Prop := |(x : ℝ) - unit * y| ≤ error ∧ |y| ≤ bound

section
variable {e d R S : ℝ} {x v : Int} {y w : ℝ}

theorem Near.mono (near : Near e R x y) (wider : e ≤ d) (larger : R ≤ S) : Near d S x y :=
  ⟨near.1.trans wider, near.2.trans larger⟩

theorem Near.add (near : Near e R x y) (also : Near d S v w) : Near (e + d) (R + S) (x + v) (y + w) := by
  refine ⟨?_, (abs_add_le y w).trans (add_le_add near.2 also.2)⟩
  have split : ((x + v : Int) : ℝ) - unit * (y + w) = (x - unit * y) + (v - unit * w) := by
    push_cast
    ring
  rw [split]
  exact (abs_add_le _ _).trans (add_le_add near.1 also.1)

theorem Near.sub (near : Near e R x y) (also : Near d S v w) : Near (e + d) (R + S) (x - v) (y - w) := by
  refine ⟨?_, (abs_sub y w).trans (add_le_add near.2 also.2)⟩
  have split : ((x - v : Int) : ℝ) - unit * (y - w) = (x - unit * y) - (v - unit * w) := by
    push_cast
    ring
  rw [split]
  exact (abs_sub _ _).trans (add_le_add near.1 also.1)

theorem Near.sub_turned (near : Near e R x y) (turn : Bool)
    (turned : Near d S v (if turn then w else -w)) :
    Near (e + d) (R + S) (if turn then x - v else x + v) (y - w) := by
  cases turn with
  | false =>
    have sum := near.add turned
    rwa [if_neg Bool.false_ne_true, ← sub_eq_add_neg] at sum
  | true => exact near.sub turned

theorem Near.add_turned (near : Near e R x y) (turn : Bool)
    (turned : Near d S v (if turn then w else -w)) :
    Near (e + d) (R + S) (if turn then x + v else x - v) (y + w) := by
  cases turn with
  | false =>
    have difference := near.sub turned
    rwa [if_neg Bool.false_ne_true, sub_neg_eq_add] at difference
  | true => exact near.add turned

theorem abs_mulFixed_sub_le (x y : Int) : |(mulFixed x y : ℝ) - x * y / unit| ≤ 1 := by
  have positive := unit_pos
  have quotient : mulFixed x y = x * y / (unit : Int) := Int.shiftRight_eq_div_pow _ _
  have some : (0 : Int) < unit := by exact_mod_cast positive
  have least := Int.ediv_mul_le (x * y) some.ne'
  have greatest := Int.lt_ediv_add_one_mul_self (x * y) some
  rw [← quotient] at least greatest
  have lower : (mulFixed x y : ℝ) * unit ≤ x * y := by exact_mod_cast least
  have upper : (x * y : ℝ) < (mulFixed x y + 1) * unit := by exact_mod_cast greatest
  rw [abs_le]
  constructor
  · have := (div_lt_iff₀ positive).mpr upper
    linarith
  · have := (le_div_iff₀ positive).mpr lower
    linarith

theorem Near.mulFixed {β : ℝ} (near : Near e R x y) (kept : |(v : ℝ) - unit * β| ≤ d)
    (small : |(v : ℝ)| ≤ 2 * unit) (least : |β| ≤ 2) :
    Near (d * R + 2 * e + 1) (2 * R) (mulFixed v x) (β * y) := by
  have positive := unit_pos
  have product : (v : ℝ) * x / unit - unit * (β * y) =
      (v - unit * β) * y + v / unit * (x - unit * y) := by
    field_simp
    ring
  have scale : |(v : ℝ) / unit| ≤ 2 := by
    rw [abs_div, abs_of_pos positive]
    exact (div_le_iff₀ positive).mpr small
  have first : |((v : ℝ) - unit * β) * y| ≤ d * R := by
    rw [abs_mul]
    exact mul_le_mul kept near.2 (abs_nonneg _) ((abs_nonneg _).trans kept)
  have second : |(v : ℝ) / unit * (x - unit * y)| ≤ 2 * e := by
    rw [abs_mul]
    exact mul_le_mul scale near.1 (abs_nonneg _) two_pos.le
  refine ⟨?_, ?_⟩
  · calc |(Transform.mulFixed v x : ℝ) - unit * (β * y)|
        = |((Transform.mulFixed v x : ℝ) - v * x / unit) + ((v - unit * β) * y
            + v / unit * (x - unit * y))| := by rw [← product]; ring_nf
      _ ≤ 1 + (d * R + 2 * e) :=
          (abs_add_le _ _).trans (add_le_add (abs_mulFixed_sub_le v x)
            ((abs_add_le _ _).trans (add_le_add first second)))
      _ = d * R + 2 * e + 1 := by ring
  · rw [abs_mul]
    exact mul_le_mul least near.2 (abs_nonneg _) two_pos.le

end

theorem abs_sqrt_sub_sqrt_mul_le (x y : ℝ) (nonneg : 0 ≤ x) (also : 0 ≤ y) :
    |√x - √y| * √y ≤ |x - y| := by
  have factors : x - y = (√x - √y) * (√x + √y) := by
    linear_combination -(sq_sqrt nonneg) + sq_sqrt also
  have sum : |√x + √y| = √x + √y := abs_of_nonneg (by positivity)
  rw [factors, abs_mul, sum]
  exact mul_le_mul_of_nonneg_left (le_add_of_nonneg_left (sqrt_nonneg x)) (abs_nonneg _)

theorem Near.exact {R y : ℝ} {x : Int} (near : Near 0 R x y) : (x : ℝ) = unit * y :=
  sub_eq_zero.mp (abs_nonpos_iff.mp near.1)

/-- Both products are off by the error of one factor, times about twice the size of the other. -/
theorem abs_mul_sub_le {e R : ℝ} {x v : Int} {y w : ℝ} (near : Near e R x y) (also : Near e R v w) :
    |(x : ℝ) * v - unit ^ 2 * (y * w)| ≤ e * (2 * unit * R + e) := by
  have positive := unit_pos
  have split : (x : ℝ) * v - unit ^ 2 * (y * w) =
      (x - unit * y) * (v - unit * w) + (x - unit * y) * (unit * w) + unit * y * (v - unit * w) := by
    ring
  have scaled {z : ℝ} (least : |z| ≤ R) : |unit * z| ≤ unit * R := by
    rw [abs_mul, abs_of_pos positive]
    exact mul_le_mul_of_nonneg_left least positive.le
  have some := (abs_nonneg _).trans near.1
  have wide := (abs_nonneg _).trans (scaled near.2)
  have first := mul_le_mul near.1 also.1 (abs_nonneg _) some
  have second := mul_le_mul near.1 (scaled also.2) (abs_nonneg _) some
  have third := mul_le_mul (scaled near.2) also.1 (abs_nonneg _) wide
  rw [← abs_mul] at first second third
  rw [split]
  calc _ ≤ e * e + e * (unit * R) + unit * R * e :=
        (abs_add_le _ _).trans (add_le_add ((abs_add_le _ _).trans (add_le_add first second)) third)
    _ = _ := by ring

/-- The power of two coefficients and a root, all three of them off by what they may be. -/
theorem abs_power_sub_le {e d R α : ℝ} {x v β : Int} {y w : ℝ} (near : Near e R x y)
    (also : Near e R v w) (kept : |(β : ℝ) - unit * α| ≤ d) (small : |(β : ℝ)| ≤ 2 * unit) :
    |((x * x + v * v + mulFixed β (x * v) : Int) : ℝ) - unit ^ 2 * (y * y + w * w + α * (y * w))| ≤
      4 * e * (2 * unit * R + e) + d * unit * R * R + 1 := by
  have positive := unit_pos
  have cross := abs_mul_sub_le near also
  have split : ((x * x + v * v + mulFixed β (x * v) : Int) : ℝ)
      - unit ^ 2 * (y * y + w * w + α * (y * w)) =
      ((x * x - unit ^ 2 * (y * y)) + (v * v - unit ^ 2 * (w * w)))
        + ((mulFixed β (x * v) - β * (x * v : Int) / unit)
          + (β / unit * (x * v - unit ^ 2 * (y * w)) + (β - unit * α) * (unit * (y * w)))) := by
    push_cast
    field_simp
    ring
  have turned : |(β : ℝ) / unit * (x * v - unit ^ 2 * (y * w))| ≤ 2 * (e * (2 * unit * R + e)) := by
    have scale : |(β : ℝ) / unit| ≤ 2 := by
      rw [abs_div, abs_of_pos positive]
      exact (div_le_iff₀ positive).mpr small
    rw [abs_mul]
    exact mul_le_mul scale cross (abs_nonneg _) two_pos.le
  have rotated : |((β : ℝ) - unit * α) * (unit * (y * w))| ≤ d * (unit * (R * R)) := by
    have wide : |unit * (y * w)| ≤ unit * (R * R) := by
      rw [abs_mul, abs_of_pos positive, abs_mul]
      exact mul_le_mul_of_nonneg_left (mul_le_mul near.2 also.2 (abs_nonneg _)
        ((abs_nonneg _).trans near.2)) positive.le
    rw [abs_mul]
    exact mul_le_mul kept wide (abs_nonneg _) ((abs_nonneg _).trans kept)
  rw [split]
  calc _ ≤ (e * (2 * unit * R + e) + e * (2 * unit * R + e))
        + (1 + (2 * (e * (2 * unit * R + e)) + d * (unit * (R * R)))) :=
        (abs_add_le _ _).trans (add_le_add
          ((abs_add_le _ _).trans (add_le_add (abs_mul_sub_le near near) (abs_mul_sub_le also also)))
          ((abs_add_le _ _).trans (add_le_add (abs_mulFixed_sub_le _ _)
            ((abs_add_le _ _).trans (add_le_add turned rotated)))))
    _ = _ := by ring

end BandLight.Transform
