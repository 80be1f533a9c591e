import BandLight.Proofs.ExactRemainders
import BandLight.Proofs.FixedPointNumbers
import BandLight.Proofs.SingleNorms
import Mathlib.Algebra.Order.Floor.Semiring

/-! Rounding by a guess and a test. The estimate of a squared absolute value gives a candidate that
is never too small, and the exact form decides which rounding edge below the candidate is reached.
The result is the integer nearest to the root in single precision, that above where two are as
near. -/
namespace BandLight.Transform

open Real

/-- What is known of a bin is true of the square of its absolute value. -/
structure Power.Shows (p : Power) (square : ℝ) : Prop where
  nonneg : 0 ≤ square
  near : |(p.estimate : ℝ) - unit ^ 2 * square| ≤ p.error
  stands : Surd.Stands p.turns (powerExact p.turns.length p.residue) square

/-- The nearest integer to the root of a square, in single precision, per sample. -/
noncomputable def nearest (size : Nat) (square : ℝ) : Nat := (round (single √square / size)).toNat

theorem slack_le {odd : Nat} (uneven : Odd odd) : slack odd ≤ odd * 2 := by
  rcases slack_cases uneven with ⟨one, s⟩ | ⟨apart, s⟩
  · omega
  · omega

section
variable {size depth : Nat} {square : ℝ} {magnitude : Nat}

theorem odd_two_mul_pred (some : 0 < magnitude) : Odd (2 * magnitude - 1) :=
  Nat.Even.sub_odd (by omega) (even_two_mul _) odd_one

theorem cast_edge (size : Nat) (some : 0 < magnitude) : (edge size magnitude : ℝ) =
    (size * ((2 * magnitude - 1 : Nat) * 2 ^ 25 - slack (2 * magnitude - 1))) ^ 2 := by
  have few := slack_le (odd_two_mul_pred some)
  have cast : (((2 * magnitude - 1) * 33554432 - slack (2 * magnitude - 1) : Nat) : ℝ) =
      (2 * magnitude - 1 : Nat) * 2 ^ 25 - slack (2 * magnitude - 1) := by
    rw [Nat.cast_sub (by omega)]
    push_cast
    norm_num
  rw [edge, ← cast, pow_two]
  push_cast
  rfl

theorem cast_odd (some : 0 < magnitude) : ((2 * magnitude - 1 : Nat) : ℝ) = 2 * magnitude - 1 := by
  rw [Nat.cast_sub (by omega)]
  push_cast
  rfl

/-- What is in a row with an odd number, halved, and with the halves going up. -/
theorem le_nearest_iff (sized : size = 2 ^ depth) (some : 0 < magnitude) (short : magnitude ≤ 65536)
    {root : ℝ} (positive : 0 < root) : magnitude ≤ (round (single root / size)).toNat ↔
      size * ((2 * magnitude - 1 : Nat) * 2 ^ 25 - slack (2 * magnitude - 1)) ≤ 2 ^ 26 * root := by
  obtain ⟨f, factor⟩ : ∃ f : ℝ, f = 2 ^ (26 - depth : ℤ) := ⟨_, rfl⟩
  have f_pos : 0 < f := factor ▸ zpow_pos two_pos _
  have size_pos : (0 : ℝ) < size := by
    rw [sized]
    positivity
  have total : size * f = 2 ^ 26 := by
    rw [factor, sized, zpow_sub₀ two_ne_zero, zpow_natCast]
    push_cast
    field_simp
  have scaled : single (root * f) = single root * f := by
    rw [factor]
    exact single_scaled positive.le _
  have reached := le_single_iff (odd_two_mul_pred some) (by omega) (mul_pos positive f_pos)
  have nonneg := single_nonneg positive.le
  have quotient : single root / size = single root * f / 2 ^ 26 := by
    rw [← total]
    field_simp
  rw [round_eq, Int.floor_toNat, Nat.le_floor_iff (by positivity)]
  calc (magnitude : ℝ) ≤ single root / size + 1 / 2 ↔
        ((2 * magnitude - 1 : Nat) : ℝ) * 2 ^ 25 ≤ single root * f := by
          rw [quotient, cast_odd some]
          constructor
          · intro least
            linarith
          · intro least
            linarith
    _ ↔ _ := by
      rw [← scaled, reached, ← total, mul_assoc, mul_le_mul_iff_right₀ size_pos, mul_comm f]

theorem edge_le_iff (sized : size = 2 ^ depth) (nonneg : 0 ≤ square) (some : 0 < magnitude)
    (short : magnitude ≤ 65536) :
    (edge size magnitude : ℝ) ≤ 2 ^ 52 * square ↔ magnitude ≤ nearest size square := by
  have uneven := odd_two_mul_pred some
  have few : (slack (2 * magnitude - 1) : ℝ) ≤ (2 * magnitude - 1 : Nat) * 2 := by
    exact_mod_cast slack_le uneven
  have size_pos : (0 : ℝ) < size := by
    rw [sized]
    positivity
  have one : (1 : ℝ) ≤ (2 * magnitude - 1 : Nat) := Nat.one_le_cast.mpr uneven.pos
  have side : 0 < size * ((2 * magnitude - 1 : Nat) * 2 ^ 25 - slack (2 * magnitude - 1) : ℝ) :=
    mul_pos size_pos (by linarith)
  rw [cast_edge size some, nearest]
  rcases nonneg.eq_or_lt with rfl | positive
  · rw [sqrt_zero, single_zero, zero_div, round_zero, Int.toNat_zero, mul_zero]
    exact iff_of_false (not_le.mpr (pow_pos side 2)) (by omega)
  · have whole : 2 ^ 52 * square = (2 ^ 26 * √square) ^ 2 := by
      rw [mul_pow, sq_sqrt nonneg]
      ring
    rw [le_nearest_iff sized some short (sqrt_pos.mpr positive), whole,
      sq_le_sq₀ side.le (by positivity)]

namespace Power

theorem zero_le_sign (x : ℝ) : 0 ≤ (SignType.sign x : ℤ) ↔ 0 ≤ x := by
  rcases lt_trichotomy x 0 with below | rfl | above
  · simp [sign_neg below, below]
  · simp
  · simp [sign_pos above, above.le]

theorem reaches_iff (sized : size = 2 ^ depth) {turns : List Bool} {exact : Surd}
    (nonneg : 0 ≤ square) (stands : Surd.Stands turns exact square) (some : 0 < magnitude)
    (short : magnitude ≤ 65536) :
    reaches size turns exact magnitude = true ↔ magnitude ≤ nearest size square := by
  obtain ⟨spans, rfl⟩ := stands
  have scaled := spans.scale 4503599627370496
  have number : Surd.Over turns.length (.int (edge size magnitude)) := .int _ _
  rw [reaches, decide_eq_true_iff, Surd.sign_eq (scaled.sub number), Surd.value_sub scaled number,
    Surd.value_scale, Surd.value_int, zero_le_sign, sub_nonneg, ← edge_le_iff sized nonneg some short]
  norm_num

theorem settle_eq (reached : Nat → Bool) (greatest candidate : Nat)
    (known : ∀ magnitude, 0 < magnitude → magnitude ≤ candidate →
      (reached magnitude = true ↔ magnitude ≤ greatest)) :
    settle reached candidate = min candidate greatest := by
  induction candidate with
  | zero => exact (Nat.zero_min greatest).symm
  | succ candidate ih =>
    have last := known _ candidate.succ_pos (Nat.le_refl _)
    rw [settle]
    split
    · next yes => exact (Nat.min_eq_left (last.mp yes)).symm
    · next no =>
        have beyond : ¬candidate + 1 ≤ greatest := mt last.mpr no
        rw [ih fun magnitude some below => known magnitude some (by omega)]
        omega

theorem nearest_le_candidate (sized : size = 2 ^ depth) (nonneg : 0 ≤ square) {upper : Int}
    (above : unit ^ 2 * square ≤ upper) : min (nearest size square) 32767 ≤
      (Nat.sqrt (4503599627370496 * upper.toNat) / (size * unit) / 33554430 + 1) / 2 := by
  rcases Nat.eq_zero_or_pos (min (nearest size square) 32767) with none | some
  · rw [none]
    exact Nat.zero_le _
  obtain ⟨magnitude, chosen⟩ : ∃ magnitude, magnitude = min (nearest size square) 32767 := ⟨_, rfl⟩
  rw [← chosen] at some ⊢
  have uneven := odd_two_mul_pred some
  obtain ⟨odd, shape⟩ : ∃ odd, odd = 2 * magnitude - 1 := ⟨_, rfl⟩
  have reached := (edge_le_iff sized nonneg some (by omega)).mpr (by omega)
  have known : (0 : ℝ) ≤ upper := (mul_nonneg (sq_nonneg _) nonneg).trans above
  have counted : ((upper.toNat : Int) : ℝ) = upper :=
    congrArg _ (Int.toNat_of_nonneg (by exact_mod_cast known))
  have few := slack_le uneven
  rw [← shape] at uneven few
  have lower : odd * 33554430 ≤ odd * 33554432 - slack odd := by omega
  let side := odd * 33554430 * (size * unit)
  have inside : side * side ≤ edge size magnitude * (unit * unit) := by
    have front := Nat.mul_le_mul_left size lower
    have whole : side * side = size * (odd * 33554430) * (size * (odd * 33554430)) * (unit * unit) := by
      ring
    rw [whole, edge, ← shape]
    exact Nat.mul_le_mul_right _ (Nat.mul_le_mul front front)
  have fits : side * side ≤ 4503599627370496 * upper.toNat := by
    have squared : ((side * side : Nat) : ℝ) ≤ (4503599627370496 * upper.toNat : Nat) := calc
      ((side * side : Nat) : ℝ) ≤ (edge size magnitude * (unit * unit) : Nat) := Nat.cast_le.mpr inside
      _ = unit ^ 2 * edge size magnitude := by
        push_cast
        ring
      _ ≤ unit ^ 2 * (2 ^ 52 * square) := mul_le_mul_of_nonneg_left reached (sq_nonneg _)
      _ = 2 ^ 52 * (unit ^ 2 * square) := mul_left_comm _ _ _
      _ ≤ 2 ^ 52 * (upper.toNat : Int) := mul_le_mul_of_nonneg_left (counted ▸ above) (by norm_num)
      _ = (4503599627370496 * upper.toNat : Nat) := by
        push_cast
        norm_num
    exact_mod_cast squared
  have root := Nat.le_sqrt.mpr fits
  have divided : odd * 33554430 ≤ Nat.sqrt (4503599627370496 * upper.toNat) / (size * unit) :=
    (Nat.le_div_iff_mul_le (Nat.mul_pos (by rw [sized]; positivity) (Nat.pow_pos (by decide)))).mpr root
  have twice := (Nat.le_div_iff_mul_le (by decide)).mpr divided
  omega

theorem rounded_eq (sized : size = 2 ^ depth) {p : Power} (shows : p.Shows square) :
    p.rounded size = min (nearest size square) 32767 := by
  obtain ⟨nonneg, near, stands⟩ := shows
  obtain ⟨least, greatest⟩ := abs_le.mp near
  obtain ⟨guess, guessed⟩ : ∃ guess, guess = (Nat.sqrt
    (4503599627370496 * (p.estimate + p.error).toNat) / (size * unit) / 33554430 + 1) / 2 := ⟨_, rfl⟩
  obtain ⟨candidate, limited⟩ : ∃ candidate, candidate = min guess 32767 := ⟨_, rfl⟩
  have above : min (nearest size square) 32767 ≤ guess :=
    guessed ▸ nearest_le_candidate sized nonneg (by push_cast; linarith)
  have defined : p.rounded size =
      if candidate = 0 ∨ ((edge size candidate * (unit * unit) : Nat) : Int) ≤
        4503599627370496 * (p.estimate - p.error) then candidate
      else settle (reaches size p.turns (powerExact p.turns.length p.residue)) candidate := by
    rw [limited, guessed]
    rfl
  rw [defined]
  split
  · next sure =>
      rcases Nat.eq_zero_or_pos candidate with none | some
      · omega
      · have reached := sure.resolve_left some.ne'
        have scaled : unit ^ 2 * (edge size candidate : ℝ) ≤ unit ^ 2 * (2 ^ 52 * square) := by
          have cast : ((edge size candidate * (unit * unit) : Nat) : ℝ) ≤
              4503599627370496 * ((p.estimate : ℝ) - p.error) := by exact_mod_cast reached
          push_cast at cast
          linarith
        have below := (edge_le_iff sized nonneg some (by omega)).mp
          (le_of_mul_le_mul_left scaled (pow_pos unit_pos 2))
        omega
  · rw [settle_eq _ _ _ fun _ some below =>
      reaches_iff sized nonneg stands some (by omega)]
    omega

end Power

end

end BandLight.Transform
