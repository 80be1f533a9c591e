import BandLight.Transform.Magnitude
import Mathlib.Algebra.Order.Archimedean.Real.Basic
import Mathlib.Algebra.Order.Field.Power
import Mathlib.Algebra.Order.Round
import Mathlib.Data.Int.Log
import Mathlib.Tactic.Linarith
import Mathlib.Tactic.Positivity
import Mathlib.Tactic.Ring

/-! Numbers in single precision. A positive number is rounded to the nearest multiple of the last
of its twenty-four binary places, of two as near to the even one; exponents have no bounds. Where
a number has few places, it is an even multiple, and is reached from the middle below it on. -/
namespace BandLight.Transform

/-- The nearest integer, and of two as near the even one. -/
noncomputable def nearestEven (y : ℝ) : ℤ :=
  if Int.fract y = 1 / (2 : Nat) ∧ Even ⌊y⌋ then ⌊y⌋ else round y

/-- What the last of the twenty-four binary places of a positive number is worth. -/
noncomputable def lastPlace (x : ℝ) : ℝ := ((2 : Nat) : ℝ) ^ (Int.log 2 x - 23)

noncomputable def single (x : ℝ) : ℝ := nearestEven (x / lastPlace x) * lastPlace x

section
variable {x y : ℝ} {n : ℤ}

theorem le_nearestEven (below : (n : ℝ) ≤ y) : n ≤ nearestEven y := by
  have floor : n ≤ ⌊y⌋ := Int.le_floor.mpr below
  unfold nearestEven
  split
  · exact floor
  · rw [round_eq]
    exact floor.trans (Int.floor_mono (by linarith))

theorem nearestEven_le (above : y ≤ n) : nearestEven y ≤ n := by
  unfold nearestEven
  split
  · exact_mod_cast (Int.floor_le y).trans above
  · rw [round_eq]
    exact Int.lt_add_one_iff.mp (Int.floor_lt.mpr (by push_cast; linarith))

theorem even_le_nearestEven (even : Even n) : n ≤ nearestEven y ↔ (n : ℝ) - 1 / 2 ≤ y := by
  unfold nearestEven
  split
  · next tie =>
      have half : y = ⌊y⌋ + 1 / 2 := by
        have parts := Int.floor_add_fract y
        rw [tie.1] at parts
        push_cast at parts
        exact parts.symm
      -- The integer above the middle is odd.
      have apart : n ≠ ⌊y⌋ + 1 := by
        rintro rfl
        exact (Int.not_even_iff_odd.mpr tie.2.add_one) even
      constructor
      · intro least
        have cast : (n : ℝ) ≤ ⌊y⌋ := Int.cast_le.mpr least
        linarith
      · intro middle
        have cast : (n : ℝ) ≤ (⌊y⌋ + 1 : ℤ) := by
          push_cast
          linarith
        have next := Int.cast_le.mp cast
        omega
  · rw [round_eq, Int.le_floor, sub_le_iff_le_add]

theorem lastPlace_pos (x : ℝ) : 0 < lastPlace x := zpow_pos (by norm_num) _

theorem le_single (below : n * lastPlace x ≤ x) : n * lastPlace x ≤ single x := by
  have quotient := (le_div_iff₀ (lastPlace_pos x)).mpr below
  exact mul_le_mul_of_nonneg_right (Int.cast_le.mpr (le_nearestEven quotient)) (lastPlace_pos x).le

theorem single_le (above : x ≤ n * lastPlace x) : single x ≤ n * lastPlace x := by
  have quotient := (div_le_iff₀ (lastPlace_pos x)).mpr above
  exact mul_le_mul_of_nonneg_right (Int.cast_le.mpr (nearestEven_le quotient)) (lastPlace_pos x).le

theorem single_nonneg (nonneg : 0 ≤ x) : 0 ≤ single x := by
  have least := le_single (x := x) (n := 0) (by rwa [Int.cast_zero, zero_mul])
  rwa [Int.cast_zero, zero_mul] at least

theorem even_le_single (even : Even n) :
    n * lastPlace x ≤ single x ↔ n * lastPlace x - lastPlace x / 2 ≤ x := by
  have half : n * lastPlace x - lastPlace x / 2 = (n - 1 / 2) * lastPlace x := by ring
  rw [single, mul_le_mul_iff_left₀ (lastPlace_pos x), Int.cast_le, even_le_nearestEven even,
    le_div_iff₀ (lastPlace_pos x), half]

theorem lastPlace_scaled (positive : 0 < x) (i : ℤ) : lastPlace (x * 2 ^ i) = lastPlace x * 2 ^ i := by
  have scaled : 0 < x * (2 : ℝ) ^ i := by positivity
  have least : ((2 : Nat) : ℝ) ^ (Int.log 2 x + i) ≤ x * 2 ^ i := by
    rw [zpow_add₀ (by norm_num)]
    push_cast
    exact mul_le_mul_of_nonneg_right
      (by exact_mod_cast Int.zpow_log_le_self one_lt_two positive) (by positivity)
  have greatest : x * 2 ^ i < ((2 : Nat) : ℝ) ^ (Int.log 2 x + 1 + i) := by
    rw [zpow_add₀ (by norm_num)]
    push_cast
    exact mul_lt_mul_of_pos_right
      (by exact_mod_cast Int.lt_zpow_succ_log_self one_lt_two x) (by positivity)
  have low := (Int.zpow_le_iff_le_log one_lt_two scaled).mp least
  have high := (Int.lt_zpow_iff_log_lt one_lt_two scaled).mp greatest
  have same : Int.log 2 (x * (2 : ℝ) ^ i) - 23 = Int.log 2 x - 23 + i := by omega
  rw [lastPlace, same, zpow_add₀ (by norm_num)]
  rfl

theorem single_zero : single 0 = 0 := by
  simp [single, nearestEven]

theorem single_scaled (nonneg : 0 ≤ x) (i : ℤ) : single (x * 2 ^ i) = single x * 2 ^ i := by
  rcases nonneg.eq_or_lt with rfl | positive
  · rw [zero_mul, single_zero, zero_mul]
  · rw [single, single, lastPlace_scaled positive, mul_div_mul_right _ _ (by positivity), mul_assoc]

theorem lastPlace_eq {k : Nat} (low : (2 : ℝ) ^ (k + 23) ≤ x) (high : x < 2 ^ (k + 24)) :
    lastPlace x = 2 ^ k := by
  have positive : 0 < x := lt_of_lt_of_le (by positivity) low
  have least := (Int.zpow_le_iff_le_log (b := 2) one_lt_two positive (x := (k + 23 : Nat))).mp
    (by rw [zpow_natCast]; exact_mod_cast low)
  have greatest := (Int.lt_zpow_iff_log_lt (b := 2) one_lt_two positive (x := (k + 24 : Nat))).mp
    (by rw [zpow_natCast]; exact_mod_cast high)
  have log : Int.log 2 x - 23 = (k : Nat) := by omega
  rw [lastPlace, log, zpow_natCast]
  rfl

theorem pow_le_single {k : Nat} (below : (2 : ℝ) ^ k ≤ x) : (2 : ℝ) ^ k ≤ single x := by
  have positive : 0 < x := lt_of_lt_of_le (by positivity) below
  have few := (Int.zpow_le_iff_le_log (b := 2) one_lt_two positive (x := (k : Int))).mp
    (by rw [zpow_natCast]; exact_mod_cast below)
  have places : ((2 ^ 23 : ℤ) : ℝ) * lastPlace x = ((2 : Nat) : ℝ) ^ Int.log 2 x := by
    rw [lastPlace, zpow_sub₀ (by norm_num)]
    push_cast
    ring
  calc (2 : ℝ) ^ k = ((2 : Nat) : ℝ) ^ (k : Int) := (zpow_natCast _ _).symm
    _ ≤ ((2 : Nat) : ℝ) ^ Int.log 2 x := zpow_le_zpow_right₀ (by norm_num) few
    _ = ((2 ^ 23 : ℤ) : ℝ) * lastPlace x := places.symm
    _ ≤ single x := le_single (places ▸ Int.zpow_log_le_self one_lt_two positive)

theorem single_le_pow {k : Nat} (positive : 0 < x) (above : x < 2 ^ k) : single x ≤ 2 ^ k := by
  have few := (Int.lt_zpow_iff_log_lt (b := 2) one_lt_two positive (x := (k : Int))).mp
    (by rw [zpow_natCast]; exact_mod_cast above)
  have places : ((2 ^ 24 : ℤ) : ℝ) * lastPlace x = ((2 : Nat) : ℝ) ^ (Int.log 2 x + 1) := by
    rw [lastPlace, zpow_sub₀ (by norm_num), zpow_add₀ (by norm_num)]
    push_cast
    ring
  calc single x ≤ ((2 ^ 24 : ℤ) : ℝ) * lastPlace x :=
        single_le (places ▸ (Int.lt_zpow_succ_log_self one_lt_two x).le)
    _ = ((2 : Nat) : ℝ) ^ (Int.log 2 x + 1) := places
    _ ≤ ((2 : Nat) : ℝ) ^ (k : Int) := zpow_le_zpow_right₀ (by norm_num) few
    _ = 2 ^ k := zpow_natCast _ _

/-- A count of few places, with twenty-five more behind them, is reached from half a last place
below it on. -/
theorem scaled_le_single {k spare : Nat} (total : k + spare = 25) (some : 0 < spare)
    (low : (2 : ℝ) ^ (k + 23) ≤ x) (high : x < 2 ^ (k + 24)) (count : Nat) :
    count * 2 ^ 25 ≤ single x ↔ count * 2 ^ 25 - (2 : ℝ) ^ k / 2 ≤ x := by
  have last := lastPlace_eq low high
  have even : Even ((count * 2 ^ spare : Nat) : ℤ) := by
    rw [Int.even_coe_nat]
    exact Even.mul_left (Nat.even_pow.mpr ⟨even_two, some.ne'⟩) count
  have whole : ((count * 2 ^ spare : Nat) : ℤ) * lastPlace x = count * 2 ^ 25 := by
    rw [last, ← total, pow_add]
    push_cast
    ring
  have reached := even_le_single (x := x) even
  rwa [whole, last] at reached

end

theorem slack_cases {odd : Nat} (uneven : Odd odd) :
    odd = 1 ∧ slack odd = 1 ∨ 2 ^ odd.log2 + 1 ≤ odd ∧ slack odd = 2 ^ odd.log2 * 2 := by
  by_cases single : odd = 1
  · exact .inl ⟨single, if_pos single⟩
  · refine .inr ⟨Nat.lt_of_le_of_ne (Nat.log2_self_le uneven.pos.ne') fun power => ?_, if_neg single⟩
    rcases Nat.eq_zero_or_pos odd.log2 with none | some
    · exact single (by rw [← power, none, pow_zero])
    · exact Nat.not_even_iff_odd.mpr uneven (power ▸ Nat.even_pow.mpr ⟨even_two, some.ne'⟩)

theorem odd_between {odd : Nat} (uneven : Odd odd) (short : odd < 2 ^ 20) :
    ∃ places : Nat, places < 20 ∧ ∃ p : ℝ, p = 2 ^ places ∧ 1 ≤ p ∧ p ≤ 2 ^ 19 ∧ p ≤ odd ∧ odd < p * 2 ∧
      ((odd : ℝ) = 1 ∧ p = 1 ∧ (slack odd : ℝ) = 1 ∨ p + 1 ≤ odd ∧ (slack odd : ℝ) = p * 2) := by
  have least : 2 ^ odd.log2 ≤ odd := Nat.log2_self_le uneven.pos.ne'
  have greatest : odd < 2 ^ odd.log2 * 2 := Nat.lt_log2_self
  have few : odd.log2 < 20 := (Nat.pow_lt_pow_iff_right one_lt_two).mp (least.trans_lt short)
  have bound : 2 ^ odd.log2 ≤ 2 ^ 19 := Nat.pow_le_pow_right two_pos (by omega)
  refine ⟨odd.log2, few, 2 ^ odd.log2, rfl, one_le_pow₀ one_le_two, by exact_mod_cast bound,
    by exact_mod_cast least, by exact_mod_cast greatest, ?_⟩
  rcases slack_cases uneven with ⟨rfl, s⟩ | ⟨apart, s⟩
  · have one : Nat.log2 1 = 0 := rfl
    exact .inl ⟨Nat.cast_one, by rw [one, pow_zero], by rw [s, Nat.cast_one]⟩
  · exact .inr ⟨by exact_mod_cast apart, by rw [s]; push_cast; rfl⟩

/-- The edges of rounding: below an odd number, with twenty-five places behind it, the slack is
rounded up to it. Below a power of two the places are worth half. -/
theorem le_single_iff {x : ℝ} {odd : Nat} (uneven : Odd odd) (short : odd < 2 ^ 20)
    (positive : 0 < x) : odd * 2 ^ 25 ≤ single x ↔ (odd * 2 ^ 25 - slack odd : ℝ) ≤ x := by
  obtain ⟨places, few, p, power, one_le, narrow, low, high, kinds⟩ := odd_between uneven short
  have raised (k : Nat) : (2 : ℝ) ^ (places + k) = p * 2 ^ k := by rw [pow_add, power]
  rcases le_or_gt (2 ^ (places + 26)) x with beyond | near
  · have rounded := pow_le_single beyond
    rw [raised] at beyond rounded
    exact iff_of_true (by linarith) (by rcases kinds with ⟨-, -, s⟩ | ⟨-, s⟩ <;> rw [s] <;> linarith)
  rcases le_or_gt (2 ^ (places + 25)) x with same | less
  · have total : places + 2 + (23 - places) = 25 := by omega
    have reached := scaled_le_single total (by omega) same near odd
    rw [raised] at reached same
    rcases kinds with ⟨o, one, s⟩ | ⟨-, s⟩
    · rw [reached, s, o, one]
      rw [one] at same
      exact iff_of_true (by linarith) (by linarith)
    · rw [reached, s]
      ring_nf
  rcases le_or_gt (2 ^ (places + 24)) x with half | far
  · have total : places + 1 + (24 - places) = 25 := by omega
    have reached := scaled_le_single total (by omega) half less odd
    rw [raised] at reached less
    rw [reached]
    rcases kinds with ⟨-, one, s⟩ | ⟨apart, s⟩
    · rw [s, one]
      norm_num
    · rw [s]
      exact iff_of_false (by linarith) (by linarith)
  · have rounded := single_le_pow positive far
    rw [raised] at far rounded
    exact iff_of_false (by linarith)
      (by rcases kinds with ⟨-, one, s⟩ | ⟨-, s⟩ <;> rw [s] <;> linarith)

end BandLight.Transform
