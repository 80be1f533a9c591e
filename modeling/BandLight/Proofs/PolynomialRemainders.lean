import BandLight.Proofs.NestedRoots
import BandLight.Transform.Residue
import Mathlib.Analysis.SpecialFunctions.Trigonometric.Basic
import Mathlib.Data.List.Forall2

/-! Remainders of real polynomials along a chain of turns. Where a number on the unit circle meets
the quadratic equation of a turn, the remainder that the turn leads to has the value there that
the polynomial had. A whole chain leaves two coefficients, and with them the squared absolute value
of the polynomial at the angle of the chain. -/
namespace BandLight.Transform

open Real

theorem halves_append {α : Type} (front back : List α) (same : front.length = back.length) :
    halves (front ++ back) = (front, back) := by
  have middle : (front ++ back).length / 2 = front.length := by
    rw [List.length_append, ← same]
    omega
  rw [halves, middle, List.splitAt_eq, List.take_left, List.drop_left]

theorem exists_quarters {α : Type} (items : List α) (size : Nat) (length : items.length = 4 * size) :
    ∃ a b c d : List α, items = (a ++ b) ++ (c ++ d) ∧
      a.length = size ∧ b.length = size ∧ c.length = size ∧ d.length = size := by
  refine ⟨items.take size, (items.drop size).take size, (items.drop (2 * size)).take size,
    items.drop (3 * size), ?_, ?_, ?_, ?_, ?_⟩
  · have third : items.drop (3 * size) = (items.drop (2 * size)).drop size := by
      rw [List.drop_drop]
      congr 1
      omega
    have second : items.drop (2 * size) = (items.drop size).drop size := by
      rw [List.drop_drop, Nat.two_mul]
    rw [third, List.take_append_drop, second, List.append_assoc, List.take_append_drop,
      List.take_append_drop]
  · rw [List.length_take]
    omega
  · rw [List.length_take, List.length_drop]
    omega
  · rw [List.length_take, List.length_drop]
    omega
  · rw [List.length_drop]
    omega

/-- The value of a polynomial that is given by its coefficients, the constant one first. -/
noncomputable def evaluate (z : ℂ) : List ℝ → ℂ
  | [] => 0
  | coefficient :: rest => coefficient + z * evaluate z rest

/-- The remainder that a turn to the root `β` leads to, from one for the root `α`. -/
def branch (α β : ℝ) (residue : List ℝ) : List ℝ :=
  let (front, back) := halves residue
  let (a, b) := halves front
  let (c, d) := halves back
  List.zipWith (· - ·) (List.zipWith (· - ·) a c) (d.map (β * ·))
    ++ List.zipWith (· + ·) (List.zipWith (· + ·) b (d.map fun x => x + α * x)) (c.map (β * ·))

noncomputable def remainder : List Bool → List ℝ → List ℝ
  | [], start => start
  | turn :: turns, start => branch (root turns) (root (turn :: turns)) (remainder turns start)

section
variable (z : ℂ)

theorem evaluate_append (first second : List ℝ) :
    evaluate z (first ++ second) = evaluate z first + z ^ first.length * evaluate z second := by
  induction first with
  | nil => simp [evaluate]
  | cons coefficient first ih =>
    rw [List.cons_append, evaluate, evaluate, ih, List.length_cons, pow_succ]
    ring

theorem evaluate_scale (factor : ℝ) (f : ℝ → ℝ) (scales : ∀ x, f x = factor * x) (items : List ℝ) :
    evaluate z (items.map f) = factor * evaluate z items := by
  induction items with
  | nil => simp [evaluate]
  | cons x items ih =>
    rw [List.map_cons, evaluate, evaluate, ih, scales]
    push_cast
    ring

theorem evaluate_add (first second : List ℝ) (same : first.length = second.length) :
    evaluate z (List.zipWith (· + ·) first second) = evaluate z first + evaluate z second := by
  induction first generalizing second with
  | nil =>
    rw [List.eq_nil_of_length_eq_zero (l := second) same.symm]
    exact (add_zero _).symm
  | cons x first ih =>
    cases second with
    | nil => cases same
    | cons y second =>
      rw [List.zipWith_cons_cons, evaluate, evaluate, evaluate, ih second (Nat.succ.inj same)]
      push_cast
      ring

theorem evaluate_sub (first second : List ℝ) (same : first.length = second.length) :
    evaluate z (List.zipWith (· - ·) first second) = evaluate z first - evaluate z second := by
  induction first generalizing second with
  | nil =>
    rw [List.eq_nil_of_length_eq_zero (l := second) same.symm]
    exact (sub_zero _).symm
  | cons x first ih =>
    cases second with
    | nil => cases same
    | cons y second =>
      rw [List.zipWith_cons_cons, evaluate, evaluate, evaluate, ih second (Nat.succ.inj same)]
      push_cast
      ring

end

theorem branch_quarters (α β : ℝ) (a b c d : List ℝ) (size : Nat) (first : a.length = size)
    (second : b.length = size) (third : c.length = size) (fourth : d.length = size) :
    branch α β ((a ++ b) ++ (c ++ d)) =
      List.zipWith (· - ·) (List.zipWith (· - ·) a c) (d.map (β * ·))
        ++ List.zipWith (· + ·) (List.zipWith (· + ·) b (d.map fun x => x + α * x))
          (c.map (β * ·)) := by
  have halved : (a ++ b).length = (c ++ d).length := by
    rw [List.length_append, List.length_append, first, second, third, fourth]
  simp only [branch, halves_append (a ++ b) (c ++ d) halved, halves_append a b (first.trans second.symm),
    halves_append c d (third.trans fourth.symm)]

theorem length_branch (α β : ℝ) (residue : List ℝ) (size : Nat) (length : residue.length = 4 * size) :
    (branch α β residue).length = 2 * size := by
  obtain ⟨a, b, c, d, rfl, first, second, third, fourth⟩ := exists_quarters residue size length
  rw [branch_quarters α β a b c d size first second third fourth]
  simp only [List.length_append, List.length_zipWith, List.length_map, first, second, third, fourth]
  omega

/-- Where `w = z ^ size` meets `w² - β w + 1 = 0`, the remainder has the value of the polynomial. -/
theorem evaluate_branch {α β : ℝ} {z : ℂ} {size : Nat} (square : β ^ 2 = 2 + α)
    (meets : (z ^ size) ^ 2 - β * z ^ size + 1 = 0) (residue : List ℝ)
    (length : residue.length = 4 * size) :
    evaluate z (branch α β residue) = evaluate z residue := by
  obtain ⟨a, b, c, d, rfl, first, second, third, fourth⟩ := exists_quarters residue size length
  have squared : (β : ℂ) ^ 2 = 2 + α := by exact_mod_cast square
  have scaled (x : ℝ) : x + α * x = (1 + α) * x := by ring
  rw [branch_quarters α β a b c d size first second third fourth, evaluate_append, evaluate_append,
    evaluate_append, evaluate_append, evaluate_sub, evaluate_sub, evaluate_add, evaluate_add,
    evaluate_scale z β _ fun _ => rfl, evaluate_scale z β _ fun _ => rfl,
    evaluate_scale z (1 + α) _ scaled]
  · simp only [List.length_append, List.length_zipWith, List.length_map, first, second, third,
      fourth, Nat.min_self, pow_add]
    push_cast
    generalize z ^ size = w at meets
    linear_combination
      (-evaluate z c - (w + β) * evaluate z d) * meets - w * evaluate z d * squared
  all_goals simp [first, second, third, fourth]

theorem length_remainder (turns : List Bool) (start : List ℝ) (further : Nat)
    (length : start.length = 2 ^ (turns.length + 1 + further)) :
    (remainder turns start).length = 2 ^ (1 + further) := by
  induction turns generalizing further with
  | nil => simpa [remainder, Nat.add_comm] using length
  | cons turn turns ih =>
    have before := ih (further + 1) (by
      rw [length, List.length_cons]
      congr 1
      omega)
    have quarters : (remainder turns start).length = 4 * 2 ^ further := by
      rw [before, Nat.add_comm, pow_add, pow_add]
      omega
    rw [remainder, length_branch _ _ _ _ quarters, Nat.add_comm, pow_succ, Nat.mul_comm]

/-- A chain of turns keeps the value at every number whose power meets its last equation. -/
theorem evaluate_remainder (turns : List Bool) (start : List ℝ) (z : ℂ) (further : Nat)
    (length : start.length = 2 ^ (turns.length + 1 + further))
    (meets : (z ^ 2 ^ further) ^ 2 - root turns * z ^ 2 ^ further + 1 = 0) :
    evaluate z (remainder turns start) = evaluate z start := by
  induction turns generalizing further with
  | nil => rfl
  | cons turn turns ih =>
    have longer : start.length = 2 ^ (turns.length + 1 + (further + 1)) := by
      rw [length, List.length_cons]
      congr 1
      omega
    have quarters : (remainder turns start).length = 4 * 2 ^ further := by
      rw [length_remainder turns start (further + 1) longer, Nat.add_comm, pow_add, pow_add]
      omega
    rw [remainder, evaluate_branch (root_sq turn turns) meets _ quarters]
    -- The square of a number that meets the equation of the turn meets the one before it.
    apply ih (further + 1) longer
    have squared : (root (turn :: turns) : ℂ) ^ 2 = 2 + root turns := by
      exact_mod_cast root_sq turn turns
    rw [pow_succ 2 further, pow_mul]
    generalize z ^ 2 ^ further = w at meets
    linear_combination (w ^ 2 + root (turn :: turns) * w + 1) * meets + w ^ 2 * squared

theorem normSq_evaluate_pair (r s θ : ℝ) :
    Complex.normSq (evaluate (Complex.exp (θ * Complex.I)) [r, s]) =
      r * r + s * s + 2 * cos θ * (r * s) := by
  have circle := sin_sq_add_cos_sq θ
  rw [evaluate, evaluate, evaluate, Complex.exp_mul_I, Complex.normSq_apply, ← Complex.ofReal_cos,
    ← Complex.ofReal_sin]
  simp [Complex.cos_ofReal_re, Complex.sin_ofReal_re]
  linear_combination s * s * circle

theorem exists_remainder (turns : List Bool) (start : List ℝ)
    (length : start.length = 2 ^ (turns.length + 1)) :
    ∃ r s, remainder turns start = [r, s] ∧
      r * r + s * s + root turns * (r * s) =
        Complex.normSq (evaluate (Complex.exp (angle turns * Complex.I)) start) := by
  have two := length_remainder turns start 0 length
  obtain ⟨r, s, pair⟩ := List.length_eq_two.mp two
  refine ⟨r, s, pair, ?_⟩
  have meets : (Complex.exp (angle turns * Complex.I) ^ 2 ^ 0) ^ 2
      - root turns * Complex.exp (angle turns * Complex.I) ^ 2 ^ 0 + 1 = 0 := by
    have circle : (Complex.sin (angle turns)) ^ 2 + (Complex.cos (angle turns)) ^ 2 = 1 :=
      Complex.sin_sq_add_cos_sq _
    rw [root, Complex.exp_mul_I, pow_zero, pow_one]
    push_cast
    linear_combination -circle + Complex.sin (angle turns) ^ 2 * Complex.I_sq
  rw [← evaluate_remainder turns start _ 0 length meets, pair, normSq_evaluate_pair, root]

section
variable {α β γ δ ε ζ : Type} {R : α → β → Prop} {S : γ → δ → Prop} {T : ε → ζ → Prop}

theorem forall₂_zipWith (f : α → γ → ε) (g : β → δ → ζ) {as : List α} {bs : List β}
    {cs : List γ} {ds : List δ} (first : List.Forall₂ R as bs) (second : List.Forall₂ S cs ds)
    (kept : ∀ a b c d, R a b → S c d → T (f a c) (g b d)) :
    List.Forall₂ T (List.zipWith f as cs) (List.zipWith g bs ds) := by
  induction first generalizing cs ds with
  | nil => exact .nil
  | cons head _ ih =>
    cases second with
    | nil => exact .nil
    | cons other rest => exact .cons (kept _ _ _ _ head other) (ih rest)

theorem forall₂_pair {as : List α} {b d : β} (each : List.Forall₂ R as [b, d]) :
    ∃ a c, as = [a, c] ∧ R a b ∧ R c d := by
  obtain ⟨a, rest, first, others, rfl⟩ := List.forall₂_cons_right_iff.mp each
  obtain ⟨c, none, second, empty, rfl⟩ := List.forall₂_cons_right_iff.mp others
  cases empty
  exact ⟨a, c, rfl, first, second⟩

theorem forall₂_halves {as : List α} {bs : List β} (each : List.Forall₂ R as bs) :
    List.Forall₂ R (halves as).1 (halves bs).1 ∧ List.Forall₂ R (halves as).2 (halves bs).2 := by
  simp only [halves, List.splitAt_eq, each.length_eq]
  exact ⟨List.forall₂_take _ each, List.forall₂_drop _ each⟩

end

end BandLight.Transform
