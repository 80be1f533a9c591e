import BandLight.Proofs.PolynomialRemainders

/-! The exact splitting. It is made once for all chains of turns: over each of them its elements
stand for the coefficients of the remainder that the chain leads to, so that the two that are left
give the squared absolute value at the angle of the chain. -/
namespace BandLight.Transform

namespace Surd

/-- An element over a chain of turns and the number that it stands for there. -/
def Stands (turns : List Bool) (x : Surd) (y : ℝ) : Prop :=
  Over turns.length x ∧ value turns x = y

end Surd

open Surd

section
variable {turns : List Bool} {a b c d : List Surd} {p q r s : List ℝ}

theorem stands_low (turn : Bool) (first : List.Forall₂ (Stands turns) a p)
    (third : List.Forall₂ (Stands turns) c r) (fourth : List.Forall₂ (Stands turns) d s) :
    List.Forall₂ (Stands (turn :: turns))
      (List.zipWith Surd.pair (List.zipWith Surd.sub a c) (d.map Surd.neg))
      (List.zipWith (· - ·) (List.zipWith (· - ·) p r) (s.map (root (turn :: turns) * ·))) := by
  have difference : List.Forall₂ (Stands turns) (List.zipWith Surd.sub a c)
      (List.zipWith (· - ·) p r) := by
    refine forall₂_zipWith _ _ first third ?_
    rintro x u y v ⟨spans, rfl⟩ ⟨also, rfl⟩
    exact ⟨spans.sub also, value_sub spans also⟩
  have turned : List.Forall₂ (fun x y => Over turns.length x ∧ root (turn :: turns) * value turns x = -y)
      (d.map Surd.neg) (s.map (root (turn :: turns) * ·)) := by
    refine List.forall₂_map_left_iff.mpr (List.forall₂_map_right_iff.mpr (fourth.imp ?_))
    rintro x y ⟨spans, rfl⟩
    exact ⟨spans.neg, by rw [value_neg, mul_neg]⟩
  refine forall₂_zipWith _ _ difference turned ?_
  rintro x u y v ⟨spans, rfl⟩ ⟨also, same⟩
  exact ⟨.pair spans also, by rw [value_pair, same, sub_eq_add_neg]⟩

theorem stands_high (turn : Bool) (second : List.Forall₂ (Stands turns) b q)
    (third : List.Forall₂ (Stands turns) c r) (fourth : List.Forall₂ (Stands turns) d s) :
    List.Forall₂ (Stands (turn :: turns))
      (List.zipWith Surd.pair
        (List.zipWith Surd.add b (d.map fun x => x.add (x.mulRoot turns.length))) c)
      (List.zipWith (· + ·) (List.zipWith (· + ·) q (s.map fun x => x + root turns * x))
        (r.map (root (turn :: turns) * ·))) := by
  have folded : List.Forall₂ (Stands turns) (d.map fun x => x.add (x.mulRoot turns.length))
      (s.map fun x => x + root turns * x) := by
    refine List.forall₂_map_left_iff.mpr (List.forall₂_map_right_iff.mpr (fourth.imp ?_))
    rintro x y ⟨spans, rfl⟩
    exact ⟨spans.add spans.mulRoot, by rw [value_add spans spans.mulRoot, value_mulRoot spans]⟩
  have sum : List.Forall₂ (Stands turns)
      (List.zipWith Surd.add b (d.map fun x => x.add (x.mulRoot turns.length)))
      (List.zipWith (· + ·) q (s.map fun x => x + root turns * x)) := by
    refine forall₂_zipWith _ _ second folded ?_
    rintro x u y v ⟨spans, rfl⟩ ⟨also, rfl⟩
    exact ⟨spans.add also, value_add spans also⟩
  have turned : List.Forall₂ (fun x y => Over turns.length x ∧ root (turn :: turns) * value turns x = y)
      c (r.map (root (turn :: turns) * ·)) := by
    refine List.forall₂_map_right_iff.mpr (third.imp ?_)
    rintro x y ⟨spans, rfl⟩
    exact ⟨spans, rfl⟩
  refine forall₂_zipWith _ _ sum turned ?_
  rintro x u y v ⟨spans, rfl⟩ ⟨also, rfl⟩
  exact ⟨.pair spans also, value_pair turn turns x y⟩

end

theorem splitExact_stands (later : List Bool) (turns : List Bool) (start : List ℝ)
    (residue : List Surd) (stands : List.Forall₂ (Stands turns) residue (remainder turns start)) :
    List.Forall₂ (Stands (later ++ turns)) (splitExact later.length turns.length residue)
      (remainder (later ++ turns) start) := by
  induction later using List.reverseRecOn generalizing turns residue with
  | nil => exact stands
  | append_singleton later turn ih =>
    -- The splitting begins with the turn that comes first, the last one of the list.
    have halved := forall₂_halves stands
    have front := forall₂_halves halved.1
    have back := forall₂_halves halved.2
    have split := List.rel_append (stands_low turn front.1 back.1 back.2)
      (stands_high turn front.2 back.1 back.2)
    have rest := ih (turn :: turns) _ split
    rw [List.length_append, List.length_singleton, List.append_assoc]
    exact rest

theorem powerExact_stands (turns : List Bool) (residue : List Int)
    (length : residue.length = 2 ^ (turns.length + 1)) :
    Stands turns (powerExact turns.length residue)
      (Complex.normSq (evaluate (Complex.exp (angle turns * Complex.I))
        (residue.map fun n : Int => (n : ℝ)))) := by
  have integers : List.Forall₂ (Stands []) (residue.map Surd.int)
      (remainder [] (residue.map fun n : Int => (n : ℝ))) := by
    refine List.forall₂_map_left_iff.mpr (List.forall₂_map_right_iff.mpr (List.forall₂_same.mpr ?_))
    exact fun n _ => ⟨.int 0 n, value_int [] n⟩
  have stands := splitExact_stands turns [] _ _ integers
  obtain ⟨r, s, pair, power⟩ := exists_remainder turns (residue.map fun n : Int => (n : ℝ))
    (by rw [List.length_map, length])
  rw [List.append_nil, pair] at stands
  obtain ⟨x, y, left, ⟨first, rfl⟩, second, rfl⟩ := forall₂_pair stands
  rw [List.length_nil] at left
  have squares := (first.mul first).add (second.mul second)
  have product := first.mul second
  simp only [powerExact, left]
  refine ⟨squares.add product.mulRoot, ?_⟩
  rw [value_add squares product.mulRoot, value_add (first.mul first) (second.mul second),
    value_mul first first, value_mul second second, value_mulRoot product,
    value_mul first second, power]

end BandLight.Transform
