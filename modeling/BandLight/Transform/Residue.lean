import BandLight.Transform.Surd

/-! Values of a real polynomial on the unit circle, by repeated splitting. The
remainder modulo `z^(2m) - a z^m + 1` with `a = 2 cos φ` determines the
remainders modulo `z^m - b z^(m/2) + 1` for the two square roots `b` of
`2 + a`, which belong to the half angle and its supplement. At `m = 1` two
coefficients are left, and the squared absolute value at `e^(i φ)` is
`r₀² + r₁² + a r₀ r₁`. The same splitting is done with fixed-point numbers,
for all angles at once, and in exact nested roots, for one. -/
namespace BandLight.Transform

def places : Nat := 256

def unit : Nat := Nat.pow 2 places

def mulFixed (x y : Int) : Int := (x * y) >>> places

def halves {α : Type} (items : List α) : List α × List α :=
  items.splitAt (items.length / 2)

structure Node where
  /-- Twice the cosine of the angle. -/
  root : Int
  /-- How the angle was reached, the latest turn first. -/
  turns : List Bool
  residue : List Int
  deriving Repr

namespace Node

/-- The nodes of the half angle and of its supplement. -/
def split (n : Node) : Node × Node :=
  let (front, back) := halves n.residue
  let (a, b) := halves front
  let (c, d) := halves back
  let root : Int := Nat.sqrt ((2 * unit + n.root) * unit).toNat
  let low := List.zipWith (· - ·) a c
  let high := List.zipWith (· + ·) b (d.map fun x => x + mulFixed n.root x)
  let lowTurn := d.map (mulFixed root)
  let highTurn := c.map (mulFixed root)
  ({ root := root
     turns := true :: n.turns
     residue := List.zipWith (· - ·) low lowTurn ++ List.zipWith (· + ·) high highTurn },
   { root := -root
     turns := false :: n.turns
     residue := List.zipWith (· + ·) low lowTurn ++ List.zipWith (· - ·) high highTurn })

def power (n : Node) : Int :=
  match n.residue with
  | [r, s] => r * r + s * s + mulFixed n.root (r * s)
  | _ => 0

end Node

/-- All angles that `depth` splittings lead to, in increasing order. -/
def splitAll : Nat → List Node → List Node
  | 0, nodes => nodes
  | depth + 1, nodes =>
      let parts := nodes.map Node.split
      splitAll depth (parts.map (·.1) ++ (parts.map (·.2)).reverse)

def residueBound (start : Nat) : Nat → Nat
  | 0 => start
  | depth + 1 => 6 * residueBound start depth

/-- How far the fixed-point root of a tower may be from the root, in units of
the last place. -/
def rootError : Nat → Nat
  | 0 => 0
  | height + 1 => Nat.pow 2 height * rootError height + 1

def residueError (start : Nat) : Nat → Nat
  | 0 => 0
  | depth + 1 =>
      6 * residueError start depth + 2 * rootError (depth + 1) * residueBound start depth + 2

def powerError (start : Nat) : Nat → Nat
  | 0 => 0
  | depth + 1 =>
      let error := residueError start (depth + 1)
      let bound := residueBound start (depth + 1)
      4 * error * (2 * unit * bound + error)
        + rootError (depth + 1) * unit * bound * bound + 1

/-- The splitting in exact numbers. It does not depend on the turns taken. -/
def splitExact : Nat → Nat → List Surd → List Surd
  | 0, _, residue => residue
  | depth + 1, height, residue =>
      let (front, back) := halves residue
      let (a, b) := halves front
      let (c, d) := halves back
      let low := List.zipWith Surd.pair (List.zipWith Surd.sub a c) (d.map Surd.neg)
      let high := List.zipWith Surd.pair
        (List.zipWith Surd.add b (d.map fun x => x.add (x.mulRoot height))) c
      splitExact depth (height + 1) (low ++ high)

def powerExact (depth : Nat) (residue : List Int) : Surd :=
  match splitExact depth 0 (residue.map Surd.int) with
  | [r, s] =>
      ((Surd.mul depth r r).add (Surd.mul depth s s)).add ((Surd.mul depth r s).mulRoot depth)
  | _ => .int 0

end BandLight.Transform
