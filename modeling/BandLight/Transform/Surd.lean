/-! Exact arithmetic with nested square roots. A chain of turns fixes a tower
of real numbers: the first is `0`, and a turn takes the number `a` to the root
of `2 + a`, with the sign of the turn. These are the numbers `2 cos φ` reached
from a right angle by halving the angle, or by halving it and taking its
supplement. An element over `n` turns is a combination of products of the
first `n` roots with integer coefficients; its sign is decided exactly. -/
namespace BandLight.Transform

/-- An integer, or `a + b r` for the latest root `r` and parts `a` and `b` over
the roots before it. An integer stands for itself at every height. -/
inductive Surd
  | int (n : Int)
  | pair (a b : Surd)
  deriving DecidableEq, Repr, Inhabited

namespace Surd

def neg : Surd → Surd
  | int n => int (-n)
  | pair a b => pair (neg a) (neg b)

def add : Surd → Surd → Surd
  | int n, int m => int (n + m)
  | int n, pair a b => pair (add (int n) a) b
  | pair a b, int n => pair (add a (int n)) b
  | pair a b, pair c d => pair (add a c) (add b d)

def sub (x y : Surd) : Surd := add x (neg y)

def scale (factor : Int) : Surd → Surd
  | int n => int (factor * n)
  | pair a b => pair (scale factor a) (scale factor b)

/-- The product with the latest root of a tower of the given height: its square
is two more than the root before it. -/
def mulRoot : Nat → Surd → Surd
  | 0, _ => int 0
  | _ + 1, int n => pair (int 0) (int n)
  | height + 1, pair a b => pair (add (add b b) (mulRoot height b)) a

def mul : Nat → Surd → Surd → Surd
  | _, int n, y => scale n y
  | _, x, int n => scale n x
  | 0, pair _ _, pair _ _ => int 0
  | height + 1, pair a b, pair c d =>
      let square := mul height b d
      pair (add (mul height a c) (add (add square square) (mulRoot height square)))
        (add (mul height a d) (mul height b c))

/-- The sign of an element, `-1`, `0` or `1`. The latest turn comes first. When
`a` and `b r` disagree in sign, the one with the greater square decides. -/
def sign : List Bool → Surd → Int
  | _, int n => n.sign
  | [], pair _ _ => 0
  | turn :: turns, pair a b =>
      let first := sign turns a
      let second := if turn then sign turns b else -sign turns b
      if second = 0 then first
      else if first = 0 ∨ first = second then second
      else
        let height := turns.length
        let square := mul height b b
        first * sign turns
          (sub (mul height a a) (add (add square square) (mulRoot height square)))

end Surd

end BandLight.Transform
