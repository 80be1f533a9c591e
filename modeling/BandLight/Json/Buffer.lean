import BandLight.Json.Value

/-! When a value can be set aside before its meaning is known. A value that is
skipped only has to be well formed, but one that is set aside is taken in as a
whole: its strings have to be text, its numbers have to fit a double, and it
may not be nested too deeply. -/
namespace BandLight.Json

structure Decimal where
  significand : Nat
  exponent : Int
  deriving DecidableEq, Repr

def appendDigits : Nat → List Char → Nat × List Char
  | n, [] => (n, [])
  | n, c :: text =>
      let next := 10 * n + (c.toNat - 48)
      if next < UInt64.size then appendDigits next text else (n, c :: text)

/-- The leading digits of a well-formed number. A digit of the integer that is
left over raises the exponent, and a digit of the fraction that is not lowers
it. -/
def decimal (text : List Char) : Decimal :=
  let unsigned := text.dropWhile (· = '-')
  let (whole, omitted) := appendDigits 0 (unsigned.takeWhile Char.isDigit)
  let rest := unsigned.dropWhile Char.isDigit
  let fraction := match rest with
    | '.' :: rest => rest.takeWhile Char.isDigit
    | _ => []
  let (significand, unread) := appendDigits whole fraction
  let power := (rest.dropWhile fun c => c ≠ 'e' ∧ c ≠ 'E').drop 1
  let magnitude : Int := ofDigits (power.filter Char.isDigit)
  let signed := if power.head? = some '-' then -magnitude else magnitude
  { significand
    exponent := signed + omitted.length - (fraction.length - unread.length : Nat) }

def nearestDouble (n : Nat) : Nat :=
  let unit := Nat.pow 2 (n.log2 - 52)
  let count := n / unit
  let excess := 2 * (n % unit)
  if unit < excess ∨ (unit = excess ∧ count % 2 = 1) then (count + 1) * unit else count * unit

/-- The least number that is rounded to infinity: half a unit in the last place
beyond the greatest double. -/
def infinityEdge : Nat := Nat.pow 2 1024 - Nat.pow 2 970

def maxPower : Int := 308

/-- Whether a number stays finite when it is computed in doubles, as the product
of significand and power. Close to the greatest double this differs from the
number itself, since both factors are rounded. -/
def isFinite (text : List Char) : Bool :=
  let d := decimal text
  if d.significand = 0 ∨ d.exponent < 0 then true
  else if maxPower < d.exponent then false
  else
    nearestDouble d.significand * nearestDouble (Nat.pow 10 d.exponent.natAbs) < infinityEdge

/-- Values may be nested this deep, counting the value that is set aside. -/
def maxDepth : Nat := 127

mutual

def fits : Nat → Json → Bool
  | _, number text => isFinite text
  | _, string text => text.isSome
  | 0, array _ | 0, object _ => false
  | depth + 1, array items => fitsItems depth items
  | depth + 1, object members => fitsMembers depth members
  | _, null | _, bool _ => true

def fitsItems : Nat → List Json → Bool
  | _, [] => true
  | depth, item :: items => fits depth item && fitsItems depth items

def fitsMembers : Nat → List (Literal × Json) → Bool
  | _, [] => true
  | depth, (key, value) :: members =>
      key.isSome && fits depth value && fitsMembers depth members

end

end BandLight.Json
