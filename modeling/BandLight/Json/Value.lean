/-! JSON values. A value keeps all that a reader may still ask about: the order
and repetition of members, the digits of a number, and whether the escapes of a
string stand for text. -/
namespace BandLight

/-- The text of a string literal, or nothing when its escapes leave half of a
surrogate pair alone. -/
abbrev Literal := Option (List Char)

inductive Json
  | null
  | bool (value : Bool)
  /-- A number as it is written. -/
  | number (text : List Char)
  | string (text : Literal)
  | array (items : List Json)
  | object (members : List (Literal × Json))
  deriving Repr, Inhabited

namespace Json

def ofString (text : String) : Json := string (some text.toList)

/-- The decimal digits of a number, the highest first. -/
def digits (n : Nat) : List Char :=
  if n < 10 then [Char.ofNat (48 + n)] else digits (n / 10) ++ [Char.ofNat (48 + n % 10)]

def ofDigits (text : List Char) : Nat :=
  text.foldl (fun n c => 10 * n + (c.toNat - 48)) 0

def ofNat (n : Nat) : Json := number (digits n)

def record (members : List (String × Json)) : Json :=
  object (members.map fun member => (some member.1.toList, member.2))

end Json

end BandLight
