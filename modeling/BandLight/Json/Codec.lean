import BandLight.Json.Parser
import BandLight.Json.Printer

/-! Types that have a JSON form. A record is written as an object with its
fields in order. It is read from an object with the fields in any order, among
others that are skipped, or from an array of the fields in order. -/
namespace BandLight

class Codec (α : Type) where
  encode : α → Json
  decode : Json → Option α

namespace Codec

/-- A natural number below a limit. Only plain digits are an integer; a sign, a
fraction or an exponent makes another kind of number. -/
def decodeBelow (limit : Nat) : Json → Option Nat
  | .number text =>
      if text.all Char.isDigit ∧ Json.ofDigits text < limit then some (Json.ofDigits text)
      else none
  | _ => none

instance : Codec UInt64 where
  encode n := .ofNat n.toNat
  decode v := (decodeBelow UInt64.size v).map UInt64.ofNat

instance : Codec UInt32 where
  encode n := .ofNat n.toNat
  decode v := (decodeBelow UInt32.size v).map UInt32.ofNat

instance : Codec UInt16 where
  encode n := .ofNat n.toNat
  decode v := (decodeBelow UInt16.size v).map UInt16.ofNat

instance : Codec UInt8 where
  encode n := .ofNat n.toNat
  decode v := (decodeBelow UInt8.size v).map UInt8.ofNat

instance : Codec String where
  encode text := .ofString text
  decode
    | .string (some text) => some (String.ofList text)
    | _ => none

instance {α : Type} [Codec α] : Codec (Option α) where
  encode
    | none => .null
    | some value => encode value
  decode
    | .null => some none
    | v => (decode v).map some

instance {α : Type} [Codec α] : Codec (List α) where
  encode items := .array (items.map encode)
  decode
    | .array items => items.mapM decode
    | _ => none

/-- The values of the named members of an object, or nothing when a key is no
text or a named member is repeated. Other members are skipped. -/
def members (names : List String) (object : List (Literal × Json)) : Option (List (Option Json)) :=
  if object.all (·.1.isSome) then
    names.mapM fun name =>
      match object.filter (·.1 = some name.toList) with
      | [] => some none
      | [member] => some (some member.2)
      | _ => none
  else none

def fields (names : List String) : Json → Option (List (Option Json))
  | .object object => members names object
  | .array items =>
      if items.length ≤ names.length then
        some (items.map some ++ List.replicate (names.length - items.length) none)
      else none
  | _ => none

def required {α : Type} [Codec α] (field : Option Json) : Option α := field.bind decode

def defaulted {α : Type} [Codec α] (standard : α) : Option Json → Option α
  | none => some standard
  | some value => decode value

def recode (α : Type) [Codec α] (text : String) : Option String := do
  let value : α ← decode (← Json.parse text)
  return Json.compact (encode value)

end Codec

end BandLight
