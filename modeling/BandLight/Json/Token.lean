import BandLight.Json.Value

/-! The tokens of a JSON text. A machine reads the text one character at a time:
it stands between tokens, or inside a string, a number or a word. A number or a
word ends at the first character that cannot belong to it. -/
namespace BandLight.Json

inductive Token
  | openArray
  | closeArray
  | openObject
  | closeObject
  | comma
  | colon
  | scalar (value : Json)
  deriving Repr, Inhabited

inductive Piece
  | char (c : Char)
  | surrogate (code : Nat)
  deriving DecidableEq, Repr, Inhabited

def isHighSurrogate (code : Nat) : Bool := 0xD800 ≤ code && code < 0xDC00

def isLowSurrogate (code : Nat) : Bool := 0xDC00 ≤ code && code < 0xE000

def Piece.ofCode (code : Nat) : Piece :=
  if isHighSurrogate code || isLowSurrogate code then surrogate code else char (Char.ofNat code)

/-- The text of a string literal: halves of surrogate pairs have to meet. -/
def Piece.assemble : List Piece → Literal
  | [] => some []
  | char c :: rest => (assemble rest).map (c :: ·)
  | surrogate high :: surrogate low :: rest =>
      if isHighSurrogate high && isLowSurrogate low then
        let c := Char.ofNat (0x10000 + (high - 0xD800) * 0x400 + (low - 0xDC00))
        (assemble rest).map (c :: ·)
      else none
  | surrogate _ :: _ => none

/-- Where the machine stands. Pieces, digits and characters are kept in
reverse. -/
inductive Place
  | between
  | string (pieces : List Piece)
  | escape (pieces : List Piece)
  | code (pieces : List Piece) (count value : Nat)
  | number (text : List Char)
  | word (text : List Char)
  deriving DecidableEq, Repr, Inhabited

def isSpace (c : Char) : Bool := c = ' ' || c = '\t' || c = '\n' || c = '\r'

def isNumberChar (c : Char) : Bool :=
  c.isDigit || c = '-' || c = '+' || c = '.' || c = 'e' || c = 'E'

def isWordChar (c : Char) : Bool := c.isLower

def dropInteger : List Char → Option (List Char)
  | '0' :: rest => some rest
  | c :: rest => if c.isDigit then some (rest.dropWhile Char.isDigit) else none
  | [] => none

def dropDigits : List Char → Option (List Char)
  | c :: rest => if c.isDigit then some (rest.dropWhile Char.isDigit) else none
  | [] => none

def dropFraction : List Char → Option (List Char)
  | '.' :: rest => dropDigits rest
  | rest => some rest

def dropExponent : List Char → Option (List Char)
  | c :: rest =>
      if c = 'e' ∨ c = 'E' then
        match rest with
        | '+' :: rest => dropDigits rest
        | '-' :: rest => dropDigits rest
        | rest => dropDigits rest
      else some (c :: rest)
  | [] => some []

/-- Whether a text is a number: a sign, an integer, a fraction and an exponent,
of which only the integer has to be there. -/
def isNumber (text : List Char) : Bool :=
  let unsigned := match text with
    | '-' :: rest => rest
    | text => text
  (do dropExponent (← dropFraction (← dropInteger unsigned))) = some []

def scalar? (text : List Char) : Option Json :=
  if isNumber text then some (.number text)
  else if text = "null".toList then some .null
  else if text = "true".toList then some (.bool true)
  else if text = "false".toList then some (.bool false)
  else none

def unescape (c : Char) : Option Char :=
  match c with
  | '"' => some '"'
  | '\\' => some '\\'
  | '/' => some '/'
  | 'b' => some (Char.ofNat 8)
  | 'f' => some (Char.ofNat 12)
  | 'n' => some '\n'
  | 'r' => some '\r'
  | 't' => some '\t'
  | _ => none

def hexDigit (c : Char) : Option Nat :=
  if c.isDigit then some (c.toNat - 48)
  else if 'a' ≤ c ∧ c ≤ 'f' then some (c.toNat - 87)
  else if 'A' ≤ c ∧ c ≤ 'F' then some (c.toNat - 55)
  else none

def start (c : Char) : Option (Place × List Token) :=
  if isSpace c then some (.between, [])
  else if c = '[' then some (.between, [.openArray])
  else if c = ']' then some (.between, [.closeArray])
  else if c = '\x7b' then some (.between, [.openObject])
  else if c = '\x7d' then some (.between, [.closeObject])
  else if c = ',' then some (.between, [.comma])
  else if c = ':' then some (.between, [.colon])
  else if c = '"' then some (.string [], [])
  else if c.isDigit || c = '-' then some (.number [c], [])
  else if isWordChar c then some (.word [c], [])
  else none

/-- One character: the next place and the tokens it completes, in order. -/
def advance (place : Place) (c : Char) : Option (Place × List Token) :=
  match place with
  | .between => start c
  | .string pieces =>
      if c = '"' then some (.between, [.scalar (.string (Piece.assemble pieces.reverse))])
      else if c = '\\' then some (.escape pieces, [])
      else if c.toNat < 32 then none
      else some (.string (.char c :: pieces), [])
  | .escape pieces =>
      if c = 'u' then some (.code pieces 0 0, [])
      else (unescape c).map fun c => (.string (.char c :: pieces), [])
  | .code pieces count value =>
      (hexDigit c).map fun digit =>
        let value := 16 * value + digit
        if count = 3 then (.string (.ofCode value :: pieces), [])
        else (.code pieces (count + 1) value, [])
  | .number text =>
      if isNumberChar c then some (.number (c :: text), [])
      else do
        let value ← scalar? text.reverse
        let (place, tokens) ← start c
        return (place, .scalar value :: tokens)
  | .word text =>
      if isWordChar c then some (.word (c :: text), [])
      else do
        let value ← scalar? text.reverse
        let (place, tokens) ← start c
        return (place, .scalar value :: tokens)

def finish : Place → Option (List Token)
  | .between => some []
  | .number text | .word text => (scalar? text.reverse).map fun value => [.scalar value]
  | .string _ | .escape _ | .code _ _ _ => none

def tokensFrom : Place → List Char → Option (List Token)
  | place, [] => finish place
  | place, c :: text => do
      let (place, tokens) ← advance place c
      return tokens ++ (← tokensFrom place text)

def tokens (text : List Char) : Option (List Token) := tokensFrom .between text

end BandLight.Json
