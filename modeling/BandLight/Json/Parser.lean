import BandLight.Json.Token

/-! From tokens to a value, with a stack of what has been opened and not yet
closed. The stack has no limit, and one token makes one move. -/
namespace BandLight.Json

/-- An open array or object: what it holds so far, in reverse, and for an
object the key whose value comes next. -/
inductive Frame
  | array (items : List Json)
  | object (members : List (Literal × Json)) (key : Literal)
  deriving Repr, Inhabited

inductive Position
  | value (stack : List Frame)
  | firstItem (stack : List Frame)
  | firstKey (stack : List Frame)
  | key (stack : List Frame) (members : List (Literal × Json))
  | colon (stack : List Frame) (members : List (Literal × Json)) (key : Literal)
  | after (stack : List Frame) (value : Json)
  deriving Repr, Inhabited

def startValue (stack : List Frame) : Token → Option Position
  | .scalar value => some (.after stack value)
  | .openArray => some (.firstItem stack)
  | .openObject => some (.firstKey stack)
  | _ => none

def startMember (stack : List Frame) (members : List (Literal × Json)) : Token → Option Position
  | .scalar (.string key) => some (.colon stack members key)
  | _ => none

def continueAfter (value : Json) : List Frame → Token → Option Position
  | .array items :: stack, .comma => some (.value (.array (value :: items) :: stack))
  | .array items :: stack, .closeArray =>
      some (.after stack (.array (value :: items).reverse))
  | .object members key :: stack, .comma => some (.key stack ((key, value) :: members))
  | .object members key :: stack, .closeObject =>
      some (.after stack (.object ((key, value) :: members).reverse))
  | _, _ => none

def move : Position → Token → Option Position
  | .value stack, token => startValue stack token
  | .firstItem stack, .closeArray => some (.after stack (.array []))
  | .firstItem stack, token => startValue (.array [] :: stack) token
  | .firstKey stack, .closeObject => some (.after stack (.object []))
  | .firstKey stack, token => startMember stack [] token
  | .key stack members, token => startMember stack members token
  | .colon stack members key, .colon => some (.value (.object members key :: stack))
  | .colon _ _ _, _ => none
  | .after stack value, token => continueAfter value stack token

def ofTokens (tokens : List Token) : Option Json :=
  match tokens.foldlM move (.value []) with
  | some (.after [] value) => some value
  | _ => none

/-- The value of a JSON text; nothing may follow it but space. -/
def parse (text : String) : Option Json := do
  ofTokens (← tokens text.toList)

end BandLight.Json
