/-! Text for an output that is no terminal. Control sequences are left out of
it, and so are control characters that are no white space. An escape character
begins a sequence, and the characters behind it decide how far it goes. -/
namespace BandLight.Demo.Terminal

inductive Place
  | ground
  | escape
  | escapeMarks
  | control
  | controlParameters
  | controlMarks
  /-- In a control sequence that has no meaning. -/
  | controlIgnored
  | device
  | deviceParameters
  | deviceMarks
  /-- In text that only a string terminator ends. -/
  | text
  /-- In a system command, which a bell ends. -/
  | command
  deriving DecidableEq, Repr, Inhabited

def isControl (c : Char) : Bool := c.toNat < 0x20 || c.toNat = 0x7F

def isMark (c : Char) : Bool := 0x20 ≤ c.toNat && c.toNat < 0x30

def isParameter (c : Char) : Bool := 0x30 ≤ c.toNat && c.toNat < 0x40

def isPrivate (c : Char) : Bool := 0x3C ≤ c.toNat && c.toNat < 0x40

def isWide (c : Char) : Bool := 0x80 ≤ c.toNat

def isSpace (c : Char) : Bool :=
  c.toNat = 9 || c.toNat = 10 || c.toNat = 12 || c.toNat = 13 || c.toNat = 32

def afterEscape (c : Char) : Place :=
  if isControl c then .escape
  else if isMark c then .escapeMarks
  else match c with
    | '[' => .control
    | ']' => .command
    | 'P' => .device
    | 'X' | '^' | '_' => .text
    | _ => .ground

def Place.next (place : Place) (c : Char) : Place :=
  if c.toNat = 0x18 || c.toNat = 0x1A then .ground
  else if c.toNat = 0x1B then .escape
  else match place with
    | ground => ground
    | escape => afterEscape c
    | escapeMarks => if isControl c || isMark c then escapeMarks else ground
    | control =>
        if isControl c then control
        else if isMark c then controlMarks
        else if isParameter c then controlParameters
        else ground
    | controlParameters =>
        if isControl c then controlParameters
        else if isMark c then controlMarks
        else if isPrivate c then controlIgnored
        else if isParameter c then controlParameters
        else ground
    | controlMarks =>
        if isControl c || isMark c then controlMarks
        else if isParameter c then controlIgnored
        else ground
    | controlIgnored =>
        if isControl c || isMark c || isParameter c then controlIgnored else ground
    | device =>
        if isControl c then device
        else if isMark c then deviceMarks
        else if isParameter c then deviceParameters
        else text
    | deviceParameters =>
        if isControl c then deviceParameters
        else if isMark c then deviceMarks
        else if isParameter c && !isPrivate c then deviceParameters
        else text
    | deviceMarks => if isControl c || isMark c then deviceMarks else text
    | text => text
    | command => if c.toNat = 7 then ground else command

/-- The byte that terminates text in a sequence. It counts wherever it occurs
among the bytes of a wider character. -/
def terminator : UInt8 := 0x9C

def Place.nextWide (place : Place) (c : Char) : Place :=
  if place = text ∧ (String.utf8EncodeChar c).contains terminator then ground else place

def isShown (c : Char) : Bool := isWide c || isSpace c || !isControl c

/-- Whether a character is shown at a place. White space is shown even inside
most sequences. -/
def Place.shows : Place → Char → Bool
  | ground, c => isShown c
  | escape, c | escapeMarks, c | control, c | controlParameters, c | controlMarks, c
  | controlIgnored, c => isControl c && isSpace c
  | device, _ | deviceParameters, _ | deviceMarks, _ | text, _ | command, _ => false

/-- A reader, and whether the last character was shown. From then on everything
is shown that is shown outside of sequences. A sequence that white space has
interrupted goes on at the next character that is not. -/
structure Reader where
  place : Place
  showing : Bool
  deriving DecidableEq, Repr, Inhabited

def Reader.read (r : Reader) (c : Char) : Bool × Reader :=
  if r.showing && isShown c then
    (true, { r with place := if isWide c then .ground else r.place })
  else
    let shown := r.place.shows c
    (shown, { place := if isWide c then r.place.nextWide c else r.place.next c, showing := shown })

def plainFrom : Reader → List Char → List Char
  | _, [] => []
  | r, c :: text =>
      let (shown, next) := r.read c
      if shown then c :: plainFrom next text else plainFrom next text

def plain (text : String) : String :=
  String.ofList (plainFrom { place := .ground, showing := false } text.toList)

end BandLight.Demo.Terminal
