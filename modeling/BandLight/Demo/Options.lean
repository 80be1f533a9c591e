import BandLight.Demo.Terminal

/-! The command line of the demo. Arguments are read from left to right. The
value of an option is taken in when the next option comes or the arguments end,
so that an argument that is not understood is reported before a bad value in
front of it. -/
namespace BandLight.Demo

structure Options where
  preset : String
  seconds : UInt64
  deriving DecidableEq, Repr, Inhabited

inductive Flag
  | preset
  | seconds
  deriving DecidableEq, Repr, Inhabited

def Flag.usage : Flag → String
  | preset => "--preset <NAME>"
  | seconds => "--seconds <SECONDS>"

inductive NumberFault
  | empty
  | invalidDigit
  | tooLarge
  deriving DecidableEq, Repr, Inhabited

def NumberFault.message : NumberFault → String
  | empty => "cannot parse integer from empty string"
  | invalidDigit => "invalid digit found in string"
  | tooLarge => "number too large to fit in target type"

inductive Refusal
  | help
  | missingValue (flag : Flag)
  | invalidNumber (text : String) (fault : NumberFault)
  | repeated (flag : Flag)
  | unknownArgument (text : String)
  | unneededValue (text : String)
  deriving DecidableEq, Repr, Inhabited

/-- The text of a refusal. What was typed appears in it without control
sequences. -/
def Refusal.message : Refusal → String
  | help => ""
  | missingValue flag => "a value is required for '" ++ flag.usage ++ "' but none was supplied"
  | invalidNumber text fault =>
      "invalid value '" ++ Terminal.plain text ++ "' for '" ++ Flag.usage .seconds ++ "': "
        ++ fault.message
  | repeated flag => "the argument '" ++ flag.usage ++ "' cannot be used multiple times"
  | unknownArgument text => "unexpected argument '" ++ Terminal.plain text ++ "' found"
  | unneededValue text =>
      "unexpected value '" ++ Terminal.plain text ++ "' for '--help' found; no more were expected"

/-- Digits after a value that they go on from; the first character at fault
decides. -/
def parseDigits : Nat → List Char → Except NumberFault Nat
  | value, [] => .ok value
  | value, c :: text =>
      if !c.isDigit then .error .invalidDigit
      else
        let value := 10 * value + (c.toNat - 48)
        if UInt64.size ≤ value then .error .tooLarge else parseDigits value text

def parseNumber (text : String) : Except NumberFault UInt64 :=
  match text.toList with
  | [] => .error .empty
  | ['+'] => .error .invalidDigit
  | '+' :: digits => (parseDigits 0 digits).map UInt64.ofNat
  | digits => (parseDigits 0 digits).map UInt64.ofNat

structure Progress where
  preset : Option String := none
  seconds : Option UInt64 := none
  /-- The last option with its value, if that has come, not yet taken in. -/
  pending : Option (Flag × Option String) := none
  deriving DecidableEq, Repr, Inhabited

namespace Progress

def give (p : Progress) (flag : Flag) (value : String) : Except Refusal Progress :=
  match flag with
  | .preset =>
      if p.preset.isSome then .error (.repeated flag) else .ok { p with preset := some value }
  | .seconds =>
      if p.seconds.isSome then .error (.repeated flag)
      else match parseNumber value with
        | .ok seconds => .ok { p with seconds := some seconds }
        | .error fault => .error (.invalidNumber value fault)

def settle (p : Progress) : Except Refusal Progress :=
  match p.pending with
  | none => .ok p
  | some (flag, none) => .error (.missingValue flag)
  | some (flag, some value) => { p with pending := none }.give flag value

def long (p : Progress) (name : List Char) (value : Option String) : Except Refusal Progress :=
  let option (flag : Flag) : Except Refusal Progress := do
    let p ← p.settle
    match value with
    | some value => p.give flag value
    | none => .ok { p with pending := some (flag, none) }
  if name = "preset".toList then option .preset
  else if name = "seconds".toList then option .seconds
  else if name = "help".toList then
    match value with
    | some value => .error (.unneededValue value)
    | none => do
        let _ ← p.settle
        throw .help
  else .error (.unknownArgument (String.ofList ('-' :: '-' :: name)))

def short (p : Progress) (letter : Char) : Except Refusal Progress := do
  if letter = 'h' then
    let _ ← p.settle
    throw .help
  else throw (.unknownArgument (String.ofList ['-', letter]))

def plain (p : Progress) (argument : String) : Except Refusal Progress :=
  match p.pending with
  | some (flag, none) => .ok { p with pending := some (flag, some argument) }
  | _ => .error (.unknownArgument argument)

def splitValue (text : List Char) : List Char × Option String :=
  let name := text.takeWhile (· ≠ '=')
  match text.dropWhile (· ≠ '=') with
  | [] => (name, none)
  | _ :: value => (name, some (String.ofList value))

def argument (p : Progress) (text : String) : Except Refusal Progress :=
  match text.toList with
  | '-' :: '-' :: rest =>
      let (name, value) := splitValue rest
      p.long name value
  | '-' :: letter :: _ => p.short letter
  | _ => p.plain text

/-- Two dashes end the options, and nothing may follow them. -/
def arguments (p : Progress) : List String → Except Refusal Progress
  | [] => p.settle
  | text :: rest =>
      if text = "--" then
        match rest with
        | [] => p.settle
        | extra :: _ => .error (.unknownArgument extra)
      else do
        let p ← p.argument text
        p.arguments rest

end Progress

/-- The options of a command line: the music preset for five seconds, where it
does not say otherwise. -/
def Options.parse (arguments : List String) : Except Refusal Options := do
  let p ← Progress.arguments {} arguments
  return { preset := p.preset.getD "music", seconds := p.seconds.getD 5 }

def Options.help : String :=
  "Drive the MeshBeat spectrum pipeline with a synthetic signal\n\n"
    ++ "Usage: meshbeat_demo [OPTIONS]\n\nOptions:\n"
    ++ "      --preset <NAME>      Built-in preset: music or whistle [default: music]\n"
    ++ "      --seconds <SECONDS>  How long to run [default: 5]\n"
    ++ "  -h, --help               Print help"

end BandLight.Demo
