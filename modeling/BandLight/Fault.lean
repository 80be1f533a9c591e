/-! Arithmetic on machine words that refuses instead of wrapping. Every step
that can leave its word, divide by zero or reach past a buffer returns a
`Checked` value, so that the absence of faults is a statement about results. -/
namespace BandLight

inductive Fault
  | overflow
  | divisionByZero
  | outOfBounds
  /-- A reader asked for the block that the writer is still filling. -/
  | blockInUse
  /-- A loop used up its bound without finishing. -/
  | noProgress
  | outOfMemory
  deriving DecidableEq, Repr, Inhabited

abbrev Checked := Except Fault

namespace Checked

def below (limit value : Nat) : Checked Nat :=
  if value < limit then .ok value else .error .overflow

def word32 (value : Nat) : Checked Nat := below UInt32.size value

def word64 (value : Nat) : Checked Nat := below UInt64.size value

def signed64 (value : Int) : Checked Int :=
  if -9223372036854775808 ≤ value ∧ value < 9223372036854775808 then .ok value
  else .error .overflow

def sub (whole part : Nat) : Checked Nat :=
  if part ≤ whole then .ok (whole - part) else .error .overflow

def div (dividend divisor : Nat) : Checked Nat :=
  if divisor = 0 then .error .divisionByZero else .ok (dividend / divisor)

/-- The quotient of signed 64-bit words, rounded toward zero. -/
def signedDiv (dividend divisor : Int) : Checked Int :=
  if divisor = 0 then .error .divisionByZero else signed64 (dividend.tdiv divisor)

def slice {α : Type} (items : List α) (start stop : Nat) : Checked (List α) :=
  if start ≤ stop ∧ stop ≤ items.length then .ok ((items.take stop).drop start)
  else .error .outOfBounds

/-- Overwrite all of a slice with the items of another one of the same length. -/
def copyOver {α : Type} (target source : List α) : Checked (List α) :=
  if target.length = source.length then .ok source else .error .outOfBounds

/-- A buffer has to have fewer bytes than a signed 64-bit word can count. -/
def buffer (itemBytes count : Nat) : Checked Unit :=
  if itemBytes * count < 9223372036854775808 then .ok () else .error .outOfMemory

/-- The answers of a run of steps. A fault takes the place of its step's answer
and ends the run. -/
def answers {σ ι α : Type} (step : σ → ι → Checked (α × σ)) :
    σ → List ι → List (Checked α)
  | _, [] => []
  | state, input :: inputs =>
      match step state input with
      | .ok (answer, next) => .ok answer :: answers step next inputs
      | .error fault => [.error fault]

theorem below_ok {limit value : Nat} (h : value < limit) : below limit value = .ok value := by
  simp [below, h]

theorem sub_ok {whole part : Nat} (h : part ≤ whole) : sub whole part = .ok (whole - part) := by
  simp [sub, h]

theorem div_ok (dividend : Nat) {divisor : Nat} (h : divisor ≠ 0) :
    div dividend divisor = .ok (dividend / divisor) := by
  simp [div, h]

theorem slice_ok {α : Type} {items : List α} {start stop : Nat}
    (ordered : start ≤ stop) (inside : stop ≤ items.length) :
    slice items start stop = .ok ((items.take stop).drop start) := by
  simp [slice, ordered, inside]

theorem slice_first {α : Type} {items : List α} {stop : Nat} (inside : stop ≤ items.length) :
    slice items 0 stop = .ok (items.take stop) :=
  slice_ok (Nat.zero_le _) inside

theorem slice_last {α : Type} {items : List α} {start : Nat} (inside : start ≤ items.length) :
    slice items start items.length = .ok (items.drop start) := by
  rw [slice_ok inside (Nat.le_refl _), List.take_length]

theorem copyOver_ok {α : Type} {target source : List α} (same : target.length = source.length) :
    copyOver target source = .ok source :=
  if_pos same

end Checked

def saturatingAdd32 (a b : Nat) : Nat := min (a + b) 4294967295

end BandLight
