import BandLight.Demo.Session

/-! The demo as a program. -/

def main (arguments : List String) : IO UInt32 := do
  let outcome := BandLight.Demo.run { slotBytes := 32, clock := 4294967296 } arguments
  unless outcome.printed.isEmpty do IO.println outcome.printed
  outcome.log.forM IO.println
  unless outcome.errors.isEmpty do IO.eprintln outcome.errors
  return outcome.exitCode
