import BandLight.Mailbox
import BandLight.Ring
import BandLight.Transform

/-! The acquiring half of an analysis: samples go into a ring of two blocks,
each released block goes through the transform at once, and the spectrum goes
into a mailbox. -/
namespace BandLight

structure Analyzer where
  ring : Ring
  transform : Transform
  spectrum : Spectrum
  mailbox : Mailbox
  blocksAnalyzed : Nat
  deriving DecidableEq, Repr, Inhabited

structure Analysis where
  block : List Sample
  spectrum : Spectrum
  deriving DecidableEq, Repr, Inhabited

namespace Analyzer

/-- Memory is taken to have room for the two blocks. -/
def configure (blockSize : Nat) : Except SetupError Analyzer := do
  let transform ← Transform.configure blockSize
  let ring ← Ring.configure (2 * blockSize) blockSize
  return { ring, transform
           spectrum := .zeroed transform.spectrumLength
           mailbox := .empty transform.spectrumLength
           blocksAnalyzed := 0 }

/-- A block is reported as done: analyse it and publish its spectrum. Nothing
happens for a stale report. -/
def release (a : Analyzer) (id : BlockId) : Checked (Option Analysis × Analyzer) :=
  match a.ring.release id with
  | (none, _) => .ok (none, a)
  | (some id, ring) => do
      let block ← ring.block id
      let (spectrum, transform) ← a.transform.analyzeInto block a.spectrum
      let mailbox ← a.mailbox.publish spectrum
      let blocksAnalyzed ← Checked.word64 (a.blocksAnalyzed + 1)
      let next : Analyzer := { ring, transform, spectrum, mailbox, blocksAnalyzed }
      return (some { block, spectrum }, next)

def pushOnce (a : Analyzer) (samples : List Sample) :
    Checked (List Analysis × List Sample × Analyzer) := do
  let (accepted, ring) ← a.ring.fill samples
  let a := { a with ring }
  let rest ← Checked.slice samples accepted samples.length
  if a.ring.isActiveFull then
    let (analysis, a) ← a.release a.ring.active
    return (analysis.toList, rest, a)
  else return ([], rest, a)

def pushRounds : Nat → Analyzer → List Sample → Checked (List Analysis × Analyzer)
  | _, a, [] => .ok ([], a)
  | 0, _, _ :: _ => .error .noProgress
  | rounds + 1, a, sample :: samples => do
      let (first, rest, a) ← a.pushOnce (sample :: samples)
      let (others, a) ← pushRounds rounds a rest
      return (first ++ others, a)

/-- Stream samples in and analyse every block that fills up. A round takes at
least one sample, except that the first may only release a full block. -/
def push (a : Analyzer) (samples : List Sample) : Checked (List Analysis × Analyzer) :=
  pushRounds (samples.length + 1) a samples

def reset (a : Analyzer) : Analyzer :=
  { a with ring := a.ring.reset, transform := a.transform.reset
           mailbox := a.mailbox.clear, blocksAnalyzed := 0 }

end Analyzer

end BandLight
