import BandLight.Pipeline.State

/-! From delivered blocks to published spectra. Each delivery is queued as one
block, whole or not at all, and each queued block is analysed as a block of its
own, however short it is. -/
namespace BandLight.Pipeline

def overrun (p : Pipeline) (count : Nat) : Pipeline :=
  { p with counters := { p.counters with overruns := p.counters.overruns + 1 } }.post
    (.overrun (UInt64.ofNat count))

def enqueue (p : Pipeline) (count : Nat) (samples : List Sample) : Bool × Pipeline :=
  if count = 0 then (true, p)
  else if p.lengths.isFull then (false, p.overrun count)
  else if p.samples.room < count then (false, p.overrun count)
  else
    (true, { p with samples := p.samples.push (samples.take count)
                    lengths := p.lengths.push count
                    counters := { p.counters with delivered := p.counters.delivered + 1 } })

def checkDeadline (p : Pipeline) (elapsed : Nat) : Checked Pipeline := do
  let budget ← p.config.blockPeriod
  if elapsed ≤ budget then return p
  else
    let counters := { p.counters with deadlineMisses := p.counters.deadlineMisses + 1 }
    return { p with counters }.post
      (.deadlineMissed (UInt64.ofNat (elapsed / 1000)) (UInt64.ofNat (budget / 1000)))

def analyzeNext (p : Pipeline) : Checked (Option (List Analysis × Pipeline)) :=
  match p.lengths.items with
  | [] => .ok none
  | length :: _ =>
      match p.samples.peek? length with
      | none => .ok none
      | some (first, second) => do
          let filled := p.analyzer.ring.active
          let (_, ring) ← p.analyzer.ring.fill first
          let (_, ring) ← ring.fill second
          let (analysis, analyzer) ← { p.analyzer with ring }.release filled
          let p : Pipeline :=
            { p with analyzer, samples := p.samples.discard length, lengths := p.lengths.pop }
          match analysis with
          | none => return some ([], p)
          | some analysis =>
              let elapsed := p.latency p.counters.analyzed
              let counters := { p.counters with analyzed := p.counters.analyzed + 1 }
              let p ← { p with counters }.checkDeadline elapsed
              return some ([analysis], p)

def analyzeQueued : Nat → Pipeline → Checked (List Analysis × Pipeline)
  | 0, p => .ok ([], p)
  | blocks + 1, p => do
      match ← p.analyzeNext with
      | none => return ([], p)
      | some (first, p) =>
          let (others, p) ← analyzeQueued blocks p
          return (first ++ others, p)

def drain (p : Pipeline) : Checked (List Analysis × Pipeline) :=
  analyzeQueued p.lengths.items.length p

/-- What the transform side does on its own: it drains the queue unless it is
held back or has ended. -/
def advance (p : Pipeline) : Checked (List Analysis × Pipeline) :=
  if p.running ∧ ¬ p.held then p.drain else .ok ([], p)

/-- Queue the first samples of a block, as many as the block size. -/
def offer (p : Pipeline) (block : List Sample) : Checked (Bool × Pipeline) := do
  let block ← Checked.slice block 0 (min block.length p.config.blockSize.toNat)
  return p.enqueue block.length block

def offerBytes (p : Pipeline) (bytes : List UInt8) : Bool × Pipeline :=
  let count := min (bytes.length / 2) p.config.blockSize.toNat
  p.enqueue count ((Sample.decode bytes).take count)

def release (p : Pipeline) : Checked (List Analysis × Pipeline) :=
  { p with held := false }.advance

end BandLight.Pipeline
