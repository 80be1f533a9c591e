import BandLight.Color

/-! Where level events go at the end of a tick. A sink answers every event with
what it passes on, and may do so by all that it has received before; any object
with a state of its own is such a sink. It may break at any event. -/
namespace BandLight

inductive SinkCall
  | level (event : LevelEvent)
  | light (band : UInt64) (color : Rgb)
  deriving DecidableEq, Repr, Inhabited

structure Sink where
  /-- What is passed on for an event after those that were accepted before it;
  nothing at all when the sink breaks. -/
  accept : List LevelEvent → LevelEvent → Option (List SinkCall)

namespace Sink

/-- The sink that goes from state to state with every event it accepts. -/
def ofState {σ : Type} (start : σ) (next : σ → LevelEvent → Option (List SinkCall × σ)) : Sink where
  accept received event := do
    let state ← received.foldlM (fun state event => (next state event).map (·.2)) start
    (next state event).map (·.1)

theorem ofState_accept {σ : Type} {start state : σ}
    {next : σ → LevelEvent → Option (List SinkCall × σ)} {received : List LevelEvent}
    (reached : received.foldlM (fun state event => (next state event).map (·.2)) start = some state)
    (event : LevelEvent) :
    (ofState start next).accept received event = (next state event).map (·.1) := by
  simp [ofState, reached]

def ofCalls (calls : LevelEvent → List SinkCall) : Sink where
  accept _ event := some (calls event)

def null : Sink := ofCalls fun _ => []

def log : Sink := ofCalls fun event => [.level event]

def color (map : ColorMap) : Sink :=
  ofCalls fun event => (map.colorOf event).toList.map fun rgb => .light event.band rgb

/-- Hand events over one by one, until all are accepted or the sink breaks:
the calls it made, the events it accepted, and whether it is still whole. -/
def acceptAll (sink : Sink) :
    List LevelEvent → List LevelEvent → List SinkCall × List LevelEvent × Bool
  | _, [] => ([], [], true)
  | received, event :: events =>
      match sink.accept received event with
      | none => ([], [], false)
      | some calls =>
          let (others, accepted, whole) := acceptAll sink (received ++ [event]) events
          (calls ++ others, event :: accepted, whole)

end Sink

end BandLight
