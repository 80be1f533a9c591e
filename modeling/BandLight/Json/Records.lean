import BandLight.Config
import BandLight.Event
import BandLight.Json.Buffer
import BandLight.Json.Codec
import BandLight.Stats

/-! The JSON forms of the records of a pipeline. -/
namespace BandLight.Codec

instance : Codec Band where
  encode band := .record
    [("start_bin", encode band.startBin), ("end_bin", encode band.endBin),
     ("noise_floor", encode band.noiseFloor)]
  decode v := do
    match ← fields ["start_bin", "end_bin", "noise_floor"] v with
    | [startBin, endBin, noiseFloor] =>
        return { startBin := ← required startBin, endBin := ← required endBin
                 noiseFloor := ← required noiseFloor }
    | _ => none

instance : Codec Tuning where
  encode tuning := .record
    [("threshold_base", encode tuning.thresholdBase),
     ("threshold_knee", encode tuning.thresholdKnee),
     ("divisor_base", encode tuning.divisorBase),
     ("divisor_knee", encode tuning.divisorKnee)]
  decode v := do
    match ← fields ["threshold_base", "threshold_knee", "divisor_base", "divisor_knee"] v with
    | [thresholdBase, thresholdKnee, divisorBase, divisorKnee] =>
        return { thresholdBase := ← required thresholdBase
                 thresholdKnee := ← required thresholdKnee
                 divisorBase := ← required divisorBase
                 divisorKnee := ← required divisorKnee }
    | _ => none

instance : Codec LevelEvent where
  encode event := .record [("band", encode event.band), ("level", encode event.level)]
  decode v := do
    match ← fields ["band", "level"] v with
    | [band, level] => return { band := ← required band, level := ← required level }
    | _ => none

instance : Codec Rgb where
  encode rgb := .record
    [("red", encode rgb.red), ("green", encode rgb.green), ("blue", encode rgb.blue)]
  decode v := do
    match ← fields ["red", "green", "blue"] v with
    | [red, green, blue] =>
        return { red := ← required red, green := ← required green, blue := ← required blue }
    | _ => none

def channelName : Channel → String
  | .red => "Red"
  | .green => "Green"
  | .blue => "Blue"

def channelOfName (name : List Char) : Option Channel :=
  [Channel.red, .green, .blue].find? fun channel => (channelName channel).toList = name

/-- The name of one of several kinds: a string, or an object with the name as
its only key and null as the value. -/
def kindName : Json → Option (List Char)
  | .string (some name) => some name
  | .object [(some name, .null)] => some name
  | _ => none

instance : Codec Channel where
  encode channel := .ofString (channelName channel)
  decode v := (kindName v).bind channelOfName

instance : Codec ColorMap where
  encode map := .record [("channels", encode map.channels)]
  decode v := do
    match ← fields ["channels"] v with
    | [channels] => return { channels := ← required channels }
    | _ => none

instance : Codec Stats where
  encode stats := .record
    [("blocks_delivered", encode stats.blocksDelivered),
     ("blocks_analyzed", encode stats.blocksAnalyzed),
     ("overruns", encode stats.overruns),
     ("deadline_misses", encode stats.deadlineMisses),
     ("spectra_consumed", encode stats.spectraConsumed),
     ("events_emitted", encode stats.eventsEmitted),
     ("events_dropped", encode stats.eventsDropped)]
  decode v := do
    match ← fields ["blocks_delivered", "blocks_analyzed", "overruns", "deadline_misses",
        "spectra_consumed", "events_emitted", "events_dropped"] v with
    | [delivered, analyzed, overruns, misses, consumed, emitted, dropped] =>
        return { blocksDelivered := ← required delivered, blocksAnalyzed := ← required analyzed
                 overruns := ← required overruns, deadlineMisses := ← required misses
                 spectraConsumed := ← required consumed, eventsEmitted := ← required emitted
                 eventsDropped := ← required dropped }
    | _ => none

instance : Codec Config where
  encode config := .record
    [("block_size", encode config.blockSize),
     ("sample_rate", encode config.sampleRate),
     ("bands", encode config.bands),
     ("tuning", encode config.tuning),
     ("tick_interval_ms", encode config.tickIntervalMs),
     ("frequency_floor_bin", encode config.frequencyFloorBin),
     ("event_queue_capacity", encode config.eventQueueCapacity)]
  decode v := do
    match ← fields ["block_size", "sample_rate", "bands", "tuning", "tick_interval_ms",
        "frequency_floor_bin", "event_queue_capacity"] v with
    | [blockSize, sampleRate, bands, tuning, tickIntervalMs, floorBin, capacity] =>
        return { blockSize := ← required blockSize
                 sampleRate := ← required sampleRate
                 bands := ← required bands
                 tuning := ← defaulted .standard tuning
                 tickIntervalMs := ← required tickIntervalMs
                 frequencyFloorBin := ← defaulted none floorBin
                 eventQueueCapacity := ← defaulted Config.standardEventQueueCapacity capacity }
    | _ => none

/-- The kind of a tagged value and its content, if it has one. The members may
come in either order. Content in front of the tag is set aside until the tag is
known. In an array the kind is a plain name. -/
def tagged : Json → Option (List Char × Option Json)
  | .array [.string (some kind), content] => some (kind, some content)
  | .object object =>
      if object.all (·.1.isSome) then
        let isTag (member : Literal × Json) : Bool := member.1 = some "type".toList
        let isContent (member : Literal × Json) : Bool := member.1 = some "payload".toList
        match object.filter fun member => isTag member || isContent member with
        | [first] =>
            if isTag first then (kindName first.2).map fun kind => (kind, none) else none
        | [first, second] =>
            if isTag first && isContent second then
              (kindName first.2).map fun kind => (kind, some second.2)
            else if isContent first && isTag second && Json.fits (Json.maxDepth - 1) first.2 then
              (kindName second.2).map fun kind => (kind, some first.2)
            else none
        | _ => none
      else none
  | _ => none

def content (names : List String) : Option Json → Option (List (Option Json))
  | some (.object object) => members names object
  | _ => none

def decodeEvent (kind : String) (payload : Option Json) : Option Event :=
  match kind with
  | "BandLevel" => do
      match ← content ["band", "level"] payload with
      | [band, level] => return .bandLevel (← required band) (← required level)
      | _ => none
  | "MeanFrequency" => do
      match ← content ["hz"] payload with
      | [hz] => return .meanFrequency (← required hz)
      | _ => none
  | "Overrun" => do
      match ← content ["dropped_samples"] payload with
      | [dropped] => return .overrun (← required dropped)
      | _ => none
  | "DeadlineMissed" => do
      match ← content ["elapsed_us", "budget_us"] payload with
      | [elapsed, budget] => return .deadlineMissed (← required elapsed) (← required budget)
      | _ => none
  | "Error" => do
      match ← content ["message"] payload with
      | [message] => return .error (← required message)
      | _ => none
  | "Stopped" =>
      match payload with
      | none | some .null => some .stopped
      | some _ => none
  | _ => none

/-- An event with fields is written with its kind and an object of the fields. -/
def encodeEvent (kind : String) (payload : List (String × Json)) : Json :=
  .record [("type", encode kind), ("payload", .record payload)]

instance : Codec Event where
  encode
    | .bandLevel band level =>
        encodeEvent "BandLevel" [("band", encode band), ("level", encode level)]
    | .meanFrequency hz => encodeEvent "MeanFrequency" [("hz", encode hz)]
    | .overrun dropped => encodeEvent "Overrun" [("dropped_samples", encode dropped)]
    | .deadlineMissed elapsed budget =>
        encodeEvent "DeadlineMissed" [("elapsed_us", encode elapsed), ("budget_us", encode budget)]
    | .error message => encodeEvent "Error" [("message", encode message)]
    | .stopped => .record [("type", encode "Stopped")]
  decode v := do
    let (kind, payload) ← tagged v
    decodeEvent (String.ofList kind) payload

end BandLight.Codec
