import BandLight.SetupError

/-! What can go wrong with a pipeline as a whole, and the text that says so. -/
namespace BandLight

inductive PipelineError
  | invalidSampleRate (rate : Nat)
  | invalidTickInterval (ms : Nat)
  | invalidFrequencyFloor (bin spectrumLength : Nat)
  | invalidEventQueueCapacity
  | setup (error : SetupError)
  | threadSpawn (reason : String)
  | notRunning
  | channelSendError
  deriving DecidableEq, Repr, Inhabited

namespace PipelineError

def message : PipelineError → String
  | invalidSampleRate rate => "Invalid sample rate: " ++ toString rate ++ "Hz"
  | invalidTickInterval ms => "Invalid tick interval: " ++ toString ms ++ "ms"
  | invalidFrequencyFloor bin spectrumLength =>
      "Frequency floor bin " ++ toString bin ++ " is outside the "
        ++ toString spectrumLength ++ "-bin spectrum"
  | invalidEventQueueCapacity => "Event queue capacity must be at least 1"
  | setup error => "DSP configuration error: " ++ error.message
  | threadSpawn reason => "Failed to spawn pipeline thread: " ++ reason
  | notRunning => "Pipeline not running"
  | channelSendError => "Channel send error - receiver dropped"

/-- Whether the configuration is at fault, so that trying again is useless. -/
def isConfigError : PipelineError → Bool
  | invalidSampleRate _ | invalidTickInterval _ | invalidFrequencyFloor _ _
  | invalidEventQueueCapacity | setup _ => true
  | threadSpawn _ | notRunning | channelSendError => false

end PipelineError

end BandLight
