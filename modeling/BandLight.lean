import BandLight.Analyzer
import BandLight.Color
import BandLight.Preset
import BandLight.Config
import BandLight.Event
import BandLight.Chain
import BandLight.Pipeline
import BandLight.Json.Token
import BandLight.Json.Buffer
import BandLight.Json.Parser
import BandLight.Json.Printer
import BandLight.Json.Codec
import BandLight.Json.Records
import BandLight.Demo.Options
import BandLight.Demo.Session
import BandLight.Main
import BandLight.Proofs.CheckedRuns
import BandLight.Proofs.RingContents
import BandLight.Proofs.SpectrumBounds
import BandLight.Proofs.BlockAnalysis
import BandLight.Proofs.TickTotality
import BandLight.Proofs.PipelineTick
import BandLight.Proofs.PipelineRuns
import BandLight.Proofs.PipelineHistory
import BandLight.Proofs.Delivery
import BandLight.Proofs.Safety
import BandLight.Proofs.Overrun
import BandLight.Proofs.ChainBlocks
import BandLight.Proofs.Refinement
import BandLight.Proofs.SampleStream
import BandLight.Proofs.SlidingWindow
import BandLight.Proofs.AnalyzerRuns
import BandLight.Proofs.PublishedSpectra
import BandLight.Proofs.DrainSchedules
import BandLight.Proofs.HeldRuns
import BandLight.Proofs.BandHistory
import BandLight.Proofs.RetainedScaling
import BandLight.Proofs.PipelineMoves
import BandLight.Proofs.TickReadings
import BandLight.Proofs.PipelineLog
import BandLight.Proofs.IntakeRuns
import BandLight.Proofs.PostedEvents
import BandLight.Proofs.Observers
import BandLight.Proofs.Statistics
import BandLight.Proofs.StartChecks
import BandLight.Proofs.PipelineKin
import BandLight.Proofs.CommandBatches
import BandLight.Proofs.JsonText
import BandLight.Proofs.JsonRecords
import BandLight.Proofs.LatestSpectrum
import BandLight.Proofs.RingRuns
import BandLight.Proofs.HandedBlocks
import BandLight.Proofs.JsonSpacing
import BandLight.Proofs.JsonSetAside
import BandLight.Proofs.JsonFlaws
import BandLight.Proofs.FieldwiseForms
import BandLight.Proofs.JsonArrangement
import BandLight.Proofs.EventReading
import BandLight.Proofs.RecordReading
import BandLight.Proofs.ArrayForms
import BandLight.Proofs.BandEnergy
import BandLight.Proofs.BandSums
import BandLight.Proofs.TuningBounds
import BandLight.Proofs.TickSpecification
import BandLight.Proofs.RetriggerBounds
import BandLight.Proofs.FirstOnsets
import BandLight.Proofs.RepeatedSpectra
import BandLight.Proofs.BandOrder
import BandLight.Proofs.MeanFrequency
import BandLight.Proofs.TransformRuns
import BandLight.Proofs.StreamDivision
import BandLight.Proofs.ByteIntake
import BandLight.Proofs.NestedRoots
import BandLight.Proofs.PolynomialRemainders
import BandLight.Proofs.ExactRemainders
import BandLight.Proofs.FixedPointNumbers
import BandLight.Proofs.FixedPointNodes
import BandLight.Proofs.RoundedPowers
import BandLight.Proofs.FourierBins
import BandLight.Proofs.MagnitudeLaw
import BandLight.Proofs.WorkingBuffers
import BandLight.Proofs.FreshResets
