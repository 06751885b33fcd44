import PapiSample.RoundTrip
import PapiSample.SampleLayout
import PapiSample.InStep
import PapiSample.ReadSafety
import PapiSample.LateSignals
import PapiSample.Drain
import PapiSample.WindowCopy
import PapiSample.StackDump
import PapiSample.BitReports
import PapiSample.ReportingOptions
import PapiSample.ArmedSampling
import PapiSample.TableCapacity
import PapiSample.OverlapSafety
import PapiSample.SingleActivation
import PapiSample.HeaderGeneration
import PapiSample.KernelVersion
import PapiSample.ProcessorDetection
import PapiSample.IbsDumps
import PapiSample.WholeReport
import PapiSample.Releases
import PapiSample.ArmedDelivery
import PapiSample.HistoryLedger
import PapiSample.SwitchGeneration
import PapiSample.ValidatedStreams
import PapiSample.HelperAnswers
import PapiSample.RefusedBranches
import PapiSample.ContainedMisreads
import PapiSample.RecordOutputs
