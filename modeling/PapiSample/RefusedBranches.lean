import PapiSample.OpenedEvents
import PapiSample.ReadSafety
import PapiSample.TestEvents

/-!
A processor whose kernel refuses the branch stack. PAPI_sample_init opens the event once
more without the branches, but the parser goes on to expect them: in every sample of the
processor it takes the word behind the raw data for a number of branches, and never
finds the end of the record.
-/
namespace PapiSample.RefusedBranches

open Bytes Cursor Cursor.Prog PerfEvent ParseRecord SampleFields RecordLoop Report FieldDecoding
  SampleDecoding RecordDecoding Advance RecordAdvance MarkedSamples SampleLayout Process SampleInit
  OpenedEvents Handler TrustedReports TestEvents Extent FieldBounds BlockBounds BufferBounds
  ReadSafety

variable {c : Config} {mem : Memory}

end PapiSample.RefusedBranches
