import PapiSample.CatchUp
import PapiSample.ProcessorDetection
import PapiSample.TrustedReports

/-!
The sessions of test_events. It asks for the interrupt registers together with the data
source, which the parser reads in the wrong order; the values of the other fields are
right in its log.
-/
namespace PapiSample.TestEvents

open PerfEvent RecordDecoding SampleOrder MarkedSamples SampleLayout Process SampleInit OpenedEvents
  Handler Registry HandlerRuns Sessions SessionLog CatchUp TrustedReports Transition RecordLog

def sampleType : BitVec 32 :=
  SampleField.ip.mask ||| SampleField.tid.mask ||| SampleField.time.mask |||
    SampleField.addr.mask ||| SampleField.read.mask ||| SampleField.callchain.mask |||
    SampleField.id.mask ||| SampleField.cpu.mask ||| SampleField.period.mask |||
    SampleField.streamId.mask ||| SampleField.raw.mask |||
    SampleField.dataSrc.mask ||| SampleField.regsIntr.mask

/-- The branch stack is asked for if the name of the event has a BR_ in it. -/
def withBranches : Bool → BitVec 32
  | true => sampleType ||| SampleField.branchStack.mask
  | false => sampleType

def mainArgs (event : List Char) : Args where
  eventCodes := event
  sampleType := withBranches (ProcessorDetection.strstr event "BR_")
  samplePeriod := 1000000

/-- With or without the branch stack the parser keeps in step. -/
theorem withBranches_keepsStep (br : Bool) : KeepsStep (withBranches br) := by
  cases br with
  | false => exact ⟨by decide, by decide, fun _ => by decide⟩
  | true => exact ⟨by decide, by decide, fun _ => by decide⟩

theorem withBranches_regsIntr (br : Bool) :
    SampleField.regsIntr.isSet (withBranches br) = true := by
  cases br <;> decide

variable {pl : Platform} {a : Answers} {args : Args} {w w' : World} {block : ℕ}

/-- The handler decodes by the sample type that was asked for. -/
theorem decoderConfig_sampleType (hdistinct : Distinct a pl.cpus)
    (hinit : papiSampleInit pl a args w = .fds block w') :
    (decoderConfig pl (papiSampleStart pl block w')).sampleType = args.sampleType := by
  obtain ⟨_, _, p, rfl, hopens⟩ := papiSampleInit_opens hdistinct hinit
  have hsame := congrArg Process.Registry.sampleTypeHandle
    (papiSampleStart_registry pl block p.world)
  exact hsame.trans hopens.kept.sampleTypeHandle

/-- The records that a session of test_events can follow. -/
theorem trusted_iff {event : List Char} (hdistinct : Distinct a pl.cpus)
    (hinit : papiSampleInit pl a (mainArgs event) w = .fds block w')
    (r : Record (decoderConfig pl (papiSampleStart pl block w'))) :
    Trusted _ r ↔ r.payload.type ∈ streamTypes ∧ r.trailer = [] := by
  have htype := decoderConfig_sampleType hdistinct hinit
  constructor
  · exact fun h => ⟨h.type, h.bare⟩
  · rintro ⟨hstream, hbare⟩
    refine ⟨rfl, SampleDecoding.plainRaw_of_none rfl, ?_, hstream, hbare, fun _ _ hset => ?_⟩
    · rw [htype]
      exact withBranches_keepsStep _
    · rw [htype, show SampleField.stackUser.isSet (mainArgs event).sampleType = false from
        (withBranches_keepsStep _).stack (withBranches_regsIntr _)] at hset
      contradiction

/-- Whatever event test_events is called with: as long as the kernel writes whole records
of the documented types, the log of each processor has the values of an initial part of
them, in order, those of the displaced fields apart, and the run of a signal catches up
with them. -/
theorem testEvents_log (pl : Platform) (a : Answers) (event : List Char) (w' : World) (block : ℕ)
    (labels : List Label) (u : Logged (Record (decoderConfig pl (papiSampleStart pl block w'))))
    (hdistinct : Distinct a pl.cpus)
    (hinit : papiSampleInit pl a (mainArgs event) World.initial = .fds block w')
    (hrun : Run (Logs pl (reading (trustedReader _)))
      (Logged.start _ (State.sampling pl (papiSampleStart pl block w'))) labels u) :
    (∀ r : Record (decoderConfig pl (papiSampleStart pl block w')),
      (trustedReader _).reads r ↔ r.payload.type ∈ streamTypes ∧ r.trailer = []) ∧
    ∀ i < pl.cpus, ∃ e records, u.state.world.mmaps i = some e ∧
      LogOf (trustedReader _) labels e.sampleMmap (u.state.world.currentFd i) u records ∧
      ∀ rest later v, (u.state.world.rings e.sampleMmap).isSome = true →
        Run (Logs pl (reading (trustedReader _))) u (.signal i rest :: later) v →
        OnlyStatements later →
        v.state.handler = none →
          foundFor trusted (v.state.world.currentFd i) v.log =
            (v.written e.sampleMmap).map trustedReport := by
  refine ⟨trusted_iff hdistinct hinit, fun i hi => ?_⟩
  obtain ⟨e, records, he, _, hlog⟩ :=
    (reader_log pl a (mainArgs event) [] World.initial w' block labels
      (trustedReader _) u History.start hdistinct hinit hrun).1 i hi
  refine ⟨e, records, he, hlog, fun rest later v hmapped hlater honly hdone => ?_⟩
  exact (reader_catches_up pl a (mainArgs event) [] World.initial w' block labels later
    (trustedReader _) u v i rest e History.start hdistinct hinit hrun hi he hmapped hlater
    honly).2.2 hdone

def anyArgs : Args := mainArgs "INST_RETIRED:ANY".toList

theorem anyArgs_config {w' : World}
    (hinit : papiSampleInit twoCpus (kernelAnswers false) anyArgs World.initial = .fds 1 w') :
    decoderConfig twoCpus (papiSampleStart twoCpus 1 w') = testEventsConfig := by
  cases hinit
  rfl

/-- The log has the other fields of the sample that is misread. -/
theorem testEvents_log_misread :
    ∃ w' labels, ∃ u : Logged (Record (decoderConfig twoCpus (papiSampleStart twoCpus 1 w'))),
      ∃ e records,
      papiSampleInit twoCpus (kernelAnswers false) anyArgs World.initial = .fds 1 w' ∧
      u.state.handler = none ∧
      (∃ r, u.written 0 = [r] ∧ r.payload = .sample (markedSample .dataSrc)) ∧
      u.state.world.mmaps 0 = some e ∧
      LogOf (trustedReader _) labels e.sampleMmap (u.state.world.currentFd 0) u records := by
  obtain ⟨w', hinit⟩ : ∃ w', papiSampleInit twoCpus (kernelAnswers false) anyArgs World.initial =
      .fds 1 w' := ⟨_, rfl⟩
  have hring : (papiSampleStart twoCpus 1 w').rings 0 = some (newRing 3) := by
    cases hinit
    rfl
  have hfits : Fits testEventsConfig (markedSample .dataSrc) := by
    unfold Fits
    decide +kernel
  rw [← anyArgs_config hinit] at hfits
  have hwrites : ∀ r ∈ [sampleOf _ (markedSample .dataSrc) hfits], (trustedReader _).reads r :=
    List.forall_mem_singleton.mpr ((trusted_iff kernelAnswers_distinct hinit _).mpr
      ⟨by simp [sampleOf, Payload.type, streamTypes], rfl⟩)
  have hsize : ([sampleOf _ (markedSample .dataSrc) hfits].flatMap Record.bytes).length ≤
    32768 := by
    rw [List.flatMap_singleton, Record.bytes, RawRecord.bytes_length]
    show 8 + (Sample.bytes _ _ _ (markedSample .dataSrc) ++ []).length ≤ 32768
    rw [anyArgs_config hinit]
    decide +kernel
  obtain ⟨later, u, hread, _, hidle, hwritten⟩ := itemsWritten_read hinit hring
    (reading (trustedReader _)) (reading_ends _) _ hwrites hsize
  obtain ⟨e, records, he, hlog, _⟩ := (testEvents_log twoCpus (kernelAnswers false)
    "INST_RETIRED:ANY".toList w' 1 _ u kernelAnswers_distinct hinit
    ((itemsWritten_run hring (reading (trustedReader _)) _ hwrites hsize).append hread)).2 0
      (by decide)
  exact ⟨w', _, u, e, records, hinit, hidle, ⟨_, hwritten, rfl⟩, he, hlog⟩

end PapiSample.TestEvents
