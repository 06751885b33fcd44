import PapiSample.BlockOutputs
import PapiSample.RecordAdvance

/-!
What an iteration of the record loop puts out. The header and the fields of a record
that is no sample are printed to the log, each at a site for all of them; the records
that end with a name allocate a block for it.
-/
namespace PapiSample.RecordOutputs

open Bytes Cursor Cursor.Prog PerfEvent ParseRecord SampleFields RecordLoop Advance RecordAdvance
  SampleDecoding Emissions BlockOutputs

variable {c : Config} {ok : Out → Prop}

theorem always_printHeader (h : Permits ok .header) (start : ℤ) (type : BitVec 32) :
    Always ok (printHeader c start type) := by
  apply always_unlessQuiet
  refine (always_fprintf h _ _).bind fun _ => (always_peek16 _).bind fun _ => ?_
  refine (always_fprintf h _ _).bind fun _ => (always_fprintf h _ _).bind fun _ => ?_
  refine (always_label h _ _).bind fun _ => (always_label h _ _).bind fun _ => ?_
  exact (always_label h _ _).bind fun _ => (always_peek16 _).bind fun _ => always_fprintf h _ _

section Details
variable (h : Permits ok .details)
include h

theorem always_pidTid : Always ok (pidTid c) :=
  (always_intField h _).bind fun _ => always_intField h _

theorem always_mapFields : Always ok (mapFields c) :=
  (always_pidTid h).bind fun _ => (always_longField h _).bind fun _ =>
    (always_longField h _).bind fun _ => always_longField h _

theorem always_mmap2Fields : Always ok (mmap2Fields c) := by
  refine (always_mapFields h).bind fun _ => (always_intField h _).bind fun _ => ?_
  refine (always_intField h _).bind fun _ => (always_longField h _).bind fun _ => ?_
  exact (always_longField h _).bind fun _ => (always_intField h _).bind fun _ => always_intField h _

theorem always_taskRecord : Always ok (taskRecord c) := by
  refine (always_intField h _).bind fun _ => (always_intField h _).bind fun _ => ?_
  exact (always_intField h _).bind fun _ => (always_intField h _).bind fun _ => always_longField h _

theorem always_throttleRecord : Always ok (throttleRecord c) :=
  (always_longField h _).bind fun _ => (always_longField h _).bind fun _ => always_longField h _

theorem always_longPair (first second : String) : Always ok (do
    longField c .details first
    longField c .details second) :=
  (always_longField h _).bind fun _ => always_longField h _

theorem always_auxRecord : Always ok (auxRecord c) := by
  have hflags : ∀ flags, Always ok (auxFlags flags) := fun _ =>
    (always_fprintf h _ _).bind fun _ => (always_label h _ _).bind fun _ =>
      (always_label h _ _).bind fun _ => always_fprintf h _ _
  refine (always_longField h _).bind fun _ => (always_longField h _).bind fun _ => ?_
  exact (always_load64 0).bind fun flags => (always_unlessQuiet (hflags flags)).bind fun _ =>
    (always_advance 8).bind fun _ => always_longField h _

theorem always_unknownRecord (size : ℤ) (type : BitVec 32) :
    Always ok (unknownRecord c size type) :=
  (always_print h _ _).bind fun _ => always_jump size

theorem always_nameTail (hcopy : PermitsCopy ok) (start head : ℤ) (format : String) :
    Always ok (nameTail c start head format) :=
  (always_peek16 _).bind fun _ => (always_copyOut hcopy _).bind fun _ =>
    (always_print h _ _).bind fun _ => always_advance _

end Details

/-- The case of a type with fields of fixed lengths, or without a case. -/
theorem always_fixedDetails (h : Permits ok .details) (size start : ℤ) (type : BitVec 32)
    (hsample : RecordType.ofCode type ≠ some .sample)
    (hnamed : ∀ r ∈ namedTypes, RecordType.ofCode type ≠ some r) :
    Always ok (details c size start type) := by
  unfold details
  cases hcode : RecordType.ofCode type with
  | none => exact always_unknownRecord h size type
  | some r =>
    cases r with
    | sample => exact absurd hcode hsample
    | comm => exact absurd hcode (hnamed .comm (by decide))
    | mmap => exact absurd hcode (hnamed .mmap (by decide))
    | mmap2 => exact absurd hcode (hnamed .mmap2 (by decide))
    | lost => exact always_longPair h _ _
    | fork => exact always_taskRecord h
    | exit => exact always_taskRecord h
    | throttle => exact always_throttleRecord h
    | unthrottle => exact always_throttleRecord h
    | aux => exact always_auxRecord h
    | itraceStart => exact always_pidTid h
    | lostSamples => exact always_longPair h _ _
    | switch => exact always_longField h _
    | switchCpuWide =>
      exact (always_intField h _).bind fun _ => (always_intField h _).bind fun _ =>
        always_longField h _
    | read => exact always_unknownRecord h size type
    | namespaces => exact always_unknownRecord h size type

/-- The case of a type other than a sample. -/
theorem always_details (h : Permits ok .details) (hcopy : PermitsCopy ok) (size start : ℤ)
    (type : BitVec 32) (hsample : RecordType.ofCode type ≠ some .sample) :
    Always ok (details c size start type) := by
  by_cases hnamed : ∀ r ∈ namedTypes, RecordType.ofCode type ≠ some r
  · exact always_fixedDetails h size start type hsample hnamed
  · simp only [namedTypes, List.mem_cons, List.not_mem_nil, or_false, forall_eq_or_imp, forall_eq,
      not_and_or, not_not] at hnamed
    unfold details
    rcases hnamed with hcode | hcode | hcode
    · rw [hcode]
      exact (always_pidTid h).bind fun _ => always_nameTail h hcopy start 16 _
    · rw [hcode]
      exact (always_mapFields h).bind fun _ => always_nameTail h hcopy start 40 _
    · rw [hcode]
      exact (always_mmap2Fields h).bind fun _ => always_nameTail h hcopy start 72 _

structure PermitsIteration (c : Config) (ok : Out → Prop) : Prop where
  header : Permits ok .header
  details : Permits ok .details
  copy : PermitsCopy ok
  blocks : ∀ f, PermitsBlock c ok f

theorem always_iteration (h : PermitsIteration c ok) (size : ℤ) : Always ok (iteration c size) := by
  refine always_here.bind fun start => (always_peek32 start).bind fun type => ?_
  refine (always_printHeader h.header start type).bind fun _ => (always_advance 8).bind fun _ => ?_
  by_cases hsample : RecordType.ofCode type = some .sample
  · unfold details
    rw [hsample]
    exact always_sampleBlocks blockOrder fun f _ => h.blocks f
  · exact always_details h.details h.copy size start type hsample

variable {mem : Memory}

/-- The blocks of a sample put out what is good exactly when each of them does. -/
theorem emits_sampleBlocks {P : ℤ → SampleField → Prop}
    (hblock : ∀ f off, Emits ok (sampleBlock c f) mem off ↔ P off f) (order : List SampleField)
    (hphys : .physAddr ∉ order) {off : ℤ} (hoff : wrap 64 off = off) :
    Emits ok (sampleBlocks c order) mem off ↔ EachField c mem P order off := by
  induction order generalizing off with
  | nil => exact iff_of_true (always_pure () mem off) trivial
  | cons f rest ih =>
    obtain ⟨hf, hrest⟩ := not_or.mp (fun h => hphys (List.mem_cons.mpr h))
    rw [sampleBlocks, EachField]
    cases f.isSet c.sampleType with
    | false =>
      rw [optionally, if_neg Bool.false_ne_true, if_neg Bool.false_ne_true,
        emits_after (always_pure ()) (exit_pure () mem off)]
      exact ih hrest hoff
    | true =>
      rw [optionally, if_pos rfl, if_pos rfl, emits_bind, hblock,
        exit_sampleBlock f (Ne.symm hf) mem off hoff]
      apply and_congr_right
      intro _
      cases fieldLength c mem off f with
      | none => simp
      | some n =>
        simp only [Option.map_some, Option.mem_some_iff, forall_eq']
        exact ih hrest (wrap_moved ..)

/-- Behind the header the case of the type is what counts. -/
theorem emits_iteration (hheader : Permits ok .header) (size start : ℤ) :
    Emits ok (iteration c size) mem start ↔
      Emits ok (details c size start (word32 mem start)) mem (moved 64 start 8) := by
  rw [iteration, emits_after always_here (exit_here mem start),
    emits_after (always_peek32 start) (exit_peek32 start mem start),
    emits_after (always_printHeader hheader start _) (printHeader_stays start _ mem start),
    emits_after (always_advance 8) (exit_advance 8 mem start)]

end PapiSample.RecordOutputs
