import PapiSample.LogStreams
import PapiSample.ReadSafety

/-!
Whether the whole report of a call of perf_mmap_read goes to the log. What decides it
are the register blocks of the samples that the loop comes to; for samples as the
kernel stores them, these are the blocks that come without an ABI.
-/
namespace PapiSample.WholeReport

open Bytes Cursor PerfEvent ParseRecord SampleFields RecordLoop FieldDecoding RegisterDecoding
  SampleDecoding RecordDecoding Advance RecordAdvance Termination MmapRead Emissions LogStreams
  While

variable {c : Config} {mem : Memory}

def abiOf (s : Sample) : SampleField → Option RegsAbi
  | .regsUser => some s.userAbi
  | .regsIntr => some s.intrAbi
  | _ => none

theorem word_eq_none_iff (abi : RegsAbi) : abi.word = RegsAbi.none.word ↔ abi = .none := by
  cases abi <;> decide

/-- A stored block names an ABI unless it is stored with none. -/
theorem stored_abiNamed_iff (s : Sample) (f : SampleField) {off : ℤ}
    (hold : Holds mem off (fieldBytes c s f)) :
    AbiNamed mem off f ↔ abiOf s f ≠ some .none := by
  have hregs : ∀ (abi : RegsAbi) (rest : List Byte), Holds mem off (le64 abi.word ++ rest) →
      f ∈ registerBlocks → abiOf s f = some abi →
        (AbiNamed mem off f ↔ abiOf s f ≠ some .none) := by
    intro abi rest hword hmem habi
    have hvalue := word64_of_holds mem off abi.word ((holds_append ..).mp hword).1
    unfold AbiNamed
    rw [forall_prop_of_true hmem, hvalue, habi, ne_eq, ne_eq, word_eq_none_iff, Option.some.injEq]
  have hother : f ∉ registerBlocks → abiOf s f = none →
      (AbiNamed mem off f ↔ abiOf s f ≠ some .none) := by
    intro hmem habi
    rw [habi]
    exact iff_of_true (fun h => absurd h hmem) (fun h => by contradiction)
  cases f with
  | regsUser => exact hregs s.userAbi _ hold (by decide) rfl
  | regsIntr => exact hregs s.intrAbi _ hold (by decide) rfl
  | _ => exact hother (by decide) rfl

/-- Over the blocks of a stored sample, in the order in which the parser tests them. -/
theorem stored_abisNamed_iff (hquiet : c.quiet = false) (hraw : PlainRaw c) (s : Sample)
    (hdump : SampleField.stackUser.isSet c.sampleType = true → DumpInside s.stack s.dynSize)
    (order : List SampleField) (hphys : .physAddr ∉ order) {off : ℤ}
    (hold : Holds mem off ((requested c order).flatMap (fieldBytes c s)))
    (room : Room 64 off ((requested c order).flatMap (fieldBytes c s)).length)
    (hlen : ((requested c order).flatMap (fieldBytes c s)).length < recordLimit) :
    AbisNamed c mem order off ↔ ∀ f ∈ requested c order, abiOf s f ≠ some .none := by
  induction order generalizing off with
  | nil => exact iff_of_true trivial fun f hf => absurd hf List.not_mem_nil
  | cons f rest ih =>
    obtain ⟨hf, hrest⟩ := not_or.mp (fun h => hphys (List.mem_cons.mpr h))
    rw [requested_cons] at hold room hlen ⊢
    rw [AbisNamed, EachField]
    cases hset : f.isSet c.sampleType with
    | false =>
      simp only [hset, Bool.false_eq_true, if_false] at hold room hlen ⊢
      exact ih hrest hold room hlen
    | true =>
      simp only [hset, if_true, List.flatMap_cons] at hold room hlen ⊢
      rw [List.length_append] at hlen
      obtain ⟨hblock, hothers⟩ := (holds_append ..).mp hold
      have hrun := sampleBlock_decodes hquiet hraw s f (Ne.symm hf) (by omega)
        (fun hstack => hdump (hstack ▸ hset)) mem off hblock room.append.1
      have hoff : wrap 64 off = off := by
        have hroom := room.append.1
        unfold Room at hroom
        exact wrap_eq 64 off (by omega) (by omega)
      have hexit := exit_sampleBlock (c := c) f (Ne.symm hf) mem off hoff
      rw [hrun.exit] at hexit
      obtain ⟨n, hn, hmoved⟩ := Option.map_eq_some_iff.mp hexit.symm
      have hnext : moved 64 off n = off + (fieldBytes c s f).length := congrArg Prod.snd hmoved
      rw [stored_abiNamed_iff s f hblock, hn]
      simp only [Option.mem_some_iff, forall_eq', hnext, List.mem_cons, forall_eq_or_imp]
      exact and_congr_right fun _ => ih hrest hothers room.append.2 (by omega)

/-- A sample as the kernel stores it keeps to the log exactly when every register
block that is requested comes with an ABI. -/
theorem stored_recordNamed_iff (r : Record c) (h : Decodable c r) (s : Sample)
    (hsample : r.payload = .sample s) {start : ℤ} (hold : Holds mem start r.bytes)
    (room : Room 64 start r.size) :
    RecordNamed c mem start ↔
      ∀ f ∈ SampleField.layout, f.isSet c.sampleType = true → abiOf s f ≠ some .none := by
  have htype : RecordType.ofCode (word32 mem start) = some .sample := by
    rw [(header_words r.raw mem start hold).1]
    exact (RecordType.ofCode_code _).trans (by rw [hsample]; rfl)
  have hbody : r.raw.body = (requested c blockOrder).flatMap (fieldBytes c s) := by
    show r.payload.bytes c.sampleType c.readFormat c.regMask ++ r.trailer = _
    rw [requested_inOrder h.order, h.bare, hsample, List.append_nil]
    rfl
  have hfits := r.raw.fits
  have hroom := room
  unfold Record.size RawRecord.size at hroom
  have hpos : moved 64 start 8 = start + 8 := by
    unfold Room at hroom
    exact wrap_eq 64 _ (by omega) (by omega)
  have hstored := (header_words r.raw mem start hold).2.2.2
  have hnext := hroom.split.2
  rw [hbody] at hstored hnext hfits
  rw [RecordNamed, forall_prop_of_true htype, hpos,
    stored_abisNamed_iff h.loud h.plain s (h.stack s hsample) blockOrder (by decide) hstored
      hnext (by omega), requested_inOrder h.order]
  simp only [mem_requested, and_imp]

/-- Every iteration that a call of perf_mmap_read performs keeps to the log. -/
def ReportsToLog (pageSize : ℤ) (m : Mapping) (mmapSize prevHead : ℤ) (c : Config)
    (eventsRead : Option ℕ) (data : Memory) : Prop :=
  let size := windowSize (readHead m) prevHead
  let window := windowData pageSize m mmapSize prevHead data
  ∀ t, Reaches (inWindow size) (loopBody c size window) (loopStart eventsRead) t →
    inWindow size t = true → Emits (InLog c) (iteration c size) window t.offset

/-- A call keeps to the log exactly when no register block that it comes to is
without an ABI. -/
theorem reportsToLog_iff (pageSize : ℤ) (m : Mapping) (mmapSize prevHead : ℤ) (c : Config)
    (eventsRead : Option ℕ) (data : Memory) (hquiet : c.quiet = false)
    (hraw : c.rawType = RAW_NONE) :
    ReportsToLog pageSize m mmapSize prevHead c eventsRead data ↔
      ∀ start,
        Reached c (windowSize (readHead m) prevHead)
            (windowData pageSize m mmapSize prevHead data) start →
          start < windowSize (readHead m) prevHead →
            RecordNamed c (windowData pageSize m mmapSize prevHead data) start := by
  have hsize : IsInt (windowSize (readHead m) prevHead) := ReadSafety.isInt_windowSize ..
  constructor
  · intro h start hreached hlt
    obtain ⟨t, hreach, rfl⟩ := reaches_of_reached hsize (loopStart eventsRead) rfl hreached
    exact (iteration_inLog_iff hquiet hraw _ _).mp (h t hreach (by simpa [inWindow] using hlt))
  · intro h t hreach hin
    have hreached := reached_of_reaches hsize (s := loopStart eventsRead)
      Relation.ReflTransGen.refl hreach
    exact (iteration_inLog_iff hquiet hraw _ _).mpr (h _ hreached (by simpa [inWindow] using hin))

def registerConfig : Config where
  arch := .x86_64
  sampleType := 0x1000
  readFormat := 0
  regMask := 1
  validate := none
  quiet := false
  rawType := RAW_NONE
  heap := fun _ => 0

def registerRing (abi : RegsAbi) : Mapping where
  dataHead := 24
  dataTail := 0
  ring := overlay (headerBytes 9 0 24 ++ le64 abi.word ++ le64 0) fun _ => 0

/-- The sample of a thread without user registers: the name of no ABI is printed on the
standard output. -/
theorem reportsToLog_noAbi :
    ¬ReportsToLog 4096 (registerRing .none) 8 0 registerConfig none fun _ => 0 := by
  intro h
  have hsize : windowSize (readHead (registerRing .none)) 0 = 24 := by decide
  have hemits := h (loopStart none) Relation.ReflTransGen.refl (by rw [hsize]; decide)
  have hnamed := (iteration_inLog_iff (c := registerConfig) rfl rfl _ 0).mp hemits
  have hregs : AbisNamed registerConfig
      (windowData 4096 (registerRing .none) 8 0 fun _ => 0) [.regsUser] 8 :=
    hnamed (by decide)
  exact hregs.1 (by decide) (by decide +kernel)

/-- That of a thread with registers is all in the log. -/
theorem reportsToLog_abi64 :
    ReportsToLog 4096 (registerRing .abi64) 8 0 registerConfig none fun _ => 0 := by
  have hsize : windowSize (readHead (registerRing .abi64)) 0 = 24 := by decide
  refine (reportsToLog_iff 4096 (registerRing .abi64) 8 0 registerConfig none (fun _ => 0) rfl
    rfl).mpr fun start hreached hlt => ?_
  rw [hsize] at hreached hlt
  have hlength : recordLength registerConfig 24
      (windowData 4096 (registerRing .abi64) 8 0 fun _ => 0) 0 = some 24 := by decide +kernel
  obtain rfl := hreached.only_first hlength (by decide) hlt
  intro _
  have hregs : AbisNamed registerConfig
      (windowData 4096 (registerRing .abi64) 8 0 fun _ => 0) [.regsUser] 8 :=
    ⟨fun _ => by decide +kernel, fun _ _ => trivial⟩
  exact hregs

/-- What a finished call has printed. -/
theorem finished_inLog {pageSize : ℤ} {m : Mapping} {mmapSize prevHead : ℤ}
    {eventsRead : Option ℕ} {data : Memory}
    (h : ReportsToLog pageSize m mmapSize prevHead c eventsRead data) {fuel : ℕ} {t : LoopState}
    (hrun : recordLoop c (windowSize (readHead m) prevHead)
      (windowData pageSize m mmapSize prevHead data) fuel (loopStart eventsRead) = some t) :
    ∀ step ∈ (afterLoop pageSize m mmapSize prevHead data t).loop.trace,
      ∀ o, Event.emit o ∈ step.2 → InLog c o := by
  have hevents := trace_events (P := fun e => ∀ o, e = .emit o → InLog c o) rfl
    (fun u hu hin e he o ho => h u hu hin o (ho ▸ he)) (loop_reaches fuel _ _ hrun).1
  intro step hstep o ho
  exact hevents step hstep _ ho o rfl

end PapiSample.WholeReport
