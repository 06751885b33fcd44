import PapiSample.BlockBounds
import PapiSample.Termination
import PapiSample.MmapRead

/-!
Whether perf_mmap_read stays inside its data buffer. Every record is trusted to
lie inside: neither its header nor the parts its contents name are compared with
the length of the buffer, and a window larger than the buffer is walked to its
end. What is read is inside exactly when what the records name is.
-/
namespace PapiSample.BufferBounds

open Bytes Cursor Cursor.Prog PerfEvent ParseRecord SampleFields RecordLoop Printing Advance
  RecordAdvance Termination Extent FieldBounds BlockBounds MmapRead While

variable {c : Config} {bytesize : ℤ} {mem : Memory} {lo hi : ℤ}

/-- The type of a record is always read, the rest of its header to be printed. -/
def headerRead (c : Config) : ℤ := if c.quiet then 4 else 8

def FieldsInside (c : Config) (bytesize : ℤ) (mem : Memory) : List SampleField → ℤ → Prop :=
  EachField c mem (FieldInside c bytesize mem)

def NameInside (bytesize : ℤ) (mem : Memory) (start head : ℤ) : Prop :=
  head ≤ sizeAt mem start ∧ Span 0 bytesize start (sizeAt mem start)

/-- The header of the record at `start` and everything its case looks at lie
inside the buffer. -/
def RecordInside (c : Config) (bytesize : ℤ) (mem : Memory) (start : ℤ) : Prop :=
  Span 0 bytesize start (headerRead c) ∧
    match RecordType.ofCode (word32 mem start) with
    | some .comm => NameInside bytesize mem start 16
    | some .mmap => NameInside bytesize mem start 40
    | some .mmap2 => NameInside bytesize mem start 72
    | some .sample => FieldsInside c bytesize mem blockOrder (moved 64 start 8)
    | some .read | some .namespaces | none => True
    | some r => ∀ n ∈ fixedLength r, Span 0 bytesize start n

theorem recordInside_sample {start : ℤ}
    (h : RecordType.ofCode (word32 mem start) = some .sample) :
    RecordInside c bytesize mem start ↔ Span 0 bytesize start (headerRead c) ∧
      FieldsInside c bytesize mem blockOrder (moved 64 start 8) := by
  rw [RecordInside, h]

theorem sampleBlocks_safe (hfits : Fits 32 bytesize) (order : List SampleField)
    (hphys : .physAddr ∉ order) {off : ℤ} (hoff : wrap 64 off = off) :
    Safe Sound 0 bytesize (sampleBlocks c order) mem off ↔
      FieldsInside c bytesize mem order off := by
  induction order generalizing off with
  | nil => exact ⟨fun _ => trivial, fun _ => safe_pure () mem off⟩
  | cons f rest ih =>
    obtain ⟨hf, hrest⟩ := not_or.mp (fun h => hphys (List.mem_cons.mpr h))
    rw [sampleBlocks, FieldsInside, EachField, safe_bind]
    cases f.isSet c.sampleType with
    | false =>
      simp only [optionally, Bool.false_eq_true, if_false, safe_pure, exit_pure, true_and,
        Option.mem_some_iff, forall_eq']
      exact ih hrest hoff
    | true =>
      simp only [optionally, if_true, sampleBlock_safe hfits hoff,
        exit_sampleBlock f (Ne.symm hf) mem off hoff]
      apply and_congr_right
      intro _
      cases fieldLength c mem off f with
      | none => simp
      | some n =>
        simp only [Option.map_some, Option.mem_some_iff, forall_eq']
        exact ih hrest (wrap_moved ..)

/-- The part of the header that is printed. -/
theorem printHeader_safe (start : ℤ) (type : BitVec 32) (off : ℤ) :
    Safe Sound lo hi (printHeader c start type) mem off ↔
      (c.quiet = false → Span lo hi (start + 4) 4) := by
  unfold printHeader unlessQuiet
  cases c.quiet with
  | true => exact ⟨fun _ => nofun, fun _ => safe_pure () mem off⟩
  | false =>
    have hflag : ∀ b text, Prints (optionally b (fprintf .header text [])) := fun b text =>
      prints_optionally b (prints_fprintf _ _ _)
    have hsize : start + 6 = start + 4 + 2 := by omega
    simp only [Bool.false_eq_true, if_false, prints_before (prints_fprintf _ _ _), safe_bind,
      eventMisc, eventSize, safe_peek16, exit_peek16, Option.mem_some_iff, forall_eq',
      prints_before (hflag _ _), prints_safe (prints_fprintf _ _ _), and_true]
    rw [hsize, span_overlap (by omega) (by omega) (by omega) (by omega)]
    exact (true_imp_iff).symm

/-- The header of a record, and the cursor behind it. -/
theorem iteration_split (size start : ℤ) :
    Safe Sound 0 bytesize (iteration c size) mem start ↔
      Span 0 bytesize start (headerRead c) ∧
        Safe Sound 0 bytesize (details c size start (word32 mem start)) mem (moved 64 start 8) := by
  have hheader : Span 0 bytesize start 4 ∧ (c.quiet = false → Span 0 bytesize (start + 4) 4) ↔
      Span 0 bytesize start (headerRead c) := by
    unfold headerRead
    cases c.quiet with
    | true => exact and_iff_left nofun
    | false =>
      rw [forall_prop_of_true rfl]
      exact span_overlap (by omega) (by omega) (by omega) (by omega)
  rw [← hheader, and_assoc, iteration, safe_bind, exit_here]
  simp only [Option.mem_some_iff, forall_eq', safe_here, true_and]
  rw [safe_bind, safe_peek32, exit_peek32]
  simp only [Option.mem_some_iff, forall_eq']
  rw [safe_bind, printHeader_safe, printHeader_stays]
  simp only [Option.mem_some_iff, forall_eq', advance_before]

/-- A header inside the buffer leaves the cursor where it belongs. -/
theorem behind_header (hfits : Fits 32 bytesize) {start : ℤ} (d : ℤ) (hd : 0 ≤ d)
    (hd' : d ≤ 2 ^ 16) (hheader : Span 0 bytesize start (headerRead c)) :
    moved 64 start d = start + d := by
  have hpos := hheader (by unfold headerRead; split <;> decide)
  have hread : 0 ≤ headerRead c := by unfold headerRead; split <;> decide
  unfold Fits at hfits
  exact wrap_eq 64 _ (by omega) (by omega)

/-- A case that sweeps over the rest of its record. -/
theorem fixed_safe (hfits : Fits 32 bytesize) {start n : ℤ} (hn : 0 < n)
    {q : Parser Unit} (hq : Sweeps Sound 64 0 bytesize q mem n)
    (hheader : Span 0 bytesize start (headerRead c)) :
    Safe Sound 0 bytesize q mem (moved 64 start 8) ↔ Span 0 bytesize start (8 + n) := by
  have hpos := behind_header hfits 8 (by omega) (by omega) hheader
  have hread : 0 < headerRead c ∧ headerRead c ≤ 8 := by unfold headerRead; split <;> decide
  rw [hq.reads _ (wrap_moved ..), hpos,
    ← span_overlap hread.1 (by omega) hn (by omega : headerRead c ≤ 8 + n)]
  exact (and_iff_right hheader).symm

/-- A fixed part, and the name behind it up to the size of the record. -/
theorem named_safe (hfits : Fits 32 bytesize) {start n : ℤ} (hn : 0 < n) (hn' : n ≤ 1000)
    {q : Parser Unit} (hq : Sweeps Sound 64 0 bytesize q mem n) (format : String)
    (hheader : Span 0 bytesize start (headerRead c)) :
    Safe Sound 0 bytesize (q >>= fun _ => nameTail c start (8 + n) format) mem (moved 64 start 8) ↔
      NameInside bytesize mem start (8 + n) := by
  have hpos := behind_header hfits (8 + n) (by omega) (by omega) hheader
  have htail : Safe Sound 0 bytesize (nameTail c start (8 + n) format) mem (start + (8 + n)) ↔
      Span 0 bytesize (start + 6) 2 ∧ 0 ≤ sizeAt mem start - (8 + n) ∧
        Span 0 bytesize (start + (8 + n)) (sizeAt mem start - (8 + n)) := by
    rw [nameTail, eventSize, safe_bind, safe_peek16, exit_peek16]
    simp only [Option.mem_some_iff, forall_eq']
    rw [safe_bind, copyOut_safe]
    refine and_congr_right fun _ => and_iff_left fun e _ => ?_
    exact (prints_before (prints_print _ _ _) mem _).mpr (advance_safe _ mem _)
  rw [safe_bind, hq.exit _ (wrap_moved ..), fixed_safe hfits hn hq hheader, moved,
    wrap_wrap_add, Int.add_assoc, ← moved, hpos]
  simp only [Option.mem_some_iff, forall_eq', htail]
  unfold NameInside Span
  constructor
  · rintro ⟨hfixed, _, hlen, hname⟩
    refine ⟨by omega, fun _ => ?_⟩
    have hbounds := hfixed (by omega)
    rcases Int.lt_or_eq_of_le hlen with hlt | heq
    · have := hname hlt
      omega
    · omega
  · rintro ⟨hle, hall⟩
    have := hall (by omega)
    exact ⟨fun _ => by omega, fun _ => by omega, by omega, fun _ => by omega⟩

theorem pidTid_sweeps (hfits : Fits 64 hi) : Sweeps Sound 64 lo hi (pidTid c) mem 8 :=
  (intField_sweeps _ _).bind hfits (by omega) (by omega) (intField_sweeps _ _)

theorem mapFields_sweeps (hfits : Fits 64 hi) : Sweeps Sound 64 lo hi (mapFields c) mem 32 :=
  (pidTid_sweeps hfits).bind hfits (by omega) (by omega)
    ((longField_sweeps _ _).bind hfits (by omega) (by omega)
      ((longField_sweeps _ _).bind hfits (by omega) (by omega) (longField_sweeps _ _)))

theorem mmap2Fields_sweeps (hfits : Fits 64 hi) : Sweeps Sound 64 lo hi (mmap2Fields c) mem 64 :=
  (mapFields_sweeps hfits).bind hfits (by omega) (by omega)
    ((intField_sweeps _ _).bind hfits (by omega) (by omega)
      ((intField_sweeps _ _).bind hfits (by omega) (by omega)
        ((longField_sweeps _ _).bind hfits (by omega) (by omega)
          ((longField_sweeps _ _).bind hfits (by omega) (by omega)
            ((intField_sweeps _ _).bind hfits (by omega) (by omega) (intField_sweeps _ _))))))

theorem lostRecord_sweeps (hfits : Fits 64 hi) : Sweeps Sound 64 lo hi (lostRecord c) mem 16 :=
  (longField_sweeps _ _).bind hfits (by omega) (by omega) (longField_sweeps _ _)

theorem taskRecord_sweeps (hfits : Fits 64 hi) : Sweeps Sound 64 lo hi (taskRecord c) mem 24 :=
  (intField_sweeps _ _).bind hfits (by omega) (by omega)
    ((intField_sweeps _ _).bind hfits (by omega) (by omega)
      ((intField_sweeps _ _).bind hfits (by omega) (by omega)
        ((intField_sweeps _ _).bind hfits (by omega) (by omega) (longField_sweeps _ _))))

theorem throttleRecord_sweeps (hfits : Fits 64 hi) :
    Sweeps Sound 64 lo hi (throttleRecord c) mem 24 :=
  (longField_sweeps _ _).bind hfits (by omega) (by omega)
    ((longField_sweeps _ _).bind hfits (by omega) (by omega) (longField_sweeps _ _))

theorem lostSamplesRecord_sweeps (hfits : Fits 64 hi) :
    Sweeps Sound 64 lo hi (lostSamplesRecord c) mem 16 :=
  (longField_sweeps _ _).bind hfits (by omega) (by omega) (longField_sweeps _ _)

theorem switchCpuWideRecord_sweeps (hfits : Fits 64 hi) :
    Sweeps Sound 64 lo hi (switchCpuWideRecord c) mem 16 :=
  (intField_sweeps _ _).bind hfits (by omega) (by omega)
    ((intField_sweeps _ _).bind hfits (by omega) (by omega) (longField_sweeps _ _))

theorem auxRecord_sweeps (hfits : Fits 64 hi) : Sweeps Sound 64 lo hi (auxRecord c) mem 32 where
  exit := fun off _ => exit_auxRecord mem off
  reads := by
    have hflags : Reads Sound 64 lo hi (do
        let flags ← load64 0
        unlessQuiet c (auxFlags flags)
        advance 8
        longField c .details "\tSAMPLE_ID: %lld\n") mem (8 + 8) := fun off hoff => by
      rw [safe_word64, prints_before (prints_unlessQuiet (auxFlags_prints _)), advance_before,
        (longField_sweeps _ _).reads _ (wrap_moved ..)]
      exact span_add hfits hoff (by omega) (by omega)
    exact (longField_sweeps _ _).before hfits (by omega) (by omega)
      ((longField_sweeps _ _).before hfits (by omega) (by omega) hflags)

/-- One iteration reads inside the buffer exactly when its record lies inside. -/
theorem iteration_safe (hfits : Fits 32 bytesize) (size start : ℤ) :
    Safe Sound 0 bytesize (iteration c size) mem start ↔ RecordInside c bytesize mem start := by
  have hfits64 := fits64 hfits
  rw [iteration_split, RecordInside]
  apply and_congr_right
  intro hheader
  have hfixed : ∀ {q : Parser Unit} {n : ℤ}, 0 < n → Sweeps Sound 64 0 bytesize q mem n →
      (Safe Sound 0 bytesize q mem (moved 64 start 8) ↔
        ∀ m ∈ some (8 + n), Span 0 bytesize start m) := by
    intro q n hn hq
    rw [fixed_safe hfits hn hq hheader]
    simp only [Option.mem_some_iff, forall_eq']
  have hunknown : ∀ type,
      Safe Sound 0 bytesize (unknownRecord c size type) mem (moved 64 start 8) :=
    fun type => (prints_before (prints_print _ _ _) mem _).mpr (safe_jump size mem _)
  unfold details fixedLength
  cases RecordType.ofCode (word32 mem start) with
  | none => exact iff_true_intro (hunknown _)
  | some r =>
    cases r with
    | read => exact iff_true_intro (hunknown _)
    | namespaces => exact iff_true_intro (hunknown _)
    | comm => exact named_safe hfits (by omega) (by omega) (pidTid_sweeps hfits64) _ hheader
    | mmap => exact named_safe hfits (by omega) (by omega) (mapFields_sweeps hfits64) _ hheader
    | mmap2 => exact named_safe hfits (by omega) (by omega) (mmap2Fields_sweeps hfits64) _ hheader
    | sample => exact sampleBlocks_safe hfits blockOrder (by decide) (wrap_moved ..)
    | lost => exact hfixed (by omega) (lostRecord_sweeps hfits64)
    | fork => exact hfixed (by omega) (taskRecord_sweeps hfits64)
    | exit => exact hfixed (by omega) (taskRecord_sweeps hfits64)
    | throttle => exact hfixed (by omega) (throttleRecord_sweeps hfits64)
    | unthrottle => exact hfixed (by omega) (throttleRecord_sweeps hfits64)
    | aux => exact hfixed (by omega) (auxRecord_sweeps hfits64)
    | itraceStart => exact hfixed (by omega) (pidTid_sweeps hfits64)
    | lostSamples => exact hfixed (by omega) (lostSamplesRecord_sweeps hfits64)
    | switch => exact hfixed (by omega) (longField_sweeps .details _)
    | switchCpuWide => exact hfixed (by omega) (switchCpuWideRecord_sweeps hfits64)

end PapiSample.BufferBounds
