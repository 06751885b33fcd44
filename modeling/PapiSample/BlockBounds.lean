import PapiSample.FieldBounds

/-!
The blocks whose contents have a structure of their own, the raw payload, the
registers and the stack, and with them every block of a sample.
-/
namespace PapiSample.BlockBounds

open Bytes Cursor Cursor.Prog PerfEvent ParseRecord SampleFields RecordLoop Printing Advance Extent
  FieldBounds

variable {c : Config} {lo hi : ℤ} {mem : Memory} {bytesize off : ℤ}

theorem msr_before {α : Type} {k : ℕ} {g : BitVec 64 → Parser α} (mem : Memory) (off : ℤ) :
    Safe Sound lo hi (loadMsr k >>= g) mem off ↔
      Span lo hi (off + (4 + 8 * k)) 8 ∧
        Safe Sound lo hi (g (word64 mem (off + (4 + 8 * k)))) mem off := by
  rw [loadMsr, safe_bind, safe_load64, exit_load64]
  simp only [Option.mem_some_iff, forall_eq']

theorem msr_safe (k : ℕ) (format : String) (mem : Memory) (off : ℤ) :
    Safe Sound lo hi (do let v ← loadMsr k; printf (.field .raw) format [.long v]) mem off ↔
      Span lo hi (off + (4 + 8 * k)) 8 := by
  rw [msr_before]
  exact and_iff_left (prints_safe (prints_printf _ _ _) mem off)

theorem optionally_safe (b : Bool) (q : Parser Unit) (mem : Memory) (off : ℤ) :
    Safe Sound lo hi (optionally b q) mem off ↔ (b = true → Safe Sound lo hi q mem off) := by
  cases b <;> simp [optionally]

theorem optionalMsr_before (b : Bool) (k : ℕ) (format : String) {q : Parser Unit} (mem : Memory)
    (off : ℤ) :
    Safe Sound lo hi (optionally b (do
        let v ← loadMsr k
        printf (.field .raw) format [.long v]) >>= fun _ => q) mem off ↔
      (b = true → Span lo hi (off + (4 + 8 * k)) 8) ∧ Safe Sound lo hi q mem off := by
  have hexit : (optionally b (do
      let v ← loadMsr k
      printf (.field .raw) format [.long v]) mem off).exit = some ((), off) := by
    cases b <;> rfl
  rw [safe_bind, optionally_safe, msr_safe, hexit]
  simp only [Option.mem_some_iff, forall_eq']

theorem dumpRawIbsFetch_safe (size : ℤ) (mem : Memory) (off : ℤ) :
    Safe Sound lo hi (dumpRawIbsFetch size) mem off ↔
      Span lo hi off (if 24 < size then 36 else 28) := by
  simp only [dumpRawIbsFetch, safe_word32, prints_before (prints_printf _ _ _), msr_before,
    prints_before (printFlags_prints _ _), optionally_safe, prints_safe (prints_printf _ _ _),
    and_true, decide_eq_true_eq]
  unfold Span
  split <;> omega

theorem dumpRawIbsOp_safe (size : ℤ) (mem : Memory) (off : ℤ) :
    Safe Sound lo hi (dumpRawIbsOp size) mem off ↔
      Span lo hi off (if 64 < size then 68
        else if (word64 mem (off + 36)).getLsbD 18 then 60
        else if (word64 mem (off + 36)).getLsbD 17 then 52
        else 44) := by
  simp only [dumpRawIbsOp, safe_word32, prints_before (prints_printf _ _ _), msr_before,
    prints_before (printFlags_prints _ _), optionalMsr_before, optionally_safe,
    prints_safe (prints_printf _ _ _), and_true, decide_eq_true_eq]
  have hpos : off + (4 + 8 * ((4 : ℕ) : ℤ)) = off + 36 := by omega
  rw [hpos]
  unfold Span
  cases (word64 mem (off + 36)).getLsbD 18 <;> cases (word64 mem (off + 36)).getLsbD 17 <;>
    simp only [Bool.false_eq_true, if_true, if_false, eq_self, false_implies, true_implies,
      true_and] <;>
    split <;> omega

theorem rawByte_safe (i : ℕ) (mem : Memory) (off : ℤ) :
    Safe Sound lo hi (rawByte i) mem off ↔ Span lo hi (off + i) 1 := by
  rw [rawByte, safe_bind, safe_loadByte]
  exact and_iff_left fun _ _ => prints_safe (prints_fprintf _ _ _) mem _

theorem exit_rawByte (i : ℕ) (mem : Memory) (off : ℤ) :
    (rawByte i mem off).exit = some ((), off) := rfl

/-- The bytes of the payload, counted from the cursor, which stays. -/
theorem rawBytes_safe (i n : ℕ) (mem : Memory) (off : ℤ) :
    Safe Sound lo hi (repeatFrom i n rawByte) mem off ↔ Span lo hi (off + i) n := by
  induction n generalizing i with
  | zero => exact ⟨fun _ => span_zero _, fun _ => safe_pure () mem off⟩
  | succ n ih =>
    rw [repeatFrom, safe_bind, rawByte_safe, exit_rawByte]
    simp only [Option.mem_some_iff, forall_eq', ih]
    unfold Span
    push_cast
    constructor
    · rintro ⟨hfirst, hrest⟩ _
      have := hfirst (by decide)
      omega
    · intro h
      have := h (by omega)
      omega

theorem rawPayload_safe (size : BitVec 32) (mem : Memory) (off : ℤ) :
    Safe Sound lo hi (rawPayload c size.toInt) mem off ↔
      Span lo hi off (payloadRead c mem off size.toInt) := by
  unfold rawPayload payloadRead
  by_cases hfetch : c.rawType = RAW_IBS_FETCH
  · rw [if_pos hfetch, if_pos hfetch]
    exact dumpRawIbsFetch_safe _ mem off
  · rw [if_neg hfetch, if_neg hfetch]
    by_cases hop : c.rawType = RAW_IBS_OP
    · rw [if_pos hop, if_pos hop]
      exact dumpRawIbsOp_safe _ mem off
    · have hsmall := size.toInt_lt
      have hcount : (size.toInt.toNat + 1 - 1) / 1 = size.toInt.toNat := by omega
      have hfits : size.toInt.toNat ≤ intMax := by unfold intMax; omega
      rw [if_neg hop, if_neg hop, prints_before (prints_fprintf _ _ _), safe_bind]
      simp only [intLoop, hcount, Nat.mul_one, if_pos hfits, rawBytes_safe, Nat.cast_zero,
        Int.add_zero]
      exact and_iff_left fun _ _ => prints_safe (prints_fprintf _ _ _) mem _

theorem payloadRead_nonneg (mem : Memory) (off size : ℤ) : 0 ≤ payloadRead c mem off size := by
  unfold payloadRead
  split <;> split <;> (try split) <;> (try split) <;> omega

/-- What a quiet parser skips. -/
theorem unlessQuiet_safe (q : Parser Unit) (n : ℤ) (mem : Memory) (off : ℤ)
    (h : Safe Sound lo hi q mem off ↔ Span lo hi off n) :
    Safe Sound lo hi (unlessQuiet c q) mem off ↔ Span lo hi off (ifPrinted c n) := by
  unfold unlessQuiet ifPrinted
  cases c.quiet with
  | true => exact ⟨fun _ => span_zero off, fun _ => safe_pure () mem off⟩
  | false => exact h

theorem ifPrinted_nonneg {n : ℤ} (hn : 0 ≤ n) : 0 ≤ ifPrinted c n := by
  unfold ifPrinted
  split <;> omega

theorem sampleRaw_safe (hfits : Fits 32 bytesize) (hoff : wrap 64 off = off) :
    Safe Sound 0 bytesize (sampleRaw c) mem off ↔
      Span 0 bytesize off (fieldRead c mem off .raw) := by
  have hpayload : Safe Sound 0 bytesize (unlessQuiet c (rawPayload c (word32 mem off).toInt)) mem
      (moved 64 off 4) ↔ _ := unlessQuiet_safe _ _ mem _ (rawPayload_safe (word32 mem off) mem _)
  rw [sampleRaw, safe_word32, prints_before (prints_print _ _ _), advance_before, safe_bind,
    hpayload, and_iff_left fun _ _ => advance_safe _ mem _]
  exact span_add (fits64 hfits) hoff (by omega) (ifPrinted_nonneg (payloadRead_nonneg ..))

/-- The loop of print_regs without a word for the reader. -/
theorem printReg_quiet (hq : c.quiet = true) (site : Site) (i : ℕ) (mem : Memory) (off : ℤ) :
    Safe Sound lo hi (printReg c site i) mem off := by
  rw [printReg, optionally_safe]
  intro _
  rw [unlessQuiet, hq, if_pos rfl]
  exact (safe_bind ..).mpr ⟨safe_pure _ _ _, fun _ _ => safe_skip 32 8 mem _⟩

theorem printReg_sweeps (hq : c.quiet = false) (site : Site) (i : ℕ) :
    Sweeps Sound 32 lo hi (printReg c site i) mem (if c.regMask.getLsbD i then 8 else 0) := by
  unfold printReg
  cases c.regMask.getLsbD i with
  | false => exact sweeps_pure
  | true =>
    constructor
    · intro off _
      simp only [optionally, if_true, exit_bind, stays_unlessQuiet (showReg_stays site i) mem off,
        Option.bind_some, exit_skip]
    · intro off _
      rw [optionally, if_pos rfl, unlessQuiet, hq, if_neg Bool.false_ne_true, safe_bind, showReg,
        safe_word64, prints_before (regName_prints site i)]
      simp only [prints_safe (prints_fprintf _ _ _), and_true]
      exact and_iff_left fun _ _ => safe_skip 32 8 mem _

/-- The registers from `i` on take eight bytes for each bit that is set. -/
theorem printRegs_from_sweeps (hfits : Fits 32 hi) (hq : c.quiet = false) (site : Site)
    (i count : ℕ) :
    Sweeps Sound 32 lo hi (repeatFrom i count (printReg c site)) mem
      (8 * ((List.range' i count).filter fun j => c.regMask.getLsbD j).length) := by
  induction count generalizing i with
  | zero => exact sweeps_pure
  | succ count ih =>
    have hsum : (8 : ℤ) * ((List.range' i (count + 1)).filter fun j => c.regMask.getLsbD j).length =
        (if c.regMask.getLsbD i then 8 else 0) +
          8 * ((List.range' (i + 1) count).filter fun j => c.regMask.getLsbD j).length := by
      rw [List.range'_succ, List.filter_cons]
      cases c.regMask.getLsbD i with
      | false => simp
      | true =>
        simp only [if_true, List.length_cons]
        push_cast
        ring
    rw [hsum]
    exact (printReg_sweeps hq site i).bind hfits (by split <;> omega) (by omega) (ih (i + 1))

/-- print_regs from the start of its view. -/
theorem printRegs_safe (hfits : Fits 32 hi) (site : Site) :
    Safe Sound lo hi (printRegs c site) mem 0 ↔
      Span lo hi 0 (ifPrinted c (8 * weight c.regMask)) := by
  rw [printRegs, prints_before (prints_print _ _ _)]
  unfold ifPrinted
  cases hq : c.quiet with
  | true =>
    exact ⟨fun _ => span_zero 0, fun _ => safe_repeatFrom (printReg_quiet hq site) 0 64 mem 0⟩
  | false =>
    rw [if_neg Bool.false_ne_true, weight, setBits, List.range_eq_range']
    exact (printRegs_from_sweeps hfits hq site 0 64).reads 0 (by decide)

theorem sampleRegs_safe (hfits : Fits 32 bytesize) (hoff : wrap 64 off = off) (site : Site)
    (title : String) :
    Safe Sound 0 bytesize (sampleRegs c site title) mem off ↔
      Span 0 bytesize off (8 + ifPrinted c (8 * weight c.regMask)) := by
  have hhead : ∀ abi, Prints (unlessQuiet c do
      fprintf site title []
      printAbi site abi
      fprintf site "\n" []) := fun abi =>
    prints_unlessQuiet ((prints_fprintf _ _ _).bind
      ((printAbi_prints site abi).bind (prints_fprintf _ _ _)))
  rw [sampleRegs, safe_word64, prints_before (hhead _), advance_before, safe_bind, safe_subview,
    and_iff_left fun _ _ => (safe_bind ..).mpr
      ⟨advance_safe _ mem _, fun _ _ => print_safe _ _ _ mem _⟩,
    ← span_add (fits64 hfits) hoff (by omega) (ifPrinted_nonneg (by omega))]
  apply and_congr_right
  intro hfirst
  have hpos := hfirst (by omega)
  have hview : moved 64 off 8 = off + 8 := (fits64 hfits).stays hoff (by omega) (by omega)
  have hinner : Fits 32 (bytesize - moved 64 off 8) := by
    unfold Fits at *
    omega
  rw [printRegs_safe hinner, span_view, Int.add_zero]
  rfl

/-- Words of the copied stack are not words of the buffer. -/
theorem stackTail_safe (stackData : List Byte) (size : ℤ) (mem : Memory) (off : ℤ) :
    Safe Sound lo hi (stackTail c stackData size) mem off ↔ Span lo hi off 8 := by
  rw [stackTail, safe_word64, prints_before (prints_print _ _ _), advance_before,
    prints_before (prints_print _ _ _), safe_bind]
  exact and_iff_left
    ⟨safe_intLoop (fun i => prints_safe (stackWord_prints stackData size i)) 4 _ mem _,
      fun _ _ => print_safe _ _ _ mem _⟩

theorem sampleStackUser_safe (hfits : Fits 32 bytesize) (hoff : wrap 64 off = off) :
    Safe Sound 0 bytesize (sampleStackUser c) mem off ↔
      0 ≤ countAt mem off ∧ Span 0 bytesize off (fieldRead c mem off .stackUser) := by
  have hfits64 := fits64 hfits
  have hcount : (word64 mem off).toInt = countAt mem off := rfl
  have hsum : fieldRead c mem off .stackUser = 8 + (countAt mem off + 8) := by
    simp only [fieldRead]
    ring
  have hcopy : Safe Sound 0 bytesize (sampleStackUser c) mem off ↔
      Span 0 bytesize off 8 ∧
        (0 ≤ countAt mem off ∧ Span 0 bytesize (moved 64 off 8) (countAt mem off)) ∧
          (0 ≤ countAt mem off →
            Span 0 bytesize (moved 64 (moved 64 off 8) (countAt mem off)) 8) := by
    rw [sampleStackUser, safe_word64, prints_before (prints_print _ _ _), advance_before, safe_bind,
      copyOut_safe, exit_copyOut, hcount]
    refine and_congr_right fun _ => and_congr_right fun hcopied => ?_
    rw [if_pos hcopied.1, forall_prop_of_true hcopied.1]
    simp only [Option.mem_some_iff, forall_eq', advance_before, stackTail_safe]
  rw [hcopy, hsum]
  constructor
  · rintro ⟨hhead, ⟨hsize, hstack⟩, htail⟩
    have hrest := (span_add hfits64 (wrap_wrap ..) hsize (by omega)).mp ⟨hstack, htail hsize⟩
    exact ⟨hsize, (span_add hfits64 hoff (by omega) (by omega)).mp ⟨hhead, hrest⟩⟩
  · rintro ⟨hsize, hall⟩
    obtain ⟨hhead, hrest⟩ := (span_add hfits64 hoff (by omega) (by omega)).mpr hall
    obtain ⟨hstack, htail⟩ := (span_add hfits64 (wrap_wrap ..) hsize (by omega)).mpr hrest
    exact ⟨hhead, ⟨hsize, hstack⟩, fun _ => htail⟩

theorem intPair_safe (f : SampleField) (format : String) {check : BitVec 32 → Parser Unit}
    (hcheck : ∀ v, Prints (check v)) :
    Safe Sound lo hi (intPair c f format check) mem off ↔ Span lo hi off 8 := by
  rw [intPair, safe_word32, safe_bind, safe_load32, exit_load32]
  simp only [Option.mem_some_iff, forall_eq', prints_before (hcheck _),
    prints_before (prints_print _ _ _), advance_safe, and_true]
  exact span_overlap (by omega) (by omega) (by omega) (by omega)

theorem sampleWord_safe (f : SampleField) (format : String) (hoff : wrap 64 off = off) :
    Safe Sound lo hi (sampleWord c f format) mem off ↔ Span lo hi off 8 := by
  rw [sampleWord, safe_bind, (longField_sweeps _ _).reads off hoff]
  exact and_iff_left fun _ _ => print_safe _ _ _ mem _

theorem sampleDataSrc_safe :
    Safe Sound lo hi (sampleDataSrc c) mem off ↔ Span lo hi off 8 := by
  rw [sampleDataSrc, safe_word64, prints_before (prints_print _ _ _), advance_before,
    prints_before (prints_unlessQuiet (printDataSrc_prints _))]
  exact and_iff_left (print_safe _ _ _ mem _)

/-- Only the stack has a length of its own. -/
theorem fieldInside_iff (f : SampleField) (hf : f ≠ .stackUser) :
    Span 0 bytesize off (fieldRead c mem off f) ↔ FieldInside c bytesize mem off f :=
  (and_iff_right fun h => absurd h hf).symm

/-- A block reads inside the buffer exactly when its field lies inside. -/
theorem sampleBlock_safe (hfits : Fits 32 bytesize) (hoff : wrap 64 off = off) (f : SampleField) :
    Safe Sound 0 bytesize (sampleBlock c f) mem off ↔ FieldInside c bytesize mem off f := by
  cases f with
  | stackUser =>
    rw [FieldInside, forall_prop_of_true rfl]
    exact sampleStackUser_safe hfits hoff
  | tid =>
    exact (intPair_safe .tid _ checkPid_prints).trans (fieldInside_iff .tid (by decide))
  | cpu =>
    exact (intPair_safe .cpu _ fun _ => prints_pure).trans (fieldInside_iff .cpu (by decide))
  | read => exact (sampleRead_safe hfits).trans (fieldInside_iff .read (by decide))
  | callchain =>
    exact (sampleCallchain_safe hfits hoff).trans (fieldInside_iff .callchain (by decide))
  | raw => exact (sampleRaw_safe hfits hoff).trans (fieldInside_iff .raw (by decide))
  | branchStack =>
    exact (sampleBranchStack_safe hfits hoff).trans (fieldInside_iff .branchStack (by decide))
  | regsUser => exact (sampleRegs_safe hfits hoff _ _).trans (fieldInside_iff .regsUser (by decide))
  | regsIntr => exact (sampleRegs_safe hfits hoff _ _).trans (fieldInside_iff .regsIntr (by decide))
  | weight => exact (sampleWord_safe .weight _ hoff).trans (fieldInside_iff .weight (by decide))
  | identifier =>
    exact (sampleWord_safe .identifier _ hoff).trans (fieldInside_iff .identifier (by decide))
  | transaction =>
    exact (sampleWord_safe .transaction _ hoff).trans (fieldInside_iff .transaction (by decide))
  | dataSrc => exact sampleDataSrc_safe.trans (fieldInside_iff .dataSrc (by decide))
  | physAddr => exact ⟨fun _ => ⟨nofun, span_zero off⟩, fun _ => safe_pure () mem off⟩
  | ip => exact ((longField_sweeps _ _).reads off hoff).trans (fieldInside_iff .ip (by decide))
  | time => exact ((longField_sweeps _ _).reads off hoff).trans (fieldInside_iff .time (by decide))
  | addr => exact ((longField_sweeps _ _).reads off hoff).trans (fieldInside_iff .addr (by decide))
  | id => exact ((longField_sweeps _ _).reads off hoff).trans (fieldInside_iff .id (by decide))
  | streamId =>
    exact ((longField_sweeps _ _).reads off hoff).trans (fieldInside_iff .streamId (by decide))
  | period =>
    exact ((longField_sweeps _ _).reads off hoff).trans (fieldInside_iff .period (by decide))

end PapiSample.BlockBounds
