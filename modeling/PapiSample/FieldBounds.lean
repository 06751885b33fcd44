import PapiSample.Advance
import PapiSample.Extent

/-!
How much of the data buffer the block of a sample field reads. The counts and
the sizes come from the data, so a block stays inside the buffer exactly when
the bytes they name do. Here are the blocks of words and of counted entries.
-/
namespace PapiSample.FieldBounds

open Bytes Cursor Cursor.Prog PerfEvent ParseRecord SampleFields RecordLoop Printing Advance Extent

variable {c : Config} {lo hi : ℤ} {mem : Memory}

def Sound : Out → Prop
  | .alloc len => 0 ≤ len
  | _ => True

/-- The part of the payload that the two IBS dumps look at, or all of it. -/
def payloadRead (c : Config) (mem : Memory) (off size : ℤ) : ℤ :=
  if c.rawType = RAW_IBS_FETCH then if 24 < size then 36 else 28
  else if c.rawType = RAW_IBS_OP then
    if 64 < size then 68
    else if (word64 mem (off + 36)).getLsbD 18 then 60
    else if (word64 mem (off + 36)).getLsbD 17 then 52
    else 44
  else size.toNat

def ifPrinted (c : Config) (n : ℤ) : ℤ := if c.quiet then 0 else n

def fieldRead (c : Config) (mem : Memory) (off : ℤ) : SampleField → ℤ
  | .read =>
      8 + 8 * timeWords c +
        if hasFormat c PERF_FORMAT_GROUP then ((countAt mem off).toNat : ℤ) * (8 + 8 * idWords c)
        else 8 * idWords c
  | .callchain => 8 + (countAt mem off).toNat * 8
  | .raw => 4 + ifPrinted c (payloadRead c mem (moved 64 off 4) (word32 mem off).toInt)
  | .branchStack => 8 + (countAt mem off).toNat * 24
  | .regsUser | .regsIntr => 8 + ifPrinted c (8 * weight c.regMask)
  | .stackUser => 16 + countAt mem off
  | .physAddr => 0
  | _ => 8

/-- The field lies inside the buffer, and the stack it copies has a length. -/
def FieldInside (c : Config) (bytesize : ℤ) (mem : Memory) (off : ℤ) (f : SampleField) : Prop :=
  (f = .stackUser → 0 ≤ countAt mem off) ∧ Span 0 bytesize off (fieldRead c mem off f)

theorem harmless_inside {e : Event Out} (h : Harmless e) : Inside Sound lo hi e := by
  cases e with
  | load pos len => exact h.elim
  | emit o =>
    cases o with
    | alloc len => exact h.elim
    | printed site stream format args => exact trivial
    | heapLoad pos len size => exact trivial
    | killed => exact h.elim

theorem prints_safe {q : Parser Unit} (h : Prints q) (mem : Memory) (off : ℤ) :
    Safe Sound lo hi q mem off := fun e he => harmless_inside (h.harmless mem off e he)

theorem prints_sweep {q : Parser Unit} (h : Prints q) (w : ℕ) : Sweeps Sound w lo hi q mem 0 where
  exit := fun off hoff => by rw [h.exit, Int.add_zero, hoff]
  reads := fun off _ => ⟨fun _ => span_zero off, fun _ => prints_safe h mem off⟩

/-- Printing before something else reads nothing. -/
theorem prints_before {α : Type} {q : Parser Unit} (h : Prints q) {q' : Parser α} (mem : Memory)
    (off : ℤ) : Safe Sound lo hi (q >>= fun _ => q') mem off ↔ Safe Sound lo hi q' mem off := by
  rw [safe_bind, h.exit]
  simp only [Option.mem_some_iff, forall_eq', prints_safe h, true_and]

theorem print_safe (site : Site) (format : String) (args : List Arg) (mem : Memory) (off : ℤ) :
    Safe Sound lo hi (unlessQuiet c (fprintf site format args)) mem off :=
  prints_safe (prints_print site format args) mem off

theorem advance_safe (n : ℤ) (mem : Memory) (off : ℤ) : Safe Sound lo hi (advance n) mem off :=
  safe_skip 64 n mem off

/-- A block of a negative length is unsound, whatever comes of it. -/
theorem copyOut_safe (n : ℤ) (mem : Memory) (off : ℤ) :
    Safe Sound lo hi (copyOut n) mem off ↔ 0 ≤ n ∧ Span lo hi off n := by
  unfold copyOut
  rw [safe_bind, safe_emit, exit_emit]
  simp only [Option.mem_some_iff, forall_eq']
  apply and_congr_right
  intro hn
  have hlen : 0 ≤ n := hn
  rw [if_neg (by omega), safe_copy]
  exact and_iff_right hlen

theorem intField_sweeps (site : Site) (format : String) :
    Sweeps Sound 64 lo hi (intField c site format) mem 4 where
  exit := fun off _ => exit_intField site format mem off
  reads := fun off _ => by
    simp [intField, safe_bind, safe_load32, print_safe, advance_safe]

theorem longField_sweeps (site : Site) (format : String) :
    Sweeps Sound 64 lo hi (longField c site format) mem 8 where
  exit := fun off _ => exit_longField site format mem off
  reads := fun off _ => by
    simp [longField, safe_bind, safe_load64, print_safe, advance_safe]

theorem readWord_sweeps (format : String) : Sweeps Sound 32 lo hi (readWord c format) mem 8 where
  exit := fun off _ => exit_readWord format mem off
  reads := fun off _ => by
    simp [readWord, safe_bind, safe_load64, print_safe]

theorem optionalWord_sweeps (flag : BitVec 32) (format : String) :
    Sweeps Sound 32 lo hi (optionally (hasFormat c flag) (readWord c format)) mem
      (8 * flagWords c flag) := by
  unfold flagWords
  cases hasFormat c flag with
  | false => exact sweeps_pure
  | true => exact readWord_sweeps format

/-- The line ends, and nothing is read for it. -/
theorem newline_sweeps : Sweeps Sound 32 lo hi (unlessQuiet c (fprintf (.field .read) "\n" []))
    mem 0 := prints_sweep (prints_print _ _ _) 32

theorem idLine_sweeps (hfits : Fits 32 hi) :
    Sweeps Sound 32 lo hi (do
      optionally (hasFormat c PERF_FORMAT_ID) (readWord c "id: %lld ")
      unlessQuiet c (fprintf (.field .read) "\n" [])) mem (8 * idWords c) := by
  rw [← Int.add_zero (8 * idWords c)]
  exact (optionalWord_sweeps _ _).bind hfits (by omega) (by omega) newline_sweeps

theorem groupEntry_sweeps (hfits : Fits 32 hi) (i : ℕ) :
    Sweeps Sound 32 lo hi (groupEntry c i) mem (8 + 8 * idWords c) :=
  (readWord_sweeps _).bind hfits (by omega) (by omega) (idLine_sweeps hfits)

/-- The two times, before the rest of the struct. -/
theorem times_before (hfits : Fits 32 hi) {rest : Parser Unit} {n : ℤ} (hn : 0 ≤ n)
    (hrest : Reads Sound 32 lo hi rest mem n) :
    Reads Sound 32 lo hi (do
      optionally (hasFormat c PERF_FORMAT_TOTAL_TIME_ENABLED) (readWord c "enabled: %lld ")
      optionally (hasFormat c PERF_FORMAT_TOTAL_TIME_RUNNING) (readWord c "running: %lld ")
      rest) mem (8 * timeWords c + n) := by
  have hsum : (8 : ℤ) * timeWords c + n = 8 * flagWords c PERF_FORMAT_TOTAL_TIME_ENABLED +
      (8 * flagWords c PERF_FORMAT_TOTAL_TIME_RUNNING + n) := by
    unfold timeWords
    push_cast
    ring
  rw [hsum]
  exact (optionalWord_sweeps _ _).before hfits (by omega) (by omega)
    ((optionalWord_sweeps _ _).before hfits (by omega) hn hrest)

/-- The counters of a group, behind their number. -/
theorem groupTail_reads (hfits : Fits 32 hi) (hsmall : hi - lo ≤ intMax) (nr : ℤ) :
    Reads Sound 32 lo hi (do
      optionally (hasFormat c PERF_FORMAT_TOTAL_TIME_ENABLED) (readWord c "enabled: %lld ")
      optionally (hasFormat c PERF_FORMAT_TOTAL_TIME_RUNNING) (readWord c "running: %lld ")
      unlessQuiet c (fprintf (.field .read) "\n" [])
      intLoop 1 nr (groupEntry c)) mem
      (8 * timeWords c + (0 + nr.toNat * (8 + 8 * idWords c))) := by
  have hcount : 0 ≤ (nr.toNat : ℤ) * (8 + 8 * idWords c) := Int.mul_nonneg (by omega) (by omega)
  exact times_before hfits (by omega) (newline_sweeps.before hfits (by omega) hcount
    (Sweeps.countLoop hfits hsmall (by omega) (groupEntry_sweeps hfits) nr))

/-- handle_struct_read_format from the start of its view. -/
theorem handleStructReadFormat_safe (hfits : Fits 32 hi) (hsmall : hi - lo ≤ intMax) :
    Safe Sound lo hi (handleStructReadFormat c) mem 0 ↔ Span lo hi 0 (fieldRead c mem 0 .read) := by
  have hzero : wrap 32 0 = 0 := by decide
  unfold handleStructReadFormat fieldRead
  cases hasFormat c PERF_FORMAT_GROUP with
  | true =>
    have hcount : 0 ≤ ((countAt mem 0).toNat : ℤ) * (8 + 8 * idWords c) :=
      Int.mul_nonneg (by omega) (by omega)
    simp only [if_true]
    rw [safe_word64, prints_before (prints_print _ _ _), safe_step,
      prints_before (checkEvents_prints _), Int.add_assoc 8,
      ← Int.zero_add (((countAt mem 0).toNat : ℤ) * (8 + 8 * idWords c))]
    refine Iff.trans (and_congr_right fun _ =>
      groupTail_reads hfits hsmall (countAt mem 0) _ (wrap_wrap ..)) ?_
    exact span_add hfits hzero (by omega) (by omega)
  | false =>
    rw [Int.add_assoc 8]
    exact (readWord_sweeps _).before hfits (by omega) (by omega)
      (times_before hfits (by omega) (idLine_sweeps hfits).reads) 0 hzero

/-- The first word is read in any case. -/
theorem handleStructReadFormat_first
    (h : Safe Sound lo hi (handleStructReadFormat c) mem 0) : Span lo hi 0 8 := by
  unfold handleStructReadFormat at h
  cases hgroup : hasFormat c PERF_FORMAT_GROUP with
  | true =>
    rw [hgroup, if_pos rfl, safe_word64] at h
    exact h.1
  | false =>
    rw [hgroup, if_neg Bool.false_ne_true, safe_bind] at h
    exact ((readWord_sweeps _).reads 0 (by decide)).mp h.1

variable {bytesize off : ℤ}

theorem advance_before {α : Type} {q : Parser α} (n : ℤ) (mem : Memory) (off : ℤ) :
    Safe Sound lo hi (advance n >>= fun _ => q) mem off ↔
      Safe Sound lo hi q mem (moved 64 off n) := safe_step n mem off

/-- The buffer is no larger than an `int` can say. -/
theorem fits64 (hfits : Fits 32 bytesize) : Fits 64 bytesize := by
  unfold Fits at *
  omega

theorem small_of_fits (hfits : Fits 32 bytesize) : bytesize - 0 ≤ intMax := by
  unfold Fits at hfits
  unfold intMax
  omega

theorem fieldRead_read_view (mem : Memory) (off : ℤ) :
    fieldRead c (fun i => mem (off + i)) 0 .read = fieldRead c mem off .read := by
  have hcount : countAt (fun i => mem (off + i)) 0 = countAt mem off := by
    simp only [countAt, word64_view, Int.add_zero]
  simp only [fieldRead, hcount]

theorem eight_le_read (mem : Memory) (off : ℤ) : 8 ≤ fieldRead c mem off .read := by
  have hcount : 0 ≤ ((countAt mem off).toNat : ℤ) * (8 + 8 * idWords c) :=
    Int.mul_nonneg (by omega) (by omega)
  simp only [fieldRead]
  split <;> omega

theorem sampleRead_safe (hfits : Fits 32 bytesize) :
    Safe Sound 0 bytesize (sampleRead c) mem off ↔
      Span 0 bytesize off (fieldRead c mem off .read) := by
  have hview : Safe Sound 0 bytesize (sampleRead c) mem off ↔
      Safe Sound (0 - off) (bytesize - off) (handleStructReadFormat c)
        (fun i => mem (off + i)) 0 := by
    rw [sampleRead, prints_before (prints_print _ _ _), safe_bind, safe_subview]
    apply and_iff_left
    intro e _
    split
    · exact advance_safe _ _ _
    · exact safe_pure _ _ _
  rw [hview]
  by_cases hfirst : Span 0 bytesize off 8
  · have hpos := hfirst (by omega)
    have hinner : Fits 32 (bytesize - off) := by
      unfold Fits at *
      omega
    have hsmall := small_of_fits hfits
    rw [handleStructReadFormat_safe hinner (by omega), span_view, fieldRead_read_view,
      Int.add_zero]
  · constructor
    · intro h
      have hword := (span_view off 0 8).mp (handleStructReadFormat_first h)
      rw [Int.add_zero] at hword
      exact absurd hword hfirst
    · intro h
      have hlen := eight_le_read (c := c) mem off
      refine absurd (fun _ => ?_) hfirst
      have := h (by omega)
      omega

theorem callchainEntry_sweeps (i : ℕ) :
    Sweeps Sound 64 lo hi (callchainEntry c i) mem 8 where
  exit := fun off _ => exit_callchainEntry i mem off
  reads := fun off _ => by
    rw [callchainEntry, safe_word64, prints_before (prints_print _ _ _)]
    exact and_iff_left (advance_safe _ _ _)

/-- A count, and as many entries as it says. -/
theorem counted_safe (hfits : Fits 32 bytesize) (hoff : wrap 64 off = off) {k : ℤ} (hk : 0 < k)
    {body : ℕ → Parser Unit} (h : ∀ i, Sweeps Sound 64 0 bytesize (body i) mem k) :
    Span 0 bytesize off 8 ∧
        Safe Sound 0 bytesize (intLoop 1 (countAt mem off) body) mem (moved 64 off 8) ↔
      Span 0 bytesize off (8 + (countAt mem off).toNat * k) := by
  have hloop := Sweeps.countLoop (fits64 hfits) (small_of_fits hfits) hk h (countAt mem off)
  refine Iff.trans (and_congr_right fun _ => hloop _ (wrap_wrap ..)) ?_
  exact span_add (fits64 hfits) hoff (by omega) (Int.mul_nonneg (by omega) hk.le)

theorem sampleCallchain_safe (hfits : Fits 32 bytesize) (hoff : wrap 64 off = off) :
    Safe Sound 0 bytesize (sampleCallchain c) mem off ↔
      Span 0 bytesize off (fieldRead c mem off .callchain) := by
  rw [sampleCallchain, safe_word64, prints_before (prints_print _ _ _), advance_before]
  exact counted_safe hfits hoff (by omega) callchainEntry_sweeps

theorem branchEntry_sweeps (hfits : Fits 64 hi) (i : ℕ) :
    Sweeps Sound 64 lo hi (branchEntry c i) mem 24 where
  exit := fun off _ => exit_branchEntry i mem off
  reads := fun off hoff => by
    have hflags : ∀ flags off, Safe Sound lo hi (unlessQuiet c (branchFlags flags)) mem off :=
      fun flags => prints_safe (prints_unlessQuiet (branchFlags_prints flags)) mem
    rw [branchEntry, safe_word64, advance_before, prints_before (checkBranch_prints _), safe_word64,
      advance_before, prints_before (prints_print _ _ _), safe_word64, advance_before,
      and_iff_left (hflags _ _), moved, moved, span_add hfits (wrap_wrap ..) (by omega) (by omega)]
    exact span_add hfits hoff (by omega) (by omega)

theorem sampleBranchStack_safe (hfits : Fits 32 bytesize) (hoff : wrap 64 off = off) :
    Safe Sound 0 bytesize (sampleBranchStack c) mem off ↔
      Span 0 bytesize off (fieldRead c mem off .branchStack) := by
  rw [sampleBranchStack, safe_word64, prints_before (prints_print _ _ _), advance_before]
  exact counted_safe hfits hoff (by omega) (branchEntry_sweeps (fits64 hfits))

end PapiSample.FieldBounds
