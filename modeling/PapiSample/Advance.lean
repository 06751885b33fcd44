import PapiSample.RawDumps
import PapiSample.Printing

/-!
How far each part of the record loop moves the cursor. The distance depends on
the lengths and counts found in the data only, and there is none where a count
exceeds what the index of its loop can reach, or a length that is copied is
negative. The cursor is a `long long`, so the distances are added modulo its bits.
-/
namespace PapiSample.Advance

open Bytes Cursor Cursor.Prog PerfEvent ParseRecord SampleFields RecordLoop FieldDecoding RawDumps
  Printing

variable {c : Config}

def moved (w : ℕ) (off n : ℤ) : ℤ := wrap w (off + n)

@[simp] theorem moved_moved (w : ℕ) (off m n : ℤ) :
    moved w (moved w off m) n = moved w off (m + n) := by
  unfold moved
  rw [wrap_wrap_add, Int.add_assoc]

@[simp] theorem wrap_moved (w : ℕ) (off n : ℤ) : wrap w (moved w off n) = moved w off n :=
  wrap_wrap w (off + n)

@[simp] theorem exit_advance (n : ℤ) (mem : Memory) (off : ℤ) :
    (advance n mem off).exit = some ((), moved 64 off n) := rfl

theorem exit_skip32 (n : ℤ) (mem : Memory) (off : ℤ) :
    ((skip 32 n : Parser Unit) mem off).exit = some ((), moved 32 off n) := rfl

def Stays (q : Parser Unit) : Prop := ∀ mem off, (q mem off).exit = some ((), off)

theorem stays_unlessQuiet {q : Parser Unit} (h : Stays q) : Stays (unlessQuiet c q) := by
  unfold unlessQuiet
  cases c.quiet with
  | true => exact prints_pure.exit
  | false => exact h

theorem exit_intField (site : Site) (format : String) (mem : Memory) (off : ℤ) :
    (intField c site format mem off).exit = some ((), moved 64 off 4) := by
  simp [intField, exit_bind, (prints_print _ _ _).exit mem off]

theorem exit_longField (site : Site) (format : String) (mem : Memory) (off : ℤ) :
    (longField c site format mem off).exit = some ((), moved 64 off 8) := by
  simp [longField, exit_bind, (prints_print _ _ _).exit mem off]

theorem exit_readWord (format : String) (mem : Memory) (off : ℤ) :
    (readWord c format mem off).exit = some ((), moved 32 off 8) := by
  simp [readWord, exit_bind, (prints_print _ _ _).exit mem off, moved]

def flagWords (c : Config) (flag : BitVec 32) : ℕ := if hasFormat c flag then 1 else 0

def timeWords (c : Config) : ℕ :=
  flagWords c PERF_FORMAT_TOTAL_TIME_ENABLED + flagWords c PERF_FORMAT_TOTAL_TIME_RUNNING

def idWords (c : Config) : ℕ := flagWords c PERF_FORMAT_ID

theorem exit_optionalWord (flag : BitVec 32) (format : String) (mem : Memory) (off n : ℤ) :
    (optionally (hasFormat c flag) (readWord c format) mem (moved 32 off n)).exit =
      some ((), moved 32 off (n + 8 * flagWords c flag)) := by
  unfold flagWords
  cases hasFormat c flag with
  | false => simp [optionally]
  | true => simp [optionally, exit_readWord]

theorem exit_groupEntry (i : ℕ) (mem : Memory) (off : ℤ) :
    (groupEntry c i mem off).exit = some ((), moved 32 off (8 + 8 * idWords c)) := by
  simp only [groupEntry, exit_bind, exit_readWord, Option.bind_some, exit_optionalWord,
    (prints_print _ _ _).exit mem _, idWords]

def countAt (mem : Memory) (off : ℤ) : ℤ := (word64 mem off).toInt

/-- What handle_struct_read_format returns, in its `int`. -/
def readFormatLength (c : Config) (mem : Memory) (off : ℤ) : Option ℤ :=
  if hasFormat c PERF_FORMAT_GROUP then
    if countAt mem off ≤ intMax then
      some (moved 32 0 (8 + 8 * timeWords c + (countAt mem off).toNat * (8 + 8 * idWords c)))
    else none
  else some (moved 32 0 (8 + 8 * timeWords c + 8 * idWords c))

theorem exit_handleStructReadFormat (mem : Memory) :
    (handleStructReadFormat c mem 0).exit =
      (readFormatLength c mem 0).map fun n => ((), n) := by
  have htimes : (8 : ℤ) * timeWords c = 8 * flagWords c PERF_FORMAT_TOTAL_TIME_ENABLED +
      8 * flagWords c PERF_FORMAT_TOTAL_TIME_RUNNING := by
    unfold timeWords
    push_cast
    ring
  unfold handleStructReadFormat readFormatLength
  rw [htimes]
  cases hasFormat c PERF_FORMAT_GROUP with
  | true =>
    have hloop := exit_countLoop 32 (8 + 8 * idWords c) mem
      (fun i off => exit_groupEntry (c := c) i mem off) (countAt mem 0)
    have hcount : (word64 mem 0).toInt = countAt mem 0 := rfl
    simp only [if_true, exit_bind, exit_load64, Option.bind_some, (prints_print _ _ _).exit mem _,
      exit_skip32, (checkEvents_prints _).exit mem _, exit_optionalWord, Int.add_zero]
    simp only [hcount, hloop _ (wrap_moved ..)]
    by_cases hn : countAt mem 0 ≤ intMax
    · rw [if_pos hn, if_pos hn, ← moved, moved_moved, Int.add_assoc 8]
      rfl
    · rw [if_neg hn, if_neg hn]
      rfl
  | false =>
    simp only [Bool.false_eq_true, if_false, exit_bind, exit_readWord, Option.bind_some,
      exit_optionalWord, (prints_print _ _ _).exit mem _, Option.map_some, idWords, Int.add_assoc]

theorem readFormatLength_view (mem : Memory) (off : ℤ) :
    readFormatLength c (fun i => mem (off + i)) 0 = readFormatLength c mem off := by
  have hcount : countAt (fun i => mem (off + i)) 0 = countAt mem off := by
    simp only [countAt, word64_view, Int.add_zero]
  unfold readFormatLength
  rw [hcount]

theorem showReg_stays (site : Site) (i : ℕ) : Stays (showReg c site i) := by
  intro mem off
  simp only [showReg, exit_bind, exit_load64, Option.bind_some,
    (regName_prints site i).exit mem off, (prints_fprintf _ _ _).exit mem off]

theorem exit_printReg (site : Site) (i : ℕ) (mem : Memory) (off n : ℤ) :
    (printReg c site i mem (moved 32 off n)).exit =
      some ((), moved 32 off (n + if c.regMask.getLsbD i then 8 else 0)) := by
  unfold printReg
  cases c.regMask.getLsbD i with
  | false => simp [optionally]
  | true =>
    simp only [optionally, if_true, exit_bind, stays_unlessQuiet (showReg_stays site i) mem _,
      Option.bind_some, exit_skip32, moved_moved]

/-- The registers from `i` on take eight bytes for each bit that is set. -/
theorem exit_printRegs_from (site : Site) (mem : Memory) (off : ℤ) (count i : ℕ) (n : ℤ) :
    (repeatFrom i count (printReg c site) mem (moved 32 off n)).exit =
      some ((), moved 32 off
        (n + 8 * ((List.range' i count).filter fun j => c.regMask.getLsbD j).length)) := by
  induction count generalizing i n with
  | zero => simp [repeatFrom]
  | succ count ih =>
    rw [repeatFrom, exit_bind, exit_printReg, Option.bind_some, ih, List.range'_succ,
      List.filter_cons]
    cases c.regMask.getLsbD i with
    | false => simp
    | true =>
      simp only [if_true, List.length_cons]
      push_cast
      ring_nf

def regsLength (c : Config) : ℤ := moved 32 0 (8 * weight c.regMask)

theorem exit_printRegs (site : Site) (mem : Memory) :
    (printRegs c site mem 0).exit = some ((), regsLength c) := by
  have hstart : moved 32 0 0 = 0 := by decide
  have hrun := exit_printRegs_from (c := c) site mem 0 64 0 0
  rw [hstart, Int.zero_add, ← List.range_eq_range'] at hrun
  simp only [printRegs, exit_bind, (prints_print _ _ _).exit mem _, Option.bind_some, hrun]
  rfl

/-- A copy is made unless its length is negative. -/
theorem exit_copyOut (n : ℤ) (mem : Memory) (off : ℤ) :
    (copyOut n mem off).exit = if 0 ≤ n then some (readBytes mem off n.toNat, off) else none := by
  unfold copyOut
  rw [exit_bind, exit_emit, Option.bind_some]
  by_cases hn : 0 ≤ n
  · rw [if_pos hn, if_neg (by omega), exit_copy]
  · rw [if_neg hn, if_pos (by omega)]
    rfl

/-- The length of a field, as the data give it. -/
def fieldLength (c : Config) (mem : Memory) (off : ℤ) : SampleField → Option ℤ
  | .read => (readFormatLength c mem off).map fun n => if 0 ≤ n then n else 0
  | .callchain =>
      if countAt mem off ≤ intMax then some (8 + (countAt mem off).toNat * 8) else none
  | .raw => some (4 + (word32 mem off).toInt)
  | .branchStack =>
      if countAt mem off ≤ intMax then some (8 + (countAt mem off).toNat * 24) else none
  | .regsUser | .regsIntr => some (8 + regsLength c)
  | .stackUser =>
      if 0 ≤ countAt mem off ∧ countAt mem (moved 64 off (8 + countAt mem off)) ≤ intMax - 3 then
        some (16 + countAt mem off)
      else none
  | .physAddr => none
  | _ => some 8

theorem exit_intPair (f : SampleField) (format : String) {check : BitVec 32 → Parser Unit}
    (hcheck : ∀ v, Prints (check v)) (mem : Memory) (off : ℤ) :
    (intPair c f format check mem off).exit = some ((), moved 64 off 8) := by
  simp only [intPair, exit_bind, exit_load32, Option.bind_some, (hcheck _).exit mem _,
    (prints_print _ _ _).exit mem _, exit_advance]

theorem exit_sampleRead (mem : Memory) (off : ℤ) (hoff : wrap 64 off = off) :
    (sampleRead c mem off).exit =
      (fieldLength c mem off .read).map fun n => ((), moved 64 off n) := by
  have hview : (subview (handleStructReadFormat c) mem off).exit =
      (readFormatLength c mem off).map fun n => (n, off) := by
    rw [exit_subview, exit_handleStructReadFormat, readFormatLength_view, Option.map_map]
    rfl
  simp only [sampleRead, fieldLength, exit_bind, (prints_print _ _ _).exit mem _, Option.bind_some,
    hview]
  cases readFormatLength c mem off with
  | none => rfl
  | some n =>
    by_cases hn : 0 ≤ n
    · simp [hn]
    · simp [hn, moved, hoff]

theorem exit_callchainEntry (i : ℕ) (mem : Memory) (off : ℤ) :
    (callchainEntry c i mem off).exit = some ((), moved 64 off 8) := by
  simp only [callchainEntry, exit_bind, exit_load64, Option.bind_some,
    (prints_print _ _ _).exit mem _, exit_advance]

/-- A count and its entries, as long as the index of the loop can reach the count. -/
theorem exit_counted (k : ℤ) {body : ℕ → Parser Unit} (mem : Memory) (off : ℤ)
    (h : ∀ i off, (body i mem off).exit = some ((), moved 64 off k)) :
    (intLoop 1 (countAt mem off) body mem (moved 64 off 8)).exit =
      (if countAt mem off ≤ intMax then some (8 + (countAt mem off).toNat * k) else none).map
        fun n => ((), moved 64 off n) := by
  rw [exit_countLoop 64 k mem h (countAt mem off) _ (wrap_moved ..)]
  by_cases hn : countAt mem off ≤ intMax
  · rw [if_pos hn, if_pos hn, ← moved, moved_moved]
    rfl
  · rw [if_neg hn, if_neg hn]
    rfl

theorem exit_sampleCallchain (mem : Memory) (off : ℤ) :
    (sampleCallchain c mem off).exit =
      (fieldLength c mem off .callchain).map fun n => ((), moved 64 off n) := by
  have hloop := exit_counted 8 mem off (fun i off => exit_callchainEntry (c := c) i mem off)
  have hcount : (word64 mem (off + 0)).toInt = countAt mem off := by rw [Int.add_zero]; rfl
  simp only [sampleCallchain, exit_bind, exit_load64, Option.bind_some,
    (prints_print _ _ _).exit mem _, exit_advance, hcount, hloop, fieldLength]

theorem exit_branchEntry (i : ℕ) (mem : Memory) (off : ℤ) :
    (branchEntry c i mem off).exit = some ((), moved 64 off 24) := by
  simp only [branchEntry, exit_bind, exit_load64, Option.bind_some, exit_advance,
    (checkBranch_prints _).exit mem _, (prints_print _ _ _).exit mem _,
    (prints_unlessQuiet (branchFlags_prints _)).exit mem _, moved_moved]
  rfl

theorem exit_sampleBranchStack (mem : Memory) (off : ℤ) :
    (sampleBranchStack c mem off).exit =
      (fieldLength c mem off .branchStack).map fun n => ((), moved 64 off n) := by
  have hloop := exit_counted 24 mem off (fun i off => exit_branchEntry (c := c) i mem off)
  have hcount : (word64 mem (off + 0)).toInt = countAt mem off := by rw [Int.add_zero]; rfl
  simp only [sampleBranchStack, exit_bind, exit_load64, Option.bind_some,
    (prints_print _ _ _).exit mem _, exit_advance, hcount, hloop, fieldLength]

/-- What says nothing to an observer without ears leaves the cursor alone. -/
theorem says_stays {q : Parser Unit} (h : Says (fun _ => ([] : List Unit)) q []) : Stays q := by
  intro mem off
  simpa using (h mem off).exit

theorem rawPayload_stays (size : BitVec 32) : Stays (rawPayload c size.toInt) :=
  says_stays (says_rawPayload (fun _ _ _ => rfl) size)

theorem exit_sampleRaw (mem : Memory) (off : ℤ) :
    (sampleRaw c mem off).exit =
      (fieldLength c mem off .raw).map fun n => ((), moved 64 off n) := by
  simp only [sampleRaw, exit_bind, exit_load32, Option.bind_some, (prints_print _ _ _).exit mem _,
    exit_advance, stays_unlessQuiet (rawPayload_stays _) mem _, moved_moved, fieldLength,
    Int.add_zero, Option.map_some]

theorem exit_sampleRegs (site : Site) (title : String) (mem : Memory) (off : ℤ) :
    (sampleRegs c site title mem off).exit = some ((), moved 64 off (8 + regsLength c)) := by
  have hhead : ∀ abi, Prints (unlessQuiet c do
      fprintf site title []
      printAbi site abi
      fprintf site "\n" []) := fun abi =>
    prints_unlessQuiet ((prints_fprintf _ _ _).bind
      ((printAbi_prints site abi).bind (prints_fprintf _ _ _)))
  simp only [sampleRegs, exit_bind, exit_load64, Option.bind_some, (hhead _).exit mem _,
    exit_advance, exit_subview, exit_printRegs, Option.map_some, moved_moved,
    (prints_print _ _ _).exit mem _]

/-- The index of the stack loop goes up by four. -/
theorem exit_stackLoop (stackData : List Byte) (size n : ℤ) (mem : Memory) (off : ℤ) :
    (intLoop 4 n (stackWord c stackData size) mem off).exit =
      if n ≤ intMax - 3 then some ((), off) else none := by
  have hfits : (n.toNat + 4 - 1) / 4 * 4 ≤ intMax ↔ n ≤ intMax - 3 := by
    unfold intMax
    omega
  rw [exit_intLoop, (prints_repeatFrom (stackWord_prints stackData size) 0 _).exit mem off]
  by_cases hn : n ≤ intMax - 3
  · rw [if_pos (hfits.mpr hn), if_pos hn]
  · rw [if_neg (fun hle => hn (hfits.mp hle)), if_neg hn]

theorem exit_stackTail (stackData : List Byte) (size : ℤ) (mem : Memory) (off : ℤ) :
    (stackTail c stackData size mem off).exit =
      if countAt mem off ≤ intMax - 3 then some ((), moved 64 off 8) else none := by
  have hcount : (word64 mem (off + 0)).toInt = countAt mem off := by rw [Int.add_zero]; rfl
  simp only [stackTail, exit_bind, exit_load64, Option.bind_some, (prints_print _ _ _).exit mem _,
    exit_advance, hcount, exit_stackLoop]
  by_cases hn : countAt mem off ≤ intMax - 3
  · rw [if_pos hn, Option.bind_some]
  · rw [if_neg hn, Option.bind_none]

theorem exit_sampleStackUser (mem : Memory) (off : ℤ) :
    (sampleStackUser c mem off).exit =
      (fieldLength c mem off .stackUser).map fun n => ((), moved 64 off n) := by
  have hcount : (word64 mem (off + 0)).toInt = countAt mem off := by rw [Int.add_zero]; rfl
  have hsum : 8 + (countAt mem off + 8) = 16 + countAt mem off := by ring
  rw [sampleStackUser, exit_bind, exit_load64, Option.bind_some, exit_bind,
    (prints_print _ _ _).exit mem _, Option.bind_some, exit_bind, exit_advance, Option.bind_some]
  rw [hcount, exit_bind, exit_copyOut]
  unfold fieldLength
  by_cases hsize : 0 ≤ countAt mem off
  · simp only [hsize, if_true, true_and, Option.bind_some, exit_bind, exit_advance, exit_stackTail,
      moved_moved]
    split
    · rw [Option.map_some, hsum]
    · rw [Option.map_none]
  · simp only [hsize, false_and, if_false, Option.bind_none, Option.map_none]

theorem exit_sampleWord (f : SampleField) (format : String) (mem : Memory) (off : ℤ) :
    (sampleWord c f format mem off).exit = some ((), moved 64 off 8) := by
  simp only [sampleWord, exit_bind, exit_longField, Option.bind_some,
    (prints_print _ _ _).exit mem _]

theorem exit_sampleDataSrc (mem : Memory) (off : ℤ) :
    (sampleDataSrc c mem off).exit = some ((), moved 64 off 8) := by
  simp only [sampleDataSrc, exit_bind, exit_load64, Option.bind_some,
    (prints_print _ _ _).exit mem _,
    exit_advance, (prints_unlessQuiet (printDataSrc_prints _)).exit mem _]

/-- Every block moves the cursor over the length of its field. -/
theorem exit_sampleBlock (f : SampleField) (hf : f ≠ .physAddr) (mem : Memory) (off : ℤ)
    (hoff : wrap 64 off = off) :
    (sampleBlock c f mem off).exit =
      (fieldLength c mem off f).map fun n => ((), moved 64 off n) := by
  cases f with
  | tid => exact exit_intPair .tid _ checkPid_prints mem off
  | cpu => exact exit_intPair .cpu _ (fun _ => prints_pure) mem off
  | read => exact exit_sampleRead mem off hoff
  | callchain => exact exit_sampleCallchain mem off
  | raw => exact exit_sampleRaw mem off
  | branchStack => exact exit_sampleBranchStack mem off
  | regsUser => exact exit_sampleRegs _ _ mem off
  | regsIntr => exact exit_sampleRegs _ _ mem off
  | stackUser => exact exit_sampleStackUser mem off
  | weight => exact exit_sampleWord _ _ mem off
  | dataSrc => exact exit_sampleDataSrc mem off
  | identifier => exact exit_sampleWord _ _ mem off
  | transaction => exact exit_sampleWord _ _ mem off
  | physAddr => contradiction
  | _ => exact exit_longField _ _ mem off

end PapiSample.Advance
