import PapiSample.Advance
import PapiSample.RecordDecoding

/-!
Where an iteration of the record loop that starts at a given offset ends. The
fixed cases add up their own widths, the cases with a name rely on the size in
the header, and the types without a case give up on the rest of the window.
-/
namespace PapiSample.RecordAdvance

open Bytes Cursor Cursor.Prog PerfEvent ParseRecord SampleFields RecordLoop FieldDecoding Printing
  Advance

variable {c : Config}

def fieldsNext (c : Config) (mem : Memory) : List SampleField → ℤ → Option ℤ
  | [], off => some off
  | f :: rest, off =>
    if f.isSet c.sampleType then
      (fieldLength c mem off f).bind fun n => fieldsNext c mem rest (moved 64 off n)
    else fieldsNext c mem rest off

/-- What is asked of a field and the place where it starts holds of all requested
fields that the parser comes to. -/
def EachField (c : Config) (mem : Memory) (P : ℤ → SampleField → Prop) :
    List SampleField → ℤ → Prop
  | [], _ => True
  | f :: rest, off =>
    if f.isSet c.sampleType then
      P off f ∧ ∀ n ∈ fieldLength c mem off f, EachField c mem P rest (moved 64 off n)
    else EachField c mem P rest off

theorem EachField.of_forall {mem : Memory} {P : ℤ → SampleField → Prop}
    (h : ∀ f : SampleField, f.isSet c.sampleType = true → ∀ off, P off f)
    (order : List SampleField) (off : ℤ) : EachField c mem P order off := by
  induction order generalizing off with
  | nil => trivial
  | cons f rest ih =>
    rw [EachField]
    split
    · exact ⟨h f ‹_› off, fun n _ => ih _⟩
    · exact ih off

def sizeAt (mem : Memory) (start : ℤ) : ℤ := (word16 mem (start + 6)).toNat

/-- The bytes a case without a name and without a loop moves over, its header
included. -/
def fixedLength : RecordType → Option ℤ
  | .lost => some 24
  | .fork | .exit => some 32
  | .throttle | .unthrottle => some 32
  | .aux => some 40
  | .itraceStart => some 16
  | .lostSamples => some 24
  | .switch => some 16
  | .switchCpuWide => some 24
  | _ => none

def namedTypes : List RecordType := [.comm, .mmap, .mmap2]

/-- A case with a name relies on the size, if this has room for the `head` bytes in
front of the name. -/
def namedLength (mem : Memory) (start head : ℤ) : Option ℤ :=
  if head ≤ sizeAt mem start then some (sizeAt mem start) else none

def recordNext (c : Config) (size : ℤ) (mem : Memory) (start : ℤ) : Option ℤ :=
  match RecordType.ofCode (word32 mem start) with
  | some .comm => (namedLength mem start 16).map (moved 64 start)
  | some .mmap => (namedLength mem start 40).map (moved 64 start)
  | some .mmap2 => (namedLength mem start 72).map (moved 64 start)
  | some .sample => fieldsNext c mem blockOrder (moved 64 start 8)
  | some .read | some .namespaces | none => some size
  | some r => (fixedLength r).map (moved 64 start)

theorem exit_sampleBlocks (order : List SampleField) (hphys : .physAddr ∉ order) (mem : Memory)
    (off : ℤ) (hoff : wrap 64 off = off) :
    (sampleBlocks c order mem off).exit = (fieldsNext c mem order off).map fun p => ((), p) := by
  induction order generalizing off with
  | nil => rfl
  | cons f rest ih =>
    obtain ⟨hf, hrest⟩ := not_or.mp (fun h => hphys (List.mem_cons.mpr h))
    rw [sampleBlocks, exit_bind, fieldsNext]
    cases f.isSet c.sampleType with
    | false =>
      simp only [optionally, Bool.false_eq_true, if_false, exit_pure, Option.bind_some]
      exact ih hrest off hoff
    | true =>
      simp only [optionally, if_true, exit_sampleBlock f (Ne.symm hf) mem off hoff]
      cases fieldLength c mem off f with
      | none => rfl
      | some n =>
        simp only [Option.map_some, Option.bind_some]
        exact ih hrest _ (wrap_moved ..)

theorem fieldsNext_cons (mem : Memory) (f : SampleField) (rest : List SampleField) (off : ℤ)
    (hset : f.isSet c.sampleType = true) :
    fieldsNext c mem (f :: rest) off =
      (fieldLength c mem off f).bind fun n => fieldsNext c mem rest (moved 64 off n) := if_pos hset

theorem fieldsNext_append (mem : Memory) (a b : List SampleField) (off : ℤ) :
    fieldsNext c mem (a ++ b) off = (fieldsNext c mem a off).bind (fieldsNext c mem b) := by
  induction a generalizing off with
  | nil => rfl
  | cons f rest ih =>
    rw [List.cons_append, fieldsNext, fieldsNext]
    cases f.isSet c.sampleType with
    | false =>
      simp only [Bool.false_eq_true, if_false]
      exact ih off
    | true =>
      simp only [if_true]
      cases fieldLength c mem off f with
      | none => rfl
      | some n => exact ih _

theorem exit_lostRecord (mem : Memory) (off : ℤ) :
    (lostRecord c mem off).exit = some ((), moved 64 off 16) := by
  simp only [lostRecord, exit_bind, exit_longField, Option.bind_some, moved_moved]
  rfl

theorem exit_pidTid (mem : Memory) (off : ℤ) :
    (pidTid c mem off).exit = some ((), moved 64 off 8) := by
  simp only [pidTid, exit_bind, exit_intField, Option.bind_some, moved_moved]
  rfl

theorem exit_taskRecord (mem : Memory) (off : ℤ) :
    (taskRecord c mem off).exit = some ((), moved 64 off 24) := by
  simp only [taskRecord, exit_bind, exit_intField, exit_longField, Option.bind_some, moved_moved]
  rfl

theorem exit_mapFields (mem : Memory) (off : ℤ) :
    (mapFields c mem off).exit = some ((), moved 64 off 32) := by
  simp only [mapFields, exit_bind, exit_pidTid, exit_longField, Option.bind_some, moved_moved]
  rfl

theorem exit_mmap2Fields (mem : Memory) (off : ℤ) :
    (mmap2Fields c mem off).exit = some ((), moved 64 off 64) := by
  simp only [mmap2Fields, exit_bind, exit_mapFields, exit_intField, exit_longField,
    Option.bind_some, moved_moved]
  rfl

theorem exit_throttleRecord (mem : Memory) (off : ℤ) :
    (throttleRecord c mem off).exit = some ((), moved 64 off 24) := by
  simp only [throttleRecord, exit_bind, exit_longField, Option.bind_some, moved_moved]
  rfl

theorem exit_auxRecord (mem : Memory) (off : ℤ) :
    (auxRecord c mem off).exit = some ((), moved 64 off 32) := by
  simp only [auxRecord, exit_bind, exit_longField, exit_load64, Option.bind_some, exit_advance,
    (prints_unlessQuiet (auxFlags_prints _)).exit mem _, moved_moved]
  rfl

theorem exit_lostSamplesRecord (mem : Memory) (off : ℤ) :
    (lostSamplesRecord c mem off).exit = some ((), moved 64 off 16) := by
  simp only [lostSamplesRecord, exit_bind, exit_longField, Option.bind_some, moved_moved]
  rfl

theorem exit_switchCpuWideRecord (mem : Memory) (off : ℤ) :
    (switchCpuWideRecord c mem off).exit = some ((), moved 64 off 16) := by
  simp only [switchCpuWideRecord, exit_bind, exit_intField, exit_longField, Option.bind_some,
    moved_moved]
  rfl

/-- A copy that is made ends at the size of the record, whatever the fixed part was. -/
theorem exit_nameTail (start head : ℤ) (format : String) (mem : Memory) :
    (nameTail c start head format mem (moved 64 start head)).exit =
      ((namedLength mem start head).map (moved 64 start)).map fun p => ((), p) := by
  have hend : head + (sizeAt mem start - head) = sizeAt mem start := by omega
  have hsize : ((word16 mem (start + 6)).toNat : ℤ) = sizeAt mem start := rfl
  simp only [nameTail, eventSize, exit_bind, exit_peek16, Option.bind_some, hsize, exit_copyOut,
    namedLength]
  by_cases hroom : head ≤ sizeAt mem start
  · rw [if_pos (by omega), if_pos hroom, Option.bind_some, (prints_print _ _ _).exit mem _,
      Option.bind_some, exit_advance, moved_moved, hend]
    rfl
  · rw [if_neg (by omega), if_neg hroom]
    rfl

theorem exit_commRecord (start : ℤ) (mem : Memory) :
    (commRecord c start mem (moved 64 start 8)).exit =
      ((namedLength mem start 16).map (moved 64 start)).map fun p => ((), p) := by
  rw [commRecord, exit_bind, exit_pidTid, Option.bind_some, moved_moved]
  exact exit_nameTail start 16 _ mem

theorem exit_mmapRecord (start : ℤ) (mem : Memory) :
    (mmapRecord c start mem (moved 64 start 8)).exit =
      ((namedLength mem start 40).map (moved 64 start)).map fun p => ((), p) := by
  rw [mmapRecord, exit_bind, exit_mapFields, Option.bind_some, moved_moved]
  exact exit_nameTail start 40 _ mem

theorem exit_mmap2Record (start : ℤ) (mem : Memory) :
    (mmap2Record c start mem (moved 64 start 8)).exit =
      ((namedLength mem start 72).map (moved 64 start)).map fun p => ((), p) := by
  rw [mmap2Record, exit_bind, exit_mmap2Fields, Option.bind_some, moved_moved]
  exact exit_nameTail start 72 _ mem

theorem exit_unknownRecord (size : ℤ) (type : BitVec 32) (mem : Memory) (off : ℤ) :
    (unknownRecord c size type mem off).exit = some ((), size) := by
  rw [unknownRecord, exit_bind, (prints_print _ _ _).exit mem _, Option.bind_some, exit_jump]

/-- Behind the header, the case of the type moves the cursor to `recordNext`. -/
theorem exit_details (size : ℤ) (mem : Memory) (start : ℤ) :
    (details c size start (word32 mem start) mem (moved 64 start 8)).exit =
      (recordNext c size mem start).map fun p => ((), p) := by
  unfold details recordNext fixedLength
  cases RecordType.ofCode (word32 mem start) with
  | none => exact exit_unknownRecord size _ mem _
  | some r =>
    cases r with
    | read => exact exit_unknownRecord size _ mem _
    | namespaces => exact exit_unknownRecord size _ mem _
    | comm => exact exit_commRecord start mem
    | mmap => exact exit_mmapRecord start mem
    | mmap2 => exact exit_mmap2Record start mem
    | sample => exact exit_sampleBlocks blockOrder (by decide) mem _ (wrap_moved ..)
    | lost => simpa using exit_lostRecord mem (moved 64 start 8)
    | fork => simpa [forkRecord] using exit_taskRecord mem (moved 64 start 8)
    | exit => simpa [exitRecord] using exit_taskRecord mem (moved 64 start 8)
    | throttle => simpa using exit_throttleRecord mem (moved 64 start 8)
    | unthrottle => simpa using exit_throttleRecord mem (moved 64 start 8)
    | aux => simpa using exit_auxRecord mem (moved 64 start 8)
    | itraceStart => simpa [itraceStartRecord] using exit_pidTid mem (moved 64 start 8)
    | lostSamples => simpa using exit_lostSamplesRecord mem (moved 64 start 8)
    | switch => simpa [switchRecord] using exit_longField .details _ mem (moved 64 start 8)
    | switchCpuWide => simpa using exit_switchCpuWideRecord mem (moved 64 start 8)

theorem printHeader_stays (start : ℤ) (type : BitVec 32) : Stays (printHeader c start type) :=
  says_stays (RecordDecoding.says_printHeader (fun _ _ _ => rfl) start type)

/-- The end of an iteration depends on the data through `recordNext` only. -/
theorem exit_iteration (size : ℤ) (mem : Memory) (start : ℤ) :
    (iteration c size mem start).exit = (recordNext c size mem start).map fun p => ((), p) := by
  rw [iteration, exit_bind, exit_here, Option.bind_some, exit_bind, exit_peek32, Option.bind_some,
    exit_bind, printHeader_stays _ _ mem _, Option.bind_some, exit_bind, exit_advance,
    Option.bind_some]
  exact exit_details size mem start

end PapiSample.RecordAdvance
