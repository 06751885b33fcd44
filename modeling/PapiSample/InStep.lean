import PapiSample.RecordAdvance

/-!
Whether the parser stays in step with the stream on records that are no samples.
A case stays in step when the widths it adds up are the size of the record; some
cases read a `sample_id` of one word behind their fields, the others read none,
and the types without a case take the whole rest of the window.
-/
namespace PapiSample.InStep

open Bytes Cursor Cursor.Prog PerfEvent ParseRecord SampleFields RecordLoop FieldDecoding
  RecordDecoding Advance RecordAdvance

variable {c : Config}

/-- Wherever the record stands, with whatever around it, its iteration ends at
its own end. -/
def KeepsStep (c : Config) (r : RawRecord) : Prop :=
  ∀ (size : ℤ) (mem : Memory) (start : ℤ), Holds mem start r.bytes → Room 64 start r.size →
    start + r.size ≤ size → (iteration c size mem start).exit = some ((), start + r.size)

/-- Wherever the record stands, its iteration ends at the end of the window. -/
def SkipsWindow (c : Config) (r : RawRecord) : Prop :=
  ∀ (size : ℤ) (mem : Memory) (start : ℤ), Holds mem start r.bytes →
    (iteration c size mem start).exit = some ((), size)

def plainTypes : List RecordType := [.lost, .fork, .exit, .throttle, .unthrottle, .itraceStart]

def sampleIdTypes : List RecordType := [.aux, .lostSamples, .switch, .switchCpuWide]

def defaultTypes : List RecordType := [.read, .namespaces]

/-- The bytes that a case reads behind the documented fields of its type. -/
def assumedTrailer (t : RecordType) : ℕ := if t ∈ sampleIdTypes then 8 else 0

theorem sizeAt_eq (r : RawRecord) (mem : Memory) (start : ℤ) (hold : Holds mem start r.bytes) :
    sizeAt mem start = r.size := by
  rw [sizeAt, (header_words r mem start hold).2.2.1, size_toNat]

theorem moved_eq (start : ℤ) (n : ℕ) (room : Room 64 start n) : moved 64 start n = start + n := by
  unfold Room at room
  exact wrap_eq 64 _ (by omega) room.2

theorem record_type (r : Record c) (mem : Memory) (start : ℤ) (hold : Holds mem start r.bytes) :
    RecordType.ofCode (word32 mem start) = some r.payload.type := by
  rw [(header_words r.raw mem start hold).1]
  exact RecordType.ofCode_code _

/-- A case with fixed widths moves over the documented fields and what it takes
for a trailer. -/
theorem fixedLength_eq (r : Record c) (htype : r.payload.type ∈ plainTypes ++ sampleIdTypes) :
    fixedLength r.payload.type =
      some ((r.size : ℤ) - r.trailer.length + assumedTrailer r.payload.type) := by
  have hsize : (r.size : ℤ) - r.trailer.length =
      8 + (r.payload.bytes c.sampleType c.readFormat c.regMask).length := by
    unfold Record.size RawRecord.size Record.raw
    rw [List.length_append]
    push_cast
    omega
  rw [hsize]
  cases hp : r.payload with
  | comm => simp [hp, Payload.type, plainTypes, sampleIdTypes] at htype
  | mmap => simp [hp, Payload.type, plainTypes, sampleIdTypes] at htype
  | mmap2 => simp [hp, Payload.type, plainTypes, sampleIdTypes] at htype
  | read => simp [hp, Payload.type, plainTypes, sampleIdTypes] at htype
  | sample => simp [hp, Payload.type, plainTypes, sampleIdTypes] at htype
  | namespaces => simp [hp, Payload.type, plainTypes, sampleIdTypes] at htype
  | _ => simp [Payload.type, Payload.bytes, fixedLength, assumedTrailer, sampleIdTypes]

/-- A record with a name has room for the fields in front of it. -/
theorem named_next (r : Record c) (htype : r.payload.type ∈ namedTypes) (size : ℤ) (mem : Memory)
    (start : ℤ) (hold : Holds mem start r.bytes) :
    recordNext c size mem start = some (moved 64 start (sizeAt mem start)) := by
  have hsize : sizeAt mem start = 8 +
      ((r.payload.bytes c.sampleType c.readFormat c.regMask).length + r.trailer.length) := by
    rw [sizeAt_eq r.raw mem start hold, RawRecord.size, Record.raw, List.length_append]
    push_cast
    rfl
  have hroom : ∀ head : ℤ, head ≤ sizeAt mem start →
      (namedLength mem start head).map (moved 64 start) =
        some (moved 64 start (sizeAt mem start)) := by
    intro head hhead
    rw [namedLength, if_pos hhead, Option.map_some]
  unfold recordNext
  rw [record_type r mem start hold]
  cases hp : r.payload with
  | comm pid tid name =>
    apply hroom 16
    rw [hsize, hp]
    simp only [Payload.bytes, List.length_append, le32_length]
    omega
  | mmap pid tid addr len pgoff filename =>
    apply hroom 40
    rw [hsize, hp]
    simp only [Payload.bytes, List.length_append, le32_length, le64_length]
    omega
  | mmap2 pid tid addr len pgoff maj min ino inoGeneration prot flags filename =>
    apply hroom 72
    rw [hsize, hp]
    simp only [Payload.bytes, List.length_append, le32_length, le64_length]
    omega
  | _ => simp [hp, Payload.type, namedTypes] at htype

theorem named_keepsStep (r : Record c) (htype : r.payload.type ∈ namedTypes) :
    KeepsStep c r.raw := by
  intro size mem start hold room _
  rw [exit_iteration, named_next r htype size mem start hold, sizeAt_eq r.raw mem start hold,
    moved_eq start _ room]
  rfl

theorem fixed_next (r : Record c) (htype : r.payload.type ∈ plainTypes ++ sampleIdTypes)
    (size : ℤ) (mem : Memory) (start : ℤ) (hold : Holds mem start r.bytes) :
    recordNext c size mem start = some (moved 64 start
      ((r.size : ℤ) - r.trailer.length + assumedTrailer r.payload.type)) := by
  have hlength := fixedLength_eq r htype
  unfold recordNext
  rw [record_type r mem start hold]
  simp only [plainTypes, sampleIdTypes, List.mem_append, List.mem_cons, List.not_mem_nil,
    or_false] at htype
  rcases htype with (h | h | h | h | h | h) | (h | h | h | h) <;>
    (rw [h] at hlength ⊢; simp only [hlength, Option.map_some])

/-- A fixed case stays in step exactly with the trailer it assumes. -/
theorem fixed_keepsStep_iff (r : Record c) (htype : r.payload.type ∈ plainTypes ++ sampleIdTypes) :
    KeepsStep c r.raw ↔ r.trailer.length = assumedTrailer r.payload.type := by
  constructor
  · intro hstep
    have hold : Holds (overlay r.bytes fun _ => 0) 0 r.bytes := holds_overlay _ _
    have hfits : 8 + r.raw.body.length < recordLimit := r.raw.fits
    have htrailer : r.trailer.length ≤ r.raw.body.length := by
      rw [Record.raw, List.length_append]
      omega
    have hassumed : assumedTrailer r.payload.type ≤ 8 := by
      unfold assumedTrailer
      split <;> omega
    have hsize : r.size = 8 + r.raw.body.length := rfl
    have hroom : Room 64 0 r.size := by
      simp only [Room, recordLimit, hsize] at hfits ⊢
      omega
    have hexit := hstep r.size _ 0 hold hroom (by rw [Int.zero_add]; exact le_rfl)
    rw [exit_iteration, fixed_next r htype _ _ 0 hold, Option.map_some, moved,
      wrap_eq 64 _ (by unfold recordLimit at hfits; omega)
        (by unfold recordLimit at hfits; omega)] at hexit
    simp only [Option.some.injEq, Prod.mk.injEq, true_and] at hexit
    have hraw : r.raw.size = r.size := rfl
    omega
  · intro htrailer size mem start hold room _
    have hend : moved 64 start r.size = start + r.size := moved_eq start _ room
    rw [exit_iteration, fixed_next r htype size mem start hold, htrailer, Int.sub_add_cancel,
      hend]
    rfl

/-- A record that is left to the `default` of the switch. -/
theorem default_skips (r : RawRecord)
    (htype : ∀ t, RecordType.ofCode r.type = some t → t ∈ defaultTypes) : SkipsWindow c r := by
  intro size mem start hold
  have hnext : recordNext c size mem start = some size := by
    unfold recordNext
    rw [(header_words r mem start hold).1]
    cases hcode : RecordType.ofCode r.type with
    | none => rfl
    | some t =>
      have ht := htype t hcode
      simp only [defaultTypes, List.mem_cons, List.not_mem_nil, or_false] at ht
      rcases ht with rfl | rfl <;> rfl
  rw [exit_iteration, hnext]
  rfl

/-- Which records leave the parser in step: those that end with a name, with any
trailer, the plain ones without a trailer, and those with a `sample_id` of one
word. Where there is no case, the rest of the window is skipped. -/
theorem sideBand_inStep (c : Config) :
    (∀ r : Record c, r.payload.type ∈ namedTypes → KeepsStep c r.raw) ∧
      (∀ r : Record c, r.payload.type ∈ plainTypes → r.trailer = [] → KeepsStep c r.raw) ∧
      (∀ r : Record c, r.payload.type ∈ sampleIdTypes → r.trailer.length = 8 →
        KeepsStep c r.raw) ∧
      ∀ r : RawRecord, (∀ t, RecordType.ofCode r.type = some t → t ∈ defaultTypes) →
        SkipsWindow c r := by
  refine ⟨named_keepsStep, ?_, ?_, default_skips⟩
  · intro r htype hbare
    have hassumed : assumedTrailer r.payload.type = 0 := by
      simp only [plainTypes, List.mem_cons, List.not_mem_nil, or_false] at htype
      rcases htype with h | h | h | h | h | h <;> rw [h] <;> rfl
    rw [fixed_keepsStep_iff r (List.mem_append_left _ htype), hbare, hassumed]
    rfl
  · intro r htype hword
    rw [fixed_keepsStep_iff r (List.mem_append_right _ htype), hword, assumedTrailer,
      if_pos htype]

def addressConfig : Config where
  arch := .x86_64
  sampleType := 1
  readFormat := 0
  regMask := 0
  validate := none
  quiet := false
  rawType := RAW_NONE
  heap := fun _ => 0

def unlistedRecord : RawRecord := ⟨99, 0, List.replicate 8 0, by decide⟩

/-- In front of another record of the window, it takes that record with it. -/
theorem unlisted_drops_next : ¬ KeepsStep addressConfig unlistedRecord := by
  intro hstep
  have hold : Holds (overlay unlistedRecord.bytes fun _ => 0) 0 unlistedRecord.bytes :=
    holds_overlay _ _
  have hnone : RecordType.ofCode unlistedRecord.type = none := by decide
  have hskip := default_skips (c := addressConfig) unlistedRecord
    (fun t ht => by rw [hnone] at ht; contradiction) 40 _ 0 hold
  rw [hstep 40 _ 0 hold (room_of_nonneg le_rfl (by decide)) (by decide)] at hskip
  revert hskip
  decide

theorem sideBand_inStep_lost :
    KeepsStep addressConfig (Record.raw (c := addressConfig) ⟨0, .lost 1 2, [], by decide⟩) :=
  (sideBand_inStep addressConfig).2.1 _ (by decide) rfl

end PapiSample.InStep
