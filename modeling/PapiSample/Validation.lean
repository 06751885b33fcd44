import PapiSample.RecordOutputs
import PapiSample.ReportingOptions
import PapiSample.RoundTrip

/-!
What perf_mmap_read says on the standard error about the records of a window: the
errors that its comparisons with `validate` find. They are read off the bytes of the
window, whatever these are and whatever else is printed, dumped or kept quiet. Of the
platform they depend on the width of an `unsigned long`.
-/
namespace PapiSample.Validation

open Bytes Cursor Cursor.Prog PerfEvent ParseRecord SampleFields RecordLoop Advance RecordAdvance
  Emissions BlockOutputs RecordOutputs MmapRead ReportingOptions While

abbrev Message := String × List Arg

def errors : Out → List Message
  | .printed _ .stderr format args => [(format, args)]
  | .printed _ .fp _ _ | .printed _ .stdout _ _ | .alloc _ | .heapLoad _ _ _ | .killed => []

def compared (c : Config) (differs : ValidateValues → Bool) (format : String)
    (args : ValidateValues → List Arg) : List Message :=
  match c.validate with
  | none => []
  | some v => if differs v then [(format, args v)] else []

def pidErrors (c : Config) (pid : BitVec 32) : List Message :=
  compared c (fun v => v.pid != pid) "Error, pid %d != %d\n" fun v => [.int v.pid, .int pid]

def countErrors (c : Config) (nr : BitVec 64) : List Message :=
  compared c (fun v => v.events.toInt != nr.toInt) "Error!  Wrong number of events %d != %lld\n"
    fun v => [.int v.events, .long nr]

def branchErrors (c : Config) (source : BitVec 64) : List Message :=
  compared c (fun v => belowLow c.arch source v.branchLow) "Error! branch out of bounds!\n"
    fun _ => []

def fieldErrors (c : Config) (mem : Memory) (off : ℤ) : SampleField → List Message
  | .tid => pidErrors c (word32 mem off)
  | .read => if hasFormat c PERF_FORMAT_GROUP then countErrors c (word64 mem off) else []
  | .branchStack =>
      (List.range (countAt mem off).toNat).flatMap fun i : ℕ =>
        branchErrors c (word64 mem (moved 64 off (8 + 24 * i)))
  | _ => []

def fieldsErrors (c : Config) (mem : Memory) : List SampleField → ℤ → List Message
  | [], _ => []
  | f :: rest, off =>
    if f.isSet c.sampleType then
      fieldErrors c mem off f ++
        (fieldLength c mem off f).elim [] fun n => fieldsErrors c mem rest (moved 64 off n)
    else fieldsErrors c mem rest off

/-- The errors in a record: only samples are compared. -/
def recordErrors (c : Config) (mem : Memory) (start : ℤ) : List Message :=
  if RecordType.ofCode (word32 mem start) = some .sample then
    fieldsErrors c mem blockOrder (moved 64 start 8)
  else []

def errorsOf (trace : List (ℤ × List (Event Out))) : List (ℤ × List Message) :=
  trace.map fun e => (e.1, seen errors e.2)

/-- The arguments that decide what is found and what it is compared with. -/
structure SameChecks (c c' : Config) : Prop extends SameFormat c c' where
  validate : c.validate = c'.validate
  longBits : c.arch.longBits = c'.arch.longBits

section Options
variable {c c' : Config} (h : SameChecks c c')
include h

theorem compared_options (differs : ValidateValues → Bool) (format : String)
    (args : ValidateValues → List Arg) :
    compared c differs format args = compared c' differs format args := by
  unfold compared
  rw [h.validate]

theorem fieldErrors_options (mem : Memory) (off : ℤ) (f : SampleField) :
    fieldErrors c mem off f = fieldErrors c' mem off f := by
  cases f with
  | tid => exact compared_options h _ _ _
  | read =>
    have hgroup : hasFormat c PERF_FORMAT_GROUP = hasFormat c' PERF_FORMAT_GROUP := by
      unfold hasFormat
      rw [h.readFormat]
    have hcount := compared_options h (fun v => v.events.toInt != (word64 mem off).toInt)
      "Error!  Wrong number of events %d != %lld\n" fun v => [.int v.events, .long (word64 mem off)]
    simp only [fieldErrors, hgroup, countErrors, hcount]
  | branchStack =>
    have hbelow : ∀ source low, belowLow c.arch source low = belowLow c'.arch source low := by
      intro source low
      unfold belowLow
      rw [h.longBits]
    have hbranch : ∀ source, branchErrors c source = branchErrors c' source := by
      intro source
      unfold branchErrors
      simp only [hbelow]
      exact compared_options h _ _ _
    simp only [fieldErrors, hbranch]
  | _ => rfl

theorem fieldsErrors_options (mem : Memory) (order : List SampleField) (off : ℤ) :
    fieldsErrors c mem order off = fieldsErrors c' mem order off := by
  induction order generalizing off with
  | nil => rfl
  | cons f rest ih =>
    rw [fieldsErrors, fieldsErrors, h.sampleType, fieldErrors_options h,
      fieldLength_options h.toSameFormat, ih]
    simp only [ih]

theorem recordErrors_options (mem : Memory) (start : ℤ) :
    recordErrors c mem start = recordErrors c' mem start := by
  unfold recordErrors
  rw [fieldsErrors_options h]

end Options

abbrev Silent (o : Out) : Prop := errors o = []

variable {c : Config} {mem : Memory} {off : ℤ}

def comparedFields : List SampleField := [.tid, .read, .branchStack]

theorem silent_permits (site : Site) : Permits Silent site := fun _ _ => rfl

theorem print_silent (site : Site) (format : String) (args : List Arg) :
    Always Silent (unlessQuiet c (fprintf site format args)) :=
  always_print (silent_permits site) format args

/-- The other blocks have no errors. -/
theorem silent_permitsBlock (f : SampleField) (hf : f ∉ comparedFields) :
    PermitsBlock c Silent f := by
  cases f with
  | tid | read | branchStack => exact absurd (by decide) hf
  | raw => exact ⟨silent_permits _, fun _ _ _ => rfl⟩
  | regsUser => exact ⟨(silent_permits _).named, rfl⟩
  | regsIntr => exact ⟨(silent_permits _).named, rfl⟩
  | stackUser =>
    exact ⟨⟨fun _ => rfl, rfl⟩, silent_permits _, silent_permits _, fun _ _ _ => rfl⟩
  | _ => exact silent_permits _

/-- A comparison says what it finds. -/
theorem seen_compared (differs : ValidateValues → Bool) (site : Site) (format : String)
    (args : ValidateValues → List Arg) :
    seen errors ((match c.validate with
      | none => pure ()
      | some v => optionally (differs v) (complain site format (args v)) : Parser Unit)
      mem off).log =
      compared c differs format args := by
  unfold compared
  cases c.validate with
  | none => rfl
  | some v =>
    simp only
    cases differs v with
    | false => rfl
    | true => rfl

theorem seen_checkPid (pid : BitVec 32) :
    seen errors (checkPid c pid mem off).log = pidErrors c pid :=
  seen_compared (fun v => v.pid != pid) _ _ _

theorem seen_checkEvents (nr : BitVec 64) :
    seen errors (checkEvents c nr mem off).log = countErrors c nr :=
  seen_compared (fun v => v.events.toInt != nr.toInt) _ _ _

theorem seen_checkBranch (source : BitVec 64) :
    seen errors (checkBranch c source mem off).log = branchErrors c source :=
  seen_compared (fun v => belowLow c.arch source v.branchLow) _ _ _

theorem seen_sampleTid : seen errors (sampleBlock c .tid mem off).log =
    pidErrors c (word32 mem off) := by
  have hrest : ∀ first second : BitVec 32, ∀ _ : Unit, Always Silent (do
      unlessQuiet c (fprintf (.field .tid) "\tPERF_SAMPLE_TID, pid: %d  tid %d\n"
        [.int first, .int second])
      advance 8) := fun _ _ _ => (print_silent _ _ _).bind fun _ => always_advance 8
  show seen errors (intPair c .tid _ (checkPid c) mem off).log = _
  unfold intPair
  rw [seen_after (always_load32 0) (exit_load32 0 mem off),
    seen_after (always_load32 4) (exit_load32 4 mem off), seen_before _ (hrest _ _), seen_checkPid,
    Int.add_zero]

/-- Only the number of a group of counters is compared. -/
theorem seen_handleStructReadFormat (mem : Memory) (off : ℤ) :
    seen errors (handleStructReadFormat c mem off).log =
      if hasFormat c PERF_FORMAT_GROUP then countErrors c (word64 mem off) else [] := by
  have hword : ∀ format, Always Silent (readWord c format) := always_readWord (silent_permits _)
  have hflag : ∀ flag format, Always Silent (optionally (hasFormat c flag) (readWord c format)) :=
    fun flag format => always_optionally _ (hword format)
  have hentry : ∀ i, Always Silent (groupEntry c i) := always_groupEntry (silent_permits _)
  unfold handleStructReadFormat
  cases hasFormat c PERF_FORMAT_GROUP with
  | true =>
    have hrest : ∀ nr : BitVec 64, ∀ _ : Unit, Always Silent (do
        optionally (hasFormat c PERF_FORMAT_TOTAL_TIME_ENABLED) (readWord c "enabled: %lld ")
        optionally (hasFormat c PERF_FORMAT_TOTAL_TIME_RUNNING) (readWord c "running: %lld ")
        unlessQuiet c (fprintf (.field .read) "\n" [])
        intLoop 1 nr.toInt (groupEntry c)) := fun nr _ =>
      (hflag _ _).bind fun _ => (hflag _ _).bind fun _ => (print_silent _ _ _).bind fun _ =>
        Always.intLoop hentry 1 _
    simp only [if_true]
    rw [seen_after (always_load64 0) (exit_load64 0 mem off),
      seen_after (print_silent _ _ _) ((Printing.prints_print _ _ _).exit mem _),
      seen_after (always_skip 32 8) (exit_skip32 8 mem _), seen_before _ (hrest _),
      seen_checkEvents, Int.add_zero]
  | false =>
    exact seen_nothing ((hword _).bind fun _ => (hflag _ _).bind fun _ => (hflag _ _).bind fun _ =>
      (hflag _ _).bind fun _ => print_silent _ _ _) mem off

theorem seen_sampleRead : seen errors (sampleBlock c .read mem off).log =
    if hasFormat c PERF_FORMAT_GROUP then countErrors c (word64 mem off) else [] := by
  have hmove : ∀ length : ℤ, Always Silent
      (if (0 : ℤ) ≤ length then advance length else pure () : Parser Unit) := fun length => by
    split
    · exact always_advance length
    · exact always_pure ()
  show seen errors (sampleRead c mem off).log = _
  unfold sampleRead
  rw [seen_after (print_silent _ _ _) ((Printing.prints_print _ _ _).exit mem off),
    seen_before _ hmove]
  simp only [Prog.subview, seen_shift]
  rw [seen_handleStructReadFormat, word64_view, Int.add_zero]

/-- Each entry of a branch stack is compared by its source. -/
theorem seen_branchEntry (i : ℕ) : seen errors (branchEntry c i mem off).log =
    branchErrors c (word64 mem off) := by
  have hflags : ∀ flags, Always Silent (branchFlags flags) :=
    always_branchFlags (silent_permits _)
  have hrest : ∀ source : BitVec 64, ∀ _ : Unit, Always Silent (do
      let target ← load64 0
      advance 8
      unlessQuiet c (fprintf (.field .branchStack) "\t\t lbr[%d]: %llx %llx "
        [.index i, .long source, .long target])
      let flags ← load64 0
      advance 8
      unlessQuiet c (branchFlags flags)) := fun _ _ =>
    (always_load64 0).bind fun _ => (always_advance 8).bind fun _ =>
      (print_silent _ _ _).bind fun _ =>
      (always_load64 0).bind fun _ => (always_advance 8).bind fun _ => always_unlessQuiet (hflags _)
  unfold branchEntry
  rw [seen_after (always_load64 0) (exit_load64 0 mem off),
    seen_after (always_advance 8) (exit_advance 8 mem off), seen_before _ (hrest _),
    seen_checkBranch, Int.add_zero]

theorem seen_sampleBranchStack (hcount : countAt mem off ≤ intMax) :
    seen errors (sampleBlock c .branchStack mem off).log =
      (List.range (countAt mem off).toNat).flatMap fun i : ℕ =>
        branchErrors c (word64 mem (moved 64 off (8 + 24 * i))) := by
  have hloop : intLoop 1 (countAt mem off) (branchEntry c) =
      repeatFrom 0 (countAt mem off).toNat (branchEntry c) := by
    unfold intLoop
    simp only [Nat.add_sub_cancel, Nat.div_one, Nat.mul_one]
    exact if_pos (by omega)
  have hexit : ∀ i : ℕ, (branchEntry c i mem (moved 64 off (8 + 24 * i))).exit =
      some ((), moved 64 off (8 + 24 * (i + 1 : ℕ))) := fun i => by
    rw [exit_branchEntry, moved_moved]
    push_cast
    ring_nf
  show seen errors (sampleBranchStack c mem off).log = _
  unfold sampleBranchStack
  rw [seen_after (always_load64 0) (exit_load64 0 mem off),
    seen_after (print_silent _ _ _) ((Printing.prints_print _ _ _).exit mem off),
    seen_after (always_advance 8) (exit_advance 8 mem off), Int.add_zero]
  show seen errors (intLoop 1 (countAt mem off) (branchEntry c) mem (moved 64 off 8)).log = _
  rw [hloop]
  have hall := seen_repeatFrom hexit (fun i => seen_branchEntry i) 0 (countAt mem off).toNat
  rw [List.range_eq_range']
  simpa using hall

/-- What a block says, as long as its loop ends. -/
theorem seen_sampleBlock (f : SampleField) (hlen : fieldLength c mem off f ≠ none) :
    seen errors (sampleBlock c f mem off).log = fieldErrors c mem off f := by
  by_cases hf : f ∈ comparedFields
  · simp only [comparedFields, List.mem_cons, List.not_mem_nil, or_false] at hf
    rcases hf with rfl | rfl | rfl
    · exact seen_sampleTid
    · exact seen_sampleRead
    · refine seen_sampleBranchStack ?_
      by_contra hover
      rw [fieldLength, if_neg hover] at hlen
      exact hlen rfl
  · rw [seen_nothing (always_sampleBlock f (silent_permitsBlock f hf))]
    cases f with
    | tid | read | branchStack => exact absurd (by decide) hf
    | _ => rfl

theorem seen_sampleBlocks (order : List SampleField) (hphys : .physAddr ∉ order)
    (hoff : wrap 64 off = off) (hends : fieldsNext c mem order off ≠ none) :
    seen errors (sampleBlocks c order mem off).log = fieldsErrors c mem order off := by
  induction order generalizing off with
  | nil => rfl
  | cons f rest ih =>
    obtain ⟨hf, hrest⟩ := not_or.mp (fun h => hphys (List.mem_cons.mpr h))
    rw [fieldsNext] at hends
    rw [sampleBlocks, fieldsErrors]
    cases hset : f.isSet c.sampleType with
    | false =>
      simp only [hset, Bool.false_eq_true, if_false] at hends ⊢
      rw [optionally, if_neg Bool.false_ne_true, seen_after (always_pure ()) (exit_pure () mem off)]
      exact ih hrest hoff hends
    | true =>
      simp only [hset, if_true] at hends ⊢
      cases hlen : fieldLength c mem off f with
      | none =>
        rw [hlen] at hends
        exact absurd rfl hends
      | some n =>
        have hblock := exit_sampleBlock (c := c) f (Ne.symm hf) mem off hoff
        rw [hlen] at hends hblock
        rw [optionally, if_pos rfl, seen_next hblock,
          seen_sampleBlock f (by rw [hlen]; exact Option.some_ne_none n),
          Option.elim_some, ih hrest (wrap_moved ..) hends]

/-- An iteration that ends says what its record deserves. -/
theorem seen_iteration (size start : ℤ) (hends : recordNext c size mem start ≠ none) :
    seen errors (iteration c size mem start).log = recordErrors c mem start := by
  have hheader : Always Silent (printHeader c start (word32 mem start)) :=
    always_printHeader (silent_permits _) start _
  rw [iteration, seen_after always_here (exit_here mem start),
    seen_after (always_peek32 start) (exit_peek32 start mem start),
    seen_after hheader (printHeader_stays start _ mem start),
    seen_after (always_advance 8) (exit_advance 8 mem start)]
  unfold recordErrors
  by_cases htype : RecordType.ofCode (word32 mem start) = some .sample
  · rw [if_pos htype, details, htype]
    rw [recordNext, htype] at hends
    exact seen_sampleBlocks blockOrder (by decide) (wrap_moved ..) hends
  · rw [if_neg htype, seen_nothing
      (always_details (silent_permits _) ⟨fun _ => rfl, rfl⟩ size start _ htype)]

/-- The trace of a loop keeps the errors of its iterations. -/
theorem errorsOf_trace {size : ℤ} {s t : LoopState} (hs : s.trace = [])
    (hreach : Reaches (inWindow size) (loopBody c size mem) s t) :
    errorsOf t.trace = (t.trace.map Prod.fst).map fun start =>
      (start, recordErrors c mem start) := by
  induction hreach with
  | refl =>
    rw [hs]
    rfl
  | tail hprev hlast ih =>
    rename_i u v
    obtain ⟨next, hnext, rfl⟩ := Option.map_eq_some_iff.mp hlast.2
    have hends : recordNext c size mem u.offset ≠ none := by
      intro hnone
      rw [exit_iteration, hnone] at hnext
      contradiction
    unfold errorsOf at ih ⊢
    simp only [List.map_append, ih, List.map_cons, List.map_nil, seen_iteration size u.offset hends]

/-- A call that ends has said on the standard error what the bytes of its window
deserve: this depends on what is compared, and how, and on nothing that is only printed. -/
theorem errors_exact (pageSize mmapSize prevHead : ℤ) (m : Mapping) (c c' : Config)
    (hchecks : SameChecks c c') (eventsRead : Option ℕ) (data : Memory) (fuel : ℕ) (r : Finished)
    (hrun : perfMmapRead pageSize (some m) mmapSize prevHead c eventsRead true data fuel =
      some (.finished r)) :
    errorsOf r.loop.trace =
      (parsed r).offsets.map fun start => (start, recordErrors c' r.window start) := by
  obtain ⟨_, t, hloop, rfl⟩ := finished_loop hrun
  have htrace := errorsOf_trace rfl (loop_reaches fuel _ _ hloop).1
  simp only [recordErrors_options hchecks] at htrace
  exact htrace

def pidConfig (quiet : Bool) : Config where
  arch := .x86_64
  sampleType := 0x2
  readFormat := 0
  regMask := 0
  validate := some ⟨5, 8, 0, 0, 0⟩
  quiet := quiet
  rawType := RAW_NONE
  heap := fun _ => 0

def strangerRing : Mapping where
  dataHead := 16
  dataTail := 0
  ring := overlay (headerBytes 9 0 16 ++ le32 7 ++ le32 8) fun _ => 0

theorem errors_exact_stranger : ∃ r,
    perfMmapRead 4096 (some strangerRing) 1 0 (pidConfig true) none true (fun _ => 0) 1 =
      some (.finished r) ∧
    errorsOf r.loop.trace = [(0, [("Error, pid %d != %d\n", [.int 5, .int 7])])] := by
  have hsize : windowSize (readHead strangerRing) 0 = 16 := by decide
  have hnext : recordNext (pidConfig true) 16 (windowData 4096 strangerRing 1 0 fun _ => 0) 0 =
      some 16 := by decide +kernel
  have hbody := loopBody_next (pidConfig true) 16 (windowData 4096 strangerRing 1 0 fun _ => 0)
    (loopStart none)
  rw [show (loopStart none).offset = 0 from rfl, hnext, Option.map_some] at hbody
  have hloop : recordLoop (pidConfig true) 16 (windowData 4096 strangerRing 1 0 fun _ => 0) 1
      (loopStart none) = some _ := (loop_step 0 ⟨by decide, hbody⟩).trans
        (loop_done 0 _ (by decide))
  rw [← hsize] at hloop
  have hrun := perfMmapRead_finished (by decide) hloop
  refine ⟨_, hrun, ?_⟩
  rw [errors_exact 4096 1 0 strangerRing (pidConfig true) (pidConfig false)
    ⟨⟨rfl, rfl, rfl⟩, rfl, rfl⟩ none (fun _ => 0) 1 _ hrun]
  show [((0 : ℤ),
    recordErrors (pidConfig false) (windowData 4096 strangerRing 1 0 fun _ => 0) 0)] = _
  decide +kernel

end PapiSample.Validation
