import PapiSample.RecordOutputs

/-!
Where the report of a record goes. Every print call of the record loop writes to the
log, apart from the errors that a comparison with `validate` finds, and apart from
the two calls that name the ABI of a register block without registers.
-/
namespace PapiSample.LogStreams

open Bytes Cursor Cursor.Prog PerfEvent ParseRecord SampleFields RecordLoop Advance RecordAdvance
  Emissions SampleDecoding BlockOutputs RecordOutputs

variable {c : Config} {mem : Memory}

def comparisonErrors : List String :=
  ["Error, pid %d != %d\n", "Error! branch out of bounds!\n",
    "Error!  Wrong number of events %d != %lld\n"]

/-- A text goes to `fp`; an error found by a comparison that the caller has asked for
goes to the standard error. -/
def InLog (c : Config) : Out → Prop
  | .printed _ stream format _ =>
      stream = .fp ∨ stream = .stderr ∧ c.validate ≠ none ∧ format ∈ comparisonErrors
  | .alloc _ | .heapLoad _ _ _ | .killed => True

theorem inLog_permits (site : Site) : Permits (InLog c) site := fun _ _ => Or.inl rfl

theorem inLog_permitsError {format : String} (hformat : format ∈ comparisonErrors) (site : Site) :
    PermitsError c (InLog c) site format := fun hsome _ => Or.inr ⟨rfl, hsome, hformat⟩

theorem inLog_permitsCopy : PermitsCopy (InLog c) := ⟨fun _ => trivial, trivial⟩

/-- The blocks that begin with the ABI of their registers. -/
def registerBlocks : List SampleField := [.regsUser, .regsIntr]

/-- The other blocks keep to the log; without a raw type a payload is printed byte by
byte. -/
theorem inLog_permitsBlock (hraw : c.rawType = RAW_NONE) (f : SampleField)
    (hf : f ∉ registerBlocks) : PermitsBlock c (InLog c) f := by
  have hplain : PlainRaw c := plainRaw_of_none hraw
  cases f with
  | tid => exact ⟨inLog_permits _, inLog_permitsError (by decide) _⟩
  | read => exact ⟨inLog_permits _, inLog_permitsError (by decide) _⟩
  | raw => exact ⟨inLog_permits _, fun hdump => absurd hplain hdump⟩
  | branchStack => exact ⟨inLog_permits _, inLog_permitsError (by decide) _⟩
  | regsUser => exact absurd (by decide) hf
  | regsIntr => exact absurd (by decide) hf
  | stackUser =>
    exact ⟨inLog_permitsCopy, inLog_permits _, inLog_permits _, fun _ _ _ => trivial⟩
  | _ => exact inLog_permits _

theorem printf_notInLog (site : Site) (format : String) (args : List Arg) (off : ℤ) :
    ¬Emits (InLog c) (printf site format args) mem off := by
  unfold printf
  rw [emits_emit, InLog]
  rintro (hfp | ⟨herr, _⟩)
  · contradiction
  · contradiction

def AbiNamed (mem : Memory) (off : ℤ) (f : SampleField) : Prop :=
  f ∈ registerBlocks → word64 mem off ≠ RegsAbi.none.word

theorem printAbi_inLog_iff (site : Site) (abi : BitVec 64) (off : ℤ) :
    Emits (InLog c) (printAbi site abi) mem off ↔ abi ≠ RegsAbi.none.word := by
  have hothers : ∀ _ : Unit, Always (InLog c) (do
      optionally (abi == RegsAbi.abi32.word) (fprintf site (abiText .abi32) [])
      optionally (abi == RegsAbi.abi64.word) (fprintf site (abiText .abi64) [])) := fun _ =>
    (always_label (inLog_permits site) _ _).bind fun _ => always_label (inLog_permits site) _ _
  unfold printAbi
  rw [emits_before hothers]
  by_cases habi : abi = RegsAbi.none.word
  · rw [habi]
    exact iff_of_false (printf_notInLog _ _ _ off) (fun h => h rfl)
  · have hother : (abi == RegsAbi.none.word) = false := beq_eq_false_iff_ne.mpr habi
    rw [hother]
    exact iff_of_true (always_pure () mem off) habi

/-- A register block stays in the log exactly when it has an ABI. -/
theorem sampleRegs_inLog_iff (hquiet : c.quiet = false) (site : Site) (title : String) (off : ℤ) :
    Emits (InLog c) (sampleRegs c site title) mem off ↔ word64 mem off ≠ RegsAbi.none.word := by
  have hsite := inLog_permits (c := c) site
  have hbreak : ∀ _ : Unit, Always (InLog c) (fprintf site "\n" []) := fun _ =>
    always_fprintf hsite _ _
  have hregs : ∀ _ : Unit, Always (InLog c) (do
      advance 8
      let length ← subview (printRegs c site)
      advance length
      unlessQuiet c (fprintf site "\n" [])) := fun _ =>
    (always_advance 8).bind fun _ => (Always.subview (always_printRegs hsite.named)).bind
      fun length => (always_advance length).bind fun _ => always_unlessQuiet (hbreak ())
  unfold sampleRegs
  rw [emits_after (always_load64 0) (exit_load64 0 mem off), emits_before hregs, Int.add_zero]
  unfold unlessQuiet
  rw [hquiet, if_neg Bool.false_ne_true,
    emits_after (always_fprintf hsite title []) (exit_emit _ mem off), emits_before hbreak]
  exact printAbi_inLog_iff site _ off

/-- Only a register block can leave the log. -/
theorem sampleBlock_inLog_iff (hquiet : c.quiet = false) (hraw : c.rawType = RAW_NONE)
    (f : SampleField) (off : ℤ) :
    Emits (InLog c) (sampleBlock c f) mem off ↔ AbiNamed mem off f := by
  by_cases hf : f ∈ registerBlocks
  · rw [AbiNamed, forall_prop_of_true hf]
    simp only [registerBlocks, List.mem_cons, List.not_mem_nil, or_false] at hf
    rcases hf with rfl | rfl
    · exact sampleRegs_inLog_iff hquiet _ _ off
    · exact sampleRegs_inLog_iff hquiet _ _ off
  · exact iff_of_true (always_sampleBlock f (inLog_permitsBlock hraw f hf) mem off)
      fun hmem => absurd hmem hf

def AbisNamed (c : Config) (mem : Memory) : List SampleField → ℤ → Prop :=
  EachField c mem (AbiNamed mem)

def RecordNamed (c : Config) (mem : Memory) (start : ℤ) : Prop :=
  RecordType.ofCode (word32 mem start) = some .sample →
    AbisNamed c mem blockOrder (moved 64 start 8)

/-- One iteration stays in the log exactly when its record names what it has to. -/
theorem iteration_inLog_iff (hquiet : c.quiet = false) (hraw : c.rawType = RAW_NONE)
    (size start : ℤ) :
    Emits (InLog c) (iteration c size) mem start ↔ RecordNamed c mem start := by
  rw [emits_iteration (inLog_permits _), RecordNamed]
  by_cases htype : RecordType.ofCode (word32 mem start) = some .sample
  · rw [forall_prop_of_true htype, details, htype]
    exact emits_sampleBlocks (fun f off => sampleBlock_inLog_iff hquiet hraw f off) blockOrder
      (by decide) (wrap_moved ..)
  · exact iff_of_true
      (always_details (inLog_permits _) inLog_permitsCopy size start _ htype mem _)
      fun h => absurd h htype

end PapiSample.LogStreams
