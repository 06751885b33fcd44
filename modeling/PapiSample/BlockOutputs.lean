import PapiSample.Emissions
import PapiSample.SampleDecoding

/-!
What the blocks of a sample put out. A block prints to the log at the site of its
field. Apart from that there are the errors that a comparison finds, the dumps of raw
data and the name of no ABI, and the allocation and the loads of a copied stack. What
holds of all that a block can put out holds of all that it does put out.
-/
namespace PapiSample.BlockOutputs

open Bytes Cursor Cursor.Prog PerfEvent ParseRecord SampleFields SampleDecoding Emissions

variable {c : Config} {ok : Out → Prop} {site : Site}

theorem always_optionally (b : Bool) {q : Parser Unit} (h : Always ok q) :
    Always ok (optionally b q) := by
  cases b with
  | false => exact always_pure ()
  | true => exact h

theorem always_unlessQuiet {q : Parser Unit} (h : Always ok q) : Always ok (unlessQuiet c q) := by
  unfold unlessQuiet
  cases c.quiet with
  | true => exact always_pure ()
  | false => exact h

theorem always_advance (n : ℤ) : Always ok (advance n) := always_skip 64 n

/-- Whatever is printed to the log at a site is good. -/
def Permits (ok : Out → Prop) (site : Site) : Prop :=
  ∀ format args, ok (.printed site .fp format args)

def PermitsError (c : Config) (ok : Out → Prop) (site : Site) (format : String) : Prop :=
  c.validate ≠ none → ∀ args, ok (.printed site .stderr format args)

structure PermitsCopy (ok : Out → Prop) : Prop where
  alloc : ∀ n, ok (.alloc n)
  killed : ok .killed

theorem always_copyOut (h : PermitsCopy ok) (n : ℤ) : Always ok (copyOut n) := by
  refine (always_emit (h.alloc n)).bind fun _ => ?_
  split
  · exact (always_emit h.killed).bind fun _ => always_stuck
  · exact always_copy n

section Texts
variable (h : Permits ok site)
include h

theorem always_fprintf (format : String) (args : List Arg) : Always ok (fprintf site format args) :=
  always_emit (h format args)

theorem always_print (format : String) (args : List Arg) :
    Always ok (unlessQuiet c (fprintf site format args)) :=
  always_unlessQuiet (always_fprintf h format args)

theorem always_label (b : Bool) (format : String) :
    Always ok (optionally b (fprintf site format [])) :=
  always_optionally b (always_fprintf h format [])

theorem always_intField (format : String) : Always ok (intField c site format) :=
  (always_load32 0).bind fun _ => (always_print h _ _).bind fun _ => always_advance 4

theorem always_longField (format : String) : Always ok (longField c site format) :=
  (always_load64 0).bind fun _ => (always_print h _ _).bind fun _ => always_advance 8

end Texts

/-- A comparison puts out its own error only. -/
theorem always_compared {format : String} (h : PermitsError c ok site format)
    (check : ValidateValues → Bool) (args : ValidateValues → List Arg) :
    Always ok (match c.validate with
      | none => pure ()
      | some v => optionally (check v) (complain site format (args v))) := by
  cases hvalidate : c.validate with
  | none => exact always_pure ()
  | some v =>
    apply always_optionally
    exact always_emit (h (by rw [hvalidate]; exact Option.some_ne_none v) _)

theorem always_intPair (f : SampleField) (h : Permits ok (.field f)) (format : String)
    {check : BitVec 32 → Parser Unit} (hcheck : ∀ v, Always ok (check v)) :
    Always ok (intPair c f format check) :=
  (always_load32 0).bind fun first => (always_load32 4).bind fun _ => (hcheck first).bind fun _ =>
    (always_print h _ _).bind fun _ => always_advance 8

/-- The texts of a register block, the name of no ABI apart. -/
def PermitsNamed (ok : Out → Prop) (site : Site) : Prop :=
  ∀ format args, format ≠ abiText .none → ok (.printed site .fp format args)

theorem Permits.named (h : Permits ok site) : PermitsNamed ok site := fun format args _ =>
  h format args

section Registers
variable (h : PermitsNamed ok site)
include h

theorem always_named (format : String) (args : List Arg) (hformat : format ≠ abiText .none) :
    Always ok (fprintf site format args) := always_emit (h format args hformat)

theorem always_printReg (i : ℕ) : Always ok (printReg c site i) := by
  have hname : Always ok (regName c site i) := by
    unfold regName
    cases (regNames c.arch)[i]? with
    | none => exact always_named h _ _ (by decide)
    | some reg => exact always_named h _ _ (by decide)
  have hshow : Always ok (showReg c site i) :=
    (always_load64 0).bind fun _ => hname.bind fun _ => always_named h _ _ (by decide)
  exact always_optionally _ ((always_unlessQuiet hshow).bind fun _ => always_skip 32 8)

theorem always_printRegs : Always ok (printRegs c site) :=
  (always_unlessQuiet (always_named h _ _ (by decide))).bind fun _ =>
    Always.repeatFrom (always_printReg h) 0 64

theorem always_printAbi (hnone : ok (.printed site .stdout (abiText .none) [])) (abi : BitVec 64) :
    Always ok (printAbi site abi) :=
  (always_optionally _ (always_emit hnone)).bind fun _ =>
    (always_optionally _ (always_named h _ _ (by decide))).bind fun _ =>
      always_optionally _ (always_named h _ _ (by decide))

theorem always_sampleRegs (hnone : ok (.printed site .stdout (abiText .none) [])) (title : String)
    (htitle : title ≠ abiText .none) : Always ok (sampleRegs c site title) := by
  have hline := always_named h "\n" [] (by decide)
  have hhead : ∀ abi, Always ok (unlessQuiet c do
      fprintf site title []
      printAbi site abi
      fprintf site "\n" []) := fun abi =>
    always_unlessQuiet ((always_named h _ _ htitle).bind fun _ =>
      (always_printAbi h hnone abi).bind fun _ => hline)
  exact (always_load64 0).bind fun abi => (hhead abi).bind fun _ => (always_advance 8).bind fun _ =>
    (Always.subview (always_printRegs h)).bind fun _ => (always_advance _).bind fun _ =>
      always_unlessQuiet hline

end Registers

section Dumps
variable (h : ∀ format args, ok (.printed (.field .raw) .stdout format args))
include h

theorem always_printf (format : String) (args : List Arg) :
    Always ok (printf (.field .raw) format args) := always_emit (h format args)

theorem always_printFlags (word : BitVec 64) (lines : List (String × ℕ)) :
    Always ok (printFlags word lines) := Always.forM lines fun _ => always_printf h _ _

theorem always_optionalMsr (b : Bool) (k : ℕ) (format : String) :
    Always ok (optionally b do
      let v ← loadMsr k
      printf (.field .raw) format [.long v]) :=
  always_optionally b ((always_load64 _).bind fun _ => always_printf h _ _)

theorem always_dumpRawIbsFetch (size : ℤ) : Always ok (dumpRawIbsFetch size) := by
  have hprint := always_printf h
  have hflags := always_printFlags h
  refine (always_load32 0).bind fun _ => (hprint _ _).bind fun _ => ?_
  refine (always_load64 _).bind fun control => (hprint _ _).bind fun _ => ?_
  refine (hflags _ _).bind fun _ => (hprint _ _).bind fun _ => (hprint _ _).bind fun _ => ?_
  refine (hflags _ _).bind fun _ => (hprint _ _).bind fun _ => (hprint _ _).bind fun _ => ?_
  refine (hprint _ _).bind fun _ => (always_load64 _).bind fun _ => (hprint _ _).bind fun _ => ?_
  refine (always_load64 _).bind fun _ => (hprint _ _).bind fun _ => ?_
  exact always_optionalMsr h _ 3 _

theorem always_dumpRawIbsOp (size : ℤ) : Always ok (dumpRawIbsOp size) := by
  have hprint := always_printf h
  have hflags := always_printFlags h
  have hmsr := always_optionalMsr h
  refine (always_load32 0).bind fun _ => (hprint _ _).bind fun _ => ?_
  refine (always_load64 _).bind fun control => (hprint _ _).bind fun _ =>
    (hprint _ _).bind fun _ => ?_
  refine (hflags _ _).bind fun _ => (hprint _ _).bind fun _ => ?_
  refine (always_load64 _).bind fun _ => (hprint _ _).bind fun _ => ?_
  refine (always_load64 _).bind fun opData => (hprint _ _).bind fun _ => ?_
  refine (hflags _ _).bind fun _ => (hprint _ _).bind fun _ => (hprint _ _).bind fun _ => ?_
  refine (always_load64 _).bind fun opData2 => (hprint _ _).bind fun _ =>
    (hprint _ _).bind fun _ => ?_
  refine (hprint _ _).bind fun _ => (hprint _ _).bind fun _ => (hprint _ _).bind fun _ => ?_
  refine (always_load64 _).bind fun opData3 => (hprint _ _).bind fun _ =>
    (hprint _ _).bind fun _ => ?_
  refine (hflags _ _).bind fun _ => (hmsr _ 5 _).bind fun _ => ?_
  exact (hmsr _ 6 _).bind fun _ => hmsr _ 7 _

end Dumps

/-- The raw payload is printed byte by byte, or by a dump to the standard output. -/
structure PermitsRaw (c : Config) (ok : Out → Prop) : Prop where
  texts : Permits ok (.field .raw)
  dumps : ¬ PlainRaw c → ∀ format args, ok (.printed (.field .raw) .stdout format args)

theorem always_rawPayload (h : PermitsRaw c ok) (size : ℤ) : Always ok (rawPayload c size) := by
  have hbyte : ∀ i, Always ok (rawByte i) := fun i =>
    (always_loadByte i).bind fun _ => always_fprintf h.texts _ _
  unfold rawPayload
  by_cases hfetch : c.rawType = RAW_IBS_FETCH
  · rw [if_pos hfetch]
    exact always_dumpRawIbsFetch (h.dumps fun hplain => hplain.1 hfetch) size
  · rw [if_neg hfetch]
    by_cases hop : c.rawType = RAW_IBS_OP
    · rw [if_pos hop]
      exact always_dumpRawIbsOp (h.dumps fun hplain => hplain.2 hop) size
    · rw [if_neg hop]
      exact (always_fprintf h.texts _ _).bind fun _ => (Always.intLoop hbyte 1 size).bind fun _ =>
        always_fprintf h.texts _ _

theorem always_sampleRaw (h : PermitsRaw c ok) : Always ok (sampleRaw c) :=
  (always_load32 0).bind fun _ => (always_print h.texts _ _).bind fun _ =>
    (always_advance 4).bind fun _ => (always_unlessQuiet (always_rawPayload h _)).bind fun _ =>
      always_advance _

structure PermitsRead (c : Config) (ok : Out → Prop) : Prop where
  texts : Permits ok (.field .read)
  number : PermitsError c ok (.field .read) "Error!  Wrong number of events %d != %lld\n"

theorem always_readWord (h : Permits ok (.field .read)) (format : String) :
    Always ok (readWord c format) :=
  (always_load64 0).bind fun _ => (always_print h _ _).bind fun _ => always_skip 32 8

theorem always_groupEntry (h : Permits ok (.field .read)) (i : ℕ) : Always ok (groupEntry c i) :=
  (always_readWord h _).bind fun _ => (always_optionally _ (always_readWord h _)).bind fun _ =>
    always_print h _ _

theorem always_handleStructReadFormat (h : PermitsRead c ok) :
    Always ok (handleStructReadFormat c) := by
  have hword := always_readWord (c := c) h.texts
  have hflag : ∀ flag format, Always ok (optionally (hasFormat c flag) (readWord c format)) :=
    fun flag format => always_optionally _ (hword format)
  unfold handleStructReadFormat
  split
  · refine (always_load64 0).bind fun nr => (always_print h.texts _ _).bind fun _ => ?_
    refine (always_skip 32 8).bind fun _ => (always_compared h.number _ _).bind fun _ => ?_
    exact (hflag _ _).bind fun _ => (hflag _ _).bind fun _ =>
      (always_print h.texts _ _).bind fun _ =>
      Always.intLoop (always_groupEntry h.texts) 1 _
  · exact (hword _).bind fun _ => (hflag _ _).bind fun _ => (hflag _ _).bind fun _ =>
      (hflag _ _).bind fun _ => always_print h.texts _ _

theorem always_sampleRead (h : PermitsRead c ok) : Always ok (sampleRead c) := by
  refine (always_print h.texts _ _).bind fun _ => ?_
  refine (Always.subview (always_handleStructReadFormat h)).bind fun length => ?_
  split
  · exact always_advance length
  · exact always_pure ()

theorem always_sampleCallchain (h : Permits ok (.field .callchain)) :
    Always ok (sampleCallchain c) := by
  have hentry : ∀ i, Always ok (callchainEntry c i) := fun _ =>
    (always_load64 0).bind fun _ => (always_print h _ _).bind fun _ => always_advance 8
  exact (always_load64 0).bind fun _ => (always_print h _ _).bind fun _ =>
    (always_advance 8).bind fun _ => Always.intLoop hentry 1 _

structure PermitsBranches (c : Config) (ok : Out → Prop) : Prop where
  texts : Permits ok (.field .branchStack)
  sources : PermitsError c ok (.field .branchStack) "Error! branch out of bounds!\n"

theorem always_branchFlags (h : Permits ok (.field .branchStack)) (flags : BitVec 64) :
    Always ok (branchFlags flags) := by
  refine (always_label h _ _).bind fun _ => (always_label h _ _).bind fun _ => ?_
  refine (always_label h _ _).bind fun _ => (always_label h _ _).bind fun _ => ?_
  exact (always_label h _ _).bind fun _ => always_fprintf h _ _

theorem always_branchEntry (h : PermitsBranches c ok) (i : ℕ) : Always ok (branchEntry c i) := by
  refine (always_load64 0).bind fun _ => (always_advance 8).bind fun _ => ?_
  refine (always_compared h.sources _ _).bind fun _ => (always_load64 0).bind fun _ => ?_
  refine (always_advance 8).bind fun _ => (always_print h.texts _ _).bind fun _ => ?_
  exact (always_load64 0).bind fun flags => (always_advance 8).bind fun _ =>
    always_unlessQuiet (always_branchFlags h.texts flags)

theorem always_sampleBranchStack (h : PermitsBranches c ok) : Always ok (sampleBranchStack c) :=
  (always_load64 0).bind fun _ => (always_print h.texts _ _).bind fun _ =>
    (always_advance 8).bind fun _ => Always.intLoop (always_branchEntry h) 1 _

theorem always_sampleDataSrc (h : Permits ok (.field .dataSrc)) : Always ok (sampleDataSrc c) := by
  have hlabels : ∀ src, Always ok (printDataSrc src) := fun src =>
    (always_label h _ _).bind fun _ => Always.forM memLabels fun _ => always_label h _ _
  exact (always_load64 0).bind fun src => (always_print h _ _).bind fun _ =>
    (always_advance 8).bind fun _ => (always_unlessQuiet (hlabels src)).bind fun _ =>
      always_print h _ _

structure PermitsStack (ok : Out → Prop) : Prop extends PermitsCopy ok where
  texts : Permits ok (.field .stackUser)
  words : Permits ok .stackWords
  heapLoad : ∀ pos len size, ok (.heapLoad pos len size)

theorem always_stackTail (htexts : Permits ok (.field .stackUser)) (hwords : Permits ok .stackWords)
    (hloads : ∀ pos len size, ok (.heapLoad pos len size)) (stackData : List Byte) (size : ℤ) :
    Always ok (stackTail c stackData size) := by
  have hword : ∀ i, Always ok (stackWord c stackData size i) := fun _ =>
    always_unlessQuiet ((always_emit (hloads _ _ _)).bind fun _ => always_fprintf hwords _ _)
  exact (always_load64 0).bind fun _ => (always_print htexts _ _).bind fun _ =>
    (always_advance 8).bind fun _ => (always_print htexts _ _).bind fun _ =>
      (Always.intLoop hword 4 _).bind fun _ => always_print htexts _ _

theorem always_sampleStackUser (h : PermitsStack ok) : Always ok (sampleStackUser c) :=
  (always_load64 0).bind fun _ => (always_print h.texts _ _).bind fun _ =>
    (always_advance 8).bind fun _ => (always_copyOut h.toPermitsCopy _).bind fun _ =>
      (always_advance _).bind fun _ => always_stackTail h.texts h.words h.heapLoad _ _

theorem always_sampleWord (f : SampleField) (h : Permits ok (.field f)) (format : String) :
    Always ok (sampleWord c f format) :=
  (always_longField h format).bind fun _ => always_print h _ _

def PermitsBlock (c : Config) (ok : Out → Prop) : SampleField → Prop
  | .tid => Permits ok (.field .tid) ∧ PermitsError c ok (.field .tid) "Error, pid %d != %d\n"
  | .read => PermitsRead c ok
  | .raw => PermitsRaw c ok
  | .branchStack => PermitsBranches c ok
  | .regsUser =>
      PermitsNamed ok (.field .regsUser) ∧
        ok (.printed (.field .regsUser) .stdout (abiText .none) [])
  | .regsIntr =>
      PermitsNamed ok (.field .regsIntr) ∧
        ok (.printed (.field .regsIntr) .stdout (abiText .none) [])
  | .stackUser => PermitsStack ok
  | f => Permits ok (.field f)

theorem always_sampleBlock (f : SampleField) (h : PermitsBlock c ok f) :
    Always ok (sampleBlock c f) := by
  cases f with
  | ip => exact always_longField h _
  | tid => exact always_intPair .tid h.1 _ fun _ => always_compared h.2 _ _
  | time => exact always_longField h _
  | addr => exact always_longField h _
  | id => exact always_longField h _
  | streamId => exact always_longField h _
  | cpu => exact always_intPair .cpu h _ fun _ => always_pure ()
  | period => exact always_longField h _
  | read => exact always_sampleRead h
  | callchain => exact always_sampleCallchain h
  | raw => exact always_sampleRaw h
  | branchStack => exact always_sampleBranchStack h
  | regsUser => exact always_sampleRegs h.1 h.2 _ (by decide)
  | regsIntr => exact always_sampleRegs h.1 h.2 _ (by decide)
  | stackUser => exact always_sampleStackUser h
  | weight => exact always_sampleWord .weight h _
  | dataSrc => exact always_sampleDataSrc h
  | identifier => exact always_sampleWord .identifier h _
  | transaction => exact always_sampleWord .transaction h _
  | physAddr => exact always_pure ()

theorem always_sampleBlocks (order : List SampleField)
    (h : ∀ f ∈ requested c order, PermitsBlock c ok f) : Always ok (sampleBlocks c order) := by
  induction order with
  | nil => exact always_pure ()
  | cons f rest ih =>
    unfold sampleBlocks
    rw [requested_cons] at h
    cases hset : f.isSet c.sampleType with
    | false =>
      simp only [hset, Bool.false_eq_true, if_false] at h
      exact (always_pure ()).bind fun _ => ih h
    | true =>
      simp only [hset, if_true] at h
      exact (always_sampleBlock f (h f List.mem_cons_self)).bind fun _ =>
        ih fun g hg => h g (List.mem_cons_of_mem f hg)

end PapiSample.BlockOutputs
