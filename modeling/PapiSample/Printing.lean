import PapiSample.RecordLoop

/-!
The parts of the record loop that only print: they leave the cursor alone, load
nothing from the data and allocate nothing.
-/
namespace PapiSample.Printing

open Bytes Cursor Cursor.Prog PerfEvent ParseRecord SampleFields RecordLoop

variable {c : Config}

/-- Neither a load from the data nor an allocation or its failure. -/
def Harmless : Event Out → Prop
  | .load _ _ => False
  | .emit (.alloc _) | .emit .killed => False
  | .emit _ => True

structure Prints (q : Parser Unit) : Prop where
  exit : ∀ mem off, (q mem off).exit = some ((), off)
  harmless : ∀ mem off, ∀ e ∈ (q mem off).log, Harmless e

theorem prints_pure : Prints (pure ()) where
  exit := fun _ _ => rfl
  harmless := fun _ _ _ he => absurd he List.not_mem_nil

theorem prints_emit (o : Out) (ho : Harmless (.emit o)) : Prints (emit o) where
  exit := fun _ _ => rfl
  harmless := fun _ _ _ he => List.mem_singleton.mp he ▸ ho

theorem Prints.bind {q q' : Parser Unit} (h : Prints q) (h' : Prints q') :
    Prints (q >>= fun _ => q') where
  exit := fun mem off => by rw [exit_bind, h.exit, Option.bind_some, h'.exit]
  harmless := fun mem off e he => by
    rw [bind_of_exit _ _ _ _ _ _ (h.exit mem off)] at he
    rcases List.mem_append.mp he with hq | hq'
    · exact h.harmless mem off e hq
    · exact h'.harmless mem off e hq'

theorem prints_fprintf (site : Site) (format : String) (args : List Arg) :
    Prints (fprintf site format args) := prints_emit _ trivial

theorem prints_printf (site : Site) (format : String) (args : List Arg) :
    Prints (printf site format args) := prints_emit _ trivial

theorem prints_complain (site : Site) (format : String) (args : List Arg) :
    Prints (complain site format args) := prints_emit _ trivial

theorem prints_optionally (b : Bool) {q : Parser Unit} (h : Prints q) :
    Prints (optionally b q) := by
  cases b
  · exact prints_pure
  · exact h

theorem prints_unlessQuiet {q : Parser Unit} (h : Prints q) : Prints (unlessQuiet c q) := by
  unfold unlessQuiet
  cases c.quiet with
  | true => exact prints_pure
  | false => exact h

theorem prints_print (site : Site) (format : String) (args : List Arg) :
    Prints (unlessQuiet c (fprintf site format args)) :=
  prints_unlessQuiet (prints_fprintf site format args)

theorem prints_forM {ι : Type} (items : List ι) {q : ι → Parser Unit} (h : ∀ x, Prints (q x)) :
    Prints (items.forM q) := by
  induction items with
  | nil => exact prints_pure
  | cons x rest ih => exact (h x).bind ih

theorem prints_repeatFrom {body : ℕ → Parser Unit} (h : ∀ i, Prints (body i)) (i n : ℕ) :
    Prints (repeatFrom i n body) := by
  induction n generalizing i with
  | zero => exact prints_pure
  | succ n ih => exact (h i).bind (ih (i + 1))

/-- A check that complains when it fails. -/
theorem prints_validation {check : ValidateValues → Bool} (site : Site) (format : String)
    (args : ValidateValues → List Arg) (validate : Option ValidateValues) :
    Prints (match validate with
      | none => pure ()
      | some v => optionally (check v) (complain site format (args v))) := by
  cases validate with
  | none => exact prints_pure
  | some v => exact prints_optionally _ (prints_complain _ _ _)

theorem checkPid_prints (pid : BitVec 32) : Prints (checkPid c pid) :=
  prints_validation _ _ _ c.validate

theorem checkBranch_prints (source : BitVec 64) : Prints (checkBranch c source) :=
  prints_validation _ _ _ c.validate

theorem checkEvents_prints (nr : BitVec 64) : Prints (checkEvents c nr) :=
  prints_validation _ _ _ c.validate

theorem branchFlags_prints (flags : BitVec 64) : Prints (branchFlags flags) := by
  have htext := prints_fprintf (.field .branchStack)
  exact (prints_optionally _ (htext _ _)).bind ((prints_optionally _ (htext _ _)).bind
    ((prints_optionally _ (htext _ _)).bind ((prints_optionally _ (htext _ _)).bind
      ((prints_optionally _ (htext _ _)).bind (htext _ _)))))

theorem printAbi_prints (site : Site) (abi : BitVec 64) : Prints (printAbi site abi) :=
  (prints_optionally _ (prints_printf _ _ _)).bind
    ((prints_optionally _ (prints_fprintf _ _ _)).bind
      (prints_optionally _ (prints_fprintf _ _ _)))

theorem regName_prints (site : Site) (i : ℕ) : Prints (regName c site i) := by
  unfold regName
  cases (regNames c.arch)[i]? with
  | none => exact prints_fprintf _ _ _
  | some reg => exact prints_fprintf _ _ _

theorem stackWord_prints (stackData : List Byte) (size : ℤ) (i : ℕ) :
    Prints (stackWord c stackData size i) :=
  prints_unlessQuiet ((prints_emit (.heapLoad (4 * (4 * i)) 4 size) trivial).bind
    (prints_fprintf _ _ _))

theorem printDataSrc_prints (src : BitVec 64) : Prints (printDataSrc src) :=
  (prints_optionally _ (prints_fprintf _ _ _)).bind
    (prints_forM _ fun _ => prints_optionally _ (prints_fprintf _ _ _))

theorem printFlags_prints (word : BitVec 64) (lines : List (String × ℕ)) :
    Prints (printFlags word lines) := prints_forM _ fun _ => prints_printf _ _ _

theorem auxFlags_prints (flags : BitVec 64) : Prints (auxFlags flags) :=
  (prints_fprintf _ _ _).bind ((prints_optionally _ (prints_fprintf _ _ _)).bind
    ((prints_optionally _ (prints_fprintf _ _ _)).bind (prints_fprintf _ _ _)))

end PapiSample.Printing
