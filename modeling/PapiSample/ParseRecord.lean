import PapiSample.Cursor
import PapiSample.PerfEvent

/-!
parse_record.c: the helpers and the record cases of perf_mmap_read, each as a
cursor program. A printed text is kept with its call site, its stream, its
format and its arguments. `debug` is the constant zero of the source, so its
traces are left out. Lengths taken from the data move the cursor unchecked, as
they do in the source.
-/
namespace PapiSample.ParseRecord

open Bytes Cursor Cursor.Prog PerfEvent

inductive Stream
  | fp | stdout | stderr
  deriving DecidableEq, Repr

inductive Site
  | header | details | stackWords | field (f : SampleField)
  deriving DecidableEq, Repr

inductive Arg
  | int (v : BitVec 32)
  | long (v : BitVec 64)
  | str (s : List Byte)
  | name (s : String)
  | index (i : ℕ)
  deriving DecidableEq, Repr

/-- What a run does besides loading from the data buffer: print, allocate, load
from the block that holds the copied stack, and be killed. -/
inductive Out
  | printed (site : Site) (stream : Stream) (format : String) (args : List Arg)
  | alloc (len : ℤ)
  | heapLoad (pos len size : ℤ)
  | killed
  deriving DecidableEq, Repr

abbrev Parser := Prog Out

/-- On a platform with shorter ones, the low bits of the last two are the
`unsigned long`s. -/
structure ValidateValues where
  pid : BitVec 32
  tid : BitVec 32
  events : BitVec 32
  branchLow : BitVec 64
  branchHigh : BitVec 64

/-- The platform, as far as the parser depends on it; one without a table of
register names is taken to be a 64-bit one. -/
inductive Arch
  | x86_64 | i386 | arm | other
  deriving DecidableEq, Repr

def Arch.longBits : Arch → ℕ
  | .x86_64 | .other => 64
  | .i386 | .arm => 32

def regNames : Arch → List String
  | .x86_64 =>
      ["RAX", "RBX", "RCX", "RDX", "RSI", "RDI", "RBP", "RSP",
        "RIP", "RFLAGS", "CS", "SS", "DS", "ES", "FS", "GS",
        "R8", "R9", "R10", "R11", "R12", "R13", "R14", "R15"]
  | .i386 =>
      ["EAX", "EBX", "ECX", "EDX", "ESI", "EDI", "EBP", "ESP",
        "EIP", "EFLAGS", "CS", "SS", "DS", "ES", "FS", "GS"]
  | .arm =>
      ["R0", "R1", "R2", "R3", "R4", "R5", "R6", "R7",
        "R8", "R9", "R10", "FP", "IP", "SP", "LR", "PC"]
  | .other => []

def RAW_NONE : ℤ := 0
def RAW_IBS_FETCH : ℤ := 1
def RAW_IBS_OP : ℤ := 2

/-- The arguments of perf_mmap_read that steer the record loop. `heap` is what
lies behind the copy of a user stack, about which nothing is known. -/
structure Config where
  arch : Arch
  sampleType : BitVec 32
  readFormat : BitVec 32
  regMask : BitVec 64
  validate : Option ValidateValues
  quiet : Bool
  rawType : ℤ
  heap : Memory

def fprintf (site : Site) (format : String) (args : List Arg) : Parser Unit :=
  emit (.printed site .fp format args)

def printf (site : Site) (format : String) (args : List Arg) : Parser Unit :=
  emit (.printed site .stdout format args)

def complain (site : Site) (format : String) (args : List Arg) : Parser Unit :=
  emit (.printed site .stderr format args)

def unlessQuiet (c : Config) (p : Parser Unit) : Parser Unit :=
  if c.quiet then pure () else p

/-- `offset += n` on the cursor of perf_mmap_read, a `long long`. -/
def advance (n : ℤ) : Parser Unit := skip 64 n

def intField (c : Config) (site : Site) (format : String) : Parser Unit := do
  let v ← load32 0
  unlessQuiet c (fprintf site format [.int v])
  advance 4

def longField (c : Config) (site : Site) (format : String) : Parser Unit := do
  let v ← load64 0
  unlessQuiet c (fprintf site format [.long v])
  advance 8

def readWord (c : Config) (format : String) : Parser Unit := do
  let v ← load64 0
  unlessQuiet c (fprintf (.field .read) format [.long v])
  skip 32 8

/-- `malloc(n)` or `calloc(n,1)`, and the memcpy of the next `n` bytes to the block.
As a size_t a negative length is more than any block can have, so the allocation
fails, and the memcpy to the null pointer is the end of the process. -/
def copyOut (n : ℤ) : Parser (List Byte) := do
  emit (.alloc n)
  if n < 0 then do
    emit .killed
    stuck
  else copy n

def hasFormat (c : Config) (flag : BitVec 32) : Bool := c.readFormat &&& flag != 0

def optionally (b : Bool) (p : Parser Unit) : Parser Unit := if b then p else pure ()

def checkEvents (c : Config) (nr : BitVec 64) : Parser Unit :=
  match c.validate with
  | none => pure ()
  | some v =>
    optionally (v.events.toInt != nr.toInt)
      (complain (.field .read) "Error!  Wrong number of events %d != %lld\n"
        [.int v.events, .long nr])

def groupEntry (c : Config) (_ : ℕ) : Parser Unit := do
  readWord c "\t\t\tValue: %lld "
  optionally (hasFormat c PERF_FORMAT_ID) (readWord c "id: %lld ")
  unlessQuiet c (fprintf (.field .read) "\n" [])

/-- The cursor starts at zero and ends at the returned length. -/
def handleStructReadFormat (c : Config) : Parser Unit :=
  if hasFormat c PERF_FORMAT_GROUP then do
    let nr ← load64 0
    unlessQuiet c (fprintf (.field .read) "\t\tNumber: %lld " [.long nr])
    skip 32 8
    checkEvents c nr
    optionally (hasFormat c PERF_FORMAT_TOTAL_TIME_ENABLED) (readWord c "enabled: %lld ")
    optionally (hasFormat c PERF_FORMAT_TOTAL_TIME_RUNNING) (readWord c "running: %lld ")
    unlessQuiet c (fprintf (.field .read) "\n" [])
    intLoop 1 nr.toInt (groupEntry c)
  else do
    readWord c "\t\tValue: %lld "
    optionally (hasFormat c PERF_FORMAT_TOTAL_TIME_ENABLED) (readWord c "enabled: %lld ")
    optionally (hasFormat c PERF_FORMAT_TOTAL_TIME_RUNNING) (readWord c "running: %lld ")
    optionally (hasFormat c PERF_FORMAT_ID) (readWord c "id: %lld ")
    unlessQuiet c (fprintf (.field .read) "\n" [])

/-- The registers past `num_regs` have no name. -/
def regName (c : Config) (site : Site) (i : ℕ) : Parser Unit :=
  match (regNames c.arch)[i]? with
  | some reg => fprintf site "\t\t%s : " [.name reg]
  | none => fprintf site "\t\t??? : " []

def showReg (c : Config) (site : Site) (i : ℕ) : Parser Unit := do
  let regValue ← load64 0
  regName c site i
  fprintf site "%llx\n" [.long regValue]

def printReg (c : Config) (site : Site) (i : ℕ) : Parser Unit :=
  optionally (c.regMask.getLsbD i) do
    unlessQuiet c (showReg c site i)
    skip 32 8

def printRegs (c : Config) (site : Site) : Parser Unit := do
  unlessQuiet c (fprintf site "\t\tReg mask %llx\n" [.long c.regMask])
  repeatFrom 0 64 (printReg c site)

def flagArg (word : BitVec 64) (bit : ℕ) : Arg := .int (if word.getLsbD bit then 1 else 0)

def printFlags (word : BitVec 64) (lines : List (String × ℕ)) : Parser Unit :=
  lines.forM fun line => printf (.field .raw) line.1 [flagArg word line.2]

/-- `msrs[k]`, with `msrs` four bytes into the payload. -/
def loadMsr (k : ℕ) : Parser (BitVec 64) := load64 (4 + 8 * k)

def tlbPageSize : ℕ → String
  | 0 => "4kB\n"
  | 1 => "2MB\n"
  | 2 => "1GB\n"
  | _ => "Resreved\n"

def dumpRawIbsFetch (size : ℤ) : Parser Unit := do
  let leftover ← load32 0
  printf (.field .raw) "\t\tHeader: %x\n" [.int leftover]
  let control ← loadMsr 0
  printf (.field .raw) "\t\tMSR IBS_FETCH_CONTROL %llx\n" [.long control]
  printFlags control
    [("\t\t\tIBS_RAND_EN: %d\n", 57), ("\t\t\tL2 iTLB Miss: %d\n", 56),
      ("\t\t\tL1 iTLB Miss: %d\n", 55)]
  printf (.field .raw) "\t\t\tL1TLB page size: " []
  printf (.field .raw) (tlbPageSize ((control >>> 53) &&& 3).toNat) []
  printFlags control
    [("\t\t\tFetch Physical Address Valid: %d\n", 52), ("\t\t\ticache miss: %d\n", 51),
      ("\t\t\tInstruction Fetch Complete: %d\n", 50), ("\t\t\tInstruction Fetch Valid: %d\n", 49),
      ("\t\t\tInstruction Fetch Enabled: %d\n", 48)]
  printf (.field .raw) "\t\t\tInstruction Fetch Latency: %lld\n"
    [.long ((control >>> 32) &&& 0xffff)]
  printf (.field .raw) "\t\t\tInstruction Fetch Count: %lld\n"
    [.long (((control >>> 16) &&& 0xffff) <<< 4)]
  printf (.field .raw) "\t\t\tInstruction Fetch Max Count: %lld\n"
    [.long ((control &&& 0xffff) <<< 4)]
  let linear ← loadMsr 1
  printf (.field .raw) "\t\tMSR IBS_FETCH_LINEAR_ADDRESS %llx\n" [.long linear]
  let physical ← loadMsr 2
  printf (.field .raw) "\t\tMSR IBS_FETCH_PHYSICAL_ADDRESS %llx\n" [.long physical]
  optionally (24 < size) do
    let brtarget ← loadMsr 3
    printf (.field .raw) "\t\tMSR IBS_BRTARGET %llx\n" [.long brtarget]

def northbridgeSource : ℕ → String
  | 0 => "No valid status\n"
  | 1 => "L3\n"
  | 2 => "Cache from another compute unit\n"
  | 3 => "DRAM\n"
  | 4 => "Reserved remote cache\n"
  | 5 => "Reserved\n"
  | 6 => "Reserved\n"
  | _ => "Other: MMIO/config/PCI/APIC\n"

def opControlFlags : List (String × ℕ) :=
  [("\t\t\tIBS OpCntCtl: %d\n", 19), ("\t\t\tIBS OpVal: %d\n", 18), ("\t\t\tIBS OpEn: %d\n", 17)]

def opDataFlags : List (String × ℕ) :=
  [("\t\t\tRIP Invalid: %d\n", 38), ("\t\t\tBranch Retired: %d\n", 37),
    ("\t\t\tBranch Mispredicted: %d\n", 36), ("\t\t\tBranch Taken: %d\n", 35),
    ("\t\t\tReturn uop: %d\n", 34), ("\t\t\tMispredicted Return uop: %d\n", 33)]

def opData3Flags : List (String × ℕ) :=
  [("\t\t\tL2TLB data hit in 1GB page: %d\n", 19),
    ("\t\t\tData cache physical addr valid: %d\n", 18),
    ("\t\t\tData cache linear addr valid: %d\n", 17), ("\t\t\tMAB hit: %d\n", 16),
    ("\t\t\tData cache locked operation: %d\n", 15),
    ("\t\t\tUncachable memory operation: %d\n", 14),
    ("\t\t\tWrite-combining memory operation: %d\n", 13),
    ("\t\t\tData forwarding store to load canceled: %d\n", 12),
    ("\t\t\tData forwarding store to load operation: %d\n", 11),
    ("\t\t\tBank conflict on load operation: %d\n", 9), ("\t\t\tMisaligned access: %d\n", 8),
    ("\t\t\tData cache miss: %d\n", 7), ("\t\t\tData cache L2TLB hit in 2M: %d\n", 6),
    ("\t\t\tData cache L2TLB hit in 1G: %d\n", 5), ("\t\t\tData cache L1TLB hit in 2M: %d\n", 4),
    ("\t\t\tData cache L2TLB miss: %d\n", 3), ("\t\t\tData cache L1TLB miss: %d\n", 2),
    ("\t\t\tOperation is a store: %d\n", 1), ("\t\t\tOperation is a load: %d\n", 0)]

def dumpRawIbsOp (size : ℤ) : Parser Unit := do
  let leftover ← load32 0
  printf (.field .raw) "\t\tHeader: %x\n" [.int leftover]
  let control ← loadMsr 0
  printf (.field .raw) "\t\tMSR IBS_EXECUTION_CONTROL %llx\n" [.long control]
  printf (.field .raw) "\t\t\tIbsOpCurCnt: %lld\n" [.long ((control >>> 32) &&& 0x3ffffff)]
  printFlags control opControlFlags
  printf (.field .raw) "\t\t\tIbsOpMaxCnt: %lld\n"
    [.long (((control &&& 0xffff) <<< 4) ||| (control &&& 0x3f00000))]
  let logical ← loadMsr 1
  printf (.field .raw) "\t\tMSR IBS_OP_LOGICAL_ADDRESS %llx\n" [.long logical]
  let opData ← loadMsr 2
  printf (.field .raw) "\t\tMSR IBS_OP_DATA %llx\n" [.long opData]
  printFlags opData opDataFlags
  printf (.field .raw) "\t\t\tTag to Retire Cycles: %lld\n" [.long ((opData >>> 16) &&& 0xffff)]
  printf (.field .raw) "\t\t\tCompletion to Retire Cycles: %lld\n" [.long (opData &&& 0xffff)]
  let opData2 ← loadMsr 3
  printf (.field .raw) "\t\tMSR IBS_OP_DATA2 (Northbridge) %llx\n" [.long opData2]
  printf (.field .raw) "\t\t\tCache Hit State: %c\n"
    [.name (if opData2.getLsbD 5 then "O" else "M")]
  printf (.field .raw) "\t\t\tRequest destination node: %s\n"
    [.name (if opData2.getLsbD 4 then "Same" else "Different")]
  printf (.field .raw) "\t\t\tNorthbridge data source: " []
  printf (.field .raw) (northbridgeSource (opData2 &&& 7).toNat) []
  let opData3 ← loadMsr 4
  printf (.field .raw) "\t\tMSR IBS_OP_DATA3 (cache) %llx\n" [.long opData3]
  printf (.field .raw) "\t\t\tData Cache Miss Latency: %lld\n"
    [.long ((opData3 >>> 32) &&& 0xffff)]
  printFlags opData3 opData3Flags
  optionally (opData3.getLsbD 17) do
    let linear ← loadMsr 5
    printf (.field .raw) "\t\tMSR IBS_DC_LINEAR_ADDRESS %llx\n" [.long linear]
  optionally (opData3.getLsbD 18) do
    let physical ← loadMsr 6
    printf (.field .raw) "\t\tMSR IBS_DC_PHYSICAL_ADDRESS %llx\n" [.long physical]
  optionally (64 < size) do
    let opData4 ← loadMsr 7
    printf (.field .raw) "\t\tMSR IBS_OP_DATA4 %llx\n" [.long opData4]

end PapiSample.ParseRecord
