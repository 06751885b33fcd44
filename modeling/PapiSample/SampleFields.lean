import PapiSample.ParseRecord

/-!
The blocks of the PERF_RECORD_SAMPLE case, one for each bit of `sample_type`
that the parser tests, and the order in which it tests them. There is no block
for PERF_SAMPLE_PHYS_ADDR.
-/
namespace PapiSample.SampleFields

open Bytes Cursor Cursor.Prog PerfEvent ParseRecord

def checkPid (c : Config) (pid : BitVec 32) : Parser Unit :=
  match c.validate with
  | none => pure ()
  | some v =>
    optionally (v.pid != pid)
      (complain (.field .tid) "Error, pid %d != %d\n" [.int v.pid, .int pid])

/-- `from < validate->branch_low`, where `from` is a `long long`: both are compared as
unsigned numbers unless an `unsigned long` is the shorter one. -/
def belowLow (arch : Arch) (source low : BitVec 64) : Bool :=
  if arch.longBits = 64 then source.toNat < low.toNat
  else source.toInt < (low.setWidth arch.longBits).toNat

def checkBranch (c : Config) (source : BitVec 64) : Parser Unit :=
  match c.validate with
  | none => pure ()
  | some v =>
    optionally (belowLow c.arch source v.branchLow)
      (complain (.field .branchStack) "Error! branch out of bounds!\n" [])

def intPair (c : Config) (f : SampleField) (format : String) (check : BitVec 32 → Parser Unit) :
    Parser Unit := do
  let first ← load32 0
  let second ← load32 4
  check first
  unlessQuiet c (fprintf (.field f) format [.int first, .int second])
  advance 8

def sampleRead (c : Config) : Parser Unit := do
  unlessQuiet c (fprintf (.field .read) "\tPERF_SAMPLE_READ, read_format\n" [])
  let length ← subview (handleStructReadFormat c)
  if 0 ≤ length then advance length

def callchainEntry (c : Config) (i : ℕ) : Parser Unit := do
  let ip ← load64 0
  unlessQuiet c (fprintf (.field .callchain) "\t\t ip[%d]: %llx\n" [.index i, .long ip])
  advance 8

def sampleCallchain (c : Config) : Parser Unit := do
  let nr ← load64 0
  unlessQuiet c
    (fprintf (.field .callchain) "\tPERF_SAMPLE_CALLCHAIN, callchain length: %lld\n" [.long nr])
  advance 8
  intLoop 1 nr.toInt (callchainEntry c)

def rawByte (i : ℕ) : Parser Unit := do
  let b ← loadByte i
  fprintf (.field .raw) "%d " [.int (b.setWidth 32)]

def rawPayload (c : Config) (size : ℤ) : Parser Unit :=
  if c.rawType = RAW_IBS_FETCH then dumpRawIbsFetch size
  else if c.rawType = RAW_IBS_OP then dumpRawIbsOp size
  else do
    fprintf (.field .raw) "\t\t" []
    intLoop 1 size rawByte
    fprintf (.field .raw) "\n" []

def sampleRaw (c : Config) : Parser Unit := do
  let size ← load32 0
  unlessQuiet c (fprintf (.field .raw) "\tPERF_SAMPLE_RAW, Raw length: %d\n" [.int size])
  advance 4
  unlessQuiet c (rawPayload c size.toInt)
  advance size.toInt

/-- The labels of `flags`, which are cleared as they are tested; the first
test clears the bit of the second. -/
def branchFlags (flags : BitVec 64) : Parser Unit := do
  optionally (flags == 0) (fprintf (.field .branchStack) "0" [])
  optionally (flags &&& 1 != 0) (fprintf (.field .branchStack) "MISPREDICTED " [])
  let flags := if flags &&& 1 != 0 then flags &&& ~~~2 else flags
  optionally (flags &&& 2 != 0) (fprintf (.field .branchStack) "PREDICTED " [])
  let flags := if flags &&& 2 != 0 then flags &&& ~~~2 else flags
  optionally (flags &&& 4 != 0) (fprintf (.field .branchStack) "IN_TRANSACTION " [])
  let flags := if flags &&& 4 != 0 then flags &&& ~~~4 else flags
  optionally (flags &&& 8 != 0) (fprintf (.field .branchStack) "TRANSACTION_ABORT " [])
  fprintf (.field .branchStack) "\n" []

def branchEntry (c : Config) (i : ℕ) : Parser Unit := do
  let source ← load64 0
  advance 8
  checkBranch c source
  let target ← load64 0
  advance 8
  unlessQuiet c
    (fprintf (.field .branchStack) "\t\t lbr[%d]: %llx %llx "
      [.index i, .long source, .long target])
  let flags ← load64 0
  advance 8
  unlessQuiet c (branchFlags flags)

def sampleBranchStack (c : Config) : Parser Unit := do
  let bnr ← load64 0
  unlessQuiet c
    (fprintf (.field .branchStack) "\tPERF_SAMPLE_BRANCH_STACK, branch_stack entries: %lld\n"
      [.long bnr])
  advance 8
  intLoop 1 bnr.toInt (branchEntry c)

def abiText : RegsAbi → String
  | .none => "PERF_SAMPLE_REGS_ABI_NONE"
  | .abi32 => "PERF_SAMPLE_REGS_ABI_32"
  | .abi64 => "PERF_SAMPLE_REGS_ABI_64"

/-- The name of the ABI; the name of no ABI goes to the standard output. -/
def printAbi (site : Site) (abi : BitVec 64) : Parser Unit := do
  optionally (abi == RegsAbi.none.word) (printf site (abiText .none) [])
  optionally (abi == RegsAbi.abi32.word) (fprintf site (abiText .abi32) [])
  optionally (abi == RegsAbi.abi64.word) (fprintf site (abiText .abi64) [])

def sampleRegs (c : Config) (site : Site) (title : String) : Parser Unit := do
  let abi ← load64 0
  unlessQuiet c do
    fprintf site title []
    printAbi site abi
    fprintf site "\n" []
  advance 8
  let length ← subview (printRegs c site)
  advance length
  unlessQuiet c (fprintf site "\n" [])

def sampleRegsUser (c : Config) : Parser Unit :=
  sampleRegs c (.field .regsUser) "\tPERF_SAMPLE_REGS_USER, ABI: "

def sampleRegsIntr (c : Config) : Parser Unit :=
  sampleRegs c (.field .regsIntr) "\tPERF_SAMPLE_REGS_INTR, ABI: "

/-- `stack_data[k]` for `k = 4 * i`: an index in words, not in bytes. Past the
copy the load is out of bounds. Its place and the size of the block stay in the
log; the value is what the heap would have there. -/
def stackWord (c : Config) (stackData : List Byte) (size : ℤ) (i : ℕ) : Parser Unit :=
  unlessQuiet c do
    emit (.heapLoad (4 * (4 * i)) 4 size)
    fprintf .stackWords "0x%x " [.int (word32 (overlay stackData c.heap) (4 * (4 * i)))]

def stackTail (c : Config) (stackData : List Byte) (size : ℤ) : Parser Unit := do
  let dynSize ← load64 0
  unlessQuiet c (fprintf (.field .stackUser) "\t\tDynamic (used) size: %lld\n" [.long dynSize])
  advance 8
  unlessQuiet c (fprintf (.field .stackUser) "\t\t" [])
  intLoop 4 dynSize.toInt (stackWord c stackData size)
  unlessQuiet c (fprintf (.field .stackUser) "\n" [])

def sampleStackUser (c : Config) : Parser Unit := do
  let size ← load64 0
  unlessQuiet c
    (fprintf (.field .stackUser) "\tPERF_SAMPLE_STACK_USER, Requested size: %lld\n" [.long size])
  advance 8
  let stackData ← copyOut size.toInt
  advance size.toInt
  stackTail c stackData size.toInt

def sampleWord (c : Config) (f : SampleField) (format : String) : Parser Unit := do
  longField c (.field f) format
  unlessQuiet c (fprintf (.field f) "\n" [])

/-- `PERF_MEM_x<<PERF_MEM_x_SHIFT` computed in `int` and widened to `long long`. -/
def memMask (value shift : ℕ) : BitVec 64 := ((BitVec.ofNat 32 value) <<< shift).signExtend 64

def memOpShift : ℕ := 0
def memLvlShift : ℕ := 5
def memSnoopShift : ℕ := 19
def memLockShift : ℕ := 24
def memTlbShift : ℕ := 26

/-- The masks tested against `src`, in order, with their labels. The last one
is shifted as a `long long`. -/
def memLabels : List (BitVec 64 × String) :=
  [(memMask 0x01 memOpShift, "Op Not available "), (memMask 0x02 memOpShift, "Load "),
    (memMask 0x04 memOpShift, "Store "), (memMask 0x08 memOpShift, "Prefetch "),
    (memMask 0x10 memOpShift, "Executable code "),
    (memMask 0x01 memLvlShift, "Level Not available "), (memMask 0x02 memLvlShift, "Hit "),
    (memMask 0x04 memLvlShift, "Miss "), (memMask 0x08 memLvlShift, "L1 cache "),
    (memMask 0x10 memLvlShift, "Line fill buffer "), (memMask 0x20 memLvlShift, "L2 cache "),
    (memMask 0x40 memLvlShift, "L3 cache "), (memMask 0x80 memLvlShift, "Local DRAM "),
    (memMask 0x100 memLvlShift, "Remote DRAM 1 hop "),
    (memMask 0x200 memLvlShift, "Remote DRAM 2 hops "),
    (memMask 0x400 memLvlShift, "Remote cache 1 hop "),
    (memMask 0x800 memLvlShift, "Remote cache 2 hops "),
    (memMask 0x1000 memLvlShift, "I/O memory "), (memMask 0x2000 memLvlShift, "Uncached memory "),
    (memMask 0x01 memSnoopShift, "Snoop Not available "),
    (memMask 0x02 memSnoopShift, "No snoop "), (memMask 0x04 memSnoopShift, "Snoop hit "),
    (memMask 0x08 memSnoopShift, "Snoop miss "),
    (memMask 0x10 memSnoopShift, "Snoop hit modified "),
    (memMask 0x01 memLockShift, "Locks Not available "),
    (memMask 0x02 memLockShift, "Locked transaction "),
    (memMask 0x01 memTlbShift, "TLB Not available "), (memMask 0x02 memTlbShift, "Hit "),
    (memMask 0x04 memTlbShift, "Miss "), (memMask 0x08 memTlbShift, "Level 1 TLB "),
    (memMask 0x10 memTlbShift, "Level 2 TLB "), (memMask 0x20 memTlbShift, "Hardware walker "),
    ((BitVec.ofNat 64 0x40) <<< memTlbShift, "OS fault handler ")]

def printDataSrc (src : BitVec 64) : Parser Unit := do
  optionally (src != 0) (fprintf (.field .dataSrc) "\t\t" [])
  memLabels.forM fun l => optionally (src &&& l.1 != 0) (fprintf (.field .dataSrc) l.2 [])

def sampleDataSrc (c : Config) : Parser Unit := do
  let src ← load64 0
  unlessQuiet c (fprintf (.field .dataSrc) "\tPERF_SAMPLE_DATA_SRC, Raw: %llx\n" [.long src])
  advance 8
  unlessQuiet c (printDataSrc src)
  unlessQuiet c (fprintf (.field .dataSrc) "\n" [])

def sampleBlock (c : Config) : SampleField → Parser Unit
  | .ip => longField c (.field .ip) "\tPERF_SAMPLE_IP, IP: %llx\n"
  | .tid => intPair c .tid "\tPERF_SAMPLE_TID, pid: %d  tid %d\n" (checkPid c)
  | .time => longField c (.field .time) "\tPERF_SAMPLE_TIME, time: %lld\n"
  | .addr => longField c (.field .addr) "\tPERF_SAMPLE_ADDR, addr: %llx\n"
  | .id => longField c (.field .id) "\tPERF_SAMPLE_ID, sample_id: %lld\n"
  | .streamId =>
      longField c (.field .streamId) "\tPERF_SAMPLE_STREAM_ID, sample_stream_id: %lld\n"
  | .cpu => intPair c .cpu "\tPERF_SAMPLE_CPU, cpu: %d  res %d\n" fun _ => pure ()
  | .period => longField c (.field .period) "\tPERF_SAMPLE_PERIOD, period: %lld\n"
  | .read => sampleRead c
  | .callchain => sampleCallchain c
  | .raw => sampleRaw c
  | .branchStack => sampleBranchStack c
  | .regsUser => sampleRegsUser c
  | .regsIntr => sampleRegsIntr c
  | .stackUser => sampleStackUser c
  | .weight => sampleWord c .weight "\tPERF_SAMPLE_WEIGHT, Weight: %lld "
  | .dataSrc => sampleDataSrc c
  | .identifier => sampleWord c .identifier "\tPERF_SAMPLE_IDENTIFIER, Raw length: %lld\n"
  | .transaction => sampleWord c .transaction "\tPERF_SAMPLE_TRANSACTION, Raw length: %lld\n"
  | .physAddr => pure ()

/-- The order of the `if (sample_type & ...)` tests in the source. -/
def blockOrder : List SampleField :=
  [.ip, .tid, .time, .addr, .id, .streamId, .cpu, .period, .read, .callchain, .raw,
    .branchStack, .regsUser, .regsIntr, .stackUser, .weight, .dataSrc, .identifier, .transaction]

def sampleBlocks (c : Config) : List SampleField → Parser Unit
  | [] => pure ()
  | f :: rest => do
    optionally (f.isSet c.sampleType) (sampleBlock c f)
    sampleBlocks c rest

def sampleRecord (c : Config) : Parser Unit := sampleBlocks c blockOrder

end PapiSample.SampleFields
