import PapiSample.SampleFields
import PapiSample.While

/-!
The record loop of perf_mmap_read: the header of an event, the switch over its
type and the `while(offset<size)` around them. Every case advances the cursor
by its own hard-coded widths; `event->size` is used by the cases that end with
a name only, and a type without a case moves the cursor to the end of the window.
-/
namespace PapiSample.RecordLoop

open Bytes Cursor Cursor.Prog PerfEvent ParseRecord SampleFields

def typeText (c : Config) (type : BitVec 32) : String × List Arg :=
  match RecordType.ofCode type with
  | some .mmap => ("PERF_RECORD_MMAP", [])
  | some .lost => ("PERF_RECORD_LOST", [])
  | some .comm => ("PERF_RECORD_COMM", [])
  | some .exit => ("PERF_RECORD_EXIT", [])
  | some .throttle => ("PERF_RECORD_THROTTLE", [])
  | some .unthrottle => ("PERF_RECORD_UNTHROTTLE", [])
  | some .fork => ("PERF_RECORD_FORK", [])
  | some .read => ("PERF_RECORD_READ", [])
  | some .sample => ("PERF_RECORD_SAMPLE [%x]", [.int c.sampleType])
  | some .mmap2 => ("PERF_RECORD_MMAP2", [])
  | some .aux => ("PERF_RECORD_AUX", [])
  | some .itraceStart => ("PERF_RECORD_ITRACE_START", [])
  | some .lostSamples => ("PERF_RECORD_LOST_SAMPLES", [])
  | some .switch => ("PERF_RECORD_SWITCH", [])
  | some .switchCpuWide => ("PERF_RECORD_SWITCH_CPU_WIDE", [])
  | some .namespaces | none => ("UNKNOWN %d", [.int type])

def cpumodeText (misc : BitVec 16) : String × List Arg :=
  match (misc &&& PERF_RECORD_MISC_CPUMODE_MASK).toNat with
  | 0 => ("PERF_RECORD_MISC_CPUMODE_UNKNOWN", [])
  | 1 => ("PERF_RECORD_MISC_KERNEL", [])
  | 2 => ("PERF_RECORD_MISC_USER", [])
  | 3 => ("PERF_RECORD_MISC_HYPERVISOR", [])
  | 4 => ("PERF_RECORD_MISC_GUEST_KERNEL", [])
  | 5 => ("PERF_RECORD_MISC_GUEST_USER", [])
  | _ => ("Unknown %d!\n", [.int (misc.setWidth 32)])

/-- The meaning of bit 13 of `misc` depends on the type of the event. -/
def aliasText (type : BitVec 32) : String :=
  match RecordType.ofCode type with
  | some .mmap => ",PERF_RECORD_MISC_MMAP_DATA "
  | some .comm => ",PERF_RECORD_MISC_COMM_EXEC "
  | some .switch | some .switchCpuWide => ",PERF_RECORD_MISC_SWITCH_OUT "
  | _ => "UNKNOWN ALIAS!!! "

/-- `event` stays at the start of the record while the cursor moves on. -/
def eventMisc (start : ℤ) : Parser (BitVec 16) := peek16 (start + 4)
def eventSize (start : ℤ) : Parser (BitVec 16) := peek16 (start + 6)

def printHeader (c : Config) (start : ℤ) (type : BitVec 32) : Parser Unit :=
  unlessQuiet c do
    fprintf .header (typeText c type).1 (typeText c type).2
    let misc ← eventMisc start
    fprintf .header ", MISC=%d (" [.int (misc.setWidth 32)]
    fprintf .header (cpumodeText misc).1 (cpumodeText misc).2
    optionally (misc &&& PERF_RECORD_MISC_MMAP_DATA != 0) (fprintf .header (aliasText type) [])
    optionally (misc &&& PERF_RECORD_MISC_EXACT_IP != 0)
      (fprintf .header ",PERF_RECORD_MISC_EXACT_IP " [])
    optionally (misc &&& PERF_RECORD_MISC_EXT_RESERVED != 0)
      (fprintf .header ",PERF_RECORD_MISC_EXT_RESERVED " [])
    let size ← eventSize start
    fprintf .header "), Size=%d\n" [.int (size.setWidth 32)]

def lostRecord (c : Config) : Parser Unit := do
  longField c .details "\tID: %lld\n"
  longField c .details "\tLOST: %lld\n"

/-- The name at the end of a record whose fixed part has `head` bytes, copied
into a block of its own and printed up to its terminator. -/
def nameTail (c : Config) (start head : ℤ) (format : String) : Parser Unit := do
  let size ← eventSize start
  let stringSize : ℤ := size.toNat - head
  let string ← copyOut stringSize
  unlessQuiet c (fprintf .details format [.str (string.takeWhile (· != 0))])
  advance stringSize

def pidTid (c : Config) : Parser Unit := do
  intField c .details "\tPID: %d\n"
  intField c .details "\tTID: %d\n"

def commRecord (c : Config) (start : ℤ) : Parser Unit := do
  pidTid c
  nameTail c start 16 "\tcomm: %s\n"

def taskRecord (c : Config) : Parser Unit := do
  intField c .details "\tPID: %d\n"
  intField c .details "\tPPID: %d\n"
  intField c .details "\tTID: %d\n"
  intField c .details "\tPTID: %d\n"
  longField c .details "\tTime: %lld\n"

def forkRecord (c : Config) : Parser Unit := taskRecord c
def exitRecord (c : Config) : Parser Unit := taskRecord c

def mapFields (c : Config) : Parser Unit := do
  pidTid c
  longField c .details "\tAddress: %llx\n"
  longField c .details "\tLength: %llx\n"
  longField c .details "\tPage Offset: %llx\n"

def mmapRecord (c : Config) (start : ℤ) : Parser Unit := do
  mapFields c
  nameTail c start 40 "\tFilename: %s\n"

def mmap2Fields (c : Config) : Parser Unit := do
  mapFields c
  intField c .details "\tMajor: %d\n"
  intField c .details "\tMinor: %d\n"
  longField c .details "\tIno: %llx\n"
  longField c .details "\tIno generation: %llx\n"
  intField c .details "\tProt: %d\n"
  intField c .details "\tFlags: %d\n"

def mmap2Record (c : Config) (start : ℤ) : Parser Unit := do
  mmap2Fields c
  nameTail c start 72 "\tFilename: %s\n"

def throttleRecord (c : Config) : Parser Unit := do
  longField c .details "\tTime: %lld\n"
  longField c .details "\tID: %lld\n"
  longField c .details "\tStream ID: %lld\n"

def auxFlags (flags : BitVec 64) : Parser Unit := do
  fprintf .details "\tFLAGS: %llx " [.long flags]
  optionally (flags &&& PERF_AUX_FLAG_TRUNCATED != 0) (fprintf .details "FLAG_TRUNCATED " [])
  optionally (flags &&& PERF_AUX_FLAG_OVERWRITE != 0) (fprintf .details "FLAG_OVERWRITE " [])
  fprintf .details "\n" []

def auxRecord (c : Config) : Parser Unit := do
  longField c .details "\tAUX_OFFSET: %lld\n"
  longField c .details "\tAUX_SIZE: %lld\n"
  let flags ← load64 0
  unlessQuiet c (auxFlags flags)
  advance 8
  longField c .details "\tSAMPLE_ID: %lld\n"

def itraceStartRecord (c : Config) : Parser Unit := pidTid c

def lostSamplesRecord (c : Config) : Parser Unit := do
  longField c .details "\tLOST: %lld\n"
  longField c .details "\tSAMPLE_ID: %lld\n"

def switchRecord (c : Config) : Parser Unit :=
  longField c .details "\tSAMPLE_ID: %lld\n"

def switchCpuWideRecord (c : Config) : Parser Unit := do
  intField c .details "\tPREV_PID: %d\n"
  intField c .details "\tPREV_TID: %d\n"
  longField c .details "\tSAMPLE_ID: %lld\n"

/-- `default:` gives up on the rest of the window. -/
def unknownRecord (c : Config) (size : ℤ) (type : BitVec 32) : Parser Unit := do
  unlessQuiet c (fprintf .details "\tUnknown type %d\n" [.int type])
  jump size

/-- `switch(event->type)`; PERF_RECORD_READ and PERF_RECORD_NAMESPACES have no
case of their own. -/
def details (c : Config) (size start : ℤ) (type : BitVec 32) : Parser Unit :=
  match RecordType.ofCode type with
  | some .lost => lostRecord c
  | some .comm => commRecord c start
  | some .fork => forkRecord c
  | some .mmap => mmapRecord c start
  | some .mmap2 => mmap2Record c start
  | some .exit => exitRecord c
  | some .throttle | some .unthrottle => throttleRecord c
  | some .sample => sampleRecord c
  | some .aux => auxRecord c
  | some .itraceStart => itraceStartRecord c
  | some .lostSamples => lostSamplesRecord c
  | some .switch => switchRecord c
  | some .switchCpuWide => switchCpuWideRecord c
  | some .read | some .namespaces | none => unknownRecord c size type

def iteration (c : Config) (size : ℤ) : Parser Unit := do
  let start ← here
  let type ← peek32 start
  printHeader c start type
  advance 8
  details c size start type

structure LoopState where
  offset : ℤ
  eventsRead : Option ℕ
  trace : List (ℤ × List (Event Out))

def inWindow (size : ℤ) (s : LoopState) : Bool := s.offset < size

def loopBody (c : Config) (size : ℤ) (data : Memory) (s : LoopState) : Option LoopState :=
  let r := iteration c size data s.offset
  r.exit.map fun e =>
    { offset := e.2
      eventsRead := s.eventsRead.map (· + 1)
      trace := s.trace ++ [(s.offset, r.log)] }

def recordLoop (c : Config) (size : ℤ) (data : Memory) (fuel : ℕ) (s : LoopState) :
    Option LoopState :=
  While.loop (inWindow size) (loopBody c size data) fuel s

def loopStart (eventsRead : Option ℕ) : LoopState :=
  { offset := 0, eventsRead := eventsRead.map fun _ => 0, trace := [] }

end PapiSample.RecordLoop
