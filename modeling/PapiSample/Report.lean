import PapiSample.RecordLoop

/-!
What the log says about a record. A print call reports its arguments, loop
counters and register names apart; a call without arguments reports the ABI it
names, if any. Against this stands the list of values stored in a record, field
by field in the documented order.
-/
namespace PapiSample.Report

open Bytes Cursor PerfEvent ParseRecord SampleFields RecordLoop

inductive Value
  | int (v : BitVec 32)
  | long (v : BitVec 64)
  | str (s : List Byte)
  | abi (a : RegsAbi)
  deriving DecidableEq

def argValue : Arg → List Value
  | .int v => [.int v]
  | .long v => [.long v]
  | .str s => [.str s]
  | .name _ => []
  | .index _ => []

def textAbi (format : String) : List Value :=
  [RegsAbi.none, .abi32, .abi64].flatMap fun a => if format = abiText a then [Value.abi a] else []

def isRegs (site : Site) : Bool := site = .field .regsUser ∨ site = .field .regsIntr

def callValues (site : Site) (format : String) (args : List Arg) : List Value :=
  if args.isEmpty && isRegs site then textAbi format else args.flatMap argValue

/-- The sites that report fields of a record, as opposed to its header or to
the words of a copied stack. -/
def isReport : Site → Bool
  | .header => false
  | .stackWords => false
  | _ => true

/-- The values a run reports, with the site of each, on `fp` or on the standard output.
The labels of branch flags and the words of a copied stack are not among them. -/
def reported : Out → List (Site × Value)
  | .printed site stream format args =>
      if isReport site && stream != .stderr then (callValues site format args).map (Prod.mk site)
      else []
  | .alloc _ | .heapLoad _ _ _ | .killed => []

def logged : Out → List (Site × Value)
  | .printed site .fp format args => reported (.printed site .fp format args)
  | .printed _ .stdout _ _ | .printed _ .stderr _ _ | .alloc _ | .heapLoad _ _ _ | .killed => []

/-- The values stored in one field of a sample. The report of a register block
repeats the mask in front of the registers. -/
def fieldValues (readFormat : BitVec 32) (regMask : BitVec 64) (s : Sample) :
    SampleField → List Value
  | .identifier => [.long s.identifier]
  | .ip => [.long s.ip]
  | .tid => [.int s.pid, .int s.tid]
  | .time => [.long s.time]
  | .addr => [.long s.addr]
  | .id => [.long s.id]
  | .streamId => [.long s.streamId]
  | .cpu => [.int s.cpu, .int s.res]
  | .period => [.long s.period]
  | .read => (s.values.words readFormat).map .long
  | .callchain => .long (BitVec.ofNat 64 s.ips.length) :: s.ips.map .long
  | .raw => .int (BitVec.ofNat 32 s.raw.length) :: s.raw.map fun b => .int (b.setWidth 32)
  | .branchStack =>
      .long (BitVec.ofNat 64 s.lbr.length) ::
        s.lbr.flatMap fun e => [.long e.source, .long e.target]
  | .regsUser => .abi s.userAbi :: .long regMask ::
      (setBits regMask).map fun i => .long (s.userRegs i)
  | .stackUser => [.long (BitVec.ofNat 64 s.stack.length), .long s.dynSize]
  | .weight => [.long s.weight]
  | .dataSrc => [.long s.dataSrc]
  | .transaction => [.long s.transaction]
  | .regsIntr => .abi s.intrAbi :: .long regMask ::
      (setBits regMask).map fun i => .long (s.intrRegs i)
  | .physAddr => [.long s.physAddr]

def fieldReport (c : Config) (s : Sample) (f : SampleField) : List (Site × Value) :=
  (fieldValues c.readFormat c.regMask s f).map (Prod.mk (.field f))

def sampleReport (c : Config) (s : Sample) : List (Site × Value) :=
  (SampleField.layout.filter (SampleField.isSet · c.sampleType)).flatMap (fieldReport c s)

def payloadValues (readFormat : BitVec 32) : Payload → List Value
  | .mmap pid tid addr len pgoff filename =>
      [.int pid, .int tid, .long addr, .long len, .long pgoff, .str filename.text]
  | .lost id count => [.long id, .long count]
  | .comm pid tid name => [.int pid, .int tid, .str name.text]
  | .exit pid ppid tid ptid time => [.int pid, .int ppid, .int tid, .int ptid, .long time]
  | .throttle time id streamId => [.long time, .long id, .long streamId]
  | .unthrottle time id streamId => [.long time, .long id, .long streamId]
  | .fork pid ppid tid ptid time => [.int pid, .int ppid, .int tid, .int ptid, .long time]
  | .read pid tid values => .int pid :: .int tid :: (values.words readFormat).map .long
  | .sample _ => []
  | .mmap2 pid tid addr len pgoff maj min ino inoGeneration prot flags filename =>
      [.int pid, .int tid, .long addr, .long len, .long pgoff, .int maj, .int min, .long ino,
        .long inoGeneration, .int prot, .int flags, .str filename.text]
  | .aux auxOffset auxSize flags => [.long auxOffset, .long auxSize, .long flags]
  | .itraceStart pid tid => [.int pid, .int tid]
  | .lostSamples count => [.long count]
  | .switch => []
  | .switchCpuWide nextPrevPid nextPrevTid => [.int nextPrevPid, .int nextPrevTid]
  | .namespaces pid tid links =>
      .int pid :: .int tid :: .long (BitVec.ofNat 64 links.length) ::
        links.flatMap fun l => [.long l.1, .long l.2]

def payloadReport (c : Config) : Payload → List (Site × Value)
  | .sample s => sampleReport c s
  | p => (payloadValues c.readFormat p).map (Prod.mk .details)

end PapiSample.Report
