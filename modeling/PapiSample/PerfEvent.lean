import PapiSample.Bytes

/-!
The constants and layouts of perf_event.h that the library relies on. The
sample fields are listed in the order in which the kernel writes them; each
carries the bit that requests it. The bytes of a field are given by its
documented layout, for values stored without any padding of their own.
-/
namespace PapiSample.PerfEvent

open Bytes

inductive SampleField
  | ip | tid | time | addr | read | callchain | id | cpu | period | streamId | raw
  | branchStack | regsUser | stackUser | weight | dataSrc | identifier | transaction
  | regsIntr | physAddr
  deriving DecidableEq, Repr

namespace SampleField

def bit : SampleField → ℕ
  | ip => 0
  | tid => 1
  | time => 2
  | addr => 3
  | read => 4
  | callchain => 5
  | id => 6
  | cpu => 7
  | period => 8
  | streamId => 9
  | raw => 10
  | branchStack => 11
  | regsUser => 12
  | stackUser => 13
  | weight => 14
  | dataSrc => 15
  | identifier => 16
  | transaction => 17
  | regsIntr => 18
  | physAddr => 19

def mask (f : SampleField) : BitVec 32 := 1#32 <<< f.bit

def isSet (f : SampleField) (sampleType : BitVec 32) : Bool := sampleType &&& f.mask != 0

/-- The order of the fields of PERF_RECORD_SAMPLE. -/
def layout : List SampleField :=
  [identifier, ip, tid, time, addr, id, streamId, cpu, period, read, callchain, raw,
    branchStack, regsUser, stackUser, weight, dataSrc, transaction, regsIntr, physAddr]

def sampleIdLayout : List SampleField := [tid, time, id, streamId, cpu, identifier]

end SampleField

def PERF_FORMAT_TOTAL_TIME_ENABLED : BitVec 32 := 1#32 <<< 0
def PERF_FORMAT_TOTAL_TIME_RUNNING : BitVec 32 := 1#32 <<< 1
def PERF_FORMAT_ID : BitVec 32 := 1#32 <<< 2
def PERF_FORMAT_GROUP : BitVec 32 := 1#32 <<< 3

inductive RegsAbi
  | none | abi32 | abi64
  deriving DecidableEq, Repr

def RegsAbi.word : RegsAbi → BitVec 64
  | none => 0
  | abi32 => 1
  | abi64 => 2

inductive RecordType
  | mmap | lost | comm | exit | throttle | unthrottle | fork | read | sample | mmap2 | aux
  | itraceStart | lostSamples | switch | switchCpuWide | namespaces
  deriving DecidableEq, Repr

namespace RecordType

def code : RecordType → BitVec 32
  | mmap => 1
  | lost => 2
  | comm => 3
  | exit => 4
  | throttle => 5
  | unthrottle => 6
  | fork => 7
  | read => 8
  | sample => 9
  | mmap2 => 10
  | aux => 11
  | itraceStart => 12
  | lostSamples => 13
  | switch => 14
  | switchCpuWide => 15
  | namespaces => 16

def all : List RecordType :=
  [mmap, lost, comm, exit, throttle, unthrottle, fork, read, sample, mmap2, aux,
    itraceStart, lostSamples, switch, switchCpuWide, namespaces]

def ofCode (t : BitVec 32) : Option RecordType := all.find? fun r => r.code = t

theorem ofCode_code (r : RecordType) : ofCode r.code = some r := by
  cases r <;> rfl

end RecordType

def PERF_RECORD_MISC_CPUMODE_MASK : BitVec 16 := 7
def PERF_RECORD_MISC_MMAP_DATA : BitVec 16 := 1#16 <<< 13
def PERF_RECORD_MISC_EXACT_IP : BitVec 16 := 1#16 <<< 14
def PERF_RECORD_MISC_EXT_RESERVED : BitVec 16 := 1#16 <<< 15

def PERF_AUX_FLAG_TRUNCATED : BitVec 64 := 1
def PERF_AUX_FLAG_OVERWRITE : BitVec 64 := 2

def setBits (mask : BitVec 64) : List ℕ := (List.range 64).filter fun i => mask.getLsbD i

def weight (mask : BitVec 64) : ℕ := (setBits mask).length

/-- A name as the kernel stores it: its characters, the terminator, padding. -/
structure Name where
  text : List Byte
  padding : ℕ
  noNul : ∀ b ∈ text, b ≠ 0

def Name.bytes (n : Name) : List Byte := n.text ++ List.replicate (n.padding + 1) 0

structure Counter where
  value : BitVec 64
  id : BitVec 64

/-- The counters behind `struct read_format`. A group read reports `cntr`, a
single read its first four fields. -/
structure ReadValues where
  value : BitVec 64
  timeEnabled : BitVec 64
  timeRunning : BitVec 64
  id : BitVec 64
  cntr : List Counter

def Counter.words (readFormat : BitVec 32) (c : Counter) : List (BitVec 64) :=
  c.value :: if readFormat &&& PERF_FORMAT_ID != 0 then [c.id] else []

def ReadValues.words (readFormat : BitVec 32) (v : ReadValues) : List (BitVec 64) :=
  let times :=
    (if readFormat &&& PERF_FORMAT_TOTAL_TIME_ENABLED != 0 then [v.timeEnabled] else []) ++
      (if readFormat &&& PERF_FORMAT_TOTAL_TIME_RUNNING != 0 then [v.timeRunning] else [])
  if readFormat &&& PERF_FORMAT_GROUP != 0 then
    BitVec.ofNat 64 v.cntr.length :: times ++ v.cntr.flatMap (Counter.words readFormat)
  else
    v.value :: times ++ (if readFormat &&& PERF_FORMAT_ID != 0 then [v.id] else [])

def wordsBytes (words : List (BitVec 64)) : List Byte := words.flatMap le64

structure BranchEntry where
  source : BitVec 64
  target : BitVec 64
  flags : BitVec 64

/-- The data of a sample, of which a record stores the requested part. A
register block stores the registers selected by the mask. -/
structure Sample where
  identifier : BitVec 64
  ip : BitVec 64
  pid : BitVec 32
  tid : BitVec 32
  time : BitVec 64
  addr : BitVec 64
  id : BitVec 64
  streamId : BitVec 64
  cpu : BitVec 32
  res : BitVec 32
  period : BitVec 64
  values : ReadValues
  ips : List (BitVec 64)
  raw : List Byte
  lbr : List BranchEntry
  userAbi : RegsAbi
  userRegs : ℕ → BitVec 64
  stack : List Byte
  dynSize : BitVec 64
  weight : BitVec 64
  dataSrc : BitVec 64
  transaction : BitVec 64
  intrAbi : RegsAbi
  intrRegs : ℕ → BitVec 64
  physAddr : BitVec 64

def regsBytes (abi : RegsAbi) (regs : ℕ → BitVec 64) (mask : BitVec 64) : List Byte :=
  le64 abi.word ++ wordsBytes ((setBits mask).map regs)

def BranchEntry.bytes (e : BranchEntry) : List Byte := wordsBytes [e.source, e.target, e.flags]

def Sample.fieldBytes (readFormat : BitVec 32) (regMask : BitVec 64) (s : Sample) :
    SampleField → List Byte
  | .identifier => le64 s.identifier
  | .ip => le64 s.ip
  | .tid => le32 s.pid ++ le32 s.tid
  | .time => le64 s.time
  | .addr => le64 s.addr
  | .id => le64 s.id
  | .streamId => le64 s.streamId
  | .cpu => le32 s.cpu ++ le32 s.res
  | .period => le64 s.period
  | .read => wordsBytes (s.values.words readFormat)
  | .callchain => le64 (BitVec.ofNat 64 s.ips.length) ++ wordsBytes s.ips
  | .raw => le32 (BitVec.ofNat 32 s.raw.length) ++ s.raw
  | .branchStack => le64 (BitVec.ofNat 64 s.lbr.length) ++ s.lbr.flatMap BranchEntry.bytes
  | .regsUser => regsBytes s.userAbi s.userRegs regMask
  | .stackUser => le64 (BitVec.ofNat 64 s.stack.length) ++ s.stack ++ le64 s.dynSize
  | .weight => le64 s.weight
  | .dataSrc => le64 s.dataSrc
  | .transaction => le64 s.transaction
  | .regsIntr => regsBytes s.intrAbi s.intrRegs regMask
  | .physAddr => le64 s.physAddr

def Sample.bytesIn (order : List SampleField) (sampleType readFormat : BitVec 32)
    (regMask : BitVec 64) (s : Sample) : List Byte :=
  (order.filter (SampleField.isSet · sampleType)).flatMap (s.fieldBytes readFormat regMask)

def Sample.bytes (sampleType readFormat : BitVec 32) (regMask : BitVec 64) (s : Sample) :
    List Byte := s.bytesIn SampleField.layout sampleType readFormat regMask

def Sample.trailer (sampleType : BitVec 32) (s : Sample) : List Byte :=
  s.bytesIn SampleField.sampleIdLayout sampleType 0 0

inductive Payload
  | mmap (pid tid : BitVec 32) (addr len pgoff : BitVec 64) (filename : Name)
  | lost (id count : BitVec 64)
  | comm (pid tid : BitVec 32) (name : Name)
  | exit (pid ppid tid ptid : BitVec 32) (time : BitVec 64)
  | throttle (time id streamId : BitVec 64)
  | unthrottle (time id streamId : BitVec 64)
  | fork (pid ppid tid ptid : BitVec 32) (time : BitVec 64)
  | read (pid tid : BitVec 32) (values : ReadValues)
  | sample (s : Sample)
  | mmap2 (pid tid : BitVec 32) (addr len pgoff : BitVec 64) (maj min : BitVec 32)
      (ino inoGeneration : BitVec 64) (prot flags : BitVec 32) (filename : Name)
  | aux (auxOffset auxSize flags : BitVec 64)
  | itraceStart (pid tid : BitVec 32)
  | lostSamples (count : BitVec 64)
  | switch
  | switchCpuWide (nextPrevPid nextPrevTid : BitVec 32)
  | namespaces (pid tid : BitVec 32) (links : List (BitVec 64 × BitVec 64))

namespace Payload

def type : Payload → RecordType
  | mmap .. => .mmap
  | lost .. => .lost
  | comm .. => .comm
  | exit .. => .exit
  | throttle .. => .throttle
  | unthrottle .. => .unthrottle
  | fork .. => .fork
  | read .. => .read
  | sample .. => .sample
  | mmap2 .. => .mmap2
  | aux .. => .aux
  | itraceStart .. => .itraceStart
  | lostSamples .. => .lostSamples
  | switch => .switch
  | switchCpuWide .. => .switchCpuWide
  | namespaces .. => .namespaces

def bytes (sampleType readFormat : BitVec 32) (regMask : BitVec 64) : Payload → List Byte
  | mmap pid tid addr len pgoff filename =>
      le32 pid ++ le32 tid ++ le64 addr ++ le64 len ++ le64 pgoff ++ filename.bytes
  | lost id count => le64 id ++ le64 count
  | comm pid tid name => le32 pid ++ le32 tid ++ name.bytes
  | exit pid ppid tid ptid time =>
      le32 pid ++ le32 ppid ++ le32 tid ++ le32 ptid ++ le64 time
  | throttle time id streamId => le64 time ++ le64 id ++ le64 streamId
  | unthrottle time id streamId => le64 time ++ le64 id ++ le64 streamId
  | fork pid ppid tid ptid time =>
      le32 pid ++ le32 ppid ++ le32 tid ++ le32 ptid ++ le64 time
  | read pid tid values => le32 pid ++ le32 tid ++ wordsBytes (values.words readFormat)
  | sample s => s.bytes sampleType readFormat regMask
  | mmap2 pid tid addr len pgoff maj min ino inoGeneration prot flags filename =>
      le32 pid ++ le32 tid ++ le64 addr ++ le64 len ++ le64 pgoff ++ le32 maj ++ le32 min ++
        le64 ino ++ le64 inoGeneration ++ le32 prot ++ le32 flags ++ filename.bytes
  | aux auxOffset auxSize flags => le64 auxOffset ++ le64 auxSize ++ le64 flags
  | itraceStart pid tid => le32 pid ++ le32 tid
  | lostSamples count => le64 count
  | switch => []
  | switchCpuWide nextPrevPid nextPrevTid => le32 nextPrevPid ++ le32 nextPrevTid
  | namespaces pid tid links =>
      le32 pid ++ le32 tid ++ le64 (BitVec.ofNat 64 links.length) ++
        links.flatMap fun l => le64 l.1 ++ le64 l.2

end Payload

def headerBytes (type : BitVec 32) (misc size : BitVec 16) : List Byte :=
  le32 type ++ le16 misc ++ le16 size

end PapiSample.PerfEvent
