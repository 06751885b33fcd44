import Mathlib.Logic.Function.Basic
import PapiSample.MmapRead

/-!
The state that PAPI_sample.c works on: its globals, the blocks it allocates, and
the kernel's side of it, which is the open events and the buffers mapped from
them. Blocks and mappings are numbered, so that a pointer to one that is gone
remains a pointer to nothing else. A fault is an access the state does not allow.
-/
namespace PapiSample.Process

open Bytes PerfEvent ParseRecord MmapRead

structure Platform where
  arch : Arch
  pageSize : ℤ
  cpus : ℕ
  pageSize_pos : 0 < pageSize
  buffer_small : 8 * pageSize < 2 ^ 31

def MMAP_DATA_SIZE : ℤ := 8

structure Attr where
  type : BitVec 32
  size : BitVec 32
  config : BitVec 64
  config1 : BitVec 64
  config2 : BitVec 64
  samplePeriod : BitVec 64
  sampleType : BitVec 64
  readFormat : BitVec 64
  disabled : Bool
  pinned : Bool
  excludeUser : Bool
  excludeKernel : Bool
  excludeHv : Bool
  preciseIp : BitVec 2
  wakeupEvents : BitVec 32
  branchSampleType : BitVec 64
  sampleRegsIntr : BitVec 64

def Attr.zero : Attr where
  type := 0
  size := 0
  config := 0
  config1 := 0
  config2 := 0
  samplePeriod := 0
  sampleType := 0
  readFormat := 0
  disabled := false
  pinned := false
  excludeUser := false
  excludeKernel := false
  excludeHv := false
  preciseIp := 0
  wakeupEvents := 0
  branchSampleType := 0
  sampleRegsIntr := 0

structure Slot where
  block : ℕ
  index : ℕ
  deriving DecidableEq, Repr

structure MapInfo where
  sampleMmap : ℕ
  fd : Slot
  prevHead : Slot
  deriving DecidableEq, Repr

structure File where
  attr : Attr
  enabled : Bool

structure Ring where
  fd : ℤ
  mapping : Mapping

inductive Fault
  | nullEntry | unmappedRing | freedFds | freedHeads | freedData | closedLog | rearmed
  deriving DecidableEq, Repr

/-- An entry of `mmaps` that was never written is null. The last two fields are
not part of the program: the descriptors PAPI_sample_stop has disabled, and the
accesses that were not allowed. -/
structure World where
  sampleTypeHandle : BitVec 32
  readFormatHandle : BitVec 32
  sampleRegs : BitVec 64
  mmaps : ℕ → Option MapInfo
  numMaps : ℕ
  block : ℕ
  fds : ℕ → ℕ → ℤ
  heads : ℕ → ℕ → ℤ
  data : Memory
  fdsLive : ℕ → Bool
  headsLive : ℕ → Bool
  dataLive : Bool
  logOpen : Bool
  files : ℤ → Option File
  rings : ℕ → Option Ring
  nextRing : ℕ
  stopped : ℤ → Bool
  faults : List Fault

def readFormatDefault : BitVec 32 :=
  PERF_FORMAT_GROUP ||| PERF_FORMAT_ID ||| PERF_FORMAT_TOTAL_TIME_ENABLED |||
    PERF_FORMAT_TOTAL_TIME_RUNNING

def World.initial : World where
  sampleTypeHandle := SampleField.ip.mask ||| SampleField.read.mask ||| SampleField.cpu.mask
  readFormatHandle := readFormatDefault
  sampleRegs := 0
  mmaps := fun _ => none
  numMaps := 0
  block := 0
  fds := fun _ _ => 0
  heads := fun _ _ => 0
  data := fun _ => 0
  fdsLive := fun _ => false
  headsLive := fun _ => false
  dataLive := false
  logOpen := false
  files := fun _ => none
  rings := fun _ => none
  nextRing := 0
  stopped := fun _ => false
  faults := []

/-- PERF_EVENT_IOC_DISABLE, and PERF_EVENT_IOC_ENABLE or REFRESH: they fail on
a descriptor that is closed. -/
def World.setEnabled (w : World) (fd : ℤ) (enabled : Bool) : World :=
  { w with files := Function.update w.files fd ((w.files fd).map fun f => { f with enabled }) }

def World.blame (w : World) (fault : Fault) : World := { w with faults := fault :: w.faults }

def World.access (w : World) (ok : Bool) (fault : Fault) : World :=
  if ok then w else w.blame fault

def World.currentFd (w : World) (i : ℕ) : ℤ := w.fds w.block i

def World.currentHead (w : World) (i : ℕ) : ℤ := w.heads w.block i

/-- The globals that say where everything is; PAPI_sample_init alone writes them. -/
structure Registry where
  sampleTypeHandle : BitVec 32
  readFormatHandle : BitVec 32
  sampleRegs : BitVec 64
  mmaps : ℕ → Option MapInfo
  numMaps : ℕ
  block : ℕ
  fds : ℕ → ℕ → ℤ

def World.registry (w : World) : Registry :=
  ⟨w.sampleTypeHandle, w.readFormatHandle, w.sampleRegs, w.mmaps, w.numMaps, w.block, w.fds⟩

/-- What PAPI_sample_stop releases: the blocks, the log and the descriptors. -/
structure Resources where
  fdsLive : ℕ → Bool
  headsLive : ℕ → Bool
  dataLive : Bool
  logOpen : Bool
  isOpen : ℤ → Bool
  stopped : ℤ → Bool

def World.resources (w : World) : Resources :=
  ⟨w.fdsLive, w.headsLive, w.dataLive, w.logOpen, fun fd => (w.files fd).isSome, w.stopped⟩

section
variable (w : World) (ok : Bool) (fault : Fault)

@[simp] theorem access_registry : (w.access ok fault).registry = w.registry := by
  cases ok <;> rfl

@[simp] theorem access_resources : (w.access ok fault).resources = w.resources := by
  cases ok <;> rfl

@[simp] theorem access_rings : (w.access ok fault).rings = w.rings := by
  cases ok <;> rfl

@[simp] theorem access_heads : (w.access ok fault).heads = w.heads := by
  cases ok <;> rfl

end

/-- Arming or disarming an event opens and closes nothing. -/
@[simp] theorem setEnabled_resources (w : World) (fd : ℤ) (enabled : Bool) :
    (w.setEnabled fd enabled).resources = w.resources := by
  have hopen : (fun d => ((w.setEnabled fd enabled).files d).isSome) =
      fun d => (w.files d).isSome := by
    funext d
    by_cases hd : d = fd
    · subst hd
      simp [World.setEnabled]
    · simp [World.setEnabled, Function.update_of_ne hd]
  unfold World.resources
  rw [hopen]
  rfl

end PapiSample.Process
