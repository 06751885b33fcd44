import PapiSample.EventSetup

/-!
PAPI_sample_init and PAPI_sample_start. The outside answers are given in
advance: a list of successes and failures for the allocations and the calls that
open files, and the number perf_event_open returns for each processor and attempt.
-/
namespace PapiSample.SampleInit

open PerfEvent ParseRecord MmapRead Process EventSetup

structure Answers where
  attrSize : BitVec 32
  encoding : ℕ → List Char → Attr → Option Attr
  mallocData : Bool
  openLog : Bool
  reopenLog : Bool
  allocArrays : Bool
  sigaction : Bool
  perfEventOpen : ℕ → ℕ → ℤ
  mmap : ℕ → Bool

structure Args where
  eventCodes : List Char
  sampleType : BitVec 32
  samplePeriod : BitVec 32

/-- How PAPI_sample_init ends: it returns the array `fds`, it returns -1, or the
process exits. -/
inductive Outcome
  | fds (block : ℕ) (w : World)
  | minusOne
  | exited (code : ℤ)

structure Progress where
  world : World
  eventCodes : List Char
  sampleType : BitVec 32

/-- The descriptor of a processor, opened without branches if need be, with the
attributes it was opened with and the `sample_type` the loop goes on with. -/
structure Opened where
  fd : ℤ
  attr : Attr
  sampleType : BitVec 32

/-- The two attempts to open an event; after the second the test fails. -/
def openEvent (a : Answers) (i : ℕ) (attr : Attr) (sampleType : BitVec 32) :
    Except ℤ Opened :=
  if a.perfEventOpen i 0 < 0 then
    let sampleType := sampleType &&& ~~~ SampleField.branchStack.mask
    let attr := { attr with sampleType := sampleType.signExtend 64 }
    if a.perfEventOpen i 1 < 0 then .error 1
    else .ok { fd := a.perfEventOpen i 1, attr, sampleType }
  else .ok { fd := a.perfEventOpen i 0, attr, sampleType }

def newRing (fd : ℤ) : Ring where
  fd := fd
  mapping := { dataHead := 0, dataTail := 0, ring := fun _ => 0 }

def register (w : World) (i : ℕ) (fd : ℤ) (attr : Attr) : World :=
  { w with
    fds := Function.update w.fds w.block (Function.update (w.fds w.block) i fd)
    files := Function.update w.files fd (some { attr, enabled := !attr.disabled })
    stopped := Function.update w.stopped fd false
    rings := Function.update w.rings w.nextRing (some (newRing fd))
    nextRing := w.nextRing + 1
    mmaps := Function.update w.mmaps i
      (some { sampleMmap := w.nextRing, fd := ⟨w.block, i⟩, prevHead := ⟨w.block, i⟩ })
    numMaps := w.numMaps + 1 }

def openCpu (pl : Platform) (a : Answers) (args : Args) (i : ℕ) (p : Progress) :
    Except ℤ Progress := do
  let setup ← newSetupPerf ⟨a.attrSize, a.encoding i⟩ pl.arch
    ⟨p.world.sampleTypeHandle, p.world.readFormatHandle⟩ p.world.sampleRegs p.eventCodes
    p.sampleType args.samplePeriod true
  let opened ← openEvent a i setup.attr p.sampleType
  if a.mmap i then
    .ok {
      world := register { p.world with sampleRegs := setup.sampleRegs } i opened.fd opened.attr
      eventCodes := setup.eventCode
      sampleType := opened.sampleType }
  else .error 1

def openCpus (pl : Platform) (a : Answers) (args : Args) : ℕ → ℕ → Progress → Except ℤ Progress
  | _, 0, p => .ok p
  | i, n + 1, p => (openCpu pl a args i p).bind (openCpus pl a args (i + 1) n)

def allocate (w : World) (args : Args) : World :=
  { w with
    sampleTypeHandle := args.sampleType
    dataLive := true
    logOpen := true
    block := w.block + 1
    heads := Function.update w.heads (w.block + 1) fun _ => 0
    fdsLive := Function.update w.fdsLive (w.block + 1) true
    headsLive := Function.update w.headsLive (w.block + 1) true }

/-- PAPI_sample_init, for at least one event; the arrays have an element for
each event and processor. -/
def papiSampleInit (pl : Platform) (a : Answers) (args : Args) (w : World) : Outcome :=
  if !a.mallocData then .minusOne
  else if !(a.openLog && a.reopenLog) then .exited 1
  else if pl.cpus = 0 then .minusOne
  else if !a.allocArrays then .exited 1
  else if !a.sigaction then .exited 1
  else
    match openCpus pl a args 0 pl.cpus ⟨allocate w args, args.eventCodes, args.sampleType⟩ with
    | .error code => .exited code
    | .ok p => .fds p.world.block p.world

def papiSampleStart (pl : Platform) (block : ℕ) (w : World) : World :=
  (List.range pl.cpus).foldl (fun w i => w.setEnabled (w.fds block i) true) w

end PapiSample.SampleInit
