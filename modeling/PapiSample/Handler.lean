import PapiSample.CircularBuffer
import PapiSample.SampleInit
import PapiSample.Transition

/-!
PAPI_sample_handler and PAPI_sample_stop, statement by statement. The kernel may
append to a ring between any two statements. A signal interrupts the main
program, which goes on when the handler returns; handler runs do not overlap.
-/
namespace PapiSample.Handler

open Bytes Cursor ParseRecord RecordLoop MmapRead Process EventSetup Transition

/-- The next statement of the handler; those from `readHead` to `storeTail` are
inside perf_mmap_read. -/
inductive Pc
  | disable | lookup | readHead | copyToEnd | copyFromStart | recordLoop | clear | storeTail
  | storePrevHead | refresh
  deriving DecidableEq, Repr

/-- The variables of a handler run: `fd` is `info->si_fd`. -/
structure Frame where
  pc : Pc
  fd : ℤ
  i : ℕ
  prevHead : ℤ
  ourMmap : ℕ
  head : ℤ

def Frame.start (fd : ℤ) : Frame where
  pc := .disable
  fd := fd
  i := 0
  prevHead := 0
  ourMmap := 0
  head := 0

def Frame.goto (f : Frame) (pc : Pc) : Frame := { f with pc }

inductive Found
  | entry (i : ℕ) (e : MapInfo)
  | missing
  | crashed
  deriving DecidableEq, Repr

def lookupFrom (w : World) (fd : ℤ) : ℕ → ℕ → Found
  | _, 0 => .missing
  | i, n + 1 =>
    match w.mmaps i with
    | none => .crashed
    | some e => if w.fds e.fd.block e.fd.index = fd then .entry i e else lookupFrom w fd (i + 1) n

/-- With an empty registry the handler goes on with null pointers. -/
def lookup (w : World) (fd : ℤ) : Found :=
  if w.numMaps = 0 then .crashed else lookupFrom w fd 0 w.numMaps

def fdsReadable (w : World) (i : ℕ) : Bool :=
  (List.range (i + 1)).all fun j => ((w.mmaps j).map fun e => w.fdsLive e.fd.block).getD true

variable (pl : Platform)

def bytesize : ℤ := bufferSize MMAP_DATA_SIZE pl.pageSize

/-- What the handler passes to perf_mmap_read; `quiet` and `validate` are zero. -/
def decoderConfig (w : World) : Config where
  arch := pl.arch
  sampleType := w.sampleTypeHandle
  readFormat := w.readFormatHandle
  regMask := w.sampleRegs
  validate := none
  quiet := false
  rawType := RAW_NONE
  heap := fun _ => 0

inductive Next
  | at (f : Frame)
  | returned
  | killed

def Next.frame : Next → Option Frame
  | .at f => some f
  | .returned | .killed => none

/-- A statement that needs the mapping kills the process if there is none. -/
def withRing (f : Frame) (w : World) (k : Ring → World × Next) : World × Next :=
  match w.rings f.ourMmap with
  | none => (w.blame .unmappedRing, .killed)
  | some r => k r

def setData (w : World) (data : Memory) : World := { w with data }

def setMapping (w : World) (ring : ℕ) (r : Ring) (mapping : Mapping) : World :=
  { w with rings := Function.update w.rings ring (some { r with mapping }) }

def setHead (w : World) (slot : Slot) (head : ℤ) : World :=
  { w with
    heads := Function.update w.heads slot.block
      (Function.update (w.heads slot.block) slot.index head) }

/-- One statement of the handler. The record loop gets as many iterations as the
fuel allows; there is no result if it needs more, or if the process ends in it. -/
def statement (fuel : ℕ) (f : Frame) (w : World) : Option (World × Next) :=
  match f.pc with
  | .disable => some (w.setEnabled f.fd false, .at (f.goto .lookup))
  | .lookup =>
    match lookup w f.fd with
    | .entry i e =>
      let w' := (w.access (fdsReadable w i) .freedFds).access (w.headsLive e.prevHead.block)
        .freedHeads
      some (w', .at { f with
        pc := .readHead
        i := i
        prevHead := w.heads e.prevHead.block e.prevHead.index
        ourMmap := e.sampleMmap })
    | .missing => some (w.access (fdsReadable w (w.numMaps - 1)) .freedFds, .killed)
    | .crashed => some (w.blame .nullEntry, .killed)
  | .readHead => some <| withRing f w fun r =>
      (w, .at { f with pc := .copyToEnd, head := readHead r.mapping })
  | .copyToEnd => some <| withRing f w fun r =>
      let first := copyToEnd (bytesize pl) (prevHeadWrap (bytesize pl) f.prevHead) r.mapping.ring
      (setData (w.access w.dataLive .freedData) (first w.data), .at (f.goto .copyFromStart))
  | .copyFromStart => some <| withRing f w fun r =>
      let second := copyFromStart (bytesize pl) (prevHeadWrap (bytesize pl) f.prevHead)
        r.mapping.ring
      (setData (w.access w.dataLive .freedData) (second w.data), .at (f.goto .recordLoop))
  | .recordLoop =>
    let size := windowSize f.head f.prevHead
    (recordLoop (decoderConfig pl w) size w.data fuel (loopStart none)).map fun _ =>
      (w.access (w.logOpen || decide (size ≤ 0)) .closedLog, .at (f.goto .clear))
  | .clear =>
    some (setData (w.access w.dataLive .freedData) (clear w.data (bytesize pl)),
      .at (f.goto .storeTail))
  | .storeTail => some <| withRing f w fun r =>
      (setMapping w f.ourMmap r (storeTail r.mapping f.head), .at (f.goto .storePrevHead))
  | .storePrevHead =>
    match w.mmaps f.i with
    | none => some (w.blame .nullEntry, .killed)
    | some e =>
      some (setHead (w.access (w.headsLive e.prevHead.block) .freedHeads) e.prevHead f.head,
        .at (f.goto .refresh))
  | .refresh =>
    let rearms := (w.files f.fd).isSome && w.stopped f.fd
    some ((w.access (!rearms) .rearmed).setEnabled f.fd true, .returned)

inductive StopStep
  | refresh (i : ℕ) | disable (i : ℕ) | close (i : ℕ) | unmap (i : ℕ)
  | closeLog | freeFds | freeHeads | freeData
  deriving DecidableEq, Repr

def stopSteps (cpus numMaps : ℕ) : List StopStep :=
  (List.range cpus).flatMap (fun i => [.refresh i, .disable i]) ++
    ((List.range cpus).map .close ++ ((List.range numMaps).map .unmap ++
      [.closeLog, .freeFds, .freeHeads, .freeData]))

theorem mem_stopSteps {cpus numMaps : ℕ} {s : StopStep} :
    s ∈ stopSteps cpus numMaps ↔
      match s with
      | .refresh i | .disable i | .close i => i < cpus
      | .unmap i => i < numMaps
      | .closeLog | .freeFds | .freeHeads | .freeData => True := by
  cases s <;> simp [stopSteps]

def perform (w : World) : StopStep → World
  | .refresh i => w.setEnabled (w.currentFd i) true
  | .disable i =>
    { w.setEnabled (w.currentFd i) false with
      stopped := Function.update w.stopped (w.currentFd i) true }
  | .close i => { w with files := Function.update w.files (w.currentFd i) none }
  | .unmap i =>
    match w.mmaps i with
    | none => w
    | some e => { w with rings := Function.update w.rings e.sampleMmap none }
  | .closeLog => { w with logOpen := false }
  | .freeFds => { w with fdsLive := Function.update w.fdsLive w.block false }
  | .freeHeads => { w with headsLive := Function.update w.headsLive w.block false }
  | .freeData => { w with dataLive := false }

/-- The process, while it is alive, and the two threads of control in it: a handler
run, or none, and what PAPI_sample_stop has yet to do. -/
structure State where
  world : World
  handler : Option Frame
  main : List StopStep
  alive : Bool

theorem idle_ne {s : State} {f : Frame} (hidle : s.handler = none) : s.handler ≠ some f := by
  rw [hidle]
  exact (Option.some_ne_none f).symm

/-- What happens in a step. For a signal this includes how far PAPI_sample_stop
has got, and for a statement the bytes it gives to the record loop. -/
inductive Label
  | append (ring : ℕ) (bytes : List Byte)
  | signal (i : ℕ) (rest : List StopStep)
  | statement (fd : ℤ) (pc : Pc) (given : List Byte)
  | main (s : StopStep)

def given (f : Frame) (w : World) : List Byte :=
  if f.pc = .recordLoop then readBytes w.data 0 (windowSize f.head f.prevHead).toNat else []

def kernelAppend (r : Ring) (bytes : List Byte) : Mapping :=
  { r.mapping with
    dataHead := r.mapping.dataHead + bytes.length
    ring := CircularBuffer.place (bytesize pl) r.mapping.ring r.mapping.dataHead bytes }

def resume (s : State) (w : World) : Next → State
  | .at f => { s with world := w, handler := some f }
  | .returned => { s with world := w, handler := none }
  | .killed => { s with world := w, handler := none, alive := false }

@[simp] theorem resume_world (s : State) (w : World) (next : Next) :
    (resume s w next).world = w := by
  cases next <;> rfl

@[simp] theorem resume_handler (s : State) (w : World) (next : Next) :
    (resume s w next).handler = next.frame := by
  cases next <;> rfl

@[simp] theorem resume_main (s : State) (w : World) (next : Next) :
    (resume s w next).main = s.main := by
  cases next <;> rfl

inductive Step : State → Label → State → Prop
  | append {s : State} {r : Ring} (ring : ℕ) (bytes : List Byte) :
      s.world.rings ring = some r →
      (r.mapping.dataHead + bytes.length : ℤ) ≤ r.mapping.dataTail + bytesize pl →
      r.mapping.dataHead + bytes.length < 2 ^ 63 →
      Step s (.append ring bytes)
        { s with world := setMapping s.world ring r (kernelAppend pl r bytes) }
  | signal {s : State} (i : ℕ) :
      s.alive = true → s.handler = none → i < pl.cpus →
      Step s (.signal i s.main) { s with handler := some (Frame.start (s.world.currentFd i)) }
  | statement {s : State} {f : Frame} {w : World} {next : Next} (fuel : ℕ) :
      s.handler = some f → statement pl fuel f s.world = some (w, next) →
      Step s (.statement f.fd f.pc (given f s.world)) (resume s w next)
  | main {s : State} {t : StopStep} {rest : List StopStep} :
      s.alive = true → s.handler = none → s.main = t :: rest →
      Step s (.main t) { s with world := perform s.world t, main := rest }

/-- The state in which PAPI_sample_start has returned and PAPI_sample_stop is
still to be called. -/
def State.sampling (pl : Platform) (w : World) : State where
  world := w
  handler := none
  main := stopSteps pl.cpus w.numMaps
  alive := true

end PapiSample.Handler
