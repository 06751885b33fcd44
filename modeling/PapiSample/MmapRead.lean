import PapiSample.CircularBuffer
import PapiSample.RecordLoop

/-!
perf_mmap_read as a whole: it reads the kernel's position in the ring, copies
the ring into the data buffer so that the unread bytes stand at its start, runs
the record loop over them and hands the space back to the kernel. The statements
around the loop have names of their own, since a signal handler can be
interrupted between any two of them.
-/
namespace PapiSample.MmapRead

open Bytes Cursor ParseRecord RecordLoop

/-- The mapping of one descriptor: the positions kept in its control page, as
`__u64` values, and the data pages that follow. -/
structure Mapping where
  dataHead : ℕ
  dataTail : ℕ
  ring : Memory

def readHead (m : Mapping) : ℤ := wrap 64 m.dataHead

/-- `size=head-prev_head`, kept in an `int`. -/
def windowSize (head prevHead : ℤ) : ℤ := wrap 32 (head - prevHead)

/-- `mmap_size*getpagesize()`, multiplied as ints. -/
def bufferSize (mmapSize pageSize : ℤ) : ℤ := wrap 32 (mmapSize * pageSize)

def copyToEnd (bytesize prevHeadWrap : ℤ) (ring data : Memory) : Memory :=
  memcpy data 0 ring prevHeadWrap (bytesize - prevHeadWrap)

def copyFromStart (bytesize prevHeadWrap : ℤ) (ring data : Memory) : Memory :=
  memcpy data (bytesize - prevHeadWrap) ring 0 prevHeadWrap

def prevHeadWrap (bytesize prevHead : ℤ) : ℤ := prevHead.tmod bytesize

def unwrapRing (bytesize prevHead : ℤ) (ring data : Memory) : Memory :=
  copyFromStart bytesize (prevHeadWrap bytesize prevHead) ring
    (copyToEnd bytesize (prevHeadWrap bytesize prevHead) ring data)

def storeTail (m : Mapping) (head : ℤ) : Mapping := { m with dataTail := (head % 2 ^ 64).toNat }

def overflowReported (pageSize mmapSize prevHead : ℤ) (m : Mapping) : Bool :=
  bufferSize mmapSize pageSize < windowSize (readHead m) prevHead

structure Finished where
  value : ℤ
  overflow : Bool
  window : Memory
  loop : LoopState
  mapping : Mapping
  data : Memory

inductive Result
  | exited (code : ℤ)
  | early (value : ℤ)
  | finished (r : Finished)

def windowData (pageSize : ℤ) (m : Mapping) (mmapSize prevHead : ℤ) (data : Memory) : Memory :=
  unwrapRing (bufferSize mmapSize pageSize) prevHead m.ring data

def afterLoop (pageSize : ℤ) (m : Mapping) (mmapSize prevHead : ℤ) (data : Memory)
    (loop : LoopState) : Finished where
  value := readHead m
  overflow := overflowReported pageSize mmapSize prevHead m
  window := windowData pageSize m mmapSize prevHead data
  loop := loop
  mapping := storeTail m (readHead m)
  data := clear (windowData pageSize m mmapSize prevHead data) (bufferSize mmapSize pageSize)

/-- perf_mmap_read; `none` while the loop has not ended within the fuel, or if the process
ends in it. -/
def perfMmapRead (pageSize : ℤ) (ourMmap : Option Mapping) (mmapSize prevHead : ℤ) (c : Config)
    (eventsRead : Option ℕ) (fp : Bool) (data : Memory) (fuel : ℕ) : Option Result :=
  if !fp then some (.exited 1)
  else if mmapSize = 0 then some (.early 0)
  else
    match ourMmap with
    | none => some (.early (-1))
    | some m =>
      (recordLoop c (windowSize (readHead m) prevHead)
        (windowData pageSize m mmapSize prevHead data) fuel (loopStart eventsRead)).map
          fun loop => .finished (afterLoop pageSize m mmapSize prevHead data loop)

theorem perfMmapRead_finished {pageSize : ℤ} {m : Mapping} {mmapSize prevHead : ℤ} {c : Config}
    {eventsRead : Option ℕ} {data : Memory} {fuel : ℕ} {t : LoopState} (hmmap : mmapSize ≠ 0)
    (h : recordLoop c (windowSize (readHead m) prevHead)
      (windowData pageSize m mmapSize prevHead data) fuel (loopStart eventsRead) = some t) :
    perfMmapRead pageSize (some m) mmapSize prevHead c eventsRead true data fuel =
      some (.finished (afterLoop pageSize m mmapSize prevHead data t)) := by
  simp [perfMmapRead, hmmap, h]

/-- Index `k` of the data buffer receives the byte `k` positions after
`prev_head` in the ring. -/
theorem unwrapRing_apply (bytesize prevHead : ℤ) (ring data : Memory) (k : ℤ)
    (hprev : 0 ≤ prevHead) (hk : 0 ≤ k) (hk' : k < bytesize) :
    unwrapRing bytesize prevHead ring data k = ring ((prevHead + k) % bytesize) := by
  have hmod : prevHeadWrap bytesize prevHead = prevHead % bytesize :=
    Int.tmod_eq_emod_of_nonneg hprev
  simp only [unwrapRing, copyFromStart, copyToEnd, memcpy, hmod]
  rcases lt_or_ge k (bytesize - prevHead % bytesize) with hfirst | hsecond
  · rw [if_neg (by omega), if_pos (by omega), CircularBuffer.cell_toEnd hk hfirst (by omega),
      Int.sub_zero]
  · rw [if_pos (by omega), CircularBuffer.cell_fromStart hsecond hk' (by omega), Int.zero_add]

end PapiSample.MmapRead
