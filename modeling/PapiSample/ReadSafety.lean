import PapiSample.BufferBounds

/-!
The reads and the lengths of a whole call of perf_mmap_read, for any positions
of the kernel and the caller and any contents of the ring.
-/
namespace PapiSample.ReadSafety

open Bytes Cursor PerfEvent ParseRecord SampleFields RecordLoop Advance RecordAdvance Termination
  Extent FieldBounds BlockBounds BufferBounds MmapRead While

def copyLengths (bytesize prevHead : ℤ) : List ℤ :=
  [bytesize - prevHeadWrap bytesize prevHead, prevHeadWrap bytesize prevHead]

/-- No length is negative, and every iteration the loop performs, whether it
ends or not, reads inside the buffer only. -/
def ReadsInside (pageSize : ℤ) (m : Mapping) (mmapSize prevHead : ℤ) (c : Config)
    (eventsRead : Option ℕ) (data : Memory) : Prop :=
  let bytesize := bufferSize mmapSize pageSize
  let size := windowSize (readHead m) prevHead
  let window := windowData pageSize m mmapSize prevHead data
  (∀ n ∈ copyLengths bytesize prevHead, 0 ≤ n) ∧
    ∀ t, Reaches (inWindow size) (loopBody c size window) (loopStart eventsRead) t →
      inWindow size t = true → Safe Sound 0 bytesize (iteration c size) window t.offset

theorem bufferSize_fits (mmapSize pageSize : ℤ) : Fits 32 (bufferSize mmapSize pageSize) :=
  ⟨by omega, wrap_lt 32 _ (by omega)⟩

theorem isInt_windowSize (head prevHead : ℤ) : IsInt (windowSize head prevHead) :=
  wrap_wrap 32 (head - prevHead)

theorem copyLengths_nonneg (bytesize prevHead : ℤ) (hbuffer : 0 < bytesize) :
    (∀ n ∈ copyLengths bytesize prevHead, 0 ≤ n) ↔ 0 ≤ prevHead ∨ bytesize ∣ prevHead := by
  have hlt := Int.tmod_lt_of_pos prevHead hbuffer
  simp only [copyLengths, prevHeadWrap, List.mem_cons, List.not_mem_nil, or_false, forall_eq_or_imp,
    forall_eq]
  constructor
  · rintro ⟨_, hwrap⟩
    by_cases hprev : 0 ≤ prevHead
    · exact Or.inl hprev
    · have hneg := Int.tmod_nonneg bytesize (by omega : 0 ≤ -prevHead)
      rw [Int.neg_tmod] at hneg
      exact Or.inr (Int.dvd_of_tmod_eq_zero (by omega))
  · rintro (hprev | hdvd)
    · exact ⟨by omega, Int.tmod_nonneg bytesize hprev⟩
    · rw [Int.tmod_eq_zero_of_dvd hdvd]
      omega

/-- All iterations are safe when all the records they start at lie inside. -/
theorem iterations_safe {bytesize size : ℤ} (hfits : Fits 32 bytesize) (hsize : IsInt size)
    (c : Config) (mem : Memory) (eventsRead : Option ℕ) :
    (∀ t, Reaches (inWindow size) (loopBody c size mem) (loopStart eventsRead) t →
        inWindow size t = true → Safe Sound 0 bytesize (iteration c size) mem t.offset) ↔
      ∀ start, Reached c size mem start → start < size → RecordInside c bytesize mem start := by
  constructor
  · intro h start hreached hlt
    obtain ⟨t, hreach, rfl⟩ := reaches_of_reached hsize (loopStart eventsRead) rfl hreached
    exact (iteration_safe hfits size _).mp (h t hreach (by simpa [inWindow] using hlt))
  · intro h t hreach hin
    have hreached := reached_of_reaches hsize (s := loopStart eventsRead)
      Relation.ReflTransGen.refl hreach
    exact (iteration_safe hfits size _).mpr (h _ hreached (by simpa [inWindow] using hin))

/-- A call stays inside its buffer exactly when the unread part starts at a
position that is not negative, or at a multiple of the length of the ring, and
every record the loop comes to lies inside. -/
theorem perfMmapRead_inside_iff (pageSize : ℤ) (m : Mapping) (mmapSize prevHead : ℤ) (c : Config)
    (eventsRead : Option ℕ) (data : Memory) (hbuffer : 0 < bufferSize mmapSize pageSize) :
    ReadsInside pageSize m mmapSize prevHead c eventsRead data ↔
      (0 ≤ prevHead ∨ bufferSize mmapSize pageSize ∣ prevHead) ∧
        ∀ start,
          Reached c (windowSize (readHead m) prevHead)
              (windowData pageSize m mmapSize prevHead data) start →
            start < windowSize (readHead m) prevHead →
              RecordInside c (bufferSize mmapSize pageSize)
                (windowData pageSize m mmapSize prevHead data) start :=
  and_congr (copyLengths_nonneg _ prevHead hbuffer)
    (iterations_safe (bufferSize_fits ..) (isInt_windowSize ..) c _ eventsRead)

/-- What a finished call has read and allocated. -/
theorem finished_inside {pageSize : ℤ} {m : Mapping} {mmapSize prevHead : ℤ} {c : Config}
    {eventsRead : Option ℕ} {data : Memory}
    (h : ReadsInside pageSize m mmapSize prevHead c eventsRead data) {fuel : ℕ} {t : LoopState}
    (hrun : recordLoop c (windowSize (readHead m) prevHead)
      (windowData pageSize m mmapSize prevHead data) fuel (loopStart eventsRead) = some t) :
    ∀ step ∈ (afterLoop pageSize m mmapSize prevHead data t).loop.trace, ∀ e ∈ step.2,
      Inside Sound 0 (bufferSize mmapSize pageSize) e :=
  trace_events rfl h.2 (loop_reaches fuel _ _ hrun).1

def chainConfig : Config where
  arch := .x86_64
  sampleType := 0x20
  readFormat := 0
  regMask := 0
  validate := none
  quiet := true
  rawType := RAW_NONE
  heap := fun _ => 0

def chainRing (nr : BitVec 64) : Mapping where
  dataHead := 24
  dataTail := 0
  ring := overlay (headerBytes 9 0 24 ++ le64 nr) fun _ => 0

def chainWindow (nr : BitVec 64) : Memory := windowData 4096 (chainRing nr) 1 0 fun _ => 0

/-- In a ring of one page, a thousand return addresses are read far behind the
end of the data buffer. -/
theorem longChain_outside :
    0 < bufferSize 1 4096 ∧
      ¬ ReadsInside 4096 (chainRing 1000) 1 0 chainConfig none fun _ => 0 := by
  refine ⟨by decide, fun h => ?_⟩
  have hbuffer : bufferSize 1 4096 = 4096 := by decide
  have htype : RecordType.ofCode (word32 (chainWindow 1000) 0) = some .sample := by decide
  have hcount : countAt (chainWindow 1000) 8 = 1000 := by decide +kernel
  have hin : inWindow (windowSize (readHead (chainRing 1000)) 0) (loopStart none) = true := by
    decide
  have hrecord : RecordInside chainConfig (bufferSize 1 4096) (chainWindow 1000) 0 :=
    (iteration_safe (bufferSize_fits 1 4096) _ _).mp
      (h.2 (loopStart none) Relation.ReflTransGen.refl hin)
  have hchain : FieldInside chainConfig (bufferSize 1 4096) (chainWindow 1000) 8 .callchain :=
    ((recordInside_sample htype).mp hrecord).2.1
  have hspan := hchain.2
  rw [hbuffer, fieldRead, hcount] at hspan
  have := hspan (by omega)
  omega

/-- A sample with a single return address lies inside. -/
theorem shortChain_records (start : ℤ) (hreached : Reached chainConfig 24 (chainWindow 1) start)
    (hlt : start < 24) : RecordInside chainConfig 4096 (chainWindow 1) start := by
  have hlength : recordLength chainConfig 24 (chainWindow 1) 0 = some 24 := by decide +kernel
  have htype : RecordType.ofCode (word32 (chainWindow 1) 0) = some .sample := by decide
  have hcount : countAt (chainWindow 1) 8 = 1 := by decide +kernel
  obtain rfl := hreached.only_first hlength (by decide) hlt
  refine (recordInside_sample htype).mpr ⟨by decide, ⟨nofun, ?_⟩, fun _ _ => trivial⟩
  have hspan : fieldRead chainConfig (chainWindow 1) 8 .callchain = 16 := by
    rw [fieldRead, hcount]
    rfl
  exact (congrArg (Span 0 4096 8) hspan).mpr (by decide)

theorem shortChain_inside :
    0 < bufferSize 1 4096 ∧ ReadsInside 4096 (chainRing 1) 1 0 chainConfig none fun _ => 0 := by
  have hbuffer : bufferSize 1 4096 = 4096 := by decide
  have hsize : windowSize (readHead (chainRing 1)) 0 = 24 := by decide
  refine ⟨by omega, (perfMmapRead_inside_iff 4096 (chainRing 1) 1 0 chainConfig none _
    (by omega)).mpr ⟨Or.inl (by omega), ?_⟩⟩
  rw [hsize, hbuffer]
  exact shortChain_records

end PapiSample.ReadSafety
