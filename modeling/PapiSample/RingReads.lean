import PapiSample.Delivery
import PapiSample.HandlerRuns

/-!
One ring of a session and what the handler has read of it. The bytes the kernel
writes to the ring are a stream, and what the record loop is given is delivered
from it. Between the statements of a handler run the kernel may append, which
makes the stream longer and takes nothing back that was said about its parts.
-/
namespace PapiSample.RingReads

open Bytes CircularBuffer Delivery MmapRead Process Handler Registry HandlerRuns

theorem bytesize_eq (pl : Platform) : bytesize pl = 8 * pl.pageSize := by
  have hpos := pl.pageSize_pos
  have hsmall := pl.buffer_small
  exact Int.bmod_eq_of_le (by simp only [MMAP_DATA_SIZE]; omega)
    (by simp only [MMAP_DATA_SIZE]; omega)

theorem bytesize_pos (pl : Platform) : 0 < bytesize pl := by
  have := bytesize_eq pl
  have := pl.pageSize_pos
  omega

theorem bytesize_lt (pl : Platform) : bytesize pl < 2 ^ 31 := by
  have := bytesize_eq pl
  have := pl.buffer_small
  omega

/-- The kernel's side of a ring: it holds all that was written and not yet
handed back, which is at most what fits. -/
structure Tracks (size : ℤ) (st : Stream Byte) (m : Mapping) : Prop where
  head : m.dataHead = st.produced.length
  small : m.dataHead < 2 ^ 63
  behind : m.dataTail ≤ m.dataHead
  lap : (m.dataHead : ℤ) ≤ m.dataTail + size
  stores : Stores size m.ring st.produced m.dataTail

structure Settled (st : Stream Byte) (tail : ℕ) (prev : ℤ) : Prop where
  prev : prev = tail
  delivered : st.delivered.length = tail

structure Aimed (st : Stream Byte) (tail : ℕ) (prev : ℤ) (f : Frame) : Prop where
  settled : Settled st tail prev
  prevHead : f.prevHead = tail
  lower : (tail : ℤ) ≤ f.head
  upper : f.head ≤ st.produced.length

structure Handed (st : Stream Byte) (tail : ℕ) (f : Frame) : Prop where
  delivered : (st.delivered.length : ℤ) = f.head
  lower : (tail : ℤ) ≤ f.head
  upper : f.head ≤ st.produced.length

def Stage (size : ℤ) (st : Stream Byte) (tail : ℕ) (prev : ℤ) (data : Memory) (f : Frame) : Prop :=
  match f.pc with
  | .disable | .lookup | .refresh => Settled st tail prev
  | .readHead => Settled st tail prev ∧ f.prevHead = tail
  | .copyToEnd => Aimed st tail prev f
  | .copyFromStart =>
    Aimed st tail prev f ∧ Copied data st.produced tail f.head (size - tail % size)
  | .recordLoop => Aimed st tail prev f ∧ Copied data st.produced tail f.head size
  | .clear | .storeTail => Handed st tail f
  | .storePrevHead => Handed st tail f ∧ f.head = tail

def After (size : ℤ) (st : Stream Byte) (tail : ℕ) (prev : ℤ) (data : Memory) : Next → Prop
  | .at f => Stage size st tail prev data f
  | .returned => Settled st tail prev
  | .killed => False

variable {pl : Platform} {ses : Session} {size : ℤ} {st : Stream Byte} {m : Mapping} {tail : ℕ}
  {prev : ℤ} {data : Memory} {f : Frame}

theorem Tracks.append (h : Tracks size st m) (bytes : List Byte)
    (hlap : (m.dataHead + bytes.length : ℤ) ≤ m.dataTail + size)
    (hsmall : m.dataHead + bytes.length < 2 ^ 63) :
    Tracks size (st.produce bytes)
      { m with
        dataHead := m.dataHead + bytes.length
        ring := place size m.ring m.dataHead bytes } where
  head := by
    simp only [Stream.produce, List.length_append, h.head]
  small := hsmall
  behind := by
    have := h.behind
    show m.dataTail ≤ m.dataHead + bytes.length
    omega
  lap := by simpa using hlap
  stores := by
    have hstores := h.stores
    simp only [h.head] at hlap ⊢
    exact hstores.append bytes hlap

theorem Aimed.produce (h : Aimed st tail prev f) (bytes : List Byte) :
    Aimed (st.produce bytes) tail prev f where
  settled := ⟨h.settled.prev, h.settled.delivered⟩
  prevHead := h.prevHead
  lower := h.lower
  upper := by
    have := h.upper
    simp only [Stream.produce, List.length_append]
    omega

theorem Handed.produce (h : Handed st tail f) (bytes : List Byte) :
    Handed (st.produce bytes) tail f where
  delivered := h.delivered
  lower := h.lower
  upper := by
    have := h.upper
    simp only [Stream.produce, List.length_append]
    omega

/-- The kernel may append at any stage. -/
theorem Stage.produce (h : Stage size st tail prev data f) (bytes : List Byte) :
    Stage size (st.produce bytes) tail prev data f := by
  unfold Stage at h ⊢
  split at h
  · exact ⟨h.prev, h.delivered⟩
  · exact ⟨h.prev, h.delivered⟩
  · exact ⟨h.prev, h.delivered⟩
  · exact ⟨⟨h.1.prev, h.1.delivered⟩, h.2⟩
  · exact h.produce bytes
  · exact ⟨h.1.produce bytes, h.2.append bytes h.1.upper⟩
  · exact ⟨h.1.produce bytes, h.2.append bytes h.1.upper⟩
  · exact Handed.produce h bytes
  · exact Handed.produce h bytes
  · exact ⟨h.1.produce bytes, h.2⟩

theorem prevHeadWrap_tail (size : ℤ) (tail : ℕ) : prevHeadWrap size tail = tail % size :=
  Int.tmod_eq_emod_of_nonneg (by omega)

theorem copyToEnd_copied (htracks : Tracks size st m) (hsize : 0 < size)
    (haimed : Aimed st m.dataTail prev f) :
    Copied (copyToEnd size (prevHeadWrap size f.prevHead) m.ring data) st.produced m.dataTail
      f.head (size - m.dataTail % size) := by
  rw [haimed.prevHead, prevHeadWrap_tail]
  apply htracks.stores.copied_toEnd hsize haimed.upper
  intro k hk hlt
  simp only [copyToEnd, memcpy]
  rw [if_pos (by omega), Int.sub_zero]

theorem copyFromStart_copied (htracks : Tracks size st m) (hsize : 0 < size)
    (haimed : Aimed st m.dataTail prev f)
    (hcopied : Copied data st.produced m.dataTail f.head (size - m.dataTail % size)) :
    Copied (copyFromStart size (prevHeadWrap size f.prevHead) m.ring data) st.produced m.dataTail
      f.head size := by
  rw [haimed.prevHead, prevHeadWrap_tail]
  refine hcopied.fromStart htracks.stores hsize haimed.upper (fun k _ hlt => ?_) fun k hk hlt => ?_
  · simp only [copyFromStart, memcpy]
    rw [if_neg (by omega)]
  · simp only [copyFromStart, memcpy]
    rw [if_pos (by omega), Int.zero_add]

theorem Tracks.handBack (htracks : Tracks size st m) (hhanded : Handed st m.dataTail f) :
    Tracks size st (storeTail m f.head) ∧ f.head = (storeTail m f.head).dataTail := by
  have hhead := htracks.head
  have hsmall := htracks.small
  have hlap := htracks.lap
  have hlower := hhanded.lower
  have hupper := hhanded.upper
  have hmod : f.head % 2 ^ 64 = f.head := Int.emod_eq_of_lt (by omega) (by omega)
  have htail : ((storeTail m f.head).dataTail : ℤ) = f.head := by
    simp only [storeTail, hmod]
    omega
  refine ⟨⟨hhead, hsmall, ?_, ?_, ?_⟩, htail.symm⟩
  · show (storeTail m f.head).dataTail ≤ m.dataHead
    omega
  · show (m.dataHead : ℤ) ≤ (storeTail m f.head).dataTail + size
    omega
  · exact htracks.stores.advance (by omega)

theorem readHead_eq (htracks : Tracks size st m) : readHead m = st.produced.length := by
  have hsmall := htracks.small
  rw [readHead, Bytes.wrap, Int.bmod_eq_of_le (by omega) (by omega), htracks.head]

/-- A window that was copied in full holds what waits for delivery. -/
theorem Copied.readBytes {stream : List Byte} {n : ℕ} (h : Copied data stream tail (tail + n) size)
    (hn : (n : ℤ) ≤ size) : readBytes data 0 n = (stream.drop tail).take n := by
  apply List.ext_getElem?
  intro k
  rcases Nat.lt_or_ge k n with hk | hk
  · rw [readBytes_getElem? data 0 n k hk, List.getElem?_take_of_lt hk, List.getElem?_drop,
      h k (by omega) (by omega), Int.zero_add]
  · rw [List.getElem?_eq_none (by simpa using hk),
      List.getElem?_eq_none (by rw [List.length_take]; omega)]

def windowLength (f : Frame) : ℕ := (f.head - f.prevHead).toNat

theorem windowSize_eq (htracks : Tracks (bytesize pl) st m) (haimed : Aimed st m.dataTail prev f) :
    windowSize f.head f.prevHead = windowLength f ∧ (windowLength f : ℤ) ≤ bytesize pl ∧
      f.head = m.dataTail + windowLength f := by
  have hprev := haimed.prevHead
  have hlower := haimed.lower
  have hupper := haimed.upper
  have hhead := htracks.head
  have hlap := htracks.lap
  have hlt := bytesize_lt pl
  have hlength : (windowLength f : ℤ) = f.head - f.prevHead := by
    unfold windowLength
    omega
  refine ⟨?_, by omega, by omega⟩
  rw [windowSize, Bytes.wrap, Int.bmod_eq_of_le (by omega) (by omega), hlength]

/-- The record loop is given the bytes that come next, and no others. -/
theorem given_pending {w : World} (htracks : Tracks (bytesize pl) st m)
    (haimed : Aimed st m.dataTail prev f)
    (hcopied : Copied w.data st.produced m.dataTail f.head (bytesize pl))
    (hpc : f.pc = .recordLoop) :
    given f w = st.pending.take (windowLength f) := by
  obtain ⟨hsize, hfits, hhead⟩ := windowSize_eq htracks haimed
  rw [hhead] at hcopied
  rw [given, if_pos hpc, hsize, Int.toNat_natCast, Copied.readBytes hcopied hfits, Stream.pending,
    haimed.settled.delivered]

theorem deliver_handed (htracks : Tracks (bytesize pl) st m) (haimed : Aimed st m.dataTail prev f) :
    Handed (st.deliver (windowLength f)) m.dataTail (f.goto .clear) where
  delivered := by
    obtain ⟨_, _, hhead⟩ := windowSize_eq htracks haimed
    have hupper := haimed.upper
    have hdelivered := haimed.settled.delivered
    simp only [Stream.deliver, Stream.pending, List.length_append, List.length_take,
      List.length_drop, Frame.goto]
    omega
  lower := haimed.lower
  upper := haimed.upper

theorem Tracks.deliver (htracks : Tracks size st m) (n : ℕ) : Tracks size (st.deliver n) m :=
  ⟨htracks.head, htracks.small, htracks.behind, htracks.lap, htracks.stores⟩

/-- The statements of the ring's own run, the record loop apart. -/
theorem Stage.statement {i : ℕ} {w w' : World} {next : Next} {r : Ring}
    (hdoes : Does pl ses i f w w' next) (hloop : f.pc ≠ .recordLoop)
    (hr : w.rings (ses.ring i) = some r) (htracks : Tracks (bytesize pl) st r.mapping)
    (h : Stage (bytesize pl) st r.mapping.dataTail (w.heads ses.block i) w.data f) :
    ∃ r', w'.rings (ses.ring i) = some r' ∧ Tracks (bytesize pl) st r'.mapping ∧
      After (bytesize pl) st r'.mapping.dataTail (w'.heads ses.block i) w'.data next := by
  have hpos := bytesize_pos pl
  cases hdoes with
  | disable hpc =>
    simp only [Stage, hpc] at h
    exact ⟨r, hr, htracks, h⟩
  | lookup hpc =>
    simp only [Stage, hpc] at h
    refine ⟨r, by simpa using hr, htracks, ?_⟩
    simp only [After, Stage, access_heads]
    exact ⟨h, h.prev⟩
  | unmapped _ hnone =>
    rw [hr] at hnone
    contradiction
  | readHead r' hpc hr' =>
    cases hr.symm.trans hr'
    simp only [Stage, hpc] at h
    have hhead := readHead_eq htracks
    have hbehind := htracks.behind
    have hproduced := htracks.head
    exact ⟨r, hr, htracks, h.1, h.2, by simp only; omega, by simp only; omega⟩
  | copyToEnd r' hpc hr' =>
    cases hr.symm.trans hr'
    simp only [Stage, hpc] at h
    refine ⟨r, by simpa [setData] using hr, htracks, ?_⟩
    simp only [After, Stage, Frame.goto, setData, access_heads]
    exact ⟨⟨h.settled, h.prevHead, h.lower, h.upper⟩, copyToEnd_copied htracks hpos h⟩
  | copyFromStart r' hpc hr' =>
    cases hr.symm.trans hr'
    simp only [Stage, hpc] at h
    refine ⟨r, by simpa [setData] using hr, htracks, ?_⟩
    simp only [After, Stage, Frame.goto, setData, access_heads]
    exact ⟨⟨h.1.settled, h.1.prevHead, h.1.lower, h.1.upper⟩,
      copyFromStart_copied htracks hpos h.1 h.2⟩
  | recordLoop _ hpc => exact absurd hpc hloop
  | clear hpc =>
    simp only [Stage, hpc] at h
    refine ⟨r, by simpa [setData] using hr, htracks, ?_⟩
    exact ⟨h.delivered, h.lower, h.upper⟩
  | storeTail r' hpc hr' =>
    cases hr.symm.trans hr'
    simp only [Stage, hpc] at h
    obtain ⟨htracks', htail⟩ := htracks.handBack h
    refine ⟨_, Function.update_self .., htracks', ?_⟩
    exact ⟨⟨h.delivered, by rw [← htail]; exact Int.le_refl _, h.upper⟩, htail⟩
  | storePrevHead hpc =>
    simp only [Stage, hpc] at h
    refine ⟨r, by simpa [setHead] using hr, htracks, ?_⟩
    simp only [After, Stage, Frame.goto, setHead, Session.slot, Function.update_self]
    have hdelivered := h.1.delivered
    exact ⟨h.2, by omega⟩
  | refresh hpc =>
    simp only [Stage, hpc] at h
    refine ⟨r, by simpa [World.setEnabled] using hr, htracks, ?_⟩
    simpa [After, World.setEnabled] using h

end PapiSample.RingReads
