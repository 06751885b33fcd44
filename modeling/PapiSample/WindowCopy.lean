import PapiSample.BlockCopy
import PapiSample.MmapRead

/-!
The part of perf_mmap_read in front of its record loop. The two copies read the
ring once around, from the unread bytes on, and fill the data buffer with it.
The length of the window is a difference of 64-bit positions kept in an int and
the length of the buffer a product of ints, so a ring that ran over is diagnosed
as long as both fit.
-/
namespace PapiSample.WindowCopy

open Bytes BlockCopy MmapRead RecordLoop

def copies (bytesize prevHead : ℤ) : List Copy :=
  [{ dst := 0, src := prevHeadWrap bytesize prevHead,
     len := bytesize - prevHeadWrap bytesize prevHead },
   { dst := bytesize - prevHeadWrap bytesize prevHead, src := 0,
     len := prevHeadWrap bytesize prevHead }]

theorem unwrapRing_copies (bytesize prevHead : ℤ) (ring data : Memory) :
    unwrapRing bytesize prevHead ring data = runCopies ring (copies bytesize prevHead) data := rfl

/-- Where the unread bytes begin in the ring. -/
theorem prevHeadWrap_bounds {bytesize prevHead : ℤ} (hbytes : 0 < bytesize)
    (hprev : 0 ≤ prevHead) :
    prevHeadWrap bytesize prevHead = prevHead % bytesize ∧
      0 ≤ prevHeadWrap bytesize prevHead ∧ prevHeadWrap bytesize prevHead < bytesize := by
  have hmod : prevHeadWrap bytesize prevHead = prevHead % bytesize :=
    Int.tmod_eq_emod_of_nonneg hprev
  rw [hmod]
  exact ⟨rfl, Int.emod_nonneg prevHead (by omega), Int.emod_lt_of_pos prevHead hbytes⟩

/-- What the copies of a buffer of `bytesize` bytes are for: they stay inside
the ring and inside the first `bytesize` bytes of the target, write each of
these once, and bring the ring there from `prev_head` on, so that a record is in
one piece wherever the end of the ring cuts it. -/
structure Unwraps (bytesize prevHead : ℤ) (ring : Memory) (copies : List Copy)
    (window : Memory) : Prop where
  lengths : ∀ c ∈ copies, 0 ≤ c.len
  reads : ∀ i ∈ readIndices copies, 0 ≤ i ∧ i < bytesize
  writes : ∀ k, (writtenIndices copies).count k = if 0 ≤ k ∧ k < bytesize then 1 else 0
  cells : ∀ k, 0 ≤ k → k < bytesize → window k = ring ((prevHead + k) % bytesize)
  records : ∀ off first rest, 0 ≤ off → off + (first ++ rest).length ≤ bytesize →
    (prevHead + off) % bytesize + first.length ≤ bytesize →
    (rest ≠ [] → (prevHead + off) % bytesize + first.length = bytesize) →
    Holds ring ((prevHead + off) % bytesize) first → Holds ring 0 rest →
    Holds window off (first ++ rest)

section Copies
variable {bytesize prevHead : ℤ}

theorem copies_lengths (hbytes : 0 < bytesize) (hprev : 0 ≤ prevHead) :
    ∀ c ∈ copies bytesize prevHead, 0 ≤ c.len := by
  obtain ⟨_, hlow, hhigh⟩ := prevHeadWrap_bounds hbytes hprev
  intro c hc
  rcases List.mem_cons.mp hc with rfl | hc
  · show 0 ≤ bytesize - prevHeadWrap bytesize prevHead
    omega
  · rw [List.mem_singleton.mp hc]
    exact hlow

theorem copies_reads (hbytes : 0 < bytesize) (hprev : 0 ≤ prevHead) :
    ∀ i ∈ readIndices (copies bytesize prevHead), 0 ≤ i ∧ i < bytesize := by
  obtain ⟨_, hlow, hhigh⟩ := prevHeadWrap_bounds hbytes hprev
  intro i hi
  obtain ⟨c, hc, hsrc, hend⟩ := mem_readIndices hi
  rcases List.mem_cons.mp hc with rfl | hc
  · simp only at hsrc hend
    omega
  · rw [List.mem_singleton.mp hc] at hsrc hend
    simp only at hsrc hend
    omega

theorem copies_writes (hbytes : 0 < bytesize) (hprev : 0 ≤ prevHead) (k : ℤ) :
    (writtenIndices (copies bytesize prevHead)).count k =
      if 0 ≤ k ∧ k < bytesize then 1 else 0 := by
  obtain ⟨_, hlow, hhigh⟩ := prevHeadWrap_bounds hbytes hprev
  obtain ⟨m, hm⟩ : ∃ m : ℕ, bytesize - prevHeadWrap bytesize prevHead = m :=
    Int.eq_ofNat_of_zero_le (by omega)
  obtain ⟨n, hn⟩ : ∃ n : ℕ, prevHeadWrap bytesize prevHead = n := Int.eq_ofNat_of_zero_le hlow
  have hsum : ((m + n : ℕ) : ℤ) = bytesize := by
    push_cast
    omega
  rw [copies, hm, hn, written_adjacent, count_range, hsum]

/-- The cell of position `pos + i`, where the record at `pos` begins. -/
theorem cell_behind {pos i : ℤ} (hlow : 0 ≤ pos % bytesize + i)
    (hhigh : pos % bytesize + i < bytesize) : (pos + i) % bytesize = pos % bytesize + i := by
  rw [← Int.emod_add_emod, Int.emod_eq_of_lt hlow hhigh]

/-- The part of a record behind the cut stands at the start of the ring. -/
theorem cell_wrapped {pos n i : ℤ} (hcut : pos % bytesize + n = bytesize) (hlow : 0 ≤ i)
    (hhigh : i < bytesize) : (pos + (n + i)) % bytesize = i := by
  rw [← Int.emod_add_emod, ← Int.add_assoc, hcut, Int.add_emod_left, Int.emod_eq_of_lt hlow hhigh]

/-- Each byte of the target comes from its place in the ring. -/
theorem copies_cells (hbytes : 0 < bytesize) (hprev : 0 ≤ prevHead) (ring data : Memory) {k : ℤ}
    (hk : 0 ≤ k) (hk' : k < bytesize) :
    unwrapRing bytesize prevHead ring data k = ring ((prevHead + k) % bytesize) := by
  obtain ⟨hmod, hlow, hhigh⟩ := prevHeadWrap_bounds hbytes hprev
  have honce : (writtenIndices (copies bytesize prevHead)).Nodup := by
    rw [List.nodup_iff_count_le_one]
    intro t
    rw [copies_writes hbytes hprev]
    split <;> omega
  rw [unwrapRing_copies]
  apply runCopies_once ring _ data (copies_lengths hbytes hprev) honce
  rw [allMoves, copies, List.flatMap_cons, List.flatMap_singleton, List.mem_append]
  rcases lt_or_ge k (bytesize - prevHeadWrap bytesize prevHead) with hfirst | hsecond
  · left
    rw [cell_behind (by omega) (by omega), ← hmod]
    refine mem_moves_of_eq (i := k) hk hfirst ?_ rfl
    exact (Int.zero_add k).symm
  · right
    obtain ⟨i, hi⟩ : ∃ i, i = k - (bytesize - prevHeadWrap bytesize prevHead) := ⟨_, rfl⟩
    have hplace : k = bytesize - prevHeadWrap bytesize prevHead + i := by omega
    have hcell : (prevHead + (bytesize - prevHeadWrap bytesize prevHead + i)) % bytesize = i :=
      cell_wrapped (by omega) (by omega) (by omega)
    rw [hplace, hcell]
    refine mem_moves_of_eq (i := i) (by omega) ?_ rfl (Int.zero_add i).symm
    show i < prevHeadWrap bytesize prevHead
    omega

/-- Bytes that lie in one piece in the ring do so in the window. -/
theorem holds_piece {ring window : Memory}
    (hcells : ∀ k, 0 ≤ k → k < bytesize → window k = ring ((prevHead + k) % bytesize))
    {off pos : ℤ} {bytes : List Byte} (hoff : 0 ≤ off) (hend : off + bytes.length ≤ bytesize)
    (hpos : ∀ i : ℕ, i < bytes.length → (prevHead + (off + i)) % bytesize = pos + i)
    (h : Holds ring pos bytes) : Holds window off bytes := by
  unfold Holds at h ⊢
  rw [← h, readBytes_length]
  apply readBytes_congr
  intro i hi
  rw [hcells (off + i) (by omega) (by omega), hpos i hi]

theorem records_of_cells {ring window : Memory}
    (hcells : ∀ k, 0 ≤ k → k < bytesize → window k = ring ((prevHead + k) % bytesize))
    (off : ℤ) (first rest : List Byte) (hoff : 0 ≤ off)
    (hend : off + (first ++ rest).length ≤ bytesize)
    (hfit : (prevHead + off) % bytesize + first.length ≤ bytesize)
    (hcut : rest ≠ [] → (prevHead + off) % bytesize + first.length = bytesize)
    (hfirst : Holds ring ((prevHead + off) % bytesize) first) (hrest : Holds ring 0 rest) :
    Holds window off (first ++ rest) := by
  rw [List.length_append] at hend
  push_cast at hend
  rw [holds_append]
  constructor
  · apply holds_piece hcells hoff (by omega) _ hfirst
    intro i hi
    have hlow : 0 ≤ (prevHead + off) % bytesize := Int.emod_nonneg _ (by omega)
    rw [← Int.add_assoc, cell_behind (by omega) (by omega)]
  · apply holds_piece hcells (by omega) (by omega) _ hrest
    intro i hi
    have hne : rest ≠ [] := List.ne_nil_of_length_pos (by omega)
    rw [Int.add_assoc off, ← Int.add_assoc prevHead,
      cell_wrapped (hcut hne) (by omega) (by omega), Int.zero_add]

end Copies

/-- The ring is unwrapped at any position. -/
theorem ring_unwrapped (pageSize mmapSize prevHead : ℤ) (m : Mapping) (data : Memory)
    (hbytes : 0 < bufferSize mmapSize pageSize) (hprev : 0 ≤ prevHead) :
    windowData pageSize m mmapSize prevHead data =
        runCopies m.ring (copies (bufferSize mmapSize pageSize) prevHead) data ∧
      Unwraps (bufferSize mmapSize pageSize) prevHead m.ring
        (copies (bufferSize mmapSize pageSize) prevHead)
        (windowData pageSize m mmapSize prevHead data) := by
  have hcells : ∀ k, 0 ≤ k → k < bufferSize mmapSize pageSize →
      windowData pageSize m mmapSize prevHead data k =
        m.ring ((prevHead + k) % bufferSize mmapSize pageSize) := fun k hk hk' =>
    copies_cells hbytes hprev m.ring data hk hk'
  refine ⟨unwrapRing_copies _ _ _ _, ?_⟩
  exact {
    lengths := copies_lengths hbytes hprev
    reads := copies_reads hbytes hprev
    writes := copies_writes hbytes hprev
    cells := hcells
    records := records_of_cells hcells }

def cutMapping : Mapping where
  dataHead := 8196
  dataTail := 8190
  ring := overlay [3, 4, 5, 6] fun i => if i = 8190 then 1 else 2

theorem ring_unwrapped_cut :
    Unwraps (bufferSize 2 4096) 8190 cutMapping.ring (copies (bufferSize 2 4096) 8190)
      (windowData 4096 cutMapping 2 8190 fun _ => 0) :=
  (ring_unwrapped 4096 2 8190 cutMapping (fun _ => 0) (by decide) (by omega)).2

/-- The lengths are what they stand for, and more unread bytes than the ring has
room for are reported. -/
structure Diagnosed (pageSize mmapSize prevHead : ℤ) (m : Mapping) : Prop where
  window : windowSize (readHead m) prevHead = m.dataHead - prevHead
  buffer : bufferSize mmapSize pageSize = mmapSize * pageSize
  overflow : overflowReported pageSize mmapSize prevHead m = true ↔
    mmapSize * pageSize < m.dataHead - prevHead

/-- A nonnegative number survives in an int exactly if it is small. -/
theorem wrap_int_iff {x : ℤ} (hx : 0 ≤ x) : wrap 32 x = x ↔ x < 2 ^ 31 := by
  constructor
  · intro h
    have hlt := wrap_lt 32 x (by omega)
    omega
  · intro h
    exact wrap_eq 32 x (by omega) (by omega)

theorem readHead_eq (m : Mapping) (hhead : m.dataHead < 2 ^ 63) : readHead m = m.dataHead :=
  wrap_eq 64 m.dataHead (by omega) (by omega)

/-- An overrun is diagnosed exactly if the lag and the length of the ring fit
into an int. -/
theorem diagnosed_iff (pageSize mmapSize prevHead : ℤ) (m : Mapping) (hle : prevHead ≤ m.dataHead)
    (hhead : m.dataHead < 2 ^ 63) (hmmap : 0 < mmapSize) (hpage : 0 < pageSize) :
    Diagnosed pageSize mmapSize prevHead m ↔
      m.dataHead - prevHead < 2 ^ 31 ∧ mmapSize * pageSize < 2 ^ 31 := by
  have hprod : 0 < mmapSize * pageSize := Int.mul_pos hmmap hpage
  have hwindow : windowSize (readHead m) prevHead = m.dataHead - prevHead ↔
      m.dataHead - prevHead < 2 ^ 31 := by
    rw [windowSize, readHead_eq m hhead]
    exact wrap_int_iff (by omega)
  have hbuffer : bufferSize mmapSize pageSize = mmapSize * pageSize ↔
      mmapSize * pageSize < 2 ^ 31 := wrap_int_iff (by omega)
  constructor
  · intro h
    exact ⟨hwindow.mp h.window, hbuffer.mp h.buffer⟩
  · rintro ⟨hlag, hlen⟩
    have heq := hwindow.mpr hlag
    have heq' := hbuffer.mpr hlen
    refine ⟨heq, heq', ?_⟩
    rw [overflowReported, heq, heq']
    exact decide_eq_true_iff

/-- One lap behind in a ring of 32768 bytes. -/
theorem diagnosed_iff_lap : Diagnosed 4096 8 0 ⟨32769, 0, fun _ => 0⟩ :=
  (diagnosed_iff 4096 8 0 ⟨32769, 0, fun _ => 0⟩ (by omega) (by decide) (by omega)
    (by omega)).mpr ⟨by decide, by omega⟩

/-- A lag of 2^32 bytes comes out as an empty window, and nothing is said. -/
theorem lag_undiagnosed : ¬ ∀ pageSize mmapSize prevHead : ℤ, ∀ m : Mapping, 0 ≤ prevHead →
    prevHead ≤ m.dataHead → m.dataHead < 2 ^ 63 → 0 < mmapSize → 0 < pageSize →
    Diagnosed pageSize mmapSize prevHead m := by
  intro h
  have hlap := h 4096 8 0 ⟨2 ^ 32, 0, fun _ => 0⟩ (by omega) (by omega) (by decide) (by omega)
    (by omega)
  have hempty : windowSize (readHead ⟨2 ^ 32, 0, fun _ => 0⟩) 0 = 0 := by decide
  have hwindow := hlap.window
  rw [hempty] at hwindow
  contradiction

end PapiSample.WindowCopy
