import PapiSample.ReadSafety

/-!
What is printed, checked and dumped makes no difference to where the records of
a window are found. Two calls of perf_mmap_read that differ in these options only
are compared iteration by iteration: the cursor depends on the data through the
lengths of the fields, which are read in every mode. As long as the reads stay
inside the data buffer, it is no matter either what the buffer held before.
-/
namespace PapiSample.ReportingOptions

open Bytes Cursor PerfEvent ParseRecord SampleFields RecordLoop Advance RecordAdvance Extent
  FieldBounds BlockBounds BufferBounds MmapRead ReadSafety While

structure SameFormat (c c' : Config) : Prop where
  sampleType : c.sampleType = c'.sampleType
  readFormat : c.readFormat = c'.readFormat
  regMask : c.regMask = c'.regMask

def AgreeOn (bytesize : ℤ) (mem mem' : Memory) : Prop :=
  ∀ k, 0 ≤ k → k < bytesize → mem k = mem' k

section Lengths
variable {c c' : Config} {bytesize : ℤ} {mem mem' : Memory}

theorem fieldLength_options (h : SameFormat c c') (f : SampleField) (mem : Memory) (off : ℤ) :
    fieldLength c mem off f = fieldLength c' mem off f := by
  obtain ⟨arch, st, rf, rm, v, quiet, rt, heap⟩ := c
  obtain ⟨arch', st', rf', rm', v', quiet', rt', heap'⟩ := c'
  obtain ⟨rfl, rfl, rfl⟩ := h
  cases f <;> rfl

theorem fieldsNext_options (h : SameFormat c c') (order : List SampleField) (mem : Memory)
    (off : ℤ) : fieldsNext c mem order off = fieldsNext c' mem order off := by
  induction order generalizing off with
  | nil => rfl
  | cons f rest ih =>
    rw [fieldsNext, fieldsNext, h.sampleType, ih, fieldLength_options h]
    simp only [ih]

theorem recordNext_options (h : SameFormat c c') (size : ℤ) (mem : Memory) (start : ℤ) :
    recordNext c size mem start = recordNext c' size mem start := by
  unfold recordNext
  rw [fieldsNext_options h]

theorem readBytes_agree (hagree : AgreeOn bytesize mem mem') {pos : ℤ} {n : ℕ}
    (hspan : Span 0 bytesize pos n) : readBytes mem pos n = readBytes mem' pos n := by
  apply readBytes_congr
  intro i hi
  have hbounds := hspan (by omega)
  exact hagree (pos + i) (by omega) (by omega)

theorem countAt_agree (hagree : AgreeOn bytesize mem mem') {off : ℤ}
    (hspan : Span 0 bytesize off 8) :
    countAt mem off = countAt mem' off := by
  unfold countAt word64
  rw [readBytes_agree hagree hspan]

theorem span_front {pos n m : ℤ} (h : Span 0 bytesize pos n) (hle : m ≤ n) :
    Span 0 bytesize pos m := by
  intro hm
  have := h (by omega)
  omega

/-- A block that reads its count inside has the same length in both buffers. -/
theorem fieldLength_agree (hfits : Fits 32 bytesize) (hagree : AgreeOn bytesize mem mem') {off : ℤ}
    (hoff : wrap 64 off = off) (f : SampleField) (hinside : FieldInside c bytesize mem off f) :
    fieldLength c mem off f = fieldLength c mem' off f := by
  have hcount : 8 ≤ fieldRead c mem off f → countAt mem off = countAt mem' off := fun hle =>
    countAt_agree hagree (span_front hinside.2 hle)
  cases f with
  | read =>
    unfold fieldLength readFormatLength
    rw [hcount (eight_le_read mem off)]
  | callchain =>
    unfold fieldLength
    rw [hcount (by simp only [fieldRead]; omega)]
  | branchStack =>
    unfold fieldLength
    rw [hcount (by simp only [fieldRead]; omega)]
  | raw =>
    have hpayload := ifPrinted_nonneg (c := c)
      (payloadRead_nonneg (c := c) mem (moved 64 off 4) (word32 mem off).toInt)
    have hsize : Span 0 bytesize off 4 := span_front hinside.2 (by simp only [fieldRead]; omega)
    unfold fieldLength word32
    rw [readBytes_agree hagree hsize]
  | stackUser =>
    have hsize := hinside.1 rfl
    have hsame := hcount (by simp only [fieldRead]; omega)
    have hbounds := hinside.2 (by simp only [fieldRead]; omega)
    simp only [fieldRead] at hbounds
    have hpos : moved 64 off (8 + countAt mem off) = off + (8 + countAt mem off) :=
      (fits64 hfits).stays hoff (by omega) (by omega)
    have hdyn : countAt mem (moved 64 off (8 + countAt mem off)) =
        countAt mem' (moved 64 off (8 + countAt mem off)) := by
      apply countAt_agree hagree
      rw [hpos]
      intro _
      omega
    unfold fieldLength
    rw [hdyn, hsame]
  | _ => rfl

theorem fieldsNext_agree (hfits : Fits 32 bytesize) (hagree : AgreeOn bytesize mem mem')
    (order : List SampleField) {off : ℤ} (hoff : wrap 64 off = off)
    (hinside : FieldsInside c bytesize mem order off) :
    fieldsNext c mem order off = fieldsNext c mem' order off := by
  induction order generalizing off with
  | nil => rfl
  | cons f rest ih =>
    rw [FieldsInside, EachField] at hinside
    rw [fieldsNext, fieldsNext]
    cases hset : f.isSet c.sampleType with
    | false =>
      simp only [hset, Bool.false_eq_true, if_false] at hinside ⊢
      exact ih hoff hinside
    | true =>
      simp only [hset, if_true] at hinside ⊢
      obtain ⟨hfield, hrest⟩ := hinside
      rw [← fieldLength_agree hfits hagree hoff f hfield]
      cases hlen : fieldLength c mem off f with
      | none => rw [Option.bind_none, Option.bind_none]
      | some n => exact ih (wrap_moved ..) (hrest n hlen)

/-- A record that lies inside ends at the same place in both buffers. -/
theorem recordNext_agree (hfits : Fits 32 bytesize) (hagree : AgreeOn bytesize mem mem') (size : ℤ)
    {start : ℤ} (hinside : RecordInside c bytesize mem start) :
    recordNext c size mem start = recordNext c size mem' start := by
  obtain ⟨hheader, hbody⟩ := hinside
  have htype : word32 mem start = word32 mem' start := by
    unfold word32
    rw [readBytes_agree hagree (span_front hheader (by unfold headerRead; split <;> decide))]
  have hnamed : ∀ head, 16 ≤ head → NameInside bytesize mem start head →
      (namedLength mem start head).map (moved 64 start) =
        (namedLength mem' start head).map (moved 64 start) := by
    intro head hhead hname
    have hsize : sizeAt mem start = sizeAt mem' start := by
      unfold sizeAt word16
      rw [readBytes_agree hagree]
      intro _
      have := hname.2 (by have := hname.1; omega)
      have := hname.1
      omega
    rw [namedLength, namedLength, hsize]
  unfold recordNext
  rw [← htype]
  cases hrecord : RecordType.ofCode (word32 mem start) with
  | none => rfl
  | some r =>
    rw [hrecord] at hbody
    cases r with
    | comm => exact hnamed 16 (by omega) hbody
    | mmap => exact hnamed 40 (by omega) hbody
    | mmap2 => exact hnamed 72 (by omega) hbody
    | sample => exact fieldsNext_agree hfits hagree blockOrder (wrap_moved ..) hbody
    | _ => rfl

end Lengths

/-- As long as no copy has a negative length, what the buffer held before is
overwritten as far as the window reaches. -/
theorem windows_agree {bytesize prevHead : ℤ} (hlen : ∀ n ∈ copyLengths bytesize prevHead, 0 ≤ n)
    {ring ring' : Memory} (hring : AgreeOn bytesize ring ring') (data data' : Memory) :
    AgreeOn bytesize (unwrapRing bytesize prevHead ring data)
      (unwrapRing bytesize prevHead ring' data') := by
  have hfirst : 0 ≤ bytesize - prevHeadWrap bytesize prevHead := hlen _ (by simp [copyLengths])
  have hsecond : 0 ≤ prevHeadWrap bytesize prevHead := hlen _ (by simp [copyLengths])
  intro k hk hk'
  simp only [unwrapRing, copyFromStart, copyToEnd, memcpy]
  by_cases hcut : bytesize - prevHeadWrap bytesize prevHead ≤ k
  · rw [if_pos (by omega), if_pos (by omega)]
    exact hring _ (by omega) (by omega)
  · rw [if_neg (by omega), if_pos (by omega), if_neg (by omega), if_pos (by omega)]
    exact hring _ (by omega) (by omega)

/-- What the caller gets out of a call, apart from its output: the offsets at
which it took a record to begin, the number of records, and the two positions it
hands back. -/
structure Parsed where
  offsets : List ℤ
  eventsRead : Option ℕ
  dataTail : ℕ
  value : ℤ

def parsed (r : Finished) : Parsed where
  offsets := r.loop.trace.map Prod.fst
  eventsRead := r.loop.eventsRead
  dataTail := r.mapping.dataTail
  value := r.value

structure SamePoint (c : Config) (size : ℤ) (mem : Memory) (start s t : LoopState) : Prop where
  reached : Reaches (inWindow size) (loopBody c size mem) start s
  offset : s.offset = t.offset
  eventsRead : s.eventsRead = t.eventsRead
  offsets : s.trace.map Prod.fst = t.trace.map Prod.fst

theorem loopBody_next (c : Config) (size : ℤ) (mem : Memory) (s : LoopState) :
    loopBody c size mem s = (recordNext c size mem s.offset).map fun next =>
      { offset := next
        eventsRead := s.eventsRead.map (· + 1)
        trace := s.trace ++ [(s.offset, (iteration c size mem s.offset).log)] } := by
  rw [loopBody, exit_iteration, Option.map_map]
  rfl

section Loops
variable {c c' : Config} {bytesize size : ℤ} {mem mem' : Memory} {start : LoopState}

/-- One iteration of each call. -/
theorem samePoint_step (hformat : SameFormat c c') (hfits : Fits 32 bytesize)
    (hagree : AgreeOn bytesize mem mem')
    (hinside : ∀ s, Reaches (inWindow size) (loopBody c size mem) start s →
      inWindow size s = true → Safe Sound 0 bytesize (iteration c size) mem s.offset)
    (s t s' : LoopState) (hsame : SamePoint c size mem start s t)
    (hstep : Iterates (inWindow size) (loopBody c size mem) s s') :
    ∃ t', loopBody c' size mem' t = some t' ∧ SamePoint c size mem start s' t' := by
  have hrecord := (iteration_safe hfits size s.offset).mp (hinside s hsame.reached hstep.1)
  have hnext : recordNext c' size mem' t.offset = recordNext c size mem s.offset := by
    rw [← recordNext_options hformat, ← hsame.offset, ← recordNext_agree hfits hagree size hrecord]
  have hbody := hstep.2
  rw [loopBody_next] at hbody
  obtain ⟨next, hn, rfl⟩ := Option.map_eq_some_iff.mp hbody
  rw [loopBody_next, hnext, hn, Option.map_some]
  refine ⟨_, rfl, hsame.reached.tail hstep, rfl, ?_, ?_⟩
  · show s.eventsRead.map (· + 1) = t.eventsRead.map (· + 1)
    rw [hsame.eventsRead]
  · show (s.trace ++ [_]).map Prod.fst = (t.trace ++ [_]).map Prod.fst
    rw [List.map_append, List.map_append, hsame.offsets, List.map_singleton, List.map_singleton,
      hsame.offset]

/-- Both loops as a whole. -/
theorem samePoint_loop (hformat : SameFormat c c') (hfits : Fits 32 bytesize)
    (hagree : AgreeOn bytesize mem mem')
    (hinside : ∀ s, Reaches (inWindow size) (loopBody c size mem) start s →
      inWindow size s = true → Safe Sound 0 bytesize (iteration c size) mem s.offset)
    {fuel : ℕ} {s t : LoopState} (hstart : SamePoint c size mem start start t)
    (hrun : recordLoop c size mem fuel start = some s) :
    ∃ t', recordLoop c' size mem' fuel t = some t' ∧ SamePoint c size mem start s t' := by
  apply loop_related (SamePoint c size mem start) _ _ fuel start s t hstart hrun
  · intro u v huv
    unfold inWindow
    rw [huv.offset]
  · exact samePoint_step hformat hfits hagree hinside

end Loops

theorem finished_loop {pageSize : ℤ} {m : Mapping} {mmapSize prevHead : ℤ} {c : Config}
    {eventsRead : Option ℕ} {data : Memory} {fuel : ℕ} {r : Finished}
    (h : perfMmapRead pageSize (some m) mmapSize prevHead c eventsRead true data fuel =
      some (.finished r)) :
    mmapSize ≠ 0 ∧ ∃ t, recordLoop c (windowSize (readHead m) prevHead)
      (windowData pageSize m mmapSize prevHead data) fuel (loopStart eventsRead) = some t ∧
        r = afterLoop pageSize m mmapSize prevHead data t := by
  by_cases hmmap : mmapSize = 0
  · simp [perfMmapRead, hmmap] at h
  · simp only [perfMmapRead, Bool.not_true, Bool.false_eq_true, if_false, hmmap] at h
    obtain ⟨t, ht, heq⟩ := Option.map_eq_some_iff.mp h
    exact ⟨hmmap, t, ht, (Result.finished.inj heq).symm⟩

/-- Two calls on the same unread part of a ring, for the same format, find the
same records, whatever they print, check and dump. -/
theorem options_parse_alike (pageSize mmapSize prevHead : ℤ) (m m' : Mapping)
    (hhead : m.dataHead = m'.dataHead)
    (hring : AgreeOn (bufferSize mmapSize pageSize) m.ring m'.ring) (c c' : Config)
    (hformat : SameFormat c c') (eventsRead eventsRead' : Option ℕ)
    (hevents : eventsRead.isSome = eventsRead'.isSome) (data data' : Memory)
    (hinside : ReadsInside pageSize m mmapSize prevHead c eventsRead data) (fuel : ℕ) (r : Finished)
    (hrun : perfMmapRead pageSize (some m) mmapSize prevHead c eventsRead true data fuel =
      some (.finished r)) :
    (∃ fuel' r', perfMmapRead pageSize (some m') mmapSize prevHead c' eventsRead' true data' fuel' =
        some (.finished r')) ∧
      ∀ fuel' r', perfMmapRead pageSize (some m') mmapSize prevHead c' eventsRead' true
          data' fuel' =
        some (.finished r') → parsed r' = parsed r := by
  obtain ⟨hmmap, t, hloop, rfl⟩ := finished_loop hrun
  have hsamehead : readHead m = readHead m' := by
    unfold readHead
    rw [hhead]
  have hagree : AgreeOn (bufferSize mmapSize pageSize)
      (windowData pageSize m mmapSize prevHead data)
      (windowData pageSize m' mmapSize prevHead data') := windows_agree hinside.1 hring data data'
  have hstart : SamePoint c (windowSize (readHead m) prevHead)
      (windowData pageSize m mmapSize prevHead data) (loopStart eventsRead) (loopStart eventsRead)
      (loopStart eventsRead') := by
    refine ⟨Relation.ReflTransGen.refl, rfl, ?_, rfl⟩
    show eventsRead.map (fun _ => 0) = eventsRead'.map fun _ => 0
    cases eventsRead <;> cases eventsRead' <;> simp_all
  obtain ⟨t', hloop', hsame⟩ :=
    samePoint_loop hformat (bufferSize_fits ..) hagree hinside.2 hstart hloop
  rw [hsamehead] at hloop'
  have hparsed : parsed (afterLoop pageSize m' mmapSize prevHead data' t') =
      parsed (afterLoop pageSize m mmapSize prevHead data t) := by
    simp only [parsed, afterLoop, storeTail, hsamehead, hsame.offsets, hsame.eventsRead]
  refine ⟨⟨fuel, _, perfMmapRead_finished hmmap hloop'⟩, fun fuel' r' hrun' => ?_⟩
  obtain ⟨_, t'', hloop'', rfl⟩ := finished_loop hrun'
  have hend : t'' = t' := by
    have hlong := loop_mono (Nat.le_max_left fuel fuel') hloop'
    have hlong' := loop_mono (Nat.le_max_right fuel fuel') hloop''
    exact Option.some.inj (hlong'.symm.trans hlong)
  rw [hend]
  exact hparsed

def loudConfig : Config where
  arch := .arm
  sampleType := 0x20
  readFormat := 0
  regMask := 0
  validate := some { pid := 1, tid := 2, events := 3, branchLow := 4, branchHigh := 5 }
  quiet := false
  rawType := RAW_IBS_OP
  heap := fun _ => 1

theorem shortChain_reads : ReadsInside 4096 (chainRing 1) 1 0 chainConfig none fun _ => 0 := by
  have hbuffer : bufferSize 1 4096 = 4096 := by decide
  have hsize : windowSize (readHead (chainRing 1)) 0 = 24 := by decide
  unfold ReadsInside
  rw [hsize, hbuffer]
  have hfits : Fits 32 4096 := hbuffer ▸ bufferSize_fits 1 4096
  exact ⟨by decide, (iterations_safe hfits (hsize ▸ isInt_windowSize _ 0) chainConfig _ none).mpr
    shortChain_records⟩

theorem shortChain_finishes : ∃ r, perfMmapRead 4096 (some (chainRing 1)) 1 0 chainConfig none true
    (fun _ => 0) 1 = some (.finished r) ∧ (parsed r).offsets = [0] := by
  have hsize : windowSize (readHead (chainRing 1)) 0 = 24 := by decide
  have hnext : recordNext chainConfig 24 (chainWindow 1) 0 = some 24 := by decide +kernel
  have hbody := loopBody_next chainConfig 24 (chainWindow 1) (loopStart none)
  have hloop : recordLoop chainConfig 24 (chainWindow 1) 1 (loopStart none) =
      some ⟨24, none, [(0, (iteration chainConfig 24 (chainWindow 1) 0).log)]⟩ := by
    rw [show (loopStart none).offset = 0 from rfl, hnext] at hbody
    exact (loop_step 0 ⟨by decide, hbody⟩).trans (loop_done 0 _ (by decide))
  rw [← hsize] at hloop
  exact ⟨_, perfMmapRead_finished (by omega) hloop, rfl⟩

/-- The same callchain read twice. -/
theorem options_parse_chain : ∃ fuel r, perfMmapRead 4096 (some (chainRing 1)) 1 0 loudConfig none
    true (fun _ => 255) fuel = some (.finished r) ∧ (parsed r).offsets = [0] := by
  obtain ⟨r, hrun, hoffsets⟩ := shortChain_finishes
  obtain ⟨⟨fuel, r', hrun'⟩, hsame⟩ := options_parse_alike 4096 1 0 (chainRing 1) (chainRing 1) rfl
    (fun _ _ _ => rfl) chainConfig loudConfig ⟨rfl, rfl, rfl⟩ none none rfl (fun _ => 0)
    (fun _ => 255) shortChain_reads 1 r hrun
  exact ⟨fuel, r', hrun', by rw [hsame fuel r' hrun', hoffsets]⟩

end PapiSample.ReportingOptions
