import PapiSample.RecordDecoding
import PapiSample.MmapRead

/-!
Decoding a stream of records undoes encoding it: the loop visits the records one
by one, each from its own header, and reports what was stored. The window comes
from a ring in which the stream may wrap around.
-/
namespace PapiSample.RoundTrip

open Bytes Cursor Cursor.Prog PerfEvent ParseRecord SampleFields RecordLoop MmapRead Report
  FieldDecoding RegisterDecoding SampleDecoding RecordDecoding

variable {c : Config}

def streamBytes (records : List (Record c)) : List Byte := records.flatMap Record.bytes

def startOf (records : List (Record c)) (i : ℕ) : ℕ := ((records.take i).map Record.size).sum

@[simp] theorem startOf_zero (records : List (Record c)) : startOf records 0 = 0 := rfl

@[simp] theorem startOf_succ (r : Record c) (rest : List (Record c)) (i : ℕ) :
    startOf (r :: rest) (i + 1) = r.size + startOf rest i := rfl

/-- The iterations that a stream deserves: where each starts and what it reports. -/
def expected (off : ℤ) (records : List (Record c)) : List (ℤ × List (Site × Value)) :=
  records.mapIdx fun i r => (off + startOf records i, payloadReport c r.payload)

theorem expected_cons (off : ℤ) (r : Record c) (rest : List (Record c)) :
    expected off (r :: rest) =
      (off, payloadReport c r.payload) :: expected (off + r.size) rest := by
  unfold expected
  rw [List.mapIdx_cons]
  simp [Int.add_assoc]

def reports (trace : List (ℤ × List (Event Out))) : List (ℤ × List (Site × Value)) :=
  trace.map fun e => (e.1, seen reported e.2)

theorem iteration_consumes (r : Record c) (h : Decodable c r) (size : ℤ) (mem : Memory)
    (start : ℤ) (hold : Holds mem start r.bytes) (room : Room 64 start r.size) :
    Consumes reported (iteration c size) mem start r.size () (payloadReport c r.payload) := by
  have htype : word32 mem start = r.payload.type.code := (header_words r.raw mem start hold).1
  apply iteration_of_details reported_deaf size mem start r.raw.body.length _ room
  rw [htype]
  exact details_consume r h size mem start hold room

/-- One iteration from the header of a decodable record. -/
theorem loopBody_record (r : Record c) (h : Decodable c r) (size : ℤ) (mem : Memory)
    (s : LoopState) (hold : Holds mem s.offset r.bytes) (room : Room 64 s.offset r.size) :
    ∃ t, loopBody c size mem s = some t ∧ t.offset = s.offset + r.size ∧
      t.eventsRead = s.eventsRead.map (· + 1) ∧
      reports t.trace = reports s.trace ++ [(s.offset, payloadReport c r.payload)] := by
  have hrun := iteration_consumes r h size mem s.offset hold room
  unfold loopBody
  simp only [hrun.exit, Option.map_some]
  exact ⟨_, rfl, rfl, rfl, by simp [reports, hrun.shows]⟩

/-- The loop over a window that ends where the stream ends. -/
theorem recordLoop_stream (size : ℤ) (mem : Memory) (records : List (Record c)) (s : LoopState)
    (h : ∀ r ∈ records, Decodable c r) (hold : Holds mem s.offset (streamBytes records))
    (room : Room 64 s.offset (streamBytes records).length)
    (hsize : s.offset + (streamBytes records).length = size) (fuel : ℕ)
    (hfuel : records.length ≤ fuel) :
    ∃ t, recordLoop c size mem fuel s = some t ∧ t.offset = size ∧
      t.eventsRead = s.eventsRead.map (· + records.length) ∧
      reports t.trace = reports s.trace ++ expected s.offset records := by
  induction records generalizing s fuel with
  | nil =>
    have hdone : inWindow size s = false := by
      simp [inWindow, ← hsize, streamBytes]
    refine ⟨s, While.loop_done fuel s hdone, ?_, ?_, ?_⟩
    · simpa [streamBytes] using hsize
    · cases s.eventsRead <;> rfl
    · simp [expected]
  | cons r rest ih =>
    have hbytes : streamBytes (r :: rest) = r.bytes ++ streamBytes rest := rfl
    have hrsize : r.bytes.length = r.size := r.raw.bytes_length
    rw [hbytes] at hold room hsize
    obtain ⟨hfirst, hrest⟩ := (holds_append ..).mp hold
    have hroom := room.append
    rw [hrsize] at hrest hroom
    rw [List.length_append, hrsize] at hsize
    push_cast at hsize
    obtain ⟨u, hbody, hoff, hcount, htrace⟩ :=
      loopBody_record r (h r (List.mem_cons_self ..)) size mem s hfirst hroom.1
    cases fuel with
    | zero => simp at hfuel
    | succ fuel =>
      have hin : inWindow size s = true := by
        have hpos : 8 ≤ r.size := Nat.le_add_right ..
        simp only [inWindow, decide_eq_true_eq]
        omega
      obtain ⟨t, hloop, hend, hread, hreports⟩ :=
        ih u (fun q hq => h q (List.mem_cons_of_mem r hq)) (hoff ▸ hrest) (hoff ▸ hroom.2)
          (by omega) fuel (by simpa using hfuel)
      refine ⟨t, ?_, hend, ?_, ?_⟩
      · exact (While.loop_step fuel ⟨hin, hbody⟩).trans hloop
      · rw [hread, hcount]
        cases s.eventsRead with
        | none => rfl
        | some n => simp [Nat.add_assoc, Nat.add_comm 1]
      · rw [hreports, htrace, hoff, expected_cons]
        simp

def ringView (bytesize pos : ℤ) (ring : Memory) : Memory := fun i => ring ((pos + i) % bytesize)

/-- The unwrapped window holds what the ring holds from `prev_head` on. -/
theorem unwrapRing_holds (bytesize prevHead : ℤ) (ring data : Memory) (bytes : List Byte)
    (hprev : 0 ≤ prevHead) (hfit : (bytes.length : ℤ) ≤ bytesize)
    (hold : Holds (ringView bytesize prevHead ring) 0 bytes) :
    Holds (unwrapRing bytesize prevHead ring data) 0 bytes := by
  unfold Holds at *
  rw [← hold]
  simp only [readBytes_length]
  apply readBytes_congr _ _ 0 0 _
  intro i hi
  rw [unwrapRing_apply bytesize prevHead ring data (0 + i) hprev (by omega) (by omega)]
  rfl

def earlyFields : List SampleField :=
  [.ip, .tid, .time, .addr, .id, .streamId, .cpu, .period, .read, .callchain, .raw, .branchStack]

theorem early_notSet (hbits : ∀ f : SampleField, f.isSet c.sampleType = true → f ∈ earlyFields)
    (f : SampleField) (hf : f ∉ earlyFields) : f.isSet c.sampleType = false := by
  cases hset : f.isSet c.sampleType with
  | false => rfl
  | true => exact absurd (hbits f hset) hf

theorem early_inOrder (hbits : ∀ f : SampleField, f.isSet c.sampleType = true → f ∈ earlyFields) :
    InOrder c.sampleType := by
  have hoff := early_notSet hbits
  refine ⟨hoff _ (by decide), ?_, ?_⟩
  · intro h
    rw [hoff _ (by decide)] at h
    contradiction
  · intro h
    rw [hoff _ (by decide)] at h
    contradiction

/-- Decoding a record stream undoes encoding it: one iteration for each record,
each from the start of its record, reporting the stored values in order. -/
theorem perfMmapRead_stream (pageSize mmapSize prevHead : ℤ) (m : Mapping) (c : Config)
    (eventsRead : Option ℕ) (data : Memory) (records : List (Record c))
    (hquiet : c.quiet = false) (hraw : c.rawType = RAW_NONE)
    (hbits : ∀ f : SampleField, f.isSet c.sampleType = true → f ∈ earlyFields)
    (hrecords : ∀ r ∈ records, r.payload.type ∈ streamTypes ∧ r.trailer = [])
    (hmmap : mmapSize ≠ 0) (hprev : 0 ≤ prevHead) (hbound : m.dataHead < 2 ^ 63)
    (hhead : (m.dataHead : ℤ) - prevHead = (streamBytes records).length)
    (hfit : ((streamBytes records).length : ℤ) ≤ bufferSize mmapSize pageSize)
    (hring : Holds (ringView (bufferSize mmapSize pageSize) prevHead m.ring) 0
      (streamBytes records)) :
    ∃ r : Finished,
      (∀ fuel, records.length ≤ fuel →
        perfMmapRead pageSize (some m) mmapSize prevHead c eventsRead true data fuel =
          some (.finished r)) ∧
      reports r.loop.trace =
        records.mapIdx (fun i rec => ((startOf records i : ℤ), payloadReport c rec.payload)) ∧
      r.loop.offset = windowSize (readHead m) prevHead ∧
      r.loop.eventsRead = eventsRead.map fun _ => records.length := by
  have hbuffer : 2 * bufferSize mmapSize pageSize < 2 ^ 32 := wrap_lt 32 _ (by omega)
  have hread : readHead m = m.dataHead := wrap_eq 64 _ (by omega) (by omega)
  have hsize : windowSize (readHead m) prevHead = (streamBytes records).length := by
    unfold windowSize
    rw [hread, hhead, wrap_eq 32 _ (by omega) (by omega)]
  have hwindow := unwrapRing_holds _ prevHead m.ring data _ hprev hfit hring
  have hdecodable : ∀ r ∈ records, Decodable c r := fun r hr =>
    { loud := hquiet
      plain := plainRaw_of_none hraw
      order := early_inOrder hbits
      type := (hrecords r hr).1
      bare := (hrecords r hr).2
      stack := fun s _ hset => by
        rw [early_notSet hbits .stackUser (by decide)] at hset
        exact absurd hset Bool.false_ne_true }
  have hroom : Room 64 (loopStart eventsRead).offset (streamBytes records).length := by
    simp only [Room, loopStart]
    omega
  have hend : (loopStart eventsRead).offset + (streamBytes records).length =
      windowSize (readHead m) prevHead := by
    rw [hsize]
    simp [loopStart]
  obtain ⟨t, hloop, hoff, hcount, htrace⟩ := recordLoop_stream _ _ records
    (loopStart eventsRead) hdecodable hwindow hroom hend records.length le_rfl
  refine ⟨afterLoop pageSize m mmapSize prevHead data t, ?_, ?_, ?_, ?_⟩
  · intro fuel hfuel
    exact perfMmapRead_finished hmmap (While.loop_mono hfuel hloop)
  · simp only [afterLoop, htrace]
    simp [loopStart, reports, expected]
  · exact hoff
  · simp only [afterLoop, hcount]
    cases eventsRead <;> simp [loopStart]

def callchainConfig : Config where
  arch := .x86_64
  sampleType := 0x23
  readFormat := 0xf
  regMask := 0
  validate := none
  quiet := false
  rawType := RAW_NONE
  heap := fun _ => 0

def twoRecords : List (Record callchainConfig) :=
  [⟨0, .comm 7 8 ⟨[0x6c, 0x73], 5, by decide⟩, [], by decide⟩, ⟨0, .lost 1 2, [], by decide⟩]

def wrappedRing : Mapping where
  dataHead := 32808
  dataTail := 32760
  ring := fun i => overlay (streamBytes twoRecords) (fun _ => 0) ((i - 32760) % 32768)

theorem perfMmapRead_stream_wrapped :
    ∃ r : Finished,
      (∀ fuel, 2 ≤ fuel →
        perfMmapRead 4096 (some wrappedRing) 8 32760 callchainConfig (some 0) true (fun _ => 0)
          fuel = some (.finished r)) ∧
      reports r.loop.trace = twoRecords.mapIdx (fun i rec =>
        ((startOf twoRecords i : ℤ), payloadReport callchainConfig rec.payload)) ∧
      r.loop.offset = windowSize (readHead wrappedRing) 32760 ∧ r.loop.eventsRead = some 2 :=
  perfMmapRead_stream 4096 8 32760 wrappedRing callchainConfig (some 0) (fun _ => 0) twoRecords
    rfl rfl (by intro f; cases f <;> decide) (by decide) (by omega) (by omega) (by decide)
    (by decide) (by decide) (by decide)

end PapiSample.RoundTrip
