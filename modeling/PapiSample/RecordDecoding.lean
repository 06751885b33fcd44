import PapiSample.SampleDecoding

/-!
A record of the stream is a header, a body laid out by the type, and possibly a
`sample_id` trailer. One iteration of the loop that starts at the header reports
the stored values and stops behind the body.
-/
namespace PapiSample.RecordDecoding

open Bytes Cursor Cursor.Prog PerfEvent ParseRecord SampleFields RecordLoop Report FieldDecoding
  RegisterDecoding SampleDecoding

variable {c : Config}

structure RawRecord where
  type : BitVec 32
  misc : BitVec 16
  body : List Byte
  fits : 8 + body.length < recordLimit

def RawRecord.size (r : RawRecord) : ℕ := 8 + r.body.length

def RawRecord.header (r : RawRecord) : List Byte :=
  headerBytes r.type r.misc (BitVec.ofNat 16 r.size)

def RawRecord.bytes (r : RawRecord) : List Byte := r.header ++ r.body

@[simp] theorem RawRecord.bytes_length (r : RawRecord) : r.bytes.length = r.size := by
  simp only [bytes, header, headerBytes, size, List.length_append, le32_length, le16_length]

/-- A record of a documented type, encoded for the configuration of the parser. -/
structure Record (c : Config) where
  misc : BitVec 16
  payload : Payload
  trailer : List Byte
  fits : 8 + (payload.bytes c.sampleType c.readFormat c.regMask ++ trailer).length < recordLimit

namespace Record

def raw (r : Record c) : RawRecord where
  type := r.payload.type.code
  misc := r.misc
  body := r.payload.bytes c.sampleType c.readFormat c.regMask ++ r.trailer
  fits := r.fits

def bytes (r : Record c) : List Byte := r.raw.bytes

def size (r : Record c) : ℕ := r.raw.size

end Record

/-- What a header says when it is read back. -/
theorem header_words (r : RawRecord) (mem : Memory) (start : ℤ) (hold : Holds mem start r.bytes) :
    word32 mem start = r.type ∧ word16 mem (start + 4) = r.misc ∧
      word16 mem (start + 6) = BitVec.ofNat 16 r.size ∧ Holds mem (start + 8) r.body := by
  unfold RawRecord.bytes RawRecord.header headerBytes at hold
  obtain ⟨hheader, hbody⟩ := (holds_append ..).mp hold
  obtain ⟨hfront, hsize⟩ := (holds_append ..).mp hheader
  obtain ⟨htype, hmisc⟩ := (holds_append ..).mp hfront
  refine ⟨word32_of_holds mem start r.type htype, ?_, ?_, by simpa using hbody⟩
  · exact word16_of_holds mem _ r.misc (by simpa using hmisc)
  · exact word16_of_holds mem _ _ (by simpa using hsize)

theorem size_toNat (r : RawRecord) : (BitVec.ofNat 16 r.size).toNat = r.size := by
  have h := r.fits
  unfold recordLimit at h
  rw [BitVec.toNat_ofNat, Nat.mod_eq_of_lt (by unfold RawRecord.size; omega)]

/-- The description of the header is kept at a site of its own. -/
theorem says_printHeader {R : Type} {obs : Out → List R} (h : Deaf .header obs) (start : ℤ)
    (type : BitVec 32) : Says obs (printHeader c start type) [] := by
  have hpeek : ∀ pos (g : BitVec 16 → Parser Unit), (∀ v, Says obs (g v) []) →
      Says obs (peek16 pos >>= g) [] := by
    intro pos g hg mem off
    have hload : Consumes obs (peek16 pos) mem off 0 (word16 mem pos) [] := by
      constructor
      · simp [peek16]
      · rfl
    exact hload.seq (hg _ mem off)
  refine Deaf.unlessQuiet ((h.fprintf _ _).skip (hpeek _ _ fun misc => ?_))
  refine (h.fprintf _ _).skip ((h.fprintf _ _).skip ?_)
  apply (Deaf.optionally _ (h.fprintf _ _)).skip
  apply (Deaf.optionally _ (h.fprintf _ _)).skip
  apply (Deaf.optionally _ (h.fprintf _ _)).skip
  exact hpeek _ _ fun size => h.fprintf _ _

/-- An iteration is the header and what the case of the type consumes. -/
theorem iteration_of_details {R : Type} {obs : Out → List R} (h : Deaf .header obs) (size : ℤ)
    (mem : Memory) (start : ℤ) (n : ℕ) (rep : List R) (room : Room 64 start (8 + n))
    (hdetails : Consumes obs (details c size start (word32 mem start)) mem (start + 8) n () rep) :
    Consumes obs (iteration c size) mem start (8 + n) () rep := by
  have htype : Consumes obs (peek32 start) mem start 0 (word32 mem start) [] := by
    constructor
    · simp [peek32]
    · rfl
  have hhere : Consumes obs here mem start 0 start [] := by
    constructor
    · simp [here]
    · rfl
  have hroom : Room 64 start 8 := room.split.1
  have hskip : Consumes obs (advance 8) mem start 8 () [] := consumes_skip 64 8 hroom
  have hrun : Consumes obs (iteration c size) mem start (8 + n) ()
      ([] ++ ([] ++ ([] ++ ([] ++ rep)))) :=
    hhere.seq (htype.seq ((says_printHeader h start _ mem start).seq (hskip.bind hdetails)))
  exact hrun

theorem reported_deaf : Deaf .header reported := fun _ _ _ => rfl

theorem lostRecord_decodes (hq : c.quiet = false) (id count : BitVec 64) :
    Decodes 64 reported (lostRecord c) (le64 id ++ le64 count) ()
      (atSite .details [.long id, .long count]) :=
  (longField_decodes hq .details _ rfl id).next (longField_decodes hq .details _ rfl count)

theorem taskRecord_decodes (hq : c.quiet = false) (pid ppid tid ptid : BitVec 32)
    (time : BitVec 64) :
    Decodes 64 reported (taskRecord c)
      (le32 pid ++ le32 ppid ++ le32 tid ++ le32 ptid ++ le64 time) ()
      (atSite .details [.int pid, .int ppid, .int tid, .int ptid, .long time]) := by
  have hint := intField_decodes (c := c) hq .details
  have hrun := (hint "\tPID: %d\n" rfl pid).next ((hint "\tPPID: %d\n" rfl ppid).next
    ((hint "\tTID: %d\n" rfl tid).next ((hint "\tPTID: %d\n" rfl ptid).next
      (longField_decodes hq .details "\tTime: %lld\n" rfl time))))
  exact hrun.congr (by simp only [List.append_assoc]) rfl

theorem throttleRecord_decodes (hq : c.quiet = false) (time id streamId : BitVec 64) :
    Decodes 64 reported (throttleRecord c) (le64 time ++ le64 id ++ le64 streamId) ()
      (atSite .details [.long time, .long id, .long streamId]) := by
  have hlong := longField_decodes (c := c) hq .details
  have hrun := (hlong "\tTime: %lld\n" rfl time).next
    ((hlong "\tID: %lld\n" rfl id).next (hlong "\tStream ID: %lld\n" rfl streamId))
  exact hrun.congr (by simp only [List.append_assoc]) rfl

theorem pidTid_decodes (hq : c.quiet = false) (pid tid : BitVec 32) :
    Decodes 64 reported (pidTid c) (le32 pid ++ le32 tid) ()
      (atSite .details [.int pid, .int tid]) :=
  (intField_decodes hq .details _ rfl pid).next (intField_decodes hq .details _ rfl tid)

theorem mapFields_decode (hq : c.quiet = false) (pid tid : BitVec 32)
    (addr len pgoff : BitVec 64) :
    Decodes 64 reported (mapFields c)
      (le32 pid ++ le32 tid ++ le64 addr ++ le64 len ++ le64 pgoff) ()
      (atSite .details [.int pid, .int tid, .long addr, .long len, .long pgoff]) := by
  have hlong := longField_decodes (c := c) hq .details
  have hrun := (pidTid_decodes hq pid tid).next ((hlong "\tAddress: %llx\n" rfl addr).next
    ((hlong "\tLength: %llx\n" rfl len).next (hlong "\tPage Offset: %llx\n" rfl pgoff)))
  exact hrun.congr (by simp only [List.append_assoc]) rfl

theorem mmap2Fields_decode (hq : c.quiet = false) (pid tid : BitVec 32)
    (addr len pgoff : BitVec 64) (maj min : BitVec 32) (ino inoGeneration : BitVec 64)
    (prot flags : BitVec 32) :
    Decodes 64 reported (mmap2Fields c)
      (le32 pid ++ le32 tid ++ le64 addr ++ le64 len ++ le64 pgoff ++ le32 maj ++ le32 min ++
        le64 ino ++ le64 inoGeneration ++ le32 prot ++ le32 flags) ()
      (atSite .details [.int pid, .int tid, .long addr, .long len, .long pgoff, .int maj,
        .int min, .long ino, .long inoGeneration, .int prot, .int flags]) := by
  have hint := intField_decodes (c := c) hq .details
  have hlong := longField_decodes (c := c) hq .details
  have hrun := (mapFields_decode hq pid tid addr len pgoff).next
    ((hint "\tMajor: %d\n" rfl maj).next ((hint "\tMinor: %d\n" rfl min).next
      ((hlong "\tIno: %llx\n" rfl ino).next
        ((hlong "\tIno generation: %llx\n" rfl inoGeneration).next
          ((hint "\tProt: %d\n" rfl prot).next (hint "\tFlags: %d\n" rfl flags))))))
  exact hrun.congr (by simp only [List.append_assoc]) rfl

/-- A stored name ends at its first terminator, whatever follows. -/
theorem name_takeWhile (n : Name) (rest : List Byte) :
    (n.bytes ++ rest).takeWhile (· != 0) = n.text := by
  unfold Name.bytes
  rw [List.append_assoc, List.takeWhile_append_of_pos fun b hb => by simpa using n.noNul b hb,
    List.replicate_succ, List.cons_append, List.takeWhile_cons]
  simp

/-- The name of a record that starts at `start`, read from behind its fixed part. -/
theorem nameTail_consumes (hq : c.quiet = false) (r : RawRecord) (head : ℕ) (format : String)
    (name : Name) (rest : List Byte) (mem : Memory) (start : ℤ)
    (hold : Holds mem start r.bytes) (hsize : r.size = head + (name.bytes ++ rest).length)
    (hname : Holds mem (start + head) (name.bytes ++ rest))
    (room : Room 64 (start + head) (name.bytes ++ rest).length) :
    Consumes reported (nameTail c start head format) mem (start + head)
      (name.bytes ++ rest).length () (atSite .details [.str name.text]) := by
  have hpeek : Consumes reported (eventSize start) mem (start + head) 0
      (BitVec.ofNat 16 r.size) [] := by
    constructor
    · simp [eventSize, peek16, (header_words r mem start hold).2.2.1]
    · rfl
  have hlength : ((BitVec.ofNat 16 r.size).toNat : ℤ) - head = (name.bytes ++ rest).length := by
    rw [size_toNat]
    omega
  have hprint := says_unlessQuiet hq (says_fprintf .details format
    [.str ((name.bytes ++ rest).takeWhile (· != 0))] rfl) mem (start + head)
  have hmove := hprint.next
    (decodes_advance _ (name.bytes ++ rest) rfl mem (start + head) hname room)
  rw [name_takeWhile] at hmove
  have hrest : Consumes reported
      (do
        let string ← copyOut ((BitVec.ofNat 16 r.size).toNat - head : ℤ)
        unlessQuiet c (fprintf .details format [.str (string.takeWhile (· != 0))])
        advance ((BitVec.ofNat 16 r.size).toNat - head : ℤ)) mem (start + head)
      (name.bytes ++ rest).length () (atSite .details [.str name.text] ++ []) := by
    rw [hlength]
    exact (consumes_copyOut rfl hname).seq (by rw [name_takeWhile]; exact hmove)
  exact hpeek.seq hrest

/-- A fixed part and the name behind it. -/
theorem named_consume (hq : c.quiet = false) (r : RawRecord) (head : ℕ) (format : String)
    {p : Parser Unit} {fixed : List Byte} {rep : List Value} (name : Name) (rest : List Byte)
    (hp : Decodes 64 reported p fixed () (atSite .details rep)) (hhead : head = 8 + fixed.length)
    (hbody : r.body = fixed ++ (name.bytes ++ rest)) (mem : Memory) (start : ℤ)
    (hold : Holds mem start r.bytes) (room : Room 64 (start + 8) r.body.length) :
    Consumes reported (do p; nameTail c start head format) mem (start + 8) r.body.length ()
      (atSite .details (rep ++ [.str name.text])) := by
  have hmem := (header_words r mem start hold).2.2.2
  rw [hbody] at hmem room
  obtain ⟨hfixed, hname⟩ := (holds_append ..).mp hmem
  have hpos : start + 8 + (fixed.length : ℤ) = start + (head : ℕ) := by
    rw [hhead]
    push_cast
    omega
  have hsize : r.size = head + (name.bytes ++ rest).length := by
    unfold RawRecord.size
    rw [hbody, List.length_append, hhead]
    omega
  have hroom := room.append.2
  rw [hpos] at hname hroom
  have htail := nameTail_consumes hq r head format name rest mem start hold hsize hname hroom
  rw [← hpos] at htail
  have hrun := (hp mem (start + 8) hfixed room.append.1).bind
    (f := fun _ => nameTail c start head format) htail
  rw [hbody, List.length_append, atSite_append]
  exact hrun

/-- The types whose cases follow the layout. -/
def streamTypes : List RecordType :=
  [.sample, .lost, .comm, .fork, .exit, .mmap, .mmap2, .throttle, .unthrottle, .itraceStart]

/-- What the parser must be told, and what must hold of the records, for the
stream to be decoded. -/
structure Decodable (c : Config) (r : Record c) : Prop where
  loud : c.quiet = false
  plain : PlainRaw c
  order : InOrder c.sampleType
  type : r.payload.type ∈ streamTypes
  bare : r.trailer = []
  stack : ∀ s, r.payload = .sample s → SampleField.stackUser.isSet c.sampleType = true →
    DumpInside s.stack s.dynSize

/-- Behind a header that says `size`, the case of a decodable record reports its
payload. -/
theorem details_consume (r : Record c) (h : Decodable c r) (size : ℤ) (mem : Memory) (start : ℤ)
    (hold : Holds mem start r.bytes) (room : Room 64 start r.size) :
    Consumes reported (details c size start r.payload.type.code) mem (start + 8)
      r.raw.body.length () (payloadReport c r.payload) := by
  have hq := h.loud
  have hbody : Holds mem (start + 8) r.raw.body := (header_words r.raw mem start hold).2.2.2
  have hroom : Room 64 (start + 8) r.raw.body.length := by
    unfold Record.size RawRecord.size at room
    exact room.split.2
  have hbare : r.raw.body = r.payload.bytes c.sampleType c.readFormat c.regMask := by
    simp [Record.raw, h.bare]
  have hfits := r.raw.fits
  have htype := h.type
  rw [hbare] at hbody hroom hfits ⊢
  unfold details
  rw [RecordType.ofCode_code]
  cases hp : r.payload with
  | lost id count =>
    rw [hp] at hbody hroom
    exact lostRecord_decodes hq id count mem _ hbody hroom
  | exit pid ppid tid ptid time =>
    rw [hp] at hbody hroom
    exact taskRecord_decodes hq pid ppid tid ptid time mem _ hbody hroom
  | fork pid ppid tid ptid time =>
    rw [hp] at hbody hroom
    exact taskRecord_decodes hq pid ppid tid ptid time mem _ hbody hroom
  | throttle time id streamId =>
    rw [hp] at hbody hroom
    exact throttleRecord_decodes hq time id streamId mem _ hbody hroom
  | unthrottle time id streamId =>
    rw [hp] at hbody hroom
    exact throttleRecord_decodes hq time id streamId mem _ hbody hroom
  | itraceStart pid tid =>
    rw [hp] at hbody hroom
    exact pidTid_decodes hq pid tid mem _ hbody hroom
  | sample s =>
    rw [hp] at hbody hroom hfits
    exact sampleRecord_decodes hq h.plain s h.order (h.stack s hp)
      (by simp only [Payload.bytes] at hfits; omega) mem _ hbody hroom
  | comm pid tid name =>
    have hlayout : r.raw.body = (le32 pid ++ le32 tid) ++ (name.bytes ++ []) := by
      rw [hbare, hp, List.append_nil]
      rfl
    have hrun := named_consume hq r.raw 16 "\tcomm: %s\n" name [] (pidTid_decodes hq pid tid)
      (by simp) hlayout mem start hold (hbare ▸ hroom)
    rw [hbare, hp] at hrun
    exact hrun
  | mmap pid tid addr len pgoff filename =>
    have hlayout : r.raw.body =
        (le32 pid ++ le32 tid ++ le64 addr ++ le64 len ++ le64 pgoff) ++
          (filename.bytes ++ []) := by
      rw [hbare, hp, List.append_nil]
      rfl
    have hrun := named_consume hq r.raw 40 "\tFilename: %s\n" filename []
      (mapFields_decode hq pid tid addr len pgoff) (by simp) hlayout mem start hold
      (hbare ▸ hroom)
    rw [hbare, hp] at hrun
    exact hrun
  | mmap2 pid tid addr len pgoff maj min ino inoGeneration prot flags filename =>
    have hlayout : r.raw.body =
        (le32 pid ++ le32 tid ++ le64 addr ++ le64 len ++ le64 pgoff ++ le32 maj ++ le32 min ++
          le64 ino ++ le64 inoGeneration ++ le32 prot ++ le32 flags) ++
          (filename.bytes ++ []) := by
      rw [hbare, hp, List.append_nil]
      rfl
    have hrun := named_consume hq r.raw 72 "\tFilename: %s\n" filename []
      (mmap2Fields_decode hq pid tid addr len pgoff maj min ino inoGeneration prot flags)
      (by simp) hlayout mem start hold (hbare ▸ hroom)
    rw [hbare, hp] at hrun
    exact hrun
  | read => simp [hp, Payload.type, streamTypes] at htype
  | aux => simp [hp, Payload.type, streamTypes] at htype
  | lostSamples => simp [hp, Payload.type, streamTypes] at htype
  | switch => simp [hp, Payload.type, streamTypes] at htype
  | switchCpuWide => simp [hp, Payload.type, streamTypes] at htype
  | namespaces => simp [hp, Payload.type, streamTypes] at htype

end PapiSample.RecordDecoding
