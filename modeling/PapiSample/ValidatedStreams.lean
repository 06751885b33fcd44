import PapiSample.BitLabels
import PapiSample.FollowedStreams
import PapiSample.MarkedSamples
import PapiSample.Validation

/-!
The errors over a stream of records as the kernel writes them. A sample is compared by
its pid, by the number of its group of counters and by the sources of its branches; its
tid, the targets of its branches and the other records are never compared.
-/
namespace PapiSample.ValidatedStreams

open Bytes Cursor PerfEvent ParseRecord SampleFields FieldDecoding RegisterDecoding SampleDecoding
  RecordDecoding RoundTrip Advance RecordAdvance MmapRead ReportingOptions Validation
  FollowedStreams

variable {c : Config} {mem : Memory}

def sampleErrors (c : Config) (s : Sample) : SampleField → List Message
  | .tid => pidErrors c s.pid
  | .read =>
      if hasFormat c PERF_FORMAT_GROUP then countErrors c (BitVec.ofNat 64 s.values.cntr.length)
      else []
  | .branchStack => s.lbr.flatMap fun e => branchErrors c e.source
  | _ => []

def payloadErrors (c : Config) : Payload → List Message
  | .sample s => (requested c SampleField.layout).flatMap (sampleErrors c s)
  | _ => []

/-- The sources of a branch stack that is stored at `pos`, from entry `k` on. -/
theorem stored_sources {R : Type} (g : BitVec 64 → List R) (lbr : List BranchEntry) (pos : ℤ)
    (k : ℕ) (hold : Holds mem (pos + 24 * k) (lbr.flatMap BranchEntry.bytes)) :
    ((List.range' k lbr.length).flatMap fun i : ℕ => g (word64 mem (pos + 24 * i))) =
      lbr.flatMap fun e => g e.source := by
  induction lbr generalizing k with
  | nil => rfl
  | cons e rest ih =>
    rw [List.flatMap_cons] at hold
    obtain ⟨hentry, hrest⟩ := (holds_append ..).mp hold
    have hlength : e.bytes.length = 24 := by simp [BranchEntry.bytes]
    have hsource : word64 mem (pos + 24 * k) = e.source := by
      unfold BranchEntry.bytes at hentry
      rw [wordsBytes_cons] at hentry
      exact word64_of_holds mem _ e.source ((holds_append ..).mp hentry).1
    have hnext : pos + 24 * (k : ℤ) + (e.bytes.length : ℤ) = pos + 24 * ((k + 1 : ℕ) : ℤ) := by
      rw [hlength]
      push_cast
      ring
    rw [hnext] at hrest
    rw [List.length_cons, List.range'_succ, List.flatMap_cons, List.flatMap_cons, hsource,
      ih (k + 1) hrest]

/-- The entries of a stored branch stack. -/
theorem stored_branchErrors (s : Sample) {off : ℤ}
    (hold : Holds mem off (fieldBytes c s .branchStack))
    (room : Room 64 off (fieldBytes c s .branchStack).length)
    (hlen : (fieldBytes c s .branchStack).length < recordLimit) :
    fieldErrors c mem off .branchStack = sampleErrors c s .branchStack := by
  have hlength : (fieldBytes c s .branchStack).length = 8 + 24 * s.lbr.length :=
    BitLabels.entries_length s.lbr
  rw [hlength] at hlen room
  obtain ⟨hcount, hentries⟩ := (holds_append ..).mp hold
  have hnumber : countAt mem off = s.lbr.length := by
    unfold countAt
    rw [word64_of_holds mem off _ hcount, count_toInt _ (by omega)]
  rw [le64_length] at hentries
  have hall := stored_sources (branchErrors c) s.lbr (off + 8) 0 (by simpa using hentries)
  simp only [fieldErrors, sampleErrors, hnumber, Int.toNat_natCast, ← hall, ← List.range_eq_range']
  apply List.flatMap_congr
  intro i hi
  have hin := List.mem_range.mp hi
  unfold Room at room
  unfold moved
  rw [wrap_eq 64 _ (by omega) (by omega), Int.add_assoc]

/-- A stored group of counters begins with their number. -/
theorem stored_number (v : ReadValues) (hgroup : hasFormat c PERF_FORMAT_GROUP = true) {off : ℤ}
    (hold : Holds mem off (wordsBytes (v.words c.readFormat))) :
    word64 mem off = BitVec.ofNat 64 v.cntr.length := by
  unfold hasFormat at hgroup
  simp only [ReadValues.words, hgroup, if_true, List.cons_append, wordsBytes_cons] at hold
  exact word64_of_holds mem off _ ((holds_append ..).mp hold).1

/-- The errors found in a stored field are those it deserves. -/
theorem stored_fieldErrors (s : Sample) (f : SampleField) {off : ℤ}
    (hold : Holds mem off (fieldBytes c s f)) (room : Room 64 off (fieldBytes c s f).length)
    (hlen : (fieldBytes c s f).length < recordLimit) :
    fieldErrors c mem off f = sampleErrors c s f := by
  cases f with
  | tid =>
    have hpid : word32 mem off = s.pid :=
      word32_of_holds mem off s.pid ((holds_append ..).mp hold).1
    simp only [fieldErrors, sampleErrors, hpid]
  | read =>
    simp only [fieldErrors, sampleErrors]
    by_cases hgroup : hasFormat c PERF_FORMAT_GROUP = true
    · have hstored : Holds mem off (wordsBytes (s.values.words c.readFormat)) := hold
      rw [if_pos hgroup, if_pos hgroup, stored_number s.values hgroup hstored]
    · rw [if_neg hgroup, if_neg hgroup]
  | branchStack => exact stored_branchErrors s hold room hlen
  | _ => rfl

/-- A stored field ends where its bytes end. -/
theorem stored_next (hquiet : c.quiet = false) (hraw : PlainRaw c) (s : Sample) (f : SampleField)
    (hf : f ≠ .physAddr) (hdump : f = .stackUser → DumpInside s.stack s.dynSize) {off : ℤ}
    (hold : Holds mem off (fieldBytes c s f)) (room : Room 64 off (fieldBytes c s f).length)
    (hlen : (fieldBytes c s f).length < recordLimit) :
    ∃ n, fieldLength c mem off f = some n ∧ moved 64 off n = off + (fieldBytes c s f).length := by
  have hrun := sampleBlock_decodes hquiet hraw s f hf hlen hdump mem off hold room
  have hoff : wrap 64 off = off := by
    unfold Room at room
    exact wrap_eq 64 off (by omega) (by omega)
  have hexit := exit_sampleBlock (c := c) f hf mem off hoff
  rw [hrun.exit] at hexit
  obtain ⟨n, hn, hmoved⟩ := Option.map_eq_some_iff.mp hexit.symm
  exact ⟨n, hn, congrArg Prod.snd hmoved⟩

theorem stored_fieldsErrors (hquiet : c.quiet = false) (hraw : PlainRaw c) (s : Sample)
    (hdump : SampleField.stackUser.isSet c.sampleType = true → DumpInside s.stack s.dynSize)
    (order : List SampleField) (hphys : .physAddr ∉ order) {off : ℤ}
    (hold : Holds mem off ((requested c order).flatMap (fieldBytes c s)))
    (room : Room 64 off ((requested c order).flatMap (fieldBytes c s)).length)
    (hlen : ((requested c order).flatMap (fieldBytes c s)).length < recordLimit) :
    fieldsErrors c mem order off = (requested c order).flatMap (sampleErrors c s) := by
  induction order generalizing off with
  | nil => rfl
  | cons f rest ih =>
    obtain ⟨hf, hrest⟩ := not_or.mp (fun h => hphys (List.mem_cons.mpr h))
    rw [requested_cons] at hold room hlen ⊢
    rw [fieldsErrors]
    cases hset : f.isSet c.sampleType with
    | false =>
      simp only [hset, Bool.false_eq_true, if_false] at hold room hlen ⊢
      exact ih hrest hold room hlen
    | true =>
      simp only [hset, if_true, List.flatMap_cons] at hold room hlen ⊢
      rw [List.length_append] at hlen
      obtain ⟨hblock, hothers⟩ := (holds_append ..).mp hold
      obtain ⟨n, hn, hnext⟩ := stored_next hquiet hraw s f (Ne.symm hf)
        (fun hstack => hdump (hstack ▸ hset)) hblock room.append.1 (by omega)
      rw [stored_fieldErrors s f hblock room.append.1 (by omega), hn, Option.elim_some, hnext,
        ih hrest hothers room.append.2 (by omega)]

/-- The errors found in a stored record are those it deserves. -/
theorem stored_recordErrors (r : Record c) (h : Decodable c r) {start : ℤ}
    (hold : Holds mem start r.bytes) (room : Room 64 start r.size) :
    recordErrors c mem start = payloadErrors c r.payload := by
  obtain ⟨hword, _, _, hstored⟩ := header_words r.raw mem start hold
  have htype : RecordType.ofCode (word32 mem start) = some r.payload.type := by
    rw [hword]
    exact RecordType.ofCode_code _
  unfold recordErrors
  rw [htype]
  cases hp : r.payload with
  | sample s =>
    have hbody : r.raw.body = (requested c blockOrder).flatMap (fieldBytes c s) := by
      show r.payload.bytes c.sampleType c.readFormat c.regMask ++ r.trailer = _
      rw [requested_inOrder h.order, h.bare, hp, List.append_nil]
      rfl
    have hfits := r.raw.fits
    unfold Record.size RawRecord.size at room
    have hpos : moved 64 start 8 = start + 8 := by
      unfold Room at room
      exact wrap_eq 64 _ (by omega) (by omega)
    have hnext := room.split.2
    rw [hbody] at hstored hnext hfits
    rw [if_pos (show some (Payload.sample s).type = some .sample from rfl), hpos,
      stored_fieldsErrors h.loud h.plain s (h.stack s hp) blockOrder (by decide) hstored hnext
        (by omega), requested_inOrder h.order]
    rfl
  | _ => rfl

/-- The records that are decoded are followed by who reads the standard error. -/
theorem follows_errors {c' : Config} (hchecks : SameChecks c c') (r : Record c)
    (h : Decodable c r) :
    Follows c' errors (fun r => payloadErrors c r.payload) r := by
  intro size mem start hold room
  have hexit := (iteration_consumes r h size mem start hold room).exit
  rw [exit_iteration] at hexit
  obtain ⟨next, hnext, hend⟩ := Option.map_eq_some_iff.mp hexit
  rw [recordNext_options hchecks.toSameFormat] at hnext
  constructor
  · rw [exit_iteration, hnext, Option.map_some, hend]
  · rw [seen_iteration size start (by simp [hnext]), ← recordErrors_options hchecks,
      stored_recordErrors r h hold room]

/-- A sample agrees with the values it is compared with, its branches in the way the
platform compares them. Its tid, the targets of its branches and an upper bound of their
sources do not matter. -/
structure Agrees (c : Config) (v : ValidateValues) (s : Sample) : Prop where
  pid : SampleField.tid.isSet c.sampleType = true → v.pid = s.pid
  number : SampleField.read.isSet c.sampleType = true → hasFormat c PERF_FORMAT_GROUP = true →
    v.events.toInt = (BitVec.ofNat 64 s.values.cntr.length).toInt
  sources : SampleField.branchStack.isSet c.sampleType = true → ∀ e ∈ s.lbr,
    belowLow c.arch e.source v.branchLow = false

theorem compared_nil_iff (differs : ValidateValues → Bool) (format : String)
    (args : ValidateValues → List Arg) :
    compared c differs format args = [] ↔ ∀ v ∈ c.validate, differs v = false := by
  unfold compared
  cases c.validate with
  | none => simp
  | some v => simp

theorem sampleErrors_nil_iff (s : Sample) :
    (∀ f ∈ requested c SampleField.layout, sampleErrors c s f = []) ↔
      ∀ v ∈ c.validate, Agrees c v s := by
  have hfields : ∀ f : SampleField, f ∈ SampleField.layout := by
    intro f
    cases f <;> decide
  simp only [mem_requested, hfields, true_and]
  constructor
  · intro h v hv
    refine ⟨fun hset => ?_, fun hset hgroup => ?_, fun hset e he => ?_⟩
    · simpa using (compared_nil_iff _ _ _).mp (h .tid hset) v hv
    · have hread := h .read hset
      simp only [sampleErrors, hgroup, if_true] at hread
      simpa using (compared_nil_iff _ _ _).mp hread v hv
    · have hbranch := List.flatMap_eq_nil_iff.mp (h .branchStack hset) e he
      simpa using (compared_nil_iff _ _ _).mp hbranch v hv
  · intro h f hset
    cases f with
    | tid => exact (compared_nil_iff _ _ _).mpr fun v hv => by simpa using (h v hv).pid hset
    | read =>
      unfold sampleErrors
      by_cases hgroup : hasFormat c PERF_FORMAT_GROUP = true
      · rw [if_pos hgroup]
        exact (compared_nil_iff _ _ _).mpr fun v hv => by simpa using (h v hv).number hset hgroup
      · rw [if_neg hgroup]
    | branchStack =>
      apply List.flatMap_eq_nil_iff.mpr
      intro e he
      exact (compared_nil_iff _ _ _).mpr fun v hv => by simpa using (h v hv).sources hset e he
    | _ => rfl

/-- The records without errors are those that agree with what they are compared with. -/
theorem payloadErrors_nil_iff (p : Payload) :
    payloadErrors c p = [] ↔ ∀ v ∈ c.validate, ∀ s, p = .sample s → Agrees c v s := by
  cases p with
  | sample s =>
    simp only [payloadErrors, List.flatMap_eq_nil_iff, sampleErrors_nil_iff, Payload.sample.injEq,
      forall_eq']
  | _ => simp [payloadErrors]

/-- There are no errors at all if no record has one. -/
theorem streamErrors_nil_iff (records : List (Record c)) :
    (∀ e ∈ records.mapIdx (fun i r => ((startOf records i : ℤ), payloadErrors c r.payload)),
        e.2 = []) ↔
      ∀ v ∈ c.validate, ∀ r ∈ records, ∀ s, r.payload = .sample s → Agrees c v s := by
  have hrecords : (∀ e ∈ records.mapIdx
      (fun i r => ((startOf records i : ℤ), payloadErrors c r.payload)), e.2 = []) ↔
      ∀ r ∈ records, payloadErrors c r.payload = [] := by
    constructor
    · intro h r hr
      obtain ⟨i, hi, rfl⟩ := List.getElem_of_mem hr
      exact h _ (List.mem_mapIdx.mpr ⟨i, hi, rfl⟩)
    · intro h e he
      obtain ⟨i, hi, rfl⟩ := List.mem_mapIdx.mp he
      exact h _ (List.getElem_mem hi)
  simp only [hrecords, payloadErrors_nil_iff]
  exact ⟨fun h v hv r hr => h r hr v hv, fun h r hr v hv => h v hv r hr⟩

/-- A call on a stream of records says on the standard error exactly what the records
deserve, in their order, whatever else it is to print; it says nothing exactly if every
sample agrees with the values it is compared with. -/
theorem stream_errors (pageSize mmapSize prevHead : ℤ) (m : Mapping) (c c' : Config)
    (hchecks : SameChecks c c') (eventsRead : Option ℕ) (data : Memory)
    (records : List (Record c)) (hrecords : ∀ r ∈ records, Decodable c r) (hmmap : mmapSize ≠ 0)
    (hprev : 0 ≤ prevHead) (hbound : m.dataHead < 2 ^ 63)
    (hhead : (m.dataHead : ℤ) - prevHead = (streamBytes records).length)
    (hfit : ((streamBytes records).length : ℤ) ≤ bufferSize mmapSize pageSize)
    (hring : Holds (ringView (bufferSize mmapSize pageSize) prevHead m.ring) 0
      (streamBytes records)) :
    ∃ r : Finished,
      (∀ fuel, records.length ≤ fuel →
        perfMmapRead pageSize (some m) mmapSize prevHead c' eventsRead true data fuel =
          some (.finished r)) ∧
      errorsOf r.loop.trace =
        records.mapIdx (fun i rec => ((startOf records i : ℤ), payloadErrors c rec.payload)) ∧
      ((∀ e ∈ errorsOf r.loop.trace, e.2 = []) ↔
        ∀ v ∈ c.validate, ∀ rec ∈ records, ∀ s, rec.payload = .sample s → Agrees c v s) := by
  obtain ⟨r, hfinished, herrors⟩ := perfMmapRead_follows pageSize mmapSize prevHead m c' eventsRead
    data records (fun r hr => follows_errors hchecks r (hrecords r hr)) hmmap hprev hbound hhead
      hfit hring
  refine ⟨r, hfinished, herrors, ?_⟩
  rw [show errorsOf r.loop.trace = _ from herrors]
  exact streamErrors_nil_iff records

def strangerSample : Sample := { MarkedSamples.zeroSample with pid := 7, tid := 8 }

def strangerRecord : Record (pidConfig false) := ⟨0, .sample strangerSample, [], by decide⟩

theorem stream_errors_stranger : ∃ r : Finished,
    (∀ fuel, 1 ≤ fuel → perfMmapRead 4096 (some strangerRing) 1 0 (pidConfig true) none true
      (fun _ => 0) fuel = some (.finished r)) ∧
    errorsOf r.loop.trace = [(0, payloadErrors (pidConfig false) (.sample strangerSample))] ∧
    ((∀ e ∈ errorsOf r.loop.trace, e.2 = []) ↔
      ∀ v ∈ (pidConfig false).validate, ∀ rec ∈ [strangerRecord], ∀ s, rec.payload = .sample s →
        Agrees (pidConfig false) v s) := by
  have hdecodable : ∀ r ∈ [strangerRecord], Decodable (pidConfig false) r := fun r hr => by
    rw [List.mem_singleton.mp hr]
    exact ⟨rfl, plainRaw_of_none rfl, by decide, by decide, rfl,
      fun s _ hset => absurd hset (by decide)⟩
  exact stream_errors 4096 1 0 strangerRing (pidConfig false) (pidConfig true)
    ⟨⟨rfl, rfl, rfl⟩, rfl, rfl⟩ none (fun _ => 0) [strangerRecord] hdecodable (by decide)
      (by decide) (by decide) (by decide +kernel) (by decide +kernel) (by decide +kernel)

end PapiSample.ValidatedStreams
