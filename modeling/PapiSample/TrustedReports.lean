import PapiSample.LoggedReports
import PapiSample.SampleLayout

/-!
What a log can be trusted for when blocks of a sample are read at each other's places.
The interrupt registers and the fields that they overtake have fixed lengths, so the
parser stays in step with the records, and it misplaces values among these fields only:
the values of all the others, and of all other records, are printed as they were encoded.
-/
namespace PapiSample.TrustedReports

open Bytes Cursor Cursor.Prog PerfEvent ParseRecord SampleFields RecordLoop Report FieldDecoding
  SampleDecoding RecordDecoding RoundTrip Advance RecordAdvance Emissions BlockOutputs SampleLayout
  MarkedSamples FollowedStreams LoggedReports MmapRead

variable {c : Config} {mem : Memory}

/-- The fields that may be read at each other's places, in the order of the code. -/
def displaced : List SampleField := [.regsIntr, .weight, .dataSrc, .transaction]

def isTrusted (e : Site × Value) : Bool := e.1 ∉ displaced.map Site.field

def trusted (o : Out) : List (Site × Value) := (logged o).filter isTrusted

def kept (o : Out) : List (Site × Value) := (reported o).filter isTrusted

/-- The sample types for which the parser stays in step, although it may misread the
displaced fields. -/
structure KeepsStep (sampleType : BitVec 32) : Prop where
  physAddr : SampleField.physAddr.isSet sampleType = false
  identifier : SampleField.identifier.isSet sampleType = false
  stack : SampleField.regsIntr.isSet sampleType = true →
    SampleField.stackUser.isSet sampleType = false

/-- The trusted part of the report does not listen to the displaced blocks. -/
theorem kept_deaf {f : SampleField} (hf : f ∈ displaced) : Deaf (.field f) kept := by
  intro stream format args
  simp only [kept, reported]
  split
  · rw [List.filter_eq_nil_iff]
    intro e he
    obtain ⟨v, _, rfl⟩ := List.mem_map.mp he
    simp [isTrusted, hf]
  · rfl

theorem displaced_mute {f : SampleField} (hf : f ∈ displaced) :
    PermitsBlock c (fun o => kept o = []) f := by
  have hdeaf := kept_deaf hf
  cases f with
  | regsIntr => exact ⟨fun format args _ => hdeaf .fp format args, hdeaf .stdout _ _⟩
  | weight => exact hdeaf .fp
  | dataSrc => exact hdeaf .fp
  | transaction => exact hdeaf .fp
  | _ => exact absurd hf (by decide)

/-- The late fields whose lengths do not depend on what they hold. -/
def fixedFields : List SampleField := [.regsUser, .regsIntr, .weight, .dataSrc, .transaction]

def fixedBytes (c : Config) : SampleField → ℕ
  | .regsUser | .regsIntr => 8 + 8 * weight c.regMask
  | _ => 8

theorem fieldBytes_fixed (s : Sample) {f : SampleField} (hf : f ∈ fixedFields) :
    (fieldBytes c s f).length = fixedBytes c f := by
  simp only [fixedFields, List.mem_cons, List.not_mem_nil, or_false] at hf
  rcases hf with rfl | rfl | rfl | rfl | rfl <;>
    simp [fieldBytes, Sample.fieldBytes, regsBytes, fixedBytes, weight]

theorem flatMap_fixed (s : Sample) (fields : List SampleField)
    (hall : ∀ f ∈ fields, f ∈ fixedFields) :
    (fields.flatMap (fieldBytes c s)).length = (fields.map (fixedBytes c)).sum := by
  induction fields with
  | nil => rfl
  | cons f rest ih =>
    rw [List.flatMap_cons, List.length_append, fieldBytes_fixed s (hall f List.mem_cons_self),
      ih fun g hg => hall g (List.mem_cons_of_mem f hg), List.map_cons, List.sum_cons]

/-- Whatever stands there, the parser moves over the length of the field. -/
theorem fieldLength_fixed (off : ℤ) {f : SampleField} (hf : f ∈ fixedFields) :
    fieldLength c mem off f = some (fixedBytes c f : ℤ) := by
  have hweight := weight_le c.regMask
  have hregs : regsLength c = 8 * weight c.regMask := by
    unfold regsLength moved
    rw [Int.zero_add]
    exact wrap_eq 32 _ (by omega) (by omega)
  simp only [fixedFields, List.mem_cons, List.not_mem_nil, or_false] at hf
  rcases hf with rfl | rfl | rfl | rfl | rfl <;> simp [fieldLength, fixedBytes, hregs]

theorem fieldsNext_fixed (order : List SampleField)
    (hall : ∀ f ∈ requested c order, f ∈ fixedFields) (off : ℤ)
    (room : Room 64 off ((requested c order).map (fixedBytes c)).sum) :
    fieldsNext c mem order off = some (off + ((requested c order).map (fixedBytes c)).sum) := by
  induction order generalizing off with
  | nil => simp [fieldsNext, requested]
  | cons f rest ih =>
    rw [fieldsNext]
    rw [requested_cons] at hall room ⊢
    cases hset : f.isSet c.sampleType with
    | false =>
      simp only [hset, Bool.false_eq_true, if_false] at hall room ⊢
      exact ih hall off room
    | true =>
      simp only [hset, if_true, List.map_cons, List.sum_cons] at hall room ⊢
      have hmove : moved 64 off (fixedBytes c f) = off + fixedBytes c f := by
        unfold Room at room
        exact wrap_eq 64 _ (by omega) (by omega)
      rw [fieldLength_fixed off (hall f List.mem_cons_self), Option.bind_some, hmove,
        ih (fun g hg => hall g (List.mem_cons_of_mem f hg)) _ room.split.2]
      simp [Int.add_assoc]

/-- Blocks that decode their own fields, and others behind them. -/
theorem sampleBlocks_front {R : Type} {obs : Out → List R} (enc : SampleField → List Byte)
    (rep : SampleField → List R) (front back : List SampleField) (n : ℕ) (rest : List R)
    (h : ∀ f ∈ requested c front, Decodes 64 obs (sampleBlock c f) (enc f) () (rep f)) (off : ℤ)
    (hold : Holds mem off ((requested c front).flatMap enc))
    (room : Room 64 off (((requested c front).flatMap enc).length + n))
    (hback : Consumes obs (sampleBlocks c back) mem (off + ((requested c front).flatMap enc).length)
      n () rest) :
    Consumes obs (sampleBlocks c (front ++ back)) mem off
      (((requested c front).flatMap enc).length + n) ()
      ((requested c front).flatMap rep ++ rest) := by
  induction front generalizing off with
  | nil => simpa [requested] using hback
  | cons f more ih =>
    rw [List.cons_append, sampleBlocks]
    rw [requested_cons] at h hold room hback ⊢
    cases hset : f.isSet c.sampleType with
    | false =>
      simp only [hset, Bool.false_eq_true, if_false] at h hold room hback ⊢
      have hnothing : Consumes obs (optionally false (sampleBlock c f)) mem off 0 () [] :=
        Consumes.ret ()
      exact hnothing.next (ih h off hold room hback)
    | true =>
      simp only [hset, if_true, List.flatMap_cons, List.length_append, Nat.cast_add, Nat.add_assoc,
        List.append_assoc, ← Int.add_assoc] at h hold room hback ⊢
      obtain ⟨hfirst, hothers⟩ := (holds_append ..).mp hold
      have hblock := h f List.mem_cons_self mem off hfirst room.split.1
      exact hblock.bind (f := fun _ => sampleBlocks c (more ++ back))
        (ih (fun g hg => h g (List.mem_cons_of_mem f hg)) _ hothers room.split.2 hback)

def lateBlocks : List SampleField :=
  [.regsIntr, .stackUser, .weight, .dataSrc, .identifier, .transaction]

def lateLayout : List SampleField := overtaken ++ [.regsIntr, .physAddr]

theorem displaced_fixed {f : SampleField} (hf : f ∈ displaced) : f ∈ fixedFields := by
  cases f with
  | regsIntr | weight | dataSrc | transaction => decide
  | _ => exact absurd hf (by decide)

/-- A run of displaced blocks moves over their fields, in silence. -/
theorem displacedBlocks_consume (order : List SampleField) (hphys : .physAddr ∉ order)
    (hall : ∀ f ∈ requested c order, f ∈ displaced) (off : ℤ)
    (room : Room 64 off ((requested c order).map (fixedBytes c)).sum) :
    Consumes kept (sampleBlocks c order) mem off ((requested c order).map (fixedBytes c)).sum ()
      [] := by
  have hoff : wrap 64 off = off := by
    unfold Room at room
    exact wrap_eq 64 _ (by omega) (by omega)
  constructor
  · rw [exit_sampleBlocks order hphys mem off hoff,
      fieldsNext_fixed order (fun f hf => displaced_fixed (hall f hf)) off room, Option.map_some]
  · exact seen_nothing (always_sampleBlocks order fun f hf => displaced_mute (hall f hf)) mem off

/-- With the interrupt registers requested, only displaced fields follow the common ones. -/
theorem late_displaced (h : KeepsStep c.sampleType)
    (hintr : SampleField.regsIntr.isSet c.sampleType = true) :
    (∀ f ∈ requested c lateBlocks, f ∈ displaced) ∧
      (requested c lateBlocks).Perm (requested c lateLayout) := by
  have hstack := h.stack hintr
  have hblocks : requested c lateBlocks = requested c displaced := by
    unfold requested lateBlocks displaced
    simp [List.filter_cons, hstack, h.identifier]
  have hlayout : requested c lateLayout =
    requested c [.weight, .dataSrc, .transaction, .regsIntr] := by
    unfold requested lateLayout overtaken
    simp [List.filter_cons, hstack, h.physAddr]
  constructor
  · intro f hf
    rw [hblocks] at hf
    exact ((mem_requested c displaced f).mp hf).1
  · rw [hblocks, hlayout]
    exact List.Perm.filter _ (by decide)

/-- Nothing that is reported for a displaced field is trusted. -/
theorem late_report (s : Sample) (fields : List SampleField) (hall : ∀ f ∈ fields, f ∈ displaced) :
    (fields.flatMap (fieldReport c s)).filter isTrusted = [] := by
  rw [List.filter_eq_nil_iff]
  intro e he
  obtain ⟨f, hf, hmem⟩ := List.mem_flatMap.mp he
  obtain ⟨v, _, rfl⟩ := List.mem_map.mp hmem
  simp [isTrusted, hall f hf]

/-- With the interrupt registers requested, a sample is read up to its end, and its common
fields are reported as they were encoded. -/
theorem sampleRecord_trusted (hq : c.quiet = false) (hraw : PlainRaw c) (s : Sample)
    (h : KeepsStep c.sampleType) (hintr : SampleField.regsIntr.isSet c.sampleType = true)
    (hlen : (s.bytes c.sampleType c.readFormat c.regMask).length < recordLimit) :
    Decodes 64 kept (sampleRecord c) (s.bytes c.sampleType c.readFormat c.regMask) ()
      ((sampleReport c s).filter isTrusted) := by
  obtain ⟨hall, hperm⟩ := late_displaced h hintr
  have hlayout : requested c SampleField.layout =
      requested c commonFields ++ requested c lateLayout := by
    rw [← requested_append, SampleField.layout, requested_cons, if_neg (by simp [h.identifier])]
    rfl
  have hbytes : s.bytes c.sampleType c.readFormat c.regMask =
      (requested c commonFields).flatMap (fieldBytes c s) ++
        (requested c lateLayout).flatMap (fieldBytes c s) := by
    rw [bytes_layout, hlayout, List.flatMap_append]
  have hlate : ((requested c lateLayout).flatMap (fieldBytes c s)).length =
      ((requested c lateBlocks).map (fixedBytes c)).sum := by
    rw [← flatMap_fixed s _ fun f hf => displaced_fixed (hall f hf)]
    exact ((hperm.flatMap_right (fieldBytes c s)).length_eq).symm
  have hreport : (sampleReport c s).filter isTrusted =
      ((requested c commonFields).flatMap fun f => (fieldReport c s f).filter isTrusted) ++ [] := by
    have hwhole : sampleReport c s =
      (requested c SampleField.layout).flatMap (fieldReport c s) := rfl
    rw [hwhole, hlayout, List.flatMap_append, List.filter_append,
      late_report s (requested c lateLayout) fun f hf => hall f (hperm.mem_iff.mpr hf),
      List.filter_flatMap]
  intro mem off hold room
  rw [hbytes] at hold room hlen ⊢
  obtain ⟨hfront, _⟩ := (holds_append ..).mp hold
  rw [List.length_append, hlate] at room hlen ⊢
  rw [hreport]
  refine sampleBlocks_front (fieldBytes c s) _ commonFields lateBlocks _ []
    (fun f hf => ?_) off hfront
    room (displacedBlocks_consume lateBlocks (by decide) hall _ room.split.2)
  have hshort := length_le_of_mem (requested c commonFields) (fieldBytes c s) f hf
  have hplace := ((mem_requested c commonFields f).mp hf).1
  have hphys : f ≠ .physAddr := by
    rintro rfl
    exact absurd hplace (by decide)
  have hblock := sampleBlock_decodes hq hraw s f hphys (by omega) fun hstack => by
    rw [hstack] at hplace
    exact absurd hplace (by decide)
  exact hblock.filter isTrusted

/-- What must hold of the records for the log to be trusted for the other fields. -/
structure Trusted (c : Config) (r : Record c) : Prop where
  loud : c.quiet = false
  plain : PlainRaw c
  step : KeepsStep c.sampleType
  type : r.payload.type ∈ streamTypes
  bare : r.trailer = []
  stack : ∀ s, r.payload = .sample s → SampleField.stackUser.isSet c.sampleType = true →
    RegisterDecoding.DumpInside s.stack s.dynSize

def trustedReport (r : Record c) : List (Site × Value) := (logReport r).filter isTrusted

theorem keepsStep_inOrder (h : KeepsStep c.sampleType)
    (hintr : SampleField.regsIntr.isSet c.sampleType = false) : InOrder c.sampleType :=
  ⟨h.physAddr, fun hident => by simp [h.identifier] at hident, fun hset => by simp [hintr] at hset⟩

def untyped (c : Config) : Config := { c with sampleType := 0 }

theorem other_bytes {p : Payload} (hp : ∀ s, p ≠ .sample s) :
    p.bytes (untyped c).sampleType (untyped c).readFormat (untyped c).regMask =
      p.bytes c.sampleType c.readFormat c.regMask := by
  cases p with
  | sample s => exact absurd rfl (hp s)
  | _ => rfl

def other (r : Record c) (hp : ∀ s, r.payload ≠ .sample s) : Record (untyped c) where
  misc := r.misc
  payload := r.payload
  trailer := r.trailer
  fits := by
    rw [other_bytes hp]
    exact r.fits

theorem other_raw (r : Record c) (hp : ∀ s, r.payload ≠ .sample s) : (other r hp).raw = r.raw := by
  simp only [Record.raw, other, other_bytes hp]

/-- Records other than samples are reported whole. -/
theorem details_other (r : Record c) (h : Trusted c r) (hp : ∀ s, r.payload ≠ .sample s) (size : ℤ)
    (start : ℤ) (hold : Holds mem start r.bytes) (room : Room 64 start r.size) :
    Consumes reported (details c size start r.payload.type.code) mem (start + 8)
      r.raw.body.length () (payloadReport c r.payload) := by
  have hraw := other_raw r hp
  have hdecodable : Decodable (untyped c) (other r hp) :=
    ⟨h.loud, h.plain, show InOrder 0 by decide, h.type, h.bare, fun s hs => absurd hs (hp s)⟩
  have hdetails : details (untyped c) size start r.payload.type.code =
      details c size start r.payload.type.code := by
    unfold details
    rw [RecordType.ofCode_code]
    cases hpayload : r.payload with
    | sample s => exact absurd hpayload (hp s)
    | _ => rfl
  have hreport : payloadReport (untyped c) r.payload = payloadReport c r.payload := by
    cases hpayload : r.payload with
    | sample s => exact absurd hpayload (hp s)
    | _ => rfl
  have hrun := details_consume (other r hp) hdecodable size mem start
    (by rw [Record.bytes, hraw]; exact hold) (by rw [Record.size, hraw]; exact room)
  rw [hraw] at hrun
  rw [← hdetails, ← hreport]
  exact hrun

/-- The records that keep the parser in step are followed by who reads the trusted part
of the report. -/
theorem follows_kept (r : Record c) (h : Trusted c r) :
    Follows c kept (fun r => (recordReport r).filter isTrusted) r := by
  intro size mem start hold room
  have htype : word32 mem start = r.payload.type.code := (header_words r.raw mem start hold).1
  have hdeaf : Deaf .header kept := fun _ _ _ => rfl
  have hfilter : Consumes reported (details c size start r.payload.type.code) mem (start + 8)
      r.raw.body.length () (payloadReport c r.payload) →
      Consumes kept (details c size start r.payload.type.code) mem (start + 8)
        r.raw.body.length () ((recordReport r).filter isTrusted) := fun hrun =>
    ⟨hrun.exit, (seen_filter ..).trans (congrArg _ hrun.shows)⟩
  by_cases hsample : ∃ s, r.payload = .sample s
  · cases hintr : SampleField.regsIntr.isSet c.sampleType with
    | false =>
      apply iteration_of_details hdeaf size mem start r.raw.body.length _ room
      rw [htype]
      exact hfilter (details_consume r ⟨h.loud, h.plain, keepsStep_inOrder h.step hintr, h.type,
        h.bare, h.stack⟩ size mem start hold room)
    | true =>
      obtain ⟨s, hp⟩ := hsample
      have hreport : recordReport r = sampleReport c s := by rw [recordReport, hp, payloadReport]
      have hfits := r.raw.fits
      simp only [hreport]
      refine SampleOrder.iteration_of_sample hdeaf hp h.bare
        (sampleRecord_trusted h.loud h.plain s h.step hintr ?_) size mem start hold room
      have hbody : r.raw.body = s.bytes c.sampleType c.readFormat c.regMask := by
        simp [Record.raw, hp, h.bare, Payload.bytes]
      rw [← hbody]
      omega
  · apply iteration_of_details hdeaf size mem start r.raw.body.length _ room
    rw [htype]
    exact hfilter (details_other r h (fun s hp => hsample ⟨s, hp⟩) size start hold room)

/-- Nor is anything of it lost on the way to the log, but the name of no ABI. -/
theorem follows_trusted (r : Record c) (h : Trusted c r) : Follows c trusted trustedReport r := by
  intro size mem start hold room
  have hrun := follows_kept r h size mem start hold room
  refine ⟨hrun.exit, ?_⟩
  have hlog : seen trusted (iteration c size mem start).log =
      ((seen reported (iteration c size mem start).log).filter isLogged).filter isTrusted := by
    rw [← seen_filter, ← seen_agree (iteration_asReported h.plain size mem start), ← seen_filter]
    rfl
  have hkept : (seen reported (iteration c size mem start).log).filter isTrusted =
      (recordReport r).filter isTrusted := (seen_filter ..).symm.trans hrun.shows
  rw [hlog, List.filter_comm, hkept, List.filter_comm]
  rfl

def trustedReader (c : Config) : Reader c (Site × Value) where
  obs := trusted
  deaf := by
    intro stream format args
    cases stream <;> rfl
  rep := trustedReport
  reads := Trusted c
  follows := follows_trusted

/-- A call on a stream of records, for sample types that the parser may misread but keeps
step with, comes to every record where it begins, and prints the values of all fields to
the log but those of the displaced ones. -/
theorem stream_trusted (pageSize mmapSize prevHead : ℤ) (m : Mapping) (c : Config)
    (eventsRead : Option ℕ) (data : Memory) (records : List (Record c))
    (hrecords : ∀ r ∈ records, Trusted c r) (hmmap : mmapSize ≠ 0) (hprev : 0 ≤ prevHead)
    (hbound : m.dataHead < 2 ^ 63)
    (hhead : (m.dataHead : ℤ) - prevHead = (streamBytes records).length)
    (hfit : ((streamBytes records).length : ℤ) ≤ bufferSize mmapSize pageSize)
    (hring : Holds (ringView (bufferSize mmapSize pageSize) prevHead m.ring) 0
      (streamBytes records)) :
    ∃ r : Finished,
      (∀ fuel, records.length ≤ fuel →
        perfMmapRead pageSize (some m) mmapSize prevHead c eventsRead true data fuel =
          some (.finished r)) ∧
      shown trusted r.loop.trace =
        records.mapIdx fun i rec => ((startOf records i : ℤ), trustedReport rec) :=
  perfMmapRead_follows pageSize mmapSize prevHead m c eventsRead data records
    (fun r hr => follows_trusted r (hrecords r hr)) hmmap hprev hbound hhead hfit hring

def misreadRecord : Record testEventsConfig :=
  ⟨0, .sample (markedSample .dataSrc), [], by decide +kernel⟩

def misreadRing : Mapping where
  dataHead := misreadRecord.size
  dataTail := 0
  ring := overlay misreadRecord.bytes fun _ => 0

theorem testEvents_keepsStep : KeepsStep testEventsConfig.sampleType := ⟨rfl, rfl, fun _ => rfl⟩

theorem misreadRecord_trusted : Trusted testEventsConfig misreadRecord :=
  ⟨rfl, plainRaw_of_none rfl, testEvents_keepsStep, by decide, rfl, fun _ _ hset =>
    absurd hset (by decide)⟩

/-- Its other fields are reported right all the same. -/
theorem stream_trusted_misread : ∃ r : Finished,
    (∀ fuel, 1 ≤ fuel → perfMmapRead 4096 (some misreadRing) 1 0 testEventsConfig none true
      (fun _ => 0) fuel = some (.finished r)) ∧
    shown trusted r.loop.trace = [(0, trustedReport misreadRecord)] := by
  have hall : ∀ r ∈ [misreadRecord], Trusted testEventsConfig r := fun r hr => by
    rw [List.mem_singleton.mp hr]
    exact misreadRecord_trusted
  exact stream_trusted 4096 1 0 misreadRing testEventsConfig none (fun _ => 0) [misreadRecord] hall
    (by decide) (by decide) (by decide +kernel) (by decide +kernel) (by decide +kernel)
    (by decide +kernel)

end PapiSample.TrustedReports
