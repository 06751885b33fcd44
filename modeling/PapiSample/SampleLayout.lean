import PapiSample.MarkedSamples
import PapiSample.RecordAdvance

/-!
For which sample types the order of the blocks matters. The identifier is stored
first and read last but one, the interrupt registers are stored last and read in
front of the user stack, and the physical address is never read.
-/
namespace PapiSample.SampleLayout

open Bytes Cursor Cursor.Prog PerfEvent ParseRecord SampleFields RecordLoop Report FieldDecoding
  RegisterDecoding SampleDecoding RawDumps RecordDecoding StackDump SampleOrder MarkedSamples
  Advance RecordAdvance

variable {c : Config}

def commonFields : List SampleField :=
  [.ip, .tid, .time, .addr, .id, .streamId, .cpu, .period, .read, .callchain, .raw, .branchStack,
    .regsUser]

/-- The fields that the code reads behind REGS_INTR. -/
def overtaken : List SampleField := [.stackUser, .weight, .dataSrc, .transaction]

theorem requested_append (c : Config) (a b : List SampleField) :
    requested c (a ++ b) = requested c a ++ requested c b := List.filter_append ..

/-- The first fields of the two orders that differ, if the first of them may move. -/
def Differs (c : Config) : Prop :=
  ∃ pre post post' : List SampleField, ∃ k g : SampleField,
    requested c SampleField.layout = pre ++ k :: post ∧
      requested c blockOrder = pre ++ g :: post' ∧ k ≠ g ∧ k ∈ movable

/-- The identifier is stored first but read last. -/
theorem differs_identifier (hphys : SampleField.physAddr.isSet c.sampleType = false)
    (hi : SampleField.identifier.isSet c.sampleType = true) (f : SampleField)
    (hset : f.isSet c.sampleType = true) (hne : f ≠ .identifier) (hne' : f ≠ .transaction) :
    Differs c := by
  have hfront : requested c SampleField.layout =
      [] ++ .identifier :: requested c (commonFields ++ overtaken ++ [.regsIntr, .physAddr]) := by
    rw [SampleField.layout, requested_cons, if_pos hi]
    rfl
  have hblocks : requested c blockOrder =
      requested c (commonFields ++ [.regsIntr, .stackUser, .weight, .dataSrc]) ++
        requested c [.identifier, .transaction] := by
    rw [← requested_append]
    rfl
  have hmem : f ∈ requested c (commonFields ++ [.regsIntr, .stackUser, .weight, .dataSrc]) := by
    rw [mem_requested]
    refine ⟨?_, hset⟩
    cases f with
    | identifier => contradiction
    | transaction => contradiction
    | physAddr => rw [hphys] at hset; contradiction
    | _ => decide
  cases hhead : requested c (commonFields ++ [.regsIntr, .stackUser, .weight, .dataSrc]) with
  | nil => rw [hhead] at hmem; contradiction
  | cons g rest =>
    have hg : g ∈ requested c (commonFields ++ [.regsIntr, .stackUser, .weight, .dataSrc]) := by
      rw [hhead]
      exact List.mem_cons_self ..
    rw [hhead] at hblocks
    refine ⟨[], _, _, .identifier, g, hfront, hblocks, ?_, by decide⟩
    rintro rfl
    have hplace := ((mem_requested c _ _).mp hg).1
    revert hplace
    decide

/-- The interrupt registers are stored behind what they overtake. -/
theorem differs_intr (hi : SampleField.identifier.isSet c.sampleType = false)
    (hr : SampleField.regsIntr.isSet c.sampleType = true) (f : SampleField) (hf : f ∈ overtaken)
    (hset : f.isSet c.sampleType = true) : Differs c := by
  have hlayout : requested c SampleField.layout =
      requested c commonFields ++
        (requested c overtaken ++ requested c [.regsIntr, .physAddr]) := by
    rw [← requested_append, ← requested_append, SampleField.layout, requested_cons,
      if_neg (by simp [hi])]
    rfl
  have hblocks : requested c blockOrder = requested c commonFields ++
      .regsIntr :: requested c [.stackUser, .weight, .dataSrc, .identifier, .transaction] := by
    have hsplit : blockOrder = commonFields ++
        (.regsIntr :: [.stackUser, .weight, .dataSrc, .identifier, .transaction]) := rfl
    rw [hsplit, requested_append, requested_cons, if_pos hr]
  have hmem : f ∈ requested c overtaken := (mem_requested c overtaken f).mpr ⟨hf, hset⟩
  cases hhead : requested c overtaken with
  | nil => rw [hhead] at hmem; contradiction
  | cons k rest =>
    have hk : k ∈ overtaken := by
      have hin : k ∈ requested c overtaken := by simp [hhead]
      exact ((mem_requested c overtaken k).mp hin).1
    rw [hhead, List.cons_append] at hlayout
    refine ⟨_, _, _, k, .regsIntr, hlayout, hblocks, ?_, ?_⟩
    · rintro rfl
      revert hk
      decide
    · simp only [overtaken, movable, List.mem_cons, List.not_mem_nil, or_false] at hk ⊢
      rcases hk with rfl | rfl | rfl | rfl <;> decide

theorem differs_of_not_inOrder (hphys : SampleField.physAddr.isSet c.sampleType = false)
    (h : ¬ InOrder c.sampleType) : Differs c := by
  by_cases hident : SampleField.identifier.isSet c.sampleType = true ∧
      ∃ f : SampleField, f.isSet c.sampleType = true ∧ f ≠ .identifier ∧ f ≠ .transaction
  · obtain ⟨hi, f, hset, hne, hne'⟩ := hident
    exact differs_identifier hphys hi f hset hne hne'
  · have hid : SampleField.identifier.isSet c.sampleType = true → ∀ f ∈ SampleField.layout,
        f.isSet c.sampleType = true → f = .identifier ∨ f = .transaction := by
      intro hi f _ hset
      by_contra hno
      rw [not_or] at hno
      exact hident ⟨hi, f, hset, hno⟩
    by_cases hintr : SampleField.regsIntr.isSet c.sampleType = true ∧
        ∃ f ∈ overtaken, f.isSet c.sampleType = true
    · obtain ⟨hr, f, hf, hset⟩ := hintr
      refine differs_intr ?_ hr f hf hset
      by_contra hi
      rcases hid (by simpa using hi) .regsIntr (by decide) hr with h' | h' <;> contradiction
    · refine absurd ⟨hphys, hid, fun hr f hf => ?_⟩ h
      by_contra hset
      exact hintr ⟨hr, f, hf, by simpa using hset⟩

/-- The code has a block for every field but one. -/
theorem requested_perm (hphys : SampleField.physAddr.isSet c.sampleType = true) :
    (requested c SampleField.layout).Perm (.physAddr :: requested c blockOrder) := by
  have hperm : SampleField.layout.Perm (.physAddr :: blockOrder) := by decide
  have hfilter := hperm.filter (SampleField.isSet · c.sampleType)
  have hcons := requested_cons c .physAddr blockOrder
  rw [if_pos hphys] at hcons
  exact hcons ▸ hfilter

/-- With PHYS_ADDR requested, the cursor stops short of the end of the record. -/
theorem physAddr_left (hq : c.quiet = false)
    (hphys : SampleField.physAddr.isSet c.sampleType = true) :
    Fits c zeroSample ∧ StackInside c zeroSample ∧ ¬ LateDecoded c zeroSample := by
  obtain ⟨m, hm, hbytes⟩ := zeros_flatMap c (requested c SampleField.layout)
  obtain ⟨n, hn, hread⟩ := zeros_flatMap c (requested c blockOrder)
  have hlen := requested_length c SampleField.layout
  have hlen' := requested_length c blockOrder
  have hshorter : m = 8 + n := by
    have hperm := ((requested_perm hphys).flatMap_right (fieldBytes c zeroSample)).length_eq
    rw [List.flatMap_cons, hbytes, hread] at hperm
    simpa [fieldBytes, Sample.fieldBytes] using hperm
  rw [← bytes_layout] at hbytes
  have hfits : Fits c zeroSample := by
    unfold Fits
    rw [hbytes, List.length_replicate]
    simp only [SampleField.layout, List.length_cons, List.length_nil, fieldLimit,
      recordLimit] at *
    have hbound := Nat.mul_le_mul_right 601 hlen
    omega
  refine ⟨hfits, fun _ => by decide, fun hlate => ?_⟩
  have hshort : ((requested c blockOrder).flatMap
      fun f => fieldBytes c zeroSample f).length < 2 ^ 32 := by
    rw [hread, List.length_replicate]
    simp only [blockOrder, List.length_cons, List.length_nil, fieldLimit] at *
    have hbound := Nat.mul_le_mul_right 601 hlen'
    omega
  have hok : ∀ f, (fieldBytes c zeroSample f).length < recordLimit ∧
      DumpInside zeroSample.stack zeroSample.dynSize := by
    intro f
    obtain ⟨k, hk, hzero⟩ := zero_bytes c f
    rw [hzero, List.length_replicate]
    refine ⟨?_, by decide⟩
    unfold fieldLimit recordLimit at *
    omega
  obtain ⟨hends, _⟩ := lateDecoded_reading hq zeroSample hfits hlate (fun _ => zeroSample) hok 0
    (List.replicate 8 0) (by
      rw [hbytes, hread, replicate_join, replicate_join, hshorter, Nat.add_zero,
        Nat.add_comm]) hshort
  rw [hread, hbytes, List.length_replicate, List.length_replicate] at hends
  omega

/-- A user stack whose used size outgrows the index of the stack loop. -/
theorem stack_stuck (s : Sample) (mem : Memory) (off : ℤ) (hlen : s.stack.length < 2 ^ 63)
    (hends : ¬ s.dynSize.toInt ≤ intMax - 3) (hold : Holds mem off (fieldBytes c s .stackUser))
    (room : Room 64 off (fieldBytes c s .stackUser).length) :
    fieldLength c mem off .stackUser = none := by
  have hexit := (not_congr (stackBlock_ends (c := c) hlen hold room)).mpr hends
  rw [exit_sampleStackUser, Option.isSome_map] at hexit
  simpa using hexit

def sampleOf (c : Config) (s : Sample) (hfits : Fits c s) : Record c where
  misc := 0
  payload := .sample s
  trailer := []
  fits := by
    rw [List.append_nil]
    exact hfits

theorem sampleOf_room (s : Sample) (hfits : Fits c s) : Room 64 0 (sampleOf c s hfits).size := by
  have hfull : 8 + (sampleOf c s hfits).raw.body.length < recordLimit :=
    (sampleOf c s hfits).raw.fits
  simp only [Room, Record.size, RawRecord.size, recordLimit] at hfull ⊢
  omega

def beforeStack : List SampleField := commonFields ++ [.regsIntr]

/-- The blocks in front of the user stack end where its field begins. -/
theorem fieldsNext_beforeStack (hq : c.quiet = false) (s : Sample) (mem : Memory) (off : ℤ)
    (hoff : wrap 64 off = off)
    (hlen : ((requested c beforeStack).flatMap (fieldBytes c s)).length < recordLimit)
    (hold : Holds mem off ((requested c beforeStack).flatMap (fieldBytes c s)))
    (room : Room 64 off ((requested c beforeStack).flatMap (fieldBytes c s)).length) :
    fieldsNext c mem beforeStack off =
      some (off + ((requested c beforeStack).flatMap (fieldBytes c s)).length) := by
  have hdecode := sampleBlocks_decode (c := c) (fieldBytes c s)
    (fun f => if f = .identifier then fieldReport c s f else []) beforeStack fun f hf => by
      have hshort := length_le_of_mem _ (fieldBytes c s) f hf
      have hplace := ((mem_requested c beforeStack f).mp hf).1
      refine sampleBlock_decodes_field hq s f .identifier ?_ (by decide) (by omega) ?_
      · rintro rfl
        revert hplace
        decide
      · rintro rfl
        exact absurd hplace (by decide)
  have hexit := (hdecode mem off hold room).exit
  rw [exit_sampleBlocks beforeStack (by decide) mem off hoff] at hexit
  cases hnext : fieldsNext c mem beforeStack off with
  | none => rw [hnext] at hexit; contradiction
  | some p =>
    rw [hnext] at hexit
    simp only [Option.map_some, Option.some.injEq, Prod.mk.injEq, true_and] at hexit
    rw [hexit]

/-- A sample that is decoded has a stack loop that ends. -/
theorem stackLoop_of_lateDecoded (hq : c.quiet = false) (s : Sample)
    (horder : InOrder c.sampleType) (hfits : Fits c s) (hlate : LateDecoded c s)
    (hset : SampleField.stackUser.isSet c.sampleType = true) : s.dynSize.toInt ≤ intMax - 3 := by
  by_contra hends
  have hsplit : blockOrder =
      beforeStack ++ (.stackUser :: [.weight, .dataSrc, .identifier, .transaction]) := rfl
  have hlayout : s.bytes c.sampleType c.readFormat c.regMask =
      (requested c beforeStack).flatMap (fieldBytes c s) ++ (fieldBytes c s .stackUser ++
        (requested c [.weight, .dataSrc, .identifier, .transaction]).flatMap (fieldBytes c s)) := by
    rw [bytes_layout, ← requested_inOrder horder, hsplit, requested_append, requested_cons,
      if_pos hset, List.flatMap_append, List.flatMap_cons]
  let r := sampleOf c s hfits
  let mem := overlay r.bytes fun _ => 0
  have hold : Holds mem 0 r.bytes := holds_overlay _ _
  have hbody : Holds mem (0 + 8) r.raw.body := (header_words r.raw mem 0 hold).2.2.2
  have hsame : r.raw.body = s.bytes c.sampleType c.readFormat c.regMask := List.append_nil _
  have hlen : 8 + (s.bytes c.sampleType c.readFormat c.regMask).length < recordLimit := hfits
  rw [hsame, hlayout] at hbody
  rw [hlayout, List.length_append, List.length_append] at hlen
  obtain ⟨hfront, hrest⟩ := (holds_append ..).mp hbody
  obtain ⟨hstack, _⟩ := (holds_append ..).mp hrest
  have hcommon : fieldsNext c mem beforeStack (0 + 8) =
      some ((0 : ℤ) + 8 + ((requested c beforeStack).flatMap (fieldBytes c s)).length) := by
    apply fieldsNext_beforeStack hq s mem (0 + 8) (by decide) (by omega) hfront
    simp only [Room, recordLimit] at hlen ⊢
    omega
  have hstuck : fieldLength c mem
      (0 + 8 + ((requested c beforeStack).flatMap (fieldBytes c s)).length) .stackUser = none := by
    refine stack_stuck s mem _ ?_ hends hstack ?_
    · simp only [fieldBytes, Sample.fieldBytes, List.length_append, recordLimit] at hlen
      omega
    · simp only [Room, recordLimit] at hlen ⊢
      omega
  have hnext : recordNext c 0 mem 0 = none := by
    have htype : RecordType.ofCode (word32 mem 0) = some .sample := by
      rw [(header_words r.raw mem 0 hold).1]
      rfl
    have hblocks : fieldsNext c mem blockOrder (0 + 8) = none := by
      rw [hsplit, fieldsNext_append, hcommon, Option.bind_some, fieldsNext_cons _ _ _ _ hset,
        hstuck, Option.bind_none]
    unfold recordNext
    rw [htype]
    exact hblocks
  have hexit := (hlate r rfl rfl 0 mem 0 hold (sampleOf_room s hfits)).1
  rw [exit_iteration, hnext] at hexit
  simp at hexit

/-- And what it dumps of the stack lies in the copy. -/
theorem stackInside_of_lateDecoded (hq : c.quiet = false) (s : Sample)
    (horder : InOrder c.sampleType) (hfits : Fits c s) (hlate : LateDecoded c s) :
    StackInside c s := by
  intro hset
  let r := sampleOf c s hfits
  have hold : Holds (overlay r.bytes fun _ => 0) 0 r.bytes := holds_overlay _ _
  have hroom := sampleOf_room s hfits
  have hloads := iteration_of_sample (fun _ _ _ => rfl) (r := r) rfl rfl
    (sampleRecord_loads hq s horder (stackLoop_of_lateDecoded hq s horder hfits hlate) hfits)
    0 _ 0 hold hroom
  obtain ⟨_, _, hinside⟩ := hlate r rfl rfl 0 _ 0 hold hroom
  rw [hloads.shows, if_pos hset] at hinside
  exact (dumpLoads_inside_iff s).mp hinside

/-- The late fields of every sample are reported as they were encoded, and the
cursor stops behind the record, exactly for the sample types that request no
PHYS_ADDR, the identifier with nothing but the transaction, and the interrupt
registers with none of the fields they overtake. Of a user stack no more may be in
use than the dump, which looks four times as far, finds in the copy. -/
theorem lateDecoded_iff (c : Config) (hq : c.quiet = false) :
    (InOrder c.sampleType → ∀ s, Fits c s → (LateDecoded c s ↔ StackInside c s)) ∧
      (¬ InOrder c.sampleType → ∃ s, Fits c s ∧ StackInside c s ∧ ¬ LateDecoded c s) := by
  constructor
  · intro horder s hfits
    exact ⟨stackInside_of_lateDecoded hq s horder hfits,
      fun hdump => lateDecoded_of_inOrder hq s horder hdump hfits⟩
  · intro hno
    cases hphys : SampleField.physAddr.isSet c.sampleType with
    | true => exact ⟨zeroSample, physAddr_left hq hphys⟩
    | false =>
      obtain ⟨pre, post, post', k, g, hlayout, hblocks, hne, hk⟩ :=
        differs_of_not_inOrder hphys hno
      exact ⟨markedSample k, misread hq pre post post' k g hlayout hblocks hne hk⟩

/-- The parser as test_events.c sets it up: every field up to the raw data, the
data source and the interrupt registers without the segment registers. -/
def testEventsConfig : Config where
  arch := .x86_64
  sampleType := 0x487ff
  readFormat := 0xf
  regMask := 0xff0fff
  validate := none
  quiet := false
  rawType := RAW_NONE
  heap := fun _ => 0

/-- With that setup, a sample of zeros with a data source of one is reported with
an ABI of one. -/
theorem testEvents_misread :
    Fits testEventsConfig (markedSample .dataSrc) ∧
      ¬ LateDecoded testEventsConfig (markedSample .dataSrc) := by
  have hlayout : requested testEventsConfig SampleField.layout =
      [.ip, .tid, .time, .addr, .id, .streamId, .cpu, .period, .read, .callchain, .raw] ++
        .dataSrc :: [.regsIntr] := by decide
  have hblocks : requested testEventsConfig blockOrder =
      [.ip, .tid, .time, .addr, .id, .streamId, .cpu, .period, .read, .callchain, .raw] ++
        .regsIntr :: [.dataSrc] := by decide
  obtain ⟨hfits, _, hwrong⟩ := misread (c := testEventsConfig) rfl _ _ _ .dataSrc .regsIntr
    hlayout hblocks (by decide) (by decide)
  exact ⟨hfits, hwrong⟩

theorem lateDecoded_iff_testEvents :
    testEventsConfig.quiet = false ∧
      ∃ s, Fits testEventsConfig s ∧ StackInside testEventsConfig s ∧
        ¬ LateDecoded testEventsConfig s :=
  ⟨rfl, (lateDecoded_iff testEventsConfig rfl).2 (by decide)⟩

end PapiSample.SampleLayout
