import PapiSample.BlockOutputs
import PapiSample.RecordDecoding
import PapiSample.StackDump

/-!
The fields from the register blocks on. They are reported as they were encoded
for the sample types whose blocks come in the documented order and for no
others: where two blocks change places, or where a block is missing, some
encoded sample is misread. The words that are dumped of a copied stack have to lie
in the copy.
-/
namespace PapiSample.SampleOrder

open Bytes Cursor Cursor.Prog PerfEvent ParseRecord SampleFields RecordLoop Report FieldDecoding
  RegisterDecoding SampleDecoding RawDumps RecordDecoding Emissions BlockOutputs StackDump

variable {c : Config}

def lateFields : List SampleField :=
  [.identifier, .regsUser, .stackUser, .weight, .dataSrc, .transaction, .regsIntr, .physAddr]

def fieldReported (g : SampleField) (o : Out) : List (Site × Value) :=
  (reported o).filter fun e => e.1 = .field g

/-- Every sample record that stores `s` is reported right in the late fields,
the iteration stops behind it, and it loads nothing from behind the copied stack. -/
def LateDecoded (c : Config) (s : Sample) : Prop :=
  ∀ r : Record c, r.payload = .sample s → r.trailer = [] →
    ∀ (size : ℤ) (mem : Memory) (start : ℤ), Holds mem start r.bytes → Room 64 start r.size →
      (iteration c size mem start).exit = some ((), start + r.size) ∧
        (∀ g ∈ lateFields, seen (fieldReported g) (iteration c size mem start).log =
          if g.isSet c.sampleType then fieldReport c s g else []) ∧
        ∀ l ∈ seen copyLoads (iteration c size mem start).log, l.Inside

theorem fieldReported_deaf (g : SampleField) (site : Site) (h : site ≠ .field g) :
    Deaf site (fieldReported g) := by
  intro stream format args
  simp only [fieldReported, reported]
  split
  · rw [List.filter_eq_nil_iff]
    intro e he
    obtain ⟨v, _, rfl⟩ := List.mem_map.mp he
    simpa using h
  · rfl

theorem fieldReport_filter (s : Sample) (f g : SampleField) :
    (fieldReport c s f).filter (fun e => e.1 = .field g) =
      if f = g then fieldReport c s f else [] := by
  unfold fieldReport
  by_cases h : f = g
  · subst h
    rw [if_pos rfl, List.filter_eq_self]
    intro e he
    obtain ⟨v, _, rfl⟩ := List.mem_map.mp he
    simp
  · rw [if_neg h, List.filter_eq_nil_iff]
    intro e he
    obtain ⟨v, _, rfl⟩ := List.mem_map.mp he
    simpa using h

/-- A block reports its own field and nothing for another one. -/
theorem sampleBlock_decodes_field (hq : c.quiet = false) (s : Sample) (f g : SampleField)
    (hf : f ≠ .physAddr) (hg : g ≠ .raw) (hlen : (fieldBytes c s f).length < recordLimit)
    (hdump : f = .stackUser → DumpInside s.stack s.dynSize) :
    Decodes 64 (fieldReported g) (sampleBlock c f) (fieldBytes c s f) ()
      (if f = g then fieldReport c s f else []) := by
  by_cases hraw : f = .raw
  · subst hraw
    have hdeaf := fieldReported_deaf g (.field .raw) (by simpa using hg.symm)
    have hshort : s.raw.length < recordLimit := by
      simp only [fieldBytes, Sample.fieldBytes, List.length_append] at hlen
      omega
    rw [if_neg (Ne.symm hg)]
    exact sampleRaw_skips hdeaf s.raw hshort
  · have hplain : sampleBlock c f = sampleBlock { c with rawType := RAW_NONE } f := by
      cases f with
      | raw => contradiction
      | _ => rfl
    have hblock := sampleBlock_decodes (c := { c with rawType := RAW_NONE }) hq
      (plainRaw_of_none rfl) s f hf hlen hdump
    rw [← fieldReport_filter s f g, hplain]
    exact hblock.filter fun e => e.1 = .field g

theorem flatMap_single {R : Type} (items : List SampleField) (g : SampleField)
    (rep : SampleField → List R) (hnodup : items.Nodup) :
    (items.flatMap fun f => if f = g then rep f else []) = if g ∈ items then rep g else [] := by
  induction items with
  | nil => rfl
  | cons f rest ih =>
    obtain ⟨hf, hrest⟩ := List.nodup_cons.mp hnodup
    rw [List.flatMap_cons, ih hrest]
    by_cases h : f = g
    · subst h
      rw [if_pos rfl, if_neg hf, if_pos (List.mem_cons_self ..), List.append_nil]
    · have hmem : g ∈ f :: rest ↔ g ∈ rest := by simp [Ne.symm h]
      rw [if_neg h, List.nil_append]
      simp only [hmem]

def Fits (c : Config) (s : Sample) : Prop :=
  8 + (s.bytes c.sampleType c.readFormat c.regMask).length < recordLimit

def StackInside (c : Config) (s : Sample) : Prop :=
  SampleField.stackUser.isSet c.sampleType = true → DumpInside s.stack s.dynSize

/-- A stack that is stored in the record has fewer words than an index can count. -/
theorem StackInside.ends {s : Sample} (h : StackInside c s) (hfits : Fits c s)
    (hset : SampleField.stackUser.isSet c.sampleType = true) : s.dynSize.toInt ≤ intMax - 3 := by
  have hfield := length_le_of_mem (requested c SampleField.layout) (fieldBytes c s) .stackUser
    ((mem_requested ..).mpr ⟨by decide, hset⟩)
  have hrecord : 8 + ((requested c SampleField.layout).flatMap (fieldBytes c s)).length <
      recordLimit := hfits
  apply (h hset).ends
  simp only [fieldBytes, Sample.fieldBytes, List.length_append] at hfield hrecord
  omega

theorem mem_layout (f : SampleField) : f ∈ SampleField.layout := by
  cases f <;> decide

theorem sampleRecord_decodes_field (hq : c.quiet = false) (s : Sample) (g : SampleField)
    (hg : g ≠ .raw) (horder : InOrder c.sampleType) (hdump : StackInside c s)
    (hfits : Fits c s) :
    Decodes 64 (fieldReported g) (sampleRecord c) (s.bytes c.sampleType c.readFormat c.regMask) ()
      (if g.isSet c.sampleType then fieldReport c s g else []) := by
  have hrecord := sampleRecord_decode s (fun f => if f = g then fieldReport c s f else []) horder
    (by unfold Fits at hfits; omega) fun f hset hf hshort =>
      sampleBlock_decodes_field hq s f g hf hg hshort fun hstack => hdump (hstack ▸ hset)
  rw [flatMap_single _ g _ (requested_nodup c SampleField.layout (by decide))] at hrecord
  simpa [mem_requested, mem_layout] using hrecord

theorem sample_details (r : Record c) (s : Sample) (hp : r.payload = .sample s) (size : ℤ)
    (mem : Memory) (start : ℤ) (hold : Holds mem start r.bytes) :
    details c size start (word32 mem start) = sampleRecord c := by
  have htype : word32 mem start = RecordType.sample.code := by
    rw [(header_words r.raw mem start hold).1]
    simp [Record.raw, hp, Payload.type]
  unfold details
  rw [htype, RecordType.ofCode_code]

/-- The only blocks that load from a copied stack are the stacks themselves. -/
theorem copyLoads_permitsBlock (f : SampleField) (hf : f ≠ .stackUser) :
    PermitsBlock c (fun o => copyLoads o = []) f := by
  cases f with
  | stackUser => contradiction
  | tid => exact ⟨fun _ _ => rfl, fun _ _ => rfl⟩
  | read => exact ⟨fun _ _ => rfl, fun _ _ => rfl⟩
  | raw => exact ⟨fun _ _ => rfl, fun _ _ _ => rfl⟩
  | branchStack => exact ⟨fun _ _ => rfl, fun _ _ => rfl⟩
  | regsUser => exact ⟨fun _ _ _ => rfl, rfl⟩
  | regsIntr => exact ⟨fun _ _ _ => rfl, rfl⟩
  | _ => exact fun _ _ => rfl

def dumpLoads (s : Sample) : List CopyLoad :=
  (List.range ((s.dynSize.toInt.toNat + 3) / 4)).map fun i : ℕ => ⟨4 * (4 * i), 4, s.stack.length⟩

theorem dumpLoads_inside_iff (s : Sample) :
    (∀ l ∈ dumpLoads s, l.Inside) ↔ DumpInside s.stack s.dynSize := by
  unfold dumpLoads DumpInside CopyLoad.Inside
  simp only [List.mem_map, List.mem_range, forall_exists_index, and_imp, forall_apply_eq_imp_iff₂]
  constructor
  · intro h hpos
    have hlast := (h ((s.dynSize.toInt.toNat - 1) / 4) (by omega)).2
    omega
  · intro h i hi
    have hlast := h (by omega)
    omega

theorem sampleRecord_loads (hq : c.quiet = false) (s : Sample) (horder : InOrder c.sampleType)
    (hends : SampleField.stackUser.isSet c.sampleType = true → s.dynSize.toInt ≤ intMax - 3)
    (hfits : Fits c s) :
    Decodes 64 copyLoads (sampleRecord c) (s.bytes c.sampleType c.readFormat c.regMask) ()
      (if SampleField.stackUser.isSet c.sampleType then dumpLoads s else []) := by
  have hrecord := sampleRecord_decode s
    (fun f => if f = .stackUser then dumpLoads s else []) horder (by unfold Fits at hfits; omega)
    fun f hset hf hshort => by
      by_cases hstack : f = .stackUser
      · subst hstack
        have hlen : s.stack.length < 2 ^ 63 := by
          simp only [fieldBytes, Sample.fieldBytes, List.length_append, recordLimit] at hshort
          omega
        have hdeaf : Deaf (.field .stackUser) copyLoads := fun _ _ _ => rfl
        have hloads := sampleStackUser_shows hq hdeaf (fun _ => rfl) s.stack s.dynSize hlen
          (hends hset)
        rw [if_pos rfl, dumpLoads, List.map_eq_flatMap]
        exact hloads
      · rw [if_neg hstack]
        exact decodes_nothing (sampleBlock_decodes_field hq s f .ip hf (by decide) hshort
          fun h => absurd h hstack) (always_sampleBlock f (copyLoads_permitsBlock f hstack))
  rw [flatMap_single _ _ (fun _ => dumpLoads s)
    (requested_nodup c SampleField.layout (by decide))] at hrecord
  simpa [mem_requested, mem_layout] using hrecord

/-- The case of a sample consumes the record if it consumes what the record stores. -/
theorem iteration_of_sample {R : Type} {obs : Out → List R} {rep : List R}
    (hdeaf : Deaf .header obs) {r : Record c} {s : Sample} (hp : r.payload = .sample s)
    (hbare : r.trailer = [])
    (h : Decodes 64 obs (sampleRecord c) (s.bytes c.sampleType c.readFormat c.regMask) () rep)
    (size : ℤ) (mem : Memory) (start : ℤ) (hold : Holds mem start r.bytes)
    (room : Room 64 start r.size) : Consumes obs (iteration c size) mem start r.size () rep := by
  have hbody : r.raw.body = s.bytes c.sampleType c.readFormat c.regMask := by
    simp [Record.raw, hp, hbare, Payload.bytes]
  have hmem : Holds mem (start + 8) (s.bytes c.sampleType c.readFormat c.regMask) :=
    hbody ▸ (header_words r.raw mem start hold).2.2.2
  have hsize : r.size = 8 + (s.bytes c.sampleType c.readFormat c.regMask).length := by
    rw [← hbody]
    rfl
  rw [hsize] at room ⊢
  apply iteration_of_details hdeaf size mem start _ _ room
  rw [sample_details r s hp size mem start hold]
  exact h mem _ hmem room.split.2

theorem lateDecoded_of_inOrder (hq : c.quiet = false) (s : Sample)
    (horder : InOrder c.sampleType) (hdump : StackInside c s) (hfits : Fits c s) :
    LateDecoded c s := by
  intro r hp hbare size mem start hold room
  have hrun : ∀ g, g ≠ .raw → Consumes (fieldReported g) (iteration c size) mem start r.size ()
      (if g.isSet c.sampleType then fieldReport c s g else []) := fun g hg =>
    iteration_of_sample (fieldReported_deaf g .header (by simp)) hp hbare
      (sampleRecord_decodes_field hq s g hg horder hdump hfits) size mem start hold room
  have hloads := iteration_of_sample (fun _ _ _ => rfl) hp hbare
    (sampleRecord_loads hq s horder (hdump.ends hfits) hfits) size mem start hold room
  refine ⟨(hrun .identifier (by decide)).exit, fun g hg => (hrun g ?_).shows, ?_⟩
  · rintro rfl
    simp [lateFields] at hg
  · rw [hloads.shows]
    cases hset : SampleField.stackUser.isSet c.sampleType with
    | false => simp
    | true =>
      rw [if_pos rfl]
      exact (dumpLoads_inside_iff s).mpr (hdump hset)

end PapiSample.SampleOrder
