import PapiSample.RegisterDecoding

/-!
A whole sample. Block by block the parser decodes the fields it tests for; it
decodes the documented layout exactly when the blocks that are switched on come
in the documented order.
-/
namespace PapiSample.SampleDecoding

open Bytes Cursor Cursor.Prog PerfEvent ParseRecord SampleFields Report FieldDecoding
  BlockDecoding RegisterDecoding

variable {c : Config}

/-- No raw payload goes to one of the two IBS dumps. -/
def PlainRaw (c : Config) : Prop := c.rawType ≠ RAW_IBS_FETCH ∧ c.rawType ≠ RAW_IBS_OP

theorem plainRaw_of_none (h : c.rawType = RAW_NONE) : PlainRaw c := by
  unfold PlainRaw
  rw [h]
  decide

def fieldBytes (c : Config) (s : Sample) (f : SampleField) : List Byte :=
  s.fieldBytes c.readFormat c.regMask f

/-- Every block but the one that is missing decodes its own field. -/
theorem sampleBlock_decodes (hq : c.quiet = false) (hraw : PlainRaw c) (s : Sample)
    (f : SampleField) (hf : f ≠ .physAddr) (hlen : (fieldBytes c s f).length < recordLimit)
    (hdump : f = .stackUser → DumpInside s.stack s.dynSize) :
    Decodes 64 reported (sampleBlock c f) (fieldBytes c s f) () (fieldReport c s f) := by
  cases f with
  | ip => exact longField_decodes hq (.field .ip) _ rfl s.ip
  | tid => exact intPair_decodes hq .tid _ _ says_checkPid s.pid s.tid
  | time => exact longField_decodes hq (.field .time) _ rfl s.time
  | addr => exact longField_decodes hq (.field .addr) _ rfl s.addr
  | id => exact longField_decodes hq (.field .id) _ rfl s.id
  | streamId => exact longField_decodes hq (.field .streamId) _ rfl s.streamId
  | cpu => exact intPair_decodes hq .cpu _ _ (fun _ => Says.ret) s.cpu s.res
  | period => exact longField_decodes hq (.field .period) _ rfl s.period
  | read => exact sampleRead_decodes hq s.values hlen
  | callchain =>
    exact sampleCallchain_decodes hq s.ips (by
      simp only [fieldBytes, Sample.fieldBytes, List.length_append, wordsBytes_length] at hlen
      omega)
  | raw =>
    exact sampleRaw_decodes hq hraw.1 hraw.2 s.raw (by
      simp only [fieldBytes, Sample.fieldBytes, List.length_append] at hlen
      omega)
  | branchStack =>
    apply sampleBranchStack_decodes hq s.lbr
    have hentries := length_le_flatMap s.lbr BranchEntry.bytes
      (fun e => by simp [BranchEntry.bytes])
    simp only [fieldBytes, Sample.fieldBytes, List.length_append] at hlen
    omega
  | regsUser => exact sampleRegs_decodes hq _ rfl _ (by decide) s.userAbi s.userRegs hlen
  | regsIntr => exact sampleRegs_decodes hq _ rfl _ (by decide) s.intrAbi s.intrRegs hlen
  | stackUser =>
    refine sampleStackUser_decodes hq s.stack s.dynSize ?_ (hdump rfl)
    simp only [fieldBytes, Sample.fieldBytes, List.length_append] at hlen
    omega
  | weight => exact sampleWord_decodes hq .weight _ rfl s.weight
  | dataSrc => exact sampleDataSrc_decodes hq s.dataSrc
  | identifier => exact sampleWord_decodes hq .identifier _ rfl s.identifier
  | transaction => exact sampleWord_decodes hq .transaction _ rfl s.transaction
  | physAddr => contradiction

def requested (c : Config) (order : List SampleField) : List SampleField :=
  order.filter (SampleField.isSet · c.sampleType)

theorem requested_cons (c : Config) (f : SampleField) (rest : List SampleField) :
    requested c (f :: rest) =
      if f.isSet c.sampleType = true then f :: requested c rest else requested c rest :=
  List.filter_cons

theorem mem_requested (c : Config) (order : List SampleField) (f : SampleField) :
    f ∈ requested c order ↔ f ∈ order ∧ f.isSet c.sampleType = true := List.mem_filter

theorem requested_nodup (c : Config) (order : List SampleField) (h : order.Nodup) :
    (requested c order).Nodup := List.Pairwise.filter _ h

/-- A run of blocks, each of which decodes bytes of its own, decodes these bytes
in the order of the blocks. -/
theorem sampleBlocks_decode {R : Type} {obs : Out → List R} (enc : SampleField → List Byte)
    (rep : SampleField → List R) (order : List SampleField)
    (h : ∀ f ∈ requested c order, Decodes 64 obs (sampleBlock c f) (enc f) () (rep f)) :
    Decodes 64 obs (sampleBlocks c order) ((requested c order).flatMap enc) ()
      ((requested c order).flatMap rep) := by
  induction order with
  | nil => exact Decodes.ret 64 ()
  | cons f rest ih =>
    unfold sampleBlocks
    rw [requested_cons] at h ⊢
    by_cases hset : f.isSet c.sampleType = true
    · rw [if_pos hset] at h ⊢
      have hblock := h f (List.mem_cons_self ..)
      have hrest := ih fun g hg => h g (List.mem_cons_of_mem f hg)
      simpa [optionally, hset] using hblock.next hrest
    · rw [if_neg hset] at h ⊢
      have hnothing : Decodes 64 obs (pure ()) [] () [] := Decodes.ret 64 ()
      simpa [optionally, hset] using hnothing.next (ih h)

/-- The blocks that are switched on come in the documented order: two blocks are
misplaced, and one field has no block. -/
def InOrder (sampleType : BitVec 32) : Prop :=
  SampleField.physAddr.isSet sampleType = false ∧
    (SampleField.identifier.isSet sampleType = true → ∀ f ∈ SampleField.layout,
      f.isSet sampleType = true → f = .identifier ∨ f = .transaction) ∧
    (SampleField.regsIntr.isSet sampleType = true →
      ∀ f ∈ [SampleField.stackUser, .weight, .dataSrc, .transaction], f.isSet sampleType = false)

instance (sampleType : BitVec 32) : Decidable (InOrder sampleType) :=
  inferInstanceAs (Decidable (_ ∧ _ ∧ _))

theorem requested_inOrder (h : InOrder c.sampleType) :
    requested c blockOrder = requested c SampleField.layout := by
  obtain ⟨hphys, hident, hintr⟩ := h
  unfold requested SampleField.layout blockOrder
  cases hi : SampleField.identifier.isSet c.sampleType with
  | true =>
    have hoff : ∀ f ∈ SampleField.layout, f ≠ .identifier → f ≠ .transaction →
        f.isSet c.sampleType = false := by
      intro f hf hne hne'
      by_contra hset
      rcases hident hi f hf (by simpa using hset) with h | h
      · exact hne h
      · exact hne' h
    simp only [SampleField.layout, List.mem_cons, List.not_mem_nil, or_false, forall_eq_or_imp,
      forall_eq, ne_eq, not_true_eq_false, not_false_eq_true, reduceCtorEq, false_imp_iff,
      true_imp_iff] at hoff
    simp [List.filter_cons, hoff]
  | false =>
    cases hr : SampleField.regsIntr.isSet c.sampleType with
    | true =>
      have hoff := hintr hr
      simp only [List.mem_cons, List.not_mem_nil, or_false, forall_eq_or_imp, forall_eq] at hoff
      simp [List.filter_cons, hi, hr, hphys, hoff]
    | false => simp [List.filter_cons, hi, hr, hphys]

/-- When the requested blocks come in order, the SAMPLE case decodes what each
of its blocks decodes. -/
theorem sampleRecord_decode {R : Type} {obs : Out → List R} (s : Sample)
    (rep : SampleField → List R) (horder : InOrder c.sampleType)
    (hlen : (s.bytes c.sampleType c.readFormat c.regMask).length < recordLimit)
    (h : ∀ f : SampleField, f.isSet c.sampleType = true → f ≠ .physAddr →
      (fieldBytes c s f).length < recordLimit →
      Decodes 64 obs (sampleBlock c f) (fieldBytes c s f) () (rep f)) :
    Decodes 64 obs (sampleRecord c) (s.bytes c.sampleType c.readFormat c.regMask) ()
      ((requested c SampleField.layout).flatMap rep) := by
  have hbytes : s.bytes c.sampleType c.readFormat c.regMask =
      (requested c SampleField.layout).flatMap (fieldBytes c s) := rfl
  have hblocks := requested_inOrder horder
  rw [hbytes] at hlen ⊢
  rw [← hblocks] at hlen ⊢
  apply sampleBlocks_decode (fieldBytes c s) rep blockOrder
  intro f hf
  have hshort := length_le_of_mem (requested c blockOrder) (fieldBytes c s) f hf
  obtain ⟨hmem, hset⟩ := (mem_requested c blockOrder f).mp hf
  refine h f hset ?_ (by omega)
  rintro rfl
  rw [horder.1] at hset
  contradiction

theorem sampleRecord_decodes (hq : c.quiet = false) (hraw : PlainRaw c) (s : Sample)
    (horder : InOrder c.sampleType)
    (hdump : SampleField.stackUser.isSet c.sampleType = true → DumpInside s.stack s.dynSize)
    (hlen : (s.bytes c.sampleType c.readFormat c.regMask).length < recordLimit) :
    Decodes 64 reported (sampleRecord c) (s.bytes c.sampleType c.readFormat c.regMask) ()
      (sampleReport c s) :=
  sampleRecord_decode s (fieldReport c s) horder hlen fun f hset hf hshort =>
    sampleBlock_decodes hq hraw s f hf hshort fun hstack => hdump (hstack ▸ hset)

end PapiSample.SampleDecoding
