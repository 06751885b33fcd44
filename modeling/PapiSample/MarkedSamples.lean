import PapiSample.SampleOrder

/-!
Samples of zeros with a single one. Read in another order than they were stored,
such a sample decodes as a different one of the same kind, since zeros look the
same wherever a field begins.
-/
namespace PapiSample.MarkedSamples

open Bytes Cursor Cursor.Prog PerfEvent ParseRecord SampleFields RecordLoop Report FieldDecoding
  RegisterDecoding SampleDecoding RawDumps RecordDecoding SampleOrder

variable {c : Config}

def zeroSample : Sample where
  identifier := 0
  ip := 0
  pid := 0
  tid := 0
  time := 0
  addr := 0
  id := 0
  streamId := 0
  cpu := 0
  res := 0
  period := 0
  values := ⟨0, 0, 0, 0, []⟩
  ips := []
  raw := []
  lbr := []
  userAbi := .none
  userRegs := fun _ => 0
  stack := []
  dynSize := 0
  weight := 0
  dataSrc := 0
  transaction := 0
  intrAbi := .none
  intrRegs := fun _ => 0
  physAddr := 0

def oneSample : Sample where
  identifier := 1
  ip := 1
  pid := 1
  tid := 0
  time := 1
  addr := 1
  id := 1
  streamId := 1
  cpu := 1
  res := 0
  period := 1
  values := ⟨1, 0, 0, 0, [⟨0, 0⟩]⟩
  ips := [0]
  raw := [0]
  lbr := [⟨0, 0, 0⟩]
  userAbi := .abi32
  userRegs := fun _ => 0
  stack := [0]
  dynSize := 0
  weight := 1
  dataSrc := 1
  transaction := 1
  intrAbi := .abi32
  intrRegs := fun _ => 0
  physAddr := 1

theorem wordsBytes_zeros (words : List (BitVec 64)) (h : ∀ w ∈ words, w = 0) :
    wordsBytes words = List.replicate (8 * words.length) 0 := by
  induction words with
  | nil => rfl
  | cons w rest ih =>
    have hw : le64 w = List.replicate 8 0 := by
      rw [h w (List.mem_cons_self ..)]
      decide
    rw [wordsBytes_cons, hw, ih fun v hv => h v (List.mem_cons_of_mem w hv),
      List.replicate_append_replicate, List.length_cons]
    congr 1
    omega

theorem regs_zeros (mask : BitVec 64) :
    wordsBytes ((setBits mask).map fun _ => 0) = List.replicate (8 * weight mask) 0 := by
  rw [wordsBytes_zeros _ (by simp), List.length_map]
  rfl

theorem weight_le (mask : BitVec 64) : weight mask ≤ 64 := by
  unfold weight setBits
  exact (List.length_filter_le _ _).trans (by simp)

theorem words_zero (readFormat : BitVec 32) :
    (∀ w ∈ zeroSample.values.words readFormat, w = 0) ∧
      (zeroSample.values.words readFormat).length ≤ 4 := by
  unfold ReadValues.words zeroSample
  cases readFormat &&& PERF_FORMAT_GROUP != 0 <;>
    cases readFormat &&& PERF_FORMAT_TOTAL_TIME_ENABLED != 0 <;>
    cases readFormat &&& PERF_FORMAT_TOTAL_TIME_RUNNING != 0 <;>
    cases readFormat &&& PERF_FORMAT_ID != 0 <;> simp

theorem words_one (readFormat : BitVec 32) :
    ∃ rest, oneSample.values.words readFormat = 1 :: rest ∧ (∀ w ∈ rest, w = 0) ∧
      rest.length ≤ 4 := by
  unfold ReadValues.words oneSample Counter.words
  cases readFormat &&& PERF_FORMAT_GROUP != 0 <;>
    cases readFormat &&& PERF_FORMAT_TOTAL_TIME_ENABLED != 0 <;>
    cases readFormat &&& PERF_FORMAT_TOTAL_TIME_RUNNING != 0 <;>
    cases readFormat &&& PERF_FORMAT_ID != 0 <;> simp

theorem one_word : le64 1 = 1 :: List.replicate 7 0 := by decide

theorem replicate_join (m n : ℕ) :
    (List.replicate m 0 ++ List.replicate n 0 : List Byte) = List.replicate (m + n) 0 :=
  List.replicate_append_replicate ..

def fieldLimit : ℕ := 600

theorem zero_bytes (c : Config) (f : SampleField) :
    ∃ k ≤ fieldLimit, fieldBytes c zeroSample f = List.replicate k 0 := by
  have hregs : ∀ abi : RegsAbi, abi = .none →
      ∃ k ≤ fieldLimit, regsBytes abi (fun _ => 0) c.regMask = List.replicate k 0 := by
    rintro _ rfl
    have hweight := weight_le c.regMask
    refine ⟨8 + 8 * weight c.regMask, by unfold fieldLimit; omega, ?_⟩
    unfold regsBytes
    rw [regs_zeros, ← replicate_join]
    rfl
  cases f with
  | read =>
    obtain ⟨hwords, hlen⟩ := words_zero c.readFormat
    refine ⟨_, ?_, wordsBytes_zeros _ hwords⟩
    unfold fieldLimit
    omega
  | regsUser => exact hregs _ rfl
  | regsIntr => exact hregs _ rfl
  | raw => exact ⟨4, by decide, rfl⟩
  | stackUser => exact ⟨16, by decide, rfl⟩
  | _ => exact ⟨8, by decide, rfl⟩

theorem one_bytes (c : Config) (f : SampleField) :
    ∃ k ≤ fieldLimit, fieldBytes c oneSample f = 1 :: List.replicate k 0 := by
  have hregs : ∀ abi : RegsAbi, abi = .abi32 →
      ∃ k ≤ fieldLimit, regsBytes abi (fun _ => 0) c.regMask = 1 :: List.replicate k 0 := by
    rintro _ rfl
    have hweight := weight_le c.regMask
    refine ⟨7 + 8 * weight c.regMask, by unfold fieldLimit; omega, ?_⟩
    unfold regsBytes
    rw [regs_zeros, ← replicate_join]
    rfl
  cases f with
  | read =>
    obtain ⟨rest, hwords, hzero, hlen⟩ := words_one c.readFormat
    refine ⟨7 + 8 * rest.length, by unfold fieldLimit; omega, ?_⟩
    have hbytes : fieldBytes c oneSample .read = wordsBytes (1 :: rest) := by rw [← hwords]; rfl
    rw [hbytes, wordsBytes_cons, wordsBytes_zeros rest hzero, one_word, List.cons_append,
      replicate_join]
  | regsUser => exact hregs _ rfl
  | regsIntr => exact hregs _ rfl
  | callchain => exact ⟨15, by decide, rfl⟩
  | raw => exact ⟨4, by decide, rfl⟩
  | branchStack => exact ⟨31, by decide, rfl⟩
  | stackUser => exact ⟨16, by decide, rfl⟩
  | _ => exact ⟨7, by decide, rfl⟩

/-- The bytes of a sample of zeros in which one field starts with a one. -/
def markedBytes (c : Config) (k f : SampleField) : List Byte :=
  if f = k then fieldBytes c oneSample f else fieldBytes c zeroSample f

theorem zeros_flatMap (c : Config) (items : List SampleField) :
    ∃ m ≤ items.length * (fieldLimit + 1),
      items.flatMap (fieldBytes c zeroSample) = List.replicate m 0 := by
  induction items with
  | nil => exact ⟨0, by simp, rfl⟩
  | cons f rest ih =>
    obtain ⟨k, hk, hbytes⟩ := zero_bytes c f
    obtain ⟨m, hm, hrest⟩ := ih
    refine ⟨k + m, ?_, ?_⟩
    · rw [List.length_cons, Nat.succ_mul]
      omega
    · rw [List.flatMap_cons, hbytes, hrest, replicate_join]

theorem marked_flatMap_zero (c : Config) (k : SampleField) (items : List SampleField)
    (h : k ∉ items) :
    items.flatMap (markedBytes c k) = items.flatMap (fieldBytes c zeroSample) := by
  apply List.flatMap_congr
  intro f hf
  have hne : f ≠ k := fun heq => h (heq ▸ hf)
  simp [markedBytes, hne]

/-- A list of fields with the marked one in the middle. -/
theorem marked_flatMap (c : Config) (k : SampleField) (pre post : List SampleField)
    (hpre : k ∉ pre) (hpost : k ∉ post) :
    ∃ m ≤ (post.length + 1) * (fieldLimit + 1), (pre ++ k :: post).flatMap (markedBytes c k) =
      pre.flatMap (fieldBytes c zeroSample) ++ 1 :: List.replicate m 0 := by
  obtain ⟨n, hn, hone⟩ := one_bytes c k
  obtain ⟨m, hm, hrest⟩ := zeros_flatMap c post
  refine ⟨n + m, ?_, ?_⟩
  · rw [Nat.succ_mul]
    omega
  · have hk : markedBytes c k k = 1 :: List.replicate n 0 := by simp [markedBytes, hone]
    rw [List.flatMap_append, List.flatMap_cons, marked_flatMap_zero c k pre hpre,
      marked_flatMap_zero c k post hpost, hk, hrest, List.cons_append, replicate_join]

/-- What the blocks make of a record whose bytes, padded with zeros, begin with
bytes they decode. -/
theorem lateDecoded_reading (hq : c.quiet = false) (s : Sample) (hfits : Fits c s)
    (hlate : LateDecoded c s) (t : SampleField → Sample)
    (ht : ∀ f, (fieldBytes c (t f) f).length < recordLimit ∧
      DumpInside (t f).stack (t f).dynSize)
    (n : ℕ) (rest : List Byte)
    (hpad : s.bytes c.sampleType c.readFormat c.regMask ++ List.replicate n 0 =
      (requested c blockOrder).flatMap (fun f => fieldBytes c (t f) f) ++ rest)
    (hshort : ((requested c blockOrder).flatMap fun f => fieldBytes c (t f) f).length < 2 ^ 32) :
    ((requested c blockOrder).flatMap fun f => fieldBytes c (t f) f).length =
        (s.bytes c.sampleType c.readFormat c.regMask).length ∧
      ∀ g ∈ lateFields, (if g ∈ requested c blockOrder then fieldReport c (t g) g else []) =
        if g.isSet c.sampleType then fieldReport c s g else [] := by
  have hbare : 8 + (Payload.bytes c.sampleType c.readFormat c.regMask (.sample s) ++
      []).length < recordLimit := by
    rw [List.append_nil]
    exact hfits
  let r : Record c := ⟨0, .sample s, [], hbare⟩
  have hbody : r.raw.body = s.bytes c.sampleType c.readFormat c.regMask := List.append_nil _
  have hsize : r.size = 8 + (s.bytes c.sampleType c.readFormat c.regMask).length := by
    rw [← hbody]
    rfl
  let mem := overlay r.bytes fun _ => 0
  let codeBytes := (requested c blockOrder).flatMap fun f => fieldBytes c (t f) f
  have hold : Holds mem 0 r.bytes := holds_overlay _ _
  have hcode : Holds mem (0 + 8) codeBytes := by
    have hmem : Holds mem 0 (r.raw.header ++ (r.raw.body ++ List.replicate n 0)) := by
      rw [← List.append_assoc]
      exact holds_overlay_zeros r.bytes n
    have hbehind := ((holds_append ..).mp hmem).2
    rw [hbody, hpad] at hbehind
    exact ((holds_append ..).mp hbehind).1
  have hroom : Room 64 0 (8 + codeBytes.length) := by
    have hlt : codeBytes.length < 2 ^ 32 := hshort
    apply room_of_nonneg le_rfl
    omega
  have hbehind : Room 64 (0 + 8) codeBytes.length := hroom.split.2
  have hrun : ∀ g ∈ lateFields, Consumes (fieldReported g) (iteration c 0) mem 0
      (8 + codeBytes.length) ()
      (if g ∈ requested c blockOrder then fieldReport c (t g) g else []) := by
    intro g hg
    have hraw : g ≠ .raw := by
      rintro rfl
      simp [lateFields] at hg
    have hblocks := sampleBlocks_decode (c := c) (fun f => fieldBytes c (t f) f)
      (fun f => if f = g then fieldReport c (t f) f else []) blockOrder fun f hf =>
        sampleBlock_decodes_field hq (t f) f g (by
          rintro rfl
          simp [mem_requested, blockOrder] at hf) hraw (ht f).1 fun _ => (ht f).2
    rw [flatMap_single _ g (fun f => fieldReport c (t f) f)
      (requested_nodup c blockOrder (by decide))] at hblocks
    apply iteration_of_details (fieldReported_deaf g .header (by simp)) 0 mem 0 _ _ hroom
    rw [sample_details r s rfl 0 mem 0 hold]
    exact hblocks mem _ hcode hbehind
  have hfull : Room 64 0 r.size := by
    have hlt : 8 + (s.bytes c.sampleType c.readFormat c.regMask).length < recordLimit := hfits
    rw [hsize]
    simp only [Room, recordLimit] at hlt ⊢
    omega
  obtain ⟨hexit, hshown, _⟩ := hlate r rfl rfl 0 mem 0 hold hfull
  refine ⟨?_, fun g hg => (hrun g hg).shows.symm.trans (hshown g hg)⟩
  change codeBytes.length = _
  have hsame := (hrun .identifier (by decide)).exit.symm.trans hexit
  simp only [Option.some.injEq, Prod.mk.injEq, true_and] at hsame
  rw [hsize] at hsame
  push_cast at hsame
  omega

/-- The late fields that may be stored in front of their place in the code. -/
def movable : List SampleField := [.identifier, .stackUser, .weight, .dataSrc, .transaction]

def markedSample : SampleField → Sample
  | .identifier => { zeroSample with identifier := 1 }
  | .stackUser => { zeroSample with stack := [0] }
  | .weight => { zeroSample with weight := 1 }
  | .dataSrc => { zeroSample with dataSrc := 1 }
  | .transaction => { zeroSample with transaction := 1 }
  | _ => zeroSample

theorem markedSample_bytes (c : Config) (k f : SampleField) (hk : k ∈ movable) :
    fieldBytes c (markedSample k) f = markedBytes c k f := by
  simp only [movable, List.mem_cons, List.not_mem_nil, or_false] at hk
  rcases hk with rfl | rfl | rfl | rfl | rfl <;> cases f <;> rfl

theorem markedSample_report (c : Config) (k : SampleField) (hk : k ∈ movable) :
    fieldReport c (markedSample k) k ≠ fieldReport c zeroSample k ∧
      fieldReport c (markedSample k) k ≠ [] := by
  simp only [movable, List.mem_cons, List.not_mem_nil, or_false] at hk
  rcases hk with rfl | rfl | rfl | rfl | rfl <;>
    simp [fieldReport, fieldValues, markedSample, zeroSample]

theorem bytes_layout (c : Config) (s : Sample) :
    s.bytes c.sampleType c.readFormat c.regMask =
      (requested c SampleField.layout).flatMap (fieldBytes c s) := rfl

/-- The requested fields are at most all of them. -/
theorem requested_length (c : Config) (order : List SampleField) :
    (requested c order).length ≤ order.length := List.length_filter_le ..

theorem middle_notMem {pre post : List SampleField} {k : SampleField}
    (h : (pre ++ k :: post).Nodup) : k ∉ pre ∧ k ∉ post := by
  obtain ⟨_, htail, hdisjoint⟩ := List.nodup_append.mp h
  refine ⟨fun hk => ?_, (List.nodup_cons.mp htail).1⟩
  exact hdisjoint k hk k (List.mem_cons_self ..) rfl

def readSample (g f : SampleField) : Sample := if f = g then oneSample else zeroSample

theorem readSample_bytes (c : Config) (g f : SampleField) :
    fieldBytes c (readSample g f) f = markedBytes c g f := by
  unfold readSample markedBytes
  by_cases h : f = g
  · simp [h]
  · simp [h]

theorem readSample_ok (c : Config) (g f : SampleField) :
    (fieldBytes c (readSample g f) f).length < recordLimit ∧
      DumpInside (readSample g f).stack (readSample g f).dynSize := by
  constructor
  · obtain ⟨k, hk, hzero⟩ := zero_bytes c f
    obtain ⟨n, hn, hone⟩ := one_bytes c f
    unfold readSample fieldLimit recordLimit at *
    by_cases h : f = g
    · rw [if_pos h, hone]
      simp
      omega
    · rw [if_neg h, hzero]
      simp
      omega
  · unfold readSample
    by_cases h : f = g
    · rw [if_pos h]
      decide
    · rw [if_neg h]
      decide

/-- Where two requested fields change places, a marked sample is misread. -/
theorem misread (hq : c.quiet = false) (pre post post' : List SampleField) (k g : SampleField)
    (hlayout : requested c SampleField.layout = pre ++ k :: post)
    (hblocks : requested c blockOrder = pre ++ g :: post') (hne : k ≠ g) (hk : k ∈ movable) :
    Fits c (markedSample k) ∧ StackInside c (markedSample k) ∧
      ¬ LateDecoded c (markedSample k) := by
  have hlen := requested_length c SampleField.layout
  have hlen' := requested_length c blockOrder
  have hset : k.isSet c.sampleType = true := by
    have hmem : k ∈ requested c SampleField.layout := by simp [hlayout]
    exact ((mem_requested c SampleField.layout k).mp hmem).2
  obtain ⟨hpre, hpost⟩ := middle_notMem (hlayout ▸ requested_nodup c SampleField.layout (by decide))
  obtain ⟨hpre', hpost'⟩ := middle_notMem (hblocks ▸ requested_nodup c blockOrder (by decide))
  obtain ⟨z, hz, hzero⟩ := zeros_flatMap c pre
  obtain ⟨m, hm, hmarked⟩ := marked_flatMap c k pre post hpre hpost
  obtain ⟨m', hm', hcode⟩ := marked_flatMap c g pre post' hpre' hpost'
  rw [hzero] at hmarked hcode
  rw [hlayout, List.length_append, List.length_cons] at hlen
  rw [hblocks, List.length_append, List.length_cons] at hlen'
  have hbytes : (markedSample k).bytes c.sampleType c.readFormat c.regMask =
      List.replicate z 0 ++ 1 :: List.replicate m 0 := by
    rw [bytes_layout, hlayout, ← hmarked]
    exact List.flatMap_congr fun f _ => markedSample_bytes c k f hk
  have hread : (requested c blockOrder).flatMap (fun f => fieldBytes c (readSample g f) f) =
      List.replicate z 0 ++ 1 :: List.replicate m' 0 := by
    rw [hblocks, ← hcode]
    exact List.flatMap_congr fun f _ => readSample_bytes c g f
  have hfits : Fits c (markedSample k) := by
    unfold Fits
    rw [hbytes, List.length_append, List.length_cons, List.length_replicate,
      List.length_replicate]
    simp only [SampleField.layout, List.length_cons, List.length_nil, fieldLimit,
      recordLimit] at *
    omega
  refine ⟨hfits, ?_, ?_⟩
  · intro _
    simp only [movable, List.mem_cons, List.not_mem_nil, or_false] at hk
    rcases hk with rfl | rfl | rfl | rfl | rfl <;> decide
  · intro hlate
    have hshort : ((requested c blockOrder).flatMap
        fun f => fieldBytes c (readSample g f) f).length < 2 ^ 32 := by
      rw [hread, List.length_append, List.length_cons, List.length_replicate,
        List.length_replicate]
      simp only [blockOrder, List.length_cons, List.length_nil, fieldLimit] at *
      omega
    obtain ⟨_, hreports⟩ := lateDecoded_reading hq (markedSample k) hfits hlate (readSample g)
      (readSample_ok c g) m' (List.replicate m 0) (by
        rw [hbytes, hread]
        simp [Nat.add_comm]) hshort
    have hat := hreports k (by
      simp only [movable, List.mem_cons, List.not_mem_nil, or_false] at hk
      rcases hk with rfl | rfl | rfl | rfl | rfl <;> decide)
    obtain ⟨hdiffers, hsome⟩ := markedSample_report c k hk
    rw [if_pos hset] at hat
    have hother : readSample g k = zeroSample := if_neg hne
    rw [hother] at hat
    by_cases hmem : k ∈ requested c blockOrder
    · rw [if_pos hmem] at hat
      exact hdiffers hat.symm
    · rw [if_neg hmem] at hat
      exact hsome hat.symm

end PapiSample.MarkedSamples
