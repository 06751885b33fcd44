import PapiSample.FieldDecoding

/-!
The text of a read_format block: every call that handle_struct_read_format makes to
print, in order and on its stream. It depends on the words of the block only, and
so does the length that the function returns, whatever is behind the block.
-/
namespace PapiSample.ReadTexts

open Bytes Cursor Cursor.Prog PerfEvent ParseRecord FieldDecoding

variable (c : Config)

def line (c : Config) (format : String) (args : List Arg) : List Out :=
  if c.quiet then [] else [.printed (.field .read) .fp format args]

def wordText (c : Config) (flag : BitVec 32) (format : String) (v : BitVec 64) : List Out :=
  if hasFormat c flag then line c format [.long v] else []

def wrongCount (v : ValidateValues) (nr : BitVec 64) : Out :=
  .printed (.field .read) .stderr "Error!  Wrong number of events %d != %lld\n"
    [.int v.events, .long nr]

def countTexts (c : Config) (nr : BitVec 64) : List Out :=
  match c.validate with
  | none => []
  | some v => if v.events.toInt != nr.toInt then [wrongCount v nr] else []

def timeTexts (c : Config) (v : ReadValues) : List Out :=
  wordText c PERF_FORMAT_TOTAL_TIME_ENABLED "enabled: %lld " v.timeEnabled ++
    wordText c PERF_FORMAT_TOTAL_TIME_RUNNING "running: %lld " v.timeRunning

def entryTexts (c : Config) (e : Counter) : List Out :=
  line c "\t\t\tValue: %lld " [.long e.value] ++ wordText c PERF_FORMAT_ID "id: %lld " e.id ++
    line c "\n" []

def blockTexts (c : Config) (v : ReadValues) : List Out :=
  if hasFormat c PERF_FORMAT_GROUP then
    line c "\t\tNumber: %lld " [.long (BitVec.ofNat 64 v.cntr.length)] ++
      countTexts c (BitVec.ofNat 64 v.cntr.length) ++ timeTexts c v ++ line c "\n" [] ++
      v.cntr.flatMap (entryTexts c)
  else
    line c "\t\tValue: %lld " [.long v.value] ++ timeTexts c v ++
      wordText c PERF_FORMAT_ID "id: %lld " v.id ++ line c "\n" []

theorem says_line (format : String) (args : List Arg) :
    Says whole (unlessQuiet c (fprintf (.field .read) format args)) (line c format args) := by
  unfold unlessQuiet line
  cases c.quiet with
  | true => exact Says.ret
  | false => exact Says.emit _

theorem readWord_decodes (format : String) (v : BitVec 64) :
    Decodes 32 whole (readWord c format) (wordsBytes [v]) () (line c format [.long v]) := by
  have hbody := (says_line c format [.long v]).before
    (decodes_skip 32 8 (wordsBytes [v]) (by simp))
  exact (Decodes.peek64 hbody).congr rfl (List.append_nil _)

/-- A word that the format may leave out. -/
theorem optionalWord_decodes (flag : BitVec 32) (format : String) (v : BitVec 64) :
    Decodes 32 whole (optionally (hasFormat c flag) (readWord c format))
      (wordsBytes (if c.readFormat &&& flag != 0 then [v] else [])) ()
      (wordText c flag format v) := by
  unfold wordText hasFormat
  cases c.readFormat &&& flag != 0 with
  | false => exact Decodes.ret 32 ()
  | true => exact readWord_decodes c format v

theorem groupEntry_decodes (i : ℕ) (e : Counter) :
    Decodes 32 whole (groupEntry c i) (wordsBytes (e.words c.readFormat)) () (entryTexts c e) := by
  have hid := Says.after (optionalWord_decodes c PERF_FORMAT_ID "id: %lld " e.id)
    (says_line c "\n" [])
  have hvalue := (readWord_decodes c "\t\t\tValue: %lld " e.value).next hid
  exact hvalue.congr (by simp [Counter.words]) (List.append_assoc ..).symm

theorem times_decode (v : ReadValues) {g : Parser Unit} {rest : List Byte} {r : List Out}
    (h : Decodes 32 whole g rest () r) :
    Decodes 32 whole
      (do
        optionally (hasFormat c PERF_FORMAT_TOTAL_TIME_ENABLED) (readWord c "enabled: %lld ")
        optionally (hasFormat c PERF_FORMAT_TOTAL_TIME_RUNNING) (readWord c "running: %lld ")
        g)
      (wordsBytes
        ((if c.readFormat &&& PERF_FORMAT_TOTAL_TIME_ENABLED != 0 then [v.timeEnabled] else []) ++
          (if c.readFormat &&& PERF_FORMAT_TOTAL_TIME_RUNNING != 0 then [v.timeRunning] else [])) ++
        rest) ()
      (timeTexts c v ++ r) := by
  have hrunning := (optionalWord_decodes c PERF_FORMAT_TOTAL_TIME_RUNNING "running: %lld "
    v.timeRunning).next h
  have henabled := (optionalWord_decodes c PERF_FORMAT_TOTAL_TIME_ENABLED "enabled: %lld "
    v.timeEnabled).next hrunning
  exact henabled.congr (by simp) (List.append_assoc ..).symm

theorem says_checkEvents (nr : BitVec 64) : Says whole (checkEvents c nr) (countTexts c nr) := by
  unfold checkEvents countTexts
  cases c.validate with
  | none => exact Says.ret
  | some v =>
    simp only
    cases v.events.toInt != nr.toInt with
    | false => exact Says.ret
    | true => exact Says.emit _

/-- A group block has at least one word for each of its counters. -/
theorem cntr_le_words (readFormat : BitVec 32) (v : ReadValues)
    (hgroup : (readFormat &&& PERF_FORMAT_GROUP != 0) = true) :
    v.cntr.length ≤ (v.words readFormat).length := by
  have hcntr := length_le_flatMap v.cntr (Counter.words readFormat)
    (fun e => by simp [Counter.words])
  unfold ReadValues.words
  rw [if_pos hgroup]
  simp only [List.length_append, List.length_cons]
  omega

/-- handle_struct_read_format on a block that an int can count the bytes of. -/
theorem handleStructReadFormat_decodes (v : ReadValues)
    (hbytes : (wordsBytes (v.words c.readFormat)).length < 2 ^ 31) :
    Decodes 32 whole (handleStructReadFormat c) (wordsBytes (v.words c.readFormat)) ()
      (blockTexts c v) := by
  have hcntr := cntr_le_words c.readFormat v
  rw [wordsBytes_length] at hbytes
  unfold handleStructReadFormat ReadValues.words blockTexts hasFormat
  cases hgroup : c.readFormat &&& PERF_FORMAT_GROUP != 0 with
  | true =>
    have hlen := hcntr hgroup
    have hcount := toInt_length (n := v.cntr.length) (by omega)
    have hloop := Decodes.intLoop (w := 32) v.cntr (by unfold intMax; omega)
      (fun k e _ => groupEntry_decodes c k e)
    have hrest := times_decode c v ((says_line c "\n" []).before hloop)
    have hcheck := (says_checkEvents c (BitVec.ofNat 64 v.cntr.length)).before hrest
    have hskip := (decodes_skip 32 8 (le64 (BitVec.ofNat 64 v.cntr.length)) (by simp)).next hcheck
    have hprint := (says_line c "\t\tNumber: %lld "
      [.long (BitVec.ofNat 64 v.cntr.length)]).before hskip
    rw [← hcount] at hprint
    exact (Decodes.peek64 hprint).congr (by simp [wordsBytes, List.flatMap_assoc])
      (by simp [List.append_assoc])
  | false =>
    have hid := Says.after (optionalWord_decodes c PERF_FORMAT_ID "id: %lld " v.id)
      (says_line c "\n" [])
    have hvalue := (readWord_decodes c "\t\tValue: %lld " v.value).next (times_decode c v hid)
    exact hvalue.congr (by simp) (by simp [List.append_assoc])

/-- What an observer gets to know of a block who looks at the words on `fp` only. -/
theorem blockTexts_observed {R : Type} (obs : Out → List R) (g : BitVec 64 → R)
    (hword : ∀ format v, obs (.printed (.field .read) .fp format [.long v]) = [g v])
    (hline : obs (.printed (.field .read) .fp "\n" []) = [])
    (hcount : ∀ v nr, obs (wrongCount v nr) = []) (hq : c.quiet = false) (v : ReadValues) :
    (blockTexts c v).flatMap obs = (v.words c.readFormat).map g := by
  have hplain : (line c "\n" []).flatMap obs = [] := by simp [line, hq, hline]
  have hwords : ∀ format v, (line c format [.long v]).flatMap obs = [g v] := by
    intro format v
    simp [line, hq, hword]
  have hoptional : ∀ flag format v, (wordText c flag format v).flatMap obs =
      (if c.readFormat &&& flag != 0 then [v] else []).map g := by
    intro flag format v
    unfold wordText hasFormat
    split
    · exact hwords format v
    · rfl
  have hcheck : ∀ nr, (countTexts c nr).flatMap obs = [] := by
    intro nr
    unfold countTexts
    split
    · rfl
    · split
      · simp [hcount]
      · rfl
  have hentry : ∀ e : Counter, (entryTexts c e).flatMap obs = (e.words c.readFormat).map g := by
    intro e
    rw [entryTexts, List.flatMap_append, List.flatMap_append, hplain, hwords, hoptional,
      List.append_nil, Counter.words, List.map_cons, List.singleton_append]
  have htimes : (timeTexts c v).flatMap obs =
      ((if c.readFormat &&& PERF_FORMAT_TOTAL_TIME_ENABLED != 0 then [v.timeEnabled] else []) ++
        (if c.readFormat &&& PERF_FORMAT_TOTAL_TIME_RUNNING != 0 then [v.timeRunning]
          else [])).map g := by
    rw [timeTexts, List.flatMap_append, hoptional, hoptional, List.map_append]
  unfold blockTexts ReadValues.words hasFormat
  cases c.readFormat &&& PERF_FORMAT_GROUP != 0 with
  | true =>
    simp only [if_true, List.flatMap_append, List.map_append, List.map_cons, List.flatMap_assoc,
      List.map_flatMap, hwords, hcheck, htimes, hplain, hentry, List.nil_append, List.append_assoc,
      List.cons_append]
  | false =>
    simp only [Bool.false_eq_true, if_false, List.flatMap_append, List.map_append, List.map_cons,
      hwords, htimes, hoptional, hplain, List.append_nil, List.nil_append, List.append_assoc,
      List.cons_append]

def shownWords : Out → List (BitVec 64)
  | .printed _ .fp _ args => args.flatMap fun
      | .long v => [v]
      | _ => []
  | _ => []

/-- The message comes if there is a count and it is not the one that is given. -/
theorem wrongCount_mem_iff (v : ReadValues)
    (hlen : hasFormat c PERF_FORMAT_GROUP = true → v.cntr.length < 2 ^ 31) :
    (∃ given, wrongCount given (BitVec.ofNat 64 v.cntr.length) ∈ blockTexts c v) ↔
      hasFormat c PERF_FORMAT_GROUP = true ∧
        ∃ given, c.validate = some given ∧ given.events.toInt ≠ v.cntr.length := by
  have hline : ∀ format args given nr, wrongCount given nr ∉ line c format args := by
    intro format args given nr
    unfold line wrongCount
    split <;> simp
  have hword : ∀ flag format word given nr, wrongCount given nr ∉ wordText c flag format word := by
    intro flag format word given nr
    unfold wordText
    split
    · exact hline format [.long word] given nr
    · exact List.not_mem_nil
  unfold blockTexts
  cases hgroup : hasFormat c PERF_FORMAT_GROUP with
  | false => simp [timeTexts, hline, hword]
  | true =>
    have hshort := hlen hgroup
    have hnr := toInt_length (n := v.cntr.length) (by omega)
    simp only [if_true, timeTexts, entryTexts, List.mem_append, List.mem_flatMap, hline, hword,
      or_false, false_or, and_false, exists_false, true_and, countTexts, hnr]
    cases c.validate with
    | none => simp
    | some expected =>
      by_cases hsame : expected.events.toInt = v.cntr.length
      · simp [hsame]
      · have hdiffers : (expected.events.toInt != (v.cntr.length : ℤ)) = true := by
          simpa using hsame
        simp only [hdiffers, if_true, List.mem_singleton, Option.some.injEq, exists_eq_left',
          ne_eq, hsame, not_false_eq_true, iff_true]
        exact ⟨expected, rfl⟩

/-- How the function reads a block at the start of the memory it is given: it returns
the length of the block, it prints the texts of its words in order, and of a
memory that goes on in another way behind the block it makes the same. -/
structure ReadsBlock (v : ReadValues) (sample : Memory) : Prop where
  length : (handleStructReadFormat c sample 0).exit =
    some ((), ((wordsBytes (v.words c.readFormat)).length : ℤ))
  texts : seen whole (handleStructReadFormat c sample 0).log = blockTexts c v
  words : c.quiet = false →
    (seen whole (handleStructReadFormat c sample 0).log).flatMap shownWords = v.words c.readFormat
  count : (∃ given, wrongCount given (BitVec.ofNat 64 v.cntr.length) ∈
      seen whole (handleStructReadFormat c sample 0).log) ↔
    hasFormat c PERF_FORMAT_GROUP = true ∧
      ∃ given, c.validate = some given ∧ given.events.toInt ≠ v.cntr.length
  behind : ∀ other : Memory, Holds other 0 (wordsBytes (v.words c.readFormat)) →
    (handleStructReadFormat c other 0).exit = (handleStructReadFormat c sample 0).exit ∧
      seen whole (handleStructReadFormat c other 0).log =
        seen whole (handleStructReadFormat c sample 0).log

/-- Every block whose bytes an int can count is read so, in every format. -/
theorem handleStructReadFormat_readsBlock (v : ReadValues) (sample : Memory)
    (hlen : (wordsBytes (v.words c.readFormat)).length < 2 ^ 31)
    (hold : Holds sample 0 (wordsBytes (v.words c.readFormat))) : ReadsBlock c v sample := by
  have hrun : ∀ mem : Memory, Holds mem 0 (wordsBytes (v.words c.readFormat)) →
      Consumes whole (handleStructReadFormat c) mem 0 (wordsBytes (v.words c.readFormat)).length ()
        (blockTexts c v) := by
    intro mem hmem
    apply handleStructReadFormat_decodes c v hlen mem 0 hmem
    unfold Room
    omega
  have hshort : hasFormat c PERF_FORMAT_GROUP = true → v.cntr.length < 2 ^ 31 := by
    intro hgroup
    have := cntr_le_words c.readFormat v hgroup
    rw [wordsBytes_length] at hlen
    omega
  obtain ⟨hexit, htexts⟩ := hrun sample hold
  rw [Int.zero_add] at hexit
  constructor
  · exact hexit
  · exact htexts
  · intro hq
    rw [htexts]
    have hwords := blockTexts_observed c shownWords id (fun _ _ => rfl) rfl (fun _ _ => rfl)
      hq v
    rwa [List.map_id] at hwords
  · rw [htexts]
    exact wrongCount_mem_iff c v hshort
  · intro other hother
    obtain ⟨hexit', htexts'⟩ := hrun other hother
    rw [Int.zero_add] at hexit'
    exact ⟨hexit'.trans hexit.symm, htexts'.trans htexts.symm⟩

def groupConfig : Config where
  arch := .x86_64
  sampleType := 0x10
  readFormat := 0xf
  regMask := 0
  validate := some ⟨0, 0, 2, 0, 0⟩
  quiet := false
  rawType := RAW_NONE
  heap := fun _ => 0

def oneCounter : ReadValues := ⟨0, 70, 60, 0, [⟨5, 1⟩]⟩

theorem readsBlock_oneCounter :
    ReadsBlock groupConfig oneCounter
      (overlay (wordsBytes (oneCounter.words groupConfig.readFormat)) fun _ => 9) :=
  handleStructReadFormat_readsBlock groupConfig oneCounter _ (by decide) (holds_overlay _ _)

end PapiSample.ReadTexts
