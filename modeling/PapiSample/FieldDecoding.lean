import PapiSample.Report

/-!
Each block of the parser, run where its own field is stored, reports the stored
values and moves the cursor to the end of the field. The counts in the data are
those of a field shorter than a record, so no counted loop outgrows its index.
-/
namespace PapiSample.FieldDecoding

open Bytes Cursor Cursor.Prog PerfEvent ParseRecord SampleFields Report

variable {c : Config}

def atSite (site : Site) (values : List Value) : List (Site × Value) := values.map (Prod.mk site)

@[simp] theorem atSite_append (site : Site) (a b : List Value) :
    atSite site (a ++ b) = atSite site a ++ atSite site b := List.map_append

/-- The longest record a 16-bit size can describe. -/
def recordLimit : ℕ := 2 ^ 16

theorem says_fprintf (site : Site) (format : String) (args : List Arg)
    (hs : isReport site = true) :
    Says reported (fprintf site format args) (atSite site (callValues site format args)) := by
  intro mem off
  have h : Consumes reported (emit (.printed site .fp format args)) mem off 0 ()
      (reported (.printed site .fp format args)) := consumes_emit _
  simpa only [fprintf, atSite, reported, hs, Bool.true_and,
    show (Stream.fp != Stream.stderr) = true from rfl, if_true] using h

/-- A text without arguments reports nothing outside the register blocks. -/
theorem says_text (site : Site) (format : String) (hs : isReport site = true)
    (hr : isRegs site = false) : Says reported (fprintf site format []) [] := by
  have h := says_fprintf site format [] hs
  simpa [callValues, hr, atSite] using h

theorem says_complain (site : Site) (format : String) (args : List Arg) :
    Says reported (complain site format args) [] := by
  intro mem off
  have h : Consumes reported (emit (.printed site .stderr format args)) mem off 0 ()
      (reported (.printed site .stderr format args)) := consumes_emit _
  simpa [complain, reported] using h

theorem says_unlessQuiet {R : Type} {obs : Out → List R} {q : Parser Unit} {rep : List R}
    (hq : c.quiet = false) (h : Says obs q rep) : Says obs (unlessQuiet c q) rep := by
  simpa [unlessQuiet, hq] using h

theorem says_optionally (b : Bool) {q : Parser Unit} (h : Says reported q []) :
    Says reported (optionally b q) [] := by
  cases b
  · exact Says.ret
  · exact h

def Deaf {R : Type} (site : Site) (obs : Out → List R) : Prop :=
  ∀ stream format args, obs (.printed site stream format args) = []

namespace Deaf

variable {R : Type} {obs : Out → List R} {site : Site}

theorem printf (h : Deaf site obs) (format : String) (args : List Arg) :
    Says obs (ParseRecord.printf site format args) [] := by
  intro mem off
  rw [← h .stdout format args]
  exact consumes_emit _

theorem fprintf (h : Deaf site obs) (format : String) (args : List Arg) :
    Says obs (ParseRecord.fprintf site format args) [] := by
  intro mem off
  rw [← h .fp format args]
  exact consumes_emit _

theorem optionally {q : Parser Unit} (b : Bool) (hq : Says obs q []) :
    Says obs (ParseRecord.optionally b q) [] := by
  cases b
  · exact Says.ret
  · exact hq

theorem unlessQuiet {q : Parser Unit} (hq : Says obs q []) :
    Says obs (ParseRecord.unlessQuiet c q) [] := by
  unfold ParseRecord.unlessQuiet
  cases c.quiet with
  | true => exact Says.ret
  | false => exact hq

end Deaf

/-- A block that holds what was stored is allocated without a word. -/
theorem consumes_copyOut {R : Type} {obs : Out → List R} {mem : Memory} {off : ℤ}
    {bytes : List Byte} (halloc : obs (.alloc bytes.length) = []) (hold : Holds mem off bytes) :
    Consumes obs (copyOut bytes.length) mem off 0 bytes [] := by
  have hblock : Consumes obs (emit (.alloc bytes.length)) mem off 0 () [] :=
    halloc ▸ consumes_emit _
  unfold copyOut
  rw [if_neg (by omega)]
  exact hblock.next (consumes_copy hold)

theorem decodes_advance (n : ℕ) (bytes : List Byte) (h : bytes.length = n) :
    Decodes 64 reported (advance n) bytes () [] := decodes_skip 64 n bytes h

theorem intField_decodes (hq : c.quiet = false) (site : Site) (format : String)
    (hs : isReport site = true) (v : BitVec 32) :
    Decodes 64 reported (intField c site format) (le32 v) () (atSite site [.int v]) := by
  have hprint := says_unlessQuiet hq (says_fprintf site format [.int v] hs)
  have hbody := hprint.before (decodes_advance 4 (le32 v ++ []) (by simp))
  exact (Decodes.peek32 hbody).congr (List.append_nil _) (List.append_nil _)

theorem longField_decodes (hq : c.quiet = false) (site : Site) (format : String)
    (hs : isReport site = true) (v : BitVec 64) :
    Decodes 64 reported (longField c site format) (le64 v) () (atSite site [.long v]) := by
  have hprint := says_unlessQuiet hq (says_fprintf site format [.long v] hs)
  have hbody := hprint.before (decodes_advance 8 (le64 v ++ []) (by simp))
  exact (Decodes.peek64 hbody).congr (List.append_nil _) (List.append_nil _)

theorem sampleWord_decodes (hq : c.quiet = false) (f : SampleField) (format : String)
    (hr : isRegs (.field f) = false) (v : BitVec 64) :
    Decodes 64 reported (sampleWord c f format) (le64 v) () (atSite (.field f) [.long v]) := by
  have hword := longField_decodes hq (.field f) format rfl v
  have hline := says_unlessQuiet hq (says_text (.field f) "\n" rfl hr)
  exact (Says.after hword hline).congr rfl (List.append_nil _)

theorem intPair_decodes (hq : c.quiet = false) (f : SampleField) (format : String)
    (check : BitVec 32 → Parser Unit) (hcheck : ∀ v, Says reported (check v) [])
    (a b : BitVec 32) :
    Decodes 64 reported (intPair c f format check) (le32 a ++ le32 b) ()
      (atSite (.field f) [.int a, .int b]) := by
  intro mem off hold room
  obtain ⟨ha, hb⟩ := (holds_append ..).mp hold
  have hfirst : word32 mem (off + 0) = a := by
    rw [Int.add_zero]
    exact word32_of_holds mem off a ha
  have hsecond : word32 mem (off + 4) = b := word32_of_holds mem _ b (by simpa using hb)
  have hprint := says_unlessQuiet hq (says_fprintf (.field f) format [.int a, .int b] rfl)
  have hskip := decodes_advance 8 (le32 a ++ le32 b) (by simp) mem off hold room
  have hload₁ : Consumes reported (load32 0) mem off 0 a [] := hfirst ▸ consumes_load32 0
  have hload₂ : Consumes reported (load32 4) mem off 0 b [] := hsecond ▸ consumes_load32 4
  have hrun : Consumes reported (intPair c f format check) mem off (le32 a ++ le32 b).length ()
      ([] ++ ([] ++ ([] ++ (atSite (.field f) [.int a, .int b] ++ [])))) :=
    hload₁.seq (hload₂.seq ((hcheck a mem off).seq ((hprint mem off).seq hskip)))
  simpa using hrun

theorem says_checkPid (pid : BitVec 32) : Says reported (checkPid c pid) [] := by
  unfold checkPid
  cases c.validate with
  | none => exact Says.ret
  | some v => exact says_optionally _ (says_complain _ _ _)

theorem says_checkBranch (source : BitVec 64) : Says reported (checkBranch c source) [] := by
  unfold checkBranch
  cases c.validate with
  | none => exact Says.ret
  | some v => exact says_optionally _ (says_complain _ _ _)

/-! A count word below the limit is read back as the count. -/

theorem toInt_length {n : ℕ} (h : n < 2 ^ 63) : (BitVec.ofNat 64 n).toInt = n := by
  rw [BitVec.toInt_ofNat', Int.bmod_eq_of_le_mul_two] <;> omega

theorem count_toInt (n : ℕ) (h : n < recordLimit) : (BitVec.ofNat 64 n).toInt = n := by
  unfold recordLimit at h
  exact toInt_length (by omega)

theorem count32_toInt (n : ℕ) (h : n < recordLimit) : (BitVec.ofNat 32 n).toInt = n := by
  unfold recordLimit at h
  rw [BitVec.toInt_ofNat', Int.bmod_eq_of_le_mul_two] <;> omega

theorem limit_le_intMax (n : ℕ) (h : n < recordLimit) : n ≤ intMax := by
  unfold recordLimit at h
  unfold intMax
  omega

@[simp] theorem wordsBytes_nil : wordsBytes [] = [] := rfl

@[simp] theorem wordsBytes_cons (v : BitVec 64) (words : List (BitVec 64)) :
    wordsBytes (v :: words) = le64 v ++ wordsBytes words := rfl

@[simp] theorem wordsBytes_append (a b : List (BitVec 64)) :
    wordsBytes (a ++ b) = wordsBytes a ++ wordsBytes b := List.flatMap_append

@[simp] theorem wordsBytes_length (words : List (BitVec 64)) :
    (wordsBytes words).length = 8 * words.length := by
  induction words with
  | nil => rfl
  | cons v rest ih =>
    rw [wordsBytes_cons, List.length_append, ih, le64_length, List.length_cons]
    omega

end PapiSample.FieldDecoding
