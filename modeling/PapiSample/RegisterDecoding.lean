import PapiSample.BlockDecoding
import PapiSample.RegisterTexts

/-!
The blocks behind the branch stack: register dumps, user stacks and memory
sources. A register block is reported as its ABI, the mask and the selected
registers, lowest first. The words of a copied stack are printed but are not
part of the report.
-/
namespace PapiSample.RegisterDecoding

open Bytes Cursor Cursor.Prog PerfEvent ParseRecord SampleFields Report FieldDecoding RegisterTexts

variable {c : Config}

/-- A text of a register block that names no ABI. -/
theorem says_regsText (site : Site) (format : String) (hs : isReport site = true)
    (hr : isRegs site = true) (hformat : textAbi format = []) :
    Says reported (fprintf site format []) [] := by
  have h := says_fprintf site format [] hs
  simpa [callValues, hr, atSite, hformat] using h

theorem isReport_of_isRegs {site : Site} (hr : isRegs site = true) : isReport site = true := by
  cases site with
  | header => contradiction
  | details => rfl
  | stackWords => contradiction
  | field f => rfl

/-- The report of a register leaves its name out. -/
theorem regTexts_reported (site : Site) (hr : isRegs site = true) (i : ℕ) (v : BitVec 64) :
    (regTexts c site i v).flatMap reported = atSite site [.long v] := by
  have hs := isReport_of_isRegs hr
  have hname : reported (nameText c site i) = [] := by
    unfold nameText
    cases (regNames c.arch)[i]? with
    | none =>
      have htext : textAbi "\t\t??? : " = [] := by decide
      simp [reported, hs, hr, callValues, htext]
    | some reg => simp [reported, hs, callValues, argValue]
  have hvalue : reported (.printed site .fp "%llx\n" [.long v]) = atSite site [.long v] := by
    simp [reported, hs, callValues, argValue, atSite]
  rw [regTexts, List.flatMap_cons, hname, List.flatMap_singleton, hvalue, List.nil_append]

/-- print_regs walks the registers in the order in which they are stored. -/
theorem printRegs_decodes (hq : c.quiet = false) (site : Site) (hr : isRegs site = true)
    (regs : ℕ → BitVec 64) :
    Decodes 32 reported (printRegs c site) (wordsBytes ((setBits c.regMask).map regs)) ()
      (atSite site (.long c.regMask :: (setBits c.regMask).map fun i => .long (regs i))) := by
  have hs := isReport_of_isRegs hr
  have hmask : reported (.printed site .fp "\t\tReg mask %llx\n" [.long c.regMask]) =
      atSite site [.long c.regMask] := by
    simp [reported, hs, callValues, argValue, atSite]
  refine ((RegisterTexts.printRegs_decodes c site regs).observe reported).congr rfl ?_
  rw [dumpTexts, if_neg (by rw [hq]; exact Bool.false_ne_true), List.flatMap_cons, hmask,
    List.flatMap_assoc, zip_map_bits, List.flatMap_map]
  simp only [regTexts_reported site hr, atSite, List.map_cons, List.map_nil, List.map_map,
    List.singleton_append, ← List.map_eq_flatMap]
  rfl

/-- The texts of the three ABIs are told apart by what they name. -/
theorem says_abiText (site : Site) (hr : isRegs site = true) (a : RegsAbi) :
    Says reported (fprintf site (abiText a) []) (atSite site [.abi a]) ∧
      Says reported (printf site (abiText a) []) (atSite site [.abi a]) := by
  have hs := isReport_of_isRegs hr
  have htext : textAbi (abiText a) = [.abi a] := by cases a <;> decide
  constructor
  · simpa [callValues, hr, htext] using says_fprintf site (abiText a) [] hs
  · intro mem off
    have h : Consumes reported (emit (.printed site .stdout (abiText a) [])) mem off 0 ()
        (reported (.printed site .stdout (abiText a) [])) := consumes_emit _
    simpa [printf, reported, hs, callValues, hr, htext, atSite] using h

theorem says_printAbi (site : Site) (hr : isRegs site = true) (a : RegsAbi) :
    Says reported (printAbi site a.word) (atSite site [.abi a]) := by
  cases a with
  | none =>
    exact (says_abiText site hr .none).2.bind (s := []) (Says.ret.bind Says.ret)
  | abi32 =>
    exact Says.ret.bind ((says_abiText site hr .abi32).1.bind (s := []) Says.ret)
  | abi64 =>
    exact Says.ret.bind (Says.ret.bind (says_abiText site hr .abi64).1)

/-- A register block: the ABI, then one word for each bit of the mask. -/
theorem sampleRegs_decodes (hq : c.quiet = false) (site : Site) (hr : isRegs site = true)
    (title : String) (htitle : textAbi title = []) (abi : RegsAbi) (regs : ℕ → BitVec 64)
    (hlen : (regsBytes abi regs c.regMask).length < recordLimit) :
    Decodes 64 reported (sampleRegs c site title) (regsBytes abi regs c.regMask) ()
      (atSite site
        (.abi abi :: .long c.regMask :: (setBits c.regMask).map fun i => .long (regs i))) := by
  have hs := isReport_of_isRegs hr
  have hnewline := says_regsText site "\n" hs hr (by decide)
  have hhead : Says reported
      (do
        fprintf site title []
        printAbi site abi.word
        fprintf site "\n" []) (atSite site [.abi abi]) := by
    simpa using (says_regsText site title hs hr htitle).bind
      ((says_printAbi site hr abi).bind hnewline)
  have hregs : Decodes 64 reported
      (do
        let length ← subview (printRegs c site)
        advance length
        unlessQuiet c (fprintf site "\n" []))
      (wordsBytes ((setBits c.regMask).map regs)) ()
      (atSite site (.long c.regMask :: (setBits c.regMask).map fun i => .long (regs i))) := by
    intro mem off hold room
    have hlength : 2 * ((wordsBytes ((setBits c.regMask).map regs)).length : ℤ) < 2 ^ 32 := by
      unfold regsBytes recordLimit at hlen
      rw [List.length_append] at hlen
      omega
    have hview := (printRegs_decodes hq site hr regs).subview hold hlength
    have hmove := (decodes_advance _ (wordsBytes ((setBits c.regMask).map regs)) rfl mem off hold
      room).finish (f := fun _ => unlessQuiet c (fprintf site "\n" []))
      (says_unlessQuiet hq hnewline mem _)
    simpa using hview.seq (f := fun length => do
      advance length
      unlessQuiet c (fprintf site "\n" [])) hmove
  have hskip := (decodes_advance 8 (le64 abi.word) (by simp)).next hregs
  exact (Decodes.peek64 ((says_unlessQuiet hq hhead).before hskip)).congr rfl rfl

/-- The last word that is dumped of a copied stack lies in the copy: the dump takes a
word out of sixteen bytes for every four bytes in use. -/
def DumpInside (stack : List Byte) (dynSize : BitVec 64) : Prop :=
  0 < dynSize.toInt → 16 * ((dynSize.toInt - 1) / 4) + 4 ≤ stack.length

instance (stack : List Byte) (dynSize : BitVec 64) : Decidable (DumpInside stack dynSize) :=
  inferInstanceAs (Decidable (_ → _))

/-- So the used size does not outgrow the index of the loop. -/
theorem DumpInside.ends {stack : List Byte} {dynSize : BitVec 64}
    (h : DumpInside stack dynSize) (hlen : stack.length < recordLimit) :
    dynSize.toInt ≤ intMax - 3 := by
  unfold DumpInside at h
  unfold recordLimit at hlen
  unfold intMax
  omega

theorem says_stackLoop (hq : c.quiet = false) (stackData : List Byte) (size : ℤ)
    (dynSize : BitVec 64) (hends : dynSize.toInt ≤ intMax - 3) :
    Says reported (intLoop 4 dynSize.toInt (stackWord c stackData size)) [] := by
  have hword : ∀ i, Says reported (stackWord c stackData size i) [] := by
    intro i
    have hload : Says reported (emit (.heapLoad (4 * (4 * i)) 4 size)) [] := Says.emit _
    have hprint : Says reported (fprintf .stackWords "0x%x "
        [.int (word32 (overlay stackData c.heap) (4 * (4 * i)))]) [] :=
      fun mem off => consumes_emit _
    exact says_unlessQuiet hq (hload.bind hprint)
  unfold intMax at hends
  unfold intLoop
  rw [if_pos (by unfold intMax; omega)]
  exact Says.repeatFrom _ hword 0 _

theorem sampleStackUser_decodes (hq : c.quiet = false) (stack : List Byte) (dynSize : BitVec 64)
    (hlen : stack.length < recordLimit) (hdump : DumpInside stack dynSize) :
    Decodes 64 reported (sampleStackUser c)
      (le64 (BitVec.ofNat 64 stack.length) ++ stack ++ le64 dynSize) ()
      (atSite (.field .stackUser) [.long (BitVec.ofNat 64 stack.length), .long dynSize]) := by
  have htext : ∀ format, Says reported (unlessQuiet c (fprintf (.field .stackUser) format [])) [] :=
    fun format => says_unlessQuiet hq (says_text (.field .stackUser) format rfl rfl)
  have htail : ∀ stackData size, Decodes 64 reported (stackTail c stackData size)
      (le64 dynSize) () (atSite (.field .stackUser) [.long dynSize]) := by
    intro stackData size
    have hloop := says_stackLoop hq stackData size dynSize (hdump.ends hlen)
    have hskip := Says.after (decodes_advance 8 (le64 dynSize ++ []) (by simp))
      ((htext "\t\t").bind (hloop.bind (htext "\n")))
    have hprint := (says_unlessQuiet hq (says_fprintf (.field .stackUser)
      "\t\tDynamic (used) size: %lld\n" [.long dynSize] rfl)).before hskip
    exact (Decodes.peek64 hprint).congr (List.append_nil _) (by simp [atSite, callValues, argValue])
  have hcopy : Decodes 64 reported
      (do
        let stackData ← copyOut stack.length
        advance stack.length
        stackTail c stackData stack.length)
      (stack ++ le64 dynSize) () (atSite (.field .stackUser) [.long dynSize]) := by
    intro mem off hold room
    have hstack : Consumes reported (copyOut stack.length) mem off 0 stack [] :=
      consumes_copyOut rfl ((holds_append ..).mp hold).1
    have hmove := ((decodes_advance stack.length stack rfl).next (htail stack stack.length))
      mem off hold room
    exact hstack.seq hmove
  have hskip := (decodes_advance 8 (le64 (BitVec.ofNat 64 stack.length)) (by simp)).next hcopy
  have hprint := (says_unlessQuiet hq (says_fprintf (.field .stackUser)
    "\tPERF_SAMPLE_STACK_USER, Requested size: %lld\n"
    [.long (BitVec.ofNat 64 stack.length)] rfl)).before hskip
  rw [← count_toInt stack.length hlen] at hprint
  exact (Decodes.peek64 hprint).congr (List.append_assoc ..).symm
    (by simp [atSite, callValues, argValue])

theorem says_printDataSrc (src : BitVec 64) : Says reported (printDataSrc src) [] := by
  have htext : ∀ format, Says reported (fprintf (.field .dataSrc) format []) [] :=
    fun format => says_text (.field .dataSrc) format rfl rfl
  exact (says_optionally _ (htext _)).bind
    (Says.forM memLabels _ fun l _ => says_optionally _ (htext l.2))

theorem sampleDataSrc_decodes (hq : c.quiet = false) (src : BitVec 64) :
    Decodes 64 reported (sampleDataSrc c) (le64 src) () (atSite (.field .dataSrc) [.long src]) := by
  have hline := says_unlessQuiet hq (says_text (.field .dataSrc) "\n" rfl rfl)
  have hlabels := says_unlessQuiet hq (says_printDataSrc src)
  have hskip := Says.after (decodes_advance 8 (le64 src ++ []) (by simp)) (hlabels.bind hline)
  have hprint := (says_unlessQuiet hq (says_fprintf (.field .dataSrc)
    "\tPERF_SAMPLE_DATA_SRC, Raw: %llx\n" [.long src] rfl)).before hskip
  exact (Decodes.peek64 hprint).congr (List.append_nil _) (by simp [atSite, callValues, argValue])

end PapiSample.RegisterDecoding
