import PapiSample.FieldDecoding

/-!
The text of a register dump. The cursor of print_regs moves on set bits only, while
its index moves on every bit: the word under the cursor belongs to the set bit
whose rank is the number of words passed.
-/
namespace PapiSample.RegisterTexts

open Bytes Cursor Cursor.Prog PerfEvent ParseRecord FieldDecoding

variable (c : Config) (site : Site)

def nameText (i : ℕ) : Out :=
  match (regNames c.arch)[i]? with
  | some reg => .printed site .fp "\t\t%s : " [.name reg]
  | none => .printed site .fp "\t\t??? : " []

def regTexts (i : ℕ) (v : BitVec 64) : List Out :=
  [nameText c site i, .printed site .fp "%llx\n" [.long v]]

def dumpTexts (words : List (BitVec 64)) : List Out :=
  if c.quiet then []
  else .printed site .fp "\t\tReg mask %llx\n" [.long c.regMask] ::
    ((setBits c.regMask).zip words).flatMap fun reg => regTexts c site reg.1 reg.2

theorem setBits_ascending (mask : BitVec 64) : (setBits mask).Pairwise (· < ·) :=
  List.Pairwise.filter _ List.pairwise_lt_range

theorem mem_setBits (mask : BitVec 64) (i : ℕ) : i ∈ setBits mask ↔ mask.getLsbD i = true := by
  rw [setBits, List.mem_filter, List.mem_range, and_iff_right_iff_imp]
  intro h
  exact BitVec.lt_of_getLsbD h

theorem says_regName (i : ℕ) : Says whole (regName c site i) [nameText c site i] := by
  unfold regName nameText
  cases (regNames c.arch)[i]? with
  | none => exact Says.emit _
  | some reg => exact Says.emit _

/-- A selection from a list, written out item by item. -/
theorem flatMap_filter {R : Type} (items : List ℕ) (p : ℕ → Bool) (f : ℕ → List R) :
    items.flatMap (fun i => if p i then f i else []) = (items.filter p).flatMap f := by
  induction items with
  | nil => rfl
  | cons i rest ih =>
    rw [List.flatMap_cons, ih]
    by_cases h : p i = true
    · rw [if_pos h, List.filter_cons_of_pos h, List.flatMap_cons]
    · rw [if_neg h, List.filter_cons_of_neg h, List.nil_append]

theorem printReg_decodes (i : ℕ) (v : BitVec 64) :
    Decodes 32 whole (printReg c site i) (if c.regMask.getLsbD i then le64 v else []) ()
      (if c.regMask.getLsbD i then if c.quiet then [] else regTexts c site i v else []) := by
  unfold printReg
  cases c.regMask.getLsbD i with
  | false => exact Decodes.ret 32 ()
  | true =>
    intro mem off hold room
    have hstep : Decodes 32 whole (skip 32 8 : Parser Unit) (le64 v) () [] :=
      decodes_skip 32 8 (le64 v) (by simp)
    have hword : word64 mem (off + 0) = v := by
      rw [Int.add_zero]
      exact word64_of_holds mem off v hold
    have hload : Consumes whole (load64 0 : Parser _) mem off 0 v [] := hword ▸ consumes_load64 0
    have hvalue : Says whole (fprintf site "%llx\n" [.long v])
      [.printed site .fp "%llx\n" [.long v]] :=
      Says.emit _
    have hshow : Consumes whole (showReg c site i) mem off 0 () (regTexts c site i v) :=
      hload.seq ((says_regName c site i mem off).next (hvalue mem off))
    have hprint : Consumes whole (unlessQuiet c (showReg c site i)) mem off 0 ()
        (if c.quiet then [] else regTexts c site i v) := by
      unfold unlessQuiet
      cases c.quiet with
      | true => exact Consumes.ret ()
      | false => exact hshow
    simpa [optionally] using hprint.next (hstep mem off hold room)

theorem says_mask :
    Says whole (unlessQuiet c (fprintf site "\t\tReg mask %llx\n" [.long c.regMask]))
    (if c.quiet then [] else [.printed site .fp "\t\tReg mask %llx\n" [.long c.regMask]]) := by
  unfold unlessQuiet
  cases c.quiet with
  | true => exact Says.ret
  | false => exact Says.emit _

theorem zip_map_bits (bits : List ℕ) (regs : ℕ → BitVec 64) :
    bits.zip (bits.map regs) = bits.map fun i => (i, regs i) := by
  have h := List.zip_map' (l := bits) (f := id) (g := regs)
  rwa [List.map_id] at h

/-- print_regs walks the registers in the order in which they are stored. -/
theorem printRegs_decodes (regs : ℕ → BitVec 64) :
    Decodes 32 whole (printRegs c site) (wordsBytes ((setBits c.regMask).map regs)) ()
      (dumpTexts c site ((setBits c.regMask).map regs)) := by
  have hloop := Decodes.repeatFrom (w := 32) (List.range 64) 0
    (fun k i hi => by
      obtain ⟨_, rfl⟩ := List.getElem?_eq_some_iff.mp hi
      simpa using printReg_decodes c site k (regs k))
  rw [List.length_range] at hloop
  refine ((says_mask c site).before hloop).congr ?_ ?_
  · rw [flatMap_filter (List.range 64) (fun i => c.regMask.getLsbD i) fun i => le64 (regs i),
      wordsBytes, List.flatMap_map]
    rfl
  · rw [flatMap_filter (List.range 64) (fun i => c.regMask.getLsbD i), dumpTexts, zip_map_bits,
      List.flatMap_map]
    cases c.quiet with
    | true => simp
    | false => rfl

/-- Words as the values of the set bits, by rank. -/
theorem map_rank (bits : List ℕ) (hbits : bits.Nodup) (words : List (BitVec 64))
    (hlen : bits.length ≤ words.length) :
    (bits.map fun i => words.getD (bits.idxOf i) 0) = words.take bits.length := by
  apply List.ext_getElem
  · rw [List.length_map, List.length_take]
    omega
  · intro k hk _
    rw [List.length_map] at hk
    have hword : words[k]? = some (words[k]) := List.getElem?_eq_getElem (by omega)
    rw [List.getElem_map, hbits.idxOf_getElem k hk, List.getElem_take,
      List.getD_eq_getElem?_getD, hword, Option.getD_some]

/-- What a call of print_regs makes of the words it is given: it returns the length of
as many words as the mask has bits, and pairs each of them with its bit, the lowest
first. -/
structure PairsWords (words : List (BitVec 64)) (data : Memory) : Prop where
  length : (printRegs c site data 0).exit = some ((), 8 * (weight c.regMask : ℤ))
  texts : seen whole (printRegs c site data 0).log = dumpTexts c site words
  ascending : (setBits c.regMask).Pairwise (· < ·)
  complete : ∀ i, i ∈ setBits c.regMask ↔ c.regMask.getLsbD i = true

theorem printRegs_pairsWords (words : List (BitVec 64)) (data : Memory)
    (hlen : weight c.regMask ≤ words.length) (hold : Holds data 0 (wordsBytes words)) :
    PairsWords c site words data := by
  have hnodup : (setBits c.regMask).Nodup := (setBits_ascending c.regMask).imp Nat.ne_of_lt
  have hrank := map_rank (setBits c.regMask) hnodup words hlen
  have hdecodes := printRegs_decodes c site fun i => words.getD ((setBits c.regMask).idxOf i) 0
  rw [hrank] at hdecodes
  have hprefix : Holds data 0 (wordsBytes (words.take (setBits c.regMask).length)) := by
    rw [← List.take_append_drop (setBits c.regMask).length words, wordsBytes_append] at hold
    exact ((holds_append ..).mp hold).1
  have hbits : weight c.regMask ≤ 64 := by
    have := List.length_filter_le (fun i => c.regMask.getLsbD i) (List.range 64)
    rwa [List.length_range] at this
  have hmin : min (setBits c.regMask).length words.length = weight c.regMask := Nat.min_eq_left hlen
  have hbytes : (wordsBytes (words.take (setBits c.regMask).length)).length =
      8 * weight c.regMask := by
    rw [wordsBytes_length, List.length_take, hmin]
  obtain ⟨hexit, htexts⟩ := hdecodes data 0 hprefix (by unfold Room; omega)
  constructor
  · rw [hexit, hbytes]
    push_cast
    rw [Int.zero_add]
  · have hzip : (setBits c.regMask).zip (words.take (setBits c.regMask).length) =
        (setBits c.regMask).zip words := by
      have h : (setBits c.regMask).zip words = _ := List.zip_eq_zip_take_min
      have hall : (setBits c.regMask).take (weight c.regMask) = setBits c.regMask :=
        List.take_length
      rw [hmin, hall] at h
      exact h.symm
    rw [htexts, dumpTexts, hzip, dumpTexts]
  · exact setBits_ascending c.regMask
  · exact mem_setBits c.regMask

def maskConfig : Config where
  arch := .x86_64
  sampleType := 0x1000
  readFormat := 0
  regMask := 0x9
  validate := none
  quiet := false
  rawType := RAW_NONE
  heap := fun _ => 0

theorem pairsWords_maskConfig :
    PairsWords maskConfig (.field .regsUser) [7, 8, 9]
      (overlay (wordsBytes [7, 8, 9]) fun _ => 255) :=
  printRegs_pairsWords maskConfig (.field .regsUser) [7, 8, 9] _ (by decide) (holds_overlay _ _)

end PapiSample.RegisterTexts
