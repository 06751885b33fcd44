import Mathlib.Algebra.Order.BigOperators.Group.List
import PapiSample.FieldDecoding

/-!
The labels a run writes for single bits: those of a data source and those of the
flags of a branch. The data source is taken apart with masks computed in int, of
which the one for bit 31 is negative, and the flags of a branch are cleared while
they are tested.
-/
namespace PapiSample.BitLabels

open Bytes Cursor Cursor.Prog PerfEvent ParseRecord SampleFields FieldDecoding

variable {c : Config}

/-- The labels of `union perf_mem_data_src` and their bits: the fields mem_op,
mem_lvl, mem_snoop, mem_lock and mem_dtlb, whose values are single bits. -/
def dataSrcBits : List (String × ℕ) :=
  ["Op Not available ", "Load ", "Store ", "Prefetch ", "Executable code "].zipIdx memOpShift ++
    ["Level Not available ", "Hit ", "Miss ", "L1 cache ", "Line fill buffer ", "L2 cache ",
      "L3 cache ", "Local DRAM ", "Remote DRAM 1 hop ", "Remote DRAM 2 hops ",
      "Remote cache 1 hop ", "Remote cache 2 hops ", "I/O memory ",
      "Uncached memory "].zipIdx memLvlShift ++
    ["Snoop Not available ", "No snoop ", "Snoop hit ", "Snoop miss ",
      "Snoop hit modified "].zipIdx memSnoopShift ++
    ["Locks Not available ", "Locked transaction "].zipIdx memLockShift ++
    ["TLB Not available ", "Hit ", "Miss ", "Level 1 TLB ", "Level 2 TLB ", "Hardware walker ",
      "OS fault handler "].zipIdx memTlbShift

def branchBits : List (String × ℕ) :=
  ["MISPREDICTED ", "PREDICTED ", "IN_TRANSACTION ", "TRANSACTION_ABORT "].zipIdx 0

def documented (bits : List (String × ℕ)) (word : BitVec 64) : List String :=
  (bits.filter fun l => word.getLsbD l.2).map Prod.fst

def dataSrcLabels : Out → List String
  | .printed site _ format _ =>
      if site = .field .dataSrc ∧ format ∈ dataSrcBits.map Prod.fst then [format] else []
  | _ => []

def branchLabels : Out → List String
  | .printed site _ format _ =>
      if site = .field .branchStack ∧ (format ∈ branchBits.map Prod.fst ∨ format = "\n")
      then [format] else []
  | _ => []

theorem mask_test (word : BitVec 64) (k : ℕ) (hk : k < 64) :
    (word &&& BitVec.twoPow 64 k != 0) = word.getLsbD k := by
  have hmask : BitVec.twoPow 64 k ≠ 0 := by
    intro hzero
    have hbit := congrArg (fun w : BitVec 64 => w.getLsbD k) hzero
    simp [hk] at hbit
  rw [BitVec.and_twoPow]
  cases word.getLsbD k with
  | false => rfl
  | true => simpa using hmask

section Labels
variable {α β : Type}

/-- A filter that keeps more gives the same names only if it keeps the same. -/
theorem names_eq_iff (bits : List (α × β)) {p q : α × β → Bool}
    (himp : ∀ l, p l = true → q l = true) :
    (bits.filter p).map Prod.fst = (bits.filter q).map Prod.fst ↔
      ∀ l ∈ bits, q l = true → p l = true := by
  constructor
  · intro h l hl hq
    have hlen : (bits.filter p).length = (bits.filter q).length := by
      have := congrArg List.length h
      rwa [List.length_map, List.length_map] at this
    have heq := (List.monotone_filter_right bits himp).eq_of_length hlen
    have hmem : l ∈ bits.filter p := heq ▸ List.mem_filter.mpr ⟨hl, hq⟩
    exact (List.mem_filter.mp hmem).2
  · intro h
    have hsame : bits.filter p = bits.filter q :=
      List.filter_congr fun l hl => Bool.eq_iff_iff.mpr ⟨himp l, h l hl⟩
    rw [hsame]

theorem names_flatMap (bits : List (α × β)) (p : α × β → Bool) :
    (bits.filter p).map Prod.fst = bits.flatMap fun l => if p l then [l.1] else [] := by
  induction bits with
  | nil => rfl
  | cons l rest ih =>
    rw [List.flatMap_cons, ← ih, List.filter_cons]
    cases p l with
    | false => rfl
    | true => rfl

/-- Reports that leave things out agree as a whole only if each of them does. -/
theorem flatMap_eq_iff (items : List α) {f g : α → List β}
    (hsub : ∀ x, (f x).length ≤ (g x).length) :
    items.flatMap f = items.flatMap g ↔ ∀ x ∈ items, f x = g x := by
  induction items with
  | nil => simp
  | cons x rest ih =>
    have hrest : (rest.flatMap f).length ≤ (rest.flatMap g).length := by
      rw [List.length_flatMap, List.length_flatMap]
      exact List.sum_le_sum fun y _ => hsub y
    rw [List.flatMap_cons, List.flatMap_cons, List.forall_mem_cons, ← ih]
    constructor
    · intro h
      have hlen := congrArg List.length h
      rw [List.length_append, List.length_append] at hlen
      have hx := hsub x
      exact List.append_inj h (by omega)
    · rintro ⟨hx, hr⟩
      rw [hx, hr]

end Labels

/-- The mask the code tests for bit `k`: the one for bit 31 is the smallest int. -/
def codeMask (k : ℕ) : BitVec 64 :=
  if k = 31 then BitVec.signExtend 64 (BitVec.twoPow 32 31) else BitVec.twoPow 64 k

theorem memLabels_eq : memLabels = dataSrcBits.map fun l => (codeMask l.2, l.1) := by decide

/-- The negative mask has all the bits from 31 on. -/
theorem codeMask_walker_bits (k : ℕ) : (codeMask 31).getLsbD k = decide (31 ≤ k ∧ k < 64) := by
  rw [codeMask, if_pos rfl, BitVec.getLsbD_signExtend]
  by_cases hk : k < 32
  · by_cases hk' : k = 31
    · subst hk'
      decide
    · simp [hk, hk', show ¬ 31 ≤ k by omega]
  · have hmsb : (BitVec.twoPow 32 31).msb = true := by decide
    simp [hk, hmsb, show 31 ≤ k by omega]

/-- So bit 31 is found in every word that has it or a higher one. -/
theorem codeMask_walker (word : BitVec 64) :
    (word &&& codeMask 31 != 0) = decide (2 ^ 31 ≤ word.toNat) := by
  have hzero : word &&& codeMask 31 = 0 ↔ word >>> 31 = 0 := by
    constructor
    · intro h
      apply BitVec.eq_of_getLsbD_eq
      intro k _
      have hbit := congrArg (fun w : BitVec 64 => w.getLsbD (31 + k)) h
      simp only [BitVec.getLsbD_and, codeMask_walker_bits] at hbit
      rw [BitVec.getLsbD_ushiftRight]
      by_cases hk : 31 + k < 64
      · simpa [hk] using hbit
      · simp [BitVec.getLsbD_of_ge word (31 + k) (by omega)]
    · intro h
      apply BitVec.eq_of_getLsbD_eq
      intro k hk
      rw [BitVec.getLsbD_and, codeMask_walker_bits]
      by_cases hlow : 31 ≤ k
      · have hbit := congrArg (fun w : BitVec 64 => w.getLsbD (k - 31)) h
        simp only [BitVec.getLsbD_ushiftRight, Nat.add_sub_of_le hlow] at hbit
        simp [hbit]
      · simp [hlow]
  have hnat : word >>> 31 = 0 ↔ word.toNat < 2 ^ 31 := by
    rw [← BitVec.toNat_inj, BitVec.toNat_ushiftRight, Nat.shiftRight_eq_div_pow]
    show word.toNat / 2 ^ 31 = 0 ↔ word.toNat < 2 ^ 31
    omega
  rw [bne, Bool.eq_iff_iff, Bool.not_eq_true', beq_eq_false_iff_ne, ne_eq, hzero, hnat,
    decide_eq_true_iff]
  omega

def writtenDataSrc (src : BitVec 64) : List String :=
  (dataSrcBits.filter fun l => src &&& codeMask l.2 != 0).map Prod.fst

theorem dataSrcLabels_own {l : String × ℕ} (hl : l ∈ dataSrcBits) :
    dataSrcLabels (.printed (.field .dataSrc) .fp l.1 []) = [l.1] :=
  if_pos ⟨rfl, List.mem_map_of_mem hl⟩

theorem printDataSrc_labels (src : BitVec 64) :
    Says dataSrcLabels (printDataSrc src) (writtenDataSrc src) := by
  have hlabel : ∀ l : BitVec 64 × String,
      Says dataSrcLabels (optionally (src &&& l.1 != 0) (fprintf (.field .dataSrc) l.2 []))
        (if src &&& l.1 != 0 then dataSrcLabels (.printed (.field .dataSrc) .fp l.2 [])
          else []) := by
    intro l
    cases src &&& l.1 != 0 with
    | false => exact Says.ret
    | true => exact Says.emit _
  have hstart :
      Says dataSrcLabels (optionally (src != 0) (fprintf (.field .dataSrc) "\t\t" [])) [] := by
    cases src != 0 with
    | false => exact Says.ret
    | true => exact Says.emit _
  have hrun := hstart.skip (Says.forM_flatMap memLabels _ hlabel)
  have hnames : memLabels.flatMap (fun l => if src &&& l.1 != 0 then
      dataSrcLabels (.printed (.field .dataSrc) .fp l.2 []) else []) = writtenDataSrc src := by
    rw [writtenDataSrc, names_flatMap, memLabels_eq, List.flatMap_map]
    apply List.flatMap_congr
    intro l hl
    rw [dataSrcLabels_own hl]
  exact hnames ▸ hrun

theorem sampleDataSrc_labels (hquiet : c.quiet = false) (src : BitVec 64) :
    Decodes 64 dataSrcLabels (sampleDataSrc c) (le64 src) () (writtenDataSrc src) := by
  have hline : Says dataSrcLabels (fprintf (.field .dataSrc) "\n" []) [] := Says.emit _
  have hraw : Says dataSrcLabels (fprintf (.field .dataSrc)
      "\tPERF_SAMPLE_DATA_SRC, Raw: %llx\n" [.long src]) [] := Says.emit _
  have hskip := Says.after (decodes_skip 64 8 (le64 src ++ []) (by simp))
    ((says_unlessQuiet hquiet (printDataSrc_labels src)).bind (says_unlessQuiet hquiet hline))
  have hprint := (says_unlessQuiet hquiet hraw).before hskip
  exact (Decodes.peek64 hprint).congr (List.append_nil _) (by simp)

/-- A text that is no label of a branch. -/
theorem unlabelled (format : String) (args : List Arg)
    (hformat : ¬ (format ∈ branchBits.map Prod.fst ∨ format = "\n")) :
    Says branchLabels (fprintf (.field .branchStack) format args) [] := by
  have hsilent : branchLabels (.printed (.field .branchStack) .fp format args) = [] :=
    if_neg fun h => hformat h.2
  exact hsilent ▸ Says.emit _

/-- The code clears the bit of the second label when it writes the first. -/
def branchShown (flags : BitVec 64) (l : String × ℕ) : Bool :=
  flags.getLsbD l.2 && !(l.2 == 1 && flags.getLsbD 0)

def writtenBranch (flags : BitVec 64) : List String :=
  (branchBits.filter (branchShown flags)).map Prod.fst

/-- A bit of a word of which another one has been cleared if `b`. -/
theorem cleared_bit (word : BitVec 64) (b : Bool) (j k : ℕ) (hk : k < 64) :
    (if b then word &&& ~~~BitVec.twoPow 64 j else word).getLsbD k =
      (word.getLsbD k && !(b && decide (k = j))) := by
  cases b with
  | false => simp
  | true =>
    rw [if_pos rfl, BitVec.getLsbD_and, BitVec.getLsbD_not, BitVec.getLsbD_twoPow,
      decide_eq_true hk]
    by_cases hjk : j = k
    · subst hjk
      simp [hk]
    · simp [hjk, Ne.symm hjk]

/-- The tests for the labels, each on what those in front of it have left. -/
theorem branch_tests (flags : BitVec 64) :
    let flags₁ := if flags &&& 1 != 0 then flags &&& ~~~2 else flags
    let flags₂ := if flags₁ &&& 2 != 0 then flags₁ &&& ~~~2 else flags₁
    let flags₃ := if flags₂ &&& 4 != 0 then flags₂ &&& ~~~4 else flags₂
    (flags &&& 1 != 0) = flags.getLsbD 0 ∧
      (flags₁ &&& 2 != 0) = (flags.getLsbD 1 && !flags.getLsbD 0) ∧
      (flags₂ &&& 4 != 0) = flags.getLsbD 2 ∧ (flags₃ &&& 8 != 0) = flags.getLsbD 3 := by
  have hone : (1 : BitVec 64) = BitVec.twoPow 64 0 := by decide
  have htwo : (2 : BitVec 64) = BitVec.twoPow 64 1 := by decide
  have hfour : (4 : BitVec 64) = BitVec.twoPow 64 2 := by decide
  have height : (8 : BitVec 64) = BitVec.twoPow 64 3 := by decide
  intro flags₁ flags₂ flags₃
  have h₁ : ∀ k < 64, flags₁.getLsbD k =
      (flags.getLsbD k && !(flags &&& 1 != 0 && decide (k = 1))) := by
    intro k hk
    simp only [flags₁, htwo]
    exact cleared_bit flags _ 1 k hk
  have h₂ : ∀ k < 64, flags₂.getLsbD k =
      (flags₁.getLsbD k && !(flags₁ &&& 2 != 0 && decide (k = 1))) := by
    intro k hk
    simp only [flags₂, htwo]
    exact cleared_bit flags₁ _ 1 k hk
  have h₃ : ∀ k < 64, flags₃.getLsbD k =
      (flags₂.getLsbD k && !(flags₂ &&& 4 != 0 && decide (k = 2))) := by
    intro k hk
    simp only [flags₃, hfour]
    exact cleared_bit flags₂ _ 2 k hk
  have ht : (flags &&& 1 != 0) = flags.getLsbD 0 := hone ▸ mask_test flags 0 (by omega)
  have ht₁ : (flags₁ &&& 2 != 0) = flags₁.getLsbD 1 := htwo ▸ mask_test flags₁ 1 (by omega)
  have ht₂ : (flags₂ &&& 4 != 0) = flags₂.getLsbD 2 := hfour ▸ mask_test flags₂ 2 (by omega)
  have ht₃ : (flags₃ &&& 8 != 0) = flags₃.getLsbD 3 := height ▸ mask_test flags₃ 3 (by omega)
  refine ⟨ht, ?_, ?_, ?_⟩
  · rw [ht₁, h₁ 1 (by omega), ht]
    simp
  · rw [ht₂, h₂ 2 (by omega), h₁ 2 (by omega)]
    simp
  · rw [ht₃, h₃ 3 (by omega), h₂ 3 (by omega), h₁ 3 (by omega)]
    simp

/-- One label, from the test for it. -/
theorem branchLabel_prints {b b' : Bool} (h : b = b') (text : String) :
    Says branchLabels (optionally b (fprintf (.field .branchStack) text []))
      (if b' then branchLabels (.printed (.field .branchStack) .fp text []) else []) := by
  subst h
  cases b with
  | false => exact Says.ret
  | true => exact Says.emit _

theorem branchFlags_labels (flags : BitVec 64) :
    Says branchLabels (branchFlags flags) (writtenBranch flags ++ ["\n"]) := by
  obtain ⟨hmiss, hpredicted, htx, habort⟩ := branch_tests flags
  have hend : Says branchLabels (fprintf (.field .branchStack) "\n" []) ["\n"] := Says.emit _
  have hwritten : writtenBranch flags =
      (if flags == 0 then branchLabels (.printed (.field .branchStack) .fp "0" []) else []) ++
      (if flags.getLsbD 0 then ["MISPREDICTED "] else []) ++
      (if flags.getLsbD 1 && !flags.getLsbD 0 then ["PREDICTED "] else []) ++
      (if flags.getLsbD 2 then ["IN_TRANSACTION "] else []) ++
      (if flags.getLsbD 3 then ["TRANSACTION_ABORT "] else []) := by
    have hzero : branchLabels (.printed (.field .branchStack) .fp "0" []) = [] := by decide
    rw [hzero, ite_self, List.nil_append, writtenBranch, names_flatMap]
    simp [branchBits, branchShown]
  rw [hwritten]
  simp only [List.append_assoc]
  exact (branchLabel_prints rfl _).bind ((branchLabel_prints hmiss _).bind
    ((branchLabel_prints hpredicted _).bind ((branchLabel_prints htx _).bind
      ((branchLabel_prints habort _).bind hend))))

def writtenEntry (e : BranchEntry) : List String := writtenBranch e.flags ++ ["\n"]

def documentedEntry (e : BranchEntry) : List String := documented branchBits e.flags ++ ["\n"]

theorem checkBranch_unlabelled (source : BitVec 64) :
    Says branchLabels (checkBranch c source) [] := by
  unfold checkBranch
  cases c.validate with
  | none => exact Says.ret
  | some v =>
    simp only [optionally]
    cases belowLow c.arch source v.branchLow with
    | false => exact Says.ret
    | true => exact Says.emit _

theorem branchEntry_labels (hquiet : c.quiet = false) (i : ℕ) (e : BranchEntry) :
    Decodes 64 branchLabels (branchEntry c i) e.bytes () (writtenEntry e) := by
  have hflags := Says.after (decodes_skip 64 8 (le64 e.flags ++ []) (by simp))
    (says_unlessQuiet hquiet (branchFlags_labels e.flags))
  have hprint := (says_unlessQuiet hquiet (unlabelled "\t\t lbr[%d]: %llx %llx "
    [.index i, .long e.source, .long e.target] (by decide))).before
    (Decodes.peek64 (g := fun flags => do advance 8; unlessQuiet c (branchFlags flags)) hflags)
  have htarget := (decodes_skip 64 8 (le64 e.target) (by simp)).next hprint
  have hcheck := (checkBranch_unlabelled (c := c) e.source).before
    (Decodes.peek64 (g := fun target => do
      advance 8
      unlessQuiet c (fprintf (.field .branchStack) "\t\t lbr[%d]: %llx %llx "
        [.index i, .long e.source, .long target])
      let flags ← load64 0
      advance 8
      unlessQuiet c (branchFlags flags)) htarget)
  have hsource := (decodes_skip 64 8 (le64 e.source) (by simp)).next hcheck
  exact (Decodes.peek64 hsource).congr (by simp [BranchEntry.bytes]) (by simp [writtenEntry])

def branchBlock (lbr : List BranchEntry) : List Byte :=
  le64 (BitVec.ofNat 64 lbr.length) ++ lbr.flatMap BranchEntry.bytes

theorem entries_length (lbr : List BranchEntry) :
    (branchBlock lbr).length = 8 + 24 * lbr.length := by
  have hentry : ∀ e : BranchEntry, e.bytes.length = 24 := by
    intro e
    simp [BranchEntry.bytes, wordsBytes]
  have hall : (lbr.flatMap BranchEntry.bytes).length = 24 * lbr.length := by
    induction lbr with
    | nil => rfl
    | cons e rest ih =>
      rw [List.flatMap_cons, List.length_append, hentry, ih, List.length_cons]
      omega
  rw [branchBlock, List.length_append, le64_length, hall]

theorem sampleBranchStack_labels (hquiet : c.quiet = false) (lbr : List BranchEntry)
    (hlen : lbr.length ≤ intMax) :
    Decodes 64 branchLabels (sampleBranchStack c) (branchBlock lbr) ()
      (lbr.flatMap writtenEntry) := by
  have hloop := Decodes.intLoop (w := 64) lbr hlen (fun k e _ => branchEntry_labels hquiet k e)
  have hskip := (decodes_skip 64 8 (le64 (BitVec.ofNat 64 lbr.length)) (by simp)).next hloop
  have hprint := (says_unlessQuiet hquiet (unlabelled
    "\tPERF_SAMPLE_BRANCH_STACK, branch_stack entries: %lld\n"
    [.long (BitVec.ofNat 64 lbr.length)] (by decide))).before hskip
  have hcount : (BitVec.ofNat 64 lbr.length).toInt = lbr.length :=
    toInt_length (by unfold intMax at hlen; omega)
  rw [← hcount] at hprint
  exact Decodes.peek64 hprint

end PapiSample.BitLabels
