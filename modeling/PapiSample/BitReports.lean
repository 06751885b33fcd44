import PapiSample.BitLabels

/-!
The labels a run writes for a data source and for a branch stack are those of the
bits that are set, as long as no bit is taken for another one and no flag hides
the one behind it.
-/
namespace PapiSample.BitReports

open Bytes Cursor Cursor.Prog PerfEvent ParseRecord SampleFields FieldDecoding BitLabels

variable {c : Config}

theorem bit31 (src : BitVec 64) : src.getLsbD 31 = decide (src.toNat / 2 ^ 31 % 2 = 1) := by
  rw [BitVec.getLsbD, Nat.testBit_eq_decide_div_mod_eq]

/-- Every bit that is set is found. -/
theorem codeMask_finds (src : BitVec 64) (k : ℕ) (hset : src.getLsbD k = true) :
    (src &&& codeMask k != 0) = true := by
  have hk : k < 64 := BitVec.lt_of_getLsbD hset
  by_cases hwalker : k = 31
  · subst hwalker
    rw [bit31, decide_eq_true_iff] at hset
    rw [codeMask_walker, decide_eq_true_iff]
    omega
  · rw [codeMask, if_neg hwalker, mask_test src k hk, hset]

theorem writtenDataSrc_iff (src : BitVec 64) :
    writtenDataSrc src = documented dataSrcBits src ↔
      src.toNat < 2 ^ 32 ∨ src.getLsbD 31 = true := by
  have hwalker : (2 ^ 31 ≤ src.toNat → src.getLsbD 31 = true) ↔
      src.toNat < 2 ^ 32 ∨ src.getLsbD 31 = true := by
    rw [bit31, decide_eq_true_iff]
    omega
  rw [eq_comm, writtenDataSrc, documented,
    names_eq_iff dataSrcBits fun l hl => codeMask_finds src l.2 hl, ← hwalker]
  constructor
  · intro h hlarge
    have hin : ("Hardware walker ", 31) ∈ dataSrcBits := by decide
    apply h _ hin
    rw [codeMask_walker, decide_eq_true hlarge]
  · intro h l hl hwritten
    have hbits : ∀ l ∈ dataSrcBits, l.2 < 64 := by decide
    by_cases hk : l.2 = 31
    · rw [hk, codeMask_walker, decide_eq_true_iff] at hwritten
      rw [hk]
      exact h hwritten
    · rwa [codeMask, if_neg hk, mask_test src l.2 (hbits l hl)] at hwritten

/-- Nothing is written but what is documented. -/
theorem branchShown_set (flags : BitVec 64) (l : String × ℕ) (h : branchShown flags l = true) :
    flags.getLsbD l.2 = true := (Bool.and_eq_true_iff.mp h).1

theorem writtenEntry_iff (e : BranchEntry) :
    writtenEntry e = documentedEntry e ↔
      ¬ (e.flags.getLsbD 0 = true ∧ e.flags.getLsbD 1 = true) := by
  unfold writtenEntry documentedEntry
  rw [List.append_left_inj, writtenBranch, documented,
    names_eq_iff branchBits (branchShown_set e.flags)]
  constructor
  · rintro h ⟨hmiss, hpredicted⟩
    have hin : ("PREDICTED ", 1) ∈ branchBits := by decide
    have hshown := (Bool.and_eq_true_iff.mp (h _ hin hpredicted)).2
    rw [hmiss] at hshown
    contradiction
  · intro h l _ hset
    unfold branchShown
    rw [hset, Bool.true_and, Bool.not_eq_true', Bool.and_eq_false_iff]
    by_cases hk : l.2 = 1
    · right
      rw [hk] at hset
      exact Bool.eq_false_iff.mpr fun hmiss => h ⟨hmiss, hset⟩
    · left
      simpa using hk

theorem writtenEntry_length (e : BranchEntry) :
    (writtenEntry e).length ≤ (documentedEntry e).length := by
  have hsub := (List.monotone_filter_right branchBits (branchShown_set e.flags)).length_le
  simp only [writtenEntry, documentedEntry, writtenBranch, documented, List.length_append,
    List.length_map]
  omega

/-- The labels a sample reports are the documented ones. -/
structure FaithfulReports (c : Config) (src : BitVec 64) (lbr : List BranchEntry) (mem : Memory)
    (off off' : ℤ) : Prop where
  dataSrc : seen dataSrcLabels (sampleBlock c .dataSrc mem off).log = documented dataSrcBits src
  branches : seen branchLabels (sampleBlock c .branchStack mem off').log =
    lbr.flatMap documentedEntry

/-- Wherever the two fields lie in the data buffer, their labels are right
exactly if no bit above 31 stands in for bit 31 and no entry is marked as both
mispredicted and predicted. -/
theorem faithfulReports_iff (c : Config) (hquiet : c.quiet = false) (src : BitVec 64)
    (lbr : List BranchEntry) (mem : Memory) (off off' : ℤ) (hoff : 0 ≤ off)
    (hend : off + (le64 src).length < 2 ^ 31) (hsrc : Holds mem off (le64 src)) (hoff' : 0 ≤ off')
    (hend' : off' + (branchBlock lbr).length < 2 ^ 31) (hlbr : Holds mem off' (branchBlock lbr)) :
    FaithfulReports c src lbr mem off off' ↔
      (src.toNat < 2 ^ 32 ∨ src.getLsbD 31 = true) ∧
        ∀ e ∈ lbr, ¬ (e.flags.getLsbD 0 = true ∧ e.flags.getLsbD 1 = true) := by
  have hlen := entries_length lbr
  have hroom : Room 64 off (le64 src).length := room_of_nonneg hoff (by omega)
  have hroom' : Room 64 off' (branchBlock lbr).length := room_of_nonneg hoff' (by omega)
  have hcount : lbr.length ≤ intMax := by
    unfold intMax
    omega
  have hdata := (sampleDataSrc_labels hquiet src mem off hsrc hroom).shows
  have hbranch := (sampleBranchStack_labels hquiet lbr hcount mem off' hlbr hroom').shows
  have hentries : lbr.flatMap writtenEntry = lbr.flatMap documentedEntry ↔
      ∀ e ∈ lbr, ¬ (e.flags.getLsbD 0 = true ∧ e.flags.getLsbD 1 = true) := by
    rw [flatMap_eq_iff lbr writtenEntry_length]
    exact forall₂_congr fun e _ => writtenEntry_iff e
  rw [← writtenDataSrc_iff, ← hentries, ← hdata, ← hbranch]
  constructor
  · intro h
    exact ⟨h.dataSrc, h.branches⟩
  · rintro ⟨hwritten, hwritten'⟩
    exact ⟨hwritten, hwritten'⟩

def labelConfig : Config where
  arch := .x86_64
  sampleType := 0x8800
  readFormat := 0
  regMask := 0
  validate := none
  quiet := false
  rawType := RAW_NONE
  heap := fun _ => 0

def labelData (src : BitVec 64) (lbr : List BranchEntry) : Memory :=
  overlay (le64 src ++ branchBlock lbr) fun _ => 0

theorem labelData_holds (src : BitVec 64) (lbr : List BranchEntry) :
    Holds (labelData src lbr) 0 (le64 src) ∧ Holds (labelData src lbr) 8 (branchBlock lbr) := by
  have h := (holds_append ..).mp (holds_overlay (le64 src ++ branchBlock lbr) fun _ => 0)
  rwa [le64_length] at h

/-- A load that hit the first level cache, and two branches. -/
theorem faithfulReports_load :
    FaithfulReports labelConfig 0x142 [⟨16, 32, 1⟩, ⟨32, 48, 6⟩]
      (labelData 0x142 [⟨16, 32, 1⟩, ⟨32, 48, 6⟩]) 0 8 :=
  (faithfulReports_iff labelConfig rfl 0x142 [⟨16, 32, 1⟩, ⟨32, 48, 6⟩] _ 0 8 (by omega) (by decide)
    (labelData_holds ..).1 (by omega) (by decide) (labelData_holds ..).2).mpr
    ⟨.inl (by decide), by decide⟩

/-- A level number, which lies above bit 32, reads as the hardware walker, and a
branch with the two lowest flags as one that was not predicted. -/
theorem labels_misreported :
    ¬ FaithfulReports labelConfig 0x200000000 [] (labelData 0x200000000 []) 0 8 ∧
      ¬ FaithfulReports labelConfig 0 [⟨16, 32, 3⟩] (labelData 0 [⟨16, 32, 3⟩]) 0 8 := by
  constructor
  · intro h
    have hrun := sampleDataSrc_labels (c := labelConfig) rfl 0x200000000
      (labelData 0x200000000 []) 0
      (labelData_holds ..).1 ⟨by omega, by decide⟩
    have hwritten := (writtenDataSrc_iff _).mp (hrun.shows.symm.trans h.dataSrc)
    contradiction
  · intro h
    have hrun := sampleBranchStack_labels (c := labelConfig) rfl [⟨16, 32, 3⟩] (by decide)
      (labelData 0 [⟨16, 32, 3⟩]) 8 (labelData_holds ..).2 ⟨by omega, by decide⟩
    have hwritten := (flatMap_eq_iff _ writtenEntry_length).mp (hrun.shows.symm.trans h.branches)
    have hentry := (writtenEntry_iff _).mp (hwritten _ List.mem_cons_self)
    contradiction

end PapiSample.BitReports
