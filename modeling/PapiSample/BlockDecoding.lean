import PapiSample.ReadTexts

/-!
The blocks with counted loops: read_format blocks, callchains, raw bytes, branch
stacks, register dumps and user stacks. Every block decodes the documented layout
of its own field.
-/
namespace PapiSample.BlockDecoding

open Bytes Cursor Cursor.Prog PerfEvent ParseRecord SampleFields Report FieldDecoding

variable {c : Config}

/-- handle_struct_read_format reports a block of its format, word by word. -/
theorem handleStructReadFormat_decodes (hq : c.quiet = false) (v : ReadValues)
    (hbytes : (wordsBytes (v.words c.readFormat)).length < recordLimit) :
    Decodes 32 reported (handleStructReadFormat c) (wordsBytes (v.words c.readFormat)) ()
      (atSite (.field .read) ((v.words c.readFormat).map .long)) := by
  have htexts := ReadTexts.handleStructReadFormat_decodes c v
    (by unfold recordLimit at hbytes; omega)
  have hwords := ReadTexts.blockTexts_observed c reported
    (fun word => (Site.field .read, Value.long word)) (fun _ _ => rfl) rfl (fun _ _ => rfl) hq v
  refine (htexts.observe reported).congr rfl ?_
  rw [hwords, atSite, List.map_map]
  rfl

theorem sampleRead_decodes (hq : c.quiet = false) (v : ReadValues)
    (hlen : (wordsBytes (v.words c.readFormat)).length < recordLimit) :
    Decodes 64 reported (sampleRead c) (wordsBytes (v.words c.readFormat)) ()
      (atSite (.field .read) ((v.words c.readFormat).map .long)) := by
  intro mem off hold room
  have hbytes := (handleStructReadFormat_decodes hq v hlen).subview hold
    (by unfold recordLimit at hlen; omega)
  have hline := says_unlessQuiet hq
    (says_text (.field .read) "\tPERF_SAMPLE_READ, read_format\n" rfl rfl) mem off
  have hskip := decodes_advance _ (wordsBytes (v.words c.readFormat)) rfl mem off hold room
  have hguard : Consumes reported
      (if (0 : ℤ) ≤ ((wordsBytes (v.words c.readFormat)).length : ℤ)
        then advance ((wordsBytes (v.words c.readFormat)).length : ℤ) else pure ())
      mem off (wordsBytes (v.words c.readFormat)).length () [] := by
    rw [if_pos (by omega)]
    exact hskip
  have hrun : Consumes reported (sampleRead c) mem off (wordsBytes (v.words c.readFormat)).length ()
      ([] ++ (atSite (.field .read) ((v.words c.readFormat).map .long) ++ [])) :=
    hline.seq (hbytes.seq hguard)
  simpa using hrun

theorem callchainEntry_decodes (hq : c.quiet = false) (i : ℕ) (ip : BitVec 64) :
    Decodes 64 reported (callchainEntry c i) (le64 ip) ()
      (atSite (.field .callchain) [.long ip]) := by
  have hprint := says_unlessQuiet hq
    (says_fprintf (.field .callchain) "\t\t ip[%d]: %llx\n" [.index i, .long ip] rfl)
  have hbody := hprint.before (decodes_advance 8 (le64 ip ++ []) (by simp))
  exact (Decodes.peek64 hbody).congr (List.append_nil _) (List.append_nil _)

theorem sampleCallchain_decodes (hq : c.quiet = false) (ips : List (BitVec 64))
    (hlen : ips.length < recordLimit) :
    Decodes 64 reported (sampleCallchain c)
      (le64 (BitVec.ofNat 64 ips.length) ++ wordsBytes ips) ()
      (atSite (.field .callchain) (.long (BitVec.ofNat 64 ips.length) :: ips.map .long)) := by
  have hloop := Decodes.intLoop (w := 64) ips (limit_le_intMax _ hlen)
    (fun k ip _ => callchainEntry_decodes hq k ip)
  have hskip := (decodes_advance 8 (le64 (BitVec.ofNat 64 ips.length)) (by simp)).next hloop
  have hprint := (says_unlessQuiet hq (says_fprintf (.field .callchain)
    "\tPERF_SAMPLE_CALLCHAIN, callchain length: %lld\n"
    [.long (BitVec.ofNat 64 ips.length)] rfl)).before hskip
  rw [← count_toInt ips.length hlen] at hprint
  have hips : ips.flatMap (fun ip => atSite (.field .callchain) [.long ip]) =
      atSite (.field .callchain) (ips.map .long) := by
    rw [atSite, List.map_map, List.map_eq_flatMap]
    rfl
  rw [hips] at hprint
  exact (Decodes.peek64 hprint).congr rfl (by simp [atSite, callValues, argValue])

theorem says_branchFlags (flags : BitVec 64) : Says reported (branchFlags flags) [] := by
  have htext : ∀ format, Says reported (fprintf (.field .branchStack) format []) [] :=
    fun format => says_text (.field .branchStack) format rfl rfl
  exact (says_optionally _ (htext _)).bind ((says_optionally _ (htext _)).bind
    ((says_optionally _ (htext _)).bind ((says_optionally _ (htext _)).bind
      ((says_optionally _ (htext _)).bind (htext _)))))

theorem branchEntry_decodes (hq : c.quiet = false) (i : ℕ) (e : BranchEntry) :
    Decodes 64 reported (branchEntry c i) e.bytes ()
      (atSite (.field .branchStack) [.long e.source, .long e.target]) := by
  have hflags := Says.after (decodes_advance 8 (le64 e.flags ++ []) (by simp))
    (says_unlessQuiet hq (says_branchFlags e.flags))
  have hprint := (says_unlessQuiet hq (says_fprintf (.field .branchStack)
    "\t\t lbr[%d]: %llx %llx " [.index i, .long e.source, .long e.target] rfl)).before
    (Decodes.peek64 (g := fun flags => do advance 8; unlessQuiet c (branchFlags flags)) hflags)
  have htarget := (decodes_advance 8 (le64 e.target) (by simp)).next hprint
  have hcheck := (says_checkBranch (c := c) e.source).before
    (Decodes.peek64 (g := fun target => do
      advance 8
      unlessQuiet c (fprintf (.field .branchStack) "\t\t lbr[%d]: %llx %llx "
        [.index i, .long e.source, .long target])
      let flags ← load64 0
      advance 8
      unlessQuiet c (branchFlags flags)) htarget)
  have hsource := (decodes_advance 8 (le64 e.source) (by simp)).next hcheck
  exact (Decodes.peek64 hsource).congr (by simp [BranchEntry.bytes])
    (by simp [atSite, callValues, argValue])

theorem sampleBranchStack_decodes (hq : c.quiet = false) (lbr : List BranchEntry)
    (hlen : lbr.length < recordLimit) :
    Decodes 64 reported (sampleBranchStack c)
      (le64 (BitVec.ofNat 64 lbr.length) ++ lbr.flatMap BranchEntry.bytes) ()
      (atSite (.field .branchStack) (.long (BitVec.ofNat 64 lbr.length) ::
        lbr.flatMap fun e => [.long e.source, .long e.target])) := by
  have hloop := Decodes.intLoop (w := 64) lbr (limit_le_intMax _ hlen)
    (fun k e _ => branchEntry_decodes hq k e)
  have hskip := (decodes_advance 8 (le64 (BitVec.ofNat 64 lbr.length)) (by simp)).next hloop
  have hprint := (says_unlessQuiet hq (says_fprintf (.field .branchStack)
    "\tPERF_SAMPLE_BRANCH_STACK, branch_stack entries: %lld\n"
    [.long (BitVec.ofNat 64 lbr.length)] rfl)).before hskip
  rw [← count_toInt lbr.length hlen] at hprint
  exact (Decodes.peek64 hprint).congr rfl
    (by simp [atSite, callValues, argValue, List.map_flatMap])

/-- The raw bytes are printed in place, in order. -/
theorem rawBytes_say (bytes : List Byte) (mem : Memory) (off : ℤ) (i : ℕ)
    (hold : Holds mem (off + i) bytes) :
    Consumes reported (repeatFrom i bytes.length rawByte) mem off 0 ()
      (atSite (.field .raw) (bytes.map fun b => .int (b.setWidth 32))) := by
  induction bytes generalizing i with
  | nil => exact Consumes.ret ()
  | cons b rest ih =>
    obtain ⟨hb, hrest⟩ := (holds_cons ..).mp hold
    have hload : Consumes reported (loadByte i) mem off 0 b [] := by
      constructor
      · simp [loadByte, hb]
      · rfl
    have hprint := says_fprintf (.field .raw) "%d " [.int (b.setWidth 32)] rfl mem off
    have htail := ih (i + 1) (by simpa [Int.add_assoc] using hrest)
    exact (hload.seq (f := fun b => fprintf (.field .raw) "%d " [.int (b.setWidth 32)])
      hprint).next htail

theorem sampleRaw_decodes (hq : c.quiet = false) (hfetch : c.rawType ≠ RAW_IBS_FETCH)
    (hop : c.rawType ≠ RAW_IBS_OP) (raw : List Byte) (hlen : raw.length < recordLimit) :
    Decodes 64 reported (sampleRaw c) (le32 (BitVec.ofNat 32 raw.length) ++ raw) ()
      (atSite (.field .raw) (.int (BitVec.ofNat 32 raw.length) ::
        raw.map fun b => .int (b.setWidth 32))) := by
  have htext : ∀ format, Says reported (fprintf (.field .raw) format []) [] :=
    fun format => says_text (.field .raw) format rfl rfl
  have hpayload : ∀ mem off, Holds mem off raw →
      Consumes reported (unlessQuiet c (rawPayload c raw.length)) mem off 0 ()
        (atSite (.field .raw) (raw.map fun b => .int (b.setWidth 32))) := by
    intro mem off hold
    have hloop := rawBytes_say raw mem off 0 (by simpa using hold)
    have hcount : intLoop 1 (raw.length : ℤ) rawByte = repeatFrom 0 raw.length rawByte := by
      simp [intLoop, limit_le_intMax _ hlen]
    have hrun := (htext "\t\t" mem off).next (hloop.next (htext "\n" mem off))
    rw [← hcount] at hrun
    simpa [unlessQuiet, hq, rawPayload, hfetch, hop] using hrun
  have hbody : Decodes 64 reported
      (do unlessQuiet c (rawPayload c raw.length); advance raw.length) raw ()
      (atSite (.field .raw) (raw.map fun b => .int (b.setWidth 32))) := by
    intro mem off hold room
    have hrun := (hpayload mem off hold).next
      (decodes_advance raw.length raw rfl mem off hold room)
    simpa using hrun
  have hskip := (decodes_advance 4 (le32 (BitVec.ofNat 32 raw.length)) (by simp)).next hbody
  have hprint := (says_unlessQuiet hq (says_fprintf (.field .raw)
    "\tPERF_SAMPLE_RAW, Raw length: %d\n" [.int (BitVec.ofNat 32 raw.length)] rfl)).before hskip
  rw [← count32_toInt raw.length hlen] at hprint
  exact (Decodes.peek32 hprint).congr rfl (by simp [atSite, callValues, argValue])

end PapiSample.BlockDecoding
