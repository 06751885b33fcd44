import PapiSample.RegisterDecoding

/-!
The raw payload is printed where it stands. Whatever the two IBS dumps make of
it, they leave the cursor alone and print at the site of the raw block only.
-/
namespace PapiSample.RawDumps

open Bytes Cursor Cursor.Prog PerfEvent ParseRecord SampleFields Report FieldDecoding

variable {c : Config} {R : Type} {obs : Out → List R}

theorem flags_say (h : Deaf (.field .raw) obs) (word : BitVec 64) (lines : List (String × ℕ)) :
    Says obs (printFlags word lines) [] :=
  Says.forM lines _ fun _ _ => h.printf _ _

theorem says_msr (h : Deaf (.field .raw) obs) (k : ℕ) (format : String) :
    Says obs (do let v ← loadMsr k; printf (.field .raw) format [.long v]) [] :=
  Says.load64 fun _ => h.printf _ _

theorem says_dumpRawIbsFetch (h : Deaf (.field .raw) obs) (size : ℤ) :
    Says obs (dumpRawIbsFetch size) [] := by
  refine Says.load32 fun leftover => (h.printf _ _).skip (Says.load64 fun control => ?_)
  refine (h.printf _ _).skip ((flags_say h _ _).skip ((h.printf _ _).skip ((h.printf _ _).skip ?_)))
  refine (flags_say h _ _).skip ((h.printf _ _).skip ((h.printf _ _).skip ((h.printf _ _).skip ?_)))
  refine Says.load64 fun linear => (h.printf _ _).skip (Says.load64 fun physical => ?_)
  exact (h.printf _ _).skip (Deaf.optionally _ (says_msr h 3 _))

theorem says_dumpRawIbsOp (h : Deaf (.field .raw) obs) (size : ℤ) :
    Says obs (dumpRawIbsOp size) [] := by
  refine Says.load32 fun leftover => (h.printf _ _).skip (Says.load64 fun control => ?_)
  refine (h.printf _ _).skip ((h.printf _ _).skip ((flags_say h _ _).skip ((h.printf _ _).skip ?_)))
  refine Says.load64 fun logical => (h.printf _ _).skip (Says.load64 fun opData => ?_)
  refine (h.printf _ _).skip ((flags_say h _ _).skip ((h.printf _ _).skip ((h.printf _ _).skip ?_)))
  refine Says.load64 fun opData2 => (h.printf _ _).skip ((h.printf _ _).skip ?_)
  refine (h.printf _ _).skip ((h.printf _ _).skip ((h.printf _ _).skip ?_))
  refine Says.load64 fun opData3 => (h.printf _ _).skip ((h.printf _ _).skip ?_)
  refine (flags_say h _ _).skip ((Deaf.optionally _ (says_msr h 5 _)).skip ?_)
  exact (Deaf.optionally _ (says_msr h 6 _)).skip (Deaf.optionally _ (says_msr h 7 _))

theorem says_rawByte (h : Deaf (.field .raw) obs) (i : ℕ) : Says obs (rawByte i) [] := by
  intro mem off
  have hload : Consumes obs (loadByte i) mem off 0 (mem (off + i)) [] := by
    constructor
    · simp [loadByte]
    · rfl
  exact hload.seq (h.fprintf _ _ mem off)

/-- A 32-bit size never outgrows the index of the byte loop. -/
theorem says_rawPayload (h : Deaf (.field .raw) obs) (size : BitVec 32) :
    Says obs (rawPayload c size.toInt) [] := by
  have hloop : Says obs (intLoop 1 size.toInt rawByte) [] := by
    have hsmall := size.toInt_lt
    unfold intLoop
    rw [if_pos (by unfold intMax; omega)]
    exact Says.repeatFrom rawByte (says_rawByte h) 0 _
  unfold rawPayload
  by_cases hfetch : c.rawType = RAW_IBS_FETCH
  · rw [if_pos hfetch]
    exact says_dumpRawIbsFetch h _
  · rw [if_neg hfetch]
    by_cases hop : c.rawType = RAW_IBS_OP
    · rw [if_pos hop]
      exact says_dumpRawIbsOp h _
    · rw [if_neg hop]
      exact (h.fprintf _ _).skip (hloop.skip (h.fprintf _ _))

/-- For whoever does not look at it, the raw block is a step over its bytes. -/
theorem sampleRaw_skips (h : Deaf (.field .raw) obs) (raw : List Byte)
    (hlen : raw.length < recordLimit) :
    Decodes 64 obs (sampleRaw c) (le32 (BitVec.ofNat 32 raw.length) ++ raw) () [] := by
  have hmove : Decodes 64 obs (advance (raw.length : ℤ)) raw () [] := decodes_skip 64 _ raw rfl
  have hcount := count32_toInt raw.length hlen
  have hpayload := Deaf.unlessQuiet (c := c)
    (says_rawPayload (c := c) h (BitVec.ofNat 32 raw.length))
  rw [hcount] at hpayload
  have hskip : Decodes 64 obs (advance 4) (le32 (BitVec.ofNat 32 raw.length)) () [] :=
    decodes_skip 64 4 _ (by simp)
  have hbody := (Deaf.unlessQuiet (c := c) (h.fprintf "\tPERF_SAMPLE_RAW, Raw length: %d\n"
    [.int (BitVec.ofNat 32 raw.length)])).before (hskip.next (hpayload.before hmove))
  rw [← hcount] at hbody
  exact Decodes.peek32 hbody

end PapiSample.RawDumps
