import PapiSample.RecordOutputs

/-!
Where the process does not survive an iteration. What is copied out of the data buffer
is the name at the end of a record and the stack in a sample; their lengths are what a
record has left behind its fields, and a word of the sample.
-/
namespace PapiSample.FailedCopies

open Bytes Cursor Cursor.Prog PerfEvent ParseRecord SampleFields RecordLoop Advance RecordAdvance
  Emissions BlockOutputs RecordOutputs

variable {c : Config} {mem : Memory}

/-- The process ends in the iteration that starts at `start`. -/
def Killed (c : Config) (size : ℤ) (mem : Memory) (start : ℤ) : Prop :=
  Event.emit .killed ∈ (iteration c size mem start).log

abbrev Survives (o : Out) : Prop := o ≠ .killed

def StackServed (mem : Memory) (off : ℤ) (f : SampleField) : Prop :=
  f = .stackUser → 0 ≤ countAt mem off

def Served (c : Config) (mem : Memory) (start : ℤ) : Prop :=
  match RecordType.ofCode (word32 mem start) with
  | some .comm => 16 ≤ sizeAt mem start
  | some .mmap => 40 ≤ sizeAt mem start
  | some .mmap2 => 72 ≤ sizeAt mem start
  | some .sample => EachField c mem (StackServed mem) blockOrder (moved 64 start 8)
  | _ => True

theorem survives_permits (site : Site) : Permits Survives site := fun _ _ => nofun

theorem survives_permitsBlock (f : SampleField) (hf : f ≠ .stackUser) :
    PermitsBlock c Survives f := by
  cases f with
  | stackUser => contradiction
  | tid => exact ⟨survives_permits _, fun _ _ => nofun⟩
  | read => exact ⟨survives_permits _, fun _ _ => nofun⟩
  | raw => exact ⟨survives_permits _, fun _ _ _ => nofun⟩
  | branchStack => exact ⟨survives_permits _, fun _ _ => nofun⟩
  | regsUser => exact ⟨(survives_permits _).named, nofun⟩
  | regsIntr => exact ⟨(survives_permits _).named, nofun⟩
  | _ => exact survives_permits _

theorem copyOut_survives_iff (n off : ℤ) : Emits Survives (copyOut n) mem off ↔ 0 ≤ n := by
  unfold copyOut
  rw [emits_after (always_emit nofun) (exit_emit _ mem off)]
  by_cases hn : n < 0
  · rw [if_pos hn]
    refine iff_of_false (fun h => ?_) (by omega)
    exact ((emits_bind ..).mp h).1 .killed (by simp [emit]) rfl
  · rw [if_neg hn]
    exact iff_of_true (always_copy n mem off) (by omega)

theorem sampleStackUser_survives_iff (off : ℤ) :
    Emits Survives (sampleStackUser c) mem off ↔ 0 ≤ countAt mem off := by
  have htail : ∀ size : ℤ, ∀ stackData, Always Survives (do
      advance size
      stackTail c stackData size) := fun size stackData =>
    (always_advance size).bind fun _ =>
      always_stackTail (survives_permits _) (survives_permits _) (fun _ _ _ => nofun) stackData size
  unfold sampleStackUser
  rw [emits_after (always_load64 0) (exit_load64 0 mem off),
    emits_after (always_print (survives_permits _) _ _)
      ((Printing.prints_print _ _ _).exit mem off),
    emits_after (always_advance 8) (exit_advance 8 mem off), emits_before (htail _),
    copyOut_survives_iff, Int.add_zero]
  rfl

theorem sampleBlock_survives_iff (f : SampleField) (off : ℤ) :
    Emits Survives (sampleBlock c f) mem off ↔ StackServed mem off f := by
  by_cases hf : f = .stackUser
  · subst hf
    rw [StackServed, forall_prop_of_true rfl]
    exact sampleStackUser_survives_iff off
  · exact iff_of_true (always_sampleBlock f (survives_permitsBlock f hf) mem off)
      fun h => absurd h hf

/-- A name is copied if the record has room for what is in front of it. -/
theorem named_survives_iff {start head : ℤ} {q : Parser Unit} {format : String}
    (hq : Always Survives q)
    (hexit : (q mem (moved 64 start 8)).exit = some ((), moved 64 start head)) :
    Emits Survives (q >>= fun _ => nameTail c start head format) mem (moved 64 start 8) ↔
      head ≤ sizeAt mem start := by
  have hrest : ∀ (n : ℤ) (string : List Byte), Always Survives (do
      unlessQuiet c (fprintf .details format [.str (string.takeWhile (· != 0))])
      advance n) := fun n _ =>
    (always_print (survives_permits _) _ _).bind fun _ => always_advance n
  have hsize : ((word16 mem (start + 6)).toNat : ℤ) = sizeAt mem start := rfl
  unfold nameTail eventSize
  rw [emits_after hq hexit, emits_after (always_peek16 _) (exit_peek16 _ mem _),
    emits_before (hrest _), copyOut_survives_iff, hsize]
  omega

/-- The case of a record survives if every copy is of some length. -/
theorem details_survives_iff (size start : ℤ) :
    Emits Survives (details c size start (word32 mem start)) mem (moved 64 start 8) ↔
      Served c mem start := by
  have hfixed : RecordType.ofCode (word32 mem start) ≠ some .sample →
      (∀ r ∈ namedTypes, RecordType.ofCode (word32 mem start) ≠ some r) →
      Emits Survives (details c size start (word32 mem start)) mem (moved 64 start 8) :=
    fun hsample hnamed => always_fixedDetails (survives_permits _) size start _ hsample hnamed mem _
  unfold Served
  cases hcode : RecordType.ofCode (word32 mem start) with
  | none =>
    rw [hcode] at hfixed
    exact iff_of_true (hfixed nofun fun _ _ => nofun) trivial
  | some r =>
    cases r with
    | sample =>
      rw [details, hcode]
      exact emits_sampleBlocks sampleBlock_survives_iff blockOrder (by decide) (wrap_moved ..)
    | comm =>
      rw [details, hcode]
      exact named_survives_iff (always_pidTid (survives_permits _))
        (by rw [exit_pidTid, moved_moved]; rfl)
    | mmap =>
      rw [details, hcode]
      exact named_survives_iff (always_mapFields (survives_permits _))
        (by rw [exit_mapFields, moved_moved]; rfl)
    | mmap2 =>
      rw [details, hcode]
      exact named_survives_iff (always_mmap2Fields (survives_permits _))
        (by rw [exit_mmap2Fields, moved_moved]; rfl)
    | _ =>
      rw [hcode] at hfixed
      exact iff_of_true (hfixed (by decide) (by decide)) trivial

/-- The process ends in an iteration exactly if a copy has no length. -/
theorem killed_iff (size start : ℤ) : Killed c size mem start ↔ ¬ Served c mem start := by
  have hemits : Emits Survives (iteration c size) mem start ↔ ¬ Killed c size mem start := by
    constructor
    · exact fun h hkilled => h .killed hkilled rfl
    · rintro h _ ho rfl
      exact h ho
  rw [← not_iff_not, ← hemits, not_not, emits_iteration (survives_permits _)]
  exact details_survives_iff size start

end PapiSample.FailedCopies
