import PapiSample.Advance

/-!
The dump of a user stack. The loop counts bytes and takes its counter for an
index of words, so from the second word on it looks four times as far into the
copy as it should: what it prints is the used stack only as long as this has one
word, and behind the copy it reads whatever the heap holds.
-/
namespace PapiSample.StackDump

open Bytes Cursor Cursor.Prog PerfEvent ParseRecord SampleFields FieldDecoding Advance

variable {c : Config} {R : Type} {obs : Out → List R}

def stackBlock (stack : List Byte) (dynSize : BitVec 64) : List Byte :=
  le64 (BitVec.ofNat 64 stack.length) ++ stack ++ le64 dynSize

def stackWordAt (stack : List Byte) (pos : ℤ) : BitVec 32 := word32 (overlay stack fun _ => 0) pos

def usedWords (stack : List Byte) (dynSize : ℤ) : List (BitVec 32) :=
  (List.range ((dynSize.toNat + 3) / 4)).map fun i : ℕ => stackWordAt stack (4 * i)

structure CopyLoad where
  pos : ℤ
  len : ℤ
  size : ℤ

def CopyLoad.Inside (l : CopyLoad) : Prop := 0 ≤ l.pos ∧ l.pos + l.len ≤ l.size

def copyLoads : Out → List CopyLoad
  | .heapLoad pos len size => [⟨pos, len, size⟩]
  | _ => []

def intArgs : Arg → List (BitVec 32)
  | .int v => [v]
  | _ => []

def printedWords : Out → List (BitVec 32)
  | .printed site _ _ args => if site = .stackWords then args.flatMap intArgs else []
  | _ => []

/-- The block ends and shows the words in use, and the loop stays inside the
copy. -/
structure DumpsUsedStack (c : Config) (stack : List Byte) (dynSize : BitVec 64) (mem : Memory)
    (off : ℤ) : Prop where
  ends : (sampleStackUser c mem off).exit.isSome
  shown : seen printedWords (sampleStackUser c mem off).log = usedWords stack dynSize.toInt
  inside : ∀ l ∈ seen copyLoads (sampleStackUser c mem off).log, l.Inside

def dumpStep (obs : Out → List R) (c : Config) (stack : List Byte) (i : ℕ) : List R :=
  obs (.heapLoad (4 * (4 * i)) 4 stack.length) ++
    obs (.printed .stackWords .fp "0x%x " [.int (word32 (overlay stack c.heap) (4 * (4 * i)))])

theorem stackWord_shows (hq : c.quiet = false) (stack : List Byte) (i : ℕ) :
    Says obs (stackWord c stack stack.length i) (dumpStep obs c stack i) := by
  unfold stackWord unlessQuiet
  rw [hq]
  exact (Says.emit _).bind (Says.emit _)

theorem stackTail_shows (hquiet : c.quiet = false) (hdeaf : Deaf (.field .stackUser) obs)
    (stack : List Byte) (dynSize : BitVec 64) (hends : dynSize.toInt ≤ intMax - 3) :
    Decodes 64 obs (stackTail c stack stack.length) (le64 dynSize) ()
      ((List.range ((dynSize.toInt.toNat + 3) / 4)).flatMap (dumpStep obs c stack)) := by
  have htext : ∀ format args,
      Says obs (unlessQuiet c (fprintf (.field .stackUser) format args)) [] :=
    fun format args => Deaf.unlessQuiet (hdeaf.fprintf format args)
  have hloop : Says obs (intLoop 4 dynSize.toInt (stackWord c stack stack.length))
      ((List.range ((dynSize.toInt.toNat + 3) / 4)).flatMap (dumpStep obs c stack)) := by
    unfold intLoop
    rw [if_pos (by unfold intMax at hends ⊢; omega), List.range_eq_range']
    exact Says.repeatFrom_flatMap _ (stackWord_shows hquiet stack) 0 _
  have hskip := Says.after (decodes_skip 64 8 (le64 dynSize ++ []) (by simp))
    ((htext "\t\t" []).skip (hloop.bind (htext "\n" [])))
  have hprint := (htext "\t\tDynamic (used) size: %lld\n" [.long dynSize]).before hskip
  exact (Decodes.peek64 hprint).congr (List.append_nil _) (by simp)

theorem sampleStackUser_shows (hquiet : c.quiet = false) (hdeaf : Deaf (.field .stackUser) obs)
    (halloc : ∀ n, obs (.alloc n) = []) (stack : List Byte) (dynSize : BitVec 64)
    (hlen : stack.length < 2 ^ 63) (hends : dynSize.toInt ≤ intMax - 3) :
    Decodes 64 obs (sampleStackUser c) (stackBlock stack dynSize) ()
      ((List.range ((dynSize.toInt.toNat + 3) / 4)).flatMap (dumpStep obs c stack)) := by
  have hcopy : Decodes 64 obs
      (do
        let stackData ← copyOut stack.length
        advance stack.length
        stackTail c stackData stack.length)
      (stack ++ le64 dynSize) ()
      ((List.range ((dynSize.toInt.toNat + 3) / 4)).flatMap (dumpStep obs c stack)) := by
    intro mem off hold room
    have hstack : Consumes obs (copyOut stack.length) mem off 0 stack [] :=
      consumes_copyOut (halloc stack.length) ((holds_append ..).mp hold).1
    have hmove := ((decodes_skip 64 stack.length stack rfl).next
      (stackTail_shows hquiet hdeaf stack dynSize hends)) mem off hold room
    exact hstack.seq hmove
  have hskip := (decodes_skip 64 8 (le64 (BitVec.ofNat 64 stack.length)) (by simp)).next hcopy
  have hprint := (Deaf.unlessQuiet (c := c) (hdeaf.fprintf
    "\tPERF_SAMPLE_STACK_USER, Requested size: %lld\n"
    [.long (BitVec.ofNat 64 stack.length)])).before hskip
  rw [← toInt_length hlen] at hprint
  exact (Decodes.peek64 hprint).congr (List.append_assoc ..).symm (by simp)

theorem printedWords_run (hquiet : c.quiet = false) {stack : List Byte} {dynSize : BitVec 64}
    (hlen : stack.length < 2 ^ 63) (hends : dynSize.toInt ≤ intMax - 3) {mem : Memory} {off : ℤ}
    (hold : Holds mem off (stackBlock stack dynSize))
    (room : Room 64 off (stackBlock stack dynSize).length) :
    seen printedWords (sampleStackUser c mem off).log =
      (List.range ((dynSize.toInt.toNat + 3) / 4)).map fun i : ℕ =>
        word32 (overlay stack c.heap) (4 * (4 * i)) := by
  have hdeaf : Deaf (.field .stackUser) printedWords := fun _ _ _ => rfl
  have hrun := sampleStackUser_shows hquiet hdeaf (fun _ => rfl) stack dynSize hlen hends mem off
    hold room
  rw [hrun.shows, List.map_eq_flatMap]
  rfl

theorem copyLoads_run (hquiet : c.quiet = false) {stack : List Byte} {dynSize : BitVec 64}
    (hlen : stack.length < 2 ^ 63) (hends : dynSize.toInt ≤ intMax - 3) {mem : Memory} {off : ℤ}
    (hold : Holds mem off (stackBlock stack dynSize))
    (room : Room 64 off (stackBlock stack dynSize).length) :
    seen copyLoads (sampleStackUser c mem off).log =
      (List.range ((dynSize.toInt.toNat + 3) / 4)).map fun i : ℕ =>
        ⟨4 * (4 * i), 4, stack.length⟩ := by
  have hdeaf : Deaf (.field .stackUser) copyLoads := fun _ _ _ => rfl
  have hrun := sampleStackUser_shows hquiet hdeaf (fun _ => rfl) stack dynSize hlen hends mem off
    hold room
  rw [hrun.shows, List.map_eq_flatMap]
  rfl

/-- The block has an end unless its used size outgrows the index of the loop. -/
theorem stackBlock_ends {stack : List Byte} {dynSize : BitVec 64} (hlen : stack.length < 2 ^ 63)
    {mem : Memory} {off : ℤ} (hold : Holds mem off (stackBlock stack dynSize))
    (room : Room 64 off (stackBlock stack dynSize).length) :
    (sampleStackUser c mem off).exit.isSome ↔ dynSize.toInt ≤ intMax - 3 := by
  obtain ⟨hhead, htail⟩ := (holds_append ..).mp hold
  have hsize : countAt mem off = stack.length := by
    have hword := word64_of_holds mem off _ ((holds_append ..).mp hhead).1
    rw [countAt, hword, toInt_length hlen]
  have hpos : moved 64 off (8 + stack.length) =
      off + (le64 (BitVec.ofNat 64 stack.length) ++ stack).length := by
    unfold Room stackBlock at room
    rw [List.length_append, List.length_append, le64_length, le64_length] at room
    push_cast at room
    rw [List.length_append, le64_length, moved, wrap_eq 64 _ (by omega) (by omega)]
    push_cast
    rfl
  have hdyn : countAt mem (moved 64 off (8 + stack.length)) = dynSize.toInt := by
    rw [hpos, countAt, word64_of_holds mem _ dynSize htail]
  rw [exit_sampleStackUser, Option.isSome_map]
  have hnat : (0 : ℤ) ≤ stack.length := by omega
  simp only [fieldLength, hsize, hdyn, hnat, true_and]
  by_cases hn : dynSize.toInt ≤ intMax - 3
  · simp [hn]
  · simp [hn]

/-- Inside the copy the heap behind it is no matter. -/
theorem word_inside (stack : List Byte) (heap : Memory) {pos : ℤ} (hpos : 0 ≤ pos)
    (hend : pos + 4 ≤ stack.length) : word32 (overlay stack heap) pos = stackWordAt stack pos := by
  unfold stackWordAt word32
  rw [readBytes_congr (overlay stack heap) (overlay stack fun _ => 0) pos pos 4]
  intro i hi
  rw [overlay, overlay, if_pos (by omega), if_pos (by omega)]

/-- As far as the stack is in use, the word four times as far is in the copy and
is the same word. -/
def RepeatsWords (stack : List Byte) (dynSize : ℤ) : Prop :=
  dynSize ≤ intMax - 3 ∧ ∀ i : ℕ, 4 * i < dynSize →
    16 * i + 4 ≤ (stack.length : ℤ) ∧ stackWordAt stack (16 * i) = stackWordAt stack (4 * i)

theorem dumps_iff_repeats (hquiet : c.quiet = false) {stack : List Byte} {dynSize : BitVec 64}
    (hlen : stack.length < 2 ^ 63) {mem : Memory} {off : ℤ}
    (hold : Holds mem off (stackBlock stack dynSize))
    (room : Room 64 off (stackBlock stack dynSize).length) :
    DumpsUsedStack c stack dynSize mem off ↔ RepeatsWords stack dynSize.toInt := by
  have hcount : ∀ i : ℕ,
      i ∈ List.range ((dynSize.toInt.toNat + 3) / 4) ↔ 4 * i < dynSize.toInt := by
    intro i
    rw [List.mem_range]
    omega
  have hfour : ∀ i : ℕ, (4 * (4 * i) : ℤ) = 16 * i := by
    intro i
    omega
  constructor
  · rintro ⟨hends, hshown, hinside⟩
    have hdyn := (stackBlock_ends hlen hold room).mp hends
    rw [printedWords_run hquiet hlen hdyn hold room, usedWords, List.map_inj_left] at hshown
    rw [copyLoads_run hquiet hlen hdyn hold room] at hinside
    refine ⟨hdyn, fun i hi => ?_⟩
    have hmem := (hcount i).mpr hi
    have hend := (hinside _ (List.mem_map.mpr ⟨i, hmem, rfl⟩)).2
    have hword := hshown i hmem
    simp only [hfour] at hend hword
    rw [word_inside stack c.heap (by omega) hend] at hword
    exact ⟨hend, hword⟩
  · rintro ⟨hdyn, hwords⟩
    refine ⟨(stackBlock_ends hlen hold room).mpr hdyn, ?_, ?_⟩
    · rw [printedWords_run hquiet hlen hdyn hold room, usedWords, List.map_inj_left]
      intro i hi
      obtain ⟨hend, hsame⟩ := hwords i ((hcount i).mp hi)
      rw [hfour, word_inside stack c.heap (by omega) hend, hsame]
    · rw [copyLoads_run hquiet hlen hdyn hold room]
      intro l hl
      obtain ⟨i, hi, rfl⟩ := List.mem_map.mp hl
      have hend := (hwords i ((hcount i).mp hi)).1
      show (0 : ℤ) ≤ 4 * (4 * i) ∧ 4 * (4 * i) + 4 ≤ (stack.length : ℤ)
      omega

/-- The dump shows the used stack if this is empty, or one word that the copy
has room for, or one whose words the loop finds four times as far as well. -/
theorem stackDump_iff (c : Config) (hquiet : c.quiet = false) (stack : List Byte)
    (dynSize : BitVec 64) (mem : Memory) (off : ℤ) (hdyn : 0 ≤ dynSize.toInt)
    (hoff : 0 ≤ off) (hend : off + (stackBlock stack dynSize).length < 2 ^ 63)
    (hold : Holds mem off (stackBlock stack dynSize)) :
    DumpsUsedStack c stack dynSize mem off ↔
      dynSize.toInt = 0 ∨ dynSize.toInt ≤ 4 ∧ 4 ≤ stack.length ∨
        4 < dynSize.toInt ∧ RepeatsWords stack dynSize.toInt := by
  have hlength : (stackBlock stack dynSize).length = 16 + stack.length := by
    simp only [stackBlock, List.length_append, le64_length]
    omega
  rw [dumps_iff_repeats hquiet (by omega) hold (room_of_nonneg hoff hend)]
  constructor
  · intro h
    rcases lt_or_ge 4 dynSize.toInt with hlong | hshort
    · exact .inr (.inr ⟨hlong, h⟩)
    · rcases Int.lt_or_eq_of_le hdyn with hpos | hzero
      · have hfirst := (h.2 0 (by omega)).1
        exact .inr (.inl ⟨hshort, by omega⟩)
      · exact .inl hzero.symm
  · intro h
    rcases h with hzero | ⟨hshort, hroom⟩ | ⟨_, h⟩
    · refine ⟨by rw [hzero]; unfold intMax; omega, fun i hi => ?_⟩
      omega
    · refine ⟨by unfold intMax; omega, fun i hi => ?_⟩
      have hi0 : i = 0 := by omega
      subst hi0
      exact ⟨by omega, rfl⟩
    · exact h

def stackConfig : Config where
  arch := .x86_64
  sampleType := 0x2000
  readFormat := 0
  regMask := 0
  validate := none
  quiet := false
  rawType := RAW_NONE
  heap := fun _ => 0

/-- Two equal words in use, on a stack that goes on with them. -/
theorem stackDump_equalWords :
    DumpsUsedStack stackConfig (List.replicate 32 7) 8
      (overlay (stackBlock (List.replicate 32 7) 8) fun _ => 0) 0 := by
  refine (stackDump_iff stackConfig rfl (List.replicate 32 7) 8 _ 0 (by decide) (by omega)
    (by decide) (holds_overlay ..)).mpr (.inr (.inr ⟨by decide, by decide, fun i hi => ?_⟩))
  have hdyn : (8 : BitVec 64).toInt = 8 := by decide
  obtain rfl | rfl : i = 0 ∨ i = 1 := by omega
  · exact ⟨by decide, rfl⟩
  · exact ⟨by decide, by decide⟩

/-- Two words in use: the second one is looked for behind the copy. -/
theorem secondWord_outside :
    ¬ DumpsUsedStack stackConfig [1, 2, 3, 4, 5, 6, 7, 8] 8
      (overlay (stackBlock [1, 2, 3, 4, 5, 6, 7, 8] 8) fun _ => 0) 0 := by
  have hquiet : stackConfig.quiet = false := rfl
  have hold := holds_overlay (stackBlock [1, 2, 3, 4, 5, 6, 7, 8] 8) fun _ => 0
  rw [dumps_iff_repeats hquiet (by decide) hold ⟨by omega, by decide⟩]
  intro h
  have hinside := (h.2 1 (by decide)).1
  contradiction

end PapiSample.StackDump
