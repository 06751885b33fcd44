import PapiSample.CharReplace
import PapiSample.TextLines

/-!
gen_defines and gen_list, which turn a list of events into macro names. Both read
LISTOFEVENTS line by line and cut off the last byte of what getline returns: the
newline, but the end of the name on a last line that has none.
-/
namespace PapiSample.HeaderGeneration

open Bytes CString CharReplace TextLines

def dot : Byte := 46
def underscore : Byte := 95

structure Printf where
  format : String
  event : Option (List Byte)
  count : Option ℤ
deriving DecidableEq

def defineLine (event : List Byte) (count : ℤ) : Printf :=
  ⟨"#define PAPI_%s\t%d\n", some event, some count⟩

def listLine (event : List Byte) (_ : ℤ) : Printf := ⟨"PAPI_%s\n", some event, none⟩

/-- The body of the loop up to its printf, on what getline has put into the buffer:
the buffer and `event`. There is none if the store of the NUL misses the buffer. -/
def nextEvent (mem : Memory) (line : List Byte) : Option (Memory × List Byte) :=
  let read := wrap 32 line.length
  if read - 1 < 0 then none
  else
    let cut := Function.update (overlay (line ++ [0]) mem) (read - 1) 0
    (replaceChar cut 0 dot underscore line.length).bind fun r =>
      (stringAt r.mem (line.length + 1) 0).map fun event => (r.mem, event)

/-- The loop over the results of getline; `read` is an `int32_t`, and -1 ends it. -/
def readEvents (print : List Byte → ℤ → Printf) : Memory → ℤ → List (List Byte) →
    Option (List Printf)
  | _, _, [] => some []
  | mem, count, line :: more =>
    if wrap 32 line.length = -1 then some []
    else
      (nextEvent mem line).bind fun (mem, event) =>
        (readEvents print mem (wrap 32 (count + 1)) more).map (print event count :: ·)

/-- The shared text of the two main functions: what they print and return. -/
def generate (print : List Byte → ℤ → Printf) (heap : Memory) (file : Option (List Byte)) :
    Option (List Printf × ℤ) :=
  match file with
  | none => some ([⟨"Error opening list of events\n", none, none⟩], -1)
  | some bytes => (readEvents print heap 1 (getlines bytes)).map fun out => (out, 0)

def genDefines : Memory → Option (List Byte) → Option (List Printf × ℤ) := generate defineLine

def genList : Memory → Option (List Byte) → Option (List Printf × ℤ) := generate listLine

def macroName (line : List Byte) : List Byte := line.map (swap dot underscore)

/-- One #define for every line, in order and numbered from one, and the same names
from gen_list. -/
structure NamesEveryLine (heap : Memory) (bytes : List Byte) : Prop where
  defines : genDefines heap (some bytes) =
    some ((lines bytes).mapIdx fun i line => defineLine (macroName line) (i + 1), 0)
  list : genList heap (some bytes) =
    some ((lines bytes).map fun line => ⟨"PAPI_%s\n", some (macroName line), none⟩, 0)

def eventOf (line : List Byte) : Option (List Byte) :=
  if wrap 32 line.length - 1 < 0 then none
  else some (macroName (line.take (wrap 32 line.length - 1).toNat))

def events : List (List Byte) → Option (List (List Byte))
  | [] => some []
  | line :: more =>
    if wrap 32 line.length = -1 then some []
    else (eventOf line).bind fun event => (events more).map (event :: ·)

theorem wrap_le (w n : ℕ) : wrap w n ≤ n := by
  have hle : ((n : ℤ) % ((2 ^ w : ℕ) : ℤ)) ≤ n := by
    rw [← Int.natCast_emod]
    exact Int.ofNat_le.mpr (Nat.mod_le n (2 ^ w))
  unfold wrap
  rw [Int.bmod_eq_emod]
  split <;> omega

theorem wrap32_eq_iff (n : ℕ) : wrap 32 n = n ↔ n < 2 ^ 31 := by
  constructor
  · intro h
    have := wrap_lt 32 n (by omega)
    omega
  · intro h
    exact wrap_eq 32 n (by omega) (by omega)

/-- The buffer of a line whose byte `n` is overwritten by a NUL. -/
theorem isString_cut (mem : Memory) (line : List Byte) (n : ℕ) (hn : n < line.length)
    (hnul : 0 ∉ line) :
    IsString (Function.update (overlay (line ++ [0]) mem) n 0) 0 (line.take n) := by
  have hlen : (line.take n).length = n := by
    rw [List.length_take]
    omega
  have hheld := holds_overlay (line ++ [0]) mem
  apply isString_of_bytes
  · intro hmem
    exact hnul (List.mem_of_mem_take hmem)
  · intro i hi
    have hbytes : IsString (overlay (line ++ [0]) mem) 0 line := ⟨hheld, hnul⟩
    rw [Function.update_of_ne (by omega), hbytes.getElem i (by omega), List.getElem_take]
  · rw [hlen, Int.zero_add, Function.update_self]

/-- One pass gives the name of the line less its last byte. -/
theorem nextEvent_eq (mem : Memory) (line : List Byte) (hnul : 0 ∉ line) :
    (nextEvent mem line).map Prod.snd = eventOf line := by
  unfold nextEvent eventOf
  by_cases hread : wrap 32 line.length - 1 < 0
  · simp only [if_pos hread, Option.map_none]
  · have hle := wrap_le 32 line.length
    obtain ⟨n, hn⟩ := Int.eq_ofNat_of_zero_le (show 0 ≤ wrap 32 line.length - 1 by omega)
    have hcut := isString_cut mem line n (by omega) hnul
    have hlen : (line.take n).length ≤ line.length := List.length_take_le' n line
    have hdot : dot ≠ 0 ∧ underscore ≠ 0 ∧ dot ≠ underscore := by decide
    have hswapped := isString_swapped dot hdot.2.1 hcut
    have hends := replaceChar_ends hdot.2.2 hdot.1 hdot.2.1 hcut line.length hlen
    have hprinted := stringAt_of_isString (line.length + 1) hswapped
      (by rw [List.length_map]; omega)
    have hstore : ¬((n : ℤ) < 0) := by omega
    simp only [hn, if_neg hstore, hends, Option.bind_some, hprinted, Option.map_some,
      Int.toNat_natCast, macroName]

/-- What the loop prints: the names, numbered as far as an int goes. -/
theorem readEvents_eq (print : List Byte → ℤ → Printf) (mem : Memory) (count : ℤ)
    (input : List (List Byte)) (hnul : ∀ line ∈ input, 0 ∉ line) (hcount : wrap 32 count = count) :
    readEvents print mem count input =
      (events input).map fun names =>
        names.mapIdx fun i event => print event (wrap 32 (count + i)) := by
  induction input generalizing mem count with
  | nil => rfl
  | cons line more ih =>
    have hline := nextEvent_eq mem line (hnul line List.mem_cons_self)
    rw [readEvents, events]
    by_cases hend : wrap 32 line.length = -1
    · rw [if_pos hend, if_pos hend]
      rfl
    · rw [if_neg hend, if_neg hend, ← hline]
      cases hnext : nextEvent mem line with
      | none => rfl
      | some result =>
        have hrest := ih result.1 (wrap 32 (count + 1))
          (fun l hl => hnul l (List.mem_cons_of_mem line hl)) (wrap_wrap ..)
        simp only [Option.bind_some, Option.map_some, hrest]
        cases events more with
        | none => rfl
        | some names =>
          have hindex : ∀ i : ℕ, wrap 32 (wrap 32 (count + 1) + i) =
              wrap 32 (count + ((i + 1 : ℕ) : ℤ)) := by
            intro i
            have hsum : count + 1 + (i : ℤ) = count + ((i + 1 : ℕ) : ℤ) := by
              push_cast
              ring
            rw [wrap_wrap_add, hsum]
          simp only [Option.map_some, List.mapIdx_cons, hindex, Nat.cast_zero,
            Int.add_zero, hcount]

theorem events_cons_iff (line : List Byte) (more : List (List Byte)) (name : List Byte)
    (names : List (List Byte)) :
    events (line :: more) = some (name :: names) ↔
      eventOf line = some name ∧ events more = some names := by
  rw [events]
  by_cases hend : wrap 32 line.length = -1
  · simp [eventOf, hend]
  · rw [if_neg hend]
    cases eventOf line <;> cases events more <;> simp

/-- A line that ends with a newline is named in full if an int32_t counts its bytes. -/
theorem eventOf_line_iff (line : List Byte) :
    eventOf (line ++ [newline]) = some (macroName line) ↔ line.length + 1 < 2 ^ 31 := by
  have hlen : (line ++ [newline]).length = line.length + 1 := by simp
  rw [← wrap32_eq_iff, eventOf, hlen]
  constructor
  · intro h
    split at h
    · simp at h
    · have hname := congrArg List.length (Option.some.inj h)
      have hle := wrap_le 32 (line.length + 1)
      simp only [macroName, List.length_map, List.length_take, hlen] at hname
      omega
  · intro h
    have hcut : ((line.length + 1 : ℕ) : ℤ) - 1 = line.length := by omega
    rw [h, hcut, if_neg (by omega), Int.toNat_natCast, List.take_left]

/-- One that does not loses its last byte. -/
theorem eventOf_tail (tail : List Byte) (hne : tail ≠ []) :
    eventOf tail ≠ some (macroName tail) := by
  intro h
  have hpos : 0 < tail.length := List.length_pos_iff.mpr hne
  have hle := wrap_le 32 tail.length
  rw [eventOf] at h
  split at h
  · simp at h
  · have hname := congrArg List.length (Option.some.inj h)
    simp only [macroName, List.length_map, List.length_take] at hname
    omega

theorem events_iff (full : List (List Byte)) (tail : List Byte) :
    events ((full.map fun line => line ++ [newline]) ++ unfinished tail) =
        some ((full ++ unfinished tail).map macroName) ↔
      tail = [] ∧ ∀ line ∈ full, line.length + 1 < 2 ^ 31 := by
  induction full with
  | nil =>
    by_cases htail : tail = []
    · simp [htail, unfinished, events]
    · have hlost := eventOf_tail tail htail
      have hline : unfinished tail = [tail] := if_neg htail
      simp only [List.map_nil, List.nil_append, hline, List.map_cons, events_cons_iff, hlost, htail,
        false_and]
  | cons line more ih =>
    rw [List.map_cons, List.cons_append, List.cons_append, List.map_cons, events_cons_iff,
      eventOf_line_iff, ih, List.forall_mem_cons]
    tauto

/-- The numbers an int counts from one on. -/
theorem numbers_iff (n : ℕ) : (∀ k : ℕ, k < n → wrap 32 (1 + k) = k + 1) ↔ n < 2 ^ 31 := by
  constructor
  · intro h
    rcases Nat.eq_zero_or_pos n with rfl | hpos
    · omega
    · have hlast := h (n - 1) (by omega)
      have := wrap_lt 32 (1 + ((n - 1 : ℕ) : ℤ)) (by omega)
      omega
  · intro hn k hk
    rw [Int.add_comm]
    apply wrap_eq
    · omega
    · omega

/-- A #define for every line, with its own number, unless the numbers leave the int. -/
theorem mapIdx_defineLine_iff (names source : List (List Byte)) :
    (names.mapIdx fun i event => defineLine event (wrap 32 (1 + i))) =
        (source.mapIdx fun i line => defineLine (macroName line) (i + 1)) ↔
      names = source.map macroName ∧ source.length < 2 ^ 31 := by
  constructor
  · intro h
    have hlen : names.length = source.length := by simpa using congrArg List.length h
    have hcall : ∀ i : ℕ, ∀ event line, names[i]? = some event → source[i]? = some line →
        event = macroName line ∧ wrap 32 (1 + i) = i + 1 := by
      intro i event line hevent hline
      have hi := congrArg (·[i]?) h
      simp only [List.getElem?_mapIdx, hevent, hline, Option.map_some, Option.some.injEq,
        defineLine, Printf.mk.injEq, true_and] at hi
      exact hi
    refine ⟨?_, ?_⟩
    · apply List.ext_getElem?
      intro i
      rw [List.getElem?_map]
      cases hevent : names[i]? with
      | none =>
        rw [List.getElem?_eq_none_iff] at hevent
        rw [List.getElem?_eq_none (by omega), Option.map_none]
      | some event =>
        have hi : i < source.length := by
          rw [← hlen]
          exact (List.getElem?_eq_some_iff.mp hevent).1
        have hline := List.getElem?_eq_getElem hi
        rw [hline, Option.map_some, (hcall i event _ hevent hline).1]
    · apply (numbers_iff source.length).mp
      intro k hk
      have hk' : k < names.length := by rwa [hlen]
      exact (hcall k _ _ (List.getElem?_eq_getElem hk') (List.getElem?_eq_getElem hk)).2
  · rintro ⟨rfl, hlen⟩
    apply List.ext_getElem?
    intro i
    rw [List.getElem?_mapIdx, List.getElem?_mapIdx, List.getElem?_map]
    cases hline : source[i]? with
    | none => simp only [Option.map_none]
    | some line =>
      have hi := (List.getElem?_eq_some_iff.mp hline).1
      simp only [Option.map_some, (numbers_iff source.length).mpr hlen i hi]

theorem getlines_noNul {bytes : List Byte} {full : List (List Byte)} {tail : List Byte}
    (h : Parts bytes full tail) (hnul : 0 ∉ bytes) : ∀ line ∈ getlines bytes, 0 ∉ line := by
  obtain ⟨hfull, htail⟩ := h.not_mem hnul
  intro line hline
  rw [h.getlines_eq, List.mem_append, List.mem_map] at hline
  rcases hline with ⟨name, hname, rfl⟩ | hline
  · rw [List.mem_append, not_or]
    exact ⟨hfull name hname, by decide⟩
  · rw [unfinished] at hline
    split at hline
    · contradiction
    · rwa [List.mem_singleton.mp hline]

/-- The headers name every line if and only if the last one ends with a newline, a
line is no longer than an int32_t counts and the lines are no more than an int. -/
theorem namesEveryLine_iff (heap : Memory) (bytes : List Byte) (hnul : 0 ∉ bytes) :
    NamesEveryLine heap bytes ↔
      (bytes = [] ∨ bytes.getLast? = some newline) ∧
      (∀ line ∈ lines bytes, line.length + 1 < 2 ^ 31) ∧ (lines bytes).length < 2 ^ 31 := by
  obtain ⟨full, tail, hparts⟩ := parts_exist bytes
  have hread : ∀ print, generate print heap (some bytes) =
    (events (getlines bytes)).map fun names =>
      (names.mapIdx fun i event => print event (wrap 32 (1 + i)), 0) := by
    intro print
    rw [generate, readEvents_eq print heap 1 _ (getlines_noNul hparts hnul) (by decide),
      Option.map_map]
    rfl
  have hevents := events_iff full tail
  rw [← hparts.getlines_eq, ← hparts.lines_eq] at hevents
  rw [← hparts.tail_nil_iff]
  constructor
  · rintro ⟨hdefines, _⟩
    rw [genDefines, hread] at hdefines
    obtain ⟨names, hnames, hout⟩ := Option.map_eq_some_iff.mp hdefines
    obtain ⟨rfl, hcount⟩ := (mapIdx_defineLine_iff names (lines bytes)).mp (Prod.ext_iff.mp hout).1
    obtain ⟨htail, hshort⟩ := hevents.mp hnames
    refine ⟨htail, ?_, hcount⟩
    rw [hparts.lines_eq, htail, unfinished, if_pos rfl, List.append_nil]
    exact hshort
  · rintro ⟨htail, hshort, hcount⟩
    have hnames : events (getlines bytes) = some ((lines bytes).map macroName) := by
      apply hevents.mpr
      refine ⟨htail, fun line hline => hshort line ?_⟩
      rw [hparts.lines_eq]
      exact List.mem_append_left _ hline
    constructor
    · rw [genDefines, hread, hnames, Option.map_some,
        (mapIdx_defineLine_iff _ (lines bytes)).mpr ⟨rfl, hcount⟩]
    · rw [genList, hread, hnames, Option.map_some]
      congr 2
      apply List.ext_getElem?
      intro i
      rw [List.getElem?_mapIdx, List.getElem?_map, List.getElem?_map, Option.map_map]
      rfl

/-- The one name of this file, A, has no newline behind it. -/
theorem namesEveryLine_lost : ¬NamesEveryLine (fun _ => 0) [65] := by
  intro h
  have hdefines := h.defines
  revert hdefines
  decide +kernel

theorem namesEveryLine_closed : NamesEveryLine (fun _ => 0) [65, 46, 66, 10, 67, 10] :=
  (namesEveryLine_iff (fun _ => 0) [65, 46, 66, 10, 67, 10] (by decide)).mpr
    ⟨by decide, by decide, by decide⟩

end PapiSample.HeaderGeneration
