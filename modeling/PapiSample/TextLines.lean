import Mathlib.Data.List.TakeWhile
import PapiSample.Bytes

/-!
Text files as lists of bytes: what successive calls of getline return, and the
lines a reader sees. The two differ in the newlines, and in a last line that has
none.
-/
namespace PapiSample.TextLines

open Bytes

def newline : Byte := 10

/-- What getline returns, call after call: each time up to the next newline, that
included, or up to the end of the file. -/
def getlines : List Byte → List (List Byte)
  | [] => []
  | c :: rest =>
    if c = newline then [c] :: getlines rest
    else
      match getlines rest with
      | [] => [[c]]
      | line :: more => (c :: line) :: more

def lines (bytes : List Byte) : List (List Byte) :=
  (getlines bytes).map fun line => line.takeWhile (· ≠ newline)

/-- The lines that end with a newline, and what is behind the last newline. -/
structure Parts (bytes : List Byte) (full : List (List Byte)) (tail : List Byte) : Prop where
  whole : bytes = (full.flatMap fun line => line ++ [newline]) ++ tail
  full_newline : ∀ line ∈ full, newline ∉ line
  tail_newline : newline ∉ tail

def unfinished (tail : List Byte) : List (List Byte) := if tail = [] then [] else [tail]

theorem parts_exist (bytes : List Byte) : ∃ full tail, Parts bytes full tail := by
  induction bytes with
  | nil => exact ⟨[], [], rfl, by simp, by simp⟩
  | cons c rest ih =>
    obtain ⟨full, tail, hparts⟩ := ih
    by_cases hc : c = newline
    · refine ⟨[] :: full, tail, ?_, ?_, hparts.tail_newline⟩
      · simp [hc, hparts.whole]
      · intro line hline
        rcases List.mem_cons.mp hline with rfl | hline
        · exact List.not_mem_nil
        · exact hparts.full_newline line hline
    · cases full with
      | nil =>
        refine ⟨[], c :: tail, by simp [hparts.whole], by simp, ?_⟩
        rw [List.mem_cons, not_or]
        exact ⟨Ne.symm hc, hparts.tail_newline⟩
      | cons first more =>
        refine ⟨(c :: first) :: more, tail, by simp [hparts.whole], ?_, hparts.tail_newline⟩
        intro line hline
        rcases List.mem_cons.mp hline with rfl | hline
        · rw [List.mem_cons, not_or]
          exact ⟨Ne.symm hc, hparts.full_newline first List.mem_cons_self⟩
        · exact hparts.full_newline line (List.mem_cons_of_mem _ hline)

theorem getlines_tail (tail : List Byte) (h : newline ∉ tail) :
    getlines tail = unfinished tail := by
  induction tail with
  | nil => rfl
  | cons c rest ih =>
    rw [List.mem_cons, not_or] at h
    rw [getlines, if_neg (Ne.symm h.1), ih h.2]
    cases rest <;> rfl

theorem getlines_line (line rest : List Byte) (h : newline ∉ line) :
    getlines (line ++ newline :: rest) = (line ++ [newline]) :: getlines rest := by
  induction line with
  | nil => rw [List.nil_append, getlines, if_pos rfl, List.nil_append]
  | cons c more ih =>
    rw [List.mem_cons, not_or] at h
    rw [List.cons_append, getlines, if_neg (Ne.symm h.1), ih h.2]
    rfl

theorem Parts.getlines_eq {bytes : List Byte} {full : List (List Byte)} {tail : List Byte}
    (h : Parts bytes full tail) :
    getlines bytes = (full.map fun line => line ++ [newline]) ++ unfinished tail := by
  obtain ⟨rfl, hfull, htail⟩ := h
  induction full with
  | nil => exact getlines_tail tail htail
  | cons line more ih =>
    have hmore := ih fun l hl => hfull l (List.mem_cons_of_mem _ hl)
    have hline := getlines_line line ((more.flatMap fun l => l ++ [newline]) ++ tail)
      (hfull line List.mem_cons_self)
    simp only [List.flatMap_cons, List.append_assoc, List.cons_append, List.nil_append,
      List.map_cons] at hline ⊢
    rw [hline, hmore]

theorem takeWhile_tail {tail : List Byte} (h : newline ∉ tail) :
    tail.takeWhile (· ≠ newline) = tail := by
  rw [List.takeWhile_eq_self_iff]
  intro c hc
  exact decide_eq_true (ne_of_mem_of_not_mem hc h)

theorem takeWhile_line {line : List Byte} (rest : List Byte) (h : newline ∉ line) :
    (line ++ newline :: rest).takeWhile (· ≠ newline) = line := by
  have hline : ∀ c ∈ line, decide (c ≠ newline) = true := fun c hc =>
    decide_eq_true (ne_of_mem_of_not_mem hc h)
  rw [List.takeWhile_append_of_pos hline, List.takeWhile_cons_of_neg (by simp), List.append_nil]

theorem Parts.lines_eq {bytes : List Byte} {full : List (List Byte)} {tail : List Byte}
    (h : Parts bytes full tail) : lines bytes = full ++ unfinished tail := by
  rw [lines, h.getlines_eq, List.map_append, List.map_map]
  congr 1
  · have hchop : ∀ line ∈ full,
        (line ++ [newline]).takeWhile (· ≠ newline) = line := by
      intro line hline
      exact takeWhile_line [] (h.full_newline line hline)
    exact (List.map_congr_left hchop).trans (List.map_id' full)
  · rw [unfinished]
    split
    · rfl
    · rw [List.map_singleton, takeWhile_tail h.tail_newline]

/-- Nothing is unfinished in a file that is empty or ends with a newline. -/
theorem Parts.tail_nil_iff {bytes : List Byte} {full : List (List Byte)} {tail : List Byte}
    (h : Parts bytes full tail) :
    tail = [] ↔ bytes = [] ∨ bytes.getLast? = some newline := by
  obtain ⟨rfl, _, htail⟩ := h
  constructor
  · rintro rfl
    rcases List.eq_nil_or_concat full with rfl | ⟨init, line, rfl⟩
    · exact Or.inl rfl
    · right
      simp [List.flatMap_append]
  · intro hend
    by_contra hne
    rcases hend with hnil | hlast
    · exact hne (List.append_eq_nil_iff.mp hnil).2
    · rw [List.getLast?_append_of_ne_nil _ hne] at hlast
      exact htail (List.mem_of_getLast? hlast)

theorem Parts.not_mem {bytes : List Byte} {full : List (List Byte)} {tail : List Byte}
    (h : Parts bytes full tail) {b : Byte} (hb : b ∉ bytes) :
    (∀ line ∈ full, b ∉ line) ∧ b ∉ tail := by
  rw [h.whole, List.mem_append, not_or, List.mem_flatMap] at hb
  refine ⟨?_, hb.2⟩
  intro line hline hmem
  exact hb.1 ⟨line, hline, List.mem_append_left _ hmem⟩

end PapiSample.TextLines
