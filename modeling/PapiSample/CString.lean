import PapiSample.Bytes
import PapiSample.While

/-!
Strings that end with a NUL, as they lie in memory, and what the C library does
with them: the search for a character, and reading a string up to its NUL. Both
are loops that have no bound of their own.
-/
namespace PapiSample.CString

open Bytes While

/-- The string at `pos`: its bytes, none of them NUL, and then a NUL. -/
structure IsString (mem : Memory) (pos : ℤ) (s : List Byte) : Prop where
  holds : Holds mem pos (s ++ [0])
  noNul : 0 ∉ s

def scan (mem : Memory) (c : Byte) : ℕ → ℤ → Option ℤ :=
  loop (fun p => mem p != c && mem p != 0) fun p => some (p + 1)

def strchr (mem : Memory) (c : Byte) (fuel : ℕ) (str : ℤ) : Option (Option ℤ) :=
  (scan mem c fuel str).map fun p => if mem p = c then some p else none

def stringAt (mem : Memory) : ℕ → ℤ → Option (List Byte)
  | 0, _ => none
  | fuel + 1, p =>
    if mem p = 0 then some [] else (stringAt mem fuel (p + 1)).map fun rest => mem p :: rest

theorem isString_nil (mem : Memory) (pos : ℤ) : IsString mem pos [] ↔ mem pos = 0 := by
  constructor
  · intro h
    exact ((holds_cons ..).mp h.holds).1
  · intro h
    exact ⟨(holds_cons ..).mpr ⟨h, rfl⟩, List.not_mem_nil⟩

theorem isString_cons (mem : Memory) (pos : ℤ) (b : Byte) (s : List Byte) :
    IsString mem pos (b :: s) ↔ mem pos = b ∧ b ≠ 0 ∧ IsString mem (pos + 1) s := by
  constructor
  · rintro ⟨hholds, hnul⟩
    obtain ⟨hb, hrest⟩ := (holds_cons ..).mp hholds
    rw [List.mem_cons, not_or] at hnul
    exact ⟨hb, Ne.symm hnul.1, hrest, hnul.2⟩
  · rintro ⟨hb, hne, hrest⟩
    refine ⟨(holds_cons ..).mpr ⟨hb, hrest.holds⟩, ?_⟩
    rw [List.mem_cons, not_or]
    exact ⟨Ne.symm hne, hrest.noNul⟩

/-- What is behind a part of a string is a string. -/
theorem IsString.suffix {mem : Memory} {pos : ℤ} {a b : List Byte}
    (h : IsString mem pos (a ++ b)) : IsString mem (pos + a.length) b := by
  have hholds := h.holds
  rw [List.append_assoc] at hholds
  refine ⟨((holds_append ..).mp hholds).2, ?_⟩
  intro hmem
  exact h.noNul (List.mem_append_right a hmem)

theorem IsString.getElem {mem : Memory} {pos : ℤ} {s : List Byte} (h : IsString mem pos s)
    (i : ℕ) (hi : i < s.length) : mem (pos + i) = s[i] := by
  have hread : readBytes mem pos (s ++ [0]).length = s ++ [0] := h.holds
  have hget := readBytes_getElem? mem pos (s ++ [0]).length i (by simp; omega)
  rw [hread, List.getElem?_append_left hi, List.getElem?_eq_getElem hi] at hget
  exact (Option.some.inj hget).symm

theorem IsString.terminator {mem : Memory} {pos : ℤ} {s : List Byte} (h : IsString mem pos s) :
    mem (pos + s.length) = 0 := by
  have hend : IsString mem (pos + s.length) [] := by
    apply IsString.suffix
    rwa [List.append_nil]
  exact (isString_nil ..).mp hend

/-- A string is known by its bytes and the place of its NUL. -/
theorem isString_of_bytes (mem : Memory) (pos : ℤ) (s : List Byte) (hnul : 0 ∉ s)
    (hbytes : ∀ (i : ℕ) (hi : i < s.length), mem (pos + i) = s[i])
    (hend : mem (pos + s.length) = 0) : IsString mem pos s := by
  induction s generalizing pos with
  | nil =>
    apply (isString_nil ..).mpr
    simpa using hend
  | cons b rest ih =>
    rw [List.mem_cons, not_or] at hnul
    have hshift : ∀ n : ℕ, pos + 1 + (n : ℤ) = pos + ((n + 1 : ℕ) : ℤ) := by
      intro n
      push_cast
      ring
    refine (isString_cons ..).mpr ⟨?_, Ne.symm hnul.1, ih (pos + 1) hnul.2 ?_ ?_⟩
    · have hfirst : mem (pos + (0 : ℕ)) = b := hbytes 0 (Nat.zero_lt_succ _)
      simpa using hfirst
    · intro i hi
      rw [hshift]
      exact hbytes (i + 1) (by simpa using hi)
    · rw [hshift]
      exact hend

/-- The scan passes over bytes that are neither the character nor NUL. -/
theorem scan_skips (mem : Memory) (c : Byte) (fuel : ℕ) (pos : ℤ) (a b : List Byte) (hc : c ∉ a)
    (h : IsString mem pos (a ++ b)) :
    scan mem c (fuel + a.length) pos = scan mem c fuel (pos + a.length) := by
  induction a generalizing pos with
  | nil => simp
  | cons x rest ih =>
    obtain ⟨hx, hne, hrest⟩ := (isString_cons ..).mp h
    rw [List.mem_cons, not_or] at hc
    have hcond : (mem pos != c && mem pos != 0) = true := by
      rw [hx]
      simpa using ⟨Ne.symm hc.1, hne⟩
    have hstep : scan mem c (fuel + (rest.length + 1)) pos =
        scan mem c (fuel + rest.length) (pos + 1) := loop_step _ ⟨hcond, rfl⟩
    rw [List.length_cons, hstep, ih (pos + 1) hc.2 hrest]
    congr 1
    push_cast
    ring

theorem strchr_found {mem : Memory} {c : Byte} {pos : ℤ} {a b : List Byte} (fuel : ℕ)
    (hc : c ∉ a) (h : IsString mem pos (a ++ c :: b)) (hfuel : a.length ≤ fuel) :
    strchr mem c fuel pos = some (some (pos + a.length)) := by
  obtain ⟨more, rfl⟩ := Nat.exists_eq_add_of_le' hfuel
  have hhere : mem (pos + a.length) = c := ((isString_cons ..).mp h.suffix).1
  have hstop : scan mem c more (pos + a.length) = some (pos + a.length) := by
    apply loop_done
    simp [hhere]
  rw [strchr, scan_skips mem c more pos a (c :: b) hc h, hstop, Option.map_some, if_pos hhere]

theorem strchr_missing {mem : Memory} {c : Byte} {pos : ℤ} {s : List Byte} (fuel : ℕ)
    (hc : c ∉ s) (hnul : c ≠ 0) (h : IsString mem pos s) (hfuel : s.length ≤ fuel) :
    strchr mem c fuel pos = some none := by
  obtain ⟨more, rfl⟩ := Nat.exists_eq_add_of_le' hfuel
  have hend := h.terminator
  have hstop : scan mem c more (pos + s.length) = some (pos + s.length) := by
    apply loop_done
    simp [hend]
  have hskip := scan_skips mem c more pos s [] hc (by rwa [List.append_nil])
  rw [strchr, hskip, hstop, Option.map_some, if_neg (by rw [hend]; exact Ne.symm hnul)]

/-- A search in a string comes to an end. -/
theorem strchr_returns {mem : Memory} {c : Byte} {pos : ℤ} {s : List Byte} (fuel : ℕ)
    (hnul : c ≠ 0) (h : IsString mem pos s) (hfuel : s.length ≤ fuel) :
    ∃ found, strchr mem c fuel pos = some found := by
  by_cases hc : c ∈ s
  · obtain ⟨a, b, rfl, ha⟩ := List.eq_append_cons_of_mem hc
    refine ⟨_, strchr_found fuel ha h ?_⟩
    rw [List.length_append] at hfuel
    omega
  · exact ⟨none, strchr_missing fuel hc hnul h hfuel⟩

theorem stringAt_of_isString {mem : Memory} {pos : ℤ} {s : List Byte} (fuel : ℕ)
    (h : IsString mem pos s) (hfuel : s.length < fuel) : stringAt mem fuel pos = some s := by
  induction s generalizing pos fuel with
  | nil =>
    cases fuel with
    | zero => omega
    | succ fuel => rw [stringAt, if_pos ((isString_nil ..).mp h)]
  | cons b rest ih =>
    obtain ⟨hb, hne, hrest⟩ := (isString_cons ..).mp h
    cases fuel with
    | zero => omega
    | succ fuel =>
      have hlt : rest.length < fuel := by
        rw [List.length_cons] at hfuel
        omega
      rw [stringAt, if_neg (by rwa [hb]), ih fuel hrest hlt, hb, Option.map_some]

end PapiSample.CString
