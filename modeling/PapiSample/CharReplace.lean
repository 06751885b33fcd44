import PapiSample.CString
import PapiSample.EventSetup

/-!
replace_char as it works on the caller's buffer. After each store it searches
again from the place it has just written; the search moves on because the two
characters differ, and the string in front of it has no such character any more.
-/
namespace PapiSample.CharReplace

open Bytes While CString

/-- The buffer, `current_pos`, and the addresses written so far. -/
structure Rescan where
  mem : Memory
  currentPos : Option ℤ
  stores : List ℤ

def rescan (find replace : Byte) (fuel : ℕ) (r : Rescan) : Option Rescan :=
  match r.currentPos with
  | none => some r
  | some p =>
    let mem := Function.update r.mem p replace
    (strchr mem find fuel p).map fun next => ⟨mem, next, p :: r.stores⟩

structure Replaced where
  mem : Memory
  stores : List ℤ
  str : ℤ

def replaceChar (mem : Memory) (str : ℤ) (find replace : Byte) (fuel : ℕ) : Option Replaced :=
  (strchr mem find fuel str).bind fun pos =>
    (loop (fun r : Rescan => r.currentPos.isSome) (rescan find replace fuel) fuel
      ⟨mem, pos, []⟩).map fun r => ⟨r.mem, r.stores, str⟩

def swap (find replace b : Byte) : Byte := if b = find then replace else b

def swapped (find replace : Byte) (mem : Memory) (str : ℤ) (n : ℕ) : Memory :=
  fun i => if str ≤ i ∧ i < str + n then swap find replace (mem i) else mem i

def places (find : Byte) : ℤ → List Byte → List ℤ
  | _, [] => []
  | str, b :: rest =>
    if b = find then str :: places find (str + 1) rest else places find (str + 1) rest

/-- The buffer is changed within the string only, at the places of `find`. -/
structure Replaces (mem : Memory) (str : ℤ) (s : List Byte) (find replace : Byte)
    (out : Replaced) : Prop where
  bytes : ∀ i : ℕ, i < s.length →
    out.mem (str + i) = if mem (str + i) = find then replace else mem (str + i)
  string : IsString out.mem str (s.map (swap find replace))
  frame : ∀ i, i < str ∨ str + s.length ≤ i → out.mem i = mem i
  stores : ∀ p ∈ out.stores, str ≤ p ∧ p < str + s.length
  value : out.str = str

theorem swap_idem {find replace : Byte} (hne : find ≠ replace) (b : Byte) :
    swap find replace (swap find replace b) = swap find replace b := by
  unfold swap
  by_cases hb : b = find
  · rw [if_pos hb, if_neg (Ne.symm hne)]
  · rw [if_neg hb, if_neg hb]

theorem swap_ne_zero {find replace : Byte} (hreplace : replace ≠ 0) {b : Byte} (hb : b ≠ 0) :
    swap find replace b ≠ 0 := by
  unfold swap
  split
  · exact hreplace
  · exact hb

theorem isString_swapped (find : Byte) {replace : Byte} {mem : Memory} {str : ℤ} {s : List Byte}
    (hreplace : replace ≠ 0) (h : IsString mem str s) :
    IsString (swapped find replace mem str s.length) str (s.map (swap find replace)) := by
  apply isString_of_bytes
  · intro hmem
    obtain ⟨b, hb, hzero⟩ := List.mem_map.mp hmem
    apply swap_ne_zero hreplace _ hzero
    rintro rfl
    exact h.noNul hb
  · intro i hi
    rw [List.length_map] at hi
    rw [swapped, if_pos (by omega), List.getElem_map, h.getElem i hi]
  · rw [List.length_map, swapped, if_neg (by omega), h.terminator]

/-- What a store at the first `find` leaves to be done. -/
theorem swapped_update {find replace : Byte} (hne : find ≠ replace) {mem : Memory} {str : ℤ}
    {a b : List Byte} (ha : find ∉ a) (h : IsString mem str (a ++ find :: b)) :
    swapped find replace (Function.update mem (str + a.length) replace) (str + a.length)
        (replace :: b).length =
      swapped find replace mem str (a ++ find :: b).length := by
  funext i
  have hhere : mem (str + a.length) = find := ((isString_cons ..).mp h.suffix).1
  simp only [swapped, List.length_append, List.length_cons]
  by_cases hi : i = str + a.length
  · subst hi
    rw [if_pos (by omega), if_pos (by omega), Function.update_self, hhere]
    simp [swap, Ne.symm hne]
  · rw [Function.update_of_ne hi]
    by_cases hfront : str ≤ i ∧ i < str + a.length
    · obtain ⟨k, rfl⟩ := Int.le.dest hfront.1
      have hk : k < a.length := by omega
      have hbyte := h.getElem k (by rw [List.length_append]; omega)
      rw [List.getElem_append_left hk] at hbyte
      have hother : mem (str + k) ≠ find := by
        rw [hbyte]
        intro heq
        exact ha (heq ▸ List.getElem_mem hk)
      rw [if_neg (by omega), if_pos (by omega), swap, if_neg hother]
    · exact if_congr (by omega) rfl rfl

/-- The string from the place of the store on. -/
theorem isString_update {find replace : Byte} (hreplace : replace ≠ 0) {mem : Memory} {str : ℤ}
    {a b : List Byte} (h : IsString mem str (a ++ find :: b)) :
    IsString (Function.update mem (str + a.length) replace) (str + a.length) (replace :: b) := by
  have hold := h.suffix
  have hrest := ((isString_cons ..).mp hold).2.2
  refine (isString_cons ..).mpr ⟨Function.update_self .., hreplace, ?_⟩
  apply isString_of_bytes _ _ _ hrest.noNul
  · intro i hi
    rw [Function.update_of_ne (by omega), hrest.getElem i hi]
  · rw [Function.update_of_ne (by omega), hrest.terminator]

theorem rescan_store {find replace : Byte} (fuel : ℕ) {mem : Memory} {p : ℤ} (stores : List ℤ)
    {next : Option ℤ} (h : strchr (Function.update mem p replace) find fuel p = some next) :
    rescan find replace fuel ⟨mem, some p, stores⟩ =
      some ⟨Function.update mem p replace, next, p :: stores⟩ := by
  simp only [rescan, h, Option.map_some]

theorem places_absent {find : Byte} (str : ℤ) {s : List Byte} (h : find ∉ s) :
    places find str s = [] := by
  induction s generalizing str with
  | nil => rfl
  | cons b rest ih =>
    rw [List.mem_cons, not_or] at h
    rw [places, if_neg (Ne.symm h.1), ih (str + 1) h.2]

theorem places_other {find b : Byte} (str : ℤ) (rest : List Byte) (h : b ≠ find) :
    places find str (b :: rest) = places find (str + 1) rest := by
  rw [places, if_neg h]

theorem places_first {find : Byte} (str : ℤ) {a : List Byte} (b : List Byte) (h : find ∉ a) :
    places find str (a ++ find :: b) = (str + a.length) :: places find (str + a.length + 1) b := by
  induction a generalizing str with
  | nil => simp [places]
  | cons x rest ih =>
    rw [List.mem_cons, not_or] at h
    have hshift : str + 1 + (rest.length : ℤ) = str + ((x :: rest).length : ℤ) := by
      rw [List.length_cons]
      push_cast
      ring
    rw [List.cons_append, places_other str _ (Ne.symm h.1), ih (str + 1) h.2, hshift]

theorem places_inside {find : Byte} {str p : ℤ} {s : List Byte} (h : p ∈ places find str s) :
    str ≤ p ∧ p < str + s.length := by
  induction s generalizing str with
  | nil => contradiction
  | cons b rest ih =>
    rw [List.length_cons]
    rw [places] at h
    split at h
    · rcases List.mem_cons.mp h with rfl | h
      · omega
      · have := ih h
        omega
    · have := ih h
      omega

/-- A string without the character is left as it is. -/
theorem swapped_absent {find : Byte} (replace : Byte) {mem : Memory} {str : ℤ} {s : List Byte}
    (h : IsString mem str s) (hfind : find ∉ s) :
    swapped find replace mem str s.length = mem := by
  funext i
  unfold swapped
  split
  · rename_i hi
    obtain ⟨k, rfl⟩ := Int.le.dest hi.1
    have hk : k < s.length := by omega
    have hother : s[k] ≠ find := by
      intro heq
      exact hfind (heq ▸ List.getElem_mem hk)
    rw [h.getElem k hk, swap, if_neg hother]
  · rfl

/-- The loop, from the head it comes to by a search: the induction is on the
number of places left, each store takes one away. -/
theorem loop_rescan {find replace : Byte} (hne : find ≠ replace) (hfind : find ≠ 0)
    (hreplace : replace ≠ 0) (inner fuel : ℕ) (mem : Memory) (str : ℤ) (s : List Byte)
    (stores : List ℤ) (pos : Option ℤ) (h : IsString mem str s) (hinner : s.length ≤ inner)
    (hfuel : s.count find ≤ fuel) (hpos : strchr mem find inner str = some pos) :
    loop (fun r : Rescan => r.currentPos.isSome) (rescan find replace inner) fuel
        ⟨mem, pos, stores⟩ =
      some ⟨swapped find replace mem str s.length, none,
        (places find str s).reverse ++ stores⟩ := by
  induction hn : s.count find generalizing mem str s stores pos fuel with
  | zero =>
    have hnone : find ∉ s := List.count_eq_zero.mp hn
    have hmiss := strchr_missing inner hnone hfind h hinner
    rw [hpos] at hmiss
    cases hmiss
    rw [loop_done fuel _ rfl, swapped_absent replace h hnone, places_absent str hnone]
    simp
  | succ n ih =>
    have hmem : find ∈ s := by
      apply List.count_pos_iff.mp
      omega
    obtain ⟨a, b, rfl, ha⟩ := List.eq_append_cons_of_mem hmem
    have hfirst := strchr_found inner ha h (by rw [List.length_append] at hinner; omega)
    rw [hpos] at hfirst
    cases hfirst
    have hrest := isString_update hreplace h
    have hlen : (replace :: b).length ≤ inner := by
      rw [List.length_append, List.length_cons] at hinner
      rw [List.length_cons]
      omega
    obtain ⟨next, hnext⟩ := strchr_returns inner hfind hrest hlen
    have hcount : (replace :: b).count find = n := by
      rw [List.count_append, List.count_eq_zero.mpr ha, List.count_cons_self] at hn
      rw [List.count_cons_of_ne (Ne.symm hne)]
      omega
    obtain ⟨more, rfl⟩ := Nat.exists_eq_add_of_le' (show 1 ≤ fuel by omega)
    have hloop := ih more _ _ _ ((str + a.length) :: stores) next hrest hlen (by omega) hnext hcount
    rw [loop_step more ⟨rfl, rescan_store inner stores hnext⟩, hloop, swapped_update hne ha h,
      places_first str b ha, places_other _ b (Ne.symm hne)]
    simp

/-- replace_char ends on every string, whatever is behind it. -/
theorem replaceChar_ends {find replace : Byte} (hne : find ≠ replace) (hfind : find ≠ 0)
    (hreplace : replace ≠ 0) {mem : Memory} {str : ℤ} {s : List Byte} (h : IsString mem str s)
    (fuel : ℕ) (hfuel : s.length ≤ fuel) :
    replaceChar mem str find replace fuel =
      some ⟨swapped find replace mem str s.length, (places find str s).reverse, str⟩ := by
  obtain ⟨pos, hpos⟩ := strchr_returns fuel hfind h hfuel
  have hloop := loop_rescan hne hfind hreplace fuel fuel mem str s [] pos h hfuel
    (Nat.le_trans List.count_le_length hfuel) hpos
  rw [List.append_nil] at hloop
  rw [replaceChar, hpos, Option.bind_some, hloop, Option.map_some]

theorem swapped_swapped {find replace : Byte} (hne : find ≠ replace) (mem : Memory) (str : ℤ)
    (n : ℕ) :
    swapped find replace (swapped find replace mem str n) str n =
      swapped find replace mem str n := by
  funext i
  by_cases hi : str ≤ i ∧ i < str + n
  · simp only [swapped, if_pos hi, swap_idem hne]
  · simp only [swapped, if_neg hi]

/-- For every string and two different characters replace_char ends, has put the one
for the other up to the terminator and has written nowhere else, and a second
call changes nothing. -/
theorem replaceChar_replaces (mem : Memory) (str : ℤ) (s : List Byte) (find replace : Byte)
    (h : IsString mem str s) (hfind : find ≠ 0) (hreplace : replace ≠ 0) (hne : find ≠ replace) :
    ∃ out, (∀ fuel, s.length ≤ fuel → replaceChar mem str find replace fuel = some out) ∧
      Replaces mem str s find replace out ∧
      ∀ fuel, s.length ≤ fuel →
        ∃ again, replaceChar out.mem str find replace fuel = some again ∧ again.mem = out.mem := by
  have hstring := isString_swapped find hreplace h
  refine ⟨_, replaceChar_ends hne hfind hreplace h, ?_, ?_⟩
  · refine ⟨?_, hstring, ?_, ?_, rfl⟩
    · intro i hi
      show swapped find replace mem str s.length (str + i) = _
      rw [swapped, if_pos (by omega), swap]
    · intro i hi
      exact if_neg (by omega)
    · intro p hp
      exact places_inside (List.mem_reverse.mp hp)
  · intro fuel hfuel
    refine ⟨_, replaceChar_ends hne hfind hreplace hstring fuel (by rwa [List.length_map]), ?_⟩
    rw [List.length_map]
    exact swapped_swapped hne mem str s.length

def dottedName : Memory := overlay [65, 46, 66, 46, 0] fun _ => 1

theorem replaceChar_dottedName :
    ∃ out, (∀ fuel, 4 ≤ fuel → replaceChar dottedName 0 46 95 fuel = some out) ∧
      Replaces dottedName 0 [65, 46, 66, 46] 46 95 out ∧
      ∀ fuel, 4 ≤ fuel →
        ∃ again, replaceChar out.mem 0 46 95 fuel = some again ∧ again.mem = out.mem := by
  have hname : IsString dottedName 0 [65, 46, 66, 46] := ⟨holds_overlay _ _, by decide⟩
  exact replaceChar_replaces dottedName 0 [65, 46, 66, 46] 46 95 hname (by decide) (by decide)
    (by decide)

def byteOf (c : Char) : Byte := BitVec.ofNat 8 c.toNat

theorem byteOf_inj {c d : Char} (hc : c.toNat < 256) (hd : d.toNat < 256) :
    byteOf c = byteOf d ↔ c = d := by
  constructor
  · intro h
    have hnat := congrArg BitVec.toNat h
    simp only [byteOf, BitVec.toNat_ofNat, Nat.mod_eq_of_lt hc, Nat.mod_eq_of_lt hd] at hnat
    exact Char.toNat_inj.mp hnat
  · rintro rfl
    rfl

/-- The characters that the setup of an event computes with are the bytes that
replace_char leaves in the buffer. -/
theorem replaceChar_chars (mem : Memory) (str : ℤ) (s : List Char) (find replace : Char)
    (h : IsString mem str (s.map byteOf)) (hs : ∀ c ∈ s, c.toNat < 256)
    (hfind : find.toNat < 256) (hreplace : replace.toNat < 256) (hnul : byteOf find ≠ 0)
    (hnul' : byteOf replace ≠ 0) (hne : find ≠ replace) (fuel : ℕ) (hfuel : s.length ≤ fuel) :
    ∃ out, replaceChar mem str (byteOf find) (byteOf replace) fuel = some out ∧
      IsString out.mem str ((EventSetup.replaceChar s find replace).map byteOf) := by
  have hbytes : byteOf find ≠ byteOf replace := fun heq => hne ((byteOf_inj hfind hreplace).mp heq)
  refine ⟨_, replaceChar_ends hbytes hnul hnul' h fuel (by rwa [List.length_map]), ?_⟩
  have hmap : (EventSetup.replaceChar s find replace).map byteOf =
      (s.map byteOf).map (swap (byteOf find) (byteOf replace)) := by
    rw [EventSetup.replaceChar, List.map_map, List.map_map]
    apply List.map_congr_left
    intro c hc
    show byteOf (if c = find then replace else c) = swap (byteOf find) (byteOf replace) (byteOf c)
    by_cases hcf : c = find
    · rw [if_pos hcf, hcf, swap, if_pos rfl]
    · rw [if_neg hcf, swap, if_neg fun heq => hcf ((byteOf_inj (hs c hc) hfind).mp heq)]
  rw [hmap]
  exact isString_swapped _ hnul' h

/-- With two equal characters the search finds its own store again, for ever. -/
theorem replaceChar_same (mem : Memory) (str : ℤ) (a b : List Byte) (find : Byte) (ha : find ∉ a)
    (h : IsString mem str (a ++ find :: b)) (fuel : ℕ) (hfuel : a.length ≤ fuel) :
    replaceChar mem str find find fuel = none := by
  rw [replaceChar, strchr_found fuel ha h hfuel, Option.bind_some]
  rw [loop_diverges (fun r => ∃ p, r.currentPos = some p) ?_ fuel _ ⟨_, rfl⟩, Option.map_none]
  rintro ⟨mem, _, stores⟩ ⟨p, rfl⟩
  have hagain : strchr (Function.update mem p find) find fuel p = some (some p) := by
    have hstop : scan (Function.update mem p find) find fuel p = some p := by
      apply loop_done
      simp
    rw [strchr, hstop, Option.map_some, if_pos (Function.update_self ..)]
  exact ⟨_, ⟨rfl, rescan_store fuel stores hagain⟩, p, rfl⟩

end PapiSample.CharReplace
