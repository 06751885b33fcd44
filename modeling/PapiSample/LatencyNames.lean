import Mathlib
import PapiSample.EventSetup

/-!
The names capital_latency_event accepts. Its loop writes upper case into the
caller's buffer until it comes to a dot, has all dots replaced and leaves, so that
the letters behind the first dot keep their case. A name is found in any
spelling but one that has a small letter there.
-/
namespace PapiSample.LatencyNames

open Process EventSetup

theorem toUpper_eq_self (c : Char) : c.toUpper = c ↔ c.isLower = false := by
  constructor
  · intro h
    rw [← h]
    exact c.isLower_toUpper_eq_false
  · intro h
    apply Char.toUpper_eq_of_not_isLower
    rw [h]
    exact Bool.false_ne_true

/-- No letter becomes a dot. -/
theorem toUpper_eq_dot (c : Char) : c.toUpper = '.' ↔ c = '.' := by
  constructor
  · intro h
    cases hlower : c.isLower with
    | false => rwa [(toUpper_eq_self c).mpr hlower] at h
    | true =>
      have hletter : c.toUpper.isUpper = true := by
        rw [c.isUpper_toUpper_eq_isAlpha, Char.isAlpha, hlower, Bool.or_true]
      rw [h] at hletter
      exact absurd hletter (by decide)
  · rintro rfl
    rfl

def normChar (c : Char) : Char := if c.toUpper = '.' then ':' else c.toUpper

/-- The one spelling of a name that the table has. -/
def norm (s : List Char) : List Char := s.map normChar

theorem noSmallLetter_iff (s : List Char) :
    s.all (fun c => !c.isLower) = true ↔ ∀ c ∈ s, c.isLower = false := by
  simp only [List.all_eq_true, Bool.not_eq_true']

def fromDot (s : List Char) : List Char := s.dropWhile (· ≠ '.')

def colonFor (c : Char) : Char := if c = '.' then ':' else c

theorem upperToDot_eq (s : List Char) :
    upperToDot s =
      ((s.takeWhile (· ≠ '.')).map Char.toUpper ++ fromDot s, !(fromDot s).isEmpty) := by
  induction s with
  | nil => rfl
  | cons c rest ih =>
    rw [upperToDot]
    by_cases hdot : c = '.'
    · subst hdot
      rfl
    · rw [if_neg (fun h => hdot ((toUpper_eq_dot c).mp h)), ih]
      simp [fromDot, hdot]

/-- The buffer afterwards: upper case in front of the dot, colons behind it. -/
theorem capitalName_eq (s : List Char) :
    capitalName s = (s.takeWhile (· ≠ '.')).map Char.toUpper ++ (fromDot s).map colonFor := by
  have hfront : ((s.takeWhile (· ≠ '.')).map Char.toUpper).map colonFor =
      (s.takeWhile (· ≠ '.')).map Char.toUpper := by
    rw [List.map_map]
    apply List.map_congr_left
    intro c hc
    have hne : c ≠ '.' := by simpa using List.mem_takeWhile_imp hc
    exact if_neg fun h => hne ((toUpper_eq_dot c).mp h)
  unfold capitalName
  rw [upperToDot_eq]
  by_cases hnone : fromDot s = []
  · simp [hnone]
  · rw [if_pos (by simpa using hnone), replaceChar, List.map_append]
    exact congrArg (· ++ (fromDot s).map colonFor) hfront

theorem norm_eq (s : List Char) :
    norm s = (s.takeWhile (· ≠ '.')).map Char.toUpper ++ (fromDot s).map normChar := by
  have hsplit : norm s = norm (s.takeWhile (· ≠ '.')) ++ norm (fromDot s) := by
    rw [norm, norm, norm, ← List.map_append, fromDot, List.takeWhile_append_dropWhile]
  rw [hsplit]
  congr 1
  apply List.map_congr_left
  intro c hc
  have hne : c ≠ '.' := by simpa using List.mem_takeWhile_imp hc
  exact if_neg fun h => hne ((toUpper_eq_dot c).mp h)

theorem colonFor_eq (c : Char) : colonFor c = normChar c ↔ c.isLower = false := by
  unfold colonFor normChar
  by_cases hdot : c = '.'
  · subst hdot
    decide
  · rw [if_neg hdot, if_neg fun h => hdot ((toUpper_eq_dot c).mp h), eq_comm, toUpper_eq_self]

/-- The buffer holds the table's spelling unless a small letter is left. -/
theorem capitalName_eq_norm (s : List Char) :
    capitalName s = norm s ↔ ∀ c ∈ fromDot s, c.isLower = false := by
  rw [capitalName_eq, norm_eq, List.append_right_inj, List.map_inj_left]
  exact forall₂_congr fun c _ => colonFor_eq c

/-- What is left of a name is still a spelling of it. -/
theorem norm_capitalName (s : List Char) : norm (capitalName s) = norm s := by
  have hupper : ∀ c : Char, normChar c.toUpper = normChar c := by
    intro c
    unfold normChar
    rw [(toUpper_eq_self _).mpr c.isLower_toUpper_eq_false]
  have hcolon : ∀ c : Char, normChar (colonFor c) = normChar c := by
    intro c
    by_cases hdot : c = '.'
    · subst hdot
      decide
    · rw [colonFor, if_neg hdot]
  have hsplit : norm s = norm (s.takeWhile (· ≠ '.')) ++ norm (fromDot s) := by
    rw [norm, norm, norm, ← List.map_append, fromDot, List.takeWhile_append_dropWhile]
  rw [hsplit, capitalName_eq, norm, List.map_append, List.map_map, List.map_map]
  congr 1
  · exact List.map_congr_left fun c _ => hupper c
  · exact List.map_congr_left fun c _ => hcolon c

/-- The table is written in the one spelling. -/
theorem latencyEvents_normal : ∀ e ∈ latencyEvents, norm e.1.toList = e.1.toList := by
  decide +kernel

def latencyNames : List (List Char) := latencyEvents.map fun e => e.1.toList

/-- A name that is found was already in the table's spelling. -/
theorem found_normal {s : List Char} (h : capitalName s ∈ latencyNames) :
    capitalName s = norm s := by
  obtain ⟨e, he, heq⟩ := List.mem_map.mp h
  rw [← norm_capitalName s, ← heq, latencyEvents_normal e he]

/-- A name is matched in this spelling: it is accepted if it is in the table, with
the settings of its row, and is then in the caller's buffer. -/
structure MatchesName (lib : Library) (h : Handles) (samplePeriod : BitVec 32)
    (s : List Char) : Prop where
  accepted : (∃ attr, capitalLatencyEvent lib h samplePeriod s = .ok attr) ↔ norm s ∈ latencyNames
  row : ∀ attr, capitalLatencyEvent lib h samplePeriod s = .ok attr →
    ∃ e, latencyEvents.find? (fun e => e.1.toList = norm s) = some e ∧
      attr.config = 0x5101c6 ∧ attr.config1 = e.2
  buffer : ∀ attr, capitalLatencyEvent lib h samplePeriod s = .ok attr → capitalName s = norm s

theorem accepted_iff (lib : Library) (h : Handles) (samplePeriod : BitVec 32) (s : List Char) :
    (∃ attr, capitalLatencyEvent lib h samplePeriod s = .ok attr) ↔
      capitalName s ∈ latencyNames := by
  unfold capitalLatencyEvent
  constructor
  · rintro ⟨attr, hok⟩
    cases hfind : latencyEvents.find? fun e => e.1.toList = capitalName s with
    | none =>
      rw [hfind] at hok
      contradiction
    | some e =>
      have heq : e.1.toList = capitalName s := by simpa using List.find?_some hfind
      exact List.mem_map.mpr ⟨e, List.mem_of_find?_eq_some hfind, heq⟩
  · intro hin
    obtain ⟨e, he, heq⟩ := List.mem_map.mp hin
    cases hfind : latencyEvents.find? fun e => e.1.toList = capitalName s with
    | none =>
      have hnot := List.find?_eq_none.mp hfind e he
      simp [heq] at hnot
    | some e => exact ⟨_, rfl⟩

/-- The buffer decides the result. -/
theorem capitalLatencyEvent_congr {lib : Library} {h : Handles} {samplePeriod : BitVec 32}
    {s t : List Char} (hname : capitalName s = capitalName t) :
    capitalLatencyEvent lib h samplePeriod s = capitalLatencyEvent lib h samplePeriod t := by
  unfold capitalLatencyEvent
  rw [hname]

theorem capitalLatencyEvent_unknown {lib : Library} {h : Handles} {samplePeriod : BitVec 32}
    {s : List Char} (hname : capitalName s ∉ latencyNames) :
    capitalLatencyEvent lib h samplePeriod s = .error 1 := by
  cases hok : capitalLatencyEvent lib h samplePeriod s with
  | ok attr => exact absurd ((accepted_iff lib h samplePeriod s).mp ⟨attr, hok⟩) hname
  | error code =>
    unfold capitalLatencyEvent at hok
    split at hok
    · exact hok.symm
    · contradiction

theorem capitalLatencyEvent_row {lib : Library} {h : Handles} {samplePeriod : BitVec 32}
    {s : List Char} {attr : Attr} (hok : capitalLatencyEvent lib h samplePeriod s = .ok attr) :
    ∃ e, latencyEvents.find? (fun e => e.1.toList = capitalName s) = some e ∧
      attr.config = 0x5101c6 ∧ attr.config1 = e.2 := by
  unfold capitalLatencyEvent at hok
  cases hfind : latencyEvents.find? fun e => e.1.toList = capitalName s with
  | none =>
    rw [hfind] at hok
    contradiction
  | some e =>
    rw [hfind] at hok
    cases hok
    exact ⟨e, rfl, rfl, rfl⟩

theorem matchesName_spelling (lib : Library) (h : Handles) (samplePeriod : BitVec 32)
    (s : List Char) : MatchesName lib h samplePeriod s ↔
      norm s ∉ latencyNames ∨ ∀ c ∈ fromDot s, c.isLower = false := by
  have hbuffer : ∀ attr, capitalLatencyEvent lib h samplePeriod s = .ok attr →
      capitalName s = norm s := fun attr hok =>
    found_normal ((accepted_iff lib h samplePeriod s).mp ⟨attr, hok⟩)
  constructor
  · intro hmatch
    by_cases hin : norm s ∈ latencyNames
    · obtain ⟨attr, hok⟩ := hmatch.accepted.mpr hin
      exact .inr ((capitalName_eq_norm s).mp (hbuffer attr hok))
    · exact .inl hin
  · intro hcond
    have haccepted : (∃ attr, capitalLatencyEvent lib h samplePeriod s = .ok attr) ↔
        norm s ∈ latencyNames := by
      rw [accepted_iff]
      constructor
      · intro hin
        rwa [← found_normal hin]
      · intro hin
        rcases hcond with hout | hsmall
        · exact absurd hin hout
        · rwa [(capitalName_eq_norm s).mpr hsmall]
    refine ⟨haccepted, fun attr hok => ?_, hbuffer⟩
    rw [← hbuffer attr hok]
    exact capitalLatencyEvent_row hok

/-- A name is matched in every spelling without a small letter behind its first
dot, and spellings that are matched are one event. -/
theorem matchesName_iff (lib : Library) (h : Handles) (samplePeriod : BitVec 32) (s : List Char) :
    (MatchesName lib h samplePeriod s ↔
      norm s ∉ latencyNames ∨ ∀ c ∈ fromDot s, c.isLower = false) ∧
    ∀ t, norm t = norm s → MatchesName lib h samplePeriod s → MatchesName lib h samplePeriod t →
      capitalLatencyEvent lib h samplePeriod s = capitalLatencyEvent lib h samplePeriod t := by
  refine ⟨matchesName_spelling lib h samplePeriod s, fun t hnorm hs ht => ?_⟩
  by_cases hin : norm s ∈ latencyNames
  · obtain ⟨attr, hok⟩ := hs.accepted.mpr hin
    obtain ⟨attr', hok'⟩ := ht.accepted.mpr (hnorm ▸ hin)
    exact capitalLatencyEvent_congr
      ((hs.buffer attr hok).trans (hnorm.symm.trans (ht.buffer attr' hok').symm))
  · have hout : capitalName s ∉ latencyNames := fun hfound => hin (found_normal hfound ▸ hfound)
    have hout' : capitalName t ∉ latencyNames := fun hfound =>
      hin (hnorm ▸ found_normal hfound ▸ hfound)
    rw [capitalLatencyEvent_unknown hout, capitalLatencyEvent_unknown hout']

def ignorantLibrary : Library where
  attrSize := 120
  encoding := fun _ _ => none

/-- The spellings of the event lists. -/
theorem matchesName_lists :
    capitalLatencyEvent ignorantLibrary ⟨1, 0xf⟩ 1000 "frontend_retired:latency_ge_128".toList =
      capitalLatencyEvent ignorantLibrary ⟨1, 0xf⟩ 1000
        "Frontend_Retired.LATENCY_GE_128".toList := by
  have hcolon := matchesName_iff ignorantLibrary ⟨1, 0xf⟩ 1000
    "frontend_retired:latency_ge_128".toList
  have hdot := matchesName_spelling ignorantLibrary ⟨1, 0xf⟩ 1000
    "Frontend_Retired.LATENCY_GE_128".toList
  have hnorm : norm "Frontend_Retired.LATENCY_GE_128".toList =
      norm "frontend_retired:latency_ge_128".toList := by decide +kernel
  have hmatches := hcolon.1.mpr (.inr ((noSmallLetter_iff _).mp (by decide +kernel)))
  have hmatches' := hdot.mpr (.inr ((noSmallLetter_iff _).mp (by decide +kernel)))
  exact hcolon.2 _ hnorm hmatches hmatches'

/-- With a dot, the same name is unknown in small letters. -/
theorem smallLetters_unknown :
    ¬ MatchesName ignorantLibrary ⟨1, 0xf⟩ 1000 "frontend_retired.latency_ge_128".toList := by
  intro hmatches
  rcases (matchesName_spelling _ _ _ _).mp hmatches with hout | hsmall
  · exact hout (by decide +kernel)
  · have hnone := (noSmallLetter_iff _).mpr hsmall
    exact absurd hnone (by decide +kernel)

end PapiSample.LatencyNames
