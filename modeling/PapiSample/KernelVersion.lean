import PapiSample.Bytes
import PapiSample.DecimalText

/-!
The two functions that put a kernel version into one int: get_kernel_version, which
leaves the components as they are, and check_linux_version_newer of the tests,
which keeps their low bytes. A component that outgrows its byte is lost in the
one and gets into the next component in the other.
-/
namespace PapiSample.KernelVersion

open Bytes DecimalText

structure Version where
  major : ℕ
  minor : ℕ
  subminor : ℕ
  major_lt : major < 2 ^ 15
  minor_lt : minor < 2 ^ 31
  subminor_lt : subminor < 2 ^ 31

structure Release where
  version : Version
  suffix : List Char
  ends : Ends suffix

def Release.text (r : Release) : List Char :=
  Nat.toDigits 10 r.version.major ++ '.' :: (Nat.toDigits 10 r.version.minor ++ '.' ::
    (Nat.toDigits 10 r.version.subminor ++ r.suffix))

def component : Option (List Char) → BitVec 32
  | none => 0
  | some token => atoi token

def components (release : List Char) : BitVec 32 × BitVec 32 × BitVec 32 :=
  let first := strtok '.' release
  let second := strtok '.' first.2
  let third := strtok '.' second.2
  (component first.1, component second.1, component third.1)

def getKernelVersion (release : List Char) : BitVec 32 :=
  let (major, minor, subminor) := components release
  (major <<< 16) ||| (minor <<< 8) ||| subminor

def packed (major minor subminor : BitVec 32) : BitVec 32 :=
  ((major &&& 0xff) <<< 24) ||| ((minor &&& 0xff) <<< 16) ||| ((subminor &&& 0xff) <<< 8)

def checkLinuxVersionNewer (release : List Char) (major minor subminor : BitVec 32) : ℤ :=
  let (currentMajor, currentMinor, currentSub) := components release
  let checkVersion := packed major minor subminor
  let currentVersion := packed currentMajor currentMinor currentSub
  if checkVersion.toInt ≤ currentVersion.toInt then 1 else 0

def Precedes (u v : ℤ × ℤ × ℤ) : Prop :=
  u.1 < v.1 ∨ (u.1 = v.1 ∧ (u.2.1 < v.2.1 ∨ (u.2.1 = v.2.1 ∧ u.2.2 < v.2.2)))

instance (u v : ℤ × ℤ × ℤ) : Decidable (Precedes u v) :=
  inferInstanceAs (Decidable (_ ∨ _ ∧ (_ ∨ _ ∧ _)))

def Version.triple (v : Version) : ℤ × ℤ × ℤ := (v.major, v.minor, v.subminor)

/-- The low bytes of the components, the highest as a signed one. -/
def Version.lowBytes (v : Version) : ℤ × ℤ × ℤ :=
  (wrap 8 v.major, (v.minor % 256 : ℕ), (v.subminor % 256 : ℕ))

/-- The upper half of get_kernel_version's int, as a signed one, and its two lower
bytes: each with what is left over of the components that belong below it. -/
def Version.mixed (v : Version) : ℤ × ℤ × ℤ :=
  (wrap 16 (v.major ||| v.minor / 2 ^ 8 % 2 ^ 16 ||| v.subminor / 2 ^ 16 : ℕ),
    (v.minor % 2 ^ 8 ||| v.subminor / 2 ^ 8 % 2 ^ 8 : ℕ), (v.subminor % 2 ^ 8 : ℕ))

/-- The versions are compared as they are ordered. -/
structure FollowsOrder (running other : Release) (requested : Version) : Prop where
  newer : checkLinuxVersionNewer running.text (BitVec.ofNat 32 requested.major)
    (BitVec.ofNat 32 requested.minor) (BitVec.ofNat 32 requested.subminor) = 1 ↔
      ¬Precedes running.version.triple requested.triple
  monotone : Precedes running.version.triple other.version.triple →
    (getKernelVersion running.text).toInt < (getKernelVersion other.text).toInt

theorem not_dot_of_digit (n : ℕ) : ∀ c ∈ Nat.toDigits 10 n, c ≠ '.' := by
  intro c hc
  have := isDigit_toDigits n c hc
  rintro rfl
  contradiction

/-- Both functions read the version off a release. -/
theorem components_text (r : Release) :
    components r.text = (BitVec.ofNat 32 r.version.major, BitVec.ofNat 32 r.version.minor,
      BitVec.ofNat 32 r.version.subminor) := by
  have hmajor := strtok_delimited '.' (Nat.toDigits 10 r.version.major)
    (Nat.toDigits 10 r.version.minor ++ '.' :: (Nat.toDigits 10 r.version.subminor ++ r.suffix))
    Nat.toDigits_ne_nil (not_dot_of_digit _)
  have hminor := strtok_delimited '.' (Nat.toDigits 10 r.version.minor)
    (Nat.toDigits 10 r.version.subminor ++ r.suffix) Nat.toDigits_ne_nil (not_dot_of_digit _)
  have hsubminor := strtok_last '.' (Nat.toDigits 10 r.version.subminor) r.suffix
    Nat.toDigits_ne_nil (not_dot_of_digit _)
  have hread : ∀ n < 2 ^ 31, atoi (Nat.toDigits 10 n) = BitVec.ofNat 32 n := by
    intro n hn
    have hempty : Ends [] := by
      intro c hc
      simp at hc
    have h := atoi_toDigits n [] hempty hn
    rwa [List.append_nil] at h
  have hlt := r.version.major_lt
  simp only [components, Release.text, hmajor, hminor, hsubminor, component,
    hread _ (show r.version.major < 2 ^ 31 by omega), hread _ r.version.minor_lt,
    atoi_toDigits _ _ (r.ends.takeWhile _) r.version.subminor_lt]

/-- The sign bit of an int is the sign bit of its upper byte. -/
theorem wrap_byte (h l : ℤ) (hl : 0 ≤ l ∧ l < 2 ^ 24) :
    wrap 32 (h * 2 ^ 24 + l) = wrap 8 h * 2 ^ 24 + l := by
  unfold wrap
  simp only [Int.bmod_eq_emod]
  push_cast
  split <;> split <;> omega

theorem wrap_half (h l : ℤ) (hl : 0 ≤ l ∧ l < 2 ^ 16) :
    wrap 32 (h * 2 ^ 16 + l) = wrap 16 h * 2 ^ 16 + l := by
  unfold wrap
  simp only [Int.bmod_eq_emod]
  push_cast
  split <;> split <;> omega

theorem or_eq_add (k a b : ℕ) (hb : b < 2 ^ k) : a * 2 ^ k ||| b = a * 2 ^ k + b := by
  rw [Nat.mul_comm, Nat.two_pow_add_eq_or_of_lt hb]

/-- A number of two digits is ordered by the upper one first. -/
theorem digit_lt_iff (n a b c d : ℤ) (hb : 0 ≤ b ∧ b < n) (hd : 0 ≤ d ∧ d < n) :
    a * n + b < c * n + d ↔ a < c ∨ (a = c ∧ b < d) := by
  rcases lt_trichotomy a c with h | rfl | h
  · have hstep : (a + 1) * n ≤ c * n := Int.mul_le_mul_of_nonneg_right h (by omega)
    rw [Int.add_mul, Int.one_mul] at hstep
    omega
  · omega
  · have hstep : (c + 1) * n ≤ a * n := Int.mul_le_mul_of_nonneg_right h (by omega)
    rw [Int.add_mul, Int.one_mul] at hstep
    omega

def word (u : ℤ × ℤ × ℤ) : ℤ := (u.1 * 2 ^ 8 + u.2.1) * 2 ^ 8 + u.2.2

def Bytewise (u : ℤ × ℤ × ℤ) : Prop := (0 ≤ u.2.1 ∧ u.2.1 < 2 ^ 8) ∧ 0 ≤ u.2.2 ∧ u.2.2 < 2 ^ 8

/-- Such ints are ordered as their parts are. -/
theorem word_lt_iff (u v : ℤ × ℤ × ℤ) (hu : Bytewise u) (hv : Bytewise v) :
    word u < word v ↔ Precedes u v := by
  have hupper := digit_lt_iff (2 ^ 8) u.1 u.2.1 v.1 v.2.1 hu.1 hv.1
  unfold word Precedes
  rw [digit_lt_iff (2 ^ 8) _ _ _ _ hu.2 hv.2, hupper]
  unfold Bytewise at hu hv
  omega

theorem bytewise_lowBytes (v : Version) : Bytewise v.lowBytes := by
  constructor
  · exact ⟨Int.natCast_nonneg _, by simp only [Version.lowBytes]; omega⟩
  · exact ⟨Int.natCast_nonneg _, by simp only [Version.lowBytes]; omega⟩

theorem bytewise_mixed (v : Version) : Bytewise v.mixed := by
  have hor : v.minor % 2 ^ 8 ||| v.subminor / 2 ^ 8 % 2 ^ 8 < 2 ^ 8 := by
    apply Nat.or_lt_two_pow
    · exact Nat.mod_lt _ (by omega)
    · exact Nat.mod_lt _ (by omega)
  constructor
  · exact ⟨Int.natCast_nonneg _, by simp only [Version.mixed]; omega⟩
  · exact ⟨Int.natCast_nonneg _, by simp only [Version.mixed]; omega⟩

theorem toNat_part (n k : ℕ) (hk : k ≤ 24) :
    ((BitVec.ofNat 32 n &&& 0xff) <<< k).toNat = n % 2 ^ 8 * 2 ^ k := by
  have hmask : (BitVec.ofNat 32 n &&& 0xff).toNat = n % 2 ^ 8 := by
    have hand := Nat.and_two_pow_sub_one_eq_mod (n % 2 ^ 32) 8
    rw [BitVec.toNat_and, BitVec.toNat_ofNat]
    exact hand.trans (Nat.mod_mod_of_dvd n (Nat.pow_dvd_pow 2 (by omega)))
  have hlt : n % 2 ^ 8 * 2 ^ k < 2 ^ 32 :=
    calc n % 2 ^ 8 * 2 ^ k < 2 ^ 8 * 2 ^ k :=
          Nat.mul_lt_mul_of_pos_right (Nat.mod_lt n (by omega)) (Nat.two_pow_pos k)
      _ ≤ 2 ^ 8 * 2 ^ 24 := Nat.mul_le_mul_left _ (Nat.pow_le_pow_right (by omega) hk)
  rw [BitVec.toNat_shiftLeft, hmask, Nat.shiftLeft_eq, Nat.mod_eq_of_lt hlt]

/-- check_linux_version_newer keeps the low bytes of the components. -/
theorem packed_eq (v : Version) :
    (packed (BitVec.ofNat 32 v.major) (BitVec.ofNat 32 v.minor)
      (BitVec.ofNat 32 v.subminor)).toInt = word v.lowBytes * 2 ^ 8 := by
  have hsum : (packed (BitVec.ofNat 32 v.major) (BitVec.ofNat 32 v.minor)
      (BitVec.ofNat 32 v.subminor)).toNat =
        v.major % 2 ^ 8 * 2 ^ 24 + (v.minor % 2 ^ 8 * 2 ^ 16 + v.subminor % 2 ^ 8 * 2 ^ 8) := by
    rw [packed, BitVec.toNat_or, BitVec.toNat_or, toNat_part _ _ (by omega),
      toNat_part _ _ (by omega), toNat_part _ _ (by omega), Nat.or_assoc,
      or_eq_add 16 _ _ (by omega), or_eq_add 24 _ _ (by omega)]
  have hsign := wrap_byte (v.major % 2 ^ 8 : ℕ)
    (v.minor % 2 ^ 8 * 2 ^ 16 + v.subminor % 2 ^ 8 * 2 ^ 8 : ℕ) (by omega)
  have hmajor : wrap 8 (v.major % 2 ^ 8 : ℕ) = wrap 8 v.major := by
    rw [Int.natCast_emod]
    exact Int.emod_bmod ..
  rw [BitVec.toInt_eq_toNat_bmod, hsum]
  have hcast : ((v.major % 2 ^ 8 * 2 ^ 24 +
      (v.minor % 2 ^ 8 * 2 ^ 16 + v.subminor % 2 ^ 8 * 2 ^ 8) : ℕ) : ℤ) =
        (v.major % 2 ^ 8 : ℕ) * 2 ^ 24 +
          (v.minor % 2 ^ 8 * 2 ^ 16 + v.subminor % 2 ^ 8 * 2 ^ 8 : ℕ) := by
    push_cast
    ring
  have hword : word v.lowBytes * 2 ^ 8 = wrap 8 v.major * 2 ^ 24 +
      (v.minor % 2 ^ 8 * 2 ^ 16 + v.subminor % 2 ^ 8 * 2 ^ 8 : ℕ) := by
    simp only [word, Version.lowBytes]
    push_cast
    ring
  rw [hcast, hword, ← hmajor]
  exact hsign

theorem toNat_getKernelVersion (r : Release) :
    (getKernelVersion r.text).toNat =
      (r.version.major * 2 ^ 16 ||| r.version.minor * 2 ^ 8 % 2 ^ 32) ||| r.version.subminor := by
  have hmajor := r.version.major_lt
  have hminor := r.version.minor_lt
  have hsubminor := r.version.subminor_lt
  rw [getKernelVersion, components_text, BitVec.toNat_or, BitVec.toNat_or,
    BitVec.toNat_shiftLeft, BitVec.toNat_shiftLeft, BitVec.toNat_ofNat, BitVec.toNat_ofNat,
    BitVec.toNat_ofNat, Nat.shiftLeft_eq, Nat.shiftLeft_eq,
    Nat.mod_eq_of_lt (show r.version.major < 2 ^ 32 by omega),
    Nat.mod_eq_of_lt (show r.version.major * 2 ^ 16 < 2 ^ 32 by omega),
    Nat.mod_eq_of_lt (show r.version.minor < 2 ^ 32 by omega),
    Nat.mod_eq_of_lt (show r.version.subminor < 2 ^ 32 by omega)]

/-- get_kernel_version mixes what is left over into the parts above. -/
theorem getKernelVersion_eq (r : Release) :
    (getKernelVersion r.text).toInt = word r.version.mixed := by
  have hsum := toNat_getKernelVersion r
  rw [BitVec.toInt_eq_toNat_bmod]
  generalize (getKernelVersion r.text).toNat = n at hsum
  have hupper : n / 2 ^ 16 = r.version.major ||| r.version.minor / 2 ^ 8 % 2 ^ 16 |||
      r.version.subminor / 2 ^ 16 := by
    rw [hsum, Nat.or_div_two_pow, Nat.or_div_two_pow]
    congr 2
    · omega
    · omega
  have hmiddle : n / 2 ^ 8 % 2 ^ 8 =
      r.version.minor % 2 ^ 8 ||| r.version.subminor / 2 ^ 8 % 2 ^ 8 := by
    have hmajor : r.version.major * 2 ^ 16 / 2 ^ 8 % 2 ^ 8 = 0 := by omega
    have hminor : r.version.minor * 2 ^ 8 % 2 ^ 32 / 2 ^ 8 % 2 ^ 8 = r.version.minor % 2 ^ 8 := by
      omega
    rw [hsum, Nat.or_div_two_pow, Nat.or_div_two_pow, Nat.or_mod_two_pow, Nat.or_mod_two_pow,
      hmajor, hminor, Nat.zero_or]
  have hlow : n % 2 ^ 8 = r.version.subminor % 2 ^ 8 := by
    have hmajor : r.version.major * 2 ^ 16 % 2 ^ 8 = 0 := by omega
    have hminor : r.version.minor * 2 ^ 8 % 2 ^ 32 % 2 ^ 8 = 0 := by omega
    rw [hsum, Nat.or_mod_two_pow, Nat.or_mod_two_pow, hmajor, hminor, Nat.zero_or, Nat.zero_or]
  have hsplit : (n : ℤ) = (n / 2 ^ 16 : ℕ) * 2 ^ 16 +
      ((n / 2 ^ 8 % 2 ^ 8 : ℕ) * 2 ^ 8 + (n % 2 ^ 8 : ℕ)) := by omega
  have hsign := wrap_half (n / 2 ^ 16 : ℕ) ((n / 2 ^ 8 % 2 ^ 8 : ℕ) * 2 ^ 8 + (n % 2 ^ 8 : ℕ))
    (by omega)
  rw [← hsplit] at hsign
  refine hsign.trans ?_
  rw [hupper, hmiddle, hlow, word, Version.mixed]
  ring

theorem checkLinuxVersionNewer_eq (r : Release) (requested : Version) :
    checkLinuxVersionNewer r.text (BitVec.ofNat 32 requested.major)
        (BitVec.ofNat 32 requested.minor) (BitVec.ofNat 32 requested.subminor) = 1 ↔
      ¬Precedes r.version.lowBytes requested.lowBytes := by
  have horder := word_lt_iff r.version.lowBytes requested.lowBytes (bytewise_lowBytes _)
    (bytewise_lowBytes _)
  rw [checkLinuxVersionNewer, components_text, ← horder]
  simp only [packed_eq]
  split
  · simp only [true_iff]
    omega
  · simp only [Int.reduceEq, false_iff]
    omega

theorem getKernelVersion_lt_iff (running other : Release) :
    (getKernelVersion running.text).toInt < (getKernelVersion other.text).toInt ↔
      Precedes running.version.mixed other.version.mixed := by
  have hmixed := word_lt_iff running.version.mixed other.version.mixed (bytewise_mixed _)
    (bytewise_mixed _)
  rwa [← getKernelVersion_eq, ← getKernelVersion_eq] at hmixed

/-- The two functions follow the order of versions exactly where the low bytes of the
components, and in the other function the bytes that they mix into, stand in
that order. -/
theorem followsOrder_iff (running other : Release) (requested : Version) :
    FollowsOrder running other requested ↔
      (Precedes running.version.lowBytes requested.lowBytes ↔
        Precedes running.version.triple requested.triple) ∧
      (Precedes running.version.triple other.version.triple →
        Precedes running.version.mixed other.version.mixed) := by
  have hnewer := checkLinuxVersionNewer_eq running requested
  have hmixed := getKernelVersion_lt_iff running other
  constructor
  · rintro ⟨hcheck, hmonotone⟩
    refine ⟨?_, fun horder => hmixed.mp (hmonotone horder)⟩
    exact not_iff_not.mp (hnewer.symm.trans hcheck)
  · rintro ⟨hcheck, hmonotone⟩
    exact ⟨hnewer.trans (not_congr hcheck), fun horder => hmixed.mpr (hmonotone horder)⟩

def Version.Fits (v : Version) : Prop := v.major < 128 ∧ v.minor < 256 ∧ v.subminor < 256

theorem Version.Fits.lowBytes {v : Version} (h : v.Fits) : v.lowBytes = v.triple := by
  obtain ⟨hmajor, hminor, hsubminor⟩ := h
  rw [Version.lowBytes, Version.triple, wrap_eq 8 v.major (by omega) (by omega),
    Nat.mod_eq_of_lt hminor, Nat.mod_eq_of_lt hsubminor]

theorem Version.Fits.mixed {v : Version} (h : v.Fits) : v.mixed = v.triple := by
  obtain ⟨hmajor, hminor, hsubminor⟩ := h
  have hover : ∀ n < 256, n / 2 ^ 8 % 2 ^ 16 = 0 ∧ n / 2 ^ 16 = 0 ∧ n / 2 ^ 8 % 2 ^ 8 = 0 := by
    omega
  rw [Version.mixed, Version.triple, (hover v.minor hminor).1, (hover v.subminor hsubminor).2.1,
    (hover v.subminor hsubminor).2.2, Nat.or_zero, Nat.or_zero, Nat.or_zero,
    wrap_eq 16 v.major (by omega) (by omega), Nat.mod_eq_of_lt (show v.minor < 2 ^ 8 by omega),
    Nat.mod_eq_of_lt (show v.subminor < 2 ^ 8 by omega)]

/-- So versions that fit are compared as they are ordered. -/
theorem followsOrder_of_fits (running other : Release) (requested : Version)
    (hrunning : running.version.Fits) (hother : other.version.Fits) (hrequested : requested.Fits) :
    FollowsOrder running other requested where
  newer := by
    rw [checkLinuxVersionNewer_eq, hrunning.lowBytes, hrequested.lowBytes]
  monotone := by
    rw [getKernelVersion_lt_iff, hrunning.mixed, hother.mixed]
    exact fun horder => horder

def version (major minor subminor : ℕ) (h : major < 2 ^ 15 ∧ minor < 2 ^ 31 ∧ subminor < 2 ^ 31) :
    Version := ⟨major, minor, subminor, h.1, h.2.1, h.2.2⟩

/-- On 4.4.256 the version 4.4.255 counts as newer. -/
theorem followsOrder_stable : ¬FollowsOrder ⟨version 4 4 256 (by omega), [], by simp [Ends]⟩
    ⟨version 4 5 0 (by omega), [], by simp [Ends]⟩ (version 4 4 255 (by omega)) := by
  intro h
  have hnewer := h.newer
  revert hnewer
  decide +kernel

end PapiSample.KernelVersion
