import Mathlib.Algebra.Order.Ring.Int
import Mathlib.Data.List.Basic

/-!
Numbers in text, as the C library reads them: strtok, which takes a string apart
at a delimiter, and atoi, which reads digits up to the first character that is
none.
-/
namespace PapiSample.DecimalText

def isSpace (c : Char) : Bool := c = ' ' || (9 ≤ c.toNat && c.toNat ≤ 13)

/-- strtok, on the string or on what the last call left: the token and what is left. -/
def strtok (delim : Char) (s : List Char) : Option (List Char) × List Char :=
  let token := s.dropWhile (· = delim)
  if token = [] then (none, [])
  else (some (token.takeWhile (· ≠ delim)), (token.dropWhile (· ≠ delim)).drop 1)

def digitsValue (s : List Char) : ℕ := Nat.ofDigitChars 10 (s.takeWhile Char.isDigit) 0

/-- strtol for base ten: the value stops at the bounds of a long. -/
def strtol (s : List Char) : ℤ :=
  match s.dropWhile isSpace with
  | '-' :: digits => max (-2 ^ 63) (-(digitsValue digits : ℤ))
  | '+' :: digits => min (2 ^ 63 - 1) (digitsValue digits : ℤ)
  | digits => min (2 ^ 63 - 1) (digitsValue digits : ℤ)

def atoi (s : List Char) : BitVec 32 := BitVec.ofInt 32 (strtol s)

def Ends (rest : List Char) : Prop := ∀ c ∈ rest.head?, c.isDigit = false

theorem Ends.takeWhile {rest : List Char} (h : Ends rest) (p : Char → Bool) :
    Ends (rest.takeWhile p) := by
  cases rest with
  | nil => exact h
  | cons c more =>
    rw [List.takeWhile_cons]
    split
    · exact h
    · intro d hd
      simp at hd

theorem takeWhile_ends {rest : List Char} (h : Ends rest) : rest.takeWhile Char.isDigit = [] := by
  cases rest with
  | nil => rfl
  | cons c more =>
    have hc : c.isDigit = false := h c rfl
    rw [List.takeWhile_cons, if_neg (by rw [hc]; exact Bool.false_ne_true)]

theorem isDigit_toDigits (n : ℕ) : ∀ c ∈ Nat.toDigits 10 n, c.isDigit = true := by
  intro c hc
  exact Nat.isDigit_of_mem_toDigits (by omega) (by omega) hc

theorem digitsValue_toDigits (n : ℕ) (rest : List Char) (hrest : Ends rest) :
    digitsValue (Nat.toDigits 10 n ++ rest) = n := by
  rw [digitsValue, List.takeWhile_append_of_pos (isDigit_toDigits n), takeWhile_ends hrest,
    List.append_nil, Nat.ofDigitChars_ten_toDigits]

theorem isSpace_of_isDigit {c : Char} (h : c.isDigit = true) : isSpace c = false := by
  have hcode := Char.isDigit_iff_toNat.mp h
  have hzero : '0'.toNat = 48 := rfl
  have hne : c ≠ ' ' := by
    rintro rfl
    contradiction
  simp only [isSpace, Bool.or_eq_false_iff, decide_eq_false_iff_not, Bool.and_eq_false_iff]
  exact ⟨hne, by omega⟩

/-- A numeral is read as its number, whatever follows it. -/
theorem atoi_toDigits (n : ℕ) (rest : List Char) (hrest : Ends rest) (hn : n < 2 ^ 31) :
    atoi (Nat.toDigits 10 n ++ rest) = BitVec.ofNat 32 n := by
  have hvalue := digitsValue_toDigits n rest hrest
  obtain ⟨d, more, htext⟩ := List.exists_cons_of_ne_nil (Nat.toDigits_ne_nil (n := n) (b := 10))
  have hd : d.isDigit = true := by
    apply isDigit_toDigits n
    rw [htext]
    exact List.mem_cons_self
  have hlong : strtol (Nat.toDigits 10 n ++ rest) = n := by
    rw [htext, List.cons_append] at hvalue ⊢
    have hskip : (d :: (more ++ rest)).dropWhile isSpace = d :: (more ++ rest) := by
      rw [List.dropWhile_cons, isSpace_of_isDigit hd]
      rfl
    rw [strtol, hskip]
    split
    · rename_i digits heq
      cases heq
      contradiction
    · rename_i digits heq
      cases heq
      contradiction
    · rw [hvalue]
      omega
  rw [atoi, hlong, BitVec.ofInt_natCast]

theorem dropWhile_token {delim : Char} {token : List Char} (rest : List Char) (hne : token ≠ [])
    (htoken : ∀ c ∈ token, c ≠ delim) : (token ++ rest).dropWhile (· = delim) = token ++ rest := by
  cases token with
  | nil => contradiction
  | cons c more =>
    have hc : c ≠ delim := htoken c List.mem_cons_self
    rw [List.cons_append, List.dropWhile_cons, if_neg (by simpa using hc)]

/-- The token in front of a delimiter. -/
theorem strtok_delimited (delim : Char) (token rest : List Char) (hne : token ≠ [])
    (htoken : ∀ c ∈ token, c ≠ delim) :
    strtok delim (token ++ delim :: rest) = (some token, rest) := by
  have hpos : ∀ c ∈ token, decide (c ≠ delim) = true := by simpa using htoken
  have hsome : token ++ delim :: rest ≠ [] := by simp
  simp only [strtok, dropWhile_token _ hne htoken, if_neg hsome, List.takeWhile_append_of_pos hpos,
    List.dropWhile_append_of_pos hpos]
  simp

theorem strtok_last (delim : Char) (token rest : List Char) (hne : token ≠ [])
    (htoken : ∀ c ∈ token, c ≠ delim) :
    (strtok delim (token ++ rest)).1 = some (token ++ rest.takeWhile (· ≠ delim)) := by
  have hpos : ∀ c ∈ token, decide (c ≠ delim) = true := by simpa using htoken
  have hsome : token ++ rest ≠ [] := by simp [hne]
  simp only [strtok, dropWhile_token _ hne htoken, if_neg hsome, List.takeWhile_append_of_pos hpos]

end PapiSample.DecimalText
