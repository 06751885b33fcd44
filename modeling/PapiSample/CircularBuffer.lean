import Mathlib.Data.Int.ModEq
import Mathlib.Data.List.Basic

/-!
A circular buffer of `size` cells that holds the recent part of an endless
stream. Item `k` of the stream lies in the cell `k % size`. As long as a writer
stays less than one lap ahead of a reader, what it writes does not disturb what
the reader has yet to see.
-/
namespace PapiSample.CircularBuffer

variable {α : Type}

def place (size : ℤ) (ring : ℤ → α) (pos : ℤ) : List α → ℤ → α
  | [] => ring
  | x :: xs => place size (Function.update ring (pos % size) x) (pos + 1) xs

/-- The cells hold everything from position `tail` on. -/
def Stores (size : ℤ) (ring : ℤ → α) (stream : List α) (tail : ℕ) : Prop :=
  ∀ k x, tail ≤ k → stream[k]? = some x → ring (k % size) = x

theorem stores_nil (size : ℤ) (ring : ℤ → α) (tail : ℕ) : Stores size ring [] tail :=
  fun _ _ _ h => absurd h nofun

variable {size : ℤ} {ring : ℤ → α} {stream : List α} {tail : ℕ}

theorem Stores.advance (h : Stores size ring stream tail) {tail' : ℕ} (hle : tail ≤ tail') :
    Stores size ring stream tail' := fun k x hk hx => h k x (by omega) hx

/-- Two positions less than a lap apart lie in different cells. -/
theorem cells_ne {j k : ℤ} (hlt : j < k) (hlap : k < j + size) : j % size ≠ k % size := by
  intro heq
  have hdvd : size ∣ k - j := Int.ModEq.dvd heq
  have hle := Int.le_of_dvd (by omega) hdvd
  omega

/-- One more item, less than a lap ahead of the reader. -/
theorem Stores.push (h : Stores size ring stream tail) (x : α)
    (hlap : (stream.length : ℤ) < tail + size) :
    Stores size (Function.update ring (stream.length % size) x) (stream ++ [x]) tail := by
  intro k y hk hy
  rcases Nat.lt_or_ge k stream.length with hlt | hge
  · rw [List.getElem?_append_left hlt] at hy
    have hcell : (k : ℤ) % size ≠ stream.length % size := cells_ne (by omega) (by omega)
    rw [Function.update_of_ne hcell]
    exact h k y hk hy
  · have hlen : k = stream.length := by
      have := (List.getElem?_eq_some_iff.mp hy).1
      rw [List.length_append, List.length_singleton] at this
      omega
    subst hlen
    rw [List.getElem?_concat_length] at hy
    cases hy
    exact Function.update_self ..

/-- What the writer appends is stored, and nothing unread is lost. -/
theorem Stores.append (h : Stores size ring stream tail) (xs : List α)
    (hlap : (stream.length + xs.length : ℤ) ≤ tail + size) :
    Stores size (place size ring stream.length xs) (stream ++ xs) tail := by
  induction xs generalizing ring stream with
  | nil => simpa [place] using h
  | cons x xs ih =>
    rw [List.length_cons] at hlap
    push_cast at hlap
    have hnext := ih (h.push x (by omega)) (by simp; omega)
    rw [List.length_append, List.length_singleton, List.append_assoc] at hnext
    exact hnext

/-- The cells behind that of `pos`, up to the end of the buffer. -/
theorem cell_toEnd {pos k : ℤ} (hk : 0 ≤ k) (hend : k < size - pos % size) (hsize : 0 < size) :
    (pos + k) % size = pos % size + k := by
  have hlow : 0 ≤ pos % size := Int.emod_nonneg pos (by omega)
  rw [Int.add_emod, Int.emod_eq_of_lt hk (by omega), Int.emod_eq_of_lt (by omega) (by omega)]

/-- The cells that follow them, from the start of the buffer on. -/
theorem cell_fromStart {pos k : ℤ} (hstart : size - pos % size ≤ k) (hk : k < size)
    (hsize : 0 < size) : (pos + k) % size = k - (size - pos % size) := by
  have hlow : 0 ≤ pos % size := Int.emod_nonneg pos (by omega)
  have hhigh : pos % size < size := Int.emod_lt_of_pos pos hsize
  rw [Int.add_emod, Int.emod_eq_of_lt (by omega : 0 ≤ k) hk, ← Int.sub_emod_right,
    Int.emod_eq_of_lt (by omega) (by omega)]
  omega

/-- The first `n` cells of a window hold the stream from position `tail` up to
`head`, as far as they reach. -/
def Copied (window : ℤ → α) (stream : List α) (tail : ℕ) (head n : ℤ) : Prop :=
  ∀ k : ℕ, (k : ℤ) < n → (tail + k : ℤ) < head → stream[tail + k]? = some (window k)

variable {window window' : ℤ → α} {head : ℤ}

/-- What the writer does later is no matter to the window. -/
theorem Copied.append {n : ℤ} (h : Copied window stream tail head n) (xs : List α)
    (hhead : head ≤ stream.length) : Copied window (stream ++ xs) tail head n := by
  intro k hk hlt
  rw [List.getElem?_append_left (by omega)]
  exact h k hk hlt

/-- A first copy takes the cells up to the end of the buffer. -/
theorem Stores.copied_toEnd (h : Stores size ring stream tail) (hsize : 0 < size)
    (hhead : head ≤ stream.length)
    (hcopy : ∀ k, 0 ≤ k → k < size - tail % size → window k = ring (tail % size + k)) :
    Copied window stream tail head (size - tail % size) := by
  intro k hk hlt
  have hx : stream[tail + k]? = some stream[tail + k] := List.getElem?_eq_getElem (by omega)
  have hcell := h (tail + k) _ (by omega) hx
  rw [Nat.cast_add, cell_toEnd (by omega) hk hsize, ← hcopy k (by omega) hk] at hcell
  rw [hx, hcell]

/-- A second copy takes those from the start of the buffer on. Between the two
copies the writer may have gone on. -/
theorem Copied.fromStart (h : Copied window stream tail head (size - tail % size))
    (hstores : Stores size ring stream tail) (hsize : 0 < size) (hhead : head ≤ stream.length)
    (hkept : ∀ k, 0 ≤ k → k < size - tail % size → window' k = window k)
    (hcopy : ∀ k, size - tail % size ≤ k → k < size →
      window' k = ring (k - (size - tail % size))) :
    Copied window' stream tail head size := by
  intro k hk hlt
  rcases lt_or_ge (k : ℤ) (size - tail % size) with hfirst | hsecond
  · rw [hkept k (by omega) hfirst]
    exact h k hfirst hlt
  · have hx : stream[tail + k]? = some stream[tail + k] := List.getElem?_eq_getElem (by omega)
    have hcell := hstores (tail + k) _ (by omega) hx
    rw [Nat.cast_add, cell_fromStart hsecond hk hsize, ← hcopy k hsecond hk] at hcell
    rw [hx, hcell]

end PapiSample.CircularBuffer
