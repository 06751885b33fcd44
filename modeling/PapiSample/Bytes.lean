import Mathlib.Data.Int.Order.Basic
import Mathlib.Data.List.Basic
import Mathlib.Tactic.Ring

/-!
Byte-addressed memory and little-endian machine words. A memory is total: it
says what every address holds, also outside the object a program means to
read, so that a read past the end has a value and an address that can be
checked afterwards. Nothing here depends on a particular record format.
-/
namespace PapiSample.Bytes

abbrev Byte := BitVec 8
abbrev Memory := ℤ → Byte

def readBytes (mem : Memory) (pos : ℤ) : ℕ → List Byte
  | 0 => []
  | n + 1 => mem pos :: readBytes mem (pos + 1) n

def Holds (mem : Memory) (pos : ℤ) (bytes : List Byte) : Prop :=
  readBytes mem pos bytes.length = bytes

instance (mem : Memory) (pos : ℤ) (bytes : List Byte) : Decidable (Holds mem pos bytes) :=
  inferInstanceAs (Decidable (_ = _))

/-- Memory that holds a list from address zero on and `rest` elsewhere. -/
def overlay (bytes : List Byte) (rest : Memory) : Memory :=
  fun i => if 0 ≤ i ∧ i < bytes.length then bytes.getD i.toNat 0 else rest i

def memcpy (dst : Memory) (dstPos : ℤ) (src : Memory) (srcPos n : ℤ) : Memory :=
  fun i => if dstPos ≤ i ∧ i < dstPos + n then src (srcPos + (i - dstPos)) else dst i

def clear (dst : Memory) (n : ℤ) : Memory := fun i => if 0 ≤ i ∧ i < n then 0 else dst i

def leBytes : ℕ → ℕ → List Byte
  | 0, _ => []
  | n + 1, v => BitVec.ofNat 8 v :: leBytes n (v / 256)

def leNat : List Byte → ℕ
  | [] => 0
  | b :: rest => b.toNat + 256 * leNat rest

def le16 (v : BitVec 16) : List Byte := leBytes 2 v.toNat
def le32 (v : BitVec 32) : List Byte := leBytes 4 v.toNat
def le64 (v : BitVec 64) : List Byte := leBytes 8 v.toNat

def word16 (mem : Memory) (pos : ℤ) : BitVec 16 := BitVec.ofNat 16 (leNat (readBytes mem pos 2))
def word32 (mem : Memory) (pos : ℤ) : BitVec 32 := BitVec.ofNat 32 (leNat (readBytes mem pos 4))
def word64 (mem : Memory) (pos : ℤ) : BitVec 64 := BitVec.ofNat 64 (leNat (readBytes mem pos 8))

/-- Two's complement wrap-around of a signed integer of `w` bits. -/
def wrap (w : ℕ) (x : ℤ) : ℤ := x.bmod (2 ^ w)

@[simp] theorem readBytes_length (mem : Memory) (pos : ℤ) (n : ℕ) :
    (readBytes mem pos n).length = n := by
  induction n generalizing pos with
  | zero => rfl
  | succ n ih => simp [readBytes, ih]

theorem readBytes_add (mem : Memory) (pos : ℤ) (m n : ℕ) :
    readBytes mem pos (m + n) = readBytes mem pos m ++ readBytes mem (pos + m) n := by
  induction m generalizing pos with
  | zero => simp [readBytes]
  | succ m ih =>
    have hpos : pos + 1 + (m : ℤ) = pos + ((m + 1 : ℕ) : ℤ) := by push_cast; ring
    rw [Nat.succ_add]
    simp only [readBytes, ih, hpos, List.cons_append]

theorem readBytes_getElem? (mem : Memory) (pos : ℤ) (n i : ℕ) (hi : i < n) :
    (readBytes mem pos n)[i]? = some (mem (pos + i)) := by
  induction n generalizing pos i with
  | zero => omega
  | succ n ih =>
    cases i with
    | zero => simp [readBytes]
    | succ i =>
      have hpos : pos + 1 + (i : ℤ) = pos + ((i + 1 : ℕ) : ℤ) := by push_cast; ring
      simp only [readBytes, List.getElem?_cons_succ]
      rw [ih (pos + 1) i (by omega), hpos]

/-- Memories that agree on the addresses read give the same bytes. -/
theorem readBytes_congr (m₁ m₂ : Memory) (p q : ℤ) (n : ℕ)
    (h : ∀ i : ℕ, i < n → m₁ (p + i) = m₂ (q + i)) :
    readBytes m₁ p n = readBytes m₂ q n := by
  apply List.ext_getElem?
  intro i
  by_cases hi : i < n
  · rw [readBytes_getElem? m₁ p n i hi, readBytes_getElem? m₂ q n i hi, h i hi]
  · rw [List.getElem?_eq_none (by simp; omega), List.getElem?_eq_none (by simp; omega)]

/-- Items that are never empty are no more than the bytes they take. -/
theorem length_le_flatMap {ι β : Type} (items : List ι) (enc : ι → List β)
    (h : ∀ x, 0 < (enc x).length) : items.length ≤ (items.flatMap enc).length := by
  induction items with
  | nil => simp
  | cons x rest ih =>
    have hx := h x
    rw [List.flatMap_cons, List.length_append, List.length_cons]
    omega

theorem length_le_of_mem {ι β : Type} (items : List ι) (enc : ι → List β) (x : ι)
    (h : x ∈ items) : (enc x).length ≤ (items.flatMap enc).length := by
  induction items with
  | nil => contradiction
  | cons y rest ih =>
    rw [List.flatMap_cons, List.length_append]
    rcases List.mem_cons.mp h with rfl | hx
    · omega
    · have := ih hx
      omega

theorem holds_append (mem : Memory) (pos : ℤ) (a b : List Byte) :
    Holds mem pos (a ++ b) ↔ Holds mem pos a ∧ Holds mem (pos + a.length) b := by
  unfold Holds
  rw [List.length_append, readBytes_add]
  constructor
  · intro h
    exact List.append_inj h (by simp)
  · rintro ⟨ha, hb⟩
    rw [ha, hb]

theorem holds_cons (mem : Memory) (pos : ℤ) (b : Byte) (rest : List Byte) :
    Holds mem pos (b :: rest) ↔ mem pos = b ∧ Holds mem (pos + 1) rest := by
  unfold Holds
  simp only [List.length_cons, readBytes, List.cons.injEq]

theorem holds_overlay (bytes : List Byte) (rest : Memory) : Holds (overlay bytes rest) 0 bytes := by
  unfold Holds
  apply List.ext_getElem?
  intro i
  by_cases hi : i < bytes.length
  · rw [readBytes_getElem? _ _ _ i hi]
    simp [overlay, hi]
  · rw [List.getElem?_eq_none (by simp; omega), List.getElem?_eq_none (by omega)]

theorem readBytes_zeros (pos : ℤ) (n : ℕ) :
    readBytes (fun _ => 0) pos n = List.replicate n 0 := by
  induction n generalizing pos with
  | zero => rfl
  | succ n ih => rw [readBytes, ih, List.replicate_succ]

/-- Behind a list that is laid over zeros there are zeros. -/
theorem holds_overlay_zeros (bytes : List Byte) (n : ℕ) :
    Holds (overlay bytes fun _ => 0) 0 (bytes ++ List.replicate n 0) := by
  refine (holds_append ..).mpr ⟨holds_overlay bytes _, ?_⟩
  unfold Holds
  rw [List.length_replicate, ← readBytes_zeros 0 n]
  apply readBytes_congr _ _ _ _ n
  intro i _
  rw [overlay, if_neg (by omega)]

@[simp] theorem leBytes_length (n v : ℕ) : (leBytes n v).length = n := by
  induction n generalizing v with
  | zero => rfl
  | succ n ih => simp [leBytes, ih]

theorem leNat_leBytes (n v : ℕ) : leNat (leBytes n v) = v % 256 ^ n := by
  induction n generalizing v with
  | zero => simp [leBytes, leNat, Nat.mod_one]
  | succ n ih =>
    have hb : (BitVec.ofNat 8 v).toNat = v % 256 := by simp
    rw [leBytes, leNat, ih, hb, Nat.pow_succ', Nat.mod_mul]

@[simp] theorem le16_length (v : BitVec 16) : (le16 v).length = 2 := leBytes_length ..
@[simp] theorem le32_length (v : BitVec 32) : (le32 v).length = 4 := leBytes_length ..
@[simp] theorem le64_length (v : BitVec 64) : (le64 v).length = 8 := leBytes_length ..

theorem word16_of_holds (mem : Memory) (pos : ℤ) (v : BitVec 16)
    (h : Holds mem pos (le16 v)) : word16 mem pos = v := by
  unfold Holds at h
  rw [le16_length] at h
  rw [word16, h, le16, leNat_leBytes, Nat.mod_eq_of_lt (by simpa using v.isLt)]
  simp

theorem word32_of_holds (mem : Memory) (pos : ℤ) (v : BitVec 32)
    (h : Holds mem pos (le32 v)) : word32 mem pos = v := by
  unfold Holds at h
  rw [le32_length] at h
  rw [word32, h, le32, leNat_leBytes, Nat.mod_eq_of_lt (by simpa using v.isLt)]
  simp

theorem word64_of_holds (mem : Memory) (pos : ℤ) (v : BitVec 64)
    (h : Holds mem pos (le64 v)) : word64 mem pos = v := by
  unfold Holds at h
  rw [le64_length] at h
  rw [word64, h, le64, leNat_leBytes, Nat.mod_eq_of_lt (by simpa using v.isLt)]
  simp

/-- A memory as it is seen from one of its addresses. -/
theorem word64_view (mem : Memory) (off pos : ℤ) :
    word64 (fun i => mem (off + i)) pos = word64 mem (off + pos) := by
  unfold word64
  rw [readBytes_congr (fun i => mem (off + i)) mem pos (off + pos) 8 fun i _ => by
    rw [Int.add_assoc]]

/-- A value that fits the signed range is left alone by the wrap. -/
theorem wrap_eq (w : ℕ) (x : ℤ) (h : -2 ^ w ≤ 2 * x) (h' : 2 * x < 2 ^ w) : wrap w x = x := by
  apply Int.bmod_eq_of_le_mul_two
  · push_cast; omega
  · push_cast; omega

theorem wrap_lt (w : ℕ) (x : ℤ) (hw : 0 < w) : 2 * wrap w x < 2 ^ w := by
  have hpos : 0 < 2 ^ w := Nat.two_pow_pos w
  have hodd : (2 : ℤ) ^ w = 2 * 2 ^ (w - 1) := by
    rw [← Int.pow_succ']
    congr 1
    omega
  have h := Int.bmod_lt (x := x) hpos
  push_cast at h
  unfold wrap
  omega

theorem le_wrap (w : ℕ) (x : ℤ) (hw : 0 < w) : -2 ^ w ≤ 2 * wrap w x := by
  have heven : (2 : ℤ) ^ w = 2 * 2 ^ (w - 1) := by
    rw [← Int.pow_succ']
    congr 1
    omega
  have h := Int.le_bmod (x := x) (Nat.two_pow_pos w)
  push_cast at h
  unfold wrap
  omega

theorem wrap_wrap_add (w : ℕ) (x y : ℤ) : wrap w (wrap w x + y) = wrap w (x + y) :=
  Int.bmod_add_bmod

@[simp] theorem wrap_wrap (w : ℕ) (x : ℤ) : wrap w (wrap w x) = wrap w x := by
  have h := wrap_wrap_add w x 0
  rwa [Int.add_zero, Int.add_zero] at h

end PapiSample.Bytes
