import Mathlib.Data.List.Nodup
import PapiSample.Bytes

/-!
Block copies byte by byte. A copy is the list of its moves, each of one source
index to one target index, and memcpy makes them one after another; what a
program reads and writes through its copies can then be counted.
-/
namespace PapiSample.BlockCopy

open Bytes

structure Copy where
  dst : ℤ
  src : ℤ
  len : ℤ

def Copy.moves (c : Copy) : List (ℤ × ℤ) :=
  (List.range c.len.toNat).map fun i : ℕ => (c.dst + (i : ℤ), c.src + (i : ℤ))

def makeMove (source : Memory) (mem : Memory) (move : ℤ × ℤ) : Memory :=
  Function.update mem move.1 (source move.2)

def runCopies (source : Memory) (copies : List Copy) (mem : Memory) : Memory :=
  copies.foldl (fun mem c => memcpy mem c.dst source c.src c.len) mem

def allMoves (copies : List Copy) : List (ℤ × ℤ) := copies.flatMap Copy.moves

def readIndices (copies : List Copy) : List ℤ := (allMoves copies).map Prod.snd

def writtenIndices (copies : List Copy) : List ℤ := (allMoves copies).map Prod.fst

theorem memcpy_zero (mem source : Memory) (dst src : ℤ) : memcpy mem dst source src 0 = mem := by
  funext i
  rw [memcpy, if_neg (by omega)]

/-- The last byte of a copy is written behind the others. -/
theorem memcpy_succ (mem source : Memory) (dst src : ℤ) (n : ℕ) :
    memcpy mem dst source src (n + 1) =
      Function.update (memcpy mem dst source src n) (dst + n) (source (src + n)) := by
  funext i
  by_cases hlast : i = dst + n
  · subst hlast
    rw [Function.update_self, memcpy, if_pos (by omega), add_sub_cancel_left]
  · rw [Function.update_of_ne hlast, memcpy, memcpy]
    by_cases hin : dst ≤ i ∧ i < dst + n
    · rw [if_pos hin, if_pos (by omega)]
    · rw [if_neg hin, if_neg (by omega)]

/-- A copy is its moves made in order. -/
theorem memcpy_moves (source : Memory) (c : Copy) (mem : Memory) (hlen : 0 ≤ c.len) :
    memcpy mem c.dst source c.src c.len = c.moves.foldl (makeMove source) mem := by
  have hnat : ∀ n : ℕ, memcpy mem c.dst source c.src n =
      ((List.range n).map fun i : ℕ => (c.dst + (i : ℤ), c.src + (i : ℤ))).foldl
        (makeMove source) mem := by
    intro n
    induction n with
    | zero => exact memcpy_zero mem source c.dst c.src
    | succ n ih =>
      rw [List.range_succ, List.map_append, List.foldl_append, ← ih]
      push_cast
      exact memcpy_succ mem source c.dst c.src n
  have h := hnat c.len.toNat
  rwa [Int.toNat_of_nonneg hlen] at h

/-- So are several. -/
theorem runCopies_moves (source : Memory) (copies : List Copy) (mem : Memory)
    (hlen : ∀ c ∈ copies, 0 ≤ c.len) :
    runCopies source copies mem = (allMoves copies).foldl (makeMove source) mem := by
  induction copies generalizing mem with
  | nil => rfl
  | cons c rest ih =>
    have hc : 0 ≤ c.len := hlen c List.mem_cons_self
    have hrest := ih (memcpy mem c.dst source c.src c.len)
      fun d hd => hlen d (List.mem_cons_of_mem c hd)
    rw [allMoves, List.flatMap_cons, List.foldl_append, ← memcpy_moves source c mem hc]
    exact hrest

/-- Moves to other places leave a byte as it is. -/
theorem moves_other (source : Memory) (moves : List (ℤ × ℤ)) (mem : Memory) {t : ℤ}
    (h : t ∉ moves.map Prod.fst) : moves.foldl (makeMove source) mem t = mem t := by
  induction moves generalizing mem with
  | nil => rfl
  | cons move rest ih =>
    obtain ⟨hhead, hrest⟩ := not_or.mp (fun hmem => h (List.mem_cons.mpr hmem))
    rw [List.foldl_cons, ih _ hrest]
    exact Function.update_of_ne hhead ..

/-- A byte that is written once holds what was moved there. -/
theorem moves_once (source : Memory) (moves : List (ℤ × ℤ)) (mem : Memory)
    (honce : (moves.map Prod.fst).Nodup) {t s : ℤ} (h : (t, s) ∈ moves) :
    moves.foldl (makeMove source) mem t = source s := by
  induction moves generalizing mem with
  | nil => contradiction
  | cons move rest ih =>
    obtain ⟨hhead, hrest⟩ := List.nodup_cons.mp honce
    rw [List.foldl_cons]
    rcases List.mem_cons.mp h with rfl | hmem
    · rw [moves_other source rest _ hhead]
      exact Function.update_self ..
    · exact ih _ hrest hmem

theorem runCopies_once (source : Memory) (copies : List Copy) (mem : Memory)
    (hlen : ∀ c ∈ copies, 0 ≤ c.len) (honce : (writtenIndices copies).Nodup) {t s : ℤ}
    (h : (t, s) ∈ allMoves copies) : runCopies source copies mem t = source s := by
  rw [runCopies_moves source copies mem hlen]
  exact moves_once source _ mem honce h

theorem mem_moves_of_eq {c : Copy} {i t s : ℤ} (hi : 0 ≤ i) (hlt : i < c.len) (ht : t = c.dst + i)
    (hs : s = c.src + i) : (t, s) ∈ c.moves := by
  refine List.mem_map.mpr ⟨i.toNat, List.mem_range.mpr (by omega), ?_⟩
  rw [Int.toNat_of_nonneg hi, ht, hs]

theorem mem_readIndices {copies : List Copy} {i : ℤ} (h : i ∈ readIndices copies) :
    ∃ c ∈ copies, c.src ≤ i ∧ i < c.src + c.len := by
  obtain ⟨move, hmove, rfl⟩ := List.mem_map.mp h
  obtain ⟨c, hc, hin⟩ := List.mem_flatMap.mp hmove
  obtain ⟨k, hk, rfl⟩ := List.mem_map.mp hin
  have hlt := List.mem_range.mp hk
  refine ⟨c, hc, ?_, ?_⟩
  · show c.src ≤ c.src + k
    omega
  · show c.src + k < c.src + c.len
    omega

/-- Two copies that fill a block from its start, one behind the other. -/
theorem written_adjacent (m n : ℕ) (src src' : ℤ) :
    writtenIndices [⟨0, src, m⟩, ⟨m, src', n⟩] = (List.range (m + n)).map Nat.cast := by
  simp only [writtenIndices, allMoves, Copy.moves, List.flatMap_cons, List.flatMap_nil,
    List.append_nil, Int.toNat_natCast, List.map_append, List.map_map, List.range_add]
  congr 1
  apply List.map_congr_left
  intro i _
  exact Int.zero_add i

theorem count_range (n : ℕ) (k : ℤ) :
    ((List.range n).map (Nat.cast : ℕ → ℤ)).count k = if 0 ≤ k ∧ k < n then 1 else 0 := by
  have hnodup : ((List.range n).map (Nat.cast : ℕ → ℤ)).Nodup :=
    List.nodup_range.map Nat.cast_injective
  have hmem : k ∈ (List.range n).map (Nat.cast : ℕ → ℤ) ↔ 0 ≤ k ∧ k < n := by
    constructor
    · intro h
      obtain ⟨i, hi, rfl⟩ := List.mem_map.mp h
      have := List.mem_range.mp hi
      omega
    · intro h
      exact List.mem_map.mpr ⟨k.toNat, List.mem_range.mpr (by omega), Int.toNat_of_nonneg h.1⟩
  rw [hnodup.count]
  exact if_congr hmem rfl rfl

end PapiSample.BlockCopy
