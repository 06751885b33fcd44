import Mathlib.Data.List.Perm.Basic
import Mathlib.Data.List.Nodup

/-!
A ledger of what a program acquires and releases, in the order in which it does.
A ledger is settled if everything in it is acquired once and released once.
-/
namespace PapiSample.Ledger

inductive Move (R : Type)
  | acquire (r : R)
  | release (r : R)

variable {R : Type}

def Move.gain : Move R → Option R
  | .acquire r => some r
  | .release _ => none

def Move.loss : Move R → Option R
  | .acquire _ => none
  | .release r => some r

def acquired (moves : List (Move R)) : List R := moves.filterMap Move.gain

def released (moves : List (Move R)) : List R := moves.filterMap Move.loss

@[simp] theorem acquired_append (x y : List (Move R)) :
    acquired (x ++ y) = acquired x ++ acquired y := List.filterMap_append

@[simp] theorem released_append (x y : List (Move R)) :
    released (x ++ y) = released x ++ released y := List.filterMap_append

@[simp] theorem acquired_acquire (r : R) (moves : List (Move R)) :
    acquired (.acquire r :: moves) = r :: acquired moves := rfl

@[simp] theorem acquired_release (r : R) (moves : List (Move R)) :
    acquired (.release r :: moves) = acquired moves := rfl

@[simp] theorem released_acquire (r : R) (moves : List (Move R)) :
    released (.acquire r :: moves) = released moves := rfl

@[simp] theorem released_release (r : R) (moves : List (Move R)) :
    released (.release r :: moves) = r :: released moves := rfl

@[simp] theorem acquired_map_acquire (rs : List R) : acquired (rs.map .acquire) = rs := by
  induction rs with
  | nil => rfl
  | cons r rest ih => rw [List.map_cons, acquired_acquire, ih]

@[simp] theorem released_map_acquire (rs : List R) : released (rs.map .acquire) = [] := by
  induction rs with
  | nil => rfl
  | cons r rest ih => rw [List.map_cons, released_acquire, ih]

@[simp] theorem acquired_map_release (rs : List R) : acquired (rs.map .release) = [] := by
  induction rs with
  | nil => rfl
  | cons r rest ih => rw [List.map_cons, acquired_release, ih]

@[simp] theorem released_map_release (rs : List R) : released (rs.map .release) = rs := by
  induction rs with
  | nil => rfl
  | cons r rest ih => rw [List.map_cons, released_release, ih]

/-- Nothing is acquired twice, and the releases are the acquisitions in some order. -/
structure Settled (moves : List (Move R)) : Prop where
  once : (acquired moves).Nodup
  perm : (released moves).Perm (acquired moves)

theorem Settled.mem_released {moves : List (Move R)} (h : Settled moves) {r : R} :
    r ∈ released moves ↔ r ∈ acquired moves := h.perm.mem_iff

theorem Settled.count_released [DecidableEq R] {moves : List (Move R)} (h : Settled moves) {r : R}
    (hr : r ∈ acquired moves) : (released moves).count r = 1 := by
  rw [h.perm.count_eq]
  exact List.count_eq_one_of_mem h.once hr

end PapiSample.Ledger
