import Mathlib.Data.List.Infix
import Mathlib.Logic.Function.Basic
import PapiSample.Transition

/-!
Streams that are produced by one party and delivered to another in chunks. Each
stream says how much of it was delivered, and what was delivered is always an
initial part of what was produced: nothing is skipped, repeated or taken from
another stream.
-/
namespace PapiSample.Delivery

open Transition

variable {ι α : Type}

/-- What was produced on a stream, and the initial part that was delivered. -/
structure Stream (α : Type) where
  produced : List α
  delivered : List α
  isPrefix : delivered <+: produced

def Stream.empty : Stream α := ⟨[], [], List.prefix_refl []⟩

def Stream.pending (s : Stream α) : List α := s.produced.drop s.delivered.length

theorem Stream.delivered_append_pending (s : Stream α) :
    s.delivered ++ s.pending = s.produced := by
  have htake := List.prefix_iff_eq_take.mp s.isPrefix
  unfold Stream.pending
  conv => enter [1, 1]; rw [htake]
  exact List.take_append_drop ..

def Stream.produce (s : Stream α) (xs : List α) : Stream α where
  produced := s.produced ++ xs
  delivered := s.delivered
  isPrefix := s.isPrefix.trans (List.prefix_append ..)

def Stream.deliver (s : Stream α) (n : ℕ) : Stream α where
  produced := s.produced
  delivered := s.delivered ++ s.pending.take n
  isPrefix := by
    obtain ⟨rest, hrest⟩ := List.take_prefix n s.pending
    exact ⟨rest, by rw [List.append_assoc, hrest, s.delivered_append_pending]⟩

def Stream.encode {β : Type} (enc : α → List β) (s : Stream α) : Stream β where
  produced := s.produced.flatMap enc
  delivered := s.delivered.flatMap enc
  isPrefix := by
    obtain ⟨rest, hrest⟩ := s.isPrefix
    exact ⟨rest.flatMap enc, by rw [← List.flatMap_append, hrest]⟩

theorem Stream.ext {s t : Stream α} (hproduced : s.produced = t.produced)
    (hdelivered : s.delivered = t.delivered) : s = t := by
  cases s
  cases t
  cases hproduced
  cases hdelivered
  rfl

section Encode
variable {β : Type} (enc : α → List β) (s : Stream α)

@[simp] theorem Stream.encode_produced : (s.encode enc).produced = s.produced.flatMap enc := rfl

@[simp] theorem Stream.encode_delivered : (s.encode enc).delivered = s.delivered.flatMap enc := rfl

theorem Stream.encode_produce (xs : List α) :
    (s.produce xs).encode enc = (s.encode enc).produce (xs.flatMap enc) :=
  Stream.ext List.flatMap_append rfl

theorem Stream.encode_pending : (s.encode enc).pending = s.pending.flatMap enc := by
  have hall := congrArg (List.flatMap enc) s.delivered_append_pending
  rw [List.flatMap_append] at hall
  unfold Stream.pending
  simp only [Stream.encode_produced, Stream.encode_delivered]
  rw [← hall, List.drop_left]
  rfl

/-- A cut between two items is a cut between their encodings. -/
theorem Stream.encode_take (n : ℕ) :
    (s.encode enc).pending.take ((s.pending.take n).flatMap enc).length =
      (s.pending.take n).flatMap enc := by
  have hcut : s.pending.flatMap enc =
      (s.pending.take n).flatMap enc ++ (s.pending.drop n).flatMap enc := by
    rw [← List.flatMap_append, List.take_append_drop]
  rw [s.encode_pending, hcut, List.take_left]

theorem Stream.encode_deliver (n : ℕ) :
    (s.deliver n).encode enc =
      (s.encode enc).deliver ((s.pending.take n).flatMap enc).length := by
  apply Stream.ext
  · rfl
  · simp only [Stream.deliver, Stream.encode_delivered, Stream.encode_take]
    exact List.flatMap_append

/-- A cut that is not in front of what was delivered lies between two pending items. -/
theorem Stream.encode_cut {done : List α} (hdone : done <+: s.produced)
    (hle : (s.encode enc).delivered.length ≤ (done.flatMap enc).length) :
    ∃ n, (done.flatMap enc).length =
      (s.encode enc).delivered.length + ((s.pending.take n).flatMap enc).length := by
  rcases List.prefix_or_prefix_of_prefix s.isPrefix hdone with h | h
  · obtain ⟨more, rfl⟩ := h
    have hall := s.delivered_append_pending
    obtain ⟨rest, hrest⟩ := hdone
    rw [← hall, List.append_assoc, List.append_cancel_left_eq] at hrest
    refine ⟨more.length, ?_⟩
    rw [← hrest, List.take_left, List.flatMap_append, List.length_append]
    rfl
  · obtain ⟨more, hmore⟩ := h
    refine ⟨0, ?_⟩
    have hlen : (s.encode enc).delivered.length =
        (done.flatMap enc).length + (more.flatMap enc).length := by
      rw [Stream.encode_delivered, ← hmore, List.flatMap_append, List.length_append]
    rw [List.take_zero, List.flatMap_nil, List.length_nil]
    omega

end Encode

inductive Act (ι α : Type)
  | produce (i : ι) (xs : List α)
  | deliver (i : ι) (chunk : List α)

/-- A chunk is delivered only if it comes next on its stream. -/
inductive Moves [DecidableEq ι] : (ι → Stream α) → Act ι α → (ι → Stream α) → Prop
  | produce (s : ι → Stream α) (i : ι) (xs : List α) :
      Moves s (.produce i xs) (Function.update s i ((s i).produce xs))
  | deliver (s : ι → Stream α) (i : ι) (n : ℕ) :
      Moves s (.deliver i ((s i).pending.take n)) (Function.update s i ((s i).deliver n))

def producedOn [DecidableEq ι] (i : ι) : Act ι α → List α
  | .produce j xs => if j = i then xs else []
  | .deliver _ _ => []

def deliveredOn [DecidableEq ι] (i : ι) : Act ι α → List α
  | .produce _ _ => []
  | .deliver j chunk => if j = i then chunk else []

/-- One act adds to its own stream what it produces or delivers. -/
theorem Moves.grows [DecidableEq ι] {s t : ι → Stream α} {a : Act ι α} (h : Moves s a t) (i : ι) :
    (t i).produced = (s i).produced ++ producedOn i a ∧
      (t i).delivered = (s i).delivered ++ deliveredOn i a := by
  cases h with
  | produce j xs =>
    by_cases hj : j = i
    · subst hj
      simp [producedOn, deliveredOn, Stream.produce]
    · rw [Function.update_of_ne (Ne.symm hj)]
      simp [producedOn, deliveredOn, hj]
  | deliver j n =>
    by_cases hj : j = i
    · subst hj
      simp [producedOn, deliveredOn, Stream.deliver]
    · rw [Function.update_of_ne (Ne.symm hj)]
      simp [producedOn, deliveredOn, hj]

/-- Along a run, a stream grows by all that is produced on it, in order, and all
of it that is delivered. -/
theorem run_grows [DecidableEq ι] {s t : ι → Stream α} {acts : List (Act ι α)}
    (h : Run Moves s acts t) (i : ι) :
    (t i).produced = (s i).produced ++ acts.flatMap (producedOn i) ∧
      (t i).delivered = (s i).delivered ++ acts.flatMap (deliveredOn i) := by
  induction h with
  | nil => simp
  | snoc _ hlast ih =>
    obtain ⟨hproduced, hdelivered⟩ := hlast.grows i
    rw [hproduced, hdelivered, ih.1, ih.2]
    simp

end PapiSample.Delivery
