import PapiSample.Cursor

/-!
What a cursor program emits, whatever it loads: every output of a run satisfies a
given predicate. Straight-line code and counted loops are followed from one part
to the next; a part that satisfies the predicate from any cursor can be dropped
from a sequence.
-/
namespace PapiSample.Emissions

open Bytes Cursor Cursor.Prog

variable {Out α β : Type} {ok : Out → Prop}

/-- Every output of the run from `off`, also if it never ends. -/
def Emits (ok : Out → Prop) (p : Prog Out α) (mem : Memory) (off : ℤ) : Prop :=
  ∀ o, Event.emit o ∈ (p mem off).log → ok o

def Always (ok : Out → Prop) (p : Prog Out α) : Prop := ∀ mem off, Emits ok p mem off

theorem emits_bind (p : Prog Out α) (f : α → Prog Out β) (mem : Memory) (off : ℤ) :
    Emits ok (p >>= f) mem off ↔
      Emits ok p mem off ∧ ∀ e ∈ (p mem off).exit, Emits ok (f e.1) mem e.2 := by
  unfold Emits
  rw [log_bind]
  cases (p mem off).exit with
  | none => simp
  | some e => simp [or_imp, forall_and]

theorem emits_emit (o : Out) (mem : Memory) (off : ℤ) : Emits ok (emit o) mem off ↔ ok o := by
  simp [Emits, emit]

theorem always_emit {o : Out} (h : ok o) : Always ok (emit o) :=
  fun mem off => (emits_emit o mem off).mpr h

theorem always_pure (a : α) : Always ok (pure a : Prog Out α) :=
  fun _ _ _ h => absurd h List.not_mem_nil

theorem always_here : Always ok (here : Prog Out ℤ) := fun _ _ _ h => absurd h List.not_mem_nil

theorem always_stuck : Always ok (stuck : Prog Out α) := fun _ _ _ h => absurd h List.not_mem_nil

theorem always_jump (target : ℤ) : Always ok (jump target : Prog Out Unit) :=
  fun _ _ _ h => absurd h List.not_mem_nil

theorem always_skip (w : ℕ) (n : ℤ) : Always ok (skip w n : Prog Out Unit) :=
  fun _ _ _ h => absurd h List.not_mem_nil

theorem always_load32 (d : ℤ) : Always ok (load32 d : Prog Out _) := by
  simp [Always, Emits, load32]

theorem always_load64 (d : ℤ) : Always ok (load64 d : Prog Out _) := by
  simp [Always, Emits, load64]

theorem always_loadByte (d : ℤ) : Always ok (loadByte d : Prog Out _) := by
  simp [Always, Emits, loadByte]

theorem always_peek16 (pos : ℤ) : Always ok (peek16 pos : Prog Out _) := by
  simp [Always, Emits, peek16]

theorem always_peek32 (pos : ℤ) : Always ok (peek32 pos : Prog Out _) := by
  simp [Always, Emits, peek32]

theorem always_copy (n : ℤ) : Always ok (copy n : Prog Out _) := by
  simp [Always, Emits, copy]

theorem Always.bind {p : Prog Out α} {f : α → Prog Out β} (hp : Always ok p)
    (hf : ∀ a, Always ok (f a)) : Always ok (p >>= f) :=
  fun mem off => (emits_bind ..).mpr ⟨hp mem off, fun e _ => hf e.1 mem e.2⟩

/-- In front of what always satisfies the predicate only the first part counts. -/
theorem emits_before {p : Prog Out α} {f : α → Prog Out β} (hf : ∀ a, Always ok (f a))
    (mem : Memory) (off : ℤ) : Emits ok (p >>= f) mem off ↔ Emits ok p mem off := by
  rw [emits_bind]
  exact and_iff_left fun e _ => hf e.1 mem e.2

/-- A first part that always satisfies the predicate only moves the cursor. -/
theorem emits_after {p : Prog Out α} {f : α → Prog Out β} (hp : Always ok p) {mem : Memory}
    {off off' : ℤ} {a : α} (hexit : (p mem off).exit = some (a, off')) :
    Emits ok (p >>= f) mem off ↔ Emits ok (f a) mem off' := by
  rw [emits_bind, hexit]
  simp only [hp mem off, Option.mem_some_iff, forall_eq', true_and]

theorem Always.repeatFrom {body : ℕ → Prog Out Unit} (h : ∀ i, Always ok (body i)) (i n : ℕ) :
    Always ok (Prog.repeatFrom i n body) := by
  induction n generalizing i with
  | zero => exact always_pure ()
  | succ n ih => exact (h i).bind fun _ => ih (i + 1)

theorem Always.intLoop {body : ℕ → Prog Out Unit} (h : ∀ i, Always ok (body i)) (stride : ℕ)
    (bound : ℤ) : Always ok (Prog.intLoop stride bound body) := by
  intro mem off
  simp only [Prog.intLoop]
  split
  · exact Always.repeatFrom h 0 _ mem off
  · exact (Always.repeatFrom h 0 _).bind (fun _ => always_stuck) mem off

theorem Always.forM {ι : Type} (items : List ι) {q : ι → Prog Out Unit}
    (h : ∀ x, Always ok (q x)) : Always ok (items.forM q) := by
  induction items with
  | nil => exact always_pure ()
  | cons x rest ih => exact (h x).bind fun _ => ih

/-- A helper on its own view emits what it emits. -/
theorem Always.subview {p : Prog Out Unit} (h : Always ok p) : Always ok (Prog.subview p) := by
  intro mem off o ho
  obtain ⟨e, he, hshift⟩ := List.mem_map.mp ho
  cases e with
  | load pos len => contradiction
  | emit o' =>
    cases hshift
    exact h _ 0 o he

section Observers
variable {R : Type} {obs : Out → List R}

/-- Two observers who agree about everything that is put out see the same. -/
theorem seen_agree {obs' : Out → List R} {p : Prog Out α} {mem : Memory} {off : ℤ}
    (h : Emits (fun o => obs o = obs' o) p mem off) :
    seen obs (p mem off).log = seen obs' (p mem off).log := by
  unfold Emits at h
  generalize (p mem off).log = log at h
  induction log with
  | nil => rfl
  | cons e rest ih =>
    have hrest := ih fun o ho => h o (List.mem_cons_of_mem e ho)
    cases e with
    | load pos len => exact hrest
    | emit o => rw [seen, seen, h o List.mem_cons_self, hrest]

/-- What emits nothing of interest shows nothing. -/
theorem seen_nothing {p : Prog Out α} (h : Always (fun o => obs o = []) p) (mem : Memory)
    (off : ℤ) :
    seen obs (p mem off).log = [] := by
  have hall := h mem off
  unfold Emits at hall
  generalize (p mem off).log = log at hall
  induction log with
  | nil => rfl
  | cons e rest ih =>
    have hrest := ih fun o ho => hall o (List.mem_cons_of_mem e ho)
    cases e with
    | load pos len => exact hrest
    | emit o => rw [seen, hall o List.mem_cons_self, hrest, List.nil_append]

/-- What decodes its bytes for one observer, and shows another one nothing. -/
theorem decodes_nothing {R' : Type} {obs' : Out → List R'} {w : ℕ} {p : Prog Out α}
    {bytes : List Byte} {a : α} {rep : List R'} (h : Decodes w obs' p bytes a rep)
    (hnothing : Always (fun o => obs o = []) p) : Decodes w obs p bytes a [] :=
  fun mem off hold room => ⟨(h mem off hold room).exit, seen_nothing hnothing mem off⟩

/-- In front of what shows nothing only the first part counts. -/
theorem seen_before (p : Prog Out α) {f : α → Prog Out β}
    (hf : ∀ a, Always (fun o => obs o = []) (f a)) (mem : Memory) (off : ℤ) :
    seen obs ((p >>= f) mem off).log = seen obs (p mem off).log := by
  rw [log_bind, seen_append]
  cases (p mem off).exit with
  | none => rw [Option.map_none, Option.getD_none, seen, List.append_nil]
  | some e => rw [Option.map_some, Option.getD_some, seen_nothing (hf e.1), List.append_nil]

theorem seen_next {p : Prog Out α} {f : α → Prog Out β} {mem : Memory} {off off' : ℤ} {a : α}
    (hexit : (p mem off).exit = some (a, off')) :
    seen obs ((p >>= f) mem off).log =
      seen obs (p mem off).log ++ seen obs (f a mem off').log := by
  rw [bind_of_exit p f mem off off' a hexit, seen_append]

/-- A first part that shows nothing only moves the cursor. -/
theorem seen_after {p : Prog Out α} {f : α → Prog Out β}
    (hp : Always (fun o => obs o = []) p) {mem : Memory} {off off' : ℤ} {a : α}
    (hexit : (p mem off).exit = some (a, off')) :
    seen obs ((p >>= f) mem off).log = seen obs (f a mem off').log := by
  rw [seen_next hexit, seen_nothing hp, List.nil_append]

/-- A counted loop whose iterations start at known places. -/
theorem seen_repeatFrom {body : ℕ → Prog Out Unit} {mem : Memory} {pos : ℕ → ℤ}
    {rep : ℕ → List R} (hexit : ∀ i, (body i mem (pos i)).exit = some ((), pos (i + 1)))
    (hshows : ∀ i, seen obs (body i mem (pos i)).log = rep i) (i n : ℕ) :
    seen obs (Prog.repeatFrom i n body mem (pos i)).log = (List.range' i n).flatMap rep := by
  induction n generalizing i with
  | zero => rfl
  | succ n ih =>
    rw [Prog.repeatFrom, seen_next (hexit i), hshows, ih, List.range'_succ, List.flatMap_cons]

end Observers

end PapiSample.Emissions
