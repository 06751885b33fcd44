import PapiSample.Bytes

/-!
Cursor programs: straight-line and counted-loop code that walks a memory with
one signed cursor. A run keeps every load it makes and everything it emits, in
order, next to the value and the cursor it ends with. A run that is cut off, or
never leaves a counted loop, has no exit but still has a log.
-/
namespace PapiSample.Cursor

open Bytes

inductive Event (Out : Type)
  | load (pos len : ℤ)
  | emit (o : Out)

structure Run (Out α : Type) where
  log : List (Event Out)
  exit : Option (α × ℤ)

def Prog (Out α : Type) := Memory → ℤ → Run Out α

variable {Out α β R : Type}

def Event.shift (d : ℤ) : Event Out → Event Out
  | .load pos len => .load (d + pos) len
  | .emit o => .emit o

namespace Prog

def ret (a : α) : Prog Out α := fun _ off => ⟨[], some (a, off)⟩

def andThen (p : Prog Out α) (f : α → Prog Out β) : Prog Out β := fun mem off =>
  match p mem off with
  | ⟨log, none⟩ => ⟨log, none⟩
  | ⟨log, some (a, off')⟩ =>
    let r := f a mem off'
    ⟨log ++ r.log, r.exit⟩

instance : Monad (Prog Out) where
  pure := ret
  bind := andThen

def stuck : Prog Out α := fun _ _ => ⟨[], none⟩

def here : Prog Out ℤ := fun _ off => ⟨[], some (off, off)⟩
def jump (target : ℤ) : Prog Out Unit := fun _ _ => ⟨[], some ((), target)⟩

/-- Advance a cursor kept in a signed variable of `w` bits. -/
def skip (w : ℕ) (n : ℤ) : Prog Out Unit := fun _ off => ⟨[], some ((), wrap w (off + n))⟩

def emit (o : Out) : Prog Out Unit := fun _ off => ⟨[.emit o], some ((), off)⟩

def load32 (d : ℤ) : Prog Out (BitVec 32) := fun mem off =>
  ⟨[.load (off + d) 4], some (word32 mem (off + d), off)⟩

def load64 (d : ℤ) : Prog Out (BitVec 64) := fun mem off =>
  ⟨[.load (off + d) 8], some (word64 mem (off + d), off)⟩

def peek16 (pos : ℤ) : Prog Out (BitVec 16) := fun mem off =>
  ⟨[.load pos 2], some (word16 mem pos, off)⟩

def peek32 (pos : ℤ) : Prog Out (BitVec 32) := fun mem off =>
  ⟨[.load pos 4], some (word32 mem pos, off)⟩

/-- Copy out the next `n` bytes; a negative length is recorded as it is. -/
def copy (n : ℤ) : Prog Out (List Byte) := fun mem off =>
  ⟨[.load off n], some (readBytes mem off n.toNat, off)⟩

def loadByte (d : ℤ) : Prog Out Byte := fun mem off =>
  ⟨[.load (off + d) 1], some (mem (off + d), off)⟩

/-- Run a helper on the bytes from the cursor on, with a cursor of its own that
starts at zero; the value is where that cursor ends. -/
def subview (p : Prog Out Unit) : Prog Out ℤ := fun mem off =>
  let r := p (fun i => mem (off + i)) 0
  ⟨r.log.map (Event.shift off), r.exit.map fun e => (e.2, off)⟩

def repeatFrom (i : ℕ) : ℕ → (ℕ → Prog Out Unit) → Prog Out Unit
  | 0, _ => pure ()
  | n + 1, body => do
    body i
    repeatFrom (i + 1) n body

def intMax : ℕ := 2 ^ 31 - 1

/-- `for(i=0;i<bound;i+=stride)` with an `int` index and a wider bound: past
the largest index the comparison never fails, and the loop never ends. -/
def intLoop (stride : ℕ) (bound : ℤ) (body : ℕ → Prog Out Unit) : Prog Out Unit :=
  let n := (bound.toNat + stride - 1) / stride
  if n * stride ≤ intMax then repeatFrom 0 n body
  else do
    repeatFrom 0 (intMax / stride + 1) body
    stuck

end Prog

open Prog

theorem bind_apply (p : Prog Out α) (f : α → Prog Out β) (mem : Memory) (off : ℤ) :
    (p >>= f) mem off = andThen p f mem off := rfl

theorem exit_bind (p : Prog Out α) (f : α → Prog Out β) (mem : Memory) (off : ℤ) :
    ((p >>= f) mem off).exit = (p mem off).exit.bind fun e => (f e.1 mem e.2).exit := by
  rw [bind_apply, andThen]
  rcases p mem off with ⟨log, _ | ⟨a, off'⟩⟩ <;> rfl

theorem log_bind (p : Prog Out α) (f : α → Prog Out β) (mem : Memory) (off : ℤ) :
    ((p >>= f) mem off).log =
      (p mem off).log ++ ((p mem off).exit.map fun e => (f e.1 mem e.2).log).getD [] := by
  rw [bind_apply, andThen]
  rcases p mem off with ⟨log, _ | ⟨a, off'⟩⟩
  · simp
  · rfl

theorem bind_of_exit (p : Prog Out α) (f : α → Prog Out β) (mem : Memory) (off off' : ℤ) (a : α)
    (h : (p mem off).exit = some (a, off')) :
    (p >>= f) mem off = ⟨(p mem off).log ++ (f a mem off').log, (f a mem off').exit⟩ := by
  rw [bind_apply, andThen]
  rcases hp : p mem off with ⟨log, exit⟩
  rw [hp] at h
  subst h
  rfl

@[simp] theorem exit_pure (a : α) (mem : Memory) (off : ℤ) :
    ((pure a : Prog Out α) mem off).exit = some (a, off) := rfl

@[simp] theorem exit_here (mem : Memory) (off : ℤ) :
    ((here : Prog Out ℤ) mem off).exit = some (off, off) := rfl

@[simp] theorem exit_jump (target : ℤ) (mem : Memory) (off : ℤ) :
    ((jump target : Prog Out Unit) mem off).exit = some ((), target) := rfl

@[simp] theorem exit_skip (w : ℕ) (n : ℤ) (mem : Memory) (off : ℤ) :
    ((skip w n : Prog Out Unit) mem off).exit = some ((), wrap w (off + n)) := rfl

@[simp] theorem exit_emit (o : Out) (mem : Memory) (off : ℤ) :
    ((emit o) mem off).exit = some ((), off) := rfl

@[simp] theorem exit_load32 (d : ℤ) (mem : Memory) (off : ℤ) :
    ((load32 d : Prog Out _) mem off).exit = some (word32 mem (off + d), off) := rfl

@[simp] theorem exit_load64 (d : ℤ) (mem : Memory) (off : ℤ) :
    ((load64 d : Prog Out _) mem off).exit = some (word64 mem (off + d), off) := rfl

@[simp] theorem exit_peek16 (pos : ℤ) (mem : Memory) (off : ℤ) :
    ((peek16 pos : Prog Out _) mem off).exit = some (word16 mem pos, off) := rfl

@[simp] theorem exit_peek32 (pos : ℤ) (mem : Memory) (off : ℤ) :
    ((peek32 pos : Prog Out _) mem off).exit = some (word32 mem pos, off) := rfl

@[simp] theorem exit_copy (n : ℤ) (mem : Memory) (off : ℤ) :
    ((copy n : Prog Out _) mem off).exit = some (readBytes mem off n.toNat, off) := rfl

theorem exit_subview (p : Prog Out Unit) (mem : Memory) (off : ℤ) :
    (subview p mem off).exit = (p (fun i => mem (off + i)) 0).exit.map fun e => (e.2, off) := rfl

/-- A loop whose body always advances by `k`, from a cursor within its bits. -/
theorem exit_repeatFrom (w : ℕ) (k : ℤ) {body : ℕ → Prog Out Unit} (mem : Memory)
    (h : ∀ i off, (body i mem off).exit = some ((), wrap w (off + k))) (i n : ℕ) (off : ℤ)
    (hoff : wrap w off = off) :
    (repeatFrom i n body mem off).exit = some ((), wrap w (off + n * k)) := by
  induction n generalizing i off with
  | zero => simp [repeatFrom, hoff]
  | succ n ih =>
    rw [repeatFrom, exit_bind, h, Option.bind_some, ih _ _ (wrap_wrap ..), wrap_wrap_add]
    push_cast
    ring_nf

/-- A counted loop ends if its index can reach the bound. -/
theorem exit_intLoop (stride : ℕ) (bound : ℤ) (body : ℕ → Prog Out Unit) (mem : Memory)
    (off : ℤ) : (intLoop stride bound body mem off).exit =
      if (bound.toNat + stride - 1) / stride * stride ≤ intMax then
        (repeatFrom 0 ((bound.toNat + stride - 1) / stride) body mem off).exit
      else none := by
  unfold intLoop
  by_cases h : (bound.toNat + stride - 1) / stride * stride ≤ intMax
  · simp only [if_pos h]
  · simp only [if_neg h, exit_bind]
    cases (repeatFrom 0 (intMax / stride + 1) body mem off).exit <;> rfl

theorem exit_countLoop (w : ℕ) (k : ℤ) {body : ℕ → Prog Out Unit} (mem : Memory)
    (h : ∀ i off, (body i mem off).exit = some ((), wrap w (off + k))) (n : ℤ) (off : ℤ)
    (hoff : wrap w off = off) : (intLoop 1 n body mem off).exit =
      if n ≤ intMax then some ((), wrap w (off + n.toNat * k)) else none := by
  have hcount : (n.toNat + 1 - 1) / 1 = n.toNat := by omega
  have hfits : n.toNat * 1 ≤ intMax ↔ n ≤ intMax := by omega
  rw [exit_intLoop, hcount]
  by_cases hn : n ≤ intMax
  · rw [if_pos (hfits.mpr hn), if_pos hn, exit_repeatFrom w k mem h 0 _ off hoff]
  · rw [if_neg (fun hle => hn (hfits.mp hle)), if_neg hn]

def seen (obs : Out → List R) : List (Event Out) → List R
  | [] => []
  | .load _ _ :: rest => seen obs rest
  | .emit o :: rest => obs o ++ seen obs rest

@[simp] theorem seen_append (obs : Out → List R) (a b : List (Event Out)) :
    seen obs (a ++ b) = seen obs a ++ seen obs b := by
  induction a with
  | nil => rfl
  | cons e rest ih => cases e <;> simp [seen, ih]

@[simp] theorem seen_shift (obs : Out → List R) (d : ℤ) (log : List (Event Out)) :
    seen obs (log.map (Event.shift d)) = seen obs log := by
  induction log with
  | nil => rfl
  | cons e rest ih => cases e <;> simp [seen, Event.shift, ih]

/-- An observer who drops a part of what another one sees. -/
theorem seen_filter (obs : Out → List R) (keep : R → Bool) (log : List (Event Out)) :
    seen (fun o => (obs o).filter keep) log = (seen obs log).filter keep := by
  induction log with
  | nil => rfl
  | cons e rest ih => cases e <;> simp [seen, ih]

def whole (o : Out) : List Out := [o]

/-- What the others see is a part of that. -/
theorem seen_whole (obs : Out → List R) (log : List (Event Out)) :
    seen obs log = (seen whole log).flatMap obs := by
  induction log with
  | nil => rfl
  | cons e rest ih => cases e <;> simp [seen, whole, ih]

structure Consumes (obs : Out → List R) (p : Prog Out α) (mem : Memory) (off : ℤ) (n : ℕ)
    (a : α) (rep : List R) : Prop where
  exit : (p mem off).exit = some (a, off + n)
  shows : seen obs (p mem off).log = rep

variable {obs : Out → List R} {p : Prog Out α} {f : α → Prog Out β} {mem : Memory} {off : ℤ}

theorem Consumes.ret (a : α) : Consumes obs (pure a) mem off 0 a [] := by
  constructor
  · simp
  · rfl

theorem Consumes.bind {m n : ℕ} {a : α} {b : β} {r s : List R}
    (hp : Consumes obs p mem off m a r) (hf : Consumes obs (f a) mem (off + m) n b s) :
    Consumes obs (p >>= f) mem off (m + n) b (r ++ s) := by
  have hrun := bind_of_exit p f mem off (off + m) a hp.exit
  constructor
  · rw [hrun, hf.exit]
    push_cast
    rw [Int.add_assoc]
  · rw [hrun, seen_append, hp.shows, hf.shows]

/-- A first part that leaves the cursor alone. -/
theorem Consumes.seq {n : ℕ} {a : α} {b : β} {r s : List R}
    (hp : Consumes obs p mem off 0 a r) (hf : Consumes obs (f a) mem off n b s) :
    Consumes obs (p >>= f) mem off n b (r ++ s) := by
  have hzero : Consumes obs (f a) mem (off + (0 : ℕ)) n b s := by simpa using hf
  simpa using hp.bind hzero

/-- The second part does not look at the value of the first. -/
theorem Consumes.next {n : ℕ} {p' : Prog Out β} {a : α} {b : β} {r s : List R}
    (hp : Consumes obs p mem off 0 a r) (hp' : Consumes obs p' mem off n b s) :
    Consumes obs (p >>= fun _ => p') mem off n b (r ++ s) := hp.seq hp'

/-- A last part that leaves the cursor alone. -/
theorem Consumes.finish {n : ℕ} {a : α} {b : β} {r s : List R}
    (hp : Consumes obs p mem off n a r) (hf : Consumes obs (f a) mem (off + n) 0 b s) :
    Consumes obs (p >>= f) mem off n b (r ++ s) := by
  simpa using hp.bind hf

theorem consumes_load32 (d : ℤ) : Consumes obs (load32 d) mem off 0 (word32 mem (off + d)) [] := by
  constructor
  · simp [load32]
  · rfl

theorem consumes_load64 (d : ℤ) : Consumes obs (load64 d) mem off 0 (word64 mem (off + d)) [] := by
  constructor
  · simp [load64]
  · rfl

def Room (w : ℕ) (off : ℤ) (n : ℕ) : Prop := -2 ^ w ≤ 2 * off ∧ 2 * (off + n) < 2 ^ w

theorem room_of_nonneg {n : ℕ} (hoff : 0 ≤ off) (hend : off + n < 2 ^ 63) : Room 64 off n := by
  unfold Room
  omega

theorem Room.split {w m n : ℕ} (h : Room w off (m + n)) : Room w off m ∧ Room w (off + m) n := by
  unfold Room at *
  push_cast at h
  omega

theorem Room.append {w : ℕ} {a b : List Byte} (h : Room w off (a ++ b).length) :
    Room w off a.length ∧ Room w (off + a.length) b.length := by
  rw [List.length_append] at h
  exact h.split

/-- From any place that holds `bytes`, the program consumes exactly them. -/
def Decodes (w : ℕ) (obs : Out → List R) (p : Prog Out α) (bytes : List Byte) (a : α)
    (rep : List R) : Prop :=
  ∀ mem off, Holds mem off bytes → Room w off bytes.length →
    Consumes obs p mem off bytes.length a rep

theorem Decodes.ret (w : ℕ) (a : α) : Decodes w obs (pure a) [] a [] :=
  fun _ _ _ _ => Consumes.ret a

theorem Decodes.bind {w : ℕ} {x y : List Byte} {a : α} {b : β} {r s : List R}
    (hp : Decodes w obs p x a r) (hf : Decodes w obs (f a) y b s) :
    Decodes w obs (p >>= f) (x ++ y) b (r ++ s) := by
  intro mem off hold room
  obtain ⟨hx, hy⟩ := (holds_append mem off x y).mp hold
  rw [List.length_append]
  exact (hp mem off hx room.append.1).bind (hf mem _ hy room.append.2)

/-- The second part does not look at the value of the first. -/
theorem Decodes.next {w : ℕ} {p' : Prog Out β} {x y : List Byte} {a : α} {b : β} {r s : List R}
    (hp : Decodes w obs p x a r) (hp' : Decodes w obs p' y b s) :
    Decodes w obs (p >>= fun _ => p') (x ++ y) b (r ++ s) := hp.bind hp'

theorem Decodes.filter {w : ℕ} {x : List Byte} {a : α} {r : List R} (keep : R → Bool)
    (h : Decodes w obs p x a r) :
    Decodes w (fun o => (obs o).filter keep) p x a (r.filter keep) := by
  intro mem off hold room
  have hrun := h mem off hold room
  exact ⟨hrun.exit, by rw [seen_filter, hrun.shows]⟩

/-- Who sees everything knows what anyone else sees. -/
theorem Decodes.observe {w : ℕ} {x : List Byte} {a : α} {r : List Out}
    (h : Decodes w whole p x a r) (obs : Out → List R) : Decodes w obs p x a (r.flatMap obs) := by
  intro mem off hold room
  have hrun := h mem off hold room
  exact ⟨hrun.exit, by rw [seen_whole, hrun.shows]⟩

theorem Decodes.congr {w : ℕ} {x y : List Byte} {a : α} {r s : List R}
    (h : Decodes w obs p x a r) (hxy : x = y) (hrs : r = s) : Decodes w obs p y a s := by
  subst hxy hrs
  exact h

theorem consumes_skip (w : ℕ) (n : ℕ) (h : Room w off n) :
    Consumes obs (skip w n) mem off n () [] := by
  constructor
  · simp only [skip]
    rw [wrap_eq w (off + n) (by unfold Room at h; omega) h.2]
  · rfl

theorem consumes_emit (o : Out) : Consumes obs (emit o) mem off 0 () (obs o) := by
  constructor
  · simp [emit]
  · simp [emit, seen]

theorem consumes_copy {bytes : List Byte} (h : Holds mem off bytes) :
    Consumes obs (copy bytes.length) mem off 0 bytes [] := by
  constructor
  · unfold Holds at h
    simp [copy, h]
  · rfl

/-- A helper run on its own view consumes nothing here and returns its length. -/
theorem Decodes.subview {w : ℕ} {q : Prog Out Unit} {bytes : List Byte} {rep : List R}
    (h : Decodes w obs q bytes () rep) (hold : Holds mem off bytes)
    (hw : 2 * (bytes.length : ℤ) < 2 ^ w) :
    Consumes obs (subview q) mem off 0 (bytes.length : ℤ) rep := by
  have hview : Holds (fun i => mem (off + i)) 0 bytes := by
    unfold Holds at *
    rw [← readBytes_congr mem (fun i => mem (off + i)) off 0 bytes.length (by simp), hold]
  have hpos : (0 : ℤ) < 2 ^ w := Int.pow_pos (by omega)
  have hrun := h _ 0 hview ⟨by omega, by simpa using hw⟩
  constructor
  · simp [Prog.subview, hrun.exit]
  · simp [Prog.subview, hrun.shows]

theorem decodes_skip (w n : ℕ) (bytes : List Byte) (h : bytes.length = n) :
    Decodes w obs (skip w n) bytes () [] := by
  intro mem off _ room
  rw [h] at room ⊢
  exact consumes_skip w n room

/-- The next word is loaded before the cursor moves over it. -/
theorem Decodes.peek64 {w : ℕ} {v : BitVec 64} {g : BitVec 64 → Prog Out β} {rest : List Byte}
    {b : β} {r : List R} (h : Decodes w obs (g v) (le64 v ++ rest) b r) :
    Decodes w obs (load64 0 >>= g) (le64 v ++ rest) b r := by
  intro mem off hold room
  have hv : word64 mem (off + 0) = v := by
    rw [Int.add_zero]
    exact word64_of_holds mem off v ((holds_append ..).mp hold).1
  have hload : Consumes obs (load64 0) mem off 0 v [] := hv ▸ consumes_load64 0
  exact hload.seq (h mem off hold room)

theorem Decodes.peek32 {w : ℕ} {v : BitVec 32} {g : BitVec 32 → Prog Out β} {rest : List Byte}
    {b : β} {r : List R} (h : Decodes w obs (g v) (le32 v ++ rest) b r) :
    Decodes w obs (load32 0 >>= g) (le32 v ++ rest) b r := by
  intro mem off hold room
  have hv : word32 mem (off + 0) = v := by
    rw [Int.add_zero]
    exact word32_of_holds mem off v ((holds_append ..).mp hold).1
  have hload : Consumes obs (load32 0) mem off 0 v [] := hv ▸ consumes_load32 0
  exact hload.seq (h mem off hold room)

def Says (obs : Out → List R) (q : Prog Out Unit) (rep : List R) : Prop :=
  ∀ mem off, Consumes obs q mem off 0 () rep

theorem Says.ret : Says obs (pure ()) [] := fun _ _ => Consumes.ret ()

theorem Says.emit (o : Out) : Says obs (Prog.emit o) (obs o) := fun _ _ => consumes_emit o

theorem Says.bind {q q' : Prog Out Unit} {r s : List R} (h : Says obs q r) (h' : Says obs q' s) :
    Says obs (q >>= fun _ => q') (r ++ s) :=
  fun mem off => (h mem off).seq (h' mem off)

theorem Says.before {w : ℕ} {q : Prog Out Unit} {p' : Prog Out β} {bytes : List Byte} {b : β}
    {r s : List R} (hq : Says obs q r) (h : Decodes w obs p' bytes b s) :
    Decodes w obs (q >>= fun _ => p') bytes b (r ++ s) :=
  fun mem off hold room => (hq mem off).seq (h mem off hold room)

theorem Says.after {w : ℕ} {q : Prog Out Unit} {bytes : List Byte} {a : α} {r s : List R}
    (h : Decodes w obs p bytes a r) (hq : Says obs q s) :
    Decodes w obs (p >>= fun _ => q) bytes () (r ++ s) :=
  fun mem off hold room => (h mem off hold room).finish (hq mem _)

theorem Says.load32 {d : ℤ} {g : BitVec 32 → Prog Out Unit} {r : List R}
    (h : ∀ v, Says obs (g v) r) : Says obs (Prog.load32 d >>= g) r :=
  fun mem off => (consumes_load32 d).seq (h _ mem off)

theorem Says.load64 {d : ℤ} {g : BitVec 64 → Prog Out Unit} {r : List R}
    (h : ∀ v, Says obs (g v) r) : Says obs (Prog.load64 d >>= g) r :=
  fun mem off => (consumes_load64 d).seq (h _ mem off)

/-- A silent first part. -/
theorem Says.skip {q q' : Prog Out Unit} {r : List R} (h : Says obs q []) (h' : Says obs q' r) :
    Says obs (q >>= fun _ => q') r := h.bind h'

theorem Says.forM {ι : Type} (items : List ι) (q : ι → Prog Out Unit)
    (h : ∀ x ∈ items, Says obs (q x) []) : Says obs (items.forM q) [] := by
  induction items with
  | nil => exact Says.ret
  | cons x rest ih =>
    exact (h x (List.mem_cons_self ..)).bind
      (ih fun y hy => h y (List.mem_cons_of_mem x hy))

/-- A loop over a list says what it says about each of its items. -/
theorem Says.forM_flatMap {ι : Type} {rep : ι → List R} (items : List ι) (q : ι → Prog Out Unit)
    (h : ∀ x, Says obs (q x) (rep x)) : Says obs (items.forM q) (items.flatMap rep) := by
  induction items with
  | nil => exact Says.ret
  | cons x rest ih => exact (h x).bind ih

theorem Says.repeatFrom (body : ℕ → Prog Out Unit) (h : ∀ k, Says obs (body k) []) (i n : ℕ) :
    Says obs (Prog.repeatFrom i n body) [] := by
  induction n generalizing i with
  | zero => exact Says.ret
  | succ n ih => exact (h i).bind (ih (i + 1))

/-- A counted loop says what its iterations say, one after another. -/
theorem Says.repeatFrom_flatMap {rep : ℕ → List R} (body : ℕ → Prog Out Unit)
    (h : ∀ k, Says obs (body k) (rep k)) (i n : ℕ) :
    Says obs (Prog.repeatFrom i n body) ((List.range' i n).flatMap rep) := by
  induction n generalizing i with
  | zero => exact Says.ret
  | succ n ih => exact (h i).bind (ih (i + 1))

/-- A counted loop whose body decodes one item decodes the whole list. -/
theorem Decodes.repeatFrom {w : ℕ} {ι : Type} {enc : ι → List Byte} {rep : ι → List R}
    {body : ℕ → Prog Out Unit} (items : List ι) (i : ℕ)
    (h : ∀ k x, items[k]? = some x → Decodes w obs (body (i + k)) (enc x) () (rep x)) :
    Decodes w obs (Prog.repeatFrom i items.length body) (items.flatMap enc) ()
      (items.flatMap rep) := by
  induction items generalizing i with
  | nil => exact Decodes.ret w ()
  | cons x rest ih =>
    simp only [List.length_cons, Prog.repeatFrom, List.flatMap_cons]
    refine (h 0 x rfl).bind (ih (i + 1) fun k y hy => ?_)
    have hk : i + 1 + k = i + (k + 1) := by omega
    rw [hk]
    exact h (k + 1) y (by simpa using hy)

/-- A loop that fits its index runs once for each item. -/
theorem Decodes.intLoop {w : ℕ} {ι : Type} {enc : ι → List Byte} {rep : ι → List R}
    {body : ℕ → Prog Out Unit} (items : List ι) (hlen : items.length ≤ intMax)
    (h : ∀ k, ∀ x ∈ items, Decodes w obs (body k) (enc x) () (rep x)) :
    Decodes w obs (Prog.intLoop 1 items.length body) (items.flatMap enc) ()
      (items.flatMap rep) := by
  have hloop : Prog.intLoop 1 (items.length : ℤ) body = Prog.repeatFrom 0 items.length body := by
    simp [Prog.intLoop, hlen]
  rw [hloop]
  exact Decodes.repeatFrom items 0 fun k x hx => h _ x (List.mem_of_getElem? hx)

end PapiSample.Cursor
