import PapiSample.Cursor

/-!
Where a cursor program reads. A run is safe for the addresses from `lo` up to
`hi` if every load it makes lies among them, with a length that is not negative,
and everything it emits is allowed. The addresses that straight-line code reads
add up to one span, and so do those of a counted loop, even where its index
cannot reach the count.
-/
namespace PapiSample.Extent

open Bytes Cursor Cursor.Prog

def Span (lo hi pos n : ℤ) : Prop := 0 < n → lo ≤ pos ∧ pos + n ≤ hi

instance (lo hi pos n : ℤ) : Decidable (Span lo hi pos n) :=
  inferInstanceAs (Decidable (_ → _))

variable {Out α β : Type} {ok : Out → Prop} {lo hi : ℤ}

def Inside (ok : Out → Prop) (lo hi : ℤ) : Event Out → Prop
  | .load pos len => 0 ≤ len ∧ Span lo hi pos len
  | .emit o => ok o

/-- Everything the run does, also if it never ends. -/
def Safe (ok : Out → Prop) (lo hi : ℤ) (p : Prog Out α) (mem : Memory) (off : ℤ) : Prop :=
  ∀ e ∈ (p mem off).log, Inside ok lo hi e

theorem span_zero (pos : ℤ) : Span lo hi pos 0 := fun h => absurd h (by omega)

/-- Bounds and position in the coordinates of an enclosing object. -/
theorem span_view (d pos n : ℤ) : Span (lo - d) (hi - d) pos n ↔ Span lo hi (d + pos) n := by
  unfold Span
  apply imp_congr_right
  intro _
  omega

def Fits (w : ℕ) (hi : ℤ) : Prop := 0 < w ∧ 2 * hi < 2 ^ w

/-- Inside the bounds the cursor does not wrap around. -/
theorem Fits.stays {w : ℕ} (hfits : Fits w hi) {pos m : ℤ} (hpos : wrap w pos = pos) (hm : 0 ≤ m)
    (hle : pos + m ≤ hi) : wrap w (pos + m) = pos + m := by
  have hlow := le_wrap w pos hfits.1
  have hhigh := hfits.2
  rw [hpos] at hlow
  exact wrap_eq w _ (by omega) (by omega)

/-- Two adjacent spans. -/
theorem span_add {w : ℕ} (hfits : Fits w hi) {pos m n : ℤ} (hpos : wrap w pos = pos)
    (hm : 0 ≤ m) (hn : 0 ≤ n) :
    Span lo hi pos m ∧ Span lo hi (wrap w (pos + m)) n ↔ Span lo hi pos (m + n) := by
  rcases Int.lt_or_eq_of_le hm with hpart | rfl
  · constructor
    · rintro ⟨hfirst, hsecond⟩ _
      obtain ⟨hlow, hhigh⟩ := hfirst hpart
      rw [hfits.stays hpos hm hhigh] at hsecond
      rcases Int.lt_or_eq_of_le hn with hrest | rfl
      · have := hsecond hrest
        omega
      · omega
    · intro h
      obtain ⟨hlow, hhigh⟩ := h (by omega)
      rw [hfits.stays hpos hm (by omega)]
      exact ⟨fun _ => by omega, fun _ => by omega⟩
  · rw [Int.add_zero, hpos, Int.zero_add]
    exact ⟨And.right, fun h => ⟨span_zero pos, h⟩⟩

/-- A read that starts inside a span that is read before it adds the rest only. -/
theorem span_overlap {pos m d n : ℤ} (hm : 0 < m) (hd : 0 ≤ d) (hn : 0 < n) (hle : m ≤ d + n) :
    Span lo hi pos m ∧ Span lo hi (pos + d) n ↔ Span lo hi pos (d + n) := by
  constructor
  · rintro ⟨hfirst, hsecond⟩ _
    have h₁ := hfirst hm
    have h₂ := hsecond hn
    omega
  · intro h
    have := h (by omega)
    exact ⟨fun _ => by omega, fun _ => by omega⟩

theorem safe_bind (p : Prog Out α) (f : α → Prog Out β) (mem : Memory) (off : ℤ) :
    Safe ok lo hi (p >>= f) mem off ↔
      Safe ok lo hi p mem off ∧ ∀ e ∈ (p mem off).exit, Safe ok lo hi (f e.1) mem e.2 := by
  unfold Safe
  rw [log_bind]
  cases (p mem off).exit with
  | none => simp
  | some e => simp [or_imp, forall_and]

@[simp] theorem safe_pure (a : α) (mem : Memory) (off : ℤ) :
    Safe ok lo hi (pure a : Prog Out α) mem off := fun _ h => absurd h List.not_mem_nil

@[simp] theorem safe_here (mem : Memory) (off : ℤ) :
    Safe ok lo hi (here : Prog Out ℤ) mem off := fun _ h => absurd h List.not_mem_nil

@[simp] theorem safe_jump (target : ℤ) (mem : Memory) (off : ℤ) :
    Safe ok lo hi (jump target : Prog Out Unit) mem off := fun _ h => absurd h List.not_mem_nil

@[simp] theorem safe_stuck (mem : Memory) (off : ℤ) :
    Safe ok lo hi (stuck : Prog Out α) mem off := fun _ h => absurd h List.not_mem_nil

@[simp] theorem safe_skip (w : ℕ) (n : ℤ) (mem : Memory) (off : ℤ) :
    Safe ok lo hi (skip w n : Prog Out Unit) mem off := fun _ h => absurd h List.not_mem_nil

theorem safe_emit (o : Out) (mem : Memory) (off : ℤ) :
    Safe ok lo hi (emit o) mem off ↔ ok o := by
  simp [Safe, emit, Inside]

theorem safe_load32 (d : ℤ) (mem : Memory) (off : ℤ) :
    Safe ok lo hi (load32 d : Prog Out _) mem off ↔ Span lo hi (off + d) 4 := by
  simp [Safe, load32, Inside]

theorem safe_load64 (d : ℤ) (mem : Memory) (off : ℤ) :
    Safe ok lo hi (load64 d : Prog Out _) mem off ↔ Span lo hi (off + d) 8 := by
  simp [Safe, load64, Inside]

theorem safe_peek16 (pos : ℤ) (mem : Memory) (off : ℤ) :
    Safe ok lo hi (peek16 pos : Prog Out _) mem off ↔ Span lo hi pos 2 := by
  simp [Safe, peek16, Inside]

theorem safe_peek32 (pos : ℤ) (mem : Memory) (off : ℤ) :
    Safe ok lo hi (peek32 pos : Prog Out _) mem off ↔ Span lo hi pos 4 := by
  simp [Safe, peek32, Inside]

theorem safe_loadByte (d : ℤ) (mem : Memory) (off : ℤ) :
    Safe ok lo hi (loadByte d : Prog Out _) mem off ↔ Span lo hi (off + d) 1 := by
  simp [Safe, loadByte, Inside]

theorem safe_copy (n : ℤ) (mem : Memory) (off : ℤ) :
    Safe ok lo hi (copy n : Prog Out _) mem off ↔ 0 ≤ n ∧ Span lo hi off n := by
  simp [Safe, copy, Inside]

theorem inside_shift (d : ℤ) (e : Event Out) :
    Inside ok lo hi (e.shift d) ↔ Inside ok (lo - d) (hi - d) e := by
  cases e with
  | load pos len => exact and_congr_right fun _ => (span_view d pos len).symm
  | emit o => exact Iff.rfl

theorem safe_repeatFrom {body : ℕ → Prog Out Unit}
    (h : ∀ i mem off, Safe ok lo hi (body i) mem off) (i n : ℕ) (mem : Memory) (off : ℤ) :
    Safe ok lo hi (Prog.repeatFrom i n body) mem off := by
  induction n generalizing i off with
  | zero => exact safe_pure () mem off
  | succ n ih => exact (safe_bind ..).mpr ⟨h i mem off, fun _ _ => ih (i + 1) _⟩

/-- A loop whose body is safe wherever it runs, whatever its bound. -/
theorem safe_intLoop {body : ℕ → Prog Out Unit}
    (h : ∀ i mem off, Safe ok lo hi (body i) mem off) (stride : ℕ) (bound : ℤ) (mem : Memory)
    (off : ℤ) : Safe ok lo hi (intLoop stride bound body) mem off := by
  simp only [intLoop]
  split
  · exact safe_repeatFrom h 0 _ mem off
  · exact (safe_bind ..).mpr ⟨safe_repeatFrom h 0 _ mem off, fun _ _ => safe_stuck _ _⟩

/-- A helper on its own view sees the bounds from there. -/
theorem safe_subview (p : Prog Out Unit) (mem : Memory) (off : ℤ) :
    Safe ok lo hi (subview p) mem off ↔
      Safe ok (lo - off) (hi - off) p (fun i => mem (off + i)) 0 := by
  simp [Safe, subview, inside_shift]

variable {w : ℕ} {mem : Memory}

/-- From any cursor within its bits the program reads some of the next `n`
bytes, the first and the last of them included, and none outside. -/
def Reads (ok : Out → Prop) (w : ℕ) (lo hi : ℤ) (p : Prog Out α) (mem : Memory) (n : ℤ) : Prop :=
  ∀ off, wrap w off = off → (Safe ok lo hi p mem off ↔ Span lo hi off n)

structure Sweeps (ok : Out → Prop) (w : ℕ) (lo hi : ℤ) (p : Prog Out Unit) (mem : Memory)
    (n : ℤ) : Prop where
  exit : ∀ off, wrap w off = off → (p mem off).exit = some ((), wrap w (off + n))
  reads : Reads ok w lo hi p mem n

theorem sweeps_pure : Sweeps ok w lo hi (pure ()) mem 0 where
  exit := fun off hoff => by rw [exit_pure, Int.add_zero, hoff]
  reads := fun off _ => ⟨fun _ => span_zero off, fun _ => safe_pure () mem off⟩

/-- What follows a sweep starts where it ends. -/
theorem Sweeps.before {p : Prog Out Unit} {q : Prog Out β} {m n : ℤ} (hfits : Fits w hi)
    (hm : 0 ≤ m) (hn : 0 ≤ n) (hp : Sweeps ok w lo hi p mem m) (hq : Reads ok w lo hi q mem n) :
    Reads ok w lo hi (p >>= fun _ => q) mem (m + n) := by
  intro off hoff
  rw [safe_bind, hp.reads off hoff, hp.exit off hoff]
  simp only [Option.mem_some_iff, forall_eq', hq _ (wrap_wrap ..)]
  exact span_add hfits hoff hm hn

theorem Sweeps.bind {p q : Prog Out Unit} {m n : ℤ} (hfits : Fits w hi) (hm : 0 ≤ m)
    (hn : 0 ≤ n) (hp : Sweeps ok w lo hi p mem m) (hq : Sweeps ok w lo hi q mem n) :
    Sweeps ok w lo hi (p >>= fun _ => q) mem (m + n) where
  exit := fun off hoff => by
    rw [exit_bind, hp.exit off hoff, Option.bind_some, hq.exit _ (wrap_wrap ..), wrap_wrap_add,
      Int.add_assoc]
  reads := hp.before hfits hm hn hq.reads

theorem Sweeps.repeatFrom {k : ℤ} {body : ℕ → Prog Out Unit} (hfits : Fits w hi) (hk : 0 ≤ k)
    (h : ∀ i, Sweeps ok w lo hi (body i) mem k) (i n : ℕ) :
    Sweeps ok w lo hi (Prog.repeatFrom i n body) mem (n * k) := by
  induction n generalizing i with
  | zero =>
    rw [Nat.cast_zero, Int.zero_mul]
    exact sweeps_pure
  | succ n ih =>
    have hsum : ((n + 1 : ℕ) : ℤ) * k = k + n * k := by push_cast; ring
    rw [hsum]
    exact (h i).bind hfits hk (Int.mul_nonneg (by omega) hk) (ih (i + 1))

/-- A counted loop reads as much as its count says. A count that its index
cannot reach is more than the bounds hold. -/
theorem Sweeps.countLoop {k : ℤ} {body : ℕ → Prog Out Unit} (hfits : Fits w hi)
    (hsmall : hi - lo ≤ intMax) (hk : 0 < k) (h : ∀ i, Sweeps ok w lo hi (body i) mem k) (n : ℤ) :
    Reads ok w lo hi (intLoop 1 n body) mem (n.toNat * k) := by
  intro off hoff
  have hcount : (n.toNat + 1 - 1) / 1 = n.toNat := by omega
  have hsweep := Sweeps.repeatFrom hfits hk.le h 0
  have hlarge : ∀ count : ℕ, intMax < count → ¬ Span lo hi off (count * k) := by
    intro count hlt hspan
    have hle : (count : ℤ) * 1 ≤ count * k := Int.mul_le_mul_of_nonneg_left (by omega) (by omega)
    have := hspan (by omega)
    omega
  simp only [intLoop, hcount, Nat.mul_one]
  by_cases hn : n.toNat ≤ intMax
  · rw [if_pos hn]
    exact (hsweep n.toNat).reads off hoff
  · rw [if_neg hn, safe_bind, (hsweep _).reads off hoff]
    have hmore := hlarge (intMax / 1 + 1) (by omega)
    exact ⟨fun hspan => absurd hspan.1 hmore, fun hspan => absurd hspan (hlarge _ (by omega))⟩

/-- A word is loaded, and what follows depends on it. -/
theorem safe_word64 {g : BitVec 64 → Prog Out β} (mem : Memory) (off : ℤ) :
    Safe ok lo hi (load64 0 >>= g) mem off ↔
      Span lo hi off 8 ∧ Safe ok lo hi (g (word64 mem off)) mem off := by
  rw [safe_bind, safe_load64, exit_load64, Int.add_zero]
  simp only [Option.mem_some_iff, forall_eq']

theorem safe_word32 {g : BitVec 32 → Prog Out β} (mem : Memory) (off : ℤ) :
    Safe ok lo hi (load32 0 >>= g) mem off ↔
      Span lo hi off 4 ∧ Safe ok lo hi (g (word32 mem off)) mem off := by
  rw [safe_bind, safe_load32, exit_load32, Int.add_zero]
  simp only [Option.mem_some_iff, forall_eq']

/-- The cursor steps over bytes that were read before. -/
theorem safe_step {q : Prog Out β} (n : ℤ) (mem : Memory) (off : ℤ) :
    Safe ok lo hi (skip w n >>= fun _ => q) mem off ↔
      Safe ok lo hi q mem (wrap w (off + n)) := by
  rw [safe_bind, exit_skip]
  simp only [Option.mem_some_iff, forall_eq', safe_skip, true_and]

end PapiSample.Extent
