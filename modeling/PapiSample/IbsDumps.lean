import PapiSample.BlockBounds

/-!
The two dumps of AMD's IBS records. The payload is a header of four bytes and then
words; the dump of a fetch decides by 24 whether there is a fourth word, which
leaves the header out of account, the dump of an op decides by 64 about its
eighth, which does not.
-/
namespace PapiSample.IbsDumps

open Bytes Cursor PerfEvent ParseRecord SampleFields Extent FieldBounds BlockBounds

inductive Dump
  | fetch | op
deriving DecidableEq

def Dump.program : Dump → ℤ → Parser Unit
  | .fetch => dumpRawIbsFetch
  | .op => dumpRawIbsOp

def Dump.words : Dump → ℕ
  | .fetch => 3
  | .op => 7

def payloadSize (n : ℕ) : ℤ := 4 + 8 * n

/-- The dump reads inside the payload at `off`. -/
def ReadsInside (d : Dump) (n : ℕ) (mem : Memory) (off : ℤ) : Prop :=
  ∀ pos len, Event.load pos len ∈ (d.program (payloadSize n) mem off).log →
    Span off (off + payloadSize n) pos len

/-- The raw block runs the dump that the caller has chosen. -/
theorem rawPayload_dump (c : Config) (size : ℤ) :
    (c.rawType = RAW_IBS_FETCH → rawPayload c size = Dump.fetch.program size) ∧
      (c.rawType = RAW_IBS_OP → rawPayload c size = Dump.op.program size) := by
  unfold rawPayload
  constructor
  · intro h
    rw [if_pos h]
    rfl
  · intro h
    rw [if_neg (by rw [h]; decide), if_pos h]
    rfl

/-- A run that is safe somewhere is safe wherever all its loads are. -/
theorem safe_iff_loads {Out α : Type} {ok : Out → Prop} {lo hi lo' hi' : ℤ} {p : Prog Out α}
    {mem : Memory} {off : ℤ} (h : Safe ok lo' hi' p mem off) :
    Safe ok lo hi p mem off ↔
      ∀ pos len, Event.load pos len ∈ (p mem off).log → Span lo hi pos len := by
  constructor
  · intro hsafe pos len hload
    exact (hsafe _ hload).2
  · intro hspan e he
    cases e with
    | load pos len => exact ⟨(h _ he).1, hspan pos len he⟩
    | emit o => exact h _ he

theorem fetch_safe_far (size : ℤ) (mem : Memory) (off : ℤ) :
    Safe Sound off (off + 36) (dumpRawIbsFetch size) mem off := by
  apply (dumpRawIbsFetch_safe size mem off).mpr
  intro _
  split <;> omega

theorem op_safe_far (size : ℤ) (mem : Memory) (off : ℤ) :
    Safe Sound off (off + 68) (dumpRawIbsOp size) mem off := by
  apply (dumpRawIbsOp_safe size mem off).mpr
  intro _
  split
  · omega
  · split
    · omega
    · split <;> omega

/-- The fourth word of a fetch is read as soon as the size is above 24, which three
words and the header already are. -/
theorem fetch_inside_iff (n : ℕ) (hn : 3 ≤ n) (mem : Memory) (off : ℤ) :
    ReadsInside .fetch n mem off ↔ n ≠ 3 := by
  unfold ReadsInside Dump.program
  rw [← safe_iff_loads (fetch_safe_far _ mem off), dumpRawIbsFetch_safe]
  unfold Span payloadSize
  rw [if_pos (by omega)]
  omega

/-- The eighth word of an op is read above 64, which seven words and the header are
not; the sixth and the seventh are always there. -/
theorem op_inside (n : ℕ) (hn : 7 ≤ n) (mem : Memory) (off : ℤ) : ReadsInside .op n mem off := by
  unfold ReadsInside Dump.program
  rw [← safe_iff_loads (op_safe_far _ mem off), dumpRawIbsOp_safe]
  intro _
  unfold payloadSize
  split
  · omega
  · split
    · omega
    · split <;> omega

/-- A dump reads inside the payload, whatever the words hold, unless it is the dump of
a fetch that has no fourth word. -/
theorem readsInside_iff (d : Dump) (n : ℕ) (hn : d.words ≤ n) (mem : Memory) (off : ℤ) :
    ReadsInside d n mem off ↔ ¬(d = .fetch ∧ n = 3) := by
  cases d with
  | fetch => simpa using fetch_inside_iff n hn mem off
  | op => simpa using op_inside n hn mem off

/-- A fetch of three words. -/
theorem readsInside_fetch : ¬ReadsInside .fetch 3 (fun _ => 0) 0 := by
  intro h
  exact (fetch_inside_iff 3 (by omega) _ _).mp h rfl

theorem readsInside_op :
    ReadsInside .op 7 (fun _ => 255) 0 ↔ ¬(Dump.op = .fetch ∧ 7 = 3) :=
  readsInside_iff .op 7 (by decide) (fun _ => 255) 0

end PapiSample.IbsDumps
