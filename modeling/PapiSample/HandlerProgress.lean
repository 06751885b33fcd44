import PapiSample.Lossless

/-!
How long handler runs take. The model divides the handler into ten statements, of which
the search of the registry and the record loop are one each. A run goes through them
whatever the kernel does in between, so over a session their number is bounded by the
number of signals, and only the record loop can keep a run from its end.
-/
namespace PapiSample.HandlerProgress

open Process SampleInit OpenedEvents Handler Registry HandlerRuns Sessions Lossless Transition

def statementsFrom : Pc → ℕ
  | .disable => 10
  | .lookup => 9
  | .readHead => 8
  | .copyToEnd => 7
  | .copyFromStart => 6
  | .recordLoop => 5
  | .clear => 4
  | .storeTail => 3
  | .storePrevHead => 2
  | .refresh => 1

def statementsLeft : Option Frame → ℕ
  | some f => statementsFrom f.pc
  | none => 0

def isStatement : Label → Bool
  | .statement _ _ _ => true
  | _ => false

def isSignal : Label → Bool
  | .signal _ _ => true
  | _ => false

variable {pl : Platform} {ses : Session} {i : ℕ} {f : Frame} {w w' : World} {next : Next}

theorem statementsFrom_pos (pc : Pc) : 0 < statementsFrom pc := by
  cases pc <;> decide

/-- A statement leads to the next one, or to the end of the run. -/
theorem does_left (h : Does pl ses i f w w' next) :
    next = .killed ∨ statementsLeft next.frame + 1 = statementsFrom f.pc := by
  cases h with
  | unmapped => exact Or.inl rfl
  | disable hpc | lookup hpc | readHead _ hpc | copyToEnd _ hpc | copyFromStart _ hpc
  | recordLoop _ hpc | clear hpc | storeTail _ hpc | storePrevHead hpc | refresh hpc =>
    rw [hpc]
    exact Or.inr rfl

/-- A statement brings the run nearer to its end. -/
theorem statement_left {s t : State} {fd : ℤ} {pc : Pc} {bytes : List Bytes.Byte}
    (hvalid : Valid ses s) (hstep : Step pl s (.statement fd pc bytes) t) :
    statementsLeft t.handler < statementsLeft s.handler := by
  generalize hlabel : Label.statement fd pc bytes = l at hstep
  cases hstep with
  | @statement f w next fuel hf hstatement =>
    obtain ⟨i, hframe⟩ := hvalid.handler f hf
    have hpos := statementsFrom_pos f.pc
    rw [resume_handler, hf]
    rcases does_left (statement_does hvalid.registered hframe hstatement) with rfl | hleft
    · exact hpos
    · simp only [statementsLeft] at hleft ⊢
      omega
  | _ => contradiction

/-- Every statement but the record loop comes to an end by itself. -/
theorem statement_ends (pl : Platform) (fuel : ℕ) (f : Frame) (w : World)
    (hpc : f.pc ≠ .recordLoop) :
    ∃ w' next, statement pl fuel f w = some (w', next) := by
  unfold statement
  cases hf : f.pc with
  | recordLoop => exact absurd hf hpc
  | lookup =>
    simp only
    split <;> exact ⟨_, _, rfl⟩
  | storePrevHead =>
    simp only
    split <;> exact ⟨_, _, rfl⟩
  | _ => exact ⟨_, _, rfl⟩

/-- Statements are paid for by signals. -/
structure Paid (labels : List Label) (s : State) : Prop where
  atMost : labels.countP isStatement + statementsLeft s.handler ≤ 10 * labels.countP isSignal
  whileAlive : s.alive = true →
    labels.countP isStatement + statementsLeft s.handler = 10 * labels.countP isSignal

theorem Paid.step {s t : State} {labels : List Label} {l : Label} (h : Paid labels s)
    (hvalid : Valid ses s) (hstep : Step pl s l t) : Paid (labels ++ [l]) t := by
  have hmost := h.atMost
  have halive := h.whileAlive
  cases hstep with
  | append =>
    exact ⟨by simpa [isStatement, isSignal] using hmost,
      by simpa [isStatement, isSignal] using halive⟩
  | signal i _ hidle _ =>
    rw [hidle] at hmost halive
    constructor
    · simp [isStatement, isSignal, statementsLeft, statementsFrom, Frame.start] at hmost ⊢
      omega
    · intro hs
      have hequal := halive hs
      simp [isStatement, isSignal, statementsLeft, statementsFrom, Frame.start] at hequal ⊢
      omega
  | @statement f w next fuel hf hstatement =>
    obtain ⟨i, hframe⟩ := hvalid.handler f hf
    have hdoes := statement_does hvalid.registered hframe hstatement
    rw [hf] at hmost halive
    have hleft := does_left hdoes
    have hpos := statementsFrom_pos f.pc
    constructor
    · rw [resume_handler]
      simp [isStatement, isSignal, statementsLeft] at hmost ⊢
      rcases hleft with rfl | hleft
      · simp only [Next.frame]
        omega
      · simp only [statementsLeft] at hleft
        omega
    · intro hs
      rcases hleft with rfl | hleft
      · contradiction
      · have hbefore : s.alive = true := by
          cases next with
          | killed => contradiction
          | _ => exact hs
        have hequal := halive hbefore
        rw [resume_handler]
        simp [isStatement, isSignal, statementsLeft] at hequal hleft ⊢
        omega
  | main =>
    exact ⟨by simpa [isStatement, isSignal] using hmost,
      by simpa [isStatement, isSignal] using halive⟩

theorem run_paid (hcpus : pl.cpus = ses.cpus) (h : Registered ses w) {labels : List Label}
    {t : State} (hrun : Run (Step pl) (State.sampling pl w) labels t) : Paid labels t := by
  induction hrun with
  | nil => exact ⟨Nat.le_refl 0, fun _ => rfl⟩
  | snoc hprev hlast ih => exact ih.step ((valid_sampling h).run hcpus hprev) hlast

end PapiSample.HandlerProgress
