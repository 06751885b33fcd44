import Mathlib.Data.List.Perm.Subperm
import PapiSample.Releases

/-!
The ledger of a process over all its sessions. `num_maps` grows with every session, so
a later PAPI_sample_stop unmaps more entries than there are rings; the entries behind
those of the session are null, and the ledger of every session is settled all the same.
-/
namespace PapiSample.HistoryLedger

open Process SampleInit OpenedEvents InitChecks Handler Registry Sessions Transition Ledger
  SessionLedger Releases

def mmapsSize : ℕ := 100

/-- The ledger of the complete sessions of a process, as long as `num_maps` stays within
the table. -/
inductive Accounts (pl : Platform) : List (Move Resource) → World → Prop
  | start : Accounts pl [] World.initial
  | session {moves : List (Move Resource)} {w w' : World} {a : Answers} {args : Args} {block : ℕ}
      {labels : List Label} {b : Booked} :
      Accounts pl moves w → HandedOutOnce a pl.cpus → MmapRefuses pl a →
      papiSampleInit pl a args w = .fds block w' → w'.numMaps ≤ mmapsSize →
      Run (Books pl) ⟨State.sampling pl (papiSampleStart pl block w'), initMoves pl a args w⟩
        labels b →
      b.state.handler = none → b.state.main = [] → b.state.alive = true →
      Accounts pl (moves ++ b.moves) b.state.world

variable {pl : Platform} {a : Answers} {args : Args} {ses : Session} {w w' : World} {block : ℕ}
  {labels : List Label} {b : Booked}

/-- To unmap a null entry moves nothing. -/
theorem stopMoves_others (hreg : Registered ses w) {i : ℕ} (hi : ses.cpus ≤ i) :
    stopMoves pl w (.unmap i) = [] := by
  simp only [stopMoves, hreg.others i hi]

/-- The entries that older sessions have counted make no difference. -/
theorem stop_moves (hreg : Registered ses w) {n : ℕ} (hn : ses.cpus ≤ n) :
    (stopSteps ses.cpus n).flatMap (stopMoves pl w) =
      (stopSteps ses.cpus ses.cpus).flatMap (stopMoves pl w) := by
  have hunmaps : ((List.range n).map StopStep.unmap).flatMap (stopMoves pl w) =
      ((List.range ses.cpus).map StopStep.unmap).flatMap (stopMoves pl w) := by
    obtain ⟨more, rfl⟩ := Nat.exists_eq_add_of_le hn
    rw [List.range_add, List.map_append, List.flatMap_append]
    have hnone : (((List.range more).map (ses.cpus + ·)).map StopStep.unmap).flatMap
        (stopMoves pl w) = [] := by
      rw [List.flatMap_eq_nil_iff]
      intro s hs
      simp only [List.map_map, List.mem_map] at hs
      obtain ⟨k, _, rfl⟩ := hs
      exact stopMoves_others hreg (Nat.le_add_right ..)
    rw [hnone, List.append_nil]
  simp only [stopSteps, List.flatMap_append, hunmaps]

/-- The ledger of any session, as far as PAPI_sample_stop has got. -/
theorem ledger_entered (hdistinct : Distinct a pl.cpus)
    (hothers : ∀ i, pl.cpus ≤ i → w.mmaps i = none)
    (hinit : papiSampleInit pl a args w = .fds block w')
    (hrun : Run (Books pl)
      ⟨State.sampling pl (papiSampleStart pl block w'), initMoves pl a args w⟩ labels b) :
    acquired b.moves = sharedResources (w.block + 1) ++
        (List.range pl.cpus).flatMap (cpuResources pl a w.nextRing) ∧
      ∃ rest, .truncated :: (stopSteps pl.cpus pl.cpus).flatMap
          (takenBy pl (sessionOf pl a w hdistinct)) = released b.moves ++ rest ∧
        (b.state.main = [] → rest = []) := by
  have hreg := ((init_started hdistinct hothers hinit).start pl block).registered
  obtain ⟨done, hsteps, hmoves⟩ := (Entered.run hrun).entries
  obtain ⟨hacquired, hreleased⟩ := initMoves_eq hinit
  have hnum := hreg.numMaps
  have hall : (stopSteps pl.cpus (papiSampleStart pl block w').numMaps).flatMap
      (stopMoves pl (papiSampleStart pl block w')) = _ := stop_moves hreg hnum
  obtain ⟨hnothing, htaken⟩ := stop_ledger pl hreg _ fun s hs => hs
  change (stopSteps pl.cpus _).flatMap _ = _ at hall
  rw [← hsteps, List.flatMap_append] at hall
  rw [← hall] at hnothing htaken
  rw [acquired_append] at hnothing
  rw [released_append] at htaken
  have hnone := (List.append_eq_nil_iff.mp hnothing).1
  refine ⟨?_, released (b.state.main.flatMap (stopMoves pl (papiSampleStart pl block w'))), ?_, ?_⟩
  · rw [hmoves, acquired_append, hacquired, hnone, List.append_nil]
  · rw [hmoves, released_append, hreleased]
    exact congrArg _ htaken.symm
  · intro hdone
    rw [hdone]
    rfl

/-- In every session nothing is released that was not acquired, or twice, and when
PAPI_sample_stop is through nothing is left. -/
theorem ledger_settles (honce : HandedOutOnce a pl.cpus) (hrefuses : MmapRefuses pl a)
    (hothers : ∀ i, pl.cpus ≤ i → w.mmaps i = none)
    (hinit : papiSampleInit pl a args w = .fds block w')
    (hrun : Run (Books pl)
      ⟨State.sampling pl (papiSampleStart pl block w'), initMoves pl a args w⟩ labels b) :
    (acquired b.moves).Nodup ∧ (released b.moves).Subperm (acquired b.moves) ∧
      (b.state.main = [] → Settled b.moves) := by
  have hdistinct := honce.distinct hinit
  obtain ⟨hacquired, rest, hreleased, hdone⟩ := ledger_entered hdistinct hothers hinit hrun
  have hperm := releases_perm (sessionOf pl a w hdistinct) (length_pos hrefuses hinit) pl.cpus rfl
  rw [hreleased] at hperm
  have hnodup : (acquired b.moves).Nodup := by
    rw [hacquired]
    exact resources_nodup _ hdistinct
  refine ⟨hnodup, ?_, fun hmain => ⟨hnodup, ?_⟩⟩
  · rw [hacquired]
    exact (List.sublist_append_left _ rest).subperm.trans hperm.subperm
  · rw [hdone hmain, List.append_nil] at hperm
    rw [hacquired]
    exact hperm

/-- A process between its sessions, as the registry is concerned. -/
theorem Accounts.history {moves : List (Move Resource)} (h : Accounts pl moves w) :
    ∃ episodes, History pl episodes w := by
  induction h with
  | start => exact ⟨[], History.start⟩
  | session _ honce _ hinit _ hrun hidle hmain halive ih =>
    obtain ⟨episodes, hprev⟩ := ih
    exact ⟨_, History.session hprev (honce.distinct hinit) hinit (run_of_books hrun) hidle hmain
      halive⟩

theorem Accounts.balance {moves : List (Move Resource)} (h : Accounts pl moves w) :
    (released moves).Perm (acquired moves) := by
  induction h with
  | start => exact List.Perm.refl _
  | session haccounts honce hrefuses hinit _ hrun _ hmain _ ih =>
    obtain ⟨episodes, hprev⟩ := haccounts.history
    have hsettled := (ledger_settles honce hrefuses (history_registry hprev).2 hinit hrun).2.2 hmain
    rw [released_append, acquired_append]
    exact ih.append hsettled.perm

/-- Over any number of sessions, whichever attempts failed and whenever signals came, all
that was acquired was released as often; and the session that follows acquires nothing
twice, releases nothing that it does not hold, and nothing is left when it is over. -/
theorem history_releases (pl : Platform) (a : Answers) (args : Args) (moves : List (Move Resource))
    (w w' : World) (block : ℕ) (labels : List Label) (b : Booked) (haccounts : Accounts pl moves w)
    (honce : HandedOutOnce a pl.cpus) (hrefuses : MmapRefuses pl a)
    (hinit : papiSampleInit pl a args w = .fds block w') (hfits : w'.numMaps ≤ mmapsSize)
    (hrun : Run (Books pl)
      ⟨State.sampling pl (papiSampleStart pl block w'), initMoves pl a args w⟩ labels b) :
    (released moves).Perm (acquired moves) ∧ (acquired b.moves).Nodup ∧
      (released b.moves).Subperm (acquired b.moves) ∧
      (∀ i, .unmap i ∈ b.state.main → i < mmapsSize) ∧
      (b.state.main = [] → (released b.moves).Perm (acquired b.moves)) := by
  obtain ⟨episodes, hprev⟩ := haccounts.history
  obtain ⟨hnodup, hheld, hsettled⟩ :=
    ledger_settles honce hrefuses (history_registry hprev).2 hinit hrun
  refine ⟨haccounts.balance, hnodup, hheld, fun i hi => ?_, fun hmain => (hsettled hmain).perm⟩
  obtain ⟨done, hsteps, _⟩ := (Entered.run hrun).entries
  have hcount := mem_stopSteps.mp (hsteps ▸ List.mem_append_right done hi)
  have hsame := congrArg Process.Registry.numMaps (papiSampleStart_registry pl block w')
  exact Nat.lt_of_lt_of_le hcount (Nat.le_trans (Nat.le_of_eq hsame) hfits)

/-- A session on two processors in which no signal comes. -/
theorem twoCpus_books (w : World) :
    ∃ block w' labels b,
      papiSampleInit twoCpus (kernelAnswers false) branchArgs w = .fds block w' ∧
      w'.numMaps = w.numMaps + 2 ∧
      Run (Books twoCpus) ⟨State.sampling twoCpus (papiSampleStart twoCpus block w'),
        initMoves twoCpus (kernelAnswers false) branchArgs w⟩ labels b ∧
      b.state.handler = none ∧ b.state.main = [] ∧ b.state.alive = true := by
  obtain ⟨block, w', hinit⟩ : ∃ block w',
      papiSampleInit twoCpus (kernelAnswers false) branchArgs w = .fds block w' := ⟨_, _, rfl⟩
  have hstop := stop_run twoCpus (stopSteps 2 (papiSampleStart twoCpus block w').numMaps) []
    (papiSampleStart twoCpus block w')
  rw [List.append_nil] at hstop
  obtain ⟨moves, hbooks⟩ := books_of_run hstop
    (initMoves twoCpus (kernelAnswers false) branchArgs w)
  exact ⟨block, w', _, _, hinit, init_numMaps kernelAnswers_distinct hinit, hbooks, rfl, rfl, rfl⟩

/-- The second of two sessions. -/
theorem history_releases_twoSessions :
    ∃ moves w, ∃ b : Booked, Accounts twoCpus moves w ∧ acquired moves ≠ [] ∧
      b.state.main = [] ∧ (released moves).Perm (acquired moves) ∧
      (released b.moves).Perm (acquired b.moves) := by
  have hrefuses : MmapRefuses twoCpus (kernelAnswers false) := fun h => absurd h (by decide)
  have honce : HandedOutOnce (kernelAnswers false) 2 := handedOutOnce kernelAnswers_distinct
  obtain ⟨_, w₁, _, b₁, hinit₁, hnum₁, hrun₁, hidle, hmain, halive⟩ := twoCpus_books World.initial
  have hcount₁ : w₁.numMaps = 2 := hnum₁
  have hfits₁ : w₁.numMaps ≤ mmapsSize := by
    rw [hcount₁]
    decide
  have hfirst := Accounts.session Accounts.start honce hrefuses hinit₁ hfits₁ hrun₁ hidle hmain
    halive
  obtain ⟨block, w', labels, b, hinit, hnum, hrun, _, hdone, _⟩ := twoCpus_books b₁.state.world
  have hsame := congrArg Process.Registry.numMaps (session_registry (run_of_books hrun₁))
  have hcount : w'.numMaps = w₁.numMaps + 2 := hnum.trans (congrArg (· + 2) hsame)
  have hfits : w'.numMaps ≤ mmapsSize := by
    rw [hcount, hcount₁]
    decide
  obtain ⟨hbalance, _, _, _, hsettled⟩ := history_releases twoCpus (kernelAnswers false) branchArgs
    _ _ w' block labels b hfirst honce hrefuses hinit hfits hrun
  refine ⟨_, _, b, hfirst, ?_, hdone, hbalance, hsettled hdone⟩
  have hacquired := (ledger_entered kernelAnswers_distinct (fun _ _ => rfl) hinit₁ hrun₁).1
  rw [List.nil_append, hacquired]
  simp [sharedResources]

end PapiSample.HistoryLedger
