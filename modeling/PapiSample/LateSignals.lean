import PapiSample.Sessions
import PapiSample.Teardown

/-!
Signals that arrive while PAPI_sample_stop is at work. The handler is neither
blocked nor uninstalled, so a signal that was raised before its event was disabled
can be delivered between any two statements. The handler run is safe before the
event is disabled, and again after it is closed and before its ring is unmapped.
-/
namespace PapiSample.LateSignals

open Bytes MmapRead Process EventSetup SampleInit OpenedEvents Handler Registry HandlerRuns Sessions
  Teardown Transition

/-- What is still to come when a signal for processor `i` is harmless. -/
def InTime (rest : List StopStep) (i : ℕ) : Prop :=
  .disable i ∈ rest ∨ (.close i ∉ rest ∧ .unmap i ∈ rest)

instance (rest : List StopStep) (i : ℕ) : Decidable (InTime rest i) :=
  inferInstanceAs (Decidable (_ ∨ _))

def SignalsInTime (labels : List Label) : Prop :=
  ∀ i rest, Label.signal i rest ∈ labels → InTime rest i

variable {pl : Platform} {ses : Session} {w w' : World} {i : ℕ} {f : Frame} {next : Next}

theorem access_faults (w : World) (ok : Bool) (fault : Fault) :
    w.faults <:+ (w.access ok fault).faults := by
  cases ok
  · exact List.suffix_cons ..
  · exact List.suffix_refl _

/-- No statement takes a fault back. -/
theorem does_faults (h : Does pl ses i f w w' next) : w.faults <:+ w'.faults := by
  cases h with
  | lookup => exact (access_faults ..).trans (access_faults ..)
  | unmapped => exact List.suffix_cons ..
  | copyToEnd => exact access_faults ..
  | copyFromStart => exact access_faults ..
  | recordLoop => exact access_faults ..
  | clear => exact access_faults ..
  | storePrevHead => exact access_faults ..
  | refresh => exact access_faults ..
  | _ => exact List.suffix_refl _

structure Usable (ses : Session) (w : World) (i : ℕ) : Prop where
  fdsLive : w.fdsLive ses.block = true
  headsLive : w.headsLive ses.block = true
  dataLive : w.dataLive = true
  logOpen : w.logOpen = true
  mapped : (w.rings (ses.ring i)).isSome = true
  notRearmed : (w.files (ses.fd i)).isSome = true → w.stopped (ses.fd i) = false

theorem fdsReadable_live (hreg : Registered ses w) (hlive : w.fdsLive ses.block = true)
    (hi : i < ses.cpus) : fdsReadable w i = true := by
  apply List.all_eq_true.mpr
  intro j hj
  have hj : j < i + 1 := List.mem_range.mp hj
  rw [hreg.mmaps j (by omega)]
  exact hlive

/-- With all of that there, no statement is to blame. -/
theorem does_clean (hreg : Registered ses w) (hf : FrameOf ses w i f)
    (husable : Usable ses w i) (h : Does pl ses i f w w' next) : w'.faults = w.faults := by
  cases h with
  | lookup =>
    rw [fdsReadable_live hreg husable.fdsLive hf.cpu, husable.headsLive]
    rfl
  | unmapped _ hnone =>
    have hmapped := husable.mapped
    rw [hnone] at hmapped
    contradiction
  | copyToEnd =>
    rw [husable.dataLive]
    rfl
  | copyFromStart =>
    rw [husable.dataLive]
    rfl
  | recordLoop ok _ hlog =>
    rw [hlog husable.logOpen]
    rfl
  | clear =>
    rw [husable.dataLive]
    rfl
  | storePrevHead =>
    rw [husable.headsLive]
    rfl
  | refresh =>
    have hok : (!((w.files f.fd).isSome && w.stopped f.fd)) = true := by
      rw [hf.fd]
      cases hopen : (w.files (ses.fd i)).isSome with
      | false => rfl
      | true => rw [husable.notRearmed hopen]; rfl
    rw [hok]
    rfl
  | _ => rfl

/-- A run that will arm a disabled event or look for an unmapped ring does not come
to its end without a fault. -/
theorem does_doomed (hf : FrameOf ses w i f) (h : Does pl ses i f w w' next)
    (hbad : ((w.files (ses.fd i)).isSome = true ∧ w.stopped (ses.fd i) = true) ∨
      w.rings (ses.ring i) = none) :
    w.faults.length < w'.faults.length ∨ ∃ f', next = .at f' := by
  cases h with
  | unmapped => exact Or.inl (Nat.lt_succ_self _)
  | refresh hpc =>
    left
    rcases hbad with ⟨hopen, hstopped⟩ | hnone
    · rw [hf.fd, hopen, hstopped]
      exact Nat.lt_succ_self _
    · obtain ⟨r, hr⟩ := hf.mapped (by rw [hpc]; rfl)
      rw [hnone] at hr
      contradiction
  | _ => exact Or.inr ⟨_, rfl⟩

theorem closing_mem {cpus numMaps : ℕ} {rest : List StopStep} {i : ℕ}
    (hsuffix : rest <:+ stopSteps cpus numMaps) (hi : i < cpus) (hnum : cpus ≤ numMaps)
    (h : .disable i ∈ rest) : .close i ∈ rest ∧ .unmap i ∈ rest := by
  have hlater : ∀ y, y ∈ (List.range cpus).map StopStep.close ++ ((List.range numMaps).map .unmap ++
      [.closeLog, .freeFds, .freeHeads, .freeData]) → y ∈ rest := fun y hy =>
    later_mem hsuffix h (by simp) hy
  exact ⟨hlater _ (by simpa using hi), hlater _ (by simpa using Nat.lt_of_lt_of_le hi hnum)⟩

theorem freeing_mem {cpus numMaps : ℕ} {rest : List StopStep} {i : ℕ}
    (hsuffix : rest <:+ stopSteps cpus numMaps) (h : .unmap i ∈ rest) {y : StopStep}
    (hy : y ∈ [StopStep.closeLog, .freeFds, .freeHeads, .freeData]) : y ∈ rest := by
  have hsplit : stopSteps cpus numMaps = ((List.range cpus).flatMap (fun i =>
      [StopStep.refresh i, .disable i]) ++ ((List.range cpus).map .close ++
        (List.range numMaps).map .unmap)) ++ [.closeLog, .freeFds, .freeHeads, .freeData] := by
    simp only [stopSteps, List.append_assoc]
  rw [hsplit] at hsuffix
  exact later_mem hsuffix h (by simp) hy

/-- In time, all that a run for the processor needs is there. -/
theorem usable_inTime {u : State} (h : Unwound ses u) (hi : i < ses.cpus)
    (hintime : InTime u.main i) : Usable ses u.world i := by
  have hnum := h.valid.registered.numMaps
  have hunmap : .unmap i ∈ u.main := by
    rcases hintime with hdisable | ⟨_, hunmap⟩
    · exact (closing_mem h.suffix hi hnum hdisable).2
    · exact hunmap
  have hfree : ∀ y ∈ [StopStep.closeLog, .freeFds, .freeHeads, .freeData], y ∈ u.main :=
    fun y hy => freeing_mem h.suffix hunmap hy
  refine ⟨(h.held .freeFds trivial).mpr (hfree _ (by simp)),
    (h.held .freeHeads trivial).mpr (hfree _ (by simp)),
    (h.held .freeData trivial).mpr (hfree _ (by simp)),
    (h.held .closeLog trivial).mpr (hfree _ (by simp)), (h.held (.unmap i) hi).mpr hunmap,
    fun hopen => ?_⟩
  rcases hintime with hdisable | ⟨hclose, _⟩
  · exact (h.held (.disable i) hi).mpr hdisable
  · exact absurd ((h.held (.close i) hi).mp hopen) hclose

/-- Out of time, the run will arm the event again or miss its ring. -/
theorem forbidden_late {u : State} (h : Unwound ses u) (hi : i < ses.cpus)
    (hlate : ¬ InTime u.main i) :
    ((u.world.files (ses.fd i)).isSome = true ∧ u.world.stopped (ses.fd i) = true) ∨
      u.world.rings (ses.ring i) = none := by
  rw [InTime, not_or, not_and] at hlate
  by_cases hunmap : .unmap i ∈ u.main
  · left
    have hclose : .close i ∈ u.main := by
      by_contra hclosed
      exact hlate.2 hclosed hunmap
    refine ⟨(h.held (.close i) hi).mpr hclose, ?_⟩
    cases hstopped : u.world.stopped (ses.fd i) with
    | true => rfl
    | false => exact absurd ((h.held (.disable i) hi).mp hstopped) hlate.1
  · right
    have hgone : ¬ (u.world.rings (ses.ring i)).isSome = true := fun hmapped =>
      hunmap ((h.held (.unmap i) hi).mp hmapped)
    exact Option.not_isSome_iff_eq_none.mp hgone

/-- The faults of a session, next to the signals it has had. While a run is under
way, PAPI_sample_stop does not go on. -/
structure Watched (ses : Session) (base : List Fault) (labels : List Label) (u : State) : Prop where
  unwound : Unwound ses u
  grows : base <:+ u.world.faults
  clean : SignalsInTime labels → u.world.faults = base ∧
    ∀ f i, u.handler = some f → i < ses.cpus → f.fd = ses.fd i → InTime u.main i
  late : ¬ SignalsInTime labels → base.length < u.world.faults.length ∨
    ∃ f i, u.handler = some f ∧ FrameOf ses u.world i f ∧ ¬ InTime u.main i

theorem signalsInTime_snoc {labels : List Label} {l : Label} :
    SignalsInTime (labels ++ [l]) ↔
      SignalsInTime labels ∧ ∀ i rest, l = .signal i rest → InTime rest i := by
  simp only [SignalsInTime, List.mem_append, List.mem_singleton]
  constructor
  · intro h
    exact ⟨fun i rest hl => h i rest (Or.inl hl), fun i rest hl => h i rest (Or.inr hl.symm)⟩
  · rintro ⟨hlabels, hlast⟩ i rest (hl | hl)
    · exact hlabels i rest hl
    · exact hlast i rest hl.symm

/-- Only a signal says anything about the time. -/
theorem signalsInTime_other {labels : List Label} {l : Label}
    (hl : ∀ i rest, l ≠ .signal i rest) : SignalsInTime (labels ++ [l]) ↔ SignalsInTime labels :=
  signalsInTime_snoc.trans (and_iff_left fun i rest h => absurd h (hl i rest))

theorem perform_faults (w : World) (t : StopStep) : (perform w t).faults = w.faults := by
  cases t with
  | unmap i =>
    simp only [perform]
    split <;> rfl
  | _ => rfl

variable {base : List Fault} {labels : List Label} {u v : State} {l : Label}

/-- A new run, in time or not. -/
theorem Watched.signal (h : Watched ses base labels u) (hidle : u.handler = none)
    (hi : i < ses.cpus)
    (hunwound : Unwound ses { u with handler := some (Frame.start (u.world.currentFd i)) }) :
    Watched ses base (labels ++ [.signal i u.main])
      { u with handler := some (Frame.start (u.world.currentFd i)) } := by
  have hfd := h.unwound.valid.registered.currentFd hi
  refine ⟨hunwound, h.grows, ?_, ?_⟩
  · intro hintime
    obtain ⟨hlabels, hlast⟩ := signalsInTime_snoc.mp hintime
    refine ⟨(h.clean hlabels).1, fun f j hf hj hj' => ?_⟩
    cases hf
    rw [ses.distinct j i hj hi (hj'.symm.trans hfd)]
    exact hlast i _ rfl
  · intro hlate
    by_cases hlabels : SignalsInTime labels
    · refine Or.inr ⟨_, i, rfl, FrameOf.start h.unwound.valid.registered hi, fun hintime =>
        hlate ?_⟩
      refine signalsInTime_snoc.mpr ⟨hlabels, fun j rest heq => ?_⟩
      cases heq
      exact hintime
    · rcases h.late hlabels with hmore | ⟨f, _, hf, _⟩
      · exact Or.inl hmore
      · exact absurd hf (idle_ne hidle)

theorem Watched.statement (h : Watched ses base labels u) {fuel : ℕ} (hf : u.handler = some f)
    (hstep : statement pl fuel f u.world = some (w, next)) {given : List Byte}
    (hunwound : Unwound ses (resume u w next)) :
    Watched ses base (labels ++ [.statement f.fd f.pc given]) (resume u w next) := by
  obtain ⟨i, hframe⟩ := h.unwound.valid.handler f hf
  have hreg := h.unwound.valid.registered
  have hdoes := statement_does hreg hframe hstep
  have hsuffix := does_faults hdoes
  have hothers : SignalsInTime (labels ++ [.statement f.fd f.pc given]) ↔ SignalsInTime labels :=
    signalsInTime_other fun _ _ => nofun
  refine ⟨hunwound, by rw [resume_world]; exact h.grows.trans hsuffix, fun hintime => ?_,
    fun hlate => ?_⟩
  · obtain ⟨hfaults, hrun⟩ := h.clean (hothers.mp hintime)
    have hown := hrun f i hf hframe.cpu hframe.fd
    rw [resume_world, does_clean hreg hframe (usable_inTime h.unwound hframe.cpu hown) hdoes,
      resume_main, resume_handler]
    refine ⟨hfaults, fun g j hg hj hj' => ?_⟩
    have hfd := (hframe.does hdoes hg).fd
    rw [ses.distinct j i hj hframe.cpu (hj'.symm.trans hfd)]
    exact hown
  · rw [resume_world, resume_main]
    rcases h.late fun hlabels => hlate (hothers.mpr hlabels) with
      hmore | ⟨g, j, hg, hframe', hlate'⟩
    · exact Or.inl (Nat.lt_of_lt_of_le hmore hsuffix.length_le)
    · cases hf.symm.trans hg
      have hdoes' := statement_does hreg hframe' hstep
      rcases does_doomed hframe' hdoes' (forbidden_late h.unwound hframe'.cpu hlate') with
        hmore | ⟨f', rfl⟩
      · exact Or.inl (Nat.lt_of_le_of_lt h.grows.length_le hmore)
      · exact Or.inr ⟨f', j, rfl, hframe'.does hdoes' rfl, hlate'⟩

theorem Watched.step (hcpus : pl.cpus = ses.cpus) (h : Watched ses base labels u)
    (hstep : Step pl u l v) : Watched ses base (labels ++ [l]) v := by
  have hunwound := h.unwound.step hcpus hstep
  cases hstep with
  | append ring bytes hr _ _ =>
    have hothers : SignalsInTime (labels ++ [.append ring bytes]) ↔ SignalsInTime labels :=
      signalsInTime_other fun _ _ => nofun
    refine ⟨hunwound, h.grows, fun hintime => h.clean (hothers.mp hintime), fun hlate => ?_⟩
    rcases h.late fun hlabels => hlate (hothers.mpr hlabels) with hmore | ⟨f, i, hf, hframe, hlate'⟩
    · exact Or.inl hmore
    · exact Or.inr ⟨f, i, hf, hframe.append, hlate'⟩
  | signal i _ hidle hi => exact h.signal hidle (by omega) hunwound
  | statement fuel hf hstatement => exact h.statement hf hstatement hunwound
  | @main t rest _ hidle _ =>
    have hothers : SignalsInTime (labels ++ [.main t]) ↔ SignalsInTime labels :=
      signalsInTime_other fun _ _ => nofun
    have hfaults := perform_faults u.world t
    refine ⟨hunwound, by rw [hfaults]; exact h.grows, ?_, ?_⟩
    · intro hintime
      rw [hfaults]
      exact ⟨(h.clean (hothers.mp hintime)).1, fun f _ hf => absurd hf (idle_ne hidle)⟩
    · intro hlate
      rcases h.late fun hlabels => hlate (hothers.mpr hlabels) with hmore | ⟨f, _, hf, _⟩
      · exact Or.inl (by rw [hfaults]; exact hmore)
      · exact absurd hf (idle_ne hidle)

theorem run_watched (hcpus : pl.cpus = ses.cpus) (h : Started ses w)
    (hrun : Run (Step pl) (State.sampling pl w) labels v) : Watched ses w.faults labels v := by
  induction hrun with
  | nil =>
    refine ⟨unwound_sampling h hcpus, List.suffix_refl _, fun _ => ⟨rfl, nofun⟩, fun hlate => ?_⟩
    exact absurd (fun _ _ hl => absurd hl List.not_mem_nil) hlate
  | snoc _ hlast ih => exact ih.step hcpus hlast

theorem papiSampleStart_faults (pl : Platform) (block : ℕ) (w : World) :
    (papiSampleStart pl block w).faults = w.faults := by
  unfold papiSampleStart
  induction List.range pl.cpus generalizing w with
  | nil => rfl
  | cons i rest ih => exact ih (w.setEnabled _ _)

/-- If all signals come in time, nothing is ever to blame; and once all runs are
over, a signal that did not has left its fault. -/
theorem handler_safe_iff (pl : Platform) (a : Answers) (args : Args)
    (episodes : List (World × World)) (w w' : World) (block : ℕ) (labels : List Label) (t : State)
    (hprev : History pl episodes w) (hdistinct : Distinct a pl.cpus)
    (hinit : papiSampleInit pl a args w = .fds block w')
    (hrun : Run (Step pl) (State.sampling pl (papiSampleStart pl block w')) labels t) :
    (SignalsInTime labels → t.world.faults = w'.faults) ∧
      (t.handler = none → t.world.faults = w'.faults → SignalsInTime labels) := by
  have hstarted := (init_started hdistinct (history_registry hprev).2 hinit).start pl block
  have hwatched := run_watched rfl hstarted hrun
  rw [papiSampleStart_faults] at hwatched
  refine ⟨fun hintime => (hwatched.clean hintime).1, fun hidle hfaults => ?_⟩
  by_contra hlate
  rcases hwatched.late hlate with hmore | ⟨f, _, hf, _⟩
  · rw [hfaults] at hmore
    exact absurd hmore (Nat.lt_irrefl _)
  · exact absurd hf (idle_ne hidle)

/-- A signal for the first of two processors, whose event has just been disabled. -/
theorem lateSignal_run :
    ∃ w' labels t, papiSampleInit twoCpus (kernelAnswers false) branchArgs World.initial =
        .fds 1 w' ∧
      Run (Step twoCpus) (State.sampling twoCpus (papiSampleStart twoCpus 1 w')) labels t ∧
      t.handler = none ∧ w'.faults = [] ∧ t.world.faults = [.rearmed] ∧
      t.world.stopped 3 = true ∧ (t.world.files 3).map File.enabled = some true := by
  obtain ⟨w', hinit⟩ : ∃ w', papiSampleInit twoCpus (kernelAnswers false) branchArgs World.initial =
      .fds 1 w' := ⟨_, rfl⟩
  let begun : List StopStep := [.refresh 0, .disable 0]
  let late : State := ⟨begun.foldl perform (papiSampleStart twoCpus 1 w'), none,
    (stopSteps 2 2).drop 2, true⟩
  have hstop : Run (Step twoCpus) (State.sampling twoCpus (papiSampleStart twoCpus 1 w'))
      (begun.map .main) late := by
    cases hinit
    exact stop_run twoCpus begun ((stopSteps 2 2).drop 2) _
  have hends : ((runHandler twoCpus 2 10
      { late with handler := some (Frame.start (late.world.currentFd 0)) }).map fun t =>
        (t.handler.isNone, t.world.faults, t.world.stopped 3,
          (t.world.files 3).map File.enabled)) = some (true, [.rearmed], true, some true) := by
    cases hinit
    decide +kernel
  obtain ⟨t, ht, hend⟩ := Option.map_eq_some_iff.mp hends
  simp only [Prod.mk.injEq] at hend
  obtain ⟨hidle, hfaults, hstopped, henabled⟩ := hend
  obtain ⟨labels, hhandler, _⟩ := signal_run (s := late) rfl rfl (by decide) ht
  refine ⟨w', _, t, hinit, hstop.append hhandler, Option.isNone_iff_eq_none.mp hidle, ?_, hfaults,
    hstopped, henabled⟩
  cases hinit
  rfl

/-- Its handler run leaves the event enabled. -/
theorem lateSignal_rearms :
    ∃ w' labels t, papiSampleInit twoCpus (kernelAnswers false) branchArgs World.initial =
        .fds 1 w' ∧
      Run (Step twoCpus) (State.sampling twoCpus (papiSampleStart twoCpus 1 w')) labels t ∧
      t.handler = none ∧ t.world.stopped 3 = true ∧
      (t.world.files 3).map File.enabled = some true ∧ t.world.faults ≠ w'.faults := by
  obtain ⟨w', labels, t, hinit, hrun, hidle, hnone, hfaults, hstopped, henabled⟩ := lateSignal_run
  refine ⟨w', labels, t, hinit, hrun, hidle, hstopped, henabled, ?_⟩
  rw [hfaults, hnone]
  exact List.cons_ne_nil _ _

/-- It did not come in time. -/
theorem handler_safe_lateSignal :
    ∃ w' labels t, papiSampleInit twoCpus (kernelAnswers false) branchArgs World.initial =
        .fds 1 w' ∧
      Run (Step twoCpus) (State.sampling twoCpus (papiSampleStart twoCpus 1 w')) labels t ∧
      ¬ SignalsInTime labels := by
  obtain ⟨w', labels, t, hinit, hrun, _, hnone, hfaults, _, _⟩ := lateSignal_run
  refine ⟨w', labels, t, hinit, hrun, fun hintime => ?_⟩
  have hsafe := (handler_safe_iff twoCpus (kernelAnswers false) branchArgs [] World.initial w' 1
    labels t History.start kernelAnswers_distinct hinit hrun).1 hintime
  rw [hfaults, hnone] at hsafe
  exact List.cons_ne_nil _ _ hsafe

end PapiSample.LateSignals
