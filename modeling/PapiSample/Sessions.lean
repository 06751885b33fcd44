import PapiSample.Registry

/-!
Complete sampling sessions one after the other in one process: PAPI_sample_init,
PAPI_sample_start, a run in which handlers may come at any time, and the
statements of PAPI_sample_stop. Every session adds to `num_maps` the number of
processors, and nothing takes it back.
-/
namespace PapiSample.Sessions

open Process EventSetup SampleInit OpenedEvents Handler Registry Transition

/-- The states of the process after the PAPI_sample_init and after the
PAPI_sample_stop of each session. -/
inductive History (pl : Platform) : List (World × World) → World → Prop
  | start : History pl [] World.initial
  | session {episodes : List (World × World)} {w w' : World} {a : Answers} {args : Args}
      {block : ℕ} {labels : List Label} {t : State} :
      History pl episodes w → Distinct a pl.cpus → papiSampleInit pl a args w = .fds block w' →
      Run (Step pl) (State.sampling pl (papiSampleStart pl block w')) labels t →
      t.handler = none → t.main = [] → t.alive = true →
      History pl (episodes ++ [(w', t.world)]) t.world

variable {pl : Platform}

theorem init_numMaps {a : Answers} {args : Args} {w w' : World} {block : ℕ}
    (hdistinct : Distinct a pl.cpus) (h : papiSampleInit pl a args w = .fds block w') :
    w'.numMaps = w.numMaps + pl.cpus := by
  obtain ⟨_, _, p, rfl, hopens⟩ := papiSampleInit_opens hdistinct h
  exact hopens.numMaps

theorem init_others {a : Answers} {args : Args} {w w' : World} {block : ℕ}
    (hdistinct : Distinct a pl.cpus) (h : papiSampleInit pl a args w = .fds block w')
    (hothers : ∀ i, pl.cpus ≤ i → w.mmaps i = none) : ∀ i, pl.cpus ≤ i → w'.mmaps i = none :=
  (init_started hdistinct hothers h).registered.others

/-- No statement of a session writes the registry. -/
theorem session_registry {w : World} {labels : List Label} {t : State} {block : ℕ}
    (hrun : Run (Step pl) (State.sampling pl (papiSampleStart pl block w)) labels t) :
    t.world.registry = w.registry :=
  (run_registry hrun).trans (papiSampleStart_registry ..)

/-- After any number of sessions the registry counts the rings of all of them,
and has entries for one session. -/
theorem history_registry {episodes : List (World × World)} {w : World}
    (h : History pl episodes w) :
    w.numMaps = episodes.length * pl.cpus ∧ ∀ i, pl.cpus ≤ i → w.mmaps i = none := by
  induction h with
  | start => exact ⟨by simp [World.initial], fun _ _ => rfl⟩
  | @session episodes w w' _ _ _ _ t _ hdistinct hinit hrun _ _ _ ih =>
    have hsame := session_registry hrun
    have hnum : t.world.numMaps = w'.numMaps := congrArg Process.Registry.numMaps hsame
    have hmmaps : t.world.mmaps = w'.mmaps := congrArg Process.Registry.mmaps hsame
    refine ⟨?_, ?_⟩
    · rw [hnum, init_numMaps hdistinct hinit, ih.1, List.length_append, List.length_singleton,
        Nat.add_mul, Nat.one_mul]
    · intro i hi
      rw [hmmaps]
      exact init_others hdistinct hinit ih.2 i hi

/-- The registry lists the rings of the current session and no others, each with
its own descriptor and head. -/
structure ListsExactly (cpus : ℕ) (w : World) : Prop where
  numMaps : w.numMaps = cpus
  entries : ∀ i < cpus, ∃ ring r,
    w.mmaps i = some { sampleMmap := ring, fd := ⟨w.block, i⟩, prevHead := ⟨w.block, i⟩ } ∧
      w.rings ring = some r ∧ r.fd = w.currentFd i ∧ (w.files r.fd).isSome = true ∧
      w.fdsLive w.block = true ∧ w.headsLive w.block = true

/-- The entries that the search for a descriptor and PAPI_sample_stop visit are
entries of the current session. -/
structure VisitsOwn (cpus : ℕ) (w : World) : Prop where
  handler : ∀ i < cpus, ∃ e, lookup w (w.currentFd i) = .entry i e
  stop : ∀ i, StopStep.unmap i ∈ stopSteps cpus w.numMaps → i < cpus

def ListsNone (w : World) : Prop := ∀ i < w.numMaps, w.mmaps i = none

def RegistryInvariant (cpus : ℕ) (episodes : List (World × World)) : Prop :=
  ∀ e ∈ episodes, ListsExactly cpus e.1 ∧ VisitsOwn cpus e.1 ∧ ListsNone e.2

/-- The first session finds its registry in order. -/
theorem first_init {a : Answers} {args : Args} {w w' : World} {block : ℕ}
    (hdistinct : Distinct a pl.cpus) (h : papiSampleInit pl a args w = .fds block w')
    (hfirst : w.numMaps = 0) (hothers : ∀ i, pl.cpus ≤ i → w.mmaps i = none) :
    ListsExactly pl.cpus w' ∧ VisitsOwn pl.cpus w' := by
  have hstarted := init_started hdistinct hothers h
  have hregistered := hstarted.registered
  have hnum : w'.numMaps = pl.cpus := by
    rw [init_numMaps hdistinct h, hfirst, Nat.zero_add]
  have hblock : w'.block = w.block + 1 := hregistered.block
  refine ⟨⟨hnum, ?_⟩, ?_, ?_⟩
  · intro i hi
    have hfd : w'.currentFd i = descriptor a i := hregistered.currentFd hi
    refine ⟨_, _, by rw [hblock]; exact hregistered.mmaps i hi, hstarted.rings i hi, hfd.symm,
      hstarted.isOpen i hi, ?_, ?_⟩
    · rw [hblock]
      exact hstarted.fdsLive
    · rw [hblock]
      exact hstarted.headsLive
  · intro i hi
    have hfd : w'.currentFd i = descriptor a i := hregistered.currentFd hi
    exact ⟨_, by rw [hfd]; exact lookup_registered hregistered hi⟩
  · intro i hi
    rw [hnum] at hi
    exact mem_stopSteps.mp hi

/-- After PAPI_sample_stop the entries of the session are still listed. -/
theorem stop_lists {a : Answers} {args : Args} {w w' : World} {block : ℕ} {labels : List Label}
    {t : State} (hdistinct : Distinct a pl.cpus) (h : papiSampleInit pl a args w = .fds block w')
    (hothers : ∀ i, pl.cpus ≤ i → w.mmaps i = none)
    (hrun : Run (Step pl) (State.sampling pl (papiSampleStart pl block w')) labels t) :
    ¬ ListsNone t.world := by
  intro hnone
  have hsame := session_registry hrun
  have hnum : t.world.numMaps = w'.numMaps := congrArg Process.Registry.numMaps hsame
  have hmmaps : t.world.mmaps = w'.mmaps := congrArg Process.Registry.mmaps hsame
  have hcpus := (papiSampleInit_opens hdistinct h).1
  have hregistered := (init_started hdistinct hothers h).registered
  have hcount := hregistered.numMaps
  have hempty := hnone 0 (by rw [hnum]; exact Nat.lt_of_lt_of_le hcpus hcount)
  rw [hmmaps, hregistered.mmaps 0 hcpus] at hempty
  contradiction

/-- In session `k` the registry is right after PAPI_sample_init only if it is the
first one, and it is never right after PAPI_sample_stop. -/
theorem history_episodes {episodes : List (World × World)} {w : World}
    (h : History pl episodes w) (k : ℕ) (e : World × World) (he : episodes[k]? = some e) :
    e.1.numMaps = (k + 1) * pl.cpus ∧
      (ListsExactly pl.cpus e.1 ∧ VisitsOwn pl.cpus e.1 ↔ k = 0) ∧ ¬ ListsNone e.2 := by
  induction h with
  | start => contradiction
  | @session episodes w w' _ _ _ _ t hprev hdistinct hinit hrun _ _ _ ih =>
    rcases Nat.lt_or_ge k episodes.length with hlt | hge
    · rw [List.getElem?_append_left hlt] at he
      exact ih he
    · have hlen : k = episodes.length := by
        have := (List.getElem?_eq_some_iff.mp he).1
        rw [List.length_append, List.length_singleton] at this
        omega
      subst hlen
      rw [List.getElem?_concat_length] at he
      cases he
      obtain ⟨hnum, hothers⟩ := history_registry hprev
      have hcpus := (papiSampleInit_opens hdistinct hinit).1
      have hcount : w'.numMaps = (episodes.length + 1) * pl.cpus := by
        rw [init_numMaps hdistinct hinit, hnum, Nat.add_mul, Nat.one_mul]
      refine ⟨hcount, ⟨?_, ?_⟩, stop_lists hdistinct hinit hothers hrun⟩
      · intro hright
        have hone := hright.1.numMaps
        rw [hcount, Nat.add_mul, Nat.one_mul] at hone
        have hzero : episodes.length * pl.cpus = 0 := by omega
        rcases Nat.mul_eq_zero.mp hzero with hk | hp
        · exact hk
        · omega
      · intro hzero
        rw [hzero, Nat.zero_mul] at hnum
        exact first_init hdistinct hinit hnum hothers

/-- The registry is right throughout only as long as no session was completed. -/
theorem registryInvariant_iff (pl : Platform) (episodes : List (World × World)) (w : World)
    (h : History pl episodes w) : RegistryInvariant pl.cpus episodes ↔ episodes = [] := by
  constructor
  · intro hright
    cases hepisodes : episodes with
    | nil => rfl
    | cons e rest =>
      have hfirst : episodes[0]? = some e := by rw [hepisodes]; rfl
      have hmem : e ∈ episodes := List.mem_of_getElem? hfirst
      exact absurd (hright e hmem).2.2 (history_episodes h 0 e hfirst).2.2
  · rintro rfl
    exact fun e he => absurd he List.not_mem_nil

/-- PAPI_sample_stop, or a first part of it, without interruption. -/
theorem stop_run (pl : Platform) (steps rest : List StopStep) (w : World) :
    Run (Step pl) ⟨w, none, steps ++ rest, true⟩ (steps.map .main)
      ⟨steps.foldl perform w, none, rest, true⟩ := by
  induction steps generalizing w with
  | nil => exact Run.nil _
  | cons s steps ih =>
    have hfirst : Run (Step pl) ⟨w, none, s :: steps ++ rest, true⟩ ([] ++ [.main s])
        ⟨perform w s, none, steps ++ rest, true⟩ := (Run.nil _).snoc (Step.main rfl rfl rfl)
    exact hfirst.append (ih (perform w s))

/-- A session in which no signal arrives. -/
theorem quiet_session {episodes : List (World × World)} {w w' : World} {a : Answers} {args : Args}
    {block : ℕ} (h : History pl episodes w) (hdistinct : Distinct a pl.cpus)
    (hinit : papiSampleInit pl a args w = .fds block w') :
    ∃ w'', History pl (episodes ++ [(w', w'')]) w'' := by
  have hstop := stop_run pl (stopSteps pl.cpus (papiSampleStart pl block w').numMaps) []
    (papiSampleStart pl block w')
  rw [List.append_nil] at hstop
  exact ⟨_, History.session h hdistinct hinit hstop rfl rfl rfl⟩

/-- A session on two processors that follows any other sessions. -/
theorem twoCpus_session {episodes : List (World × World)} {w : World}
    (h : History twoCpus episodes w) :
    ∃ e, History twoCpus (episodes ++ [e]) e.2 := by
  have hinit : ∃ block w', papiSampleInit twoCpus (kernelAnswers false) branchArgs w =
      .fds block w' := ⟨_, _, rfl⟩
  obtain ⟨block, w', hinit⟩ := hinit
  obtain ⟨w'', hsession⟩ := quiet_session h kernelAnswers_distinct hinit
  exact ⟨(w', w''), hsession⟩

/-- In the second session on two processors the registry counts four rings. -/
theorem secondSession_miscounts :
    ∃ e₁ e₂, History twoCpus [e₁, e₂] e₂.2 ∧ e₂.1.numMaps = 4 ∧
      ¬ RegistryInvariant 2 [e₁, e₂] := by
  obtain ⟨e₁, hfirst⟩ := twoCpus_session History.start
  obtain ⟨e₂, hsecond⟩ := twoCpus_session hfirst
  have hcount : e₂.1.numMaps = 4 := (history_episodes hsecond 1 e₂ rfl).1
  refine ⟨e₁, e₂, hsecond, hcount, fun hright => ?_⟩
  have htwo := (hright e₂ (by simp)).1.numMaps
  omega

/-- The sequence of two sessions meets the assumption. -/
theorem registryInvariant_twoSessions :
    ∃ e₁ e₂, History twoCpus [e₁, e₂] e₂.2 ∧ (RegistryInvariant 2 [e₁, e₂] ↔ [e₁, e₂] = []) := by
  obtain ⟨e₁, hfirst⟩ := twoCpus_session History.start
  obtain ⟨e₂, hsecond⟩ := twoCpus_session hfirst
  exact ⟨e₁, e₂, hsecond, registryInvariant_iff twoCpus [e₁, e₂] e₂.2 hsecond⟩

end PapiSample.Sessions
