import PapiSample.Arming

/-!
Success as it is reported: PAPI_sample_init returns its array, and PAPI_sample_start
PAPI_OK. Sampling is then armed for a processor if the calls nobody looks at have
succeeded for it as well.
-/
namespace PapiSample.ArmedSampling

open PerfEvent Process EventSetup SampleInit OpenedEvents InitChecks Arming

variable {pl : Platform} {c : Calls} {args : Args}

structure Armed (pid : ℤ) (w : World) (signals : ℤ → Signalling) (block i : ℕ) : Prop where
  enabled : ∃ f, w.files (w.fds block i) = some f ∧ f.enabled = true
  mapped : ∃ e r, w.mmaps i = some e ∧ e.fd = ⟨block, i⟩ ∧ w.rings e.sampleMmap = some r ∧
    r.fd = w.fds block i
  async : (signals (w.fds block i)).async = true
  signal : (signals (w.fds block i)).signal = SIGIO
  owner : (signals (w.fds block i)).owner = pid

def Succeeds (pl : Platform) (c : Calls) (args : Args) (w : World) (signals : ℤ → Signalling)
    (block : ℕ) (w' : World) (signals' : ℤ → Signalling) : Prop :=
  papiSampleInitCalls pl c args w signals = (.fds block w', signals') ∧
    (papiSampleStartCalls pl c block w').returned = PAPI_OK

def Told (pl : Platform) (c : Calls) (args : Args) (w : World) (signals : ℤ → Signalling) : Prop :=
  match (papiSampleInitCalls pl c args w signals).1 with
  | .exited _ => True
  | .minusOne => (-1 : ℤ) ≠ PAPI_OK
  | .fds block w' => (papiSampleStartCalls pl c block w').returned ≠ PAPI_OK

/-- A success that is reported is one. -/
structure SuccessMeansArmed (pl : Platform) (c : Calls) (args : Args) (w : World)
    (signals : ℤ → Signalling) : Prop where
  armed : ∀ block w' signals', Succeeds pl c args w signals block w' signals' →
    ∀ i < pl.cpus, Armed c.pid (papiSampleStartCalls pl c block w').world signals' block i
  told : (¬ ∃ block w' signals', Succeeds pl c args w signals block w' signals') →
    Told pl c args w signals

theorem told_otherwise (w : World) (signals : ℤ → Signalling)
    (hno : ¬ ∃ block w' signals', Succeeds pl c args w signals block w' signals') :
    Told pl c args w signals := by
  unfold Told
  cases hinit : papiSampleInitCalls pl c args w signals with
  | mk outcome signals' =>
    cases outcome with
    | exited code => trivial
    | minusOne =>
      show (-1 : ℤ) ≠ 0
      omega
    | fds block w' => exact fun hok => hno ⟨block, w', signals', hinit, hok⟩

/-- The four calls for a processor whose results are dropped have all succeeded. -/
def DroppedSucceed (c : Calls) (i : ℕ) : Prop :=
  c.setFl i = true ∧ c.setSig i = true ∧ c.setOwn i = true ∧ c.enable i = true

/-- When both functions are through, a processor is armed if these calls succeeded. -/
theorem armed_cpu {w w' : World} {signals signals' : ℤ → Signalling} {block i : ℕ}
    (hdistinct : Distinct c.answers pl.cpus)
    (hinit : papiSampleInitCalls pl c args w signals = (.fds block w', signals'))
    (hi : i < pl.cpus) :
    Armed c.pid (papiSampleStartCalls pl c block w').world signals' block i ↔
      DroppedSucceed c i := by
  have houtcome := papiSampleInitCalls_outcome pl c args w signals
  rw [hinit] at houtcome
  obtain ⟨_, rfl, p, hp, hopens⟩ := papiSampleInit_opens hdistinct houtcome.symm
  obtain ⟨s, hs, rfl, hsignals⟩ := papiSampleInitCalls_signals hdistinct hinit
  have hblock : w'.block = (allocate w args).block := by
    rw [← hp]
    exact hopens.kept.block
  have hfds : ∀ j < pl.cpus, w'.fds w'.block j = descriptor c.answers j := by
    intro j hj
    rw [hblock, ← hp]
    exact hopens.fds j hj
  obtain ⟨hregistry, hrings, hfiles⟩ := enableCpus_files c w'.block w'
    (fun i j hi hj heq => hdistinct i j hi hj (by rwa [hfds i hi, hfds j hj] at heq)) pl.cpus le_rfl
  change (papiSampleStartCalls pl c w'.block w').world.registry = _ at hregistry
  change (papiSampleStartCalls pl c w'.block w').world.rings = _ at hrings
  have hfile := hfiles i hi
  change (papiSampleStartCalls pl c w'.block w').world.files _ = _ at hfile
  generalize (papiSampleStartCalls pl c w'.block w').world = v at hregistry hrings hfile ⊢
  have hvfds : v.fds = w'.fds := congrArg Process.Registry.fds hregistry
  have hvmmaps : v.mmaps = w'.mmaps := congrArg Process.Registry.mmaps hregistry
  obtain ⟨f, hf, hdisabled⟩ := hsignals.disabled i hi
  rw [hs] at hf
  have hset := hsignals.settings i hi
  rw [hfds i hi, hf] at hfile
  constructor
  · intro harmed
    have hasync := harmed.async
    have hsignal := harmed.signal
    have howner := harmed.owner
    obtain ⟨g, hg, henabled⟩ := harmed.enabled
    rw [hvfds, hfds i hi, hset] at hasync hsignal howner
    rw [hvfds, hfds i hi, hfile] at hg
    refine ⟨hasync, ?_, ?_, ?_⟩
    · by_contra hfail
      simp [settings, hfail, SIGIO] at hsignal
    · by_contra hfail
      have hpid := c.pid_pos
      simp [settings, hfail] at howner
      omega
    · by_contra hfail
      rw [if_neg (fun h => hfail h.2)] at hg
      cases hg
      rw [hdisabled] at henabled
      contradiction
  · rintro ⟨hfl, hsig, hown, henable⟩
    rw [if_pos ⟨hi, henable⟩] at hfile
    constructor
    · rw [hvfds, hfds i hi]
      exact ⟨_, hfile, rfl⟩
    · rw [hvmmaps, hrings, hvfds, hfds i hi, ← hp]
      exact ⟨_, _, hopens.mmaps i hi, by rw [entry, hopens.kept.block], hopens.rings i hi, rfl⟩
    · rw [hvfds, hfds i hi, hset]
      exact hfl
    · rw [hvfds, hfds i hi, hset]
      exact if_pos hsig
    · rw [hvfds, hfds i hi, hset]
      exact if_pos hown

/-- A success is one exactly if no call whose result is dropped fails, or one
whose result is not. -/
theorem successMeansArmed_iff (pl : Platform) (c : Calls) (args : Args) (w : World)
    (signals : ℤ → Signalling) (honce : HandedOutOnce c.answers pl.cpus) :
    SuccessMeansArmed pl c args w signals ↔
      ¬ PassesChecks pl c.answers args ∨ ∀ i < pl.cpus, DroppedSucceed c i := by
  have houtcome := papiSampleInitCalls_outcome pl c args w signals
  constructor
  · intro hmeans
    by_cases hpasses : PassesChecks pl c.answers args
    · right
      intro i hi
      obtain ⟨block, w', hinit⟩ := (papiSampleInit_returns pl c.answers args w).mpr hpasses
      have hcalls : papiSampleInitCalls pl c args w signals =
          (.fds block w', (papiSampleInitCalls pl c args w signals).2) :=
        Prod.ext (houtcome.trans hinit) rfl
      exact (armed_cpu (honce.distinct hinit) hcalls hi).mp
        (hmeans.armed block w' _ ⟨hcalls, rfl⟩ i hi)
    · exact Or.inl hpasses
  · intro hcond
    refine ⟨fun block w' signals' hsucceeds i hi => ?_, told_otherwise w signals⟩
    have hinit := houtcome.symm.trans (congrArg Prod.fst hsucceeds.1)
    have hpasses := (papiSampleInit_returns pl c.answers args w).mp ⟨block, w', hinit⟩
    rcases hcond with hfails | hall
    · exact absurd hpasses hfails
    · exact (armed_cpu (honce.distinct hinit) hsucceeds.1 hi).mpr (hall i hi)

def twoCalls (refuses : Bool) : Calls where
  answers := kernelAnswers false
  pid := 1000
  pid_pos := by omega
  setFl := fun _ => true
  setSig := fun _ => true
  setOwn := fun _ => true
  enable := fun i => !(refuses && i == 1)

theorem twoCalls_distinct (refuses : Bool) : Distinct (twoCalls refuses).answers twoCpus.cpus :=
  kernelAnswers_distinct

/-- Nothing fails. -/
theorem twoCalls_armed : SuccessMeansArmed twoCpus (twoCalls false) branchArgs World.initial
    fun _ => Signalling.unset :=
  (successMeansArmed_iff twoCpus (twoCalls false) branchArgs World.initial _
    (handedOutOnce (twoCalls_distinct false))).mpr (Or.inr fun _ _ => ⟨rfl, rfl, rfl, rfl⟩)

/-- The second event is not enabled, and PAPI_sample_start returns PAPI_OK. -/
theorem refusal_hidden : ¬ SuccessMeansArmed twoCpus (twoCalls true) branchArgs World.initial
    fun _ => Signalling.unset := by
  intro hmeans
  have hinit : papiSampleInitCalls twoCpus (twoCalls true) branchArgs World.initial
      (fun _ => Signalling.unset) = (.fds _ _, _) := rfl
  have harmed := hmeans.armed _ _ _ ⟨hinit, rfl⟩ 1 (by decide)
  have hdropped := (armed_cpu (twoCalls_distinct true) hinit (by decide)).mp harmed
  exact Bool.noConfusion hdropped.2.2.2

end PapiSample.ArmedSampling
