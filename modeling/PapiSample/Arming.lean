import PapiSample.InitChecks

/-!
The calls nobody looks at. For each descriptor PAPI_sample_init asks with three
calls of fcntl for a SIGIO to this process, and PAPI_sample_start enables the
event. If fcntl fails the loop goes on; if the event cannot be enabled a line is
printed, and that is all.
-/
namespace PapiSample.Arming

open PerfEvent Process EventSetup SampleInit OpenedEvents InitChecks

/-- What fcntl sets for a descriptor. Signal 0 is the default one, which does not
say which descriptor it is about; owner 0 is nobody. -/
structure Signalling where
  nonblock : Bool
  async : Bool
  signal : ℤ
  owner : ℤ

def Signalling.unset : Signalling where
  nonblock := false
  async := false
  signal := 0
  owner := 0

def SIGIO : ℤ := 29
def PAPI_OK : ℤ := 0

/-- What the outside answers to all calls of PAPI_sample_init and PAPI_sample_start. -/
structure Calls where
  answers : Answers
  pid : ℤ
  pid_pos : 0 < pid
  setFl : ℕ → Bool
  setSig : ℕ → Bool
  setOwn : ℕ → Bool
  enable : ℕ → Bool

def fcntl (succeeds : Bool) (fd : ℤ) (set : Signalling → Signalling)
    (signals : ℤ → Signalling) : ℤ → Signalling :=
  if succeeds then Function.update signals fd (set (signals fd)) else signals

structure Opening where
  progress : Progress
  signals : ℤ → Signalling

def openAndSignal (pl : Platform) (c : Calls) (args : Args) (i : ℕ) (s : Opening) :
    Except ℤ Opening :=
  (openCpu pl c.answers args i s.progress).map fun p =>
    let fd := p.world.fds p.world.block i
    let signals := Function.update s.signals fd Signalling.unset
    let signals :=
      fcntl (c.setFl i) fd (fun g => { g with nonblock := true, async := true }) signals
    let signals := fcntl (c.setSig i) fd (fun g => { g with signal := SIGIO }) signals
    let signals := fcntl (c.setOwn i) fd (fun g => { g with owner := c.pid }) signals
    { progress := p, signals }

def openAndSignalAll (pl : Platform) (c : Calls) (args : Args) :
    ℕ → ℕ → Opening → Except ℤ Opening
  | _, 0, s => .ok s
  | i, n + 1, s => (openAndSignal pl c args i s).bind (openAndSignalAll pl c args (i + 1) n)

def papiSampleInitCalls (pl : Platform) (c : Calls) (args : Args) (w : World)
    (signals : ℤ → Signalling) : Outcome × (ℤ → Signalling) :=
  if !c.answers.mallocData then (.minusOne, signals)
  else if !(c.answers.openLog && c.answers.reopenLog) then (.exited 1, signals)
  else if pl.cpus = 0 then (.minusOne, signals)
  else if !c.answers.allocArrays then (.exited 1, signals)
  else if !c.answers.sigaction then (.exited 1, signals)
  else
    match openAndSignalAll pl c args 0 pl.cpus
      ⟨⟨allocate w args, args.eventCodes, args.sampleType⟩, signals⟩ with
    | .error code => (.exited code, signals)
    | .ok s => (.fds s.progress.world.block s.progress.world, s.signals)

/-- What PAPI_sample_start leaves: the processors it prints a line about, and
what it returns. -/
structure Start where
  world : World
  printed : List ℕ
  returned : ℤ

/-- The body of the loop of PAPI_sample_start, behind the reset of the count. -/
def enableCpu (c : Calls) (block : ℕ) (s : World × List ℕ) (i : ℕ) : World × List ℕ :=
  if c.enable i then (s.1.setEnabled (s.1.fds block i) true, s.2) else (s.1, s.2 ++ [i])

def papiSampleStartCalls (pl : Platform) (c : Calls) (block : ℕ) (w : World) : Start :=
  let s := (List.range pl.cpus).foldl (enableCpu c block) (w, [])
  { world := s.1, printed := s.2, returned := PAPI_OK }

variable {pl : Platform} {c : Calls} {args : Args}

theorem openAndSignalAll_progress (pl : Platform) (c : Calls) (args : Args) (i n : ℕ)
    (s : Opening) :
    (openAndSignalAll pl c args i n s).map Opening.progress =
      openCpus pl c.answers args i n s.progress := by
  induction n generalizing i s with
  | zero => rfl
  | succ n ih =>
    unfold openAndSignalAll openAndSignal openCpus
    cases openCpu pl c.answers args i s.progress with
    | error code => rfl
    | ok p => exact ih (i + 1) _

/-- fcntl changes nothing else. -/
theorem papiSampleInitCalls_outcome (pl : Platform) (c : Calls) (args : Args) (w : World)
    (signals : ℤ → Signalling) :
    (papiSampleInitCalls pl c args w signals).1 = papiSampleInit pl c.answers args w := by
  have hloop := openAndSignalAll_progress pl c args 0 pl.cpus
    ⟨⟨allocate w args, args.eventCodes, args.sampleType⟩, signals⟩
  unfold papiSampleInitCalls papiSampleInit
  split_ifs with hdata hlog hcpus harrays hsignal
  · rfl
  · rfl
  · rfl
  · rfl
  · rfl
  · rw [← hloop]
    cases openAndSignalAll pl c args 0 pl.cpus
      ⟨⟨allocate w args, args.eventCodes, args.sampleType⟩, signals⟩ with
    | error code => rfl
    | ok s => rfl

/-- When all events can be enabled nothing is printed. -/
theorem papiSampleStartCalls_enabled (block : ℕ) (w : World)
    (hall : ∀ i < pl.cpus, c.enable i = true) :
    papiSampleStartCalls pl c block w = ⟨papiSampleStart pl block w, [], PAPI_OK⟩ := by
  have hfold : ∀ (l : List ℕ) (v : World), (∀ i ∈ l, c.enable i = true) →
      l.foldl (enableCpu c block) (v, []) =
        (l.foldl (fun v i => v.setEnabled (v.fds block i) true) v, []) := by
    intro l
    induction l with
    | nil => exact fun _ _ => rfl
    | cons i l ih =>
      intro v hl
      rw [List.foldl_cons, List.foldl_cons, enableCpu, if_pos (hl i List.mem_cons_self)]
      exact ih _ fun j hj => hl j (List.mem_cons_of_mem _ hj)
  unfold papiSampleStartCalls papiSampleStart
  rw [hfold _ w fun i hi => hall i (List.mem_range.mp hi)]

def settings (c : Calls) (i : ℕ) : Signalling where
  nonblock := c.setFl i
  async := c.setFl i
  signal := if c.setSig i then SIGIO else 0
  owner := if c.setOwn i then c.pid else 0

theorem openAndSignal_ok {i : ℕ} {s t : Opening} (h : openAndSignal pl c args i s = .ok t) :
    openCpu pl c.answers args i s.progress = .ok t.progress ∧
      t.signals = Function.update s.signals (descriptor c.answers i) (settings c i) := by
  unfold openAndSignal at h
  cases hp : openCpu pl c.answers args i s.progress with
  | error code =>
    rw [hp] at h
    contradiction
  | ok p =>
    rw [hp] at h
    cases h
    obtain ⟨regs, attr, hworld, _⟩ := openCpu_ok hp
    have hfd : p.world.fds p.world.block i = descriptor c.answers i := by
      rw [hworld]
      simp only [register, Function.update_self]
    refine ⟨rfl, ?_⟩
    simp only [hfd, fcntl, settings]
    cases c.setFl i <;> cases c.setSig i <;> cases c.setOwn i <;>
      simp [Signalling.unset]

structure Signals (c : Calls) (k : ℕ) (s : Opening) : Prop where
  settings : ∀ j < k, s.signals (descriptor c.answers j) = settings c j
  disabled : ∀ j < k, ∃ f, s.progress.world.files (descriptor c.answers j) = some f ∧
    f.enabled = false

theorem Signals.start (s : Opening) : Signals c 0 s where
  settings := fun _ hj => absurd hj (Nat.not_lt_zero _)
  disabled := fun _ hj => absurd hj (Nat.not_lt_zero _)

/-- The event of a processor starts disabled. -/
theorem openCpu_disabled {a : Answers} {i : ℕ} {p q : Progress}
    (h : openCpu pl a args i p = .ok q) : ∃ f, f.enabled = false ∧
      q.world.files = Function.update p.world.files (descriptor a i) (some f) := by
  obtain ⟨setup, o, hsetup, hopen, _, rfl⟩ := openCpu_eq_ok.mp h
  have hdisabled := (newSetupPerf_ok hsetup).2.2
  have hattr : o.attr.disabled = true := by
    unfold openEvent at hopen
    split_ifs at hopen
    · cases hopen
      exact hdisabled
    · cases hopen
      exact hdisabled
  refine ⟨⟨o.attr, !o.attr.disabled⟩, by rw [hattr]; rfl, ?_⟩
  rw [← (openEvent_ok hopen).2.1]
  rfl

/-- One more processor. -/
theorem Signals.step {k : ℕ} {s t : Opening} (hs : Signals c k s)
    (hdistinct : ∀ j < k, descriptor c.answers j ≠ descriptor c.answers k)
    (h : openAndSignal pl c args k s = .ok t) : Signals c (k + 1) t := by
  obtain ⟨hopen, hsignals⟩ := openAndSignal_ok h
  obtain ⟨f, hdisabled, hfiles⟩ := openCpu_disabled hopen
  constructor
  · intro j hj
    rw [hsignals]
    rcases Nat.lt_succ_iff_lt_or_eq.mp hj with hlt | rfl
    · rw [Function.update_of_ne (hdistinct j hlt)]
      exact hs.settings j hlt
    · exact Function.update_self ..
  · intro j hj
    rw [hfiles]
    rcases Nat.lt_succ_iff_lt_or_eq.mp hj with hlt | rfl
    · rw [Function.update_of_ne (hdistinct j hlt)]
      exact hs.disabled j hlt
    · exact ⟨f, Function.update_self .., hdisabled⟩

theorem openAndSignalAll_signals {k n : ℕ} {s t : Opening} (hs : Signals c k s)
    (hdistinct : Distinct c.answers (k + n)) (h : openAndSignalAll pl c args k n s = .ok t) :
    Signals c (k + n) t := by
  induction n generalizing k s with
  | zero =>
    cases h
    exact hs
  | succ n ih =>
    obtain ⟨r, hr, hrest⟩ := bind_ok h
    have hstep := hs.step (hdistinct.ne (by omega)) hr
    have hsum : k + (n + 1) = k + 1 + n := by omega
    rw [hsum] at hdistinct ⊢
    exact ih hstep hdistinct hrest

theorem papiSampleInitCalls_signals {w w' : World} {signals signals' : ℤ → Signalling} {block : ℕ}
    (hdistinct : Distinct c.answers pl.cpus)
    (h : papiSampleInitCalls pl c args w signals = (.fds block w', signals')) :
    ∃ s, s.progress.world = w' ∧ s.signals = signals' ∧ Signals c pl.cpus s := by
  unfold papiSampleInitCalls at h
  split_ifs at h with hdata hlog hcpus harrays hsignal
  · simp at h
  · simp at h
  · simp at h
  · simp at h
  · simp at h
  · cases hall : openAndSignalAll pl c args 0 pl.cpus
      ⟨⟨allocate w args, args.eventCodes, args.sampleType⟩, signals⟩ with
    | error code =>
      rw [hall] at h
      simp at h
    | ok s =>
      rw [hall] at h
      cases h
      have hset := openAndSignalAll_signals (Signals.start _) (by simpa using hdistinct) hall
      rw [Nat.zero_add] at hset
      exact ⟨s, rfl, rfl, hset⟩

/-- Enabling the first `k` events. -/
theorem enableCpus_files (c : Calls) (block : ℕ) (w : World) {n : ℕ}
    (hdistinct : ∀ i j, i < n → j < n → w.fds block i = w.fds block j → i = j) (k : ℕ)
    (hk : k ≤ n) :
    let v := ((List.range k).foldl (enableCpu c block) (w, [])).1
    v.registry = w.registry ∧ v.rings = w.rings ∧
      ∀ j < n, v.files (w.fds block j) =
        if j < k ∧ c.enable j = true then
          (w.files (w.fds block j)).map fun f => { f with enabled := true }
        else w.files (w.fds block j) := by
  induction k with
  | zero => simp
  | succ k ih =>
    obtain ⟨hregistry, hrings, hfiles⟩ := ih (by omega)
    rw [List.range_succ, List.foldl_append]
    generalize (List.range k).foldl (enableCpu c block) (w, []) = s at hregistry hrings hfiles ⊢
    simp only [List.foldl_cons, List.foldl_nil, enableCpu]
    have hfds : s.1.fds = w.fds := congrArg Process.Registry.fds hregistry
    by_cases hok : c.enable k = true
    · rw [if_pos hok]
      refine ⟨hregistry, hrings, fun j hj => ?_⟩
      simp only [World.setEnabled, hfds]
      by_cases heq : j = k
      · subst heq
        rw [Function.update_self, hfiles j hj, if_neg (by omega), if_pos ⟨by omega, hok⟩]
      · have hne : w.fds block j ≠ w.fds block k := fun h => heq (hdistinct j k hj (by omega) h)
        rw [Function.update_of_ne hne, hfiles j hj]
        have hlt : j < k + 1 ↔ j < k := by omega
        simp only [hlt]
    · rw [if_neg hok]
      refine ⟨hregistry, hrings, fun j hj => ?_⟩
      rw [hfiles j hj]
      by_cases heq : j = k
      · subst heq
        simp [hok]
      · have hlt : j < k + 1 ↔ j < k := by omega
        simp only [hlt]

end PapiSample.Arming
