import PapiSample.LatencyAttributes
import PapiSample.OpenedEvents

/-!
The calls PAPI_sample_init looks at. It returns its array of descriptors exactly
when none of them fails: the allocations, the log, the handler of the signal,
and for each processor the attributes of the event, one of the two attempts to
open it, and its mapping.
-/
namespace PapiSample.InitChecks

open PerfEvent ParseRecord Process EventSetup LatencyNames LatencyAttributes SampleInit
  OpenedEvents

section Setup
variable {lib : Library} {arch : Arch} {h : Handles} {sampleRegs : BitVec 64}
  {name : List Char} {sampleType samplePeriod : BitVec 32} {setup : Setup}

def Known (lib : Library) (arch : Arch) (sampleType : BitVec 32) (name : List Char) : Prop :=
  (lib.encoding name (encodedAttr lib arch sampleType)).isSome = true ∨
    strcasestr name "LATENCY".toList = true ∧ capitalName name ∈ latencyNames

def nameAfter (lib : Library) (arch : Arch) (sampleType : BitVec 32) (name : List Char) :
    List Char :=
  if (lib.encoding name (encodedAttr lib arch sampleType)).isSome then name else capitalName name

theorem capitalLatencyEvent_disabled {attr : Attr}
    (hevent : capitalLatencyEvent lib h samplePeriod name = .ok attr) : attr.disabled = true := by
  unfold capitalLatencyEvent at hevent
  split at hevent
  · contradiction
  · cases hevent
    rfl

/-- The name and the attributes of an event that is set up. -/
theorem newSetupPerf_ok
    (hok : newSetupPerf lib arch h sampleRegs name sampleType samplePeriod true = .ok setup) :
    Known lib arch sampleType name ∧ setup.eventCode = nameAfter lib arch sampleType name ∧
      setup.attr.disabled = true := by
  unfold Known nameAfter
  cases hattr : lib.encoding name (encodedAttr lib arch sampleType) with
  | some attr =>
    rw [newSetupPerf_encoded hattr] at hok
    cases hok
    exact ⟨.inl rfl, rfl, rfl⟩
  | none =>
    rw [newSetupPerf_rejected hattr] at hok
    split at hok
    · rename_i hlatency
      obtain ⟨attr, hevent, rfl⟩ := map_ok hok
      have hfound := (accepted_iff lib h samplePeriod name).mp ⟨attr, hevent⟩
      exact ⟨.inr ⟨hlatency, hfound⟩, rfl, capitalLatencyEvent_disabled hevent⟩
    · contradiction

theorem newSetupPerf_ok_iff :
    (∃ setup, newSetupPerf lib arch h sampleRegs name sampleType samplePeriod true = .ok setup) ↔
      Known lib arch sampleType name := by
  constructor
  · rintro ⟨setup, hok⟩
    exact (newSetupPerf_ok hok).1
  · intro hknown
    cases hattr : lib.encoding name (encodedAttr lib arch sampleType) with
    | some attr => exact ⟨_, newSetupPerf_encoded hattr⟩
    | none =>
      rcases hknown with hsome | ⟨hlatency, hfound⟩
      · rw [hattr] at hsome
        contradiction
      · obtain ⟨attr, hevent⟩ := (accepted_iff lib h samplePeriod name).mpr hfound
        rw [newSetupPerf_rejected hattr, if_pos hlatency, hevent]
        exact ⟨_, rfl⟩

end Setup

variable {pl : Platform} {a : Answers} {args : Args}

def nameAt (pl : Platform) (a : Answers) (args : Args) : ℕ → List Char
  | 0 => args.eventCodes
  | i + 1 => nameAfter ⟨a.attrSize, a.encoding i⟩ pl.arch args.sampleType (nameAt pl a args i)

/-- No call for this processor fails, the first attempt to open its event apart. -/
structure CpuPasses (pl : Platform) (a : Answers) (args : Args) (i : ℕ) : Prop where
  known : Known ⟨a.attrSize, a.encoding i⟩ pl.arch args.sampleType (nameAt pl a args i)
  opens : 0 ≤ descriptor a i
  maps : a.mmap i = true

/-- No call whose result PAPI_sample_init looks at fails. -/
structure PassesChecks (pl : Platform) (a : Answers) (args : Args) : Prop where
  mallocData : a.mallocData = true
  openLog : a.openLog = true
  reopenLog : a.reopenLog = true
  cpus : 0 < pl.cpus
  allocArrays : a.allocArrays = true
  sigaction : a.sigaction = true
  each : ∀ i < pl.cpus, CpuPasses pl a args i

/-- The variables of the loop when it comes to a processor. Taking the branches
out of the sample type makes no difference to libpfm. -/
structure Reaches (pl : Platform) (a : Answers) (args : Args) (i : ℕ) (p : Progress) : Prop where
  name : p.eventCodes = nameAt pl a args i
  regs : SampleField.regsIntr.isSet p.sampleType = SampleField.regsIntr.isSet args.sampleType

theorem Reaches.start (pl : Platform) (a : Answers) (args : Args) (w : World) :
    Reaches pl a args 0 ⟨w, args.eventCodes, args.sampleType⟩ := ⟨rfl, rfl⟩

theorem regsIntr_withoutBranches (sampleType : BitVec 32) :
    SampleField.regsIntr.isSet (withoutBranches sampleType) =
      SampleField.regsIntr.isSet sampleType := by
  have hmask : ~~~ SampleField.branchStack.mask &&& SampleField.regsIntr.mask =
      SampleField.regsIntr.mask := by decide
  simp only [SampleField.isSet, withoutBranches]
  rw [BitVec.and_assoc, hmask]

theorem encodedAttr_congr {lib : Library} {arch : Arch} {sampleType sampleType' : BitVec 32}
    (hregs : SampleField.regsIntr.isSet sampleType = SampleField.regsIntr.isSet sampleType') :
    encodedAttr lib arch sampleType = encodedAttr lib arch sampleType' := by
  unfold encodedAttr
  rw [hregs]

theorem known_congr {lib : Library} {arch : Arch} {sampleType sampleType' : BitVec 32}
    (hregs : SampleField.regsIntr.isSet sampleType = SampleField.regsIntr.isSet sampleType')
    (name : List Char) : Known lib arch sampleType name ↔ Known lib arch sampleType' name := by
  unfold Known
  rw [encodedAttr_congr hregs]

theorem Reaches.next {i : ℕ} {p q : Progress} (hp : Reaches pl a args i p)
    (h : openCpu pl a args i p = .ok q) : Reaches pl a args (i + 1) q := by
  obtain ⟨setup, o, hsetup, hopen, _, rfl⟩ := openCpu_eq_ok.mp h
  obtain ⟨_, hname, _⟩ := newSetupPerf_ok hsetup
  constructor
  · show setup.eventCode = _
    rw [hname, nameAt, nameAfter, nameAfter, encodedAttr_congr hp.regs, hp.name]
  · show SampleField.regsIntr.isSet o.sampleType = _
    obtain ⟨_, _, _, ⟨_, hless, _⟩ | ⟨_, hsame, _⟩⟩ := openEvent_ok hopen
    · rw [hless, regsIntr_withoutBranches, hp.regs]
    · rw [hsame, hp.regs]

theorem openEvent_ok_iff {i : ℕ} {attr : Attr} {sampleType : BitVec 32} :
    (∃ o, openEvent a i attr sampleType = .ok o) ↔ 0 ≤ descriptor a i := by
  constructor
  · rintro ⟨o, h⟩
    exact (openEvent_ok h).1
  · intro hfd
    unfold descriptor at hfd
    unfold openEvent
    by_cases hfirst : a.perfEventOpen i 0 < 0
    · rw [if_pos hfirst] at hfd ⊢
      rw [if_neg (by omega)]
      exact ⟨_, rfl⟩
    · rw [if_neg hfirst]
      exact ⟨_, rfl⟩

theorem openCpu_ok_iff {i : ℕ} {p : Progress} (hp : Reaches pl a args i p) :
    (∃ q, openCpu pl a args i p = .ok q) ↔ CpuPasses pl a args i := by
  constructor
  · rintro ⟨q, h⟩
    obtain ⟨setup, o, hsetup, hopen, hmap, _⟩ := openCpu_eq_ok.mp h
    have hknown := (newSetupPerf_ok hsetup).1
    rw [known_congr hp.regs, hp.name] at hknown
    exact ⟨hknown, openEvent_ok_iff.mp ⟨o, hopen⟩, hmap⟩
  · rintro ⟨hknown, hfd, hmap⟩
    rw [← known_congr hp.regs, ← hp.name] at hknown
    obtain ⟨setup, hsetup⟩ := newSetupPerf_ok_iff.mpr hknown
    obtain ⟨o, hopen⟩ := openEvent_ok_iff.mpr hfd
    exact ⟨_, openCpu_eq_ok.mpr ⟨setup, o, hsetup, hopen, hmap, rfl⟩⟩

theorem openCpus_ok_iff {i n : ℕ} {p : Progress} (hp : Reaches pl a args i p) :
    (∃ q, openCpus pl a args i n p = .ok q) ↔ ∀ j, i ≤ j → j < i + n → CpuPasses pl a args j := by
  induction n generalizing i p with
  | zero => exact iff_of_true ⟨p, rfl⟩ (by omega)
  | succ n ih =>
    constructor
    · rintro ⟨q, h⟩
      obtain ⟨r, hr, hrest⟩ := bind_ok h
      intro j hj hn
      rcases Nat.eq_or_lt_of_le hj with rfl | hlt
      · exact (openCpu_ok_iff hp).mp ⟨r, hr⟩
      · exact (ih (hp.next hr)).mp ⟨q, hrest⟩ j hlt (by omega)
    · intro hall
      obtain ⟨r, hr⟩ := (openCpu_ok_iff hp).mpr (hall i (by omega) (by omega))
      obtain ⟨q, hq⟩ := (ih (hp.next hr)).mpr fun j hj hn => hall j (by omega) (by omega)
      refine ⟨q, ?_⟩
      rw [openCpus, hr]
      exact hq

/-- PAPI_sample_init returns its array if and only if no call it looks at fails. -/
theorem papiSampleInit_returns (pl : Platform) (a : Answers) (args : Args) (w : World) :
    (∃ block w', papiSampleInit pl a args w = .fds block w') ↔ PassesChecks pl a args := by
  have hloop : (∃ q, openCpus pl a args 0 pl.cpus ⟨allocate w args, args.eventCodes,
      args.sampleType⟩ = .ok q) ↔ _ := openCpus_ok_iff (Reaches.start pl a args (allocate w args))
  constructor
  · rintro ⟨block, w', h⟩
    unfold papiSampleInit at h
    split_ifs at h with hdata hlog hcpus harrays hsignal
    cases hall : openCpus pl a args 0 pl.cpus
        ⟨allocate w args, args.eventCodes, args.sampleType⟩ with
    | error code =>
      rw [hall] at h
      contradiction
    | ok p =>
      have hpasses := hloop.mp ⟨p, hall⟩
      simp only [Bool.not_eq_true', Bool.and_eq_true, Bool.not_eq_false] at hdata hlog
      simp only [Bool.not_eq_true', Bool.not_eq_false] at harrays hsignal
      exact ⟨hdata, hlog.1, hlog.2, by omega, harrays, hsignal,
        fun i hi => hpasses i (by omega) (by omega)⟩
  · intro hpasses
    obtain ⟨p, hp⟩ := hloop.mpr fun j _ hj => hpasses.each j (by omega)
    have hcpus : pl.cpus ≠ 0 := Nat.ne_of_gt hpasses.cpus
    refine ⟨p.world.block, p.world, ?_⟩
    unfold papiSampleInit
    rw [hpasses.mallocData, hpasses.openLog, hpasses.reopenLog, hpasses.allocArrays,
      hpasses.sigaction, hp]
    exact if_neg hcpus

def HandedOutOnce (a : Answers) (cpus : ℕ) : Prop :=
  ∀ i j, i < cpus → j < cpus → 0 ≤ descriptor a i → descriptor a i = descriptor a j → i = j

theorem handedOutOnce {cpus : ℕ} (h : Distinct a cpus) : HandedOutOnce a cpus :=
  fun i j hi hj _ heq => h i j hi hj heq

/-- Those of a session are then distinct. -/
theorem HandedOutOnce.distinct {w w' : World} {block : ℕ} (h : HandedOutOnce a pl.cpus)
    (hinit : papiSampleInit pl a args w = .fds block w') : Distinct a pl.cpus := by
  have hpasses := (papiSampleInit_returns pl a args w).mp ⟨block, w', hinit⟩
  intro i j hi hj
  exact h i j hi hj (hpasses.each i hi).opens

end PapiSample.InitChecks
