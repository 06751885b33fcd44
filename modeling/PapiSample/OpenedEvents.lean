import PapiSample.SampleInit

/-!
What a PAPI_sample_init that returns its array leaves behind: one open event, one
mapping and one entry of `mmaps` for each processor. Each event was opened with
attributes of the requested formats, except that after a first attempt that
failed the branch stack is left out of the sample type.
-/
namespace PapiSample.OpenedEvents

open PerfEvent Process EventSetup SampleInit

variable {pl : Platform} {a : Answers} {args : Args}

def descriptor (a : Answers) (i : ℕ) : ℤ :=
  if a.perfEventOpen i 0 < 0 then a.perfEventOpen i 1 else a.perfEventOpen i 0

/-- perf_event_open does not hand out a descriptor that is in use. -/
def Distinct (a : Answers) (cpus : ℕ) : Prop :=
  ∀ i j, i < cpus → j < cpus → descriptor a i = descriptor a j → i = j

def withoutBranches (sampleType : BitVec 32) : BitVec 32 :=
  sampleType &&& ~~~ SampleField.branchStack.mask

def openedType (a : Answers) (args : Args) (i : ℕ) : BitVec 32 :=
  if a.perfEventOpen i 0 < 0 then withoutBranches args.sampleType else args.sampleType

theorem withoutBranches_idem (sampleType : BitVec 32) :
    withoutBranches (withoutBranches sampleType) = withoutBranches sampleType := by
  unfold withoutBranches
  rw [BitVec.and_assoc, BitVec.and_self]

theorem openEvent_ok {i : ℕ} {attr : Attr} {sampleType : BitVec 32} {o : Opened}
    (h : openEvent a i attr sampleType = .ok o) :
    0 ≤ descriptor a i ∧ o.fd = descriptor a i ∧ o.attr.readFormat = attr.readFormat ∧
      (a.perfEventOpen i 0 < 0 ∧ o.sampleType = withoutBranches sampleType ∧
          o.attr.sampleType = (withoutBranches sampleType).signExtend 64 ∨
        ¬ a.perfEventOpen i 0 < 0 ∧ o.sampleType = sampleType ∧
          o.attr.sampleType = attr.sampleType) := by
  unfold openEvent at h
  unfold descriptor
  by_cases hfirst : a.perfEventOpen i 0 < 0
  · rw [if_pos hfirst] at h ⊢
    by_cases hsecond : a.perfEventOpen i 1 < 0
    · rw [if_pos hsecond] at h
      contradiction
    · rw [if_neg hsecond] at h
      cases h
      exact ⟨by omega, rfl, rfl, Or.inl ⟨hfirst, rfl, rfl⟩⟩
  · rw [if_neg hfirst] at h ⊢
    cases h
    exact ⟨by omega, rfl, rfl, Or.inr ⟨hfirst, rfl, rfl⟩⟩

structure Kept (w w' : World) : Prop where
  sampleTypeHandle : w'.sampleTypeHandle = w.sampleTypeHandle
  readFormatHandle : w'.readFormatHandle = w.readFormatHandle
  block : w'.block = w.block
  heads : w'.heads = w.heads
  data : w'.data = w.data
  fdsLive : w'.fdsLive = w.fdsLive
  headsLive : w'.headsLive = w.headsLive
  dataLive : w'.dataLive = w.dataLive
  logOpen : w'.logOpen = w.logOpen
  faults : w'.faults = w.faults

theorem Kept.refl (w : World) : Kept w w := ⟨rfl, rfl, rfl, rfl, rfl, rfl, rfl, rfl, rfl, rfl⟩

def entry (w : World) (firstRing i : ℕ) : MapInfo :=
  { sampleMmap := firstRing + i, fd := ⟨w.block, i⟩, prevHead := ⟨w.block, i⟩ }

def OpenedWith (sampleType readFormat : BitVec 32) (file : Option File) : Prop :=
  ∃ f, file = some f ∧ f.attr.sampleType = sampleType.signExtend 64 ∧
    f.attr.readFormat = readFormat.signExtend 64

structure Opens (a : Answers) (args : Args) (w : World) (k : ℕ) (p : Progress) : Prop where
  kept : Kept w p.world
  lowered : withoutBranches p.sampleType = withoutBranches args.sampleType
  numMaps : p.world.numMaps = w.numMaps + k
  nextRing : p.world.nextRing = w.nextRing + k
  mmaps : ∀ j < k, p.world.mmaps j = some (entry w w.nextRing j)
  others : ∀ j, k ≤ j → p.world.mmaps j = w.mmaps j
  rings : ∀ j < k, p.world.rings (w.nextRing + j) = some (newRing (descriptor a j))
  fds : ∀ j < k, p.world.fds w.block j = descriptor a j
  opened : ∀ j < k, 0 ≤ descriptor a j
  files : ∀ j < k,
    OpenedWith (openedType a args j) w.readFormatHandle (p.world.files (descriptor a j))
  stopped : ∀ j < k, p.world.stopped (descriptor a j) = false

theorem Opens.start (w : World) (eventCodes : List Char) :
    Opens a args w 0 ⟨w, eventCodes, args.sampleType⟩ where
  kept := Kept.refl w
  lowered := rfl
  numMaps := rfl
  nextRing := rfl
  mmaps := nofun
  others := fun _ _ => rfl
  rings := nofun
  fds := nofun
  opened := nofun
  files := nofun
  stopped := nofun

theorem Distinct.ne {cpus k : ℕ} (h : Distinct a cpus) (hk : k < cpus) :
    ∀ j < k, descriptor a j ≠ descriptor a k := by
  intro j hj heq
  have hsame := h j k (by omega) hk heq
  omega

theorem bind_ok {ε α β : Type} {x : Except ε α} {f : α → Except ε β} {b : β}
    (h : x.bind f = .ok b) : ∃ v, x = .ok v ∧ f v = .ok b := by
  cases x with
  | error e => exact absurd h nofun
  | ok v => exact ⟨v, rfl, h⟩

/-- How a round of the loop comes to its end. -/
theorem openCpu_eq_ok {i : ℕ} {p q : Progress} : openCpu pl a args i p = .ok q ↔
    ∃ setup o,
      newSetupPerf ⟨a.attrSize, a.encoding i⟩ pl.arch
        ⟨p.world.sampleTypeHandle, p.world.readFormatHandle⟩ p.world.sampleRegs p.eventCodes
        p.sampleType args.samplePeriod true = .ok setup ∧
      openEvent a i setup.attr p.sampleType = .ok o ∧ a.mmap i = true ∧
      q = {
        world := register { p.world with sampleRegs := setup.sampleRegs } i o.fd o.attr
        eventCodes := setup.eventCode
        sampleType := o.sampleType } := by
  constructor
  · intro h
    obtain ⟨setup, hsetup, h⟩ := bind_ok h
    obtain ⟨o, hopen, h⟩ := bind_ok h
    by_cases hmap : a.mmap i = true
    · rw [if_pos hmap] at h
      cases h
      exact ⟨setup, o, hsetup, hopen, hmap, rfl⟩
    · rw [if_neg hmap] at h
      contradiction
  · rintro ⟨setup, o, hsetup, hopen, hmap, rfl⟩
    unfold openCpu
    rw [hsetup]
    show (openEvent a i setup.attr p.sampleType).bind _ = _
    rw [hopen]
    exact if_pos hmap

/-- What one round of the loop does. -/
theorem openCpu_ok {i : ℕ} {p q : Progress} (h : openCpu pl a args i p = .ok q) :
    ∃ (regs : BitVec 64) (attr : Attr),
      q.world = register { p.world with sampleRegs := regs } i (descriptor a i) attr ∧
      0 ≤ descriptor a i ∧
      attr.readFormat = p.world.readFormatHandle.signExtend 64 ∧
      (a.perfEventOpen i 0 < 0 ∧ q.sampleType = withoutBranches p.sampleType ∧
          attr.sampleType = (withoutBranches p.sampleType).signExtend 64 ∨
        ¬ a.perfEventOpen i 0 < 0 ∧ q.sampleType = p.sampleType ∧
          attr.sampleType = p.world.sampleTypeHandle.signExtend 64) := by
  obtain ⟨setup, o, hsetup, hopen, _, rfl⟩ := openCpu_eq_ok.mp h
  obtain ⟨htype, hformat⟩ := newSetupPerf_agrees hsetup
  obtain ⟨hfd, hopened, hread, hcases⟩ := openEvent_ok hopen
  refine ⟨setup.sampleRegs, o.attr, by rw [hopened], hfd, hread.trans hformat, ?_⟩
  rcases hcases with hretry | ⟨hfirst, hsame, hattr⟩
  · exact Or.inl hretry
  · exact Or.inr ⟨hfirst, hsame, hattr.trans htype⟩

theorem update_upto {β : Type} {f g : ℕ → β} {k : ℕ} {v : β} (h : ∀ j < k, f j = g j)
    (hv : v = g k) : ∀ j < k + 1, Function.update f k v j = g j := by
  intro j hj
  rcases Nat.lt_succ_iff_lt_or_eq.mp hj with hlt | rfl
  · rw [Function.update_of_ne (by omega)]
    exact h j hlt
  · rw [Function.update_self, hv]

/-- The sample type of an attempt that succeeded is the one that was asked for,
or that without branches, whatever the attempts before it were. -/
theorem openedType_eq {i : ℕ} {attr : Attr} {sampleType next handle : BitVec 32}
    (hlowered : withoutBranches sampleType = withoutBranches args.sampleType)
    (hhandle : handle = args.sampleType)
    (hcases : a.perfEventOpen i 0 < 0 ∧ next = withoutBranches sampleType ∧
        attr.sampleType = (withoutBranches sampleType).signExtend 64 ∨
      ¬ a.perfEventOpen i 0 < 0 ∧ next = sampleType ∧
        attr.sampleType = handle.signExtend 64) :
    attr.sampleType = (openedType a args i).signExtend 64 ∧
      withoutBranches next = withoutBranches args.sampleType := by
  unfold openedType
  rcases hcases with ⟨hfail, hnext, hattr⟩ | ⟨hfirst, hnext, hattr⟩
  · rw [if_pos hfail, hattr, hnext, withoutBranches_idem, hlowered]
    exact ⟨rfl, rfl⟩
  · rw [if_neg hfirst, hattr, hnext, hhandle]
    exact ⟨rfl, hlowered⟩

/-- One more processor. -/
theorem Opens.step {w : World} {k : ℕ} {p q : Progress} (hp : Opens a args w k p)
    (hsame : w.sampleTypeHandle = args.sampleType)
    (hdistinct : ∀ j < k, descriptor a j ≠ descriptor a k)
    (h : openCpu pl a args k p = .ok q) : Opens a args w (k + 1) q := by
  obtain ⟨regs, attr, hworld, hfd, hread, hcases⟩ := openCpu_ok h
  obtain ⟨htype, hlowered⟩ :=
    openedType_eq hp.lowered (hp.kept.sampleTypeHandle.trans hsame) hcases
  have hkept := hp.kept
  have hring := hp.nextRing
  have hblock := hkept.block
  constructor
  · rw [hworld]
    exact ⟨hkept.1, hkept.2, hkept.3, hkept.4, hkept.5, hkept.6, hkept.7, hkept.8, hkept.9,
      hkept.10⟩
  · exact hlowered
  · rw [hworld]
    exact congrArg (· + 1) hp.numMaps
  · rw [hworld]
    exact congrArg (· + 1) hring
  · rw [hworld]
    apply update_upto hp.mmaps
    simp only [entry, hring, hblock]
  · intro j hj
    rw [hworld]
    simp only [register]
    rw [Function.update_of_ne (by omega)]
    exact hp.others j (by omega)
  · intro j hj
    rw [hworld]
    simp only [register, hring]
    rcases Nat.lt_succ_iff_lt_or_eq.mp hj with hlt | rfl
    · rw [Function.update_of_ne (by omega)]
      exact hp.rings j hlt
    · rw [Function.update_self]
  · rw [hworld]
    simp only [register, hblock, Function.update_self]
    exact update_upto hp.fds rfl
  · intro j hj
    rcases Nat.lt_succ_iff_lt_or_eq.mp hj with hlt | rfl
    · exact hp.opened j hlt
    · exact hfd
  · intro j hj
    rw [hworld]
    simp only [register]
    rcases Nat.lt_succ_iff_lt_or_eq.mp hj with hlt | rfl
    · rw [Function.update_of_ne (hdistinct j hlt)]
      exact hp.files j hlt
    · rw [Function.update_self]
      exact ⟨_, rfl, htype, hread.trans (by rw [hkept.readFormatHandle])⟩
  · intro j hj
    rw [hworld]
    simp only [register]
    rcases Nat.lt_succ_iff_lt_or_eq.mp hj with hlt | rfl
    · rw [Function.update_of_ne (hdistinct j hlt)]
      exact hp.stopped j hlt
    · rw [Function.update_self]

theorem openCpus_opens {w : World} {k n : ℕ} {p q : Progress} (hp : Opens a args w k p)
    (hsame : w.sampleTypeHandle = args.sampleType) (hdistinct : Distinct a (k + n))
    (h : openCpus pl a args k n p = .ok q) : Opens a args w (k + n) q := by
  induction n generalizing k p with
  | zero =>
    cases h
    exact hp
  | succ n ih =>
    obtain ⟨r, hr, hrest⟩ := bind_ok h
    have hstep := hp.step hsame (hdistinct.ne (by omega)) hr
    have hsum : k + (n + 1) = k + 1 + n := by omega
    rw [hsum] at hdistinct ⊢
    exact ih hstep hdistinct hrest

/-- A PAPI_sample_init that returns its array has set up every processor. -/
theorem papiSampleInit_opens {w w' : World} {block : ℕ} (hdistinct : Distinct a pl.cpus)
    (h : papiSampleInit pl a args w = .fds block w') :
    0 < pl.cpus ∧ block = w'.block ∧
      ∃ p, p.world = w' ∧ Opens a args (allocate w args) pl.cpus p := by
  unfold papiSampleInit at h
  split at h
  · contradiction
  · split at h
    · contradiction
    · split at h
      · contradiction
      · rename_i hcpus
        split at h
        · contradiction
        · split at h
          · contradiction
          · split at h
            · contradiction
            · rename_i p hp
              cases h
              have hall := openCpus_opens (Opens.start _ _) rfl (by simpa using hdistinct) hp
              rw [Nat.zero_add] at hall
              exact ⟨by omega, rfl, p, rfl, hall⟩

/-- The event of every processor was opened with the formats the handler passes
to the decoder. -/
def FormatsAgree (cpus block : ℕ) (w : World) : Prop :=
  ∀ i < cpus, OpenedWith w.sampleTypeHandle w.readFormatHandle (w.files (w.fds block i))

theorem signExtend_inj {x y : BitVec 32} : x.signExtend 64 = y.signExtend 64 ↔ x = y := by
  constructor
  · intro h
    have hint := congrArg BitVec.toInt h
    rw [BitVec.toInt_signExtend_of_le (by omega), BitVec.toInt_signExtend_of_le (by omega)] at hint
    exact BitVec.eq_of_toInt_eq hint
  · rintro rfl
    rfl

/-- Leaving the branches out changes nothing if they are not asked for. -/
theorem withoutBranches_eq (sampleType : BitVec 32) :
    withoutBranches sampleType = sampleType ↔
      SampleField.branchStack.isSet sampleType = false := by
  have hset : SampleField.branchStack.isSet sampleType = false ↔
      sampleType &&& SampleField.branchStack.mask = 0#32 := by
    simp [SampleField.isSet]
  rw [hset]
  unfold withoutBranches
  constructor
  · intro h
    rw [← h, BitVec.and_assoc, BitVec.and_comm (~~~_), BitVec.and_not_self]
    exact BitVec.and_zero
  · intro h
    apply BitVec.eq_of_getLsbD_eq
    intro i hi
    have hbit := congrArg (fun v => v.getLsbD i) h
    simp only [BitVec.getLsbD_and, BitVec.getLsbD_zero] at hbit
    simp only [BitVec.getLsbD_and, BitVec.getLsbD_not, hi, decide_true, Bool.true_and]
    cases hx : sampleType.getLsbD i with
    | false => rfl
    | true =>
      rw [hx, Bool.true_and] at hbit
      rw [hbit]
      rfl

theorem openedType_agrees (i : ℕ) :
    (openedType a args i).signExtend 64 = args.sampleType.signExtend 64 ↔
      SampleField.branchStack.isSet args.sampleType = false ∨ 0 ≤ a.perfEventOpen i 0 := by
  rw [signExtend_inj, openedType]
  by_cases hfail : a.perfEventOpen i 0 < 0
  · rw [if_pos hfail, withoutBranches_eq]
    exact (or_iff_left (by omega)).symm
  · rw [if_neg hfail]
    exact iff_of_true rfl (Or.inr (by omega))

/-- Encoder and decoder agree on all processors exactly when no branch stack is
asked for or no first attempt fails. -/
theorem papiSampleInit_formats_iff (pl : Platform) (a : Answers) (args : Args) (w w' : World)
    (block : ℕ) (hdistinct : Distinct a pl.cpus)
    (h : papiSampleInit pl a args w = .fds block w') :
    FormatsAgree pl.cpus block w' ↔
      SampleField.branchStack.isSet args.sampleType = false ∨
        ∀ i < pl.cpus, 0 ≤ a.perfEventOpen i 0 := by
  obtain ⟨_, rfl, p, rfl, hopens⟩ := papiSampleInit_opens hdistinct h
  have hsample : p.world.sampleTypeHandle = args.sampleType := hopens.kept.sampleTypeHandle
  have hformat := hopens.kept.readFormatHandle
  have hcpu : ∀ i < pl.cpus,
      (OpenedWith p.world.sampleTypeHandle p.world.readFormatHandle
          (p.world.files (p.world.fds p.world.block i)) ↔
        SampleField.branchStack.isSet args.sampleType = false ∨ 0 ≤ a.perfEventOpen i 0) := by
    intro i hi
    obtain ⟨f, hfile, htype, hread⟩ := hopens.files i hi
    rw [← openedType_agrees, hopens.kept.block, hopens.fds i hi, hfile, hsample, hformat]
    constructor
    · rintro ⟨f', hf', htype', _⟩
      cases hf'
      exact htype.symm.trans htype'
    · intro heq
      exact ⟨f, rfl, htype.trans heq, hread⟩
  constructor
  · intro hall
    by_cases hset : SampleField.branchStack.isSet args.sampleType = false
    · exact Or.inl hset
    · exact Or.inr fun i hi => ((hcpu i hi).mp (hall i hi)).resolve_left hset
  · rintro hcond i hi
    apply (hcpu i hi).mpr
    rcases hcond with hset | hfirst
    · exact Or.inl hset
    · exact Or.inr (hfirst i hi)

def twoCpus : Platform where
  arch := .x86_64
  pageSize := 4096
  cpus := 2
  pageSize_pos := by decide
  buffer_small := by decide

/-- A kernel that can open the event on the second processor without branches
only, if `refuses`. -/
def kernelAnswers (refuses : Bool) : Answers where
  attrSize := 112
  encoding := fun _ _ attr => some { attr with config := 0xc0 }
  mallocData := true
  openLog := true
  reopenLog := true
  allocArrays := true
  sigaction := true
  perfEventOpen := fun i attempt => if refuses ∧ i = 1 ∧ attempt = 0 then -1 else 3 + i
  mmap := fun _ => true

def branchArgs : Args where
  eventCodes := "INST_RETIRED:ANY".toList
  sampleType := 0x801
  samplePeriod := 100000

theorem kernelAnswers_descriptor {refuses : Bool} (i : ℕ) :
    descriptor (kernelAnswers refuses) i = 3 + i := by
  by_cases hrefused : refuses = true ∧ i = 1
  · obtain ⟨rfl, rfl⟩ := hrefused
    rfl
  · have hfirst : (kernelAnswers refuses).perfEventOpen i 0 = 3 + i :=
      if_neg (by simpa using hrefused)
    rw [descriptor, hfirst, if_neg (by omega)]

theorem kernelAnswers_distinct {refuses : Bool} : Distinct (kernelAnswers refuses) cpus := by
  intro i j _ _ heq
  rw [kernelAnswers_descriptor, kernelAnswers_descriptor] at heq
  omega

/-- The second event was opened without the branches that the decoder expects. -/
theorem retry_disagrees :
    ∃ w', papiSampleInit twoCpus (kernelAnswers true) branchArgs World.initial = .fds 1 w' ∧
      ¬ FormatsAgree 2 1 w' := by
  refine ⟨_, rfl, fun h => ?_⟩
  obtain ⟨f, hf, htype, _⟩ := h 1 (by omega)
  cases hf
  exact absurd htype (by decide)

/-- When no attempt fails, all events are opened as the decoder expects. -/
theorem firstAttempts_agree :
    ∃ w', papiSampleInit twoCpus (kernelAnswers false) branchArgs World.initial = .fds 1 w' ∧
      FormatsAgree 2 1 w' := by
  refine ⟨_, rfl, ?_⟩
  refine (papiSampleInit_formats_iff twoCpus (kernelAnswers false) branchArgs World.initial _ 1
    kernelAnswers_distinct rfl).mpr (Or.inr fun i _ => ?_)
  have hopen : (kernelAnswers false).perfEventOpen i 0 = 3 + i := by simp [kernelAnswers]
  omega

end PapiSample.OpenedEvents
