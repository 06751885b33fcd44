import PapiSample.InitChecks
import PapiSample.Sessions
import PapiSample.Teardown

/-!
The elements of `fds`, `heads` and `mmaps` that a session uses. All three are
indexed by processor. The first two are allocated for the processors there are;
`mmaps` is declared for a hundred, whatever their number.
-/
namespace PapiSample.TableCapacity

open Bytes Process EventSetup SampleInit OpenedEvents InitChecks Handler Registry HandlerRuns
  Sessions Teardown Transition

inductive Table
  | fds | heads | mmaps
  deriving DecidableEq, Repr

structure Use where
  table : Table
  index : ℕ
  deriving DecidableEq, Repr

/-- How many elements the tables have: `malloc(sizeof(int)*NumEvents*NUM_CORES)`
in size_t, `calloc(NumEvents*NUM_CORES, sizeof(long long))` with a product in int. -/
def entries (pl : Platform) (numEvents : ℕ) : Table → ℤ
  | .fds => (4 * numEvents * pl.cpus) % 2 ^ 64 / 4
  | .heads => wrap 32 (numEvents * pl.cpus)
  | .mmaps => 100

def Inside (pl : Platform) (numEvents : ℕ) (u : Use) : Prop :=
  (u.index : ℤ) < entries pl numEvents u.table

def roundUses (pl : Platform) (a : Answers) (args : Args) (i : ℕ) (p : Progress) : List Use :=
  match newSetupPerf ⟨a.attrSize, a.encoding i⟩ pl.arch
      ⟨p.world.sampleTypeHandle, p.world.readFormatHandle⟩ p.world.sampleRegs p.eventCodes
      p.sampleType args.samplePeriod true with
  | .error _ => []
  | .ok setup => ⟨.fds, i⟩ ::
    match openEvent a i setup.attr p.sampleType with
    | .error _ => []
    | .ok _ => ⟨.mmaps, i⟩ :: if a.mmap i then [⟨.heads, i⟩] else []

def loopUses (pl : Platform) (a : Answers) (args : Args) : ℕ → ℕ → Progress → List Use
  | _, 0, _ => []
  | i, n + 1, p => roundUses pl a args i p ++
    match openCpu pl a args i p with
    | .error _ => []
    | .ok q => loopUses pl a args (i + 1) n q

def initUses (pl : Platform) (a : Answers) (args : Args) : List Use :=
  if a.mallocData && (a.openLog && a.reopenLog) && a.allocArrays && a.sigaction then
    loopUses pl a args 0 pl.cpus ⟨allocate World.initial args, args.eventCodes, args.sampleType⟩
  else []

def startUses (pl : Platform) : List Use := (List.range pl.cpus).map (⟨.fds, ·⟩)

/-- The search of the handler, from `mmaps[i]` on with `n` entries left: it looks
at the descriptor of every entry, and at the head of the one it is after. -/
def lookupUses (w : World) (fd : ℤ) : ℕ → ℕ → List Use
  | _, 0 => []
  | i, n + 1 => ⟨.mmaps, i⟩ ::
    match w.mmaps i with
    | none => []
    | some e => ⟨.fds, e.fd.index⟩ ::
      if w.fds e.fd.block e.fd.index = fd then [⟨.heads, e.prevHead.index⟩]
      else lookupUses w fd (i + 1) n

def handlerUses (f : Frame) (w : World) : List Use :=
  match f.pc with
  | .lookup => lookupUses w f.fd 0 w.numMaps
  | .storePrevHead => ⟨.mmaps, f.i⟩ ::
    match w.mmaps f.i with
    | none => []
    | some e => [⟨.heads, e.prevHead.index⟩]
  | _ => []

def stopUses : StopStep → List Use
  | .refresh i | .disable i | .close i => [⟨.fds, i⟩]
  | .unmap i => [⟨.mmaps, i⟩]
  | .closeLog | .freeFds | .freeHeads | .freeData => []

def stepUses (s : State) : Label → List Use
  | .statement .. => (s.handler.map fun f => handlerUses f s.world).getD []
  | .main t => stopUses t
  | .append .. | .signal .. => []

structure FirstSession (pl : Platform) (numEvents : ℕ) (a : Answers) (args : Args) : Prop where
  init : ∀ u ∈ initUses pl a args, Inside pl numEvents u
  start : ∀ block w', papiSampleInit pl a args World.initial = .fds block w' →
    ∀ u ∈ startUses pl, Inside pl numEvents u
  session : ∀ block w' labels s l t, papiSampleInit pl a args World.initial = .fds block w' →
    Run (Step pl) (State.sampling pl (papiSampleStart pl block w')) labels s → Step pl s l t →
    ∀ u ∈ stepUses s l, Inside pl numEvents u

/-- This holds for every first session. The kernel does not hand out a descriptor
that is in use, and calloc fails if it is asked for a negative number of elements. -/
def TablesSuffice (pl : Platform) (numEvents : ℕ) : Prop :=
  ∀ a args, HandedOutOnce a pl.cpus → (a.allocArrays = true → 0 ≤ entries pl numEvents .heads) →
    FirstSession pl numEvents a args

variable {pl : Platform} {a : Answers} {args : Args}

theorem roundUses_index {i : ℕ} {p : Progress} : ∀ u ∈ roundUses pl a args i p, u.index = i := by
  intro u hu
  unfold roundUses at hu
  split at hu
  · simp at hu
  · rcases List.mem_cons.mp hu with rfl | hu
    · rfl
    · split at hu
      · simp at hu
      · rcases List.mem_cons.mp hu with rfl | hu
        · rfl
        · split at hu
          · rw [List.mem_singleton.mp hu]
          · simp at hu

theorem loopUses_index {i n : ℕ} {p : Progress} :
    ∀ u ∈ loopUses pl a args i n p, i ≤ u.index ∧ u.index < i + n := by
  induction n generalizing i p with
  | zero =>
    intro u hu
    simp [loopUses] at hu
  | succ n ih =>
    intro u hu
    rw [loopUses, List.mem_append] at hu
    rcases hu with hu | hu
    · have hi := roundUses_index u hu
      omega
    · split at hu
      · simp at hu
      · have hbounds := ih u hu
        omega

/-- A round that comes to its end has used all three tables. -/
theorem roundUses_all {i : ℕ} {p q : Progress} (h : openCpu pl a args i p = .ok q) (table : Table) :
    ⟨table, i⟩ ∈ roundUses pl a args i p := by
  obtain ⟨setup, o, hsetup, hopen, hmap, _⟩ := openCpu_eq_ok.mp h
  unfold roundUses
  rw [hsetup]
  simp only [hopen, hmap, if_true]
  cases table <;> simp

theorem loopUses_all {i n : ℕ} {p q : Progress} (h : openCpus pl a args i n p = .ok q)
    (table : Table) : ∀ j, i ≤ j → j < i + n → ⟨table, j⟩ ∈ loopUses pl a args i n p := by
  induction n generalizing i p with
  | zero => omega
  | succ n ih =>
    intro j hj hn
    obtain ⟨r, hr, hrest⟩ := bind_ok h
    rw [loopUses, List.mem_append, hr]
    rcases Nat.eq_or_lt_of_le hj with rfl | hlt
    · exact Or.inl (roundUses_all hr table)
    · exact Or.inr (ih hrest j hlt (by omega))

theorem lookupUses_index {ses : Session} {w : World} (h : Registered ses w) {fd : ℤ} {n i : ℕ}
    (hn : i + n ≤ ses.cpus) : ∀ u ∈ lookupUses w fd i n, u.index < ses.cpus := by
  induction n generalizing i with
  | zero =>
    intro u hu
    simp [lookupUses] at hu
  | succ n ih =>
    intro u hu
    rw [lookupUses, h.mmaps i (by omega)] at hu
    rcases List.mem_cons.mp hu with rfl | hu
    · show i < ses.cpus
      omega
    · rcases List.mem_cons.mp hu with rfl | hu
      · show i < ses.cpus
        omega
      · split at hu
        · rw [List.mem_singleton.mp hu]
          show i < ses.cpus
          omega
        · exact ih (by omega) u hu

/-- The uses of a step are for processors there are. -/
theorem stepUses_index {ses : Session} {s t : State} {l : Label} (hs : Unwound ses s)
    (hnum : s.world.numMaps = ses.cpus) (hstep : Step pl s l t) :
    ∀ u ∈ stepUses s l, u.index < ses.cpus := by
  have hreg := hs.valid.registered
  cases hstep with
  | append =>
    intro u hu
    simp [stepUses] at hu
  | signal =>
    intro u hu
    simp [stepUses] at hu
  | @statement f _ _ _ hf _ =>
    obtain ⟨i, hframe⟩ := hs.valid.handler f hf
    intro u hu
    simp only [stepUses, hf, Option.map_some, Option.getD_some, handlerUses] at hu
    split at hu
    · exact lookupUses_index hreg (by omega) u hu
    · rename_i hpc
      have hbound := hframe.bound
      rw [hpc] at hbound
      have hi := hframe.cpu
      rw [(hbound rfl).1, hreg.mmaps i hi] at hu
      rcases List.mem_cons.mp hu with rfl | hu
      · exact hi
      · rw [List.mem_singleton.mp hu]
        exact hi
    · simp at hu
  | @main x rest _ _ hrest =>
    have hx := mem_stopSteps.mp (hs.suffix.subset (hrest ▸ List.mem_cons_self))
    intro u hu
    cases x with
    | refresh i | disable i | close i =>
      rw [List.mem_singleton.mp hu]
      exact hx
    | unmap i =>
      rw [List.mem_singleton.mp hu]
      exact hnum ▸ hx
    | _ => simp [stepUses, stopUses] at hu

theorem session_index {w' : World} {block : ℕ} {labels : List Label} {s t : State} {l : Label}
    (hdistinct : Distinct a pl.cpus)
    (hinit : papiSampleInit pl a args World.initial = .fds block w')
    (hrun : Run (Step pl) (State.sampling pl (papiSampleStart pl block w')) labels s)
    (hstep : Step pl s l t) : ∀ u ∈ stepUses s l, u.index < pl.cpus := by
  have hstarted := (init_started hdistinct (fun _ _ => rfl) hinit).start pl block
  have hunwound := (unwound_sampling hstarted rfl).run rfl hrun
  have hnum : s.world.numMaps = w'.numMaps :=
    congrArg Process.Registry.numMaps (session_registry hrun)
  rw [init_numMaps hdistinct hinit] at hnum
  exact stepUses_index hunwound (hnum.trans (Nat.zero_add _)) hstep

theorem initUses_index : ∀ u ∈ initUses pl a args, u.index < pl.cpus := by
  intro u hu
  unfold initUses at hu
  split at hu
  · have hbounds := loopUses_index u hu
    omega
  · simp at hu

/-- If arrays are allocated for the processors, a session needs no more. -/
theorem firstSession_inside {numEvents : ℕ} (honce : HandedOutOnce a pl.cpus)
    (hentries : ∀ table, (pl.cpus : ℤ) ≤ entries pl numEvents table) :
    FirstSession pl numEvents a args := by
  have hinside : ∀ u : Use, u.index < pl.cpus → Inside pl numEvents u := by
    intro u hu
    have hu' := hentries u.table
    unfold Inside
    omega
  refine ⟨fun u hu => hinside u (initUses_index u hu), ?_, ?_⟩
  · intro block w' _ u hu
    obtain ⟨i, hi, rfl⟩ := List.mem_map.mp hu
    exact hinside _ (List.mem_range.mp hi)
  · intro block w' labels s l t hinit hrun hstep u hu
    exact hinside u (session_index (honce.distinct hinit) hinit hrun hstep u hu)

/-- Without arrays there is no session. -/
theorem firstSession_unallocated {numEvents : ℕ} (hno : a.allocArrays = false) :
    FirstSession pl numEvents a args := by
  have hinit : ∀ block w', papiSampleInit pl a args World.initial ≠ .fds block w' := by
    intro block w' h
    have hpasses := (papiSampleInit_returns pl a args World.initial).mp ⟨block, w', h⟩
    rw [hpasses.allocArrays] at hno
    contradiction
  refine ⟨fun u hu => ?_, fun block w' h => absurd h (hinit block w'),
    fun block w' labels s l t h => absurd h (hinit block w')⟩
  rw [initUses, hno, Bool.and_false, Bool.false_and] at hu
  simp at hu

/-- When all goes well, all elements for all processors are used. -/
theorem kernelAnswers_uses (pl : Platform) (table : Table) {j : ℕ} (hj : j < pl.cpus) :
    ⟨table, j⟩ ∈ initUses pl (kernelAnswers false) branchArgs := by
  have hpasses : ∀ i, CpuPasses pl (kernelAnswers false) branchArgs i := by
    intro i
    refine ⟨Or.inl rfl, ?_, rfl⟩
    rw [kernelAnswers_descriptor]
    omega
  obtain ⟨q, hq⟩ := (openCpus_ok_iff (Reaches.start pl (kernelAnswers false) branchArgs
    (allocate World.initial branchArgs))).mpr fun i _ (_ : i < 0 + pl.cpus) => hpasses i
  exact loopUses_all hq table j (by omega) (by omega)

theorem fds_suffice (pl : Platform) (numEvents : ℕ) (hevents : 0 < numEvents)
    (hint : numEvents < 2 ^ 31) (hcpus : pl.cpus < 2 ^ 31) :
    (pl.cpus : ℤ) ≤ entries pl numEvents .fds := by
  have hmost : numEvents * pl.cpus < 2 ^ 31 * 2 ^ 31 := Nat.mul_lt_mul'' hint hcpus
  have hleast : pl.cpus ≤ numEvents * pl.cpus := Nat.le_mul_of_pos_left _ hevents
  have hproduct : ((numEvents * pl.cpus : ℕ) : ℤ) = numEvents * pl.cpus := by push_cast; rfl
  show (pl.cpus : ℤ) ≤ (4 * numEvents * pl.cpus) % 2 ^ 64 / 4
  rw [mul_assoc, ← hproduct]
  omega

/-- The tables suffice for at most a hundred processors, provided that the int
product NumEvents*NUM_CORES comes to as many; if it is negative nothing is sampled. -/
theorem tablesSuffice_iff (pl : Platform) (numEvents : ℕ) (hevents : 0 < numEvents)
    (hint : numEvents < 2 ^ 31) (hcpus : pl.cpus < 2 ^ 31) :
    TablesSuffice pl numEvents ↔
      wrap 32 (numEvents * pl.cpus) < 0 ∨
        pl.cpus ≤ 100 ∧ (pl.cpus : ℤ) ≤ wrap 32 (numEvents * pl.cpus) := by
  constructor
  · intro hsuffice
    rcases lt_or_ge (wrap 32 (numEvents * pl.cpus)) 0 with hneg | hpos
    · exact Or.inl hneg
    · have hinit := (hsuffice (kernelAnswers false) branchArgs
        (handedOutOnce kernelAnswers_distinct)
        fun _ => hpos).init
      have hinside : ∀ table j, j < pl.cpus → (j : ℤ) < entries pl numEvents table :=
        fun table j hj => hinit _ (kernelAnswers_uses pl table hj)
      refine Or.inr ⟨?_, ?_⟩
      · by_contra hmany
        have hlast : ((100 : ℕ) : ℤ) < 100 := hinside .mmaps 100 (by omega)
        omega
      · by_contra hfew
        have hlast := hinside .heads (wrap 32 (numEvents * pl.cpus)).toNat (by omega)
        change _ < wrap 32 (numEvents * pl.cpus) at hlast
        omega
  · intro hcond a args honce hcalloc
    rcases hcond with hneg | ⟨hmmaps, hheads⟩
    · apply firstSession_unallocated
      cases hallocates : a.allocArrays with
      | false => rfl
      | true => exact absurd (hcalloc hallocates) (Int.not_le.mpr hneg)
    · apply firstSession_inside honce
      intro table
      cases table with
      | fds => exact fds_suffice pl numEvents hevents hint hcpus
      | heads => exact hheads
      | mmaps =>
        show (pl.cpus : ℤ) ≤ 100
        omega

def sixteenCpus : Platform := { twoCpus with cpus := 16 }

def manyCpus : Platform := { twoCpus with cpus := 101 }

theorem tablesSuffice_sixteen : TablesSuffice sixteenCpus 2 :=
  (tablesSuffice_iff sixteenCpus 2 (by omega) (by omega) (by decide)).mpr
    (Or.inr ⟨by decide, by decide⟩)

/-- The last of 101 processors has no entry in `mmaps`. -/
theorem mmaps_exceeded : ¬ TablesSuffice manyCpus 1 := by
  intro hsuffice
  have hsession := hsuffice (kernelAnswers false) branchArgs (handedOutOnce kernelAnswers_distinct)
    fun _ => by decide
  have hlast : ((100 : ℕ) : ℤ) < 100 :=
    hsession.init ⟨.mmaps, 100⟩ (kernelAnswers_uses manyCpus .mmaps (by decide))
  omega

end PapiSample.TableCapacity
