import PapiSample.InitChecks
import PapiSample.Ledger
import PapiSample.Sessions
import PapiSample.Teardown

/-!
What a session acquires and releases. PAPI_sample_init opens the log twice, the first
time to clear it, and maps a buffer for each processor; the length that it passes to
mmap and the one that PAPI_sample_stop passes to munmap are different expressions.
-/
namespace PapiSample.SessionLedger

open Bytes Process EventSetup SampleInit OpenedEvents InitChecks Handler Registry Sessions Teardown
  Transition Ledger

/-- `page ring k` is page `k` of a mapping; `truncated` is the log as it is opened first. -/
inductive Resource
  | descriptor (fd : ℤ)
  | page (ring k : ℕ)
  | truncated | log
  | fds (block : ℕ)
  | heads (block : ℕ)
  | data
  deriving DecidableEq, Repr

def mapLength (pl : Platform) : ℤ := wrap 32 ((1 + MMAP_DATA_SIZE) * pl.pageSize)

/-- `1+MMAP_DATA_SIZE*getpagesize()` -/
def unmapLength (pl : Platform) : ℤ := wrap 32 (1 + MMAP_DATA_SIZE * pl.pageSize)

/-- mmap and munmap take the length as a size_t and round it up to whole pages. -/
def pageCount (pl : Platform) (length : ℤ) : ℕ :=
  ((length % 2 ^ 64 + pl.pageSize - 1) / pl.pageSize).toNat

def pages (pl : Platform) (length : ℤ) (ring : ℕ) : List Resource :=
  (List.range (pageCount pl length)).map (.page ring)

def attempts (a : Answers) (i : ℕ) : List ℤ :=
  if a.perfEventOpen i 0 < 0 then [a.perfEventOpen i 0, a.perfEventOpen i 1]
  else [a.perfEventOpen i 0]

def obtained (a : Answers) (i : ℕ) : List ℤ := (attempts a i).filter (0 ≤ ·)

def roundMoves (pl : Platform) (a : Answers) (args : Args) (i : ℕ) (p : Progress) :
    List (Move Resource) :=
  match newSetupPerf ⟨a.attrSize, a.encoding i⟩ pl.arch
      ⟨p.world.sampleTypeHandle, p.world.readFormatHandle⟩ p.world.sampleRegs p.eventCodes
      p.sampleType args.samplePeriod true with
  | .error _ => []
  | .ok setup => (obtained a i).map (fun fd => .acquire (.descriptor fd)) ++
    match openEvent a i setup.attr p.sampleType with
    | .error _ => []
    | .ok _ => if a.mmap i then (pages pl (mapLength pl) p.world.nextRing).map .acquire else []

def loopMoves (pl : Platform) (a : Answers) (args : Args) :
    ℕ → ℕ → Progress → List (Move Resource)
  | _, 0, _ => []
  | i, n + 1, p => roundMoves pl a args i p ++
    match openCpu pl a args i p with
    | .error _ => []
    | .ok q => loopMoves pl a args (i + 1) n q

def initMoves (pl : Platform) (a : Answers) (args : Args) (w : World) : List (Move Resource) :=
  if !a.mallocData then []
  else .acquire .data ::
    if !a.openLog then []
    else .acquire .truncated :: .release .truncated ::
      if !a.reopenLog then []
      else .acquire .log ::
        if pl.cpus = 0 then []
        else if !a.allocArrays then []
        else .acquire (.fds (w.block + 1)) :: .acquire (.heads (w.block + 1)) ::
          if !a.sigaction then []
          else loopMoves pl a args 0 pl.cpus ⟨allocate w args, args.eventCodes, args.sampleType⟩

def stopMoves (pl : Platform) (w : World) : StopStep → List (Move Resource)
  | .refresh _ | .disable _ => []
  | .close i => [.release (.descriptor (w.currentFd i))]
  | .unmap i =>
    match w.mmaps i with
    | none => []
    | some e => (pages pl (unmapLength pl) e.sampleMmap).map .release
  | .closeLog => [.release .log]
  | .freeFds => [.release (.fds w.block)]
  | .freeHeads => [.release (.heads w.block)]
  | .freeData => [.release .data]

def stepMoves (pl : Platform) (s : State) : Label → List (Move Resource)
  | .main t => stopMoves pl s.world t
  | .append .. | .signal .. | .statement .. => []

structure Booked where
  state : State
  moves : List (Move Resource)

structure Books (pl : Platform) (b : Booked) (l : Label) (b' : Booked) : Prop where
  step : Step pl b.state l b'.state
  entry : b'.moves = b.moves ++ stepMoves pl b.state l

variable {pl : Platform} {a : Answers} {args : Args} {w : World}

def cpuResources (pl : Platform) (a : Answers) (firstRing i : ℕ) : List Resource :=
  .descriptor (descriptor a i) :: pages pl (mapLength pl) (firstRing + i)

theorem obtained_eq {i : ℕ} (hopen : 0 ≤ descriptor a i) : obtained a i = [descriptor a i] := by
  unfold obtained attempts
  unfold descriptor at hopen ⊢
  by_cases hfirst : a.perfEventOpen i 0 < 0
  · rw [if_pos hfirst] at hopen ⊢
    rw [if_pos hfirst, List.filter_cons_of_neg (by simpa using hfirst),
      List.filter_cons_of_pos (by simpa using hopen)]
    rfl
  · rw [if_neg hfirst] at hopen ⊢
    rw [if_neg hfirst, List.filter_cons_of_pos (by simpa using hopen)]
    rfl

/-- A round that comes to its end. -/
theorem roundMoves_eq {i : ℕ} {p q : Progress} (h : openCpu pl a args i p = .ok q) :
    roundMoves pl a args i p =
      (.descriptor (descriptor a i) :: pages pl (mapLength pl) p.world.nextRing).map .acquire := by
  obtain ⟨setup, o, hsetup, hopen, hmap, _⟩ := openCpu_eq_ok.mp h
  have hobtained := obtained_eq (openEvent_ok hopen).1
  unfold roundMoves
  rw [hsetup, hobtained]
  simp only [hopen, hmap, if_true]
  rfl

/-- The rounds of a loop that comes to its end. -/
theorem loopMoves_eq {i n : ℕ} {p q : Progress} (h : openCpus pl a args i n p = .ok q)
    (firstRing : ℕ) (hring : p.world.nextRing = firstRing + i) :
    loopMoves pl a args i n p =
      ((List.range' i n).flatMap (cpuResources pl a firstRing)).map .acquire := by
  induction n generalizing i p with
  | zero => rfl
  | succ n ih =>
    obtain ⟨r, hr, hrest⟩ := bind_ok h
    have hnext : r.world.nextRing = firstRing + (i + 1) := by
      obtain ⟨_, _, hworld, _⟩ := openCpu_ok hr
      rw [hworld]
      show p.world.nextRing + 1 = _
      omega
    rw [loopMoves, hr, roundMoves_eq hr, List.range'_succ, List.flatMap_cons, List.map_append,
      hring]
    exact congrArg _ (ih hrest hnext)

def sharedResources (block : ℕ) : List Resource :=
  [.data, .truncated, .log, .fds block, .heads block]

/-- A PAPI_sample_init that returns its array has released the log once, to open it again. -/
theorem initMoves_eq {w' : World} {block : ℕ}
    (hinit : papiSampleInit pl a args w = .fds block w') :
    acquired (initMoves pl a args w) = sharedResources (w.block + 1) ++
        (List.range pl.cpus).flatMap (cpuResources pl a w.nextRing) ∧
      released (initMoves pl a args w) = [.truncated] := by
  have hpasses := (papiSampleInit_returns pl a args w).mp ⟨block, w', hinit⟩
  have hcpus : pl.cpus ≠ 0 := Nat.ne_of_gt hpasses.cpus
  obtain ⟨q, hq⟩ := (openCpus_ok_iff (Reaches.start pl a args (allocate w args))).mpr
    fun j _ (hj : j < 0 + pl.cpus) => hpasses.each j (by omega)
  have hloop := loopMoves_eq hq w.nextRing rfl
  unfold initMoves
  simp only [hpasses.mallocData, hpasses.openLog, hpasses.reopenLog, hpasses.allocArrays,
    hpasses.sigaction, hcpus, hloop, Bool.not_true, Bool.false_eq_true, if_false]
  constructor
  · simp [sharedResources, List.range_eq_range']
  · simp

/-- Every run has a ledger. -/
theorem books_of_run {s t : State} {labels : List Label} (h : Run (Step pl) s labels t)
    (before : List (Move Resource)) :
    ∃ moves, Run (Books pl) ⟨s, before⟩ labels ⟨t, moves⟩ := by
  induction h with
  | nil => exact ⟨before, Run.nil _⟩
  | snoc _ hlast ih =>
    obtain ⟨moves, hrun⟩ := ih
    exact ⟨_, hrun.snoc ⟨hlast, rfl⟩⟩

theorem run_of_books {b b' : Booked} {labels : List Label} (h : Run (Books pl) b labels b') :
    Run (Step pl) b.state labels b'.state := by
  induction h with
  | nil => exact Run.nil _
  | snoc _ hlast ih => exact ih.snoc hlast.step

theorem stopMoves_congr {w' : World} (h : w'.registry = w.registry) (s : StopStep) :
    stopMoves pl w' s = stopMoves pl w s := by
  have hmmaps : w'.mmaps = w.mmaps := congrArg Process.Registry.mmaps h
  have hblock : w'.block = w.block := congrArg Process.Registry.block h
  have hfds : w'.fds = w.fds := congrArg Process.Registry.fds h
  cases s <;> simp only [stopMoves, World.currentFd, hmmaps, hblock, hfds]

structure Entered (pl : Platform) (w : World) (before : List (Move Resource)) (b : Booked) :
    Prop where
  registry : b.state.world.registry = w.registry
  entries : ∃ done, done ++ b.state.main = stopSteps pl.cpus w.numMaps ∧
    b.moves = before ++ done.flatMap (stopMoves pl w)

theorem Entered.step {before : List (Move Resource)} {b b' : Booked} {l : Label}
    (h : Entered pl w before b) (hstep : Books pl b l b') : Entered pl w before b' := by
  obtain ⟨done, hdone, hmoves⟩ := h.entries
  have hregistry := (step_registry hstep.step).trans h.registry
  refine ⟨hregistry, ?_⟩
  by_cases hl : ∀ x, l ≠ .main x
  · have hnone : stepMoves pl b.state l = [] := by
      cases l with
      | main x => exact absurd rfl (hl x)
      | _ => rfl
    refine ⟨done, ?_, ?_⟩
    · rw [step_main hstep.step hl]
      exact hdone
    · rw [hstep.entry, hnone, List.append_nil]
      exact hmoves
  · obtain ⟨x, rfl⟩ : ∃ x, l = .main x := by
      by_contra hno
      exact hl fun x hx => hno ⟨x, hx⟩
    have hentry := hstep.entry
    obtain ⟨rest, hmain, hrest⟩ : ∃ rest, b.state.main = x :: rest ∧ b'.state.main = rest := by
      have hlast := hstep.step
      generalize b'.state = t at hlast
      cases hlast with
      | main _ _ hmain => exact ⟨_, hmain, rfl⟩
    refine ⟨done ++ [x], ?_, ?_⟩
    · rw [hrest, List.append_assoc, List.singleton_append, ← hmain]
      exact hdone
    · rw [hentry, hmoves, List.flatMap_append, List.flatMap_singleton, List.append_assoc]
      exact congrArg _ (congrArg _ (stopMoves_congr h.registry x))

/-- The ledger of a session, wherever it is interrupted by signals. -/
theorem Entered.run {before : List (Move Resource)} {labels : List Label} {b : Booked}
    (hrun : Run (Books pl) ⟨State.sampling pl w, before⟩ labels b) : Entered pl w before b := by
  refine hrun.invariant (Entered pl w before) ⟨rfl, [], rfl, ?_⟩ fun _ _ _ _ hu hstep =>
    hu.step hstep
  exact (List.append_nil before).symm

end PapiSample.SessionLedger
