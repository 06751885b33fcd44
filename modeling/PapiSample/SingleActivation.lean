import PapiSample.OverlapSteps

/-!
An activation that nobody interferes with. It goes through the search of the
registry and through the record loop in many steps, and comes to where Handler
takes it in one.
-/
namespace PapiSample.SingleActivation

open Bytes ParseRecord RecordLoop MmapRead Process Handler Registry HandlerRuns Overlap
  OverlapInvariant Transition

variable {pl : Platform} {ses : Session}

def Alone (pl : Platform) (i : ℕ) (s t : Overlap.State) : Prop :=
  ∃ n, Run (Overlap.Step pl) s (List.replicate n (.act i)) t

theorem Alone.refl (i : ℕ) (s : Overlap.State) : Alone pl i s s := ⟨0, Run.nil s⟩

theorem Alone.head {i : ℕ} {s t u : Overlap.State} (halive : s.alive = true)
    (hact : act pl i s = some t) (h : Alone pl i t u) : Alone pl i s u := by
  obtain ⟨n, hrun⟩ := h
  refine ⟨n + 1, ?_⟩
  have hfirst : Run (Overlap.Step pl) s [.act i] t := (Run.nil s).snoc (.act i halive hact)
  exact hfirst.append hrun

/-- What counts of a state: the rest records what happened. -/
structure Shows (s t : Overlap.State) (i : ℕ) (w : World) (a : Option Activation) (alive : Bool) :
    Prop where
  world : t.world = w
  activations : t.activations = Function.update s.activations i a
  alive : t.alive = alive

structure Live (ses : Session) (w : World) : Prop where
  fds : w.fdsLive ses.block = true
  heads : w.headsLive ses.block = true
  log : w.logOpen = true

theorem fdsReadable_live {w : World} (hreg : Registered ses w) (hlive : Live ses w) {i : ℕ}
    (hi : i < ses.cpus) : fdsReadable w i = true := by
  rw [fdsReadable, List.all_eq_true]
  intro j hj
  have hj' := List.mem_range.mp hj
  rw [hreg.mmaps j (by omega)]
  exact hlive.fds

theorem goOn_goOn (s : Overlap.State) (i : ℕ) (a b : Activation) :
    ((s.goOn i a).goOn i b) = s.goOn i b := by
  unfold State.goOn
  simp only [Function.update_idem]

theorem act_goOn (s : Overlap.State) (i : ℕ) (a : Activation) :
    (s.goOn i a).activations i = some a := Function.update_self ..

theorem withEntry_goOn {s : Overlap.State} {i : ℕ} {f : Frame} (hreg : Registered ses s.world)
    (hcpu : i < ses.cpus) (a : Activation) (hi : f.i = i) (k : MapInfo → Overlap.State) :
    withEntry (s.goOn i a) f k = k (ses.entry i) := by
  have hreg' : Registered ses (s.goOn i a).world := hreg
  exact withEntry_own hreg' hcpu hi k

/-- The search arrives at the entry of the descriptor. -/
theorem search_alone (pl : Platform) {s : Overlap.State} {i : ℕ} {f : Frame}
    (hreg : Registered ses s.world)
    (halive : s.alive = true) (hframe : FrameOf ses s.world i f) (hpc : f.pc = .lookup) :
    ∀ n j, j + n = i → Alone pl i (s.goOn i { point := .search, frame := { f with i := j } })
      (s.goOn i { point := .readPrevHead, frame := { f with i := i } }) := by
  have hown : ∀ j ≤ i, compareEntry (s.goOn i { point := .search, frame := { f with i := j } }) i
      { f with i := j } = s.goOn i { point := .readPrevHead, frame := { f with i := j } } ∧ j = i ∨
      compareEntry (s.goOn i { point := .search, frame := { f with i := j } }) i
        { f with i := j } = s.goOn i { point := .search, frame := { f with i := j + 1 } } ∧
          j + 1 ≤ i := by
    intro j hj
    have hframe' : FrameOf ses s.world i { f with i := j } :=
      ⟨hframe.cpu, hframe.fd, fun h => by simp [hpc, Pc.bound] at h, hframe.mapped⟩
    rcases compareEntry_own (s := s.goOn i { point := .search, frame := { f with i := j } }) hreg
      hframe' hj with ⟨heq, hi⟩ | ⟨heq, hi⟩
    · exact Or.inl ⟨heq.trans (goOn_goOn ..), hi⟩
    · exact Or.inr ⟨heq.trans (goOn_goOn ..), hi⟩
  intro n
  induction n with
  | zero =>
    rintro j rfl
    rcases hown j (by omega) with ⟨heq, _⟩ | ⟨_, hlt⟩
    · refine Alone.head (t := s.goOn j _) halive ?_ (Alone.refl ..)
      rw [act, act_goOn]
      exact congrArg some heq
    · omega
  | succ n ih =>
    intro j hj
    rcases hown j (by omega) with ⟨_, heq⟩ | ⟨heq, _⟩
    · omega
    · refine Alone.head halive ?_ (ih (j + 1) (by omega))
      rw [act, act_goOn]
      exact congrArg some heq

/-- From the search to the call of perf_mmap_read. -/
theorem lookup_alone {s : Overlap.State} {i : ℕ} {f : Frame} (hreg : Registered ses s.world)
    (halive : s.alive = true) (hframe : FrameOf ses s.world i f) (hpc : f.pc = .lookup)
    (ha : s.activations i = some (enter f)) :
    Alone pl i s ({ s with ourMmap := some (ses.ring i) }.goOn i (enter { f with
      pc := .readHead
      i := i
      prevHead := s.world.heads ses.block i
      ourMmap := ses.ring i })) := by
  have hstart : s = s.goOn i { point := .search, frame := { f with i := 0 } } := by
    have hsearch : enter f = { point := .search, frame := { f with i := 0 } } := by
      rw [enter, hpc]
    rw [State.goOn, ← hsearch, ← ha, Function.update_eq_self]
  obtain ⟨n, hsearch⟩ := search_alone pl hreg halive hframe hpc i 0 (Nat.zero_add i)
  rw [← hstart] at hsearch
  let found : Frame := { f with i := i, prevHead := s.world.heads ses.block i }
  have hread : act pl i (s.goOn i { point := .readPrevHead, frame := { f with i := i } }) =
      some (s.goOn i { point := .select, frame := found }) := by
    rw [act, act_goOn]
    refine congrArg some ((withEntry_goOn hreg hframe.cpu _ rfl _).trans ?_)
    exact goOn_goOn ..
  have hselect : act pl i (s.goOn i { point := .select, frame := found }) =
      some ({ s with ourMmap := some (ses.ring i) }.goOn i { point := .call, frame := found }) := by
    rw [act, act_goOn]
    refine congrArg some ((withEntry_goOn hreg hframe.cpu _ rfl _).trans ?_)
    exact goOn_goOn { s with ourMmap := some (ses.ring i) } ..
  have hcall : act pl i ({ s with ourMmap := some (ses.ring i) }.goOn i
      { point := .call, frame := found }) = some ({ s with ourMmap := some (ses.ring i) }.goOn i
        (enter { found with pc := .readHead, ourMmap := ses.ring i })) := by
    rw [act, act_goOn]
    exact congrArg some (goOn_goOn { s with ourMmap := some (ses.ring i) } ..)
  have hrest : Alone pl i (s.goOn i { point := .readPrevHead, frame := { f with i := i } })
      ({ s with ourMmap := some (ses.ring i) }.goOn i
        (enter { found with pc := .readHead, ourMmap := ses.ring i })) :=
    Alone.head halive hread (Alone.head halive hselect (Alone.head halive hcall (Alone.refl ..)))
  obtain ⟨m, hrun⟩ := hrest
  refine ⟨n + m, ?_⟩
  rw [← List.replicate_append_replicate]
  exact hsearch.append hrun

/-- The record loop, a record at a time. -/
theorem loop_alone {s : Overlap.State} {i : ℕ} {f : Frame} (halive : s.alive = true)
    (fuel : ℕ) (loop : LoopState)
    (hends : (recordLoop (decoderConfig pl s.world) (windowSize f.head f.prevHead) s.world.data fuel
      loop).isSome = true) :
    Alone pl i (s.goOn i { point := .loopTest loop, frame := f })
      (s.goOn i (enter (f.goto .clear))) := by
  have hlast : ∀ loop, inWindow (windowSize f.head f.prevHead) loop = false →
      Alone pl i (s.goOn i { point := .loopTest loop, frame := f })
        (s.goOn i (enter (f.goto .clear))) := by
    intro loop hout
    refine Alone.head halive ?_ (Alone.refl ..)
    rw [act, act_goOn]
    simp only [hout]
    exact congrArg some (goOn_goOn ..)
  induction fuel generalizing loop with
  | zero =>
    cases hin : inWindow (windowSize f.head f.prevHead) loop with
    | false => exact hlast loop hin
    | true => simp [recordLoop, While.loop, hin] at hends
  | succ fuel ih =>
    cases hin : inWindow (windowSize f.head f.prevHead) loop with
    | false => exact hlast loop hin
    | true =>
      simp only [recordLoop, While.loop, hin, if_true] at hends
      obtain ⟨u, hu⟩ := Option.isSome_iff_exists.mp hends
      obtain ⟨loop', hbody, hrest⟩ := Option.bind_eq_some_iff.mp hu
      have htest : act pl i (s.goOn i { point := .loopTest loop, frame := f }) =
          some (s.goOn i { point := .record loop s.writes, frame := f }) := by
        rw [act, act_goOn]
        simp only [hin, if_true]
        exact congrArg some (goOn_goOn ..)
      have hrecord : act pl i (s.goOn i { point := .record loop s.writes, frame := f }) =
          some (s.goOn i { point := .loopTest loop', frame := f }) := by
        rw [act, act_goOn]
        show (if s.writes = s.writes then _ else _) = _
        rw [if_pos rfl]
        show (loopBody (decoderConfig pl s.world) _ s.world.data loop).map _ = _
        rw [hbody]
        exact congrArg some (goOn_goOn ..)
      exact Alone.head halive htest (Alone.head halive hrecord
        (ih loop' (Option.isSome_iff_exists.mpr ⟨u, hrest⟩)))

/-- Left alone, an activation does what Handler says. -/
theorem statement_alone {s : Overlap.State} {i fuel : ℕ} {f : Frame} {w : World} {next : Next}
    (hreg : Registered ses s.world) (hlive : Live ses s.world) (halive : s.alive = true)
    (hframe : FrameOf ses s.world i f) (ha : s.activations i = some (enter f))
    (hstep : statement pl fuel f s.world = some (w, next)) :
    ∃ t, Alone pl i s t ∧ Shows s t i w (next.frame.map enter) (survives next) := by
  have hdoes := statement_does hreg hframe hstep
  cases hpc : f.pc with
  | lookup =>
    cases hdoes with
    | lookup =>
      refine ⟨_, lookup_alone hreg halive hframe hpc ha, ?_, rfl, halive⟩
      rw [fdsReadable_live hreg hlive hframe.cpu, hlive.heads]
      rfl
    | _ => simp_all
  | recordLoop =>
    have hstart : s = s.goOn i { point := .loopTest (loopStart none), frame := f } := by
      have hloop : enter f = { point := .loopTest (loopStart none), frame := f } := by
        rw [enter, hpc]
      rw [State.goOn, ← hloop, ← ha, Function.update_eq_self]
    simp only [Handler.statement, hpc] at hstep
    obtain ⟨loop, hloop, hres⟩ := Option.map_eq_some_iff.mp hstep
    cases hres
    have hrun : Alone pl i (s.goOn i { point := .loopTest (loopStart none), frame := f }) _ :=
      loop_alone halive fuel (loopStart none) (by rw [hloop]; rfl)
    rw [← hstart] at hrun
    refine ⟨_, hrun, ?_, rfl, halive⟩
    rw [hlive.log]
    rfl
  | _ =>
    have hact : act pl i s = some (s.proceed pl i f w next) := by
      rw [act, ha, enter, hpc]
      show (Handler.statement pl 0 f s.world).map _ = _
      have hsame : Handler.statement pl 0 f s.world = Handler.statement pl fuel f s.world := by
        simp only [Handler.statement, hpc]
      rw [hsame, hstep]
      rfl
    exact ⟨_, Alone.head halive hact (Alone.refl ..), rfl, rfl, rfl⟩

end PapiSample.SingleActivation
