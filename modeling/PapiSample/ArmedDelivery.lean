import PapiSample.Rearming

/-!
Sessions in which the kernel writes for an event only while it is on. As the handler
keeps the event off, nothing comes in behind its read of `data_head`: between handler
runs, what was delivered is all that was written before the last run came to its end.
-/
namespace PapiSample.ArmedDelivery

open Bytes MmapRead Process SampleInit OpenedEvents Handler Registry HandlerRuns RingReads
  StreamSimulation Teardown Sessions Lossless Drain Rearming Transition

/-- A step of the process in which the kernel writes only for events that are on. -/
def ArmedStep (pl : Platform) (s : State) (l : Label) (t : State) : Prop :=
  Step pl s l t ∧ ∀ ring bytes r, l = .append ring bytes → s.world.rings ring = some r →
    (s.world.files r.fd).map File.enabled = some true

def returns (fd : ℤ) : Label → Bool
  | .statement d .refresh _ => d = fd
  | _ => false

def upToLastReturn (fd : ℤ) (labels : List Label) : List Label :=
  labels.rdropWhile fun l => !returns fd l

def BehindRead (ses : Session) (i : ℕ) (h : Option Frame) : Prop :=
  ∃ f, h = some f ∧ f.fd = ses.fd i ∧ (Pc.hasHead f.pc = true ∨ f.pc = .refresh)

variable {pl : Platform} {ses : Session} {i : ℕ} {w : World} {u v : State} {labels : List Label}
  {l : Label}

theorem run_of_armed (h : Run (ArmedStep pl) u labels v) : Run (Step pl) u labels v :=
  h.mono fun _ _ _ hstep => hstep.1

theorem BehindRead.atWork {h : Option Frame} (hbehind : BehindRead ses i h) : AtWork ses i h := by
  obtain ⟨f, hf, hfd, hpc⟩ := hbehind
  refine ⟨f, hf, hfd, fun hdisable => ?_⟩
  rw [hdisable] at hpc
  simp [Pc.hasHead] at hpc

theorem not_behindRead_idle : ¬ BehindRead ses i none := fun h => not_atWork_idle h.atWork

def RingsOwned (ses : Session) (w : World) : Prop :=
  ∀ i < ses.cpus, ∀ r, w.rings (ses.ring i) = some r → r.fd = ses.fd i

theorem RingsOwned.setMapping (h : RingsOwned ses w) {ring : ℕ} {r : Ring} {m : Mapping}
    (hr : w.rings ring = some r) : RingsOwned ses (setMapping w ring r m) := by
  intro i hi r' hr'
  simp only [Handler.setMapping] at hr'
  by_cases heq : ses.ring i = ring
  · rw [heq, Function.update_self] at hr'
    cases hr'
    exact h i hi r (by rw [heq]; exact hr)
  · rw [Function.update_of_ne heq] at hr'
    exact h i hi r' hr'

theorem RingsOwned.congr {w' : World} (h : RingsOwned ses w) (hsame : w'.rings = w.rings) :
    RingsOwned ses w' := by
  intro i hi r hr
  rw [hsame] at hr
  exact h i hi r hr

theorem RingsOwned.step (h : RingsOwned ses u.world) (hvalid : Valid ses u)
    (hstep : Step pl u l v) :
    RingsOwned ses v.world := by
  cases hstep with
  | append ring bytes hr _ _ => exact h.setMapping hr
  | signal => exact h
  | @statement f w next fuel hf hstatement =>
    obtain ⟨i, hframe⟩ := hvalid.handler f hf
    rw [resume_world]
    cases statement_does hvalid.registered hframe hstatement with
    | storeTail r _ hr => exact h.setMapping hr
    | _ => exact h.congr (by simp [World.setEnabled, World.blame, setData, setHead])
  | main => exact fun i hi r hr => h i hi r (perform_rings hr)

/-- A statement of the processor's own run moves it behind the read, or to its end, or
leaves it where it is. -/
theorem does_behindRead {f : Frame} {w' : World} {next : Next} {bytes : List Byte}
    (hf : FrameOf ses w i f) (h : Does pl ses i f w w' next)
    (hr : (w.rings (ses.ring i)).isSome = true) :
    if readsHead (ses.fd i) (.statement f.fd f.pc bytes) then BehindRead ses i next.frame
    else if returns (ses.fd i) (.statement f.fd f.pc bytes) then
      BehindRead ses i (some f) ∧ ¬ BehindRead ses i next.frame
    else BehindRead ses i next.frame ↔ BehindRead ses i (some f) := by
  have hfd := hf.fd
  cases h with
  | unmapped _ hnone =>
    rw [hnone] at hr
    contradiction
  | disable hpc | lookup hpc | readHead _ hpc | copyToEnd _ hpc | copyFromStart _ hpc
  | recordLoop _ hpc | clear hpc | storeTail _ hpc | storePrevHead hpc | refresh hpc =>
    simp [BehindRead, readsHead, returns, Next.frame, Frame.goto, Pc.hasHead, hpc, hfd]

theorem step_behindRead (hvalid : Valid ses u) (hi : i < ses.cpus) (hstep : Step pl u l v)
    (hr : (v.world.rings (ses.ring i)).isSome = true) :
    if readsHead (ses.fd i) l then BehindRead ses i v.handler
    else if returns (ses.fd i) l then BehindRead ses i u.handler ∧ ¬ BehindRead ses i v.handler
    else BehindRead ses i v.handler ↔ BehindRead ses i u.handler := by
  have hbefore : (u.world.rings (ses.ring i)).isSome = true := by
    obtain ⟨r, hr⟩ := Option.isSome_iff_exists.mp hr
    exact Option.isSome_iff_exists.mpr (mapped_before hstep hr)
  cases hstep with
  | append => simp [readsHead, returns]
  | signal k _ hidle _ =>
    simp [readsHead, returns, BehindRead, hidle, Frame.start, Pc.hasHead]
  | @statement f w next fuel hf hstatement =>
    obtain ⟨j, hframe⟩ := hvalid.handler f hf
    have hdoes := statement_does hvalid.registered hframe hstatement
    rw [resume_handler, hf]
    by_cases hij : i = j
    · subst hij
      exact does_behindRead hframe hdoes hbefore
    · have hne : f.fd ≠ ses.fd i := fun heq =>
        hij (ses.distinct i j hi hframe.cpu (heq.symm.trans hframe.fd))
      have hread : readsHead (ses.fd i) (.statement f.fd f.pc (given f u.world)) = false := by
        cases f.pc <;> simp [readsHead, hne]
      have hreturn : returns (ses.fd i) (.statement f.fd f.pc (given f u.world)) = false := by
        cases f.pc <;> simp [returns, hne]
      rw [hread, hreturn]
      refine iff_of_false ?_ ?_
      · rintro ⟨g, hg, hgfd, _⟩
        exact hne (hframe.fd.trans ((hframe.does hdoes hg).fd.symm.trans hgfd))
      · rintro ⟨g, hg, hgfd, _⟩
        cases hg
        exact hne hgfd
  | main _ hidle _ => simp [readsHead, returns]

theorem upToLastReturn_return {fd : ℤ} (h : returns fd l = true) :
    upToLastReturn fd (labels ++ [l]) = labels ++ [l] :=
  List.rdropWhile_concat_neg _ _ _ (by simp [h])

theorem upToLastReturn_other {fd : ℤ} (h : returns fd l = false) :
    upToLastReturn fd (labels ++ [l]) = upToLastReturn fd labels :=
  List.rdropWhile_concat_pos _ _ _ (by simp [h])

theorem writtenTo_return {fd : ℤ} {ring : ℕ} (h : returns fd l = true) : writtenTo ring l = [] := by
  cases l with
  | append => contradiction
  | _ => rfl

/-- Nothing is written between a run's read of `data_head` and its end. -/
structure Shielded (ses : Session) (attr : ℕ → Attr) (labels : List Label) (u : State) : Prop where
  switched : Switched ses attr u
  owned : RingsOwned ses u.world
  behind : ∀ i < ses.cpus, (u.world.rings (ses.ring i)).isSome = true →
    BehindRead ses i u.handler →
      (sinceLastRead (ses.fd i) labels).flatMap (writtenTo (ses.ring i)) = []
  between : ∀ i < ses.cpus, (u.world.rings (ses.ring i)).isSome = true →
    ¬ BehindRead ses i u.handler →
      (upToLastRead (ses.fd i) labels).flatMap (writtenTo (ses.ring i)) =
        (upToLastReturn (ses.fd i) labels).flatMap (writtenTo (ses.ring i))

variable {attr : ℕ → Attr}

/-- While a run is at work, the kernel does not write to its ring. -/
theorem Shielded.writes_nothing (h : Shielded ses attr labels u) (hi : i < ses.cpus)
    (hwork : AtWork ses i u.handler) (hstep : ArmedStep pl u l v) :
    writtenTo (ses.ring i) l = [] := by
  obtain ⟨hstep, harmed⟩ := hstep
  cases hstep with
  | @append r ring bytes hr _ _ =>
    rw [writtenTo, if_neg]
    rintro rfl
    have hon := harmed _ _ r rfl hr
    rw [h.owned i hi r hr] at hon
    obtain ⟨file, hfile, henabled⟩ := Option.map_eq_some_iff.mp hon
    rw [h.switched.off i hi hwork file hfile] at henabled
    contradiction
  | _ => rfl

theorem Shielded.step (hcpus : pl.cpus = ses.cpus) (h : Shielded ses attr labels u)
    (hstep : ArmedStep pl u l v) : Shielded ses attr (labels ++ [l]) v := by
  have hvalid := h.switched.unwound.valid
  have hbefore : ∀ i, (v.world.rings (ses.ring i)).isSome = true →
      (u.world.rings (ses.ring i)).isSome = true := fun i hr => by
    obtain ⟨r, hr⟩ := Option.isSome_iff_exists.mp hr
    exact Option.isSome_iff_exists.mpr (mapped_before hstep.1 hr)
  refine ⟨h.switched.step hcpus hstep.1, h.owned.step hvalid hstep.1, fun i hi hr hbehind => ?_,
    fun i hi hr hbetween => ?_⟩
  · have hcase := step_behindRead hvalid hi hstep.1 hr
    cases hread : readsHead (ses.fd i) l with
    | true =>
      rw [sinceLastRead_read hread]
      rfl
    | false =>
      cases hreturn : returns (ses.fd i) l with
      | true =>
        rw [hread, hreturn] at hcase
        exact absurd hbehind hcase.2
      | false =>
        rw [hread, hreturn] at hcase
        have hbehind' := hcase.mp hbehind
        rw [sinceLastRead_other hread, List.flatMap_append, h.behind i hi (hbefore i hr) hbehind',
          List.flatMap_singleton, h.writes_nothing hi hbehind'.atWork hstep]
        rfl
  · have hcase := step_behindRead hvalid hi hstep.1 hr
    cases hread : readsHead (ses.fd i) l with
    | true =>
      rw [hread] at hcase
      exact absurd hcase hbetween
    | false =>
      rw [upToLastRead_other hread]
      cases hreturn : returns (ses.fd i) l with
      | true =>
        rw [hread, hreturn] at hcase
        have hwritten := flatMap_lastRead (ses.fd i) labels (writtenTo (ses.ring i))
        rw [h.behind i hi (hbefore i hr) hcase.1, List.append_nil] at hwritten
        rw [upToLastReturn_return hreturn, List.flatMap_append, List.flatMap_singleton,
          writtenTo_return hreturn, List.append_nil, hwritten]
      | false =>
        rw [hread, hreturn] at hcase
        rw [upToLastReturn_other hreturn]
        exact h.between i hi (hbefore i hr) fun hbehind => hbetween (hcase.mpr hbehind)

theorem run_shielded (hcpus : pl.cpus = ses.cpus) (h : Started ses w)
    (hrun : Run (ArmedStep pl) (State.sampling pl (papiSampleStart pl ses.block w)) labels u) :
    Shielded ses (fun i => openedAttr w (ses.fd i)) labels u := by
  induction hrun with
  | nil =>
    refine ⟨switched_start hcpus h, fun i hi r hr => ?_,
      fun _ _ _ hbehind => absurd hbehind not_behindRead_idle, fun _ _ _ _ => rfl⟩
    cases ((h.start pl ses.block).rings i hi).symm.trans hr
    rfl
  | snoc _ hlast ih => exact ih.step hcpus hlast

/-- If the kernel writes for events that are on only, then between handler runs the
record loops were given all that was written to a ring, which is still mapped, before the
last run for it came to its end, and nothing else. -/
theorem armed_delivery (pl : Platform) (a : Answers) (args : Args)
    (episodes : List (World × World)) (w w' : World) (block : ℕ) (labels : List Label) (t : State)
    (hprev : History pl episodes w) (hdistinct : Distinct a pl.cpus)
    (hinit : papiSampleInit pl a args w = .fds block w')
    (hrun : Run (ArmedStep pl) (State.sampling pl (papiSampleStart pl block w')) labels t)
    (hidle : t.handler = none) :
    ∀ i < pl.cpus, ∀ e r, t.world.mmaps i = some e → t.world.rings e.sampleMmap = some r →
      labels.flatMap (givenFor (t.world.currentFd i)) =
        (upToLastReturn (t.world.currentFd i) labels).flatMap (writtenTo e.sampleMmap) := by
  intro i hi e r he hr
  have hstarted := init_started hdistinct (history_registry hprev).2 hinit
  obtain ⟨_, hblock, _⟩ := papiSampleInit_opens hdistinct hinit
  rw [hblock, hstarted.registered.block] at hrun
  have hshielded := run_shielded rfl hstarted hrun
  have hregistered := hshielded.switched.unwound.valid.registered
  cases (hregistered.mmaps i hi).symm.trans he
  have hdrained := run_drained rfl (hstarted.start pl _) hi (run_of_armed hrun) hidle hr
  have hbetween := hshielded.between i hi (Option.isSome_iff_exists.mpr ⟨r, hr⟩)
    (by rw [hidle]; exact not_behindRead_idle)
  rw [hregistered.currentFd hi]
  exact hdrained.given.trans hbetween

/-- A run in which the kernel writes nothing is armed. -/
theorem armed_of_run (h : Run (Step pl) u labels v)
    (hnone : ∀ ring bytes, Label.append ring bytes ∉ labels) : Run (ArmedStep pl) u labels v := by
  induction h with
  | nil => exact Run.nil _
  | snoc _ hlast ih =>
    refine (ih fun ring bytes hl => hnone ring bytes (List.mem_append_left _ hl)).snoc
      ⟨hlast, fun ring bytes r hl _ => ?_⟩
    exact absurd (List.mem_append_right _ (List.mem_singleton.mpr hl.symm)) (hnone ring bytes)

/-- Eight bytes come in while the first event is on, and a signal lets the handler
read them. -/
theorem armed_delivery_eightBytes :
    ∃ w' labels t e, papiSampleInit twoCpus (kernelAnswers false) branchArgs World.initial =
        .fds 1 w' ∧
      Run (ArmedStep twoCpus) (State.sampling twoCpus (papiSampleStart twoCpus 1 w')) labels t ∧
      t.world.currentHead 0 = 8 ∧ t.world.mmaps 0 = some e ∧
      labels.flatMap (givenFor (t.world.currentFd 0)) =
        (upToLastReturn (t.world.currentFd 0) labels).flatMap (writtenTo e.sampleMmap) := by
  obtain ⟨w', hinit⟩ : ∃ w', papiSampleInit twoCpus (kernelAnswers false) branchArgs World.initial =
      .fds 1 w' := ⟨_, rfl⟩
  let waiting := eightBytes (papiSampleStart twoCpus 1 w')
  have hends : ((runHandler twoCpus 2 10
      { waiting with handler := some (Frame.start (waiting.world.currentFd 0)) }).map fun t =>
        (t.handler.isNone, t.world.currentHead 0)) = some (true, 8) := by
    cases hinit
    decide +kernel
  obtain ⟨t, ht, hend⟩ := Option.map_eq_some_iff.mp hends
  obtain ⟨hidle, hhead⟩ := Prod.mk.inj hend
  obtain ⟨labels, hhandler, honly⟩ := signal_run (s := waiting) rfl rfl (by decide) ht
  have hquiet := armed_of_run hhandler fun ring bytes hl => by
    rcases List.mem_cons.mp hl with hsignal | hstatement
    · contradiction
    · obtain ⟨_, _, _, hl⟩ := honly _ hstatement
      contradiction
  have hfirst : ArmedStep twoCpus (State.sampling twoCpus (papiSampleStart twoCpus 1 w'))
      (.append 0 [1, 2, 3, 4, 5, 6, 7, 8]) waiting := by
    refine ⟨eightBytes_step hinit, fun ring bytes r hl hr => ?_⟩
    cases hl
    cases hinit
    cases hr
    decide +kernel
  have hrun := ((Run.nil _).snoc hfirst).append hquiet
  have hstarted := (init_started kernelAnswers_distinct (fun _ _ => rfl) hinit).start twoCpus 1
  have hvalid := (valid_sampling hstarted.registered).run rfl (run_of_armed hrun)
  have hstop : ∀ x, Label.main x ∉ [Label.append 0 [1, 2, 3, 4, 5, 6, 7, 8]] ++
      Label.signal 0 waiting.main :: labels := by
    intro x hx
    simp only [List.cons_append, List.nil_append, List.mem_cons, reduceCtorEq, false_or] at hx
    obtain ⟨_, _, _, hl⟩ := honly _ hx
    contradiction
  obtain ⟨r, hr⟩ := Option.isSome_iff_exists.mp ((run_mapped (run_of_armed hrun) hstop _).trans
    (Option.isSome_iff_exists.mpr ⟨_, hstarted.rings 0 (by decide)⟩))
  have hentry := hvalid.registered.mmaps 0 (by decide)
  exact ⟨w', _, t, _, hinit, hrun, hhead, hentry,
    armed_delivery twoCpus (kernelAnswers false) branchArgs [] World.initial w' 1 _ t History.start
      kernelAnswers_distinct hinit hrun (Option.isNone_iff_eq_none.mp hidle) 0 (by decide)
        _ r hentry hr⟩

end PapiSample.ArmedDelivery
