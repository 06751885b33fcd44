import Mathlib.Data.List.DropRight
import PapiSample.Lossless
import PapiSample.Teardown

/-!
What a session leaves unread. PAPI_sample_stop reads no ring, so when it unmaps a
ring the last handler run for its descriptor has decided what was delivered: the
bytes that the kernel had written when the run read `data_head`.
-/
namespace PapiSample.Drain

open Bytes Delivery MmapRead Process EventSetup SampleInit OpenedEvents Handler Registry HandlerRuns
  RingReads StreamSimulation Sessions Lossless Teardown Transition

def readsHead (fd : ℤ) : Label → Bool
  | .statement d .readHead _ => d = fd
  | _ => false

def upToLastRead (fd : ℤ) (labels : List Label) : List Label :=
  labels.rdropWhile fun l => !readsHead fd l

def sinceLastRead (fd : ℤ) (labels : List Label) : List Label :=
  labels.rtakeWhile fun l => !readsHead fd l

theorem flatMap_lastRead {α : Type} (fd : ℤ) (labels : List Label) (g : Label → List α) :
    labels.flatMap g =
      (upToLastRead fd labels).flatMap g ++ (sinceLastRead fd labels).flatMap g := by
  rw [← List.flatMap_append, upToLastRead, sinceLastRead, List.rdropWhile_append_rtakeWhile]

/-- The statements at which a handler run has read `data_head` and not yet stored it
in `*prev_head`. -/
def Pc.hasHead : Pc → Bool
  | .copyToEnd | .copyFromStart | .recordLoop | .clear | .storeTail | .storePrevHead => true
  | _ => false

def position (ses : Session) (i : ℕ) (w : World) : Option Frame → ℤ
  | some f =>
    if f.fd = ses.fd i ∧ Pc.hasHead f.pc = true then f.head else w.heads ses.block i
  | none => w.heads ses.block i

variable {pl : Platform} {ses : Session} {i : ℕ} {f : Frame} {w w' : World} {next : Next}

/-- A run for another descriptor has no part in it. -/
theorem position_other (w : World) {h : Option Frame} (hne : ∀ f, h = some f → f.fd ≠ ses.fd i) :
    position ses i w h = w.heads ses.block i := by
  cases h with
  | none => rfl
  | some f => exact if_neg fun hf => hne f rfl hf.1

theorem position_does (hf : FrameOf ses w i f) (h : Does pl ses i f w w' next)
    (hpc : f.pc ≠ .readHead) :
    position ses i w' next.frame = position ses i w (some f) := by
  cases h with
  | unmapped hread => exact absurd hread hpc
  | readHead _ hread => exact absurd hread hpc
  | storePrevHead hstore =>
    simp [position, hf.fd, hstore, Next.frame, Frame.goto, Pc.hasHead, setHead, Session.slot]
  | _ => simp_all [position, hf.fd, Next.frame, Frame.goto, Pc.hasHead, World.setEnabled]

theorem position_readHead {r : Ring} (hf : FrameOf ses w i f) (h : Does pl ses i f w w' next)
    (hpc : f.pc = .readHead) (hr : w.rings (ses.ring i) = some r) :
    position ses i w' next.frame = readHead r.mapping := by
  cases h with
  | unmapped _ hnone =>
    rw [hr] at hnone
    contradiction
  | readHead r' _ hr' =>
    cases hr.symm.trans hr'
    simp [position, hf.fd, Next.frame, Pc.hasHead]
  | _ => simp_all

/-- A ring that is mapped after a step was mapped before it. -/
theorem mapped_before {u v : State} {l : Label} (h : Step pl u l v) {ring : ℕ} {r : Ring}
    (hr : v.world.rings ring = some r) : ∃ r₀, u.world.rings ring = some r₀ := by
  by_cases hl : ∀ x, l ≠ .main x
  · exact Option.isSome_iff_exists.mp
      ((step_mapped h hl ring).symm.trans (Option.isSome_iff_exists.mpr ⟨r, hr⟩))
  · cases h with
    | main => exact ⟨r, perform_rings hr⟩
    | _ => exact absurd nofun hl

/-- Only the read of `data_head` moves the position. -/
theorem position_step {u v : State} {l : Label} (hvalid : Valid ses u)
    (hi : i < ses.cpus) (h : Step pl u l v) (hl : readsHead (ses.fd i) l = false) :
    position ses i v.world v.handler = position ses i u.world u.handler := by
  cases h with
  | append => rfl
  | signal k _ hidle _ =>
    rw [hidle]
    simp [position, Frame.start, Pc.hasHead]
  | @statement f w next fuel hf hstep =>
    obtain ⟨j, hframe⟩ := hvalid.handler f hf
    have hdoes := statement_does hvalid.registered hframe hstep
    rw [resume_world, resume_handler, hf]
    by_cases heq : i = j
    · subst heq
      apply position_does hframe hdoes
      intro hpc
      rw [hpc, hframe.fd] at hl
      simp [readsHead] at hl
    · have hne : ses.fd j ≠ ses.fd i := fun hfd => heq (ses.distinct i j hi hframe.cpu hfd.symm)
      rw [position_other w fun g hg => by rw [(hframe.does hdoes hg).fd]; exact hne,
        position_other u.world fun g hg => by cases hg; rw [hframe.fd]; exact hne]
      exact (statement_others hvalid.registered hframe (statement_framed hstep) heq).2
  | main _ hidle _ =>
    rw [hidle]
    exact congrFun (congrFun (perform_heads ..) _) _

theorem position_read {u v : State} {l : Label} (hvalid : Valid ses u) (hi : i < ses.cpus)
    (h : Step pl u l v) (hl : readsHead (ses.fd i) l = true) {r : Ring}
    (hr : u.world.rings (ses.ring i) = some r) :
    position ses i v.world v.handler = readHead r.mapping := by
  cases h with
  | @statement f w next fuel hf hstep =>
    obtain ⟨j, hframe⟩ := hvalid.handler f hf
    have hpc : f.pc = .readHead ∧ f.fd = ses.fd i := by
      cases hpc : f.pc with
      | readHead =>
        rw [hpc] at hl
        exact ⟨rfl, by simpa [readsHead] using hl⟩
      | _ =>
        rw [hpc] at hl
        contradiction
    obtain rfl := ses.distinct j i hframe.cpu hi (hframe.fd.symm.trans hpc.2)
    rw [resume_world, resume_handler]
    exact position_readHead hframe (statement_does hvalid.registered hframe hstep) hpc.1 hr
  | _ => contradiction

theorem upToLastRead_read {fd : ℤ} {labels : List Label} {l : Label} (h : readsHead fd l = true) :
    upToLastRead fd (labels ++ [l]) = labels ++ [l] :=
  List.rdropWhile_concat_neg _ _ _ (by simp [h])

theorem upToLastRead_other {fd : ℤ} {labels : List Label} {l : Label}
    (h : readsHead fd l = false) : upToLastRead fd (labels ++ [l]) = upToLastRead fd labels :=
  List.rdropWhile_concat_pos _ _ _ (by simp [h])

theorem upToLastRead_append (fd : ℤ) (earlier later : List Label) :
    upToLastRead fd (earlier ++ later) = earlier ++ upToLastRead fd later ∨
      upToLastRead fd later = [] ∧
        upToLastRead fd (earlier ++ later) = upToLastRead fd earlier := by
  induction later using List.reverseRecOn with
  | nil => exact Or.inr ⟨rfl, by rw [List.append_nil]⟩
  | append_singleton later l ih =>
    rw [← List.append_assoc]
    cases hread : readsHead fd l with
    | true =>
      rw [upToLastRead_read hread, upToLastRead_read hread, List.append_assoc]
      exact Or.inl rfl
    | false =>
      rw [upToLastRead_other hread, upToLastRead_other hread]
      exact ih

theorem sinceLastRead_read {fd : ℤ} {labels : List Label} {l : Label} (h : readsHead fd l = true) :
    sinceLastRead fd (labels ++ [l]) = [] :=
  List.rtakeWhile_concat_neg _ _ _ (by simp [h])

theorem sinceLastRead_other {fd : ℤ} {labels : List Label} {l : Label}
    (h : readsHead fd l = false) :
    sinceLastRead fd (labels ++ [l]) = sinceLastRead fd labels ++ [l] :=
  List.rtakeWhile_concat_pos _ _ _ (by simp [h])

/-- If nothing was written after the last of the earlier reads, what was there at the last
of all is what was written before, and what was there later. -/
theorem flatMap_upToLastRead {fd : ℤ} {ring : ℕ} {earlier : List Label} (later : List Label)
    (h : (sinceLastRead fd earlier).flatMap (writtenTo ring) = []) :
    (upToLastRead fd (earlier ++ later)).flatMap (writtenTo ring) =
      earlier.flatMap (writtenTo ring) ++ (upToLastRead fd later).flatMap (writtenTo ring) := by
  rcases upToLastRead_append fd earlier later with hall | ⟨hnone, hall⟩
  · rw [hall, List.flatMap_append]
  · rw [hall, hnone, flatMap_lastRead fd earlier, h]
    simp

theorem writtenTo_read {fd : ℤ} {ring : ℕ} {l : Label} (h : readsHead fd l = true) :
    writtenTo ring l = [] := by
  cases l with
  | append => contradiction
  | _ => rfl

/-- The position is the number of bytes that were there at the last read. -/
theorem run_position (hcpus : pl.cpus = ses.cpus) (h : Started ses w) (hi : i < ses.cpus)
    {labels : List Label} {t : State} (hrun : Run (Step pl) (State.sampling pl w) labels t)
    {r : Ring} (hr : t.world.rings (ses.ring i) = some r) :
    position ses i t.world t.handler =
      ((upToLastRead (ses.fd i) labels).flatMap (writtenTo (ses.ring i))).length := by
  induction hrun generalizing r with
  | nil => exact h.heads i hi
  | @snoc u v labels l hprev hlast ih =>
    obtain ⟨r₀, hr₀⟩ := mapped_before hlast hr
    have hvalid := (valid_sampling h.registered).run hcpus hprev
    cases hread : readsHead (ses.fd i) l with
    | false =>
      rw [upToLastRead_other hread, position_step hvalid hi hlast hread]
      exact ih hr₀
    | true =>
      rw [upToLastRead_read hread]
      obtain ⟨st, hproduced, _, hinv⟩ := run_ring hcpus h hprev hi hr₀
      rw [position_read hvalid hi hlast hread hr₀, readHead_eq hinv.tracks, hproduced,
        List.flatMap_append, List.flatMap_singleton, writtenTo_read hread, List.append_nil]

/-- What a session leaves of a ring. -/
structure Drained (labels : List Label) (ring : ℕ) (fd prevHead : ℤ) (m : Mapping) : Prop where
  atLastRead : prevHead = ((upToLastRead fd labels).flatMap (writtenTo ring)).length
  given : labels.flatMap (givenFor fd) = (upToLastRead fd labels).flatMap (writtenTo ring)
  unread : prevHead = m.dataHead ↔ (sinceLastRead fd labels).flatMap (writtenTo ring) = []

theorem run_drained (hcpus : pl.cpus = ses.cpus) (h : Started ses w) (hi : i < ses.cpus)
    {labels : List Label} {t : State} (hrun : Run (Step pl) (State.sampling pl w) labels t)
    (hidle : t.handler = none) {r : Ring} (hr : t.world.rings (ses.ring i) = some r) :
    Drained labels (ses.ring i) (ses.fd i) (t.world.heads ses.block i) r.mapping := by
  have hposition := run_position hcpus h hi hrun hr
  rw [hidle, position] at hposition
  have hdelivered := run_delivered hcpus h hrun hidle hi hr
  have hwritten := flatMap_lastRead (ses.fd i) labels (writtenTo (ses.ring i))
  refine ⟨hposition, ?_, ?_⟩
  · rw [hdelivered.given, hposition, Int.toNat_natCast, hwritten, List.take_left]
  · have hlength := congrArg List.length hwritten
    rw [List.length_append, ← hdelivered.written] at hlength
    rw [hposition, ← List.length_eq_zero_iff]
    omega

/-- When PAPI_sample_stop comes to unmap a ring, the record loop was given what the
kernel wrote up to the last read of `data_head`, and everything only if nothing was
written since. -/
theorem stop_drained (pl : Platform) (a : Answers) (args : Args)
    (episodes : List (World × World)) (w w' : World) (block : ℕ) (labels : List Label) (t : State)
    (hprev : History pl episodes w) (hdistinct : Distinct a pl.cpus)
    (hinit : papiSampleInit pl a args w = .fds block w')
    (hrun : Run (Step pl) (State.sampling pl (papiSampleStart pl block w')) labels t)
    (hidle : t.handler = none) (i : ℕ) (hi : i < pl.cpus) (rest : List StopStep)
    (hunmap : t.main = .unmap i :: rest) :
    ∃ e r, t.world.mmaps i = some e ∧ t.world.rings e.sampleMmap = some r ∧
      Drained labels e.sampleMmap (t.world.currentFd i) (t.world.currentHead i) r.mapping := by
  have hstarted := (init_started hdistinct (history_registry hprev).2 hinit).start pl block
  have hunwound := (unwound_sampling hstarted rfl).run rfl hrun
  have hregistered := hunwound.valid.registered
  have hmem : StopStep.unmap i ∈ t.main := by
    rw [hunmap]
    exact List.mem_cons_self
  obtain ⟨r, hr⟩ := Option.isSome_iff_exists.mp ((hunwound.held (.unmap i) hi).mpr hmem)
  refine ⟨_, r, hregistered.mmaps i hi, hr, ?_⟩
  rw [hregistered.currentFd hi, World.currentHead, hregistered.block]
  exact run_drained rfl hstarted hi hrun hidle hr

/-- Eight bytes that come while the event is enabled, and no signal. -/
theorem unread_run :
    ∃ w' labels t, papiSampleInit twoCpus (kernelAnswers false) branchArgs World.initial =
        .fds 1 w' ∧
      ((papiSampleStart twoCpus 1 w').files 3).map File.enabled = some true ∧
      Run (Step twoCpus) (State.sampling twoCpus (papiSampleStart twoCpus 1 w')) labels t ∧
      t.handler = none ∧ t.main = .unmap 0 :: (stopSteps 2 2).drop 7 ∧
      t.world.currentHead 0 = 0 ∧ (t.world.rings 0).map (·.mapping.dataHead) = some 8 := by
  obtain ⟨w', hinit⟩ : ∃ w', papiSampleInit twoCpus (kernelAnswers false) branchArgs World.initial =
      .fds 1 w' := ⟨_, rfl⟩
  have hrun := (Run.nil _).snoc (eightBytes_step hinit)
  have hstop := stop_run twoCpus ((stopSteps 2 2).take 6) ((stopSteps 2 2).drop 6)
    (eightBytes (papiSampleStart twoCpus 1 w')).world
  cases hinit
  exact ⟨_, _, _, rfl, by decide +kernel, hrun.append hstop, rfl, rfl, by decide +kernel,
    by decide +kernel⟩

/-- They are in the ring when it is unmapped, and `*prev_head` is still zero. -/
theorem unread_lost :
    ∃ w' labels t r, papiSampleInit twoCpus (kernelAnswers false) branchArgs World.initial =
        .fds 1 w' ∧
      ((papiSampleStart twoCpus 1 w').files 3).map File.enabled = some true ∧
      Run (Step twoCpus) (State.sampling twoCpus (papiSampleStart twoCpus 1 w')) labels t ∧
      t.handler = none ∧ t.main = .unmap 0 :: (stopSteps 2 2).drop 7 ∧
      t.world.rings 0 = some r ∧ t.world.currentHead 0 ≠ r.mapping.dataHead := by
  obtain ⟨w', labels, t, hinit, henabled, hrun, hidle, hunmap, hhead, hdata⟩ := unread_run
  obtain ⟨r, hr, hlength⟩ := Option.map_eq_some_iff.mp hdata
  refine ⟨w', labels, t, r, hinit, henabled, hrun, hidle, hunmap, hr, ?_⟩
  rw [hhead, hlength]
  decide

/-- Nothing of them was delivered. -/
theorem stop_drained_unread :
    ∃ w' labels t e r, papiSampleInit twoCpus (kernelAnswers false) branchArgs World.initial =
        .fds 1 w' ∧
      Run (Step twoCpus) (State.sampling twoCpus (papiSampleStart twoCpus 1 w')) labels t ∧
      t.world.mmaps 0 = some e ∧ t.world.rings e.sampleMmap = some r ∧
      Drained labels e.sampleMmap (t.world.currentFd 0) (t.world.currentHead 0) r.mapping ∧
      labels.flatMap (givenFor (t.world.currentFd 0)) = [] := by
  obtain ⟨w', labels, t, hinit, _, hrun, hidle, hunmap, hhead, _⟩ := unread_run
  obtain ⟨e, r, he, hr, hdrained⟩ := stop_drained twoCpus (kernelAnswers false) branchArgs []
    World.initial w' 1 labels t History.start kernelAnswers_distinct hinit hrun hidle 0
      (by decide) _ hunmap
  refine ⟨w', labels, t, e, r, hinit, hrun, he, hr, hdrained, ?_⟩
  have hnone := hdrained.atLastRead
  rw [hhead] at hnone
  rw [hdrained.given]
  exact List.eq_nil_of_length_eq_zero (by omega)

end PapiSample.Drain
