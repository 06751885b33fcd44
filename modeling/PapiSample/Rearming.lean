import PapiSample.Drain
import PapiSample.LateSignals

/-!
When the events of a session are on, as far as the calls of the program go: ENABLE and
REFRESH turn one on, DISABLE turns it off. The handler turns the event off in its
first statement and on again in its last one, so until PAPI_sample_stop disables it
an event is on exactly while no run for it is at work.
-/
namespace PapiSample.Rearming

open Bytes MmapRead Process SampleInit OpenedEvents Handler Registry HandlerRuns RingReads Teardown
  LateSignals Sessions Lossless Transition

variable {pl : Platform} {ses : Session} {i : ℕ} {f : Frame} {w w' : World} {next : Next}

def AtWork (ses : Session) (i : ℕ) (h : Option Frame) : Prop :=
  ∃ f, h = some f ∧ f.fd = ses.fd i ∧ f.pc ≠ .disable

theorem not_atWork_idle : ¬ AtWork ses i none := by
  rintro ⟨_, hf, _⟩
  contradiction

def Counts (w : World) (fd : ℤ) (on : Bool) : Prop :=
  ∀ file, w.files fd = some file → file.enabled = on

def HasAttr (w : World) (fd : ℤ) (attr : Attr) : Prop :=
  ∀ file, w.files fd = some file → file.attr = attr

theorem setEnabled_counts (w : World) (fd : ℤ) (on : Bool) : Counts (w.setEnabled fd on) fd on := by
  intro file hfile
  simp only [World.setEnabled, Function.update_self] at hfile
  obtain ⟨old, _, rfl⟩ := Option.map_eq_some_iff.mp hfile
  rfl

theorem setEnabled_other (w : World) {fd fd' : ℤ} (on : Bool) (hne : fd' ≠ fd) :
    (w.setEnabled fd on).files fd' = w.files fd' := Function.update_of_ne hne _ _

/-- An event keeps its attributes when it is turned on or off. -/
theorem HasAttr.setEnabled {fd : ℤ} {attr : Attr} (h : HasAttr w fd attr) (fd' : ℤ) (on : Bool) :
    HasAttr (w.setEnabled fd' on) fd attr := by
  intro file hfile
  by_cases heq : fd = fd'
  · subst heq
    simp only [World.setEnabled, Function.update_self] at hfile
    obtain ⟨old, hold, rfl⟩ := Option.map_eq_some_iff.mp hfile
    exact h old hold
  · rw [setEnabled_other w on heq] at hfile
    exact h file hfile

@[simp] theorem access_files (w : World) (ok : Bool) (fault : Fault) :
    (w.access ok fault).files = w.files := by
  cases ok <;> rfl

/-- What the statements of a run do to the events. -/
theorem does_files (h : Does pl ses i f w w' next) :
    (f.pc = .disable ∧ w'.files = (w.setEnabled f.fd false).files) ∨
      (f.pc = .refresh ∧ next = .returned ∧ w'.files = (w.setEnabled f.fd true).files) ∨
      (f.pc ≠ .disable ∧ f.pc ≠ .refresh ∧ w'.files = w.files) := by
  cases h with
  | disable hpc => exact Or.inl ⟨hpc, rfl⟩
  | refresh hpc => exact Or.inr (Or.inl ⟨hpc, rfl, by simp [World.setEnabled]⟩)
  | unmapped hpc | lookup hpc | readHead _ hpc | copyToEnd _ hpc | copyFromStart _ hpc
  | recordLoop _ hpc | clear hpc | storeTail _ hpc | storePrevHead hpc =>
    refine Or.inr (Or.inr ⟨?_, ?_, ?_⟩)
    · rw [hpc]
      decide
    · rw [hpc]
      decide
    · simp [World.blame, setData, setMapping, setHead]

/-- A run stays at work until it returns, or misses its ring. -/
theorem does_atWork (hf : FrameOf ses w i f) (h : Does pl ses i f w w' next) :
    AtWork ses i next.frame ∨ f.pc = .refresh ∨ w.rings (ses.ring i) = none := by
  cases h with
  | unmapped _ hnone => exact Or.inr (Or.inr hnone)
  | refresh hpc => exact Or.inr (Or.inl hpc)
  | _ => exact Or.inl ⟨_, rfl, hf.fd, by simp [Frame.goto]⟩

/-- The events of a session, each with the attributes it was opened with. -/
structure Switched (ses : Session) (attr : ℕ → Attr) (u : State) : Prop where
  unwound : Unwound ses u
  attr : ∀ i < ses.cpus, HasAttr u.world (ses.fd i) (attr i)
  off : ∀ i < ses.cpus, AtWork ses i u.handler → Counts u.world (ses.fd i) false
  on : ∀ i < ses.cpus, .disable i ∈ u.main → ¬ AtWork ses i u.handler →
    Counts u.world (ses.fd i) true

variable {attr : ℕ → Attr} {u v : State} {l : Label}

theorem Switched.signal (h : Switched ses attr u) (hidle : u.handler = none) {k : ℕ}
    (hunwound : Unwound ses { u with handler := some (Frame.start (u.world.currentFd k)) }) :
    Switched ses attr { u with handler := some (Frame.start (u.world.currentFd k)) } := by
  refine ⟨hunwound, h.attr, fun i _ hwork => ?_, fun i hi hmem _ => ?_⟩
  · obtain ⟨f, hf, _, hpc⟩ := hwork
    cases hf
    exact absurd rfl hpc
  · exact h.on i hi hmem (by rw [hidle]; exact not_atWork_idle)

theorem Switched.statement (h : Switched ses attr u) {fuel : ℕ} (hf : u.handler = some f)
    (hstep : statement pl fuel f u.world = some (w, next))
    (hunwound : Unwound ses (resume u w next)) : Switched ses attr (resume u w next) := by
  obtain ⟨j, hframe⟩ := h.unwound.valid.handler f hf
  have hdoes := statement_does h.unwound.valid.registered hframe hstep
  have hfiles := does_files hdoes
  -- a run for another processor leaves this one's event alone
  have hother : ∀ i < ses.cpus, i ≠ j → w.files (ses.fd i) = u.world.files (ses.fd i) ∧
      ¬ AtWork ses i u.handler ∧ ¬ AtWork ses i next.frame := by
    intro i hi hne
    have hfd : ses.fd i ≠ f.fd := fun heq =>
      hne (ses.distinct i j hi hframe.cpu (heq.trans hframe.fd))
    refine ⟨?_, ?_, ?_⟩
    · rcases hfiles with ⟨_, hw⟩ | ⟨_, _, hw⟩ | ⟨_, _, hw⟩
      · rw [hw, setEnabled_other _ _ hfd]
      · rw [hw, setEnabled_other _ _ hfd]
      · rw [hw]
    · rintro ⟨g, hg, hgfd, _⟩
      cases hf.symm.trans hg
      exact hfd hgfd.symm
    · rintro ⟨g, hg, hgfd, _⟩
      exact hfd (hgfd.symm.trans ((hframe.does hdoes hg).fd.trans hframe.fd.symm))
  constructor
  · exact hunwound
  · intro i hi
    rw [resume_world]
    intro file hfile
    rcases hfiles with ⟨_, hw⟩ | ⟨_, _, hw⟩ | ⟨_, _, hw⟩
    · rw [hw] at hfile
      exact (h.attr i hi).setEnabled f.fd false file hfile
    · rw [hw] at hfile
      exact (h.attr i hi).setEnabled f.fd true file hfile
    · rw [hw] at hfile
      exact h.attr i hi file hfile
  · intro i hi hwork
    rw [resume_handler] at hwork
    rw [resume_world]
    intro file hfile
    by_cases hij : i = j
    · subst hij
      rcases hfiles with ⟨_, hw⟩ | ⟨_, rfl, _⟩ | ⟨hdisable, _, hw⟩
      · rw [hw, ← hframe.fd] at hfile
        exact setEnabled_counts _ _ _ file hfile
      · exact absurd hwork not_atWork_idle
      · rw [hw] at hfile
        exact h.off i hi ⟨f, hf, hframe.fd, hdisable⟩ file hfile
    · exact absurd hwork (hother i hi hij).2.2
  · intro i hi hmem hidle
    rw [resume_main] at hmem
    rw [resume_handler] at hidle
    rw [resume_world]
    intro file hfile
    by_cases hij : i = j
    · subst hij
      rcases does_atWork hframe hdoes with hwork | hpc | hnone
      · exact absurd hwork hidle
      · rcases hfiles with ⟨hdisable, _⟩ | ⟨_, _, hw⟩ | ⟨_, hrefresh, _⟩
        · rw [hpc] at hdisable
          contradiction
        · rw [hw, ← hframe.fd] at hfile
          exact setEnabled_counts _ _ _ file hfile
        · exact absurd hpc hrefresh
      · have hunmap := (closing_mem h.unwound.suffix hi h.unwound.valid.registered.numMaps hmem).2
        have hring := (h.unwound.held (.unmap i) hi).mpr hunmap
        rw [Held, hnone] at hring
        contradiction
    · rw [(hother i hi hij).1] at hfile
      exact h.on i hi hmem (hother i hi hij).2.1 file hfile

/-- A statement of PAPI_sample_stop. -/
theorem Switched.main (h : Switched ses attr u) {t : StopStep} {rest : List StopStep}
    (hidle : u.handler = none) (hmain : u.main = t :: rest)
    (hunwound : Unwound ses { u with world := perform u.world t, main := rest }) :
    Switched ses attr { u with world := perform u.world t, main := rest } := by
  have hreg := h.unwound.valid.registered
  have hsuffix := h.unwound.suffix
  rw [hmain] at hsuffix
  have hnodup := (stopSteps_nodup ..).sublist hsuffix.sublist
  have hcpu := mem_stopSteps.mp (hsuffix.subset List.mem_cons_self)
  have hstill : ∀ i, StopStep.disable i ∈ rest → StopStep.disable i ∈ u.main := fun i hi => by
    rw [hmain]
    exact List.mem_cons_of_mem t hi
  have hon : ∀ i < ses.cpus, .disable i ∈ rest → Counts u.world (ses.fd i) true :=
    fun i hi hmem => h.on i hi (hstill i hmem) (by rw [hidle]; exact not_atWork_idle)
  have hoff : ∀ i < ses.cpus, AtWork ses i u.handler →
      Counts (perform u.world t) (ses.fd i) false := fun i _ hwork => by
    rw [hidle] at hwork
    exact absurd hwork not_atWork_idle
  cases t with
  | refresh k =>
    refine ⟨hunwound, fun i hi => (h.attr i hi).setEnabled _ _, hoff, fun i hi hmem _ => ?_⟩
    by_cases heq : ses.fd i = u.world.currentFd k
    · simp only [heq]
      exact setEnabled_counts _ _ _
    · intro file hfile
      rw [perform, setEnabled_other _ _ heq] at hfile
      exact hon i hi hmem file hfile
  | disable k =>
    refine ⟨hunwound, fun i hi => (h.attr i hi).setEnabled (u.world.currentFd k) false, hoff,
      fun i hi hmem _ => ?_⟩
    have hne : ses.fd i ≠ u.world.currentFd k := fun heq => by
      rw [hreg.currentFd hcpu] at heq
      obtain rfl := ses.distinct i k hi hcpu heq
      exact (List.nodup_cons.mp hnodup).1 hmem
    intro file hfile
    exact hon i hi hmem file ((setEnabled_other u.world false hne).symm.trans hfile)
  | close k =>
    have hsame : ∀ fd file, (perform u.world (.close k)).files fd = some file →
        u.world.files fd = some file := by
      intro fd file hfile
      by_cases heq : fd = u.world.currentFd k
      · simp only [perform, heq, Function.update_self] at hfile
        contradiction
      · simpa only [perform, Function.update_of_ne heq] using hfile
    exact ⟨hunwound, fun i hi file hfile => h.attr i hi file (hsame _ _ hfile), hoff,
      fun i hi hmem _ file hfile => hon i hi hmem file (hsame _ _ hfile)⟩
  | unmap k =>
    have hsame : (perform u.world (.unmap k)).files = u.world.files := by
      simp only [perform]
      split <;> rfl
    refine ⟨hunwound, fun i hi file hfile => ?_, hoff, fun i hi hmem _ file hfile => ?_⟩
    · exact h.attr i hi file (by rw [← hsame]; exact hfile)
    · exact hon i hi hmem file (by rw [← hsame]; exact hfile)
  | closeLog | freeFds | freeHeads | freeData =>
    exact ⟨hunwound, h.attr, hoff, fun i hi hmem _ => hon i hi hmem⟩

theorem Switched.step (hcpus : pl.cpus = ses.cpus) (h : Switched ses attr u)
    (hstep : Step pl u l v) : Switched ses attr v := by
  have hunwound := h.unwound.step hcpus hstep
  cases hstep with
  | append => exact ⟨hunwound, h.attr, h.off, h.on⟩
  | signal k _ hidle _ => exact h.signal hidle hunwound
  | statement fuel hf hstatement => exact h.statement hf hstatement hunwound
  | main _ hidle hmain => exact h.main hidle hmain hunwound

theorem enabled_attr {fd : ℤ} {attr : Attr} (cpus : List ℕ) (block : ℕ) (h : HasAttr w fd attr) :
    HasAttr (cpus.foldl (fun w i => w.setEnabled (w.fds block i) true) w) fd attr := by
  induction cpus generalizing w with
  | nil => exact h
  | cons i rest ih => exact ih (h.setEnabled _ _)

/-- PAPI_sample_start turns on every event on its way. -/
theorem enabled_counts {fd : ℤ} (cpus : List ℕ) (block : ℕ)
    (h : Counts w fd true ∨ ∃ i ∈ cpus, w.fds block i = fd) :
    Counts (cpus.foldl (fun w i => w.setEnabled (w.fds block i) true) w) fd true := by
  induction cpus generalizing w with
  | nil =>
    rcases h with h | ⟨_, hi, _⟩
    · exact h
    · exact absurd hi List.not_mem_nil
  | cons i rest ih =>
    rw [List.foldl_cons]
    apply ih
    by_cases heq : fd = w.fds block i
    · left
      rw [heq]
      exact setEnabled_counts _ _ _
    · rcases h with h | ⟨k, hk, hfd⟩
      · left
        intro file hfile
        rw [setEnabled_other _ _ heq] at hfile
        exact h file hfile
      · rcases List.mem_cons.mp hk with rfl | hrest
        · exact absurd hfd.symm heq
        · exact Or.inr ⟨k, hrest, hfd⟩

def openedAttr (w : World) (fd : ℤ) : Attr := ((w.files fd).map File.attr).getD Attr.zero

theorem switched_start (hcpus : pl.cpus = ses.cpus) (h : Started ses w) :
    Switched ses (fun i => openedAttr w (ses.fd i))
      (State.sampling pl (papiSampleStart pl ses.block w)) where
  unwound := unwound_sampling (h.start pl ses.block) hcpus
  attr := fun i _ => by
    apply enabled_attr
    intro file hfile
    rw [openedAttr, hfile]
    rfl
  off := fun _ _ hwork => absurd hwork not_atWork_idle
  on := fun i hi _ _ => by
    apply enabled_counts
    exact Or.inr ⟨i, List.mem_range.mpr (by omega), h.registered.fds i hi⟩

theorem run_switched (hcpus : pl.cpus = ses.cpus) (h : Started ses w) {labels : List Label}
    (hrun : Run (Step pl) (State.sampling pl (papiSampleStart pl ses.block w)) labels u) :
    Switched ses (fun i => openedAttr w (ses.fd i)) u :=
  hrun.invariant (Switched ses _) (switched_start hcpus h) fun _ _ _ _ hv hstep =>
    hv.step hcpus hstep

/-- Throughout a session every event that is open has the attributes it was opened with,
and until PAPI_sample_stop disables it, it is on exactly while no handler run for it is
at work. -/
theorem events_count (pl : Platform) (a : Answers) (args : Args) (episodes : List (World × World))
    (w w' : World) (block : ℕ) (labels : List Label) (t : State)
    (hprev : History pl episodes w) (hdistinct : Distinct a pl.cpus)
    (hinit : papiSampleInit pl a args w = .fds block w')
    (hrun : Run (Step pl) (State.sampling pl (papiSampleStart pl block w')) labels t) :
    ∀ i < pl.cpus,
      (.close i ∈ t.main ↔ ∃ file, t.world.files (t.world.currentFd i) = some file) ∧
      (∀ file, t.world.files (t.world.currentFd i) = some file →
        (w'.files (w'.currentFd i)).map File.attr = some file.attr) ∧
      (.disable i ∈ t.main → ∃ file, t.world.files (t.world.currentFd i) = some file ∧
        (file.enabled = true ↔ ¬ ∃ f, t.handler = some f ∧ f.fd = t.world.currentFd i ∧
          f.pc ≠ .disable)) := by
  intro i hi
  have hstarted := init_started hdistinct (history_registry hprev).2 hinit
  obtain ⟨_, hblock, _⟩ := papiSampleInit_opens hdistinct hinit
  rw [hblock, hstarted.registered.block] at hrun
  have hswitched := run_switched rfl hstarted hrun
  have hfd := hswitched.unwound.valid.registered.currentFd hi
  have hopen := hswitched.unwound.held (.close i) hi
  rw [Held, Option.isSome_iff_exists] at hopen
  rw [hfd, hstarted.registered.currentFd hi]
  refine ⟨hopen.symm, fun file hfile => ?_, fun hdisable => ?_⟩
  · obtain ⟨f, hf⟩ := Option.isSome_iff_exists.mp (hstarted.isOpen i hi)
    have hattr := hswitched.attr i hi file hfile
    rw [openedAttr, hf] at hattr
    rw [hf, hattr]
    rfl
  · have hnum := hswitched.unwound.valid.registered.numMaps
    have hclose := (closing_mem hswitched.unwound.suffix hi hnum hdisable).1
    obtain ⟨file, hfile⟩ := hopen.mpr hclose
    refine ⟨file, hfile, fun hon hwork => ?_, fun hwork =>
      hswitched.on i hi hdisable hwork file hfile⟩
    rw [hswitched.off i hi hwork file hfile] at hon
    contradiction

/-- In the session in which a signal lets the handler read eight bytes, the first event
is on again when the run is over. -/
theorem events_count_eightBytes :
    ∃ w' labels t file, papiSampleInit twoCpus (kernelAnswers false) branchArgs World.initial =
        .fds 1 w' ∧
      Run (Step twoCpus) (State.sampling twoCpus (papiSampleStart twoCpus 1 w')) labels t ∧
      t.world.currentHead 0 = 8 ∧ t.world.files (t.world.currentFd 0) = some file ∧
      file.enabled = true := by
  obtain ⟨w', labels, t, hinit, hrun, hstop, hidle, hhead⟩ := eightBytes_run
  have hmain : t.main = stopSteps 2 w'.numMaps := by
    refine hrun.invariant (fun u => u.main = stopSteps 2 w'.numMaps) ?_ fun u l v hl hu hstep => ?_
    · cases hinit
      rfl
    · exact (step_main hstep fun x hx => hstop x (hx ▸ hl)).trans hu
  obtain ⟨file, hfile, hon⟩ := (events_count twoCpus (kernelAnswers false) branchArgs []
    World.initial w' 1 labels t History.start kernelAnswers_distinct hinit hrun 0 (by decide)).2.2
    (by rw [hmain]; exact mem_stopSteps.mpr (show 0 < 2 by decide))
  refine ⟨w', labels, t, file, hinit, hrun, hhead, hfile, hon.mpr ?_⟩
  rintro ⟨f, hf, _⟩
  exact absurd hf (idle_ne hidle)

end PapiSample.Rearming
