import PapiSample.SessionLog

/-!
A signal is enough to catch up: when the handler run that it starts comes to its end,
and the kernel has written nothing meanwhile, the log has all records of the ring.
-/
namespace PapiSample.CatchUp

open ParseRecord Report Process SampleInit OpenedEvents Handler Registry HandlerRuns Sessions
  Lossless Drain HandlerProgress SessionLog RecordDecoding Transition FollowedStreams RecordLog

variable {pl : Platform} {ses : Session} {c : Config} {R : Type}

def HasRead (fd : ℤ) (labels : List Label) (s : State) : Prop :=
  (∃ l ∈ labels, readsHead fd l = true) ∨
    ∃ f, s.handler = some f ∧ f.fd = fd ∧ 8 ≤ statementsFrom f.pc

/-- A run of statements that starts with a signal, with the ring mapped. -/
theorem statements_read (hcpus : pl.cpus = ses.cpus) {i : ℕ} (hi : i < ses.cpus) {s t : State}
    {labels : List Label} (hvalid : Valid ses s)
    (hstart : s.handler = some (Frame.start (ses.fd i)))
    (hmapped : (s.world.rings (ses.ring i)).isSome = true) (hrun : Run (Step pl) s labels t)
    (honly : OnlyStatements labels) : HasRead (ses.fd i) labels t := by
  induction hrun with
  | nil =>
    refine Or.inr ⟨_, hstart, rfl, ?_⟩
    show 8 ≤ statementsFrom .disable
    decide
  | @snoc u v labels l hprev hlast ih =>
    have hbefore : OnlyStatements labels := fun l hl => honly l (List.mem_append_left _ hl)
    obtain ⟨fd, pc, bytes, rfl⟩ := honly l (by simp)
    rcases ih hbefore with ⟨l, hl, hread⟩ | ⟨f, hf, hfd, hpc⟩
    · exact Or.inl ⟨l, List.mem_append_left _ hl, hread⟩
    · have hmain : ∀ x, Label.main x ∉ labels := fun x hx => by
        obtain ⟨_, _, _, hl⟩ := hbefore _ hx
        contradiction
      have hvalid' := hvalid.run hcpus hprev
      have hring := (run_mapped hprev hmain (ses.ring i)).trans hmapped
      obtain ⟨j, hframe⟩ := hvalid'.handler f hf
      obtain rfl := ses.distinct j i hframe.cpu hi (hframe.fd.symm.trans hfd)
      generalize hlabel : Label.statement fd pc bytes = l at hlast
      cases hlast with
      | @statement f' w next fuel hf' hstatement =>
        cases hf.symm.trans hf'
        have hdoes := statement_does hvalid'.registered hframe hstatement
        by_cases hhead : f.pc = .readHead
        · refine Or.inl ⟨_, List.mem_append_right _ (List.mem_singleton.mpr rfl), ?_⟩
          simp [hhead, readsHead, hfd]
        · right
          rw [resume_handler]
          cases hdoes with
          | disable =>
            refine ⟨_, rfl, hfd, ?_⟩
            show 8 ≤ statementsFrom .lookup
            decide
          | lookup =>
            refine ⟨_, rfl, hfd, ?_⟩
            show 8 ≤ statementsFrom .readHead
            decide
          | readHead _ hpc' => exact absurd hpc' hhead
          | unmapped hpc' => exact absurd hpc' hhead
          | copyToEnd _ hpc' | copyFromStart _ hpc' | recordLoop _ hpc' | clear hpc'
          | storeTail _ hpc' | storePrevHead hpc' | refresh hpc' =>
            rw [hpc'] at hpc
            simp [statementsFrom] at hpc
      | _ => contradiction

theorem sinceLastRead_append {fd : ℤ} {earlier later : List Label}
    (h : ∃ l ∈ later, readsHead fd l = true) : sinceLastRead fd (earlier ++ later) <:+ later := by
  induction later using List.reverseRecOn with
  | nil =>
    obtain ⟨_, hl, _⟩ := h
    exact absurd hl List.not_mem_nil
  | append_singleton later l ih =>
    rw [← List.append_assoc]
    cases hread : readsHead fd l with
    | true =>
      rw [sinceLastRead_read hread]
      exact List.nil_suffix
    | false =>
      rw [sinceLastRead_other hread]
      obtain ⟨l', hl', hread'⟩ := h
      rcases List.mem_append.mp hl' with hmem | hlast
      · obtain ⟨front, hfront⟩ := ih ⟨l', hmem, hread'⟩
        exact ⟨front, by rw [← List.append_assoc, hfront]⟩
      · rw [List.mem_singleton.mp hlast, hread] at hread'
        contradiction

theorem statements_write {labels : List Label} (h : OnlyStatements labels) (ring : ℕ) :
    labels.flatMap (writtenTo ring) = [] := by
  rw [List.flatMap_eq_nil_iff]
  intro l hl
  obtain ⟨_, _, _, rfl⟩ := h l hl
  rfl

theorem statements_mapped {s t : State} {labels : List Label} (hrun : Run (Step pl) s labels t)
    (honly : OnlyStatements labels) (ring : ℕ) :
    (t.world.rings ring).isSome = (s.world.rings ring).isSome :=
  run_mapped hrun (fun x hx => by
    obtain ⟨_, _, _, hl⟩ := honly _ hx
    contradiction) ring

/-- What one signal pays for. -/
theorem signal_counts {i : ℕ} {rest : List StopStep} {later : List Label}
    (honly : OnlyStatements later) :
    (Label.signal i rest :: later).countP isStatement = later.length ∧
      (Label.signal i rest :: later).countP isSignal = 1 := by
  have hall : later.countP isStatement = later.length := List.countP_eq_length.mpr fun l hl => by
    obtain ⟨_, _, _, rfl⟩ := honly l hl
    rfl
  have hnone : later.countP isSignal = 0 := List.countP_eq_zero.mpr fun l hl => by
    obtain ⟨_, _, _, rfl⟩ := honly l hl
    exact Bool.false_ne_true
  constructor
  · rw [List.countP_cons_of_neg (by simp [isStatement]), hall]
  · rw [List.countP_cons_of_pos rfl, hnone]

theorem signal_start {s t : State} {i : ℕ} {rest : List StopStep}
    (h : Step pl s (.signal i rest) t) :
    s.alive = true ∧ s.handler = none ∧ t.world = s.world ∧
      t.handler = some (Frame.start (s.world.currentFd i)) := by
  cases h with
  | signal _ halive hidle _ => exact ⟨halive, hidle, rfl, rfl⟩

variable {ρ : Type} {rd : Reading c ρ} {w : World} {u v : Logged ρ} {labels later : List Label}
  {i : ℕ} {rest : List StopStep}

/-- When the run that a signal starts is over, and nothing was written meanwhile, it has
read all that there was. -/
theorem signal_readsAll (hcpus : pl.cpus = ses.cpus) (h : Started ses w)
    (hrun : Run (Logs pl rd) (Logged.start ρ (State.sampling pl w)) labels u) (hi : i < ses.cpus)
    (hmapped : (u.state.world.rings (ses.ring i)).isSome = true)
    (hlater : Run (Logs pl rd) u (.signal i rest :: later) v) (honly : OnlyStatements later)
    (hdone : v.state.handler = none) :
    (v.state.world.rings (ses.ring i)).isSome = true ∧
      (sinceLastRead (ses.fd i) (labels ++ .signal i rest :: later)).flatMap
        (writtenTo (ses.ring i)) = [] := by
  obtain ⟨start, hsignal, hrest⟩ := Run.split [.signal i rest] later hlater
  obtain ⟨_, _, hworld, hstart⟩ := signal_start hsignal.one.step
  have hregistered : Registered ses u.state.world := h.registered.run (run_of_logs hrun)
  rw [hregistered.currentFd hi] at hstart
  have hvalid : Valid ses start.state :=
    (valid_sampling h.registered).run hcpus (run_of_logs (hrun.append hsignal))
  rw [← hworld] at hmapped
  have hread : ∃ l ∈ later, readsHead (ses.fd i) l = true := by
    rcases statements_read hcpus hi hvalid hstart hmapped (run_of_logs hrest) honly with
      hread | ⟨f, hf, _⟩
    · exact hread
    · exact absurd hf (idle_ne hdone)
  refine ⟨(statements_mapped (run_of_logs hrest) honly _).trans hmapped, ?_⟩
  rw [List.append_cons]
  have hsuffix : sinceLastRead (ses.fd i) (labels ++ [.signal i rest] ++ later) <:+ later :=
    sinceLastRead_append hread
  obtain ⟨front, hfront⟩ := hsuffix
  have hnone := statements_write honly (ses.ring i)
  rw [← hfront, List.flatMap_append] at hnone
  exact (List.append_eq_nil_iff.mp hnone).2

/-- So no item is left out of the windows. -/
theorem run_catchesUp (hroom : ∀ r, 0 < (rd.bytes r).length) (hcpus : pl.cpus = ses.cpus)
    (h : Started ses w) (hconfig : decoderConfig pl w = c)
    (hrun : Run (Logs pl rd) (Logged.start ρ (State.sampling pl w)) labels u) (hi : i < ses.cpus)
    (hmapped : (u.state.world.rings (ses.ring i)).isSome = true)
    (hlater : Run (Logs pl rd) u (.signal i rest :: later) v) (honly : OnlyStatements later)
    (hdone : v.state.handler = none) :
    ∃ windows, WindowsOf rd (labels ++ .signal i rest :: later) (ses.ring i) (ses.fd i) v windows ∧
      windows.flatten = v.written (ses.ring i) := by
  have hall := hrun.append hlater
  obtain ⟨windows, hwindows⟩ := run_windowsOf hcpus h hconfig hall hi
  obtain ⟨hstill, hsince⟩ := signal_readsAll hcpus h hrun hi hmapped hlater honly hdone
  exact ⟨windows, hwindows, hwindows.all hroom (run_written hall _) hdone hstill hsince⟩

/-- Such a run takes at most the ten statements that the handler is divided into. -/
theorem run_statements (hcpus : pl.cpus = ses.cpus) (h : Started ses w)
    (hrun : Run (Logs pl rd) (Logged.start ρ (State.sampling pl w)) labels u)
    (hlater : Run (Logs pl rd) u (.signal i rest :: later) v) (honly : OnlyStatements later) :
    later.length + statementsLeft v.state.handler ≤ 10 := by
  obtain ⟨_, hsignal, _⟩ := Run.split [.signal i rest] later hlater
  obtain ⟨halive, hidle, _, _⟩ := signal_start hsignal.one.step
  have hequal := (run_paid hcpus h.registered (run_of_logs hrun)).whileAlive halive
  have hmost := (run_paid hcpus h.registered (run_of_logs (hrun.append hlater))).atMost
  rw [hidle] at hequal
  rw [List.countP_append, List.countP_append, (signal_counts honly).1,
    (signal_counts honly).2] at hmost
  have hnone : statementsLeft none = 0 := rfl
  omega

/-- The run of a signal to which the kernel adds no record goes through the ten statements
of the model at most, can go on until it is done, and leaves no record out of the log,
whoever reads it. -/
theorem reader_catches_up (pl : Platform) (a : Answers) (args : Args)
    (episodes : List (World × World)) (w w' : World) (block : ℕ) (labels later : List Label)
    (rd : Reader (decoderConfig pl (papiSampleStart pl block w')) R)
    (u v : Logged (Record (decoderConfig pl (papiSampleStart pl block w')))) (i : ℕ)
    (rest : List StopStep) (e : MapInfo) (hprev : History pl episodes w)
    (hdistinct : Distinct a pl.cpus) (hinit : papiSampleInit pl a args w = .fds block w')
    (hrun : Run (Logs pl (reading rd))
      (Logged.start _ (State.sampling pl (papiSampleStart pl block w'))) labels u)
    (hi : i < pl.cpus) (he : u.state.world.mmaps i = some e)
    (hmapped : (u.state.world.rings e.sampleMmap).isSome = true)
    (hlater : Run (Logs pl (reading rd)) u (.signal i rest :: later) v)
    (honly : OnlyStatements later) :
    later.length + statementsLeft v.state.handler ≤ 10 ∧
      (∀ f, v.state.handler = some f →
        ∃ bytes x, Logs pl (reading rd) v (.statement f.fd f.pc bytes) x) ∧
      (v.state.handler = none → foundFor rd.obs (v.state.world.currentFd i) v.log =
        (v.written e.sampleMmap).map rd.rep) := by
  have hstarted := (init_started hdistinct (history_registry hprev).2 hinit).start pl block
  have hregistered := hstarted.registered.run (run_of_logs hrun)
  have hall := hrun.append hlater
  have hregistered' := hstarted.registered.run (run_of_logs hall)
  cases (hregistered.mmaps i hi).symm.trans he
  refine ⟨run_statements rfl hstarted hrun hlater honly, fun f hf => ?_, fun hdone => ?_⟩
  · exact session_goesOn (reading_ends rd) hprev hdistinct hinit hall hf
  · obtain ⟨windows, hwindows, hflatten⟩ :=
      run_catchesUp (fun r => bytes_pos r.raw) rfl hstarted rfl hrun hi hmapped hlater honly hdone
    rw [hregistered'.currentFd hi, (logOf_windows hwindows).log, hflatten]
    rfl

/-- The run of a signal to which the kernel adds no record goes through the ten statements
of the model at most, can go on until it is done, and leaves no record unreported. -/
theorem handler_catches_up (pl : Platform) (a : Answers) (args : Args)
    (episodes : List (World × World)) (w w' : World) (block : ℕ) (labels later : List Label)
    (u v : Logged (Record (decoderConfig pl (papiSampleStart pl block w')))) (i : ℕ)
    (rest : List StopStep) (e : MapInfo) (hprev : History pl episodes w)
    (hdistinct : Distinct a pl.cpus) (hinit : papiSampleInit pl a args w = .fds block w')
    (hrun : Run (Logs pl (reading (reportReader _)))
      (Logged.start _ (State.sampling pl (papiSampleStart pl block w'))) labels u)
    (hi : i < pl.cpus) (he : u.state.world.mmaps i = some e)
    (hmapped : (u.state.world.rings e.sampleMmap).isSome = true)
    (hlater : Run (Logs pl (reading (reportReader _))) u (.signal i rest :: later) v)
    (honly : OnlyStatements later) :
    later.length + statementsLeft v.state.handler ≤ 10 ∧
      (∀ f, v.state.handler = some f →
        ∃ bytes x, Logs pl (reading (reportReader _)) v (.statement f.fd f.pc bytes) x) ∧
      (v.state.handler = none → foundFor reported (v.state.world.currentFd i) v.log =
        (v.written e.sampleMmap).map recordReport) :=
  reader_catches_up pl a args episodes w w' block labels later (reportReader _) u v i rest e hprev
    hdistinct hinit hrun hi he hmapped hlater honly

/-- After one record and one signal, the log has the record. -/
theorem handler_catches_up_lostRecord :
    ∃ w', ∃ v : Logged (Record (decoderConfig twoCpus (papiSampleStart twoCpus 1 w'))),
      papiSampleInit twoCpus (kernelAnswers false) branchArgs World.initial = .fds 1 w' ∧
      v.written 0 = [lostRecord _] ∧
      foundFor reported (v.state.world.currentFd 0) v.log =
        (v.written 0).map recordReport := by
  obtain ⟨w', later, v, hinit, hwrite, hread, honly, hidle, hwritten⟩ :=
    lostWritten_read reportReader fun _ _ h => h
  have hentry : (lostWritten reportReader (papiSampleStart twoCpus 1 w')).state.world.mmaps 0 =
      some ⟨0, ⟨1, 0⟩, ⟨1, 0⟩⟩ := by
    cases hinit
    rfl
  exact ⟨w', v, hinit, hwritten,
    (handler_catches_up twoCpus (kernelAnswers false) branchArgs [] World.initial w' 1 _ later _ v 0
      _ _ History.start kernelAnswers_distinct hinit hwrite (by decide) hentry rfl hread
      honly).2.2 hidle⟩

end PapiSample.CatchUp
