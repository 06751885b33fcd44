import PapiSample.LoggedReports
import PapiSample.RecordLog

/-!
The log of a session in which the kernel writes records that a reader of the log can
follow. He finds those of a ring in the order in which they were written, each once and
as he expects it, up to the one that `*prev_head` stands behind.
-/
namespace PapiSample.SessionLog

open Bytes Cursor PerfEvent ParseRecord RecordLoop Process SampleInit OpenedEvents Handler Registry
  HandlerRuns Sessions Lossless Drain RecordDecoding RoundTrip Transition FollowedStreams
  LoggedReports RecordLog

variable {c : Config} {R : Type}

/-- The loop over a window of records that can be followed, with fuel for each of them. -/
theorem recordLoop_window (rd : Reader c R) (records : List (Record c))
    (h : ∀ r ∈ records, rd.reads r) (mem : Memory) (hold : Holds mem 0 (streamBytes records))
    (room : Room 64 0 (streamBytes records).length) :
    ∃ done,
      recordLoop c (streamBytes records).length mem records.length (loopStart none) = some done ∧
      shown rd.obs done.trace = due rd.rep 0 records := by
  obtain ⟨done, hloop, htrace⟩ := recordLoop_follows (streamBytes records).length mem records
    (loopStart none) (fun r hr => rd.follows r (h r hr)) hold room (by simp [loopStart])
  exact ⟨done, hloop, htrace⟩

def reading (rd : Reader c R) : Reading c (Record c) where
  bytes := Record.bytes
  writes := rd.reads
  finds := fun records trace => shown rd.obs trace = due rd.rep 0 records
  sound := fun records h mem hold room fuel done hdone => by
    obtain ⟨done', hloop, htrace⟩ := recordLoop_window rd records h mem hold room
    obtain rfl : done' = done := While.loop_unique hloop hdone
    exact htrace

theorem reading_ends (rd : Reader c R) : (reading rd).Ends := fun records h mem hold room => by
  obtain ⟨done, hloop, _⟩ := recordLoop_window rd records h mem hold room
  exact ⟨_, done, hloop⟩

theorem bytes_pos (r : RawRecord) : 0 < r.bytes.length := by
  rw [RawRecord.bytes_length]
  exact Nat.lt_add_right _ (by decide)

def foundFor (obs : Out → List R) (fd : ℤ) (log : List (ℤ × Trace)) : List (List R) :=
  (tracesFor fd log).flatMap fun trace => (shown obs trace).map Prod.snd

/-- What the log says about the records of a ring. -/
structure LogOf (rd : Reader c R) (labels : List Label) (ring : ℕ) (fd : ℤ) (u : Logged (Record c))
    (records : List (Record c)) : Prop where
  inOrder : records <+: u.written ring
  log : foundFor rd.obs fd u.log = records.map rd.rep
  upToRead : u.state.handler = none → (u.state.world.rings ring).isSome = true →
    streamBytes records = (upToLastRead fd labels).flatMap (writtenTo ring)

theorem logOf_windows {rd : Reader c R} {u : Logged (Record c)} {labels : List Label} {ring : ℕ}
    {fd : ℤ} {windows : List (List (Record c))}
    (h : WindowsOf (reading rd) labels ring fd u windows) :
    LogOf rd labels ring fd u windows.flatten where
  inOrder := h.inOrder
  log := by
    have hall : foundFor rd.obs fd u.log = windows.flatMap (List.map rd.rep) := by
      apply flatMap_finds h.finds
      intro window trace hfinds
      have hshown : shown rd.obs trace = due rd.rep 0 window := hfinds
      rw [hshown, due_snd]
    rw [hall, List.map_flatten]
    rfl
  upToRead := h.upToRead

/-- In a session in which the kernel writes whole records that a reader can follow, he
finds in the log of each processor an initial part of them, in order. -/
theorem reader_log (pl : Platform) (a : Answers) (args : Args) (episodes : List (World × World))
    (w w' : World) (block : ℕ) (labels : List Label)
    (rd : Reader (decoderConfig pl (papiSampleStart pl block w')) R) (u : Logged (Record _))
    (hprev : History pl episodes w) (hdistinct : Distinct a pl.cpus)
    (hinit : papiSampleInit pl a args w = .fds block w')
    (hrun : Run (Logs pl (reading rd))
      (Logged.start _ (State.sampling pl (papiSampleStart pl block w'))) labels u) :
    (∀ i < pl.cpus, ∃ e records, u.state.world.mmaps i = some e ∧
      streamBytes (u.written e.sampleMmap) = labels.flatMap (writtenTo e.sampleMmap) ∧
      LogOf rd labels e.sampleMmap (u.state.world.currentFd i) u records) ∧
    ∀ f, u.state.handler = some f →
      ∃ bytes v, Logs pl (reading rd) u (.statement f.fd f.pc bytes) v := by
  constructor
  · intro i hi
    obtain ⟨e, windows, he, hwritten, hwindows⟩ :=
      session_windows (reading rd) hprev hdistinct hinit hrun hi
    exact ⟨e, _, he, hwritten, logOf_windows hwindows⟩
  · intro f hf
    exact session_goesOn (reading_ends rd) hprev hdistinct hinit hrun hf

/-- In a session in which the kernel writes whole records, the log of each processor has
the values of an initial part of them, in order, and between handler runs, as long as the
ring is mapped, of those that were there at the last read of `data_head`. -/
theorem session_log (pl : Platform) (a : Answers) (args : Args) (episodes : List (World × World))
    (w w' : World) (block : ℕ) (labels : List Label)
    (u : Logged (Record (decoderConfig pl (papiSampleStart pl block w'))))
    (hprev : History pl episodes w) (hdistinct : Distinct a pl.cpus)
    (hinit : papiSampleInit pl a args w = .fds block w')
    (hrun : Run (Logs pl (reading (logReader _)))
      (Logged.start _ (State.sampling pl (papiSampleStart pl block w'))) labels u) :
    (∀ i < pl.cpus, ∃ e records, u.state.world.mmaps i = some e ∧
      streamBytes (u.written e.sampleMmap) = labels.flatMap (writtenTo e.sampleMmap) ∧
      LogOf (logReader _) labels e.sampleMmap (u.state.world.currentFd i) u records) ∧
    ∀ f, u.state.handler = some f →
      ∃ bytes v, Logs pl (reading (logReader _)) u (.statement f.fd f.pc bytes) v :=
  reader_log pl a args episodes w w' block labels (logReader _) u hprev hdistinct hinit hrun

def itemsWritten {ρ : Type} (w : World) (rd : Reading (decoderConfig twoCpus w) ρ)
    (items : List ρ) :
    Logged ρ where
  state :=
    { State.sampling twoCpus w with
      world :=
        setMapping w 0 (newRing 3) (kernelAppend twoCpus (newRing 3) (items.flatMap rd.bytes)) }
  written := Function.update (fun _ => []) 0 items
  log := []

theorem itemsWritten_run {ρ : Type} {w : World} (hring : w.rings 0 = some (newRing 3))
    (rd : Reading (decoderConfig twoCpus w) ρ) (items : List ρ) (hwrites : ∀ r ∈ items, rd.writes r)
    (hsize : (items.flatMap rd.bytes).length ≤ 32768) :
    Run (Logs twoCpus rd) (Logged.start ρ (State.sampling twoCpus w))
      [.append 0 (items.flatMap rd.bytes)] (itemsWritten w rd items) := by
  have hbuffer : bytesize twoCpus = 32768 := by decide
  have hstep : Step twoCpus (State.sampling twoCpus w) _ _ :=
    Step.append 0 (items.flatMap rd.bytes) hring
      (by rw [hbuffer]; simp only [newRing]; omega)
      (by simp only [newRing]; omega)
  exact (Run.nil _).snoc (Logs.append 0 items hwrites hstep)

/-- A signal then lets the handler read them. -/
theorem itemsWritten_read {ρ : Type} {args : Args} {w' : World}
    (hinit : papiSampleInit twoCpus (kernelAnswers false) args World.initial = .fds 1 w')
    (hring : (papiSampleStart twoCpus 1 w').rings 0 = some (newRing 3))
    (rd : Reading (decoderConfig twoCpus (papiSampleStart twoCpus 1 w')) ρ) (hends : rd.Ends)
    (items : List ρ) (hwrites : ∀ r ∈ items, rd.writes r)
    (hsize : (items.flatMap rd.bytes).length ≤ 32768) :
    ∃ later v, Run (Logs twoCpus rd) (itemsWritten (papiSampleStart twoCpus 1 w') rd items)
        (.signal 0 (itemsWritten (papiSampleStart twoCpus 1 w') rd items).state.main :: later) v ∧
      OnlyStatements later ∧ v.state.handler = none ∧ v.written 0 = items := by
  have hstarted := (init_started kernelAnswers_distinct (fun _ _ => rfl) hinit).start twoCpus 1
  have hsignal : Logs twoCpus rd (itemsWritten (papiSampleStart twoCpus 1 w') rd items) _ _ :=
    Logs.other (Step.signal 0 rfl rfl (by decide)) (fun _ _ => nofun) fun _ _ => nofun
  obtain ⟨streams, hin⟩ := run_inLog rfl hstarted rfl
    ((itemsWritten_run hring rd items hwrites hsize).snoc hsignal)
  obtain ⟨later, v, hrun, honly, hidle, hwritten⟩ := hin.finish rfl hends
  refine ⟨later, v, Run.append ((Run.nil _).snoc hsignal) hrun, honly, hidle, ?_⟩
  rw [hwritten]
  rfl

def lostRecord (c : Config) : Record c where
  misc := 0
  payload := .lost 7 1
  trailer := []
  fits := by simp [Payload.bytes, FieldDecoding.recordLimit, le64_length]

theorem lostRecord_size (c : Config) : (lostRecord c).size = 24 := by
  simp [Record.size, Record.raw, RawRecord.size, lostRecord, Payload.bytes, le64_length]

theorem lostRecord_decodable {c : Config} (hquiet : c.quiet = false) (hraw : c.rawType = RAW_NONE)
    (htype : c.sampleType = branchArgs.sampleType) : Decodable c (lostRecord c) where
  loud := hquiet
  plain := SampleDecoding.plainRaw_of_none hraw
  order := by
    apply early_inOrder
    rw [htype]
    intro f
    cases f <;> decide
  type := by simp [lostRecord, Payload.type, streamTypes]
  bare := rfl
  stack := nofun

/-- A session on two processors, whose log can have such a record. -/
theorem branchSession : ∃ w',
    papiSampleInit twoCpus (kernelAnswers false) branchArgs World.initial = .fds 1 w' ∧
      (papiSampleStart twoCpus 1 w').rings 0 = some (newRing 3) ∧
      Decodable (decoderConfig twoCpus (papiSampleStart twoCpus 1 w')) (lostRecord _) := by
  obtain ⟨w', hinit⟩ : ∃ w', papiSampleInit twoCpus (kernelAnswers false) branchArgs World.initial =
      .fds 1 w' := ⟨_, rfl⟩
  have hring : (papiSampleStart twoCpus 1 w').rings 0 = some (newRing 3) := by
    cases hinit
    rfl
  have htype : (decoderConfig twoCpus (papiSampleStart twoCpus 1 w')).sampleType =
      branchArgs.sampleType := by
    cases hinit
    rfl
  exact ⟨w', hinit, hring, lostRecord_decodable rfl rfl htype⟩

def lostWritten (rd : ∀ c, Reader c R) (w : World) : Logged (Record (decoderConfig twoCpus w)) :=
  itemsWritten w (reading (rd _)) [lostRecord _]

/-- The first processor has lost an event. -/
theorem lostWritten_read (rd : ∀ c, Reader c R)
    (hreads : ∀ c, ∀ r : Record c, Decodable c r → (rd c).reads r) :
    ∃ w' later, ∃ v : Logged (Record (decoderConfig twoCpus (papiSampleStart twoCpus 1 w'))),
      papiSampleInit twoCpus (kernelAnswers false) branchArgs World.initial = .fds 1 w' ∧
      Run (Logs twoCpus (reading (rd _)))
        (Logged.start _ (State.sampling twoCpus (papiSampleStart twoCpus 1 w')))
        [.append 0 (streamBytes [lostRecord
          (decoderConfig twoCpus (papiSampleStart twoCpus 1 w'))])]
        (lostWritten rd (papiSampleStart twoCpus 1 w')) ∧
      Run (Logs twoCpus (reading (rd _))) (lostWritten rd (papiSampleStart twoCpus 1 w'))
        (.signal 0 (lostWritten rd (papiSampleStart twoCpus 1 w')).state.main :: later) v ∧
      OnlyStatements later ∧ v.state.handler = none ∧ v.written 0 = [lostRecord _] := by
  obtain ⟨w', hinit, hring, hdecodable⟩ := branchSession
  have hall : ∀ r ∈ [lostRecord _], (rd _).reads r :=
    List.forall_mem_singleton.mpr (hreads _ _ hdecodable)
  have hsize : ([lostRecord (decoderConfig twoCpus (papiSampleStart twoCpus 1 w'))].flatMap
      Record.bytes).length ≤ 32768 := by
    rw [List.flatMap_singleton, Record.bytes, RawRecord.bytes_length]
    exact (lostRecord_size _).le.trans (by decide)
  obtain ⟨later, v, hread, honly, hidle, hwritten⟩ := itemsWritten_read hinit hring
    (reading (rd _)) (reading_ends _) [lostRecord _] hall hsize
  exact ⟨w', later, v, hinit, itemsWritten_run hring _ _ hall hsize, hread, honly, hidle, hwritten⟩

/-- The log then has it. -/
theorem session_log_lostRecord :
    ∃ w' labels, ∃ u : Logged (Record (decoderConfig twoCpus (papiSampleStart twoCpus 1 w'))),
      ∃ e records,
      papiSampleInit twoCpus (kernelAnswers false) branchArgs World.initial = .fds 1 w' ∧
      u.state.handler = none ∧ u.written 0 = [lostRecord _] ∧
      u.state.world.mmaps 0 = some e ∧
      LogOf (logReader _) labels e.sampleMmap (u.state.world.currentFd 0) u records := by
  obtain ⟨w', later, u, hinit, hwrite, hread, _, hidle, hwritten⟩ :=
    lostWritten_read logReader fun _ _ h => h
  obtain ⟨e, records, he, _, hlog⟩ := (session_log twoCpus (kernelAnswers false) branchArgs []
    World.initial w' 1 _ u History.start kernelAnswers_distinct hinit
    (hwrite.append hread)).1 0 (by decide)
  exact ⟨w', _, u, e, records, hinit, hidle, hwritten, he, hlog⟩

end PapiSample.SessionLog
