import PapiSample.UnlistedRecords

/-!
Sessions in which the kernel writes any records whatever. What the parser makes of a
record that it cannot follow is not said here, nor whether its loads and copies fault
there. But if it gets out of its window, the harm is bounded: the next window begins with
a record again. So every window is reported right as far as it can be followed, and once
the bad records are behind it the log is as if they had never been.
-/
namespace PapiSample.ContainedMisreads

open Bytes Cursor ParseRecord RecordLoop RecordDecoding RoundTrip Process SampleInit OpenedEvents
  Handler Registry Sessions Lossless Drain Transition FollowedStreams RecordLog SessionLog CatchUp
  UnlistedRecords Delivery RingReads

variable {c : Config} {R : Type}

/-- The part of a window up to the first record that the reader cannot follow is in the
trace, at its places; if that is all of the window, nothing else is. -/
def FrontShown (rd : Reader c R) (window : List RawRecord) (trace : Trace) : Prop :=
  ∀ (front : List (Record c)) (rest : List RawRecord), (∀ r ∈ front, rd.reads r) →
    window = front.map Record.raw ++ rest →
    ∃ behind, shown rd.obs trace = due rd.rep 0 front ++ behind ∧ (rest = [] → behind = [])

theorem flatMap_raw (front : List (Record c)) :
    (front.map Record.raw).flatMap RawRecord.bytes = streamBytes front :=
  List.flatMap_map ..

/-- A loop only adds to its trace. -/
theorem recordLoop_grows {size : ℤ} {mem : Memory} {fuel : ℕ} {s t : LoopState}
    (h : recordLoop c size mem fuel s = some t) : ∃ behind, t.trace = s.trace ++ behind := by
  refine (While.loop_reaches fuel s t h).1.invariant
    (fun u => ∃ behind, u.trace = s.trace ++ behind)
    ⟨[], (List.append_nil _).symm⟩ ?_
  rintro u v ⟨behind, hu⟩ hstep
  obtain ⟨_, _, rfl⟩ := Option.map_eq_some_iff.mp hstep.2
  exact ⟨behind ++ _, by rw [hu, List.append_assoc]⟩

theorem frontShown_loop (rd : Reader c R) (window : List RawRecord) (mem : Memory)
    (hold : Holds mem 0 (window.flatMap RawRecord.bytes))
    (room : Room 64 0 (window.flatMap RawRecord.bytes).length) (fuel : ℕ) (done : LoopState)
    (hdone : recordLoop c (window.flatMap RawRecord.bytes).length mem fuel (loopStart none) =
      some done) : FrontShown rd window done.trace := by
  rintro front rest hreads rfl
  rw [List.flatMap_append, flatMap_raw] at hold room hdone
  rw [List.length_append] at hdone
  push_cast at hdone
  have hstart : (loopStart none).offset = 0 := rfl
  obtain ⟨u, hoff, htrace, hloop⟩ := recordLoop_front
    ((streamBytes front).length + (rest.flatMap RawRecord.bytes).length) mem front (loopStart none)
    (fun r hr => rd.follows r (hreads r hr)) ((holds_append ..).mp hold).1 room.append.1
    (by rw [hstart]; omega)
  rw [hstart] at hoff htrace
  have hlater := (hloop fuel).symm.trans (While.loop_mono (Nat.le_add_left fuel front.length) hdone)
  obtain ⟨behind, hgrows⟩ := recordLoop_grows hlater
  refine ⟨shown rd.obs behind, ?_, ?_⟩
  · have hall : shown rd.obs done.trace = shown rd.obs u.trace ++ shown rd.obs behind := by
      rw [hgrows, shown, List.map_append]
      rfl
    rw [hall, htrace]
    rfl
  · rintro rfl
    have hend : inWindow ((streamBytes front).length + (([] : List RawRecord).flatMap
        RawRecord.bytes).length) u = false := by
      simp [inWindow, hoff]
    rw [recordLoop, While.loop_done fuel u hend] at hlater
    rw [← Option.some.inj hlater] at hgrows
    rw [List.self_eq_append_right.mp hgrows]
    rfl

def rawReading (rd : Reader c R) : Reading c RawRecord where
  bytes := RawRecord.bytes
  writes := fun _ => True
  finds := FrontShown rd
  sound := fun window _ mem hold room fuel done hdone =>
    frontShown_loop rd window mem hold room fuel done hdone

/-- Every session of items is one of records. -/
theorem run_raw {pl : Platform} {rd : Reader c R} {u v : Logged (Item c)} {labels : List Label}
    (h : Run (Logs pl (itemReading rd)) u labels v) :
    Run (Logs pl (rawReading rd)) (renamed Item.raw u) labels (renamed Item.raw v) :=
  run_renamed Item.raw (fun _ => rfl) (fun _ _ => trivial) h

/-- In any session, whatever records the kernel writes, the windows of the loops of each
processor partition an initial part of the records of its ring, and each is reported
right up to its first record that cannot be followed. -/
theorem misreads_contained (pl : Platform) (a : Answers) (args : Args)
    (episodes : List (World × World)) (w w' : World) (block : ℕ) (labels : List Label)
    (rd : Reader (decoderConfig pl (papiSampleStart pl block w')) R) (u : Logged RawRecord)
    (hprev : History pl episodes w) (hdistinct : Distinct a pl.cpus)
    (hinit : papiSampleInit pl a args w = .fds block w')
    (hrun : Run (Logs pl (rawReading rd))
      (Logged.start _ (State.sampling pl (papiSampleStart pl block w'))) labels u) :
    ∀ i < pl.cpus, ∃ e windows, u.state.world.mmaps i = some e ∧
      (u.written e.sampleMmap).flatMap RawRecord.bytes = labels.flatMap (writtenTo e.sampleMmap) ∧
      WindowsOf (rawReading rd) labels e.sampleMmap (u.state.world.currentFd i) u windows :=
  fun _ hi => session_windows (rawReading rd) hprev hdistinct hinit hrun hi

/-- A record that is dropped with the one in front of it is in the window all the same. -/
theorem misreads_contained_unlistedRecord :
    ∃ w' labels, ∃ u : Logged RawRecord, ∃ e windows,
      papiSampleInit twoCpus (kernelAnswers false) branchArgs World.initial = .fds 1 w' ∧
      u.state.handler = none ∧
      u.written 0 =
        (unlistedItems (decoderConfig twoCpus (papiSampleStart twoCpus 1 w'))).map Item.raw ∧
      u.state.world.mmaps 0 = some e ∧
      WindowsOf (rawReading (reportReader (decoderConfig twoCpus (papiSampleStart twoCpus 1 w'))))
        labels e.sampleMmap (u.state.world.currentFd 0) u windows := by
  obtain ⟨w', later, u, hinit, hwrite, hread, _, hidle, hwritten, _⟩ := unlistedWritten_read
  obtain ⟨e, windows, he, _, hwindows⟩ :=
    misreads_contained twoCpus (kernelAnswers false) branchArgs
    [] World.initial w' 1 _ (reportReader _) _ History.start kernelAnswers_distinct hinit
    (run_raw (hwrite.append hread)) 0 (by decide)
  exact ⟨w', _, _, e, windows, hinit, hidle, congrArg (List.map Item.raw) hwritten, he, hwindows⟩

/-- Where all the records can be followed, the log has them all. -/
theorem found_whole {rd : Reader c R} {windows : List (List RawRecord)} {traces : List Trace}
    (h : List.Forall₂ (FrontShown rd) windows traces) (records : List (Record c))
    (hreads : ∀ r ∈ records, rd.reads r) (hall : windows.flatten = records.map Record.raw) :
    (traces.flatMap fun trace => (shown rd.obs trace).map Prod.snd) = records.map rd.rep := by
  induction h generalizing records with
  | nil =>
    rw [List.flatten_nil, eq_comm, List.map_eq_nil_iff] at hall
    rw [hall]
    rfl
  | @cons window trace _ _ hfirst _ ih =>
    rw [List.flatten_cons, eq_comm, List.map_eq_append_iff] at hall
    obtain ⟨front, rest, rfl, hfront, hrest⟩ := hall
    obtain ⟨behind, hshown, hnone⟩ := hfirst front []
      (fun r hr => hreads r (List.mem_append_left _ hr)) (hfront ▸ (List.append_nil _).symm)
    rw [List.flatMap_cons, ih rest (fun r hr => hreads r (List.mem_append_right _ hr)) hrest.symm,
      hshown, hnone rfl, List.append_nil, due_snd, List.map_append]

/-- A loop over records that can be followed ends. -/
theorem endsOn_raw (rd : Reader c R) (records : List (Record c)) (h : ∀ r ∈ records, rd.reads r) :
    EndsOn (rawReading rd) (records.map Record.raw) := by
  intro n mem hold room
  have hsame : ((records.map Record.raw).take n).flatMap (rawReading rd).bytes =
      streamBytes (records.take n) := by
    rw [← List.map_take]
    exact flatMap_raw _
  rw [hsame] at hold room ⊢
  obtain ⟨done, hdone, _⟩ := recordLoop_window rd (records.take n)
    (fun r hr => h r (List.mem_of_mem_take hr)) mem hold room
  exact ⟨_, done, hdone⟩

variable {pl : Platform} {ses : Session} {rd : Reader c R} {base : ℕ → List RawRecord} {old : ℕ}
  {streams : ℕ → Stream RawRecord} {u v : Logged RawRecord} {i : ℕ} {news : List (Record c)}

/-- The windows since a moment at which a ring had been read to its end are made of the
records that were written since. -/
theorem inLog_news (h : InLog pl ses (rawReading rd) base old streams v) (hi : i < ses.cpus)
    (hreads : ∀ r ∈ news, rd.reads r)
    (hnews : v.written (ses.ring i) = base i ++ news.map Record.raw) :
    ∃ records rest, news = records ++ rest ∧
      (streams i).delivered = base i ++ records.map Record.raw ∧
      (streams i).pending = rest.map Record.raw ∧
      foundFor rd.obs (ses.fd i) (v.log.drop old) = records.map rd.rep := by
  obtain ⟨windows, hflatten, hall⟩ := h.log i hi
  have hproduced := (streams i).delivered_append_pending
  rw [← h.written, hnews, hflatten, List.append_assoc, List.append_cancel_left_eq, eq_comm,
    List.map_eq_append_iff] at hproduced
  obtain ⟨records, rest, rfl, hrecords, hrest⟩ := hproduced
  have hreads := fun r hr => hreads r (List.mem_append_left _ hr)
  refine ⟨records, rest, rfl, ?_, hrest.symm, found_whole hall records hreads hrecords.symm⟩
  rw [hflatten, hrecords]

structure NewsOf (rd : Reader c R) (later : List Label) (ring : ℕ) (fd : ℤ) (u v : Logged RawRecord)
    (news records : List (Record c)) : Prop where
  inOrder : records <+: news
  log : foundFor rd.obs fd (v.log.drop u.log.length) = records.map rd.rep
  upToRead : v.state.handler = none → (v.state.world.rings ring).isSome = true →
    streamBytes records = (upToLastRead fd later).flatMap (writtenTo ring)

theorem run_newsOf (hcpus : pl.cpus = ses.cpus) {w : World} (h : Started ses w)
    (hconfig : decoderConfig pl w = c) {labels later : List Label}
    (hrun : Run (Logs pl (rawReading rd)) (Logged.start _ (State.sampling pl w)) labels u)
    (hi : i < ses.cpus) (hidle : u.state.handler = none)
    (hmapped : (u.state.world.rings (ses.ring i)).isSome = true)
    (hread : (sinceLastRead (ses.fd i) labels).flatMap (writtenTo (ses.ring i)) = [])
    (hlater : Run (Logs pl (rawReading rd)) u later v)
    (hnews : v.written (ses.ring i) = u.written (ses.ring i) ++ news.map Record.raw)
    (hreads : ∀ r ∈ news, rd.reads r) :
    (∃ records, NewsOf rd later (ses.ring i) (ses.fd i) u v news records) ∧
      ∀ f, v.state.handler = some f → f.fd = ses.fd i →
        ∃ bytes x, Logs pl (rawReading rd) v (.statement f.fd f.pc bytes) x := by
  obtain ⟨streams, hin⟩ := run_inLog hcpus h hconfig hrun
  have hwritten : (u.written (ses.ring i)).flatMap RawRecord.bytes =
      labels.flatMap (writtenTo (ses.ring i)) := run_written hrun (ses.ring i)
  have hdelivered : (streams i).delivered = u.written (ses.ring i) := by
    have hbytes := hin.delivered hcpus h hrun hi hidle hmapped
    rw [flatMap_lastRead (ses.fd i), hread, List.append_nil, ← hbytes, hin.written] at hwritten
    rw [hin.written]
    exact items_eq bytes_pos (streams i).isPrefix hwritten.symm
  obtain ⟨streams', hin'⟩ := hin.rebase.run hcpus hlater
  rw [← hdelivered] at hnews
  obtain ⟨records, rest, rfl, hnew, hpending, hfound⟩ := inLog_news hin' hi hreads hnews
  refine ⟨⟨records, List.prefix_append records rest, hfound, fun hidle' hmapped' => ?_⟩, ?_⟩
  · have hbytes := hin'.delivered hcpus h (hrun.append hlater) hi hidle' hmapped'
    rw [hnew, hdelivered, List.flatMap_append, flatMap_upToLastRead later hread,
      ← hwritten] at hbytes
    rw [← flatMap_raw]
    exact List.append_cancel_left hbytes
  · intro f hf hfd
    apply hin'.notStuck hf
    intro j hj hfd'
    obtain rfl := ses.distinct j i hj hi (hfd'.symm.trans hfd)
    rw [hpending]
    exact endsOn_raw rd rest fun r hr => hreads r (List.mem_append_right _ hr)

/-- Resynchronization: whatever was written and made of it before, once a ring has been
read to its end the log has, of the records that are written from then on and can be
followed, an initial part in order, and between handler runs those that were there at
the last read of `data_head`; and no run for that ring is stuck. -/
theorem log_resynchronizes (pl : Platform) (a : Answers) (args : Args)
    (episodes : List (World × World)) (w w' : World) (block : ℕ) (labels later : List Label)
    (rd : Reader (decoderConfig pl (papiSampleStart pl block w')) R) (u v : Logged RawRecord)
    (i : ℕ) (e : MapInfo) (news : List (Record _)) (hprev : History pl episodes w)
    (hdistinct : Distinct a pl.cpus) (hinit : papiSampleInit pl a args w = .fds block w')
    (hrun : Run (Logs pl (rawReading rd))
      (Logged.start _ (State.sampling pl (papiSampleStart pl block w'))) labels u)
    (hi : i < pl.cpus) (he : u.state.world.mmaps i = some e) (hidle : u.state.handler = none)
    (hmapped : (u.state.world.rings e.sampleMmap).isSome = true)
    (hread : (sinceLastRead (u.state.world.currentFd i) labels).flatMap (writtenTo e.sampleMmap) =
      [])
    (hlater : Run (Logs pl (rawReading rd)) u later v)
    (hnews : v.written e.sampleMmap = u.written e.sampleMmap ++ news.map Record.raw)
    (hreads : ∀ r ∈ news, rd.reads r) :
    (∃ records, NewsOf rd later e.sampleMmap (v.state.world.currentFd i) u v news records) ∧
      ∀ f, v.state.handler = some f → f.fd = v.state.world.currentFd i →
        ∃ bytes x, Logs pl (rawReading rd) v (.statement f.fd f.pc bytes) x := by
  have hstarted := (init_started hdistinct (history_registry hprev).2 hinit).start pl block
  have hregistered : Registered _ u.state.world := hstarted.registered.run (run_of_logs hrun)
  have hregistered' : Registered _ v.state.world :=
    hstarted.registered.run (run_of_logs (hrun.append hlater))
  cases (hregistered.mmaps i hi).symm.trans he
  rw [hregistered.currentFd hi] at hread
  rw [hregistered'.currentFd hi]
  exact run_newsOf rfl hstarted rfl hrun hi hidle hmapped hread hlater hnews hreads

/-- A ring that has seen little takes more records. -/
theorem takes_more (h : InLog pl ses (rawReading rd) base old streams u) (hi : i < ses.cpus)
    (hmapped : (u.state.world.rings (ses.ring i)).isSome = true) (news : List (Record c))
    (hroom : ((u.written (ses.ring i)).flatMap RawRecord.bytes).length + (streamBytes news).length ≤
      bytesize pl) :
    ∃ v, Run (Logs pl (rawReading rd)) u [.append (ses.ring i) (streamBytes news)] v ∧
      v.written (ses.ring i) = u.written (ses.ring i) ++ news.map Record.raw := by
  obtain ⟨r, hr⟩ := Option.isSome_iff_exists.mp hmapped
  have hhead : r.mapping.dataHead = ((u.written (ses.ring i)).flatMap RawRecord.bytes).length := by
    rw [h.written]
    exact (h.bytes.ring i hi r hr).tracks.head
  have hsmall := bytesize_lt pl
  have hstep : Step pl u.state _ _ :=
    Step.append (ses.ring i) ((news.map Record.raw).flatMap RawRecord.bytes) hr
      (by rw [flatMap_raw]; omega) (by rw [flatMap_raw]; omega)
  have hlogs : Logs pl (rawReading rd) u _ _ :=
    Logs.append (ses.ring i) (news.map Record.raw) (fun _ _ => trivial) hstep
  refine ⟨_, (Run.nil u).snoc (flatMap_raw news ▸ hlogs), ?_⟩
  simp only [Function.update_self]

/-- After a record without a case the ring takes another one, from which the log is right. -/
theorem log_resynchronizes_unlistedRecord :
    ∃ w' later, ∃ u v : Logged RawRecord, ∃ records,
      papiSampleInit twoCpus (kernelAnswers false) branchArgs World.initial = .fds 1 w' ∧
      u.written 0 =
        (unlistedItems (decoderConfig twoCpus (papiSampleStart twoCpus 1 w'))).map Item.raw ∧
      NewsOf (reportReader (decoderConfig twoCpus (papiSampleStart twoCpus 1 w'))) later 0
        (v.state.world.currentFd 0) u v [SessionLog.lostRecord _] records := by
  obtain ⟨w', later, x, hinit, hwrite, hread, honly, hidle, hwritten, hdecodable⟩ :=
    unlistedWritten_read
  have hstarted := (init_started kernelAnswers_distinct (fun _ _ => rfl) hinit).start twoCpus 1
  have hrun := run_raw (hwrite.append hread)
  have hregistered := hstarted.registered.run (run_of_logs hrun)
  obtain ⟨hmapped, hsince⟩ := signal_readsAll rfl hstarted hwrite (show 0 < 2 by decide) rfl
    hread honly hidle
  obtain ⟨streams, hin⟩ := run_inLog rfl hstarted rfl hrun
  have hroom : (((renamed Item.raw x).written 0).flatMap RawRecord.bytes).length +
      (streamBytes [SessionLog.lostRecord (decoderConfig twoCpus
        (papiSampleStart twoCpus 1 w'))]).length ≤ bytesize twoCpus := by
    have hfirst : (((renamed Item.raw x).written 0).flatMap RawRecord.bytes).length = 40 := by
      have hsame : (renamed Item.raw x).written 0 = (unlistedItems _).map Item.raw :=
        congrArg (List.map Item.raw) hwritten
      rw [hsame, List.flatMap_map]
      exact unlistedItems_length _
    have hsecond : (streamBytes [SessionLog.lostRecord (decoderConfig twoCpus
        (papiSampleStart twoCpus 1 w'))]).length = 24 := by
      rw [streamBytes, List.flatMap_singleton, Record.bytes, RawRecord.bytes_length]
      exact lostRecord_size _
    rw [hfirst, hsecond]
    decide
  obtain ⟨v, hlater, hnews⟩ := takes_more hin (show 0 < 2 by decide) hmapped
    [SessionLog.lostRecord _] hroom
  obtain ⟨⟨records, hrecords⟩, _⟩ := log_resynchronizes twoCpus (kernelAnswers false) branchArgs []
    World.initial w' 1 _ _ (reportReader _) _ v 0 _ [SessionLog.lostRecord _] History.start
    kernelAnswers_distinct hinit hrun (by decide) (hregistered.mmaps 0 (by decide)) hidle hmapped
    (hregistered.currentFd (show 0 < 2 by decide) ▸ hsince) hlater hnews
    (List.forall_mem_singleton.mpr hdecodable)
  exact ⟨w', _, _, v, records, hinit, congrArg (List.map Item.raw) hwritten, hrecords⟩

end PapiSample.ContainedMisreads
