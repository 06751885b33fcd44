import PapiSample.CatchUp
import PapiSample.InStep

/-!
Sessions in which the kernel also writes records of types that the parser has no case
for. The iteration at such a record names its type and takes the rest of the window, so
the log says exactly what stands in front of it. No loop gets stuck, and the next window
begins with a record again.
-/
namespace PapiSample.UnlistedRecords

open Bytes Cursor PerfEvent ParseRecord RecordLoop Report FieldDecoding RecordDecoding RoundTrip
  InStep Process SampleInit OpenedEvents Handler HandlerRuns Sessions Transition FollowedStreams
  RecordLog SessionLog

variable {c : Config} {R : Type}

def Unlisted (r : RawRecord) : Prop :=
  ∀ t, RecordType.ofCode r.type = some t → t ∈ defaultTypes

def unlistedReport (c : Config) (obs : Out → List R) (type : BitVec 32) : List R :=
  if c.quiet then [] else obs (.printed .details .fp "\tUnknown type %d\n" [.int type])

theorem details_unlisted (r : RawRecord) (h : Unlisted r) (size start : ℤ) :
    details c size start r.type = unknownRecord c size r.type := by
  unfold details
  cases hcode : RecordType.ofCode r.type with
  | none => rfl
  | some t =>
    have ht := h t hcode
    simp only [defaultTypes, List.mem_cons, List.not_mem_nil, or_false] at ht
    rcases ht with rfl | rfl <;> rfl

/-- The iteration moves over all the bytes that are left. -/
theorem iteration_unlisted (c : Config) {obs : Out → List R} (hdeaf : Deaf .header obs)
    (r : RawRecord) (h : Unlisted r) (mem : Memory) (start : ℤ) (n : ℕ)
    (hold : Holds mem start r.bytes) (room : Room 64 start (8 + n)) :
    Consumes obs (iteration c (start + 8 + n)) mem start (8 + n) ()
      (unlistedReport c obs r.type) := by
  apply iteration_of_details hdeaf _ mem start n _ room
  rw [(header_words r mem start hold).1, details_unlisted r h]
  have hprints : Says obs (unlessQuiet c (fprintf .details "\tUnknown type %d\n" [.int r.type]))
      (unlistedReport c obs r.type) := by
    unfold unlessQuiet unlistedReport
    cases c.quiet with
    | true => exact Says.ret
    | false => exact Says.emit _
  have hjump : Consumes obs (Prog.jump (start + 8 + n)) mem (start + 8) n () [] := ⟨rfl, rfl⟩
  have hrun := (hprints mem (start + 8)).next hjump
  rw [List.append_nil] at hrun
  exact hrun

/-- What the kernel writes: records that have a case, and records that have none. -/
inductive Item (c : Config)
  | listed (r : Record c)
  | unlisted (r : RawRecord)

def Item.raw : Item c → RawRecord
  | .listed r => r.raw
  | .unlisted r => r

def Item.Readable (rd : Reader c R) : Item c → Prop
  | .listed r => rd.reads r
  | .unlisted r => Unlisted r

/-- What the reader finds about a window: nothing of what is behind a record without a case. -/
def reports (rd : Reader c R) : List (Item c) → List (List R)
  | [] => []
  | .listed r :: rest => rd.rep r :: reports rd rest
  | .unlisted r :: _ => [unlistedReport c rd.obs r.type]

theorem reports_listed (rd : Reader c R) (front : List (Record c)) (rest : List (Item c)) :
    reports rd (front.map Item.listed ++ rest) = front.map rd.rep ++ reports rd rest := by
  induction front with
  | nil => rfl
  | cons r front ih =>
    rw [List.map_cons, List.cons_append, reports, ih, List.map_cons, List.cons_append]

/-- The records in front of the first one without a case. -/
theorem listed_front (items : List (Item c)) :
    ∃ (front : List (Record c)) (rest : List (Item c)), items = front.map Item.listed ++ rest ∧
      (rest = [] ∨ ∃ r more, rest = .unlisted r :: more) := by
  induction items with
  | nil => exact ⟨[], [], rfl, Or.inl rfl⟩
  | cons item items ih =>
    cases item with
    | listed r =>
      obtain ⟨front, rest, rfl, hrest⟩ := ih
      exact ⟨r :: front, rest, rfl, hrest⟩
    | unlisted r => exact ⟨[], .unlisted r :: items, rfl, Or.inr ⟨r, items, rfl⟩⟩

def itemBytes (item : Item c) : List Byte := item.raw.bytes

theorem flatMap_listed (front : List (Record c)) :
    (front.map Item.listed).flatMap itemBytes = streamBytes front :=
  List.flatMap_map ..

/-- The loop over such a window. -/
theorem recordLoop_items (rd : Reader c R) (items : List (Item c)) (h : ∀ r ∈ items, r.Readable rd)
    (mem : Memory) (hold : Holds mem 0 (items.flatMap itemBytes))
    (room : Room 64 0 (items.flatMap itemBytes).length) :
    ∃ fuel done, recordLoop c (items.flatMap itemBytes).length mem fuel (loopStart none) =
      some done ∧
      (shown rd.obs done.trace).map Prod.snd = reports rd items := by
  obtain ⟨front, rest, rfl, hrest⟩ := listed_front items
  have hreads : ∀ r ∈ front, rd.reads r := fun r hr =>
    h (.listed r) (List.mem_append_left _ (List.mem_map_of_mem hr))
  rw [List.flatMap_append, flatMap_listed] at hold room ⊢
  obtain ⟨hfront, hbehind⟩ := (holds_append ..).mp hold
  have hroom := room.append
  rw [List.length_append] at room ⊢
  push_cast
  obtain ⟨u, hoff, htrace, hloop⟩ := recordLoop_front
    ((streamBytes front).length + (rest.flatMap itemBytes).length) mem front (loopStart none)
    (fun r hr => rd.follows r (hreads r hr)) hfront hroom.1
    (by simp only [loopStart]; omega)
  have hstart : (loopStart none).offset = 0 := rfl
  rw [hstart] at hoff htrace
  rw [reports_listed]
  rcases hrest with rfl | ⟨r, more, rfl⟩
  · refine ⟨_, u, (hloop 0).trans (While.loop_done 0 u ?_), ?_⟩
    · simp [inWindow, hoff]
    · rw [htrace, List.map_append, due_snd]
      simp [loopStart, shown, reports]
  · have hunlisted : Unlisted r := h (.unlisted r) (List.mem_append_right _ List.mem_cons_self)
    rw [← hoff] at hbehind hroom
    rw [List.flatMap_cons] at hbehind hroom
    have hfirst : 8 ≤ (itemBytes (.unlisted r : Item c)).length := by
      show 8 ≤ r.bytes.length
      rw [RawRecord.bytes_length]
      exact Nat.le_add_right ..
    obtain ⟨n, hn⟩ := Nat.exists_eq_add_of_le (hfirst.trans (List.length_append ▸
      Nat.le_add_right _ (more.flatMap itemBytes).length))
    replace hroom := hroom.2
    rw [hn] at hroom
    have hsize : ((streamBytes front).length : ℤ) +
        ((Item.unlisted r :: more).flatMap itemBytes).length = u.offset + 8 + n := by
      rw [List.flatMap_cons, hn, hoff]
      push_cast
      omega
    have hrun := iteration_unlisted c rd.deaf r hunlisted mem u.offset n
      ((holds_append ..).mp hbehind).1 hroom
    obtain ⟨v, hbody, hend, hshown⟩ := loopBody_consumes hrun
    rw [hsize]
    rw [hsize] at hloop
    have hin : inWindow (u.offset + 8 + n) u = true := by
      simp only [inWindow, decide_eq_true_eq]
      omega
    have hdone : inWindow (u.offset + 8 + n) v = false := by
      simp only [inWindow, decide_eq_false_iff_not, hend]
      omega
    have hlast := (While.loop_step 0 ⟨hin, hbody⟩).trans (While.loop_done 0 v hdone)
    refine ⟨_, v, (hloop 1).trans hlast, ?_⟩
    rw [hshown, htrace, List.map_append, List.map_append, due_snd]
    rfl

def itemReading (rd : Reader c R) : Reading c (Item c) where
  bytes := itemBytes
  writes := Item.Readable rd
  finds := fun items trace => (shown rd.obs trace).map Prod.snd = reports rd items
  sound := fun items h mem hold room fuel done hdone => by
    obtain ⟨fuel', done', hloop, hshown⟩ := recordLoop_items rd items h mem hold room
    obtain rfl : done' = done := While.loop_unique hloop hdone
    exact hshown

theorem itemReading_ends (rd : Reader c R) : (itemReading rd).Ends := by
  intro items h mem hold room
  obtain ⟨fuel, done, hloop, _⟩ := recordLoop_items rd items h mem hold room
  exact ⟨fuel, done, hloop⟩

/-- In a session in which the kernel may also write records without a case, the log of
each processor has, for each of its windows, the records in front of the first such one,
and no handler run is ever stuck. -/
theorem unlisted_log (pl : Platform) (a : Answers) (args : Args) (episodes : List (World × World))
    (w w' : World) (block : ℕ) (labels : List Label)
    (rd : Reader (decoderConfig pl (papiSampleStart pl block w')) R) (u : Logged (Item _))
    (hprev : History pl episodes w) (hdistinct : Distinct a pl.cpus)
    (hinit : papiSampleInit pl a args w = .fds block w')
    (hrun : Run (Logs pl (itemReading rd))
      (Logged.start _ (State.sampling pl (papiSampleStart pl block w'))) labels u) :
    (∀ i < pl.cpus, ∃ e windows, u.state.world.mmaps i = some e ∧
      WindowsOf (itemReading rd) labels e.sampleMmap (u.state.world.currentFd i) u windows ∧
      foundFor rd.obs (u.state.world.currentFd i) u.log = windows.flatMap (reports rd)) ∧
    ∀ f, u.state.handler = some f →
      ∃ bytes v, Logs pl (itemReading rd) u (.statement f.fd f.pc bytes) v := by
  constructor
  · intro i hi
    obtain ⟨e, windows, he, _, hwindows⟩ :=
      session_windows (itemReading rd) hprev hdistinct hinit hrun hi
    exact ⟨e, windows, he, hwindows, flatMap_finds hwindows.finds fun _ _ hfinds => hfinds⟩
  · intro f hf
    exact session_goesOn (itemReading_ends rd) hprev hdistinct hinit hrun hf

def unlistedItems (c : Config) : List (Item c) :=
  [.unlisted unlistedRecord, .listed (SessionLog.lostRecord c)]

theorem unlistedItems_length (c : Config) : ((unlistedItems c).flatMap itemBytes).length = 40 := by
  have hlost : (itemBytes (.listed (SessionLog.lostRecord c))).length = 24 :=
    (RawRecord.bytes_length _).trans (lostRecord_size c)
  have hunlisted : (itemBytes (.unlisted unlistedRecord : Item c)).length = 16 :=
    RawRecord.bytes_length _
  rw [unlistedItems, List.flatMap_cons, List.flatMap_singleton, List.length_append, hlost,
    hunlisted]

theorem unlistedItems_readable (h : Decodable c (SessionLog.lostRecord c)) :
    ∀ r ∈ unlistedItems c, r.Readable (reportReader c) := by
  have hnone : RecordType.ofCode unlistedRecord.type = none := by decide
  intro r hr
  rcases List.mem_cons.mp hr with rfl | hr
  · intro t ht
    rw [hnone] at ht
    contradiction
  · rw [List.mem_singleton.mp hr]
    exact h

def unlistedWritten (w : World) : Logged (Item (decoderConfig twoCpus w)) :=
  itemsWritten w (itemReading (reportReader _)) (unlistedItems _)

theorem unlistedWritten_read :
    ∃ w' later, ∃ u : Logged (Item (decoderConfig twoCpus (papiSampleStart twoCpus 1 w'))),
      papiSampleInit twoCpus (kernelAnswers false) branchArgs World.initial = .fds 1 w' ∧
      Run (Logs twoCpus (itemReading (reportReader _)))
        (Logged.start _ (State.sampling twoCpus (papiSampleStart twoCpus 1 w')))
        [.append 0 ((unlistedItems (decoderConfig twoCpus (papiSampleStart twoCpus 1 w'))).flatMap
          itemBytes)] (unlistedWritten (papiSampleStart twoCpus 1 w')) ∧
      Run (Logs twoCpus (itemReading (reportReader _)))
        (unlistedWritten (papiSampleStart twoCpus 1 w'))
          (.signal 0 (unlistedWritten (papiSampleStart twoCpus 1 w')).state.main :: later) u ∧
      OnlyStatements later ∧ u.state.handler = none ∧ u.written 0 = unlistedItems _ ∧
      Decodable (decoderConfig twoCpus (papiSampleStart twoCpus 1 w'))
        (SessionLog.lostRecord _) := by
  obtain ⟨w', hinit, hring, hdecodable⟩ := branchSession
  have hwrites := unlistedItems_readable hdecodable
  have hsize := (unlistedItems_length
    (decoderConfig twoCpus (papiSampleStart twoCpus 1 w'))).trans_le (show 40 ≤ 32768 by decide)
  obtain ⟨later, u, hread, honly, hidle, hwritten⟩ := itemsWritten_read hinit hring
    (itemReading (reportReader _)) (itemReading_ends _) _ hwrites hsize
  exact ⟨w', later, u, hinit, itemsWritten_run hring _ _ hwrites hsize, hread, honly, hidle,
    hwritten, hdecodable⟩

/-- After a signal, the log has what stands in front of the record without a case. -/
theorem unlisted_log_unlistedRecord :
    ∃ w' labels, ∃ u : Logged (Item (decoderConfig twoCpus (papiSampleStart twoCpus 1 w'))),
      ∃ e windows,
      papiSampleInit twoCpus (kernelAnswers false) branchArgs World.initial = .fds 1 w' ∧
      u.state.handler = none ∧ u.written 0 = unlistedItems _ ∧ u.state.world.mmaps 0 = some e ∧
      WindowsOf (itemReading (reportReader _)) labels e.sampleMmap (u.state.world.currentFd 0) u
        windows ∧
      foundFor reported (u.state.world.currentFd 0) u.log =
        windows.flatMap (reports (reportReader _)) := by
  obtain ⟨w', later, u, hinit, hwrite, hread, _, hidle, hwritten, _⟩ := unlistedWritten_read
  obtain ⟨e, windows, he, hwindows, hfound⟩ :=
    (unlisted_log twoCpus (kernelAnswers false) branchArgs [] World.initial w' 1 _
      (reportReader _) u History.start kernelAnswers_distinct hinit
    (hwrite.append hread)).1 0 (by decide)
  exact ⟨w', _, u, e, windows, hinit, hidle, hwritten, he, hwindows, hfound⟩

end PapiSample.UnlistedRecords
