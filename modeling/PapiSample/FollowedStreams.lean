import PapiSample.RoundTrip

/-!
Streams that the record loop can follow: from the header of each record an iteration
moves to its end, and shows an observer what the record deserves in his eyes. The loop
then visits exactly the records of the stream, whatever the observer looks at.
-/
namespace PapiSample.FollowedStreams

open Bytes Cursor ParseRecord RecordLoop MmapRead Report FieldDecoding RecordDecoding RoundTrip

variable {c : Config} {R : Type} {obs : Out → List R} {rep : Record c → List R}

def Follows (c' : Config) (obs : Out → List R) (rep : Record c → List R) (r : Record c) : Prop :=
  ∀ (size : ℤ) (mem : Memory) (start : ℤ), Holds mem start r.bytes → Room 64 start r.size →
    Consumes obs (iteration c' size) mem start r.size () (rep r)

def shown (obs : Out → List R) (trace : List (ℤ × List (Event Out))) : List (ℤ × List R) :=
  trace.map fun e => (e.1, seen obs e.2)

def due (rep : Record c → List R) (off : ℤ) (records : List (Record c)) : List (ℤ × List R) :=
  records.mapIdx fun i r => (off + startOf records i, rep r)

theorem due_cons (off : ℤ) (r : Record c) (rest : List (Record c)) :
    due rep off (r :: rest) = (off, rep r) :: due rep (off + r.size) rest := by
  unfold due
  rw [List.mapIdx_cons]
  simp [Int.add_assoc]

theorem due_snd (off : ℤ) (records : List (Record c)) :
    (due rep off records).map Prod.snd = records.map rep := by
  induction records generalizing off with
  | nil => rfl
  | cons r rest ih => rw [due_cons, List.map_cons, ih, List.map_cons]

/-- One iteration puts one entry into the trace. -/
theorem loopBody_consumes {c' : Config} {size : ℤ} {mem : Memory} {s : LoopState} {n : ℕ}
    {seen : List R} (h : Consumes obs (iteration c' size) mem s.offset n () seen) :
    ∃ t, loopBody c' size mem s = some t ∧ t.offset = s.offset + n ∧
      shown obs t.trace = shown obs s.trace ++ [(s.offset, seen)] := by
  unfold loopBody
  simp only [h.exit, Option.map_some]
  exact ⟨_, rfl, rfl, by simp [shown, h.shows]⟩

/-- The loop passes over records that it can follow, whatever comes behind them. -/
theorem recordLoop_front {c' : Config} (size : ℤ) (mem : Memory) (front : List (Record c))
    (s : LoopState) (h : ∀ r ∈ front, Follows c' obs rep r)
    (hold : Holds mem s.offset (streamBytes front))
    (room : Room 64 s.offset (streamBytes front).length)
    (hsize : s.offset + (streamBytes front).length ≤ size) :
    ∃ u, u.offset = s.offset + (streamBytes front).length ∧
      shown obs u.trace = shown obs s.trace ++ due rep s.offset front ∧
      ∀ fuel, recordLoop c' size mem (front.length + fuel) s = recordLoop c' size mem fuel u := by
  induction front generalizing s with
  | nil =>
    refine ⟨s, by simp [streamBytes], by simp [due], fun fuel => ?_⟩
    rw [List.length_nil, Nat.zero_add]
  | cons r rest ih =>
    have hbytes : streamBytes (r :: rest) = r.bytes ++ streamBytes rest := rfl
    have hrsize : r.bytes.length = r.size := r.raw.bytes_length
    rw [hbytes] at hold room hsize ⊢
    obtain ⟨hfirst, hrest⟩ := (holds_append ..).mp hold
    have hroom := room.append
    rw [hrsize] at hrest hroom
    rw [List.length_append, hrsize] at hsize ⊢
    push_cast at hsize ⊢
    obtain ⟨u, hbody, hoff, htrace⟩ :=
      loopBody_consumes (h r List.mem_cons_self size mem s.offset hfirst hroom.1)
    have hin : inWindow size s = true := by
      have hpos : 8 ≤ r.size := Nat.le_add_right ..
      simp only [inWindow, decide_eq_true_eq]
      omega
    obtain ⟨t, hend, hshown, hloop⟩ := ih u (fun q hq => h q (List.mem_cons_of_mem r hq))
      (hoff ▸ hrest) (hoff ▸ hroom.2) (by omega)
    refine ⟨t, by omega, ?_, fun fuel => ?_⟩
    · rw [hshown, htrace, hoff, due_cons, List.append_assoc, List.singleton_append]
    · rw [List.length_cons, Nat.add_right_comm]
      exact (While.loop_step (rest.length + fuel) ⟨hin, hbody⟩).trans (hloop fuel)

/-- The loop over a window that ends where the stream ends. -/
theorem recordLoop_follows {c' : Config} (size : ℤ) (mem : Memory) (records : List (Record c))
    (s : LoopState) (h : ∀ r ∈ records, Follows c' obs rep r)
    (hold : Holds mem s.offset (streamBytes records))
    (room : Room 64 s.offset (streamBytes records).length)
    (hsize : s.offset + (streamBytes records).length = size) :
    ∃ t, recordLoop c' size mem records.length s = some t ∧
      shown obs t.trace = shown obs s.trace ++ due rep s.offset records := by
  obtain ⟨t, hoff, htrace, hloop⟩ := recordLoop_front size mem records s h hold room hsize.le
  have hdone : inWindow size t = false := by
    simp [inWindow, hoff, hsize]
  exact ⟨t, (hloop 0).trans (While.loop_done 0 t hdone), htrace⟩

/-- A call on a ring that has such a stream in its unread part. -/
theorem perfMmapRead_follows (pageSize mmapSize prevHead : ℤ) (m : Mapping) (c' : Config)
    (eventsRead : Option ℕ) (data : Memory) (records : List (Record c))
    (hrecords : ∀ r ∈ records, Follows c' obs rep r) (hmmap : mmapSize ≠ 0) (hprev : 0 ≤ prevHead)
    (hbound : m.dataHead < 2 ^ 63)
    (hhead : (m.dataHead : ℤ) - prevHead = (streamBytes records).length)
    (hfit : ((streamBytes records).length : ℤ) ≤ bufferSize mmapSize pageSize)
    (hring : Holds (ringView (bufferSize mmapSize pageSize) prevHead m.ring) 0
      (streamBytes records)) :
    ∃ r : Finished,
      (∀ fuel, records.length ≤ fuel →
        perfMmapRead pageSize (some m) mmapSize prevHead c' eventsRead true data fuel =
          some (.finished r)) ∧
      shown obs r.loop.trace =
        records.mapIdx fun i rec => ((startOf records i : ℤ), rep rec) := by
  have hbuffer : 2 * bufferSize mmapSize pageSize < 2 ^ 32 := wrap_lt 32 _ (by omega)
  have hread : readHead m = m.dataHead := wrap_eq 64 _ (by omega) (by omega)
  have hsize : windowSize (readHead m) prevHead = (streamBytes records).length := by
    unfold windowSize
    rw [hread, hhead, wrap_eq 32 _ (by omega) (by omega)]
  have hwindow := unwrapRing_holds _ prevHead m.ring data _ hprev hfit hring
  have hroom : Room 64 (loopStart eventsRead).offset (streamBytes records).length :=
    room_of_nonneg (Int.le_refl 0) (by simp only [loopStart]; omega)
  have hend : (loopStart eventsRead).offset + (streamBytes records).length =
      windowSize (readHead m) prevHead := by
    rw [hsize]
    simp [loopStart]
  obtain ⟨t, hloop, htrace⟩ := recordLoop_follows _ _ records (loopStart eventsRead) hrecords
    hwindow hroom hend
  refine ⟨afterLoop pageSize m mmapSize prevHead data t, fun fuel hfuel =>
    perfMmapRead_finished hmmap (While.loop_mono hfuel hloop), ?_⟩
  simp only [afterLoop, htrace]
  simp [loopStart, shown, due]

/-- A way to read the log, without its headers, with the records that it can follow, and
what each of them deserves. -/
structure Reader (c : Config) (R : Type) where
  obs : Out → List R
  deaf : Deaf .header obs
  rep : Record c → List R
  reads : Record c → Prop
  follows : ∀ r, reads r → Follows c obs rep r

def recordReport (r : Record c) : List (Site × Value) := payloadReport c r.payload

def reportReader (c : Config) : Reader c (Site × Value) where
  obs := reported
  deaf := reported_deaf
  rep := recordReport
  reads := Decodable c
  follows := fun r h size mem start hold room => iteration_consumes r h size mem start hold room

end PapiSample.FollowedStreams
