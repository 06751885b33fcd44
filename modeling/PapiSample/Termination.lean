import PapiSample.FailedCopies

/-!
When the record loop ends. The lengths and counts of a record are signed words
of the data, so a record may take the cursor back, or leave it where it was, and
a count may exceed the index of its loop. The loop ends exactly when no record
it comes to does either, unless the process ends in it.
-/
namespace PapiSample.Termination

open Bytes Cursor PerfEvent ParseRecord SampleFields RecordLoop Advance RecordAdvance
  FailedCopies While

variable {c : Config}

def fieldsLength (c : Config) (mem : Memory) : List SampleField → ℤ → Option ℤ
  | [], _ => some 0
  | f :: rest, off =>
    if f.isSet c.sampleType then
      (fieldLength c mem off f).bind fun n =>
        (fieldsLength c mem rest (moved 64 off n)).map (n + ·)
    else fieldsLength c mem rest off

/-- The length of the record at `start`, as its case in the code sees it: there
is none if a count exceeds what the index of its loop can reach, or if a copy fails. -/
def recordLength (c : Config) (size : ℤ) (mem : Memory) (start : ℤ) : Option ℤ :=
  match RecordType.ofCode (word32 mem start) with
  | some .comm => namedLength mem start 16
  | some .mmap => namedLength mem start 40
  | some .mmap2 => namedLength mem start 72
  | some .sample => (fieldsLength c mem blockOrder (moved 64 start 8)).map (8 + ·)
  | some .read | some .namespaces | none => some (size - start)
  | some r => fixedLength r

def Advances (c : Config) (size : ℤ) (mem : Memory) (start : ℤ) : Prop :=
  ∃ n, recordLength c size mem start = some n ∧ start < moved 64 start n

def Follows (c : Config) (size : ℤ) (mem : Memory) (start next : ℤ) : Prop :=
  start < size ∧ ∃ n, recordLength c size mem start = some n ∧ next = moved 64 start n

/-- The places that are taken for record headers. -/
def Reached (c : Config) (size : ℤ) (mem : Memory) : ℤ → Prop :=
  Relation.ReflTransGen (Follows c size mem) 0

/-- The loop performs finitely many iterations, each of which ends further on
than it began; the last one may be the end of the process. -/
def LoopEnds (c : Config) (size : ℤ) (mem : Memory) (s : LoopState) : Prop :=
  ((∃ fuel t, recordLoop c size mem fuel s = some t) ∨
      ∃ t, Reaches (inWindow size) (loopBody c size mem) s t ∧ inWindow size t = true ∧
        Killed c size mem t.offset) ∧
    ∀ t, Reaches (inWindow size) (loopBody c size mem) s t → inWindow size t = true →
      Killed c size mem t.offset ∨ ∃ u, loopBody c size mem t = some u ∧ t.offset < u.offset

/-- If the first record fills the window, no other place is taken for a header. -/
theorem Reached.only_first {size : ℤ} {mem : Memory}
    (hlength : recordLength c size mem 0 = some size) (hsize : moved 64 0 size = size) {start : ℤ}
    (h : Reached c size mem start) (hlt : start < size) :
    start = 0 := by
  have honly : start = 0 ∨ start = size := by
    clear hlt
    induction h with
    | refl => exact Or.inl rfl
    | tail _ hlast ih =>
      obtain ⟨hlt, n, hlen, hnext⟩ := hlast
      rcases ih with rfl | rfl
      · rw [hlength] at hlen
        cases hlen
        exact Or.inr (hnext.trans hsize)
      · omega
  omega

theorem fieldsNext_eq (mem : Memory) (order : List SampleField) (off : ℤ)
    (hoff : wrap 64 off = off) :
    fieldsNext c mem order off = (fieldsLength c mem order off).map (moved 64 off) := by
  induction order generalizing off with
  | nil => simp [fieldsNext, fieldsLength, moved, hoff]
  | cons f rest ih =>
    unfold fieldsNext fieldsLength
    cases f.isSet c.sampleType with
    | false =>
      simp only [Bool.false_eq_true, if_false]
      exact ih off hoff
    | true =>
      simp only [if_true]
      cases fieldLength c mem off f with
      | none => rfl
      | some n =>
        simp only [Option.bind_some, ih _ (wrap_moved ..), Option.map_map]
        congr 1
        funext m
        exact moved_moved ..

def IsInt (size : ℤ) : Prop := wrap 32 size = size

instance (size : ℤ) : Decidable (IsInt size) := inferInstanceAs (Decidable (_ = _))

theorem IsInt.bounds {size : ℤ} (h : IsInt size) : -2 ^ 31 ≤ size ∧ size < 2 ^ 31 := by
  unfold IsInt wrap at h
  have hlow := Int.le_bmod (x := size) (m := 2 ^ 32) (by omega)
  have hhigh := Int.bmod_lt (x := size) (m := 2 ^ 32) (by omega)
  rw [h] at hlow hhigh
  omega

theorem recordNext_eq (size : ℤ) (hsize : IsInt size) (mem : Memory) (start : ℤ) :
    recordNext c size mem start = (recordLength c size mem start).map (moved 64 start) := by
  have hdefault : some size = (some (size - start)).map (moved 64 start) := by
    have hbounds := hsize.bounds
    rw [Option.map_some, moved, Int.add_comm, Int.sub_add_cancel,
      wrap_eq 64 size (by omega) (by omega)]
  unfold recordNext recordLength
  cases RecordType.ofCode (word32 mem start) with
  | none => exact hdefault
  | some r =>
    cases r with
    | read => exact hdefault
    | namespaces => exact hdefault
    | sample =>
      simp only [fieldsNext_eq mem blockOrder _ (wrap_moved ..), Option.map_map]
      congr 1
      funext m
      exact moved_moved ..
    | _ => rfl

/-- The body of the loop fails to end exactly where there is no length. -/
theorem loopBody_offset (size : ℤ) (hsize : IsInt size) (mem : Memory) (s : LoopState) :
    (loopBody c size mem s).map LoopState.offset =
      (recordLength c size mem s.offset).map (moved 64 s.offset) := by
  unfold loopBody
  simp only [exit_iteration, Option.map_map]
  rw [recordNext_eq size hsize mem s.offset]
  cases recordLength c size mem s.offset <;> rfl

theorem iterates_follows {size : ℤ} (hsize : IsInt size) {mem : Memory} {s t : LoopState}
    (h : Iterates (inWindow size) (loopBody c size mem) s t) :
    Follows c size mem s.offset t.offset := by
  obtain ⟨hin, hbody⟩ := h
  have hoff := loopBody_offset (c := c) size hsize mem s
  rw [hbody] at hoff
  refine ⟨by simpa [inWindow] using hin, ?_⟩
  cases hlen : recordLength c size mem s.offset with
  | none => rw [hlen] at hoff; contradiction
  | some n =>
    rw [hlen] at hoff
    exact ⟨n, rfl, by simpa using hoff⟩

/-- Every loop state stands at a place that is taken for a header. -/
theorem reached_of_reaches {size : ℤ} (hsize : IsInt size) {mem : Memory} {s t : LoopState}
    (hs : Reached c size mem s.offset)
    (h : Reaches (inWindow size) (loopBody c size mem) s t) : Reached c size mem t.offset :=
  h.invariant (fun u => Reached c size mem u.offset) hs
    fun _ _ hu hstep => hu.tail (iterates_follows hsize hstep)

/-- The loop comes to every place that is taken for a header. -/
theorem reaches_of_reached {size : ℤ} (hsize : IsInt size) {mem : Memory} (s : LoopState)
    (hs : s.offset = 0) {start : ℤ} (h : Reached c size mem start) :
    ∃ t, Reaches (inWindow size) (loopBody c size mem) s t ∧ t.offset = start := by
  induction h with
  | refl => exact ⟨s, Relation.ReflTransGen.refl, hs⟩
  | tail _ hlast ih =>
    obtain ⟨t, hreach, hoff⟩ := ih
    obtain ⟨hlt, n, hlen, hnext⟩ := hlast
    subst hoff
    have hbody := loopBody_offset (c := c) size hsize mem t
    rw [hlen, Option.map_some] at hbody
    obtain ⟨u, hu, hend⟩ := Option.map_eq_some_iff.mp hbody
    refine ⟨u, hreach.tail ⟨by simpa [inWindow] using hlt, hu⟩, ?_⟩
    rw [hend, hnext]

/-- The trace keeps the iterations that were performed, and no others. -/
theorem trace_events {size : ℤ} {mem : Memory} {P : Event Out → Prop} {s t : LoopState}
    (hs : s.trace = [])
    (h : ∀ u, Reaches (inWindow size) (loopBody c size mem) s u → inWindow size u = true →
      ∀ e ∈ (iteration c size mem u.offset).log, P e)
    (hreach : Reaches (inWindow size) (loopBody c size mem) s t) :
    ∀ step ∈ t.trace, ∀ e ∈ step.2, P e := by
  induction hreach with
  | refl =>
    rw [hs]
    exact fun step hstep => absurd hstep List.not_mem_nil
  | tail hprev hlast ih =>
    rename_i u v
    obtain ⟨_, _, rfl⟩ := Option.map_eq_some_iff.mp hlast.2
    intro step hstep
    rcases List.mem_append.mp hstep with hold | hnew
    · exact ih step hold
    · rw [List.mem_singleton.mp hnew]
      exact h u hprev hlast.1

theorem advances_iff {size : ℤ} (hsize : IsInt size) {mem : Memory} (s : LoopState) :
    Advances c size mem s.offset ↔
      ∃ t, loopBody c size mem s = some t ∧ s.offset < t.offset := by
  have hbody := loopBody_offset (c := c) size hsize mem s
  constructor
  · rintro ⟨n, hlen, hlt⟩
    rw [hlen, Option.map_some] at hbody
    obtain ⟨t, ht, hend⟩ := Option.map_eq_some_iff.mp hbody
    exact ⟨t, ht, hend ▸ hlt⟩
  · rintro ⟨t, ht, hlt⟩
    rw [ht, Option.map_some] at hbody
    obtain ⟨n, hlen, hend⟩ := Option.map_eq_some_iff.mp hbody.symm
    exact ⟨n, hlen, hend ▸ hlt⟩

/-- The loop ends, going forward all the way, exactly when every record it comes to
either asks for a copy that has no length, which is the end of the process, or has a
length that takes the offset forward. -/
theorem recordLoop_ends_iff (c : Config) (size : ℤ) (hsize : IsInt size) (mem : Memory)
    (eventsRead : Option ℕ) :
    LoopEnds c size mem (loopStart eventsRead) ↔
      ∀ start, Reached c size mem start → start < size →
        ¬ Served c mem start ∨ Advances c size mem start := by
  constructor
  · rintro ⟨_, hforward⟩ start hreached hlt
    obtain ⟨t, ht, rfl⟩ := reaches_of_reached hsize (loopStart eventsRead) rfl hreached
    rcases hforward t ht (by simpa [inWindow] using hlt) with hkilled | hends
    · exact .inl ((killed_iff ..).mp hkilled)
    · exact .inr ((advances_iff hsize t).mpr hends)
  · intro hall
    have hforward : ∀ t, Reaches (inWindow size) (loopBody c size mem) (loopStart eventsRead) t →
        inWindow size t = true → Killed c size mem t.offset ∨
          ∃ u, loopBody c size mem t = some u ∧ t.offset < u.offset := by
      intro t ht hin
      have hreached := reached_of_reaches hsize (s := loopStart eventsRead)
        Relation.ReflTransGen.refl ht
      rcases hall _ hreached (by simpa [inWindow] using hin) with hrefused | hadvances
      · exact .inl ((killed_iff ..).mpr hrefused)
      · exact .inr ((advances_iff hsize t).mp hadvances)
    refine ⟨loop_terminates (fun t : LoopState => (size - t.offset).toNat)
      (fun t => Killed c size mem t.offset) _ fun t ht hin => ?_, hforward⟩
    refine (hforward t ht hin).imp_right fun ⟨u, hu, hlt⟩ => ⟨u, hu, ?_⟩
    simp only [inWindow, decide_eq_true_eq] at hin
    omega

def rawConfig : Config where
  arch := .x86_64
  sampleType := 0x400
  readFormat := 0
  regMask := 0
  validate := none
  quiet := true
  rawType := RAW_NONE
  heap := fun _ => 0

def backwards : Memory := overlay (headerBytes 9 0 12 ++ le32 (-12)) fun _ => 0

/-- The offset comes back to the header of the record, for ever. -/
theorem backwards_loops :
    (∀ fuel, recordLoop rawConfig 12 backwards fuel (loopStart none) = none) ∧
      ¬ LoopEnds rawConfig 12 backwards (loopStart none) := by
  have hback : ∀ s : LoopState, s.offset = 0 →
      ∃ t, loopBody rawConfig 12 backwards s = some t ∧ t.offset = 0 := by
    intro s hs
    have hlen : recordLength rawConfig 12 backwards 0 = some 0 := by decide
    have hbody := loopBody_offset (c := rawConfig) 12 (by decide) backwards s
    rw [hs, hlen] at hbody
    exact Option.map_eq_some_iff.mp hbody
  have hloop : ∀ fuel, recordLoop rawConfig 12 backwards fuel (loopStart none) = none := by
    intro fuel
    refine loop_diverges (fun s => s.offset = 0) (fun s hs => ?_) fuel _ rfl
    obtain ⟨t, ht, hoff⟩ := hback s hs
    exact ⟨t, ⟨by simp [inWindow, hs], ht⟩, hoff⟩
  have hstays : ∀ t, Reaches (inWindow 12) (loopBody rawConfig 12 backwards) (loopStart none) t →
      t.offset = 0 := by
    intro t hreach
    refine hreach.invariant (fun s => s.offset = 0) rfl fun u v hu hstep => ?_
    obtain ⟨w, hw, hoff⟩ := hback u hu
    rw [hstep.2] at hw
    cases hw
    exact hoff
  have hserved : Served rawConfig backwards 0 := by
    have htype : RecordType.ofCode (word32 backwards 0) = some .sample := by decide
    rw [Served, htype]
    refine EachField.of_forall (fun f hset off hstack => ?_) _ _
    subst hstack
    exact absurd hset (by decide)
  refine ⟨hloop, ?_⟩
  rintro ⟨⟨fuel, t, hend⟩ | ⟨t, hreach, _, hkilled⟩, _⟩
  · rw [hloop fuel] at hend
    contradiction
  · rw [hstays t hreach] at hkilled
    exact (killed_iff ..).mp hkilled hserved

/-- In a window of zeros the loop ends at once: there is no record of type zero. -/
theorem recordLoop_ends_zeros :
    IsInt 16 ∧ LoopEnds rawConfig 16 (fun _ => 0) (loopStart none) := by
  refine ⟨by decide, (recordLoop_ends_iff rawConfig 16 (by decide) _ none).mpr ?_⟩
  intro start _ hlt
  right
  have htype : word32 (fun _ => 0) start = 0 := by
    rw [word32, readBytes_zeros]
    decide
  refine ⟨16 - start, ?_, ?_⟩
  · rw [recordLength, htype]
    rfl
  · rw [moved, Int.add_comm, Int.sub_add_cancel]
    exact hlt

end PapiSample.Termination
