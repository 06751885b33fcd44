import PapiSample.OverlapSteps
import PapiSample.Sessions

/-!
Activations that do not disturb each other keep to their own rings, in every
session and however their statements interleave. One that does can make another
one read its ring, decode its bytes and store its head.
-/
namespace PapiSample.OverlapSafety

open Bytes CircularBuffer Delivery MmapRead Process SampleInit OpenedEvents Handler Registry
  HandlerRuns RingReads Sessions Overlap OverlapInvariant OverlapSteps Transition

variable {pl : Platform} {ses : Session}

theorem sampling_inv {w : World} (h : Started ses w) : Inv pl ses (Overlap.State.sampling w) := by
  refine ⟨h.registered, fun i a ha => absurd ha (by simp [Overlap.State.sampling]), fun i hi => ?_⟩
  refine ⟨Stream.empty, newRing (ses.fd i), h.rings i hi, ?_, ⟨h.heads i hi, rfl⟩, rfl⟩
  refine ⟨rfl, Nat.two_pow_pos 63, Nat.le_refl _, ?_, stores_nil _ _ _⟩
  have := bytesize_pos pl
  simp only [newRing]
  omega

/-- What waits in front of the record loop is what its ring holds behind the
previous head. -/
theorem decoded_own {st : Stream Byte} {m : Mapping} {prev : ℤ} {data : Memory} {f : Frame}
    (htracks : Tracks (bytesize pl) st m) (haimed : Aimed st m.dataTail prev f)
    (hcopied : Copied data st.produced m.dataTail f.head (bytesize pl)) (k : ℕ)
    (hk : k < windowSize f.head f.prevHead) :
    data k = m.ring ((f.prevHead + k) % bytesize pl) := by
  obtain ⟨hsize, hfits, hhead⟩ := windowSize_eq htracks haimed
  have hbyte := hcopied k (by omega) (by omega)
  have hcell := htracks.stores (m.dataTail + k) _ (by omega) hbyte
  rw [haimed.prevHead, ← hcell]
  push_cast
  rfl

/-- Under the invariant the activations keep to their own rings. -/
theorem ownRings_of_inv {s : Overlap.State} (h : Inv pl ses s) : OwnRings pl ses s := by
  have hbusy : ∀ i a, s.activations i = some a → ∃ st r, s.world.rings (ses.ring i) = some r ∧
      Tracks (bytesize pl) st r.mapping ∧ Busy (bytesize pl) s (ses.ring i)
        (s.world.heads ses.block i) st r.mapping.dataTail a.frame := by
    intro i a ha
    obtain ⟨st, r, hinv⟩ := h.ring i (h.placed i a ha).1.cpu
    rw [ha] at hinv
    exact ⟨st, r, hinv.mapped, hinv.tracks, hinv.serves⟩
  constructor
  · intro i a ha hbound
    obtain ⟨hframe, _⟩ := h.placed i a ha
    exact ⟨hframe.fd, (hframe.bound hbound).2⟩
  · intro i a ha hpc
    obtain ⟨_, _, _, _, hstage, _⟩ := hbusy i a ha
    simp only [Stage, hpc] at hstage
    exact hstage.2.trans hstage.1.prev.symm
  · intro i a ha hpc
    obtain ⟨_, _, _, _, _, _, hsourced⟩ := hbusy i a ha
    simp only [Sourced, hpc] at hsourced
    exact hsourced
  · intro i a r ha hpc hr
    obtain ⟨st, r', hr', htracks, hstage, _⟩ := hbusy i a ha
    cases hr.symm.trans hr'
    simp only [Stage, hpc] at hstage
    exact decoded_own htracks hstage.1 hstage.2
  · intro i a loop since ha hpoint
    have hplaced := (h.placed i a ha).2
    simp only [Placed, hpoint] at hplaced
    exact hplaced.2
  · intro i hi hdone
    cases hact : s.activations i with
    | none =>
      obtain ⟨st, r, hinv⟩ := h.ring i hi
      rw [hact] at hinv
      have hidle : Idle s (ses.ring i) _ st r.mapping.dataTail := hinv.serves
      exact ⟨r, hinv.mapped, hidle.settled.prev.trans hidle.noted, hidle.noted⟩
    | some a =>
      obtain ⟨st, r, hr, _, hstage, hnoted, _⟩ := hbusy i a hact
      have hnot := hdone a hact
      rw [Noted, hnot] at hnoted
      have htail : (r.mapping.dataTail : ℤ) = s.headRead (ses.ring i) := hnoted
      have hprev : s.world.heads ses.block i = r.mapping.dataTail := by
        unfold Stage at hstage
        cases hpc : a.frame.pc with
        | disable | lookup | refresh =>
          rw [hpc] at hstage
          exact hstage.prev
        | readHead =>
          rw [hpc] at hstage
          exact hstage.1.prev
        | _ =>
          rw [hpc] at hnot
          contradiction
      exact ⟨r, hr, hprev.trans htail, htail⟩

/-- In every session, however the activations interleave: as long as nobody is
disturbed, they keep to their own rings. -/
theorem overlap_ownRings (pl : Platform) (a : Answers) (args : Args)
    (episodes : List (World × World)) (w w' : World) (block : ℕ) (labels : List Overlap.Label)
    (t : Overlap.State) (hprev : History pl episodes w) (hdistinct : Distinct a pl.cpus)
    (hinit : papiSampleInit pl a args w = .fds block w')
    (hrun : Run (CalmStep pl) (Overlap.State.sampling (papiSampleStart pl block w')) labels t) :
    OwnRings pl (sessionOf pl a w hdistinct) t := by
  have hstarted := (init_started hdistinct (history_registry hprev).2 hinit).start pl block
  have hinv := hrun.invariant (Inv pl (sessionOf pl a w hdistinct)) (sampling_inv hstarted)
    fun _ _ _ _ h hstep => step_inv rfl h hstep
  exact ownRings_of_inv hinv

def twoRings : Session :=
  sessionOf twoCpus (kernelAnswers false) World.initial kernelAnswers_distinct

/-- Both handlers run at a time, but one copies and decodes after the other. -/
def calmSchedule : List Overlap.Label :=
  [.signal 0, .signal 1] ++ List.replicate 5 (.act 0) ++ List.replicate 7 (.act 1) ++
    List.replicate 8 (.act 0) ++ List.replicate 7 (.act 1)

theorem overlap_ownRings_calm :
    ∃ w' t, papiSampleInit twoCpus (kernelAnswers false) branchArgs World.initial = .fds 1 w' ∧
      Run (CalmStep twoCpus) (Overlap.State.sampling (papiSampleStart twoCpus 1 w'))
        calmSchedule t ∧ OwnRings twoCpus twoRings t := by
  obtain ⟨w', hinit⟩ : ∃ w', papiSampleInit twoCpus (kernelAnswers false) branchArgs World.initial =
      .fds 1 w' := ⟨_, rfl⟩
  have hends : (follow twoCpus (calm twoCpus) calmSchedule
      (Overlap.State.sampling (papiSampleStart twoCpus 1 w'))).isSome = true := by
    cases hinit
    decide +kernel
  obtain ⟨t, ht⟩ := Option.isSome_iff_exists.mp hends
  have hrun := follow_run twoCpus ht
  exact ⟨w', t, hinit, hrun, overlap_ownRings twoCpus (kernelAnswers false) branchArgs []
    World.initial w' 1 calmSchedule t History.start kernelAnswers_distinct hinit hrun⟩

/-- The second handler writes `our_mmap` before the first one reads it again. -/
def mixedSchedule : List Overlap.Label :=
  [.signal 0, .signal 1] ++ List.replicate 4 (.act 0) ++ List.replicate 5 (.act 1) ++ [.act 0]

/-- The first handler calls perf_mmap_read for the ring of the second. -/
theorem rings_mixed :
    ∃ w' t, papiSampleInit twoCpus (kernelAnswers false) branchArgs World.initial = .fds 1 w' ∧
      Run (Overlap.Step twoCpus) (Overlap.State.sampling (papiSampleStart twoCpus 1 w'))
        mixedSchedule t ∧ ¬ OwnRings twoCpus twoRings t := by
  obtain ⟨w', hinit⟩ : ∃ w', papiSampleInit twoCpus (kernelAnswers false) branchArgs World.initial =
      .fds 1 w' := ⟨_, rfl⟩
  have hends : (follow twoCpus (fun _ _ => true) mixedSchedule
      (Overlap.State.sampling (papiSampleStart twoCpus 1 w'))).map (fun t =>
        (t.activations 0).map fun a => (a.frame.pc, a.frame.ourMmap)) =
      some (some (.readHead, 1)) := by
    cases hinit
    decide +kernel
  obtain ⟨t, ht, hact⟩ := Option.map_eq_some_iff.mp hends
  obtain ⟨a, ha, hframe⟩ := Option.map_eq_some_iff.mp hact
  obtain ⟨hpc, hring⟩ := Prod.mk.inj hframe
  refine ⟨w', t, hinit, ?_, fun hown => ?_⟩
  · exact (follow_run twoCpus ht).mono fun _ _ _ hstep => hstep.1
  · have hcalled := (hown.called 0 a ha (by rw [hpc]; rfl)).2
    rw [hring] at hcalled
    contradiction

end PapiSample.OverlapSafety
