import Mathlib.Data.List.Nodup
import PapiSample.HandlerRuns

/-!
What PAPI_sample_stop takes away, and when. Each of its statements, the refreshes
apart, takes away one thing, which is there exactly as long as the statement is
still to come.
-/
namespace PapiSample.Teardown

open Bytes MmapRead Process Handler Registry HandlerRuns Transition

/-- What a statement of PAPI_sample_stop takes away is still there. -/
def Held (ses : Session) (w : World) : StopStep → Prop
  | .refresh _ => True
  | .disable i => w.stopped (ses.fd i) = false
  | .close i => (w.files (ses.fd i)).isSome = true
  | .unmap i => (w.rings (ses.ring i)).isSome = true
  | .closeLog => w.logOpen = true
  | .freeFds => w.fdsLive ses.block = true
  | .freeHeads => w.headsLive ses.block = true
  | .freeData => w.dataLive = true

def Takes (cpus : ℕ) : StopStep → Prop
  | .refresh _ => False
  | .disable i | .close i | .unmap i => i < cpus
  | .closeLog | .freeFds | .freeHeads | .freeData => True

variable {pl : Platform} {ses : Session} {w w' : World} {cpus numMaps : ℕ}

theorem Held.congr (hres : w'.resources = w.resources)
    (hmapped : ∀ ring, (w'.rings ring).isSome = (w.rings ring).isSome) (s : StopStep) :
    Held ses w' s ↔ Held ses w s := by
  have hopen : ∀ fd, (w'.files fd).isSome = (w.files fd).isSome := fun fd =>
    congrFun (congrArg Resources.isOpen hres) fd
  have hstopped : w'.stopped = w.stopped := congrArg Resources.stopped hres
  have hlog : w'.logOpen = w.logOpen := congrArg Resources.logOpen hres
  have hfds : w'.fdsLive = w.fdsLive := congrArg Resources.fdsLive hres
  have hheads : w'.headsLive = w.headsLive := congrArg Resources.headsLive hres
  have hdata : w'.dataLive = w.dataLive := congrArg Resources.dataLive hres
  cases s <;> simp only [Held, hopen, hstopped, hlog, hfds, hheads, hdata, hmapped]

theorem held_disable (hreg : Registered ses w) {i : ℕ} (hi : i < ses.cpus) {s : StopStep}
    (hs : Takes ses.cpus s) :
    Held ses (perform w (.disable i)) s ↔ Held ses w s ∧ s ≠ .disable i := by
  have hsame : Held ses (w.setEnabled (w.currentFd i) false) s ↔ Held ses w s :=
    Held.congr (setEnabled_resources ..) (fun _ => rfl) s
  cases s with
  | disable j =>
    simp only [Held, perform, hreg.currentFd hi]
    by_cases heq : j = i
    · simp [heq]
    · have hfd : ses.fd j ≠ ses.fd i := fun h => heq (ses.distinct j i hs hi h)
      simp [Function.update_of_ne hfd, heq]
  | _ => exact hsame.trans (and_iff_left (by simp)).symm

theorem held_close (hreg : Registered ses w) {i : ℕ} (hi : i < ses.cpus) {s : StopStep}
    (hs : Takes ses.cpus s) : Held ses (perform w (.close i)) s ↔ Held ses w s ∧ s ≠ .close i := by
  cases s with
  | close j =>
    simp only [Held, perform, hreg.currentFd hi]
    by_cases heq : j = i
    · simp [heq]
    · have hfd : ses.fd j ≠ ses.fd i := fun h => heq (ses.distinct j i hs hi h)
      simp [Function.update_of_ne hfd, heq]
  | _ => exact (and_iff_left (by simp)).symm

theorem held_unmap (hreg : Registered ses w) (i : ℕ) {s : StopStep} (hs : Takes ses.cpus s) :
    Held ses (perform w (.unmap i)) s ↔ Held ses w s ∧ s ≠ .unmap i := by
  simp only [perform]
  rcases Nat.lt_or_ge i ses.cpus with hi | hi
  · rw [hreg.mmaps i hi]
    cases s with
    | unmap j =>
      simp only [Held, Session.entry]
      by_cases heq : j = i
      · simp [heq]
      · have hring : ses.ring j ≠ ses.ring i := by
          simp only [Session.ring]
          omega
        simp [Function.update_of_ne hring, heq]
    | _ => exact (and_iff_left (by simp)).symm
  · rw [hreg.others i hi]
    refine (and_iff_left fun heq => ?_).symm
    subst heq
    exact absurd hs (Nat.not_lt.mpr hi)

/-- A statement takes away its own thing and nothing else. -/
theorem held_perform (hreg : Registered ses w) {s t : StopStep} (hs : Takes ses.cpus s)
    (ht : t ∈ stopSteps ses.cpus numMaps) : Held ses (perform w t) s ↔ Held ses w s ∧ s ≠ t := by
  cases t with
  | refresh i =>
    have hsame : Held ses (w.setEnabled (w.currentFd i) true) s ↔ Held ses w s :=
      Held.congr (setEnabled_resources ..) (fun _ => rfl) s
    exact hsame.trans (and_iff_left fun heq => by
      rw [heq] at hs
      exact hs).symm
  | disable i => exact held_disable hreg (mem_stopSteps.mp ht) hs
  | close i => exact held_close hreg (mem_stopSteps.mp ht) hs
  | unmap i => exact held_unmap hreg i hs
  | closeLog => cases s <;> simp [Held, perform]
  | freeFds =>
    have hblock := hreg.block
    cases s <;> simp [Held, perform, hblock]
  | freeHeads =>
    have hblock := hreg.block
    cases s <;> simp [Held, perform, hblock]
  | freeData => cases s <;> simp [Held, perform]

theorem stopSteps_nodup (cpus numMaps : ℕ) : (stopSteps cpus numMaps).Nodup := by
  have hclose : ((List.range cpus).map StopStep.close).Nodup :=
    List.Nodup.map (fun i j h => by simpa using h) List.nodup_range
  have hunmap : ((List.range numMaps).map StopStep.unmap).Nodup :=
    List.Nodup.map (fun i j h => by simpa using h) List.nodup_range
  have harm : ((List.range cpus).flatMap fun i => [StopStep.refresh i, .disable i]).Nodup := by
    refine List.nodup_flatMap.mpr ⟨fun i _ => by simp, List.nodup_range.imp fun hne => ?_⟩
    simp [Function.onFun, Ne.symm hne]
  refine harm.append (hclose.append (hunmap.append (by decide) ?_) ?_) fun s hs hs' => ?_
  · simp [List.Disjoint]
  · simp [List.Disjoint]
  · cases s <;> simp at hs hs'

/-- Once a statement is still to come, so is everything of the later stages. -/
theorem later_mem {α : Type} {rest a b : List α} (hsuffix : rest <:+ a ++ b) {x y : α}
    (hx : x ∈ rest) (hxb : x ∉ b) (hy : y ∈ b) : y ∈ rest := by
  rcases List.suffix_or_suffix_of_suffix hsuffix (List.suffix_append a b) with h | h
  · exact absurd (h.subset hx) hxb
  · exact h.subset hy

structure Unwound (ses : Session) (u : State) : Prop where
  valid : Valid ses u
  suffix : u.main <:+ stopSteps ses.cpus u.world.numMaps
  held : ∀ s, Takes ses.cpus s → (Held ses u.world s ↔ s ∈ u.main)

theorem unwound_sampling (h : Started ses w) (hcpus : pl.cpus = ses.cpus) :
    Unwound ses (State.sampling pl w) := by
  have hnum := h.registered.numMaps
  refine ⟨valid_sampling h.registered, hcpus ▸ List.suffix_refl _, fun s hs => ?_⟩
  refine iff_of_true ?_ (mem_stopSteps.mpr ?_)
  · cases s with
    | refresh i => exact hs.elim
    | disable i => exact h.stopped i hs
    | close i => exact h.isOpen i hs
    | unmap i => exact Option.isSome_iff_exists.mpr ⟨_, h.rings i hs⟩
    | closeLog => exact h.logOpen
    | freeFds => exact h.fdsLive
    | freeHeads => exact h.headsLive
    | freeData => exact h.dataLive
  · cases s with
    | refresh i => exact hs.elim
    | disable i => exact hcpus ▸ hs
    | close i => exact hcpus ▸ hs
    | unmap i => exact Nat.lt_of_lt_of_le hs hnum
    | _ => trivial

/-- A step that is not one of PAPI_sample_stop takes nothing away. -/
theorem held_step {s t : State} {l : Label} (h : Step pl s l t) (hl : ∀ x, l ≠ .main x)
    (x : StopStep) : Held ses t.world x ↔ Held ses s.world x := by
  refine Held.congr ?_ (step_mapped h hl) x
  cases h with
  | append => rfl
  | signal => rfl
  | statement fuel _ hstep =>
    rw [resume_world]
    exact (statement_framed hstep).resources
  | main => exact absurd rfl (hl _)

theorem step_main {s t : State} {l : Label} (h : Step pl s l t) (hl : ∀ x, l ≠ .main x) :
    t.main = s.main := by
  cases h with
  | statement => exact resume_main ..
  | main => exact absurd rfl (hl _)
  | _ => rfl

theorem Unwound.step (hcpus : pl.cpus = ses.cpus) {u v : State} {l : Label}
    (h : Unwound ses u) (hstep : Step pl u l v) : Unwound ses v := by
  have hvalid := h.valid.step hcpus hstep
  have hnum : v.world.numMaps = u.world.numMaps :=
    congrArg Process.Registry.numMaps (step_registry hstep)
  by_cases hl : ∀ x, l ≠ .main x
  · have hmain := step_main hstep hl
    refine ⟨hvalid, by rw [hnum, hmain]; exact h.suffix, fun s hs => ?_⟩
    rw [held_step hstep hl, hmain]
    exact h.held s hs
  · cases hstep with
    | @main x rest _ _ hrest =>
      have hsuffix := h.suffix
      rw [hrest] at hsuffix
      have hnodup := (stopSteps_nodup ..).sublist hsuffix.sublist
      refine ⟨hvalid, by rw [hnum]; exact (List.suffix_cons x rest).trans hsuffix, fun s hs => ?_⟩
      have hx := hsuffix.subset List.mem_cons_self
      rw [held_perform h.valid.registered hs hx, h.held s hs, hrest, List.mem_cons]
      constructor
      · rintro ⟨rfl | hmem, hne⟩
        · exact absurd rfl hne
        · exact hmem
      · intro hmem
        exact ⟨Or.inr hmem, fun heq => (List.nodup_cons.mp hnodup).1 (heq ▸ hmem)⟩
    | _ => exact absurd nofun hl

theorem Unwound.run (hcpus : pl.cpus = ses.cpus) {u v : State} {labels : List Label}
    (h : Unwound ses u) (hrun : Run (Step pl) u labels v) : Unwound ses v :=
  hrun.invariant (Unwound ses) h fun _ _ _ _ hu hstep => hu.step hcpus hstep

end PapiSample.Teardown
