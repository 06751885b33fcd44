import PapiSample.Handler
import PapiSample.OpenedEvents

/-!
The registry of a session: one entry for each processor, in the order of the
array of descriptors. No statement of the handler or of PAPI_sample_stop changes
it, so the search for a descriptor finds its own ring throughout a session.
-/
namespace PapiSample.Registry

open Bytes Cursor ParseRecord MmapRead Process SampleInit OpenedEvents Handler Transition

variable {pl : Platform}

structure Framed (f : Frame) (w w' : World) : Prop where
  registry : w'.registry = w.registry
  resources : w'.resources = w.resources
  mapped : ∀ ring, (w'.rings ring).isSome = (w.rings ring).isSome
  rings : ∀ ring, (f.pc = .storeTail → ring ≠ f.ourMmap) → w'.rings ring = w.rings ring
  heads : ∀ slot : Slot,
    (f.pc = .storePrevHead → ∀ e, w.mmaps f.i = some e → e.prevHead ≠ slot) →
      w'.heads slot.block slot.index = w.heads slot.block slot.index

theorem framed_same {f : Frame} {w w' : World} (hregistry : w'.registry = w.registry)
    (hresources : w'.resources = w.resources) (hrings : w'.rings = w.rings)
    (hheads : w'.heads = w.heads) : Framed f w w' where
  registry := hregistry
  resources := hresources
  mapped := fun _ => by rw [hrings]
  rings := fun _ _ => by rw [hrings]
  heads := fun _ _ => by rw [hheads]

theorem setHead_framed {f : Frame} {w : World} {e : MapInfo} (hpc : f.pc = .storePrevHead)
    (he : w.mmaps f.i = some e) (ok : Bool) (fault : Fault) (head : ℤ) :
    Framed f w (setHead (w.access ok fault) e.prevHead head) where
  registry := access_registry w ok fault
  resources := access_resources w ok fault
  mapped := fun _ => by simp [setHead]
  rings := fun _ _ => congrFun (access_rings w ok fault) _
  heads := fun slot hslot => by
    have hne := hslot hpc e he
    simp only [setHead, access_heads]
    by_cases hblock : slot.block = e.prevHead.block
    · rw [hblock, Function.update_self]
      by_cases hindex : slot.index = e.prevHead.index
      · exact absurd (by cases slot; cases hp : e.prevHead; simp_all) hne
      · rw [Function.update_of_ne hindex]
    · rw [Function.update_of_ne hblock]

/-- Writing to a mapping maps and unmaps nothing. -/
theorem setMapping_mapped {w : World} {ring : ℕ} {r : Ring} (hr : w.rings ring = some r)
    (m : Mapping) (ring' : ℕ) :
    ((setMapping w ring r m).rings ring').isSome = (w.rings ring').isSome := by
  simp only [setMapping]
  by_cases heq : ring' = ring
  · rw [heq, Function.update_self, hr]
    rfl
  · rw [Function.update_of_ne heq]

theorem withRing_framed {f : Frame} {w w' : World} {next : Next} {k : Ring → World × Next}
    (h : withRing f w k = (w', next)) (hk : ∀ r, w.rings f.ourMmap = some r → Framed f w (k r).1) :
    Framed f w w' := by
  unfold withRing at h
  cases hr : w.rings f.ourMmap with
  | none =>
    rw [hr] at h
    cases h
    exact framed_same rfl rfl rfl rfl
  | some r =>
    rw [hr] at h
    have hw : w' = (k r).1 := (congrArg Prod.fst h).symm
    rw [hw]
    exact hk r hr

theorem statement_framed {fuel : ℕ} {f : Frame} {w w' : World} {next : Next}
    (h : statement pl fuel f w = some (w', next)) : Framed f w w' := by
  unfold statement at h
  split at h
  · cases h
    exact framed_same rfl (setEnabled_resources ..) rfl rfl
  · split at h
    · cases h
      exact framed_same (by simp) (by simp) (by simp) (by simp)
    · cases h
      exact framed_same (by simp) (by simp) (by simp) (by simp)
    · cases h
      exact framed_same rfl rfl rfl rfl
  · exact withRing_framed (Option.some.inj h) fun _ _ => framed_same rfl rfl rfl rfl
  · exact withRing_framed (Option.some.inj h) fun _ _ =>
      framed_same (access_registry ..) (access_resources ..) (access_rings ..) (access_heads ..)
  · exact withRing_framed (Option.some.inj h) fun _ _ =>
      framed_same (access_registry ..) (access_resources ..) (access_rings ..) (access_heads ..)
  · obtain ⟨_, _, hres⟩ := Option.map_eq_some_iff.mp h
    cases hres
    exact framed_same (access_registry ..) (access_resources ..) (access_rings ..) (access_heads ..)
  · cases h
    exact framed_same (access_registry ..) (access_resources ..) (access_rings ..) (access_heads ..)
  · rename_i hpc
    refine withRing_framed (Option.some.inj h) fun r hr =>
      ⟨rfl, rfl, setMapping_mapped hr _, fun ring hne => ?_, fun _ _ => rfl⟩
    exact Function.update_of_ne (hne hpc) _ _
  · rename_i hpc
    split at h
    · cases h
      exact framed_same rfl rfl rfl rfl
    · rename_i e he
      cases h
      exact setHead_framed hpc he _ _ _
  · cases h
    refine framed_same ?_ ?_ ?_ ?_
    · exact access_registry ..
    · rw [setEnabled_resources, access_resources]
    · exact access_rings ..
    · exact access_heads ..

theorem perform_registry (w : World) (s : StopStep) : (perform w s).registry = w.registry := by
  cases s with
  | unmap i =>
    simp only [perform]
    split <;> rfl
  | _ => rfl

/-- Nothing but PAPI_sample_init writes the registry. -/
theorem step_registry {s t : State} {l : Label} (h : Step pl s l t) :
    t.world.registry = s.world.registry := by
  cases h with
  | append => rfl
  | signal => rfl
  | statement fuel _ hstep =>
    exact (congrArg _ (resume_world ..)).trans (statement_framed hstep).registry
  | main => exact perform_registry _ _

/-- PAPI_sample_stop alone unmaps rings. -/
theorem step_mapped {s t : State} {l : Label} (h : Step pl s l t) (hl : ∀ x, l ≠ .main x)
    (ring : ℕ) : (t.world.rings ring).isSome = (s.world.rings ring).isSome := by
  cases h with
  | append _ _ hr => exact setMapping_mapped hr _ ring
  | signal => rfl
  | statement fuel _ hstep =>
    rw [resume_world]
    exact (statement_framed hstep).mapped ring
  | main => exact absurd rfl (hl _)

theorem run_registry {s t : State} {labels : List Label} (h : Run (Step pl) s labels t) :
    t.world.registry = s.world.registry :=
  h.invariant (fun u => u.world.registry = s.world.registry) rfl
    fun _ _ _ _ hu hstep => (step_registry hstep).trans hu

structure Session where
  cpus : ℕ
  firstRing : ℕ
  block : ℕ
  fd : ℕ → ℤ
  distinct : ∀ i j, i < cpus → j < cpus → fd i = fd j → i = j

def Session.ring (ses : Session) (i : ℕ) : ℕ := ses.firstRing + i

def Session.slot (ses : Session) (i : ℕ) : Slot := ⟨ses.block, i⟩

def Session.entry (ses : Session) (i : ℕ) : MapInfo :=
  { sampleMmap := ses.ring i, fd := ses.slot i, prevHead := ses.slot i }

/-- The registry lists the rings of the session first. -/
structure Registered (ses : Session) (w : World) : Prop where
  mmaps : ∀ i < ses.cpus, w.mmaps i = some (ses.entry i)
  others : ∀ i, ses.cpus ≤ i → w.mmaps i = none
  numMaps : ses.cpus ≤ w.numMaps
  block : w.block = ses.block
  fds : ∀ i < ses.cpus, w.fds ses.block i = ses.fd i

variable {ses : Session} {w : World}

theorem Registered.congr {w' : World} (h : Registered ses w) (hsame : w'.registry = w.registry) :
    Registered ses w' := by
  have hmmaps : w'.mmaps = w.mmaps := congrArg Process.Registry.mmaps hsame
  have hnum : w'.numMaps = w.numMaps := congrArg Process.Registry.numMaps hsame
  have hblock : w'.block = w.block := congrArg Process.Registry.block hsame
  have hfds : w'.fds = w.fds := congrArg Process.Registry.fds hsame
  exact ⟨by rw [hmmaps]; exact h.mmaps, by rw [hmmaps]; exact h.others, hnum ▸ h.numMaps,
    hblock.trans h.block, by rw [hfds]; exact h.fds⟩

theorem Registered.run {s t : State} {labels : List Label} (h : Registered ses s.world)
    (hrun : Run (Step pl) s labels t) : Registered ses t.world := h.congr (run_registry hrun)

theorem Registered.currentFd (h : Registered ses w) {i : ℕ} (hi : i < ses.cpus) :
    w.currentFd i = ses.fd i := by
  rw [World.currentFd, h.block]
  exact h.fds i hi

/-- The search passes the entries of other descriptors and stops at its own. -/
theorem lookupFrom_registered (h : Registered ses w) {i : ℕ} (hi : i < ses.cpus) :
    ∀ n j, j ≤ i → i < j + n → lookupFrom w (ses.fd i) j n = .entry i (ses.entry i) := by
  intro n
  induction n with
  | zero => omega
  | succ n ih =>
    intro j hj hn
    have hfd : w.fds (ses.entry j).fd.block (ses.entry j).fd.index = ses.fd j := h.fds j (by omega)
    simp only [lookupFrom, h.mmaps j (by omega), hfd]
    by_cases heq : ses.fd j = ses.fd i
    · rw [if_pos heq]
      rw [ses.distinct j i (by omega) hi heq]
    · rw [if_neg heq]
      exact ih (j + 1) (by rcases Nat.lt_or_eq_of_le hj with hlt | rfl
                           · omega
                           · exact absurd rfl heq) (by omega)

theorem lookup_registered (h : Registered ses w) {i : ℕ} (hi : i < ses.cpus) :
    lookup w (ses.fd i) = .entry i (ses.entry i) := by
  have hnum := h.numMaps
  rw [lookup, if_neg (by omega)]
  exact lookupFrom_registered h hi w.numMaps 0 (by omega) (by omega)

structure Started (ses : Session) (w : World) : Prop where
  registered : Registered ses w
  rings : ∀ i < ses.cpus, w.rings (ses.ring i) = some (newRing (ses.fd i))
  heads : ∀ i < ses.cpus, w.heads ses.block i = 0
  fdsLive : w.fdsLive ses.block = true
  headsLive : w.headsLive ses.block = true
  dataLive : w.dataLive = true
  logOpen : w.logOpen = true
  isOpen : ∀ i < ses.cpus, (w.files (ses.fd i)).isSome = true
  stopped : ∀ i < ses.cpus, w.stopped (ses.fd i) = false

def sessionOf (pl : Platform) (a : Answers) (w : World) (hdistinct : Distinct a pl.cpus) :
    Session where
  cpus := pl.cpus
  firstRing := w.nextRing
  block := w.block + 1
  fd := descriptor a
  distinct := hdistinct

theorem init_started {a : Answers} {args : Args} {w w' : World} {block : ℕ}
    (hdistinct : Distinct a pl.cpus) (hothers : ∀ i, pl.cpus ≤ i → w.mmaps i = none)
    (h : papiSampleInit pl a args w = .fds block w') :
    Started (sessionOf pl a w hdistinct) w' := by
  obtain ⟨_, _, p, rfl, hopens⟩ := papiSampleInit_opens hdistinct h
  have hkept := hopens.kept
  exact {
    registered := {
      mmaps := hopens.mmaps
      others := fun i hi => (hopens.others i hi).trans (hothers i hi)
      numMaps := by
        have hnum := hopens.numMaps
        show pl.cpus ≤ p.world.numMaps
        omega
      block := hkept.block
      fds := hopens.fds }
    rings := hopens.rings
    heads := fun i _ => by
      rw [hkept.heads]
      simp only [sessionOf, allocate, Function.update_self]
    fdsLive := by
      rw [hkept.fdsLive]
      exact Function.update_self ..
    headsLive := by
      rw [hkept.headsLive]
      exact Function.update_self ..
    dataLive := hkept.dataLive
    logOpen := hkept.logOpen
    isOpen := fun i hi => by
      obtain ⟨f, hf, _⟩ := hopens.files i hi
      show (p.world.files (descriptor a i)).isSome = true
      rw [hf]
      rfl
    stopped := hopens.stopped }

theorem Started.setEnabled (h : Started ses w) (fd : ℤ) (enabled : Bool) :
    Started ses (w.setEnabled fd enabled) := by
  have hopen : ∀ d, ((w.setEnabled fd enabled).files d).isSome = (w.files d).isSome := fun d =>
    congrFun (congrArg Resources.isOpen (setEnabled_resources w fd enabled)) d
  exact ⟨h.registered.congr rfl, h.rings, h.heads, h.fdsLive, h.headsLive, h.dataLive, h.logOpen,
    fun i hi => (hopen _).trans (h.isOpen i hi), h.stopped⟩

theorem Started.start (h : Started ses w) (pl : Platform) (block : ℕ) :
    Started ses (papiSampleStart pl block w) := by
  unfold papiSampleStart
  induction List.range pl.cpus generalizing w with
  | nil => exact h
  | cons i rest ih => exact ih (h.setEnabled _ _)

theorem papiSampleStart_registry (pl : Platform) (block : ℕ) (w : World) :
    (papiSampleStart pl block w).registry = w.registry := by
  unfold papiSampleStart
  induction List.range pl.cpus generalizing w with
  | nil => rfl
  | cons i rest ih => exact ih (w.setEnabled _ _)

end PapiSample.Registry
