import PapiSample.Registry

/-!
Handler runs of a session. A run for a descriptor of the session finds the entry
of its own ring and keeps to it; the only way in which it does not come to its
end is that the ring is no longer mapped when it wants to read it.
-/
namespace PapiSample.HandlerRuns

open Bytes Cursor ParseRecord RecordLoop MmapRead Process SampleInit Handler Registry Transition

variable {pl : Platform} {ses : Session}

def Pc.inRing : Pc → Bool
  | .disable | .lookup | .readHead => false
  | _ => true

def Pc.bound : Pc → Bool
  | .disable | .lookup => false
  | _ => true

structure FrameOf (ses : Session) (w : World) (i : ℕ) (f : Frame) : Prop where
  cpu : i < ses.cpus
  fd : f.fd = ses.fd i
  bound : Pc.bound f.pc = true → f.i = i ∧ f.ourMmap = ses.ring i
  mapped : Pc.inRing f.pc = true → ∃ r, w.rings (ses.ring i) = some r

inductive Does (pl : Platform) (ses : Session) (i : ℕ) (f : Frame) (w : World) :
    World → Next → Prop
  | disable : f.pc = .disable → Does pl ses i f w (w.setEnabled f.fd false) (.at (f.goto .lookup))
  | lookup : f.pc = .lookup →
      Does pl ses i f w
        ((w.access (fdsReadable w i) .freedFds).access (w.headsLive ses.block) .freedHeads)
        (.at { f with
          pc := .readHead, i := i, prevHead := w.heads ses.block i, ourMmap := ses.ring i })
  | unmapped : f.pc = .readHead → w.rings (ses.ring i) = none →
      Does pl ses i f w (w.blame .unmappedRing) .killed
  | readHead (r : Ring) : f.pc = .readHead → w.rings (ses.ring i) = some r →
      Does pl ses i f w w (.at { f with pc := .copyToEnd, head := readHead r.mapping })
  | copyToEnd (r : Ring) : f.pc = .copyToEnd → w.rings (ses.ring i) = some r →
      Does pl ses i f w
        (setData (w.access w.dataLive .freedData)
          (copyToEnd (bytesize pl) (prevHeadWrap (bytesize pl) f.prevHead) r.mapping.ring w.data))
        (.at (f.goto .copyFromStart))
  | copyFromStart (r : Ring) : f.pc = .copyFromStart → w.rings (ses.ring i) = some r →
      Does pl ses i f w
        (setData (w.access w.dataLive .freedData)
          (copyFromStart (bytesize pl) (prevHeadWrap (bytesize pl) f.prevHead) r.mapping.ring
            w.data))
        (.at (f.goto .recordLoop))
  | recordLoop (ok : Bool) : f.pc = .recordLoop →
      (w.logOpen = true → ok = true) →
      Does pl ses i f w (w.access ok .closedLog) (.at (f.goto .clear))
  | clear : f.pc = .clear →
      Does pl ses i f w (setData (w.access w.dataLive .freedData) (clear w.data (bytesize pl)))
        (.at (f.goto .storeTail))
  | storeTail (r : Ring) : f.pc = .storeTail → w.rings (ses.ring i) = some r →
      Does pl ses i f w (setMapping w (ses.ring i) r (storeTail r.mapping f.head))
        (.at (f.goto .storePrevHead))
  | storePrevHead : f.pc = .storePrevHead →
      Does pl ses i f w
        (setHead (w.access (w.headsLive ses.block) .freedHeads) (ses.slot i) f.head)
        (.at (f.goto .refresh))
  | refresh : f.pc = .refresh →
      Does pl ses i f w
        ((w.access (!((w.files f.fd).isSome && w.stopped f.fd)) .rearmed).setEnabled f.fd true)
        .returned

theorem withRing_mapped {f : Frame} {w : World} {ring : ℕ} {r : Ring} {k : Ring → World × Next}
    (hring : f.ourMmap = ring) (hr : w.rings ring = some r) : withRing f w k = k r := by
  rw [withRing, hring, hr]

theorem statement_does {fuel i : ℕ} {f : Frame} {w w' : World} {next : Next}
    (hreg : Registered ses w) (hf : FrameOf ses w i f)
    (h : statement pl fuel f w = some (w', next)) : Does pl ses i f w w' next := by
  have hring : Pc.inRing f.pc = true → ∃ r, w.rings (ses.ring i) = some r := hf.mapped
  have hbound := hf.bound
  unfold statement at h
  cases hpc : f.pc with
  | disable =>
    rw [hpc] at h
    cases h
    exact .disable hpc
  | lookup =>
    rw [hpc] at h
    simp only [hf.fd, lookup_registered hreg hf.cpu] at h
    cases h
    exact hf.fd ▸ .lookup hpc
  | readHead =>
    rw [hpc] at h hbound
    have hown := (hbound rfl).2
    have hrun := Option.some.inj h
    cases hr : w.rings (ses.ring i) with
    | none =>
      rw [withRing, hown, hr] at hrun
      cases hrun
      exact .unmapped hpc hr
    | some r =>
      rw [withRing_mapped hown hr] at hrun
      cases hrun
      exact .readHead r hpc hr
  | copyToEnd =>
    rw [hpc] at h hbound hring
    obtain ⟨r, hr⟩ := hring rfl
    have hrun := Option.some.inj h
    rw [withRing_mapped (hbound rfl).2 hr] at hrun
    cases hrun
    exact .copyToEnd r hpc hr
  | copyFromStart =>
    rw [hpc] at h hbound hring
    obtain ⟨r, hr⟩ := hring rfl
    have hrun := Option.some.inj h
    rw [withRing_mapped (hbound rfl).2 hr] at hrun
    cases hrun
    exact .copyFromStart r hpc hr
  | recordLoop =>
    rw [hpc] at h
    obtain ⟨_, _, hrun⟩ := Option.map_eq_some_iff.mp h
    cases hrun
    exact .recordLoop _ hpc fun hlog => by rw [hlog, Bool.true_or]
  | clear =>
    rw [hpc] at h
    cases h
    exact .clear hpc
  | storeTail =>
    rw [hpc] at h hbound hring
    obtain ⟨r, hr⟩ := hring rfl
    have hown := (hbound rfl).2
    have hrun := Option.some.inj h
    rw [withRing_mapped hown hr, hown] at hrun
    cases hrun
    exact .storeTail r hpc hr
  | storePrevHead =>
    rw [hpc] at h hbound
    have hentry : w.mmaps f.i = some (ses.entry i) := by
      rw [(hbound rfl).1]
      exact hreg.mmaps i hf.cpu
    simp only [hentry] at h
    cases h
    exact .storePrevHead hpc
  | refresh =>
    rw [hpc] at h
    cases h
    exact .refresh hpc

/-- A run goes on for the same processor. -/
theorem FrameOf.does {i : ℕ} {f f' : Frame} {w w' : World} {next : Next} (hf : FrameOf ses w i f)
    (h : Does pl ses i f w w' next) (hnext : next.frame = some f') : FrameOf ses w' i f' := by
  have hbound := hf.bound
  have hmapped := hf.mapped
  cases h with
  | unmapped => contradiction
  | refresh => contradiction
  | disable =>
    cases hnext
    exact ⟨hf.cpu, hf.fd, nofun, nofun⟩
  | lookup =>
    cases hnext
    exact ⟨hf.cpu, hf.fd, fun _ => ⟨rfl, rfl⟩, nofun⟩
  | readHead r hpc hr =>
    cases hnext
    rw [hpc] at hbound
    exact ⟨hf.cpu, hf.fd, fun _ => hbound rfl, fun _ => ⟨r, hr⟩⟩
  | copyToEnd r hpc hr =>
    cases hnext
    rw [hpc] at hbound
    refine ⟨hf.cpu, hf.fd, fun _ => hbound rfl, fun _ => ⟨r, ?_⟩⟩
    exact (congrFun (access_rings ..) _).trans hr
  | copyFromStart r hpc hr =>
    cases hnext
    rw [hpc] at hbound
    refine ⟨hf.cpu, hf.fd, fun _ => hbound rfl, fun _ => ⟨r, ?_⟩⟩
    exact (congrFun (access_rings ..) _).trans hr
  | recordLoop ok hpc =>
    cases hnext
    rw [hpc] at hbound hmapped
    obtain ⟨r, hr⟩ := hmapped rfl
    refine ⟨hf.cpu, hf.fd, fun _ => hbound rfl, fun _ => ⟨r, ?_⟩⟩
    exact (congrFun (access_rings ..) _).trans hr
  | clear hpc =>
    cases hnext
    rw [hpc] at hbound hmapped
    obtain ⟨r, hr⟩ := hmapped rfl
    refine ⟨hf.cpu, hf.fd, fun _ => hbound rfl, fun _ => ⟨r, ?_⟩⟩
    exact (congrFun (access_rings ..) _).trans hr
  | storeTail r hpc hr =>
    cases hnext
    rw [hpc] at hbound
    exact ⟨hf.cpu, hf.fd, fun _ => hbound rfl, fun _ => ⟨_, Function.update_self ..⟩⟩
  | storePrevHead hpc =>
    cases hnext
    rw [hpc] at hbound hmapped
    obtain ⟨r, hr⟩ := hmapped rfl
    refine ⟨hf.cpu, hf.fd, fun _ => hbound rfl, fun _ => ⟨r, ?_⟩⟩
    exact (congrFun (access_rings ..) _).trans hr

/-- The registry lists the session, and a handler run is for one of its processors. -/
structure Valid (ses : Session) (s : State) : Prop where
  registered : Registered ses s.world
  handler : ∀ f, s.handler = some f → ∃ i, FrameOf ses s.world i f

theorem valid_sampling {w : World} (h : Registered ses w) : Valid ses (State.sampling pl w) where
  registered := h
  handler := nofun

/-- A run that a signal starts. -/
theorem FrameOf.start {i : ℕ} {w : World} (hreg : Registered ses w) (hi : i < ses.cpus) :
    FrameOf ses w i (Frame.start (w.currentFd i)) where
  cpu := hi
  fd := hreg.currentFd hi
  bound := fun h => Bool.noConfusion h
  mapped := fun h => Bool.noConfusion h

/-- The kernel unmaps nothing. -/
theorem FrameOf.append {i ring : ℕ} {f : Frame} {w : World} {r : Ring} {m : Mapping}
    (hf : FrameOf ses w i f) : FrameOf ses (setMapping w ring r m) i f := by
  refine ⟨hf.cpu, hf.fd, hf.bound, fun hpc => ?_⟩
  obtain ⟨r', hr'⟩ := hf.mapped hpc
  simp only [setMapping]
  by_cases heq : ses.ring i = ring
  · rw [heq, Function.update_self]
    exact ⟨_, rfl⟩
  · rw [Function.update_of_ne heq]
    exact ⟨r', hr'⟩

theorem Valid.step (hcpus : pl.cpus = ses.cpus) {s t : State} {l : Label} (hs : Valid ses s)
    (h : Step pl s l t) : Valid ses t := by
  refine ⟨hs.registered.congr (step_registry h), ?_⟩
  cases h with
  | append ring bytes hr _ _ =>
    intro f hf
    obtain ⟨i, hframe⟩ := hs.handler f hf
    exact ⟨i, hframe.append⟩
  | signal i _ _ hi =>
    intro f hf
    cases hf
    exact ⟨i, FrameOf.start hs.registered (by omega)⟩
  | @statement f w next fuel hf hstep =>
    obtain ⟨i, hframe⟩ := hs.handler f hf
    have hdoes := statement_does hs.registered hframe hstep
    rw [resume_world, resume_handler]
    exact fun g hg => ⟨i, hframe.does hdoes hg⟩
  | main _ hidle _ =>
    intro f hf
    exact absurd hf (idle_ne hidle)

theorem Valid.run (hcpus : pl.cpus = ses.cpus) {s t : State} {labels : List Label}
    (hs : Valid ses s) (h : Run (Step pl) s labels t) : Valid ses t :=
  h.invariant (Valid ses) hs fun _ _ _ _ hu hstep => hu.step hcpus hstep

def runHandler (pl : Platform) (fuel : ℕ) : ℕ → State → Option State
  | 0, s => some s
  | n + 1, s =>
    match s.handler with
    | none => some s
    | some f =>
      (statement pl fuel f s.world).bind fun (w, next) => runHandler pl fuel n (resume s w next)

def OnlyStatements (labels : List Label) : Prop :=
  ∀ l ∈ labels, ∃ fd pc given, l = .statement fd pc given

theorem runHandler_run {fuel : ℕ} {n : ℕ} {s t : State} (h : runHandler pl fuel n s = some t) :
    ∃ labels, Run (Step pl) s labels t ∧ OnlyStatements labels := by
  induction n generalizing s with
  | zero =>
    cases h
    exact ⟨[], Run.nil _, nofun⟩
  | succ n ih =>
    rw [runHandler] at h
    cases hf : s.handler with
    | none =>
      rw [hf] at h
      cases h
      exact ⟨[], Run.nil _, nofun⟩
    | some f =>
      rw [hf] at h
      obtain ⟨⟨w, next⟩, hstep, hrest⟩ := Option.bind_eq_some_iff.mp h
      obtain ⟨labels, hrun, honly⟩ := ih hrest
      have hfirst := (Run.nil s).snoc (Step.statement fuel hf hstep)
      refine ⟨_, hfirst.append hrun, fun l hl => ?_⟩
      rcases List.mem_append.mp hl with hl | hl
      · rw [List.nil_append, List.mem_singleton] at hl
        exact ⟨_, _, _, hl⟩
      · exact honly l hl

/-- A signal and the run it starts. -/
theorem signal_run {fuel n i : ℕ} {s t : State} (halive : s.alive = true) (hidle : s.handler = none)
    (hi : i < pl.cpus) (h : runHandler pl fuel n
      { s with handler := some (Frame.start (s.world.currentFd i)) } = some t) :
    ∃ labels, Run (Step pl) s (.signal i s.main :: labels) t ∧ OnlyStatements labels := by
  obtain ⟨labels, hrun, honly⟩ := runHandler_run h
  exact ⟨labels, ((Run.nil s).snoc (Step.signal i halive hidle hi)).append hrun, honly⟩

end PapiSample.HandlerRuns
