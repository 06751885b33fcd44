import PapiSample.Sessions
import PapiSample.StreamSimulation

/-!
No byte is lost, duplicated or credited to another ring: whenever no handler run
is under way, the windows that were given to the record loop for a descriptor are
together the beginning of what the kernel wrote to its ring, as far as
`*prev_head` says.
-/
namespace PapiSample.Lossless

open Bytes Delivery MmapRead Process SampleInit OpenedEvents Handler Registry HandlerRuns RingReads
  StreamSimulation Sessions Transition

def writtenTo (ring : ℕ) : Label → List Byte
  | .append r bytes => if r = ring then bytes else []
  | _ => []

def givenFor (fd : ℤ) : Label → List Byte
  | .statement d .recordLoop given => if d = fd then given else []
  | _ => []

variable {pl : Platform} {ses : Session}

/-- The produced part of what a step shows. -/
theorem shows_produced (ses : Session) (i : ℕ) (l : Label) :
    (shows ses l).toList.flatMap (producedOn i) = writtenTo (ses.ring i) l := by
  cases l with
  | append ring bytes =>
    simp only [shows, writtenTo]
    by_cases hge : ses.firstRing ≤ ring
    · have hring : ring - ses.firstRing = i ↔ ring = ses.ring i := by
        simp only [Session.ring]
        omega
      simp [hge, producedOn, hring]
    · have hne : ring ≠ ses.ring i := by
        simp only [Session.ring]
        omega
      rw [if_neg hge, if_neg hne]
      rfl
  | statement fd pc given =>
    cases pc with
    | recordLoop =>
      simp only [shows, writtenTo]
      cases (List.range ses.cpus).find? fun j => ses.fd j = fd <;> rfl
    | _ => rfl
  | _ => rfl

/-- The delivered part of what a step shows. -/
theorem shows_delivered {i : ℕ} (hi : i < ses.cpus) (l : Label) :
    (shows ses l).toList.flatMap (deliveredOn i) = givenFor (ses.fd i) l := by
  cases l with
  | append ring bytes =>
    simp only [shows, givenFor]
    split <;> rfl
  | statement fd pc given =>
    cases pc with
    | recordLoop =>
      simp only [shows, givenFor]
      by_cases hfd : fd = ses.fd i
      · subst hfd
        rw [find_fd hi, if_pos rfl]
        simp [deliveredOn]
      · rw [if_neg hfd]
        cases hfind : (List.range ses.cpus).find? fun j => ses.fd j = fd with
        | none => rfl
        | some j =>
          have hj : ses.fd j = fd := by simpa using List.find?_some hfind
          have hne : j ≠ i := fun h => hfd (by rw [← hj, h])
          simp [deliveredOn, hne]
    | _ => rfl
  | _ => rfl

theorem flatMap_shows {g : Act ℕ Byte → List Byte} {k : Label → List Byte}
    (h : ∀ l, (shows ses l).toList.flatMap g = k l) (labels : List Label) :
    (labels.filterMap (shows ses)).flatMap g = labels.flatMap k := by
  rw [List.filterMap_eq_flatMap_toList, List.flatMap_assoc]
  exact congrArg labels.flatMap (funext h)

/-- Between handler runs a mapped ring has given everything up to `*prev_head`,
and holds the rest. -/
structure Delivered (size : ℤ) (labels : List Label) (ring : ℕ) (fd prevHead : ℤ) (m : Mapping) :
    Prop where
  position : prevHead = m.dataTail
  behind : m.dataTail ≤ m.dataHead
  lap : (m.dataHead : ℤ) ≤ m.dataTail + size
  written : m.dataHead = (labels.flatMap (writtenTo ring)).length
  given : labels.flatMap (givenFor fd) = (labels.flatMap (writtenTo ring)).take prevHead.toNat

/-- The stream of a ring, in terms of the labels of the run. -/
theorem run_ring (hcpus : pl.cpus = ses.cpus) {w : World} (h : Started ses w)
    {labels : List Label} {t : State} (hrun : Run (Step pl) (State.sampling pl w) labels t)
    {i : ℕ} (hi : i < ses.cpus) {r : Ring} (hr : t.world.rings (ses.ring i) = some r) :
    ∃ st : Stream Byte, st.produced = labels.flatMap (writtenTo (ses.ring i)) ∧
      st.delivered = labels.flatMap (givenFor (ses.fd i)) ∧ RingInv pl ses t i st r := by
  obtain ⟨streams, hstreams, hsim⟩ := run_simulates hcpus h hrun
  obtain ⟨hproduced, hdelivered⟩ := run_grows hstreams i
  rw [flatMap_shows (shows_produced ses i)] at hproduced
  rw [flatMap_shows (shows_delivered hi)] at hdelivered
  exact ⟨streams i, hproduced, hdelivered, hsim.ring i hi r hr⟩

theorem run_delivered (hcpus : pl.cpus = ses.cpus) {w : World} (h : Started ses w)
    {labels : List Label} {t : State} (hrun : Run (Step pl) (State.sampling pl w) labels t)
    (hidle : t.handler = none) {i : ℕ} (hi : i < ses.cpus) {r : Ring}
    (hr : t.world.rings (ses.ring i) = some r) :
    Delivered (bytesize pl) labels (ses.ring i) (ses.fd i) (t.world.heads ses.block i)
      r.mapping := by
  obtain ⟨st, hproduced, hdelivered, hinv⟩ := run_ring hcpus h hrun hi hr
  have hsettled := hinv.settled fun f hf => absurd hf (idle_ne hidle)
  have htracks := hinv.tracks
  have hprefix := List.prefix_iff_eq_take.mp st.isPrefix
  rw [hsettled.delivered, hproduced, hdelivered] at hprefix
  refine ⟨hsettled.prev, htracks.behind, htracks.lap, ?_, ?_⟩
  · rw [htracks.head, hproduced]
  · rw [hsettled.prev, Int.toNat_natCast]
    exact hprefix

/-- Until PAPI_sample_stop begins, all rings stay mapped. -/
theorem run_mapped {s t : State} {labels : List Label} (hrun : Run (Step pl) s labels t)
    (hstop : ∀ x, Label.main x ∉ labels) (ring : ℕ) :
    (t.world.rings ring).isSome = (s.world.rings ring).isSome := by
  refine hrun.invariant (fun u => (u.world.rings ring).isSome = (s.world.rings ring).isSome) rfl
    fun u l v hl hu hstep => ?_
  exact (step_mapped hstep (fun x h => hstop x (h ▸ hl)) ring).trans hu

structure Untouched (w w' : World) (i : ℕ) : Prop where
  prevHead : w'.currentHead i = w.currentHead i
  dataTail : ∀ e r r', w.mmaps i = some e → w.rings e.sampleMmap = some r →
    w'.rings e.sampleMmap = some r' → r'.mapping.dataTail = r.mapping.dataTail

structure Keeps (ses : Session) (i j : ℕ) (w : World) (u : State) : Prop where
  valid : Valid ses u
  handler : ∀ f, u.handler = some f → FrameOf ses u.world i f
  prevHead : u.world.heads ses.block j = w.heads ses.block j
  dataTail : ∀ r r', w.rings (ses.ring j) = some r → u.world.rings (ses.ring j) = some r' →
    r'.mapping.dataTail = r.mapping.dataTail

theorem Keeps.step (hcpus : pl.cpus = ses.cpus) {i j : ℕ} (hne : j ≠ i) {w : World} {u v : State}
    {l : Label} (h : Keeps ses i j w u) (hstep : Step pl u l v)
    (honly : ∀ k rest, l = .signal k rest → k = i) : Keeps ses i j w v := by
  have hvalid := h.valid.step hcpus hstep
  cases hstep with
  | @append r₀ ring bytes hr _ _ =>
    refine ⟨hvalid, fun f hf => (h.handler f hf).append, h.prevHead, fun r r' hw hr' => ?_⟩
    by_cases heq : ses.ring j = ring
    · simp only [setMapping, heq, Function.update_self] at hr'
      cases hr'
      exact h.dataTail r r₀ hw (by rw [heq]; exact hr)
    · simp only [setMapping, Function.update_of_ne heq] at hr'
      exact h.dataTail r r' hw hr'
  | signal k _ _ hk =>
    obtain rfl := honly k _ rfl
    refine ⟨hvalid, fun f hf => ?_, h.prevHead, h.dataTail⟩
    cases hf
    exact FrameOf.start h.valid.registered (by omega)
  | @statement f w' next fuel hf hstatement =>
    have hframe := h.handler f hf
    have hframed := statement_framed hstatement
    have hdoes := statement_does h.valid.registered hframe hstatement
    obtain ⟨hrings, hheads⟩ := statement_others h.valid.registered hframe hframed hne
    have hworld := resume_world u w' next
    refine ⟨hvalid, ?_, ?_, ?_⟩
    · intro g hg
      rw [resume_handler] at hg
      rw [resume_world]
      exact hframe.does hdoes hg
    · rw [hworld, hheads]
      exact h.prevHead
    · intro r r' hw hr'
      rw [hworld, hrings] at hr'
      exact h.dataTail r r' hw hr'
  | main _ hidle _ =>
    refine ⟨hvalid, fun f hf => absurd hf (idle_ne hidle), ?_, ?_⟩
    · exact (congrFun (congrFun (perform_heads ..) _) _).trans h.prevHead
    · intro r r' hw hr'
      exact h.dataTail r r' hw (perform_rings hr')

theorem run_untouched (hcpus : pl.cpus = ses.cpus) {i j : ℕ} (hj : j < ses.cpus) (hne : j ≠ i)
    {s t : State} {labels : List Label} (hvalid : Valid ses s) (hidle : s.handler = none)
    (hrun : Run (Step pl) s labels t) (honly : ∀ k rest, Label.signal k rest ∈ labels → k = i) :
    Untouched s.world t.world j := by
  have hstart : Keeps ses i j s.world s :=
    ⟨hvalid, fun f hf => absurd hf (idle_ne hidle), rfl, fun r r' hr hr' => by
      cases hr.symm.trans hr'
      rfl⟩
  have hend := hrun.invariant (Keeps ses i j s.world) hstart fun u l v hl hu hstep =>
    hu.step hcpus hne hstep fun k rest hsignal => honly k rest (hsignal ▸ hl)
  refine ⟨?_, ?_⟩
  · rw [World.currentHead, World.currentHead, hend.valid.registered.block, hvalid.registered.block]
    exact hend.prevHead
  · intro e r r' he hr hr'
    cases (hvalid.registered.mmaps j hj).symm.trans he
    exact hend.dataTail r r' hr hr'

/-- Any interleaving of appends and handler runs, in any session. -/
theorem handler_lossless (pl : Platform) (a : Answers) (args : Args)
    (episodes : List (World × World)) (w w' : World) (block : ℕ) (labels : List Label) (t : State)
    (hprev : History pl episodes w) (hdistinct : Distinct a pl.cpus)
    (hinit : papiSampleInit pl a args w = .fds block w')
    (hrun : Run (Step pl) (State.sampling pl (papiSampleStart pl block w')) labels t)
    (hstop : ∀ s, Label.main s ∉ labels) (hidle : t.handler = none) (i : ℕ) (hi : i < pl.cpus) :
    (∃ e r, t.world.mmaps i = some e ∧ t.world.rings e.sampleMmap = some r ∧
      Delivered (bytesize pl) labels e.sampleMmap (t.world.currentFd i) (t.world.currentHead i)
        r.mapping) ∧
    ∀ labels' u, Run (Step pl) t labels' u → (∀ k rest, Label.signal k rest ∈ labels' → k = i) →
      ∀ j < pl.cpus, j ≠ i → Untouched t.world u.world j := by
  have hothers := (history_registry hprev).2
  have hstarted := (init_started hdistinct hothers hinit).start pl block
  have hvalid := (valid_sampling hstarted.registered).run rfl hrun
  have hregistered := hvalid.registered
  constructor
  · obtain ⟨r, hr⟩ := Option.isSome_iff_exists.mp
      ((run_mapped hrun hstop _).trans (Option.isSome_iff_exists.mpr ⟨_, hstarted.rings i hi⟩))
    refine ⟨_, r, hregistered.mmaps i hi, hr, ?_⟩
    rw [hregistered.currentFd hi, World.currentHead, hregistered.block]
    exact run_delivered rfl hstarted hrun hidle hi hr
  · intro labels' u hrun' honly j hj hne
    exact run_untouched rfl hj hne hvalid hidle hrun' honly

def eightBytes (w : World) : State :=
  { State.sampling twoCpus w with
    world :=
      setMapping w 0 (newRing 3) (kernelAppend twoCpus (newRing 3) [1, 2, 3, 4, 5, 6, 7, 8]) }

theorem eightBytes_step {w' : World}
    (hinit : papiSampleInit twoCpus (kernelAnswers false) branchArgs World.initial = .fds 1 w') :
    Step twoCpus (State.sampling twoCpus (papiSampleStart twoCpus 1 w'))
      (.append 0 [1, 2, 3, 4, 5, 6, 7, 8]) (eightBytes (papiSampleStart twoCpus 1 w')) := by
  have hring : (papiSampleStart twoCpus 1 w').rings 0 = some (newRing 3) := by
    cases hinit
    rfl
  exact Step.append 0 _ hring (by decide) (by decide)

/-- A signal then lets the handler read them. -/
theorem eightBytes_run :
    ∃ w' labels t, papiSampleInit twoCpus (kernelAnswers false) branchArgs World.initial =
        .fds 1 w' ∧
      Run (Step twoCpus) (State.sampling twoCpus (papiSampleStart twoCpus 1 w')) labels t ∧
      (∀ s, Label.main s ∉ labels) ∧ t.handler = none ∧ t.world.currentHead 0 = 8 := by
  obtain ⟨w', hinit⟩ : ∃ w', papiSampleInit twoCpus (kernelAnswers false) branchArgs World.initial =
      .fds 1 w' := ⟨_, rfl⟩
  let waiting := eightBytes (papiSampleStart twoCpus 1 w')
  have hends : ((runHandler twoCpus 2 10
      { waiting with handler := some (Frame.start (waiting.world.currentFd 0)) }).map fun t =>
        (t.handler.isNone, t.world.currentHead 0)) = some (true, 8) := by
    cases hinit
    decide +kernel
  obtain ⟨t, ht, hend⟩ := Option.map_eq_some_iff.mp hends
  obtain ⟨hidle, hhead⟩ := Prod.mk.inj hend
  obtain ⟨labels, hhandler, honly⟩ := signal_run (s := waiting) rfl rfl (by decide) ht
  have hrun := ((Run.nil _).snoc (eightBytes_step hinit)).append hhandler
  refine ⟨w', _, t, hinit, hrun, fun s hs => ?_, Option.isNone_iff_eq_none.mp hidle, hhead⟩
  simp only [List.nil_append, List.cons_append, List.mem_cons, reduceCtorEq, false_or] at hs
  obtain ⟨fd, pc, given, hl⟩ := honly _ hs
  contradiction

/-- They are delivered. -/
theorem handler_lossless_eightBytes :
    ∃ w' labels t, papiSampleInit twoCpus (kernelAnswers false) branchArgs World.initial =
        .fds 1 w' ∧
      Run (Step twoCpus) (State.sampling twoCpus (papiSampleStart twoCpus 1 w')) labels t ∧
      t.world.currentHead 0 = 8 ∧
      ∃ e r, t.world.mmaps 0 = some e ∧ t.world.rings e.sampleMmap = some r ∧
        Delivered (bytesize twoCpus) labels e.sampleMmap (t.world.currentFd 0)
          (t.world.currentHead 0) r.mapping := by
  obtain ⟨w', labels, t, hinit, hrun, hstop, hidle, hhead⟩ := eightBytes_run
  exact ⟨w', labels, t, hinit, hrun, hhead,
    (handler_lossless twoCpus (kernelAnswers false) branchArgs [] World.initial w' 1 labels t
      History.start kernelAnswers_distinct hinit hrun hstop hidle 0 (by decide)).1⟩

end PapiSample.Lossless
