import PapiSample.RingReads

/-!
A run of the process as a run of streams, one for each ring of the session: the
kernel produces on the stream of a ring, and a handler run delivers what comes
next on the stream of its own descriptor.
-/
namespace PapiSample.StreamSimulation

open Bytes CircularBuffer Delivery MmapRead Process SampleInit Handler Registry HandlerRuns
  RingReads Transition

/-- What is known of a mapped ring: either no handler run is busy with it, or the
run has got to one of its stages. -/
structure RingInv (pl : Platform) (ses : Session) (s : State) (i : ℕ) (st : Stream Byte)
    (r : Ring) : Prop where
  tracks : Tracks (bytesize pl) st r.mapping
  settled : (∀ f, s.handler = some f → f.fd ≠ ses.fd i) →
    Settled st r.mapping.dataTail (s.world.heads ses.block i)
  stage : ∀ f, s.handler = some f → f.fd = ses.fd i →
    Stage (bytesize pl) st r.mapping.dataTail (s.world.heads ses.block i) s.world.data f

structure Simulates (pl : Platform) (ses : Session) (streams : ℕ → Stream Byte) (s : State) :
    Prop where
  valid : Valid ses s
  ring : ∀ i < ses.cpus, ∀ r, s.world.rings (ses.ring i) = some r → RingInv pl ses s i (streams i) r

def shows (ses : Session) : Label → Option (Act ℕ Byte)
  | .append ring bytes =>
    if ses.firstRing ≤ ring then some (.produce (ring - ses.firstRing) bytes) else none
  | .statement fd .recordLoop given =>
    ((List.range ses.cpus).find? fun i => ses.fd i = fd).map fun i => .deliver i given
  | _ => none

variable {pl : Platform} {ses : Session} {streams : ℕ → Stream Byte} {s : State}

theorem find_fd {i : ℕ} (hi : i < ses.cpus) :
    ((List.range ses.cpus).find? fun j => ses.fd j = ses.fd i) = some i := by
  cases hfind : (List.range ses.cpus).find? fun j => ses.fd j = ses.fd i with
  | none =>
    have hne := List.find?_eq_none.mp hfind i (List.mem_range.mpr hi)
    simp at hne
  | some j =>
    have hj := List.mem_range.mp (List.mem_of_find?_eq_some hfind)
    have hfd : ses.fd j = ses.fd i := by simpa using List.find?_some hfind
    rw [ses.distinct j i hj hi hfd]

/-- A ring that no handler run is busy with. -/
theorem RingInv.away {i : ℕ} {st : Stream Byte} {r : Ring}
    (htracks : Tracks (bytesize pl) st r.mapping)
    (hsettled : Settled st r.mapping.dataTail (s.world.heads ses.block i))
    (haway : ∀ f, s.handler = some f → f.fd ≠ ses.fd i) : RingInv pl ses s i st r :=
  ⟨htracks, fun _ => hsettled, fun f hf hfd => absurd hfd (haway f hf)⟩

theorem simulates_sampling {w : World} (h : Started ses w) :
    Simulates pl ses (fun _ => Stream.empty) (State.sampling pl w) := by
  refine ⟨valid_sampling h.registered, fun i hi r hr => ?_⟩
  cases (h.rings i hi).symm.trans hr
  have hhead := h.heads i hi
  refine RingInv.away ⟨rfl, Nat.two_pow_pos 63, Nat.le_refl _, ?_, stores_nil _ _ _⟩
    ⟨hhead, rfl⟩ nofun
  have := bytesize_pos pl
  simp only [newRing]
  omega

theorem Simulates.append (h : Simulates pl ses streams s) {ring : ℕ} {r : Ring} {bytes : List Byte}
    (hr : s.world.rings ring = some r)
    (hlap : (r.mapping.dataHead + bytes.length : ℤ) ≤ r.mapping.dataTail + bytesize pl)
    (hsmall : r.mapping.dataHead + bytes.length < 2 ^ 63)
    (streams' : ℕ → Stream Byte)
    (hown : ∀ i, ses.ring i = ring → streams' i = (streams i).produce bytes)
    (hothers : ∀ i, ses.ring i ≠ ring → streams' i = streams i)
    (hvalid : Valid ses { s with world := setMapping s.world ring r (kernelAppend pl r bytes) }) :
    Simulates pl ses streams'
      { s with world := setMapping s.world ring r (kernelAppend pl r bytes) } := by
  refine ⟨hvalid, fun i hi r' hr' => ?_⟩
  by_cases heq : ses.ring i = ring
  · have hinv := h.ring i hi r (by rw [heq]; exact hr)
    simp only [setMapping, heq, Function.update_self] at hr'
    cases hr'
    rw [hown i heq]
    exact ⟨hinv.tracks.append bytes hlap hsmall,
      fun haway => ⟨(hinv.settled haway).prev, (hinv.settled haway).delivered⟩,
      fun f hf hfd => (hinv.stage f hf hfd).produce bytes⟩
  · simp only [setMapping, Function.update_of_ne heq] at hr'
    have hinv := h.ring i hi r' hr'
    rw [hothers i heq]
    exact ⟨hinv.tracks, hinv.settled, hinv.stage⟩

/-- A statement of a run for processor `i` leaves the other rings alone. -/
theorem statement_others {i j : ℕ} {f : Frame} {w w' : World} (hreg : Registered ses w)
    (hf : FrameOf ses w i f) (hframed : Framed f w w') (hne : j ≠ i) :
    w'.rings (ses.ring j) = w.rings (ses.ring j) ∧ w'.heads ses.block j = w.heads ses.block j := by
  have hbound := hf.bound
  constructor
  · apply hframed.rings _
    intro hpc
    rw [hpc] at hbound
    rw [(hbound rfl).2]
    simp only [Session.ring]
    omega
  · apply hframed.heads (ses.slot j)
    intro hpc e he
    rw [hpc] at hbound
    rw [(hbound rfl).1, hreg.mmaps i hf.cpu] at he
    cases he
    intro hslot
    exact hne (congrArg Slot.index hslot).symm

theorem Simulates.statement (h : Simulates pl ses streams s) {f : Frame} {w : World} {next : Next}
    {fuel i : ℕ} (hf : s.handler = some f) (hframe : FrameOf ses s.world i f)
    (hstep : statement pl fuel f s.world = some (w, next))
    (streams' : ℕ → Stream Byte) (hothers : ∀ j, j ≠ i → streams' j = streams j)
    (hown : ∀ r, s.world.rings (ses.ring i) = some r →
      Tracks (bytesize pl) (streams i) r.mapping →
      Stage (bytesize pl) (streams i) r.mapping.dataTail (s.world.heads ses.block i)
        s.world.data f →
      ∃ r', w.rings (ses.ring i) = some r' ∧ Tracks (bytesize pl) (streams' i) r'.mapping ∧
        After (bytesize pl) (streams' i) r'.mapping.dataTail (w.heads ses.block i) w.data next)
    (hvalid : Valid ses (resume s w next)) : Simulates pl ses streams' (resume s w next) := by
  have hframed := statement_framed hstep
  have hdoes := statement_does h.valid.registered hframe hstep
  have hworld := resume_world s w next
  have hhandler : ∀ g, (resume s w next).handler = some g → g.fd = ses.fd i := fun g hg =>
    (hframe.does hdoes (by rw [← resume_handler s w]; exact hg)).fd
  refine ⟨hvalid, fun j hj r' hr' => ?_⟩
  rw [hworld] at hr'
  by_cases heq : j = i
  · subst heq
    obtain ⟨r, hr⟩ := Option.isSome_iff_exists.mp
      ((hframed.mapped (ses.ring j)).symm.trans (Option.isSome_iff_exists.mpr ⟨r', hr'⟩))
    have hinv := h.ring j hj r hr
    obtain ⟨r₂, hr₂, htracks, hafter⟩ := hown r hr hinv.tracks (hinv.stage f hf hframe.fd)
    cases hr₂.symm.trans hr'
    refine ⟨htracks, ?_, ?_⟩
    · intro haway
      cases next with
      | «at» f' => exact absurd (hhandler f' rfl) (haway f' rfl)
      | returned => exact hafter
      | killed => exact hafter.elim
    · intro g hg _
      cases next with
      | «at» f' =>
        cases hg
        exact hafter
      | returned => contradiction
      | killed => contradiction
  · obtain ⟨hrings, hheads⟩ := statement_others h.valid.registered hframe hframed heq
    have hinv := h.ring j hj r' (by rw [← hrings]; exact hr')
    have hne : ses.fd i ≠ ses.fd j := fun hfd => heq (ses.distinct i j hframe.cpu hj hfd).symm
    have hsettled := hinv.settled fun g hg => by
      cases hf.symm.trans hg
      rw [hframe.fd]
      exact hne
    rw [hothers j heq]
    refine RingInv.away hinv.tracks ?_ fun g hg => by rw [hhandler g hg]; exact hne
    rw [hworld, hheads]
    exact hsettled

theorem perform_heads (w : World) (t : StopStep) : (perform w t).heads = w.heads := by
  cases t with
  | unmap i =>
    simp only [perform]
    split <;> rfl
  | _ => rfl

/-- PAPI_sample_stop only takes rings away. -/
theorem perform_rings {w : World} {t : StopStep} {ring : ℕ} {r : Ring}
    (h : (perform w t).rings ring = some r) : w.rings ring = some r := by
  cases t with
  | unmap i =>
    simp only [perform] at h
    split at h
    · exact h
    · rename_i e _
      by_cases heq : ring = e.sampleMmap
      · simp only [heq, Function.update_self] at h
        contradiction
      · simpa only [Function.update_of_ne heq] using h
  | _ => exact h

theorem Simulates.main (h : Simulates pl ses streams s) {t : StopStep} {rest : List StopStep}
    (hidle : s.handler = none)
    (hvalid : Valid ses { s with world := perform s.world t, main := rest }) :
    Simulates pl ses streams { s with world := perform s.world t, main := rest } := by
  refine ⟨hvalid, fun i hi r hr => ?_⟩
  have hinv := h.ring i hi r (perform_rings hr)
  refine RingInv.away hinv.tracks ?_ fun f hf => absurd hf (idle_ne hidle)
  show Settled (streams i) r.mapping.dataTail ((perform s.world t).heads ses.block i)
  rw [perform_heads]
  exact hinv.settled fun f hf => absurd hf (idle_ne hidle)

/-- A step that shows nothing is no matter to the streams. -/
theorem Simulates.quiet (hcpus : pl.cpus = ses.cpus) (h : Simulates pl ses streams s) {l : Label}
    {t : State} (hstep : Step pl s l t) (hshows : shows ses l = none) :
    Simulates pl ses streams t := by
  have hvalid := h.valid.step hcpus hstep
  cases hstep with
  | append ring bytes hr hlap hsmall =>
    have hring : ring < ses.firstRing := by
      simp only [shows] at hshows
      by_contra hge
      rw [if_pos (by omega)] at hshows
      contradiction
    refine h.append hr hlap hsmall streams (fun i heq => ?_) (fun _ _ => rfl) hvalid
    simp only [Session.ring] at heq
    omega
  | signal i _ hidle hi =>
    refine ⟨hvalid, fun j hj r hr => ?_⟩
    have hinv := h.ring j hj r hr
    have hsettled := hinv.settled fun f hf => absurd hf (idle_ne hidle)
    refine ⟨hinv.tracks, fun _ => hsettled, fun f hf _ => ?_⟩
    cases hf
    exact hsettled
  | @statement f w next fuel hf hstep =>
    obtain ⟨i, hframe⟩ := h.valid.handler f hf
    have hloop : f.pc ≠ .recordLoop := by
      intro hpc
      simp only [shows, hpc, hframe.fd, find_fd hframe.cpu] at hshows
      contradiction
    refine h.statement hf hframe hstep streams (fun _ _ => rfl)
      (fun r hr htracks hstage => ?_) hvalid
    exact hstage.statement (statement_does h.valid.registered hframe hstep) hloop hr htracks
  | main _ hidle _ => exact h.main hidle hvalid

/-- A step that shows an act is that act on the streams. -/
theorem Simulates.act (hcpus : pl.cpus = ses.cpus) (h : Simulates pl ses streams s) {l : Label}
    {t : State} {a : Act ℕ Byte} (hstep : Step pl s l t) (hshows : shows ses l = some a) :
    ∃ streams', Moves streams a streams' ∧ Simulates pl ses streams' t := by
  have hvalid := h.valid.step hcpus hstep
  cases hstep with
  | append ring bytes hr hlap hsmall =>
    simp only [shows] at hshows
    split at hshows
    · rename_i hge
      cases hshows
      refine ⟨_, Moves.produce .., h.append hr hlap hsmall _ (?_) (?_) hvalid⟩
      · intro i heq
        have hi : ring - ses.firstRing = i := by
          simp only [Session.ring] at heq
          omega
        rw [hi, Function.update_self]
      · intro i hne
        refine Function.update_of_ne (fun hi => hne ?_) _ _
        simp only [Session.ring]
        omega
    · contradiction
  | signal => contradiction
  | @statement f w next fuel hf hstep =>
    obtain ⟨i, hframe⟩ := h.valid.handler f hf
    have hpc : f.pc = .recordLoop := by
      cases hpc : f.pc with
      | recordLoop => rfl
      | _ =>
        rw [hpc] at hshows
        contradiction
    simp only [shows, hpc, hframe.fd, find_fd hframe.cpu, Option.map_some] at hshows
    cases hshows
    obtain ⟨r, hr⟩ := hframe.mapped (by rw [hpc]; rfl)
    have hinv := h.ring i hframe.cpu r hr
    have hstage := hinv.stage f hf hframe.fd
    simp only [Stage, hpc] at hstage
    rw [given_pending hinv.tracks hstage.1 hstage.2 hpc]
    refine ⟨_, Moves.deliver .., h.statement hf hframe hstep _
      (fun j hne => Function.update_of_ne hne _ _) (fun r' hr' htracks _ => ?_) hvalid⟩
    cases hr.symm.trans hr'
    rw [Function.update_self]
    cases statement_does h.valid.registered hframe hstep with
    | recordLoop ok _ _ =>
      refine ⟨r, by simpa using hr, htracks.deliver _, ?_⟩
      exact deliver_handed htracks hstage.1
    | _ => simp_all
  | main => contradiction

/-- Every run of the process is a run of the streams. -/
theorem run_simulates (hcpus : pl.cpus = ses.cpus) {w : World} (h : Started ses w)
    {labels : List Label} {t : State} (hrun : Run (Step pl) (State.sampling pl w) labels t) :
    ∃ streams, Run Moves (fun _ => Stream.empty) (labels.filterMap (shows ses)) streams ∧
      Simulates pl ses streams t :=
  hrun.simulates (R := Simulates pl ses) (shows ses)
    (fun _ _ _ _ hs hstep hl => hs.quiet hcpus hstep hl)
    (fun _ _ _ _ _ hs hstep hl => hs.act hcpus hstep hl) (simulates_sampling h)

end PapiSample.StreamSimulation
