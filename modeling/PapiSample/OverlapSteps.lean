import PapiSample.OverlapInvariant
import PapiSample.StreamSimulation

/-!
One step while activations overlap. What a step writes is its own ring's, or it is
`our_mmap` or `data`; a calm step writes these only if nobody else is about to
read them, so that it keeps the invariant.
-/
namespace PapiSample.OverlapSteps

open Bytes Delivery RecordLoop MmapRead Process Handler Registry HandlerRuns RingReads
  StreamSimulation Overlap OverlapInvariant

variable {pl : Platform} {ses : Session}

section Statement
variable {s : Overlap.State} {w w' : World} {i : ℕ} {f : Frame} {next : Next}

theorem does_data (hdoes : Does pl ses i f w w' next) (hnot : writesData f.pc = false) :
    w'.data = w.data := by
  cases hdoes with
  | lookup =>
    unfold World.access
    split <;> split <;> rfl
  | copyToEnd _ hpc | copyFromStart _ hpc | clear hpc =>
    rw [hpc] at hnot
    contradiction
  | recordLoop | storePrevHead | refresh =>
    simp only [World.access, setHead, World.setEnabled]
    split <;> rfl
  | _ => rfl

theorem noteSource_same {source : ℤ → Option ℕ} (hnot : writesData f.pc = false) :
    noteSource pl source f = source := by
  unfold noteSource
  cases hpc : f.pc with
  | copyToEnd | copyFromStart | clear =>
    rw [hpc] at hnot
    contradiction
  | _ => rfl

theorem noteHead_other {headRead : ℕ → ℤ} {ring : ℕ} (hne : f.pc = .readHead → ring ≠ f.ourMmap) :
    noteHead headRead f next ring = headRead ring := by
  unfold noteHead
  cases hpc : f.pc with
  | readHead =>
    cases next with
    | «at» f' => exact Function.update_of_ne (hne hpc) ..
    | _ => rfl
  | _ => rfl

def NotedAfter (headRead tail : ℤ) : Next → Prop
  | .at f => Noted headRead tail f
  | .returned => tail = headRead
  | .killed => True

theorem noted_statement {size prev : ℤ} {headRead : ℕ → ℤ} {tail tail' : ℕ} {st : Stream Byte}
    {data : Memory} (hdoes : Does pl ses i f w w' next) (hframe : FrameOf ses w i f)
    (hlookup : f.pc ≠ .lookup) (hloop : f.pc ≠ .recordLoop)
    (hstage : Stage size st tail prev data f) (hnoted : Noted (headRead (ses.ring i)) tail f)
    (htail : f.pc ≠ .storeTail → tail' = tail) :
    NotedAfter (noteHead headRead f next (ses.ring i)) tail' next := by
  have hbound := hframe.bound
  unfold Noted at hnoted
  unfold Stage at hstage
  cases hdoes with
  | disable hpc =>
    rw [hpc] at hnoted
    simp only [NotedAfter, Noted, noteHead, hpc, Frame.goto]
    rw [htail (by simp [hpc])]
    exact hnoted
  | lookup hpc => exact absurd hpc hlookup
  | unmapped => trivial
  | readHead r hpc =>
    rw [hpc] at hbound
    simp [NotedAfter, Noted, noteHead, hpc, (hbound rfl).2, pending]
  | copyToEnd _ hpc | copyFromStart _ hpc | clear hpc | storeTail _ hpc =>
    rw [hpc] at hnoted
    simp only [NotedAfter, Noted, noteHead, hpc, Frame.goto]
    exact hnoted
  | recordLoop _ hpc => exact absurd hpc hloop
  | storePrevHead hpc =>
    rw [hpc] at hnoted hstage
    simp only [NotedAfter, Noted, noteHead, hpc, Frame.goto]
    rw [htail (by simp [hpc])]
    exact hstage.2.symm.trans hnoted
  | refresh hpc =>
    rw [hpc] at hnoted
    simp only [NotedAfter, noteHead, hpc]
    rw [htail (by simp [hpc])]
    exact hnoted

theorem sourced_statement {source : ℤ → Option ℕ} {f' : Frame}
    (hdoes : Does pl ses i f w w' (.at f')) (hframe : FrameOf ses w i f)
    (hloop : f.pc ≠ .recordLoop) (hsourced : Sourced (bytesize pl) (ses.ring i) source f) :
    Sourced (bytesize pl) (ses.ring i) (noteSource pl source f) f' := by
  have hbound := hframe.bound
  unfold Sourced at hsourced
  cases hdoes with
  | copyToEnd _ hpc =>
    rw [hpc] at hbound
    intro k hk hrest
    simp only [noteSource, hpc, (hbound rfl).2]
    exact if_pos ⟨hk, hrest⟩
  | copyFromStart _ hpc =>
    rw [hpc] at hbound hsourced
    intro k hk hlt
    simp only [noteSource, hpc, (hbound rfl).2]
    rcases lt_or_ge k (bytesize pl - prevHeadWrap (bytesize pl) f.prevHead) with hfirst | hsecond
    · rw [if_neg (by omega)]
      exact hsourced k hk hfirst
    · exact if_pos ⟨hsecond, hlt⟩
  | recordLoop _ hpc => exact absurd hpc hloop
  | _ => exact sourced_trivial rfl

/-- A statement that is the next one of its frame. -/
theorem statement_inv (hcpus : pl.cpus = ses.cpus) (h : Inv pl ses s)
    (ha : s.activations i = some { point := .statement, frame := f })
    (hcalm : calm pl i s = true) (hstep : statement pl 0 f s.world = some (w, next)) :
    Inv pl ses (s.proceed pl i f w next) := by
  obtain ⟨hframe, hlookup, hloop⟩ := h.placed i _ ha
  have hdoes := statement_does h.registered hframe hstep
  have hframed := statement_framed hstep
  obtain ⟨st, r, hinv⟩ := h.ring i hframe.cpu
  rw [ha] at hinv
  have hbusy : Busy (bytesize pl) s (ses.ring i) _ st r.mapping.dataTail f := hinv.serves
  obtain ⟨r', hr', htracks, hafter⟩ :=
    hbusy.stage.statement hdoes hloop hinv.mapped hinv.tracks
  have htail : f.pc ≠ .storeTail → r'.mapping.dataTail = r.mapping.dataTail := by
    intro hpc
    have hsame := hframed.rings (ses.ring i) fun h => absurd h hpc
    rw [hr', hinv.mapped] at hsame
    cases hsame
    rfl
  have hnoted := noted_statement hdoes hframe hlookup hloop hbusy.stage hbusy.noted htail
  refine h.move (next.frame.map enter) hframed.registry rfl (fun j hne => ?_) (fun b hb => ?_) ?_
  · obtain ⟨hrings, hheads⟩ := statement_others h.registered hframe hframed hne
    refine ⟨hrings, hheads, ?_, ?_, Or.inl rfl⟩
    · apply noteHead_other
      intro hpc
      have hbound := hframe.bound
      rw [hpc] at hbound
      rw [(hbound rfl).2]
      simp only [Session.ring]
      omega
    · cases hwrites : writesData f.pc with
      | false =>
        left
        refine ⟨does_data hdoes hwrites, noteSource_same hwrites, ?_⟩
        show (if writesData f.pc then s.writes + 1 else s.writes) = s.writes
        rw [hwrites]
        rfl
      | true =>
        right
        intro b hb
        have hundisturbed := calm_undisturbed hcpus h hcalm ha hne hb
        simpa [Activation.disturbs, Activation.selecting, hwrites] using hundisturbed
  · obtain ⟨f', hnext, rfl⟩ := Option.map_eq_some_iff.mp hb
    exact ⟨frameOf_enter (hframe.does hdoes hnext), placed_enter ..⟩
  · refine ⟨st, r', hr', htracks, ?_⟩
    cases next with
    | «at» f' =>
      exact busy_enter ⟨hafter, hnoted, sourced_statement hdoes hframe hloop hbusy.sourced⟩
    | returned => exact ⟨hafter, hnoted⟩
    | killed => exact hafter.elim

end Statement

section Acts
variable {s t : Overlap.State} {i : ℕ} {f : Frame}

/-- A point of the search that leaves the variables of the frame for later. -/
theorem search_inv (h : Inv pl ses s) {a : Activation} (ha : s.activations i = some a)
    (hpc : a.frame.pc = .lookup) (ourMmap : Option ℕ)
    (hmmap : ourMmap = s.ourMmap ∨
      ∀ j, j ≠ i → ∀ b, s.activations j = some b → b.calling = false)
    (b : Activation) (hpc' : b.frame.pc = .lookup) (hfd : b.frame.fd = a.frame.fd)
    (hplaced : Placed ses { s with ourMmap } i b) : Inv pl ses ({ s with ourMmap }.goOn i b) := by
  obtain ⟨hframe, _⟩ := h.placed i a ha
  obtain ⟨st, r, hinv⟩ := h.ring i hframe.cpu
  rw [ha] at hinv
  have hbusy : Busy (bytesize pl) s (ses.ring i) _ st r.mapping.dataTail a.frame := hinv.serves
  refine h.goOn ourMmap b hmmap ⟨hframe.cpu, hfd.trans hframe.fd, ?_, ?_⟩ hplaced
    ⟨st, r, hinv.mapped, hinv.tracks, hbusy.search hpc hpc'⟩
  · intro hbound
    rw [hpc'] at hbound
    contradiction
  · intro hring
    rw [hpc'] at hring
    contradiction

theorem call_inv (h : Inv pl ses s) (ha : s.activations i = some { point := .call, frame := f }) :
    Inv pl ses (s.goOn i (callMmapRead s.ourMmap f)) := by
  obtain ⟨hframe, hpc, hi, hprev, hmmap⟩ := h.placed i _ ha
  obtain ⟨st, r, hinv⟩ := h.ring i hframe.cpu
  rw [ha] at hinv
  have hbusy : Busy (bytesize pl) s (ses.ring i) _ st r.mapping.dataTail f := hinv.serves
  rw [hmmap]
  let f' : Frame := { f with pc := .readHead, ourMmap := ses.ring i }
  have hframe' : FrameOf ses s.world i f' :=
    ⟨hframe.cpu, hframe.fd, fun _ => ⟨hi, rfl⟩, fun hring => Bool.noConfusion hring⟩
  have hbusy' : Busy (bytesize pl) s (ses.ring i) _ st r.mapping.dataTail f' :=
    hbusy.call hpc hprev rfl rfl
  exact h.goOn s.ourMmap (enter f') (Or.inl rfl) hframe' (placed_enter ..)
    ⟨st, r, hinv.mapped, hinv.tracks, hbusy'⟩

/-- Another point of the record loop. -/
theorem loop_inv (h : Inv pl ses s) {p p' : Point}
    (ha : s.activations i = some { point := p, frame := f })
    (hplaced : Placed ses s i { point := p', frame := f }) :
    Inv pl ses (s.goOn i { point := p', frame := f }) := by
  obtain ⟨hframe, _⟩ := h.placed i _ ha
  obtain ⟨st, r, hinv⟩ := h.ring i hframe.cpu
  rw [ha] at hinv
  exact h.goOn s.ourMmap _ (Or.inl rfl) hframe hplaced
    ⟨st, r, hinv.mapped, hinv.tracks, hinv.serves⟩

/-- The record loop is done: what it was given counts as delivered. -/
theorem loopEnd_inv (h : Inv pl ses s) {loop : LoopState}
    (ha : s.activations i = some { point := .loopTest loop, frame := f }) :
    Inv pl ses (s.goOn i (enter (f.goto .clear))) := by
  obtain ⟨hframe, hpc⟩ := h.placed i _ ha
  change f.pc = .recordLoop at hpc
  obtain ⟨st, r, hinv⟩ := h.ring i hframe.cpu
  rw [ha] at hinv
  obtain ⟨hstage, hnoted, _⟩ :
    Busy (bytesize pl) s (ses.ring i) _ st r.mapping.dataTail f := hinv.serves
  have hbound := hframe.bound
  have hmapped := hframe.mapped
  unfold Stage at hstage
  unfold Noted at hnoted
  rw [hpc] at hbound hmapped hstage hnoted
  have hframe' : FrameOf ses s.world i (f.goto .clear) :=
    ⟨hframe.cpu, hframe.fd, fun _ => hbound rfl, fun _ => hmapped rfl⟩
  refine h.goOn s.ourMmap _ (Or.inl rfl) hframe' (placed_enter ..)
    ⟨st.deliver (windowLength f), r, hinv.mapped, hinv.tracks.deliver _, ?_⟩
  exact ⟨deliver_handed hinv.tracks hstage.1, hnoted, trivial⟩

theorem act_inv (hcpus : pl.cpus = ses.cpus) (h : Inv pl ses s) (hcalm : calm pl i s = true)
    (hact : act pl i s = some t) : Inv pl ses t := by
  unfold Overlap.act at hact
  cases ha : s.activations i with
  | none =>
    rw [ha] at hact
    contradiction
  | some a =>
    rw [ha] at hact
    obtain ⟨point, f⟩ := a
    obtain ⟨hframe, hplaced⟩ := h.placed i _ ha
    have hcpu := hframe.cpu
    cases point with
    | statement =>
      obtain ⟨⟨w, next⟩, hstep, rfl⟩ := Option.map_eq_some_iff.mp hact
      exact statement_inv hcpus h ha hcalm hstep
    | search =>
      obtain ⟨hpc, hi⟩ := hplaced
      cases hact
      rcases compareEntry_own h.registered hframe hi with ⟨heq, hown⟩ | ⟨heq, hnext⟩
      · rw [heq]
        exact search_inv h ha hpc s.ourMmap (Or.inl rfl) _ hpc rfl ⟨hpc, hown⟩
      · rw [heq]
        exact search_inv h ha hpc s.ourMmap (Or.inl rfl) _ hpc rfl ⟨hpc, hnext⟩
    | readPrevHead =>
      obtain ⟨hpc, hi⟩ := hplaced
      cases hact
      rw [withEntry_own h.registered hcpu hi]
      exact search_inv h ha hpc s.ourMmap (Or.inl rfl) _ hpc rfl ⟨hpc, hi, rfl⟩
    | select =>
      obtain ⟨hpc, hi, hprev⟩ := hplaced
      cases hact
      rw [withEntry_own h.registered hcpu hi]
      refine search_inv h ha hpc (some (ses.ring i)) (Or.inr fun j hne b hb => ?_) _ hpc rfl
        ⟨hpc, hi, hprev, rfl⟩
      have hundisturbed := calm_undisturbed hcpus h hcalm ha hne hb
      rw [Activation.disturbs, Bool.or_eq_false_iff] at hundisturbed
      exact hundisturbed.1
    | call =>
      cases hact
      exact call_inv h ha
    | loopTest loop =>
      cases hact
      split
      · exact loop_inv h ha ⟨hplaced, rfl⟩
      · exact loopEnd_inv h ha
    | record loop since =>
      obtain ⟨hpc, rfl⟩ := hplaced
      simp only [if_true] at hact
      obtain ⟨loop', _, rfl⟩ := Option.map_eq_some_iff.mp hact
      exact loop_inv h ha hpc

/-- A signal for a processor whose descriptor has no activation. -/
theorem signal_inv (h : Inv pl ses s) (hi : i < ses.cpus) (hidle : s.activations i = none) :
    Inv pl ses (s.goOn i (enter (Frame.start (s.world.currentFd i)))) := by
  obtain ⟨st, r, hinv⟩ := h.ring i hi
  rw [hidle] at hinv
  have hrest : Idle s (ses.ring i) _ st r.mapping.dataTail := hinv.serves
  exact h.goOn s.ourMmap _ (Or.inl rfl) (FrameOf.start h.registered hi) (placed_enter ..)
    ⟨st, r, hinv.mapped, hinv.tracks, hrest.settled, hrest.noted, trivial⟩

/-- The kernel may append to any ring at any time. -/
theorem append_inv (h : Inv pl ses s) {ring : ℕ} {r : Ring} {bytes : List Byte}
    (hr : s.world.rings ring = some r)
    (hlap : (r.mapping.dataHead + bytes.length : ℤ) ≤ r.mapping.dataTail + bytesize pl)
    (hsmall : r.mapping.dataHead + bytes.length < 2 ^ 63) :
    Inv pl ses { s with world := setMapping s.world ring r (kernelAppend pl r bytes) } := by
  refine ⟨h.registered.congr rfl, fun j b hb => ?_, fun j hj => ?_⟩
  · obtain ⟨hframe, hplaced⟩ := h.placed j b hb
    exact ⟨hframe.append, hplaced⟩
  · obtain ⟨st, r', hinv⟩ := h.ring j hj
    have hserves := hinv.serves
    by_cases heq : ses.ring j = ring
    · have hsame := hinv.mapped
      rw [heq, hr] at hsame
      cases hsame
      refine ⟨st.produce bytes, { r with mapping := kernelAppend pl r bytes }, ?_,
        hinv.tracks.append bytes hlap hsmall, ?_⟩
      · show Function.update s.world.rings ring _ (ses.ring j) = _
        rw [heq, Function.update_self]
      · show Serves _ _ _ _ _ _ (s.activations j)
        cases hact : s.activations j with
        | none =>
          rw [hact] at hserves
          exact ⟨⟨hserves.settled.prev, hserves.settled.delivered⟩, hserves.noted⟩
        | some b =>
          rw [hact] at hserves
          exact ⟨hserves.stage.produce bytes, hserves.noted, hserves.sourced⟩
    · refine ⟨st, r', ?_, hinv.tracks, ?_⟩
      · show Function.update s.world.rings ring _ (ses.ring j) = _
        rw [Function.update_of_ne heq]
        exact hinv.mapped
      · show Serves _ _ _ _ _ _ (s.activations j)
        cases hact : s.activations j with
        | none =>
          rw [hact] at hserves
          exact ⟨hserves.settled, hserves.noted⟩
        | some b =>
          rw [hact] at hserves
          exact ⟨hserves.stage, hserves.noted, hserves.sourced⟩

/-- A calm step keeps the invariant. -/
theorem step_inv (hcpus : pl.cpus = ses.cpus) (h : Inv pl ses s) {l : Overlap.Label}
    (hstep : CalmStep pl s l t) : Inv pl ses t := by
  obtain ⟨hstep, hcalm⟩ := hstep
  cases hstep with
  | append _ _ hr hlap hsmall => exact append_inv h hr hlap hsmall
  | signal i _ hi hidle => exact signal_inv h (hcpus ▸ hi) hidle
  | act i _ hact => exact act_inv hcpus h (hcalm i rfl) hact
  | torn i outcome _ ha htorn => exact absurd (h.placed i _ ha).2.2 htorn

end Acts

end PapiSample.OverlapSteps
