import PapiSample.Drain
import PapiSample.HandlerProgress

/-!
The log of a session. Here the kernel writes items, whole ones, and a handler run puts
into the log what its record loop does. The window of every loop is then a run of whole
items, those that come next, whatever the loops before it made of theirs.
-/
namespace PapiSample.RecordLog

open Bytes Cursor Delivery ParseRecord RecordLoop MmapRead Process SampleInit OpenedEvents Handler
  Registry HandlerRuns RingReads StreamSimulation Sessions Lossless Drain HandlerProgress Transition

abbrev Trace := List (ℤ × List (Event Out))

variable {c : Config} {ρ : Type}

/-- What the kernel may write, and what is known of a record loop over such items. -/
structure Reading (c : Config) (ρ : Type) where
  bytes : ρ → List Byte
  writes : ρ → Prop
  finds : List ρ → Trace → Prop
  sound : ∀ items : List ρ, (∀ r ∈ items, writes r) → ∀ mem : Memory,
    Holds mem 0 (items.flatMap bytes) → Room 64 0 (items.flatMap bytes).length →
    ∀ (fuel : ℕ) (done : LoopState), recordLoop c (items.flatMap bytes).length mem fuel
      (loopStart none) = some done → finds items done.trace

def Reading.Ends (rd : Reading c ρ) : Prop :=
  ∀ items : List ρ, (∀ r ∈ items, rd.writes r) → ∀ mem : Memory,
    Holds mem 0 (items.flatMap rd.bytes) → Room 64 0 (items.flatMap rd.bytes).length →
    ∃ fuel done, recordLoop c (items.flatMap rd.bytes).length mem fuel (loopStart none) = some done

/-- A process with the items that were written to each ring, and with what the record
loops have done so far, each for a descriptor. -/
structure Logged (ρ : Type) where
  state : State
  written : ℕ → List ρ
  log : List (ℤ × Trace)

def Logged.start (ρ : Type) (s : State) : Logged ρ where
  state := s
  written := fun _ => []
  log := []

inductive Logs (pl : Platform) (rd : Reading c ρ) (u : Logged ρ) : Label → Logged ρ → Prop
  | append {t : State} (ring : ℕ) (items : List ρ) :
      (∀ r ∈ items, rd.writes r) →
      Step pl u.state (.append ring (items.flatMap rd.bytes)) t →
      Logs pl rd u (.append ring (items.flatMap rd.bytes))
        { u with
          state := t
          written := Function.update u.written ring (u.written ring ++ items) }
  | recordLoop {t : State} {f : Frame} {fuel : ℕ} {done : LoopState} {bytes : List Byte} :
      u.state.handler = some f →
      recordLoop (decoderConfig pl u.state.world) (windowSize f.head f.prevHead) u.state.world.data
        fuel (loopStart none) = some done →
      Step pl u.state (.statement f.fd .recordLoop bytes) t →
      Logs pl rd u (.statement f.fd .recordLoop bytes)
        { u with state := t, log := u.log ++ [(f.fd, done.trace)] }
  | other {t : State} {l : Label} :
      Step pl u.state l t → (∀ ring bytes, l ≠ .append ring bytes) →
      (∀ fd bytes, l ≠ .statement fd .recordLoop bytes) → Logs pl rd u l { u with state := t }

def tracesFor (fd : ℤ) (log : List (ℤ × Trace)) : List Trace :=
  (log.filter fun e => e.1 = fd).map Prod.snd

theorem tracesFor_append (fd : ℤ) (x y : List (ℤ × Trace)) :
    tracesFor fd (x ++ y) = tracesFor fd x ++ tracesFor fd y := by
  simp [tracesFor]

theorem tracesFor_own (fd : ℤ) (trace : Trace) : tracesFor fd [(fd, trace)] = [trace] := by
  simp [tracesFor]

theorem tracesFor_other {fd fd' : ℤ} (hne : fd' ≠ fd) (trace : Trace) :
    tracesFor fd [(fd', trace)] = [] := by
  simp [tracesFor, hne]

variable {pl : Platform} {ses : Session} {rd : Reading c ρ}

theorem Logs.step {u v : Logged ρ} {l : Label} (h : Logs pl rd u l v) :
    Step pl u.state l v.state := by
  cases h with
  | append _ _ _ hstep => exact hstep
  | recordLoop _ _ hstep => exact hstep
  | other hstep _ _ => exact hstep

/-- Only the kernel writes items. -/
theorem Logs.writes_nothing {u v : Logged ρ} {l : Label} (h : Logs pl rd u l v)
    (hl : ∀ ring bytes, l ≠ .append ring bytes) : v.written = u.written := by
  cases h with
  | append => exact absurd rfl (hl _ _)
  | recordLoop => rfl
  | other => rfl

theorem run_of_logs {u v : Logged ρ} {labels : List Label} (h : Run (Logs pl rd) u labels v) :
    Run (Step pl) u.state labels v.state := by
  induction h with
  | nil => exact Run.nil _
  | snoc _ hlast ih => exact ih.snoc hlast.step

def renamed {ρ' : Type} (g : ρ → ρ') (u : Logged ρ) : Logged ρ' where
  state := u.state
  written := fun ring => (u.written ring).map g
  log := u.log

theorem logs_renamed {ρ' : Type} {rd' : Reading c ρ'} (g : ρ → ρ')
    (hbytes : ∀ r, rd'.bytes (g r) = rd.bytes r) (hwrites : ∀ r, rd.writes r → rd'.writes (g r))
    {u v : Logged ρ} {l : Label} (h : Logs pl rd u l v) :
    Logs pl rd' (renamed g u) l (renamed g v) := by
  cases h with
  | append ring items hitems hstep =>
    have hsame : (items.map g).flatMap rd'.bytes = items.flatMap rd.bytes := by
      rw [List.flatMap_map]
      exact List.flatMap_congr fun r _ => hbytes r
    have hall : ∀ r ∈ items.map g, rd'.writes r := fun r hr => by
      obtain ⟨q, hq, rfl⟩ := List.mem_map.mp hr
      exact hwrites q (hitems q hq)
    have hwritten : (fun i => (Function.update u.written ring (u.written ring ++ items) i).map g) =
        Function.update (renamed g u).written ring ((renamed g u).written ring ++ items.map g) := by
      rw [renamed, ← List.map_append]
      exact Function.comp_update (List.map g) u.written ring _
    rw [← hsame] at hstep ⊢
    have hstep : Step pl (renamed g u).state _ _ := hstep
    have hlogs := Logs.append ring (items.map g) hall hstep
    rw [← hwritten] at hlogs
    exact hlogs
  | recordLoop hf hdone hstep => exact Logs.recordLoop hf hdone hstep
  | other hstep happend hloop => exact Logs.other hstep happend hloop

theorem run_renamed {ρ' : Type} {rd' : Reading c ρ'} (g : ρ → ρ')
    (hbytes : ∀ r, rd'.bytes (g r) = rd.bytes r) (hwrites : ∀ r, rd.writes r → rd'.writes (g r))
    {u v : Logged ρ} {labels : List Label} (h : Run (Logs pl rd) u labels v) :
    Run (Logs pl rd') (renamed g u) labels (renamed g v) := by
  induction h with
  | nil => exact Run.nil _
  | snoc _ hlast ih => exact ih.snoc (logs_renamed g hbytes hwrites hlast)

theorem decoderConfig_congr {w w' : World} (h : w'.registry = w.registry) :
    decoderConfig pl w' = decoderConfig pl w := by
  have htype : w'.sampleTypeHandle = w.sampleTypeHandle :=
    congrArg Process.Registry.sampleTypeHandle h
  have hformat : w'.readFormatHandle = w.readFormatHandle :=
    congrArg Process.Registry.readFormatHandle h
  have hregs : w'.sampleRegs = w.sampleRegs := congrArg Process.Registry.sampleRegs h
  unfold decoderConfig
  rw [htype, hformat, hregs]

/-- What the loops since some moment were given: what had been delivered by then, and
how long the log was, is `base` and `old`. -/
def Windows (ses : Session) (rd : Reading c ρ) (base : ℕ → List ρ) (old : ℕ)
    (streams : ℕ → Stream ρ) (log : List (ℤ × Trace)) : Prop :=
  ∀ i < ses.cpus, ∃ windows : List (List ρ), (streams i).delivered = base i ++ windows.flatten ∧
    List.Forall₂ rd.finds windows (tracesFor (ses.fd i) (log.drop old))

/-- The process and its log are in step with streams of items, of which each ring has
the encodings. -/
structure InLog (pl : Platform) (ses : Session) (rd : Reading c ρ) (base : ℕ → List ρ) (old : ℕ)
    (streams : ℕ → Stream ρ) (u : Logged ρ) : Prop where
  config : decoderConfig pl u.state.world = c
  bytes : Simulates pl ses (fun i => (streams i).encode rd.bytes) u.state
  written : ∀ i, u.written (ses.ring i) = (streams i).produced
  allowed : ∀ i, ∀ r ∈ (streams i).produced, rd.writes r
  length : old ≤ u.log.length
  log : Windows ses rd base old streams u.log
  boundary : ∀ i < ses.cpus, (∃ r, u.state.world.rings (ses.ring i) = some r) →
    ∃ done, done <+: (streams i).produced ∧
      position ses i u.state.world u.state.handler = (done.flatMap rd.bytes).length

variable {base : ℕ → List ρ} {old : ℕ} {streams : ℕ → Stream ρ} {u v : Logged ρ}

theorem inLog_start {w : World} (h : Started ses w) (hconfig : decoderConfig pl w = c) :
    InLog pl ses rd (fun _ => []) 0 (fun _ => Stream.empty)
      (Logged.start ρ (State.sampling pl w)) where
  config := hconfig
  bytes := simulates_sampling h
  written := fun _ => rfl
  allowed := fun _ _ hr => absurd hr List.not_mem_nil
  length := Nat.le_refl 0
  log := fun _ _ => ⟨[], rfl, List.Forall₂.nil⟩
  boundary := fun i hi _ => ⟨[], List.prefix_refl [], h.heads i hi⟩

/-- Any moment can be the one from which the windows are counted. -/
theorem InLog.rebase (h : InLog pl ses rd base old streams u) :
    InLog pl ses rd (fun i => (streams i).delivered) u.log.length streams u where
  config := h.config
  bytes := h.bytes
  written := h.written
  allowed := h.allowed
  length := Nat.le_refl _
  log := fun i _ => by
    refine ⟨[], (List.append_nil _).symm, ?_⟩
    rw [List.drop_length]
    exact List.Forall₂.nil
  boundary := h.boundary

/-- A step that leaves the streams alone does not move a position off its boundary. -/
theorem InLog.boundary_step (h : InLog pl ses rd base old streams u) {l : Label} {t : State}
    (hstep : Step pl u.state l t) {i : ℕ} (hi : i < ses.cpus)
    (hr : ∃ r, t.world.rings (ses.ring i) = some r) :
    ∃ done, done <+: (streams i).produced ∧
      position ses i t.world t.handler = (done.flatMap rd.bytes).length := by
  obtain ⟨r, hr⟩ := hr
  obtain ⟨r₀, hr₀⟩ := mapped_before hstep hr
  cases hl : readsHead (ses.fd i) l with
  | false =>
    rw [position_step h.bytes.valid hi hstep hl]
    exact h.boundary i hi ⟨r₀, hr₀⟩
  | true =>
    refine ⟨_, List.prefix_refl _, ?_⟩
    rw [position_read h.bytes.valid hi hstep hl hr₀]
    exact readHead_eq (h.bytes.ring i hi r₀ hr₀).tracks

/-- The kernel writes items. -/
theorem InLog.append (hcpus : pl.cpus = ses.cpus) (h : InLog pl ses rd base old streams u)
    {ring : ℕ} {items : List ρ} {t : State} (hitems : ∀ r ∈ items, rd.writes r)
    (hstep : Step pl u.state (.append ring (items.flatMap rd.bytes)) t) :
    ∃ streams', InLog pl ses rd base old streams'
      { u with
        state := t
        written := Function.update u.written ring (u.written ring ++ items) } := by
  have hboundary := fun i hi hr => h.boundary_step hstep (i := i) hi hr
  have hregistry := step_registry hstep
  have hvalid := h.bytes.valid.step hcpus hstep
  cases hstep with
  | @append r _ _ hr hlap hsmall =>
    refine ⟨fun i => if ses.ring i = ring then (streams i).produce items else streams i, ?_⟩
    have hproduced : ∀ i, (streams i).produced <+:
        (if ses.ring i = ring then (streams i).produce items else streams i).produced := by
      intro i
      split
      · exact List.prefix_append _ items
      · exact List.prefix_refl _
    have hdelivered : ∀ i, (if ses.ring i = ring then (streams i).produce items
        else streams i).delivered = (streams i).delivered := by
      intro i
      split <;> rfl
    constructor
    · exact (decoderConfig_congr hregistry).trans h.config
    · refine h.bytes.append hr hlap hsmall _ (fun i hring => ?_) (fun i hring => ?_) hvalid
      · simp only [hring, if_true]
        exact Stream.encode_produce ..
      · simp only [hring, if_false]
    · intro i
      by_cases hring : ses.ring i = ring
      · simp only [hring, Function.update_self, if_true]
        rw [← hring, h.written i]
        rfl
      · simp only [hring, Function.update_of_ne hring, if_false]
        exact h.written i
    · intro i r hr
      split at hr
      · rcases List.mem_append.mp hr with hbefore | hnew
        · exact h.allowed i r hbefore
        · exact hitems r hnew
      · exact h.allowed i r hr
    · exact h.length
    · intro i hi
      rw [hdelivered]
      exact h.log i hi
    · intro i hi hmapped
      obtain ⟨done, hdone, hpos⟩ := hboundary i hi hmapped
      exact ⟨done, hdone.trans (hproduced i), hpos⟩

/-- The window of a record loop is a run of whole items, those that come next. -/
theorem InLog.window (h : InLog pl ses rd base old streams u) {f : Frame} {i : ℕ}
    (hf : u.state.handler = some f) (hframe : FrameOf ses u.state.world i f)
    (hpc : f.pc = .recordLoop) :
    ∃ n, (∀ r ∈ (streams i).pending.take n, rd.writes r) ∧
      windowSize f.head f.prevHead = (((streams i).pending.take n).flatMap rd.bytes).length ∧
      windowLength f = (((streams i).pending.take n).flatMap rd.bytes).length ∧
      Holds u.state.world.data 0 (((streams i).pending.take n).flatMap rd.bytes) ∧
      Room 64 0 (((streams i).pending.take n).flatMap rd.bytes).length := by
  obtain ⟨r, hr⟩ := hframe.mapped (by rw [hpc]; rfl)
  have hinv := h.bytes.ring i hframe.cpu r hr
  have hstage := hinv.stage f hf hframe.fd
  simp only [Stage, hpc] at hstage
  obtain ⟨haimed, hcopied⟩ := hstage
  obtain ⟨done, hdone, hpos⟩ := h.boundary i hframe.cpu ⟨r, hr⟩
  have hhead : position ses i u.state.world u.state.handler = f.head := by
    rw [hf]
    simp [position, hframe.fd, hpc, Pc.hasHead]
  obtain ⟨hsize, hfits, hlength⟩ := windowSize_eq hinv.tracks haimed
  have hlower := haimed.lower
  have hdelivered := haimed.settled.delivered
  have hsmall := bytesize_lt pl
  rw [hhead] at hpos
  obtain ⟨n, hn⟩ := Stream.encode_cut rd.bytes (streams i) hdone (by omega)
  have hwindow : windowLength f = (((streams i).pending.take n).flatMap rd.bytes).length := by omega
  refine ⟨n, ?_, by rw [hsize, hwindow], hwindow, ?_, room_of_nonneg (Int.le_refl 0) (by omega)⟩
  · exact fun q hq => h.allowed i q (List.mem_of_mem_drop (List.mem_of_mem_take hq))
  · have hgiven := given_pending hinv.tracks haimed hcopied hpc
    rw [given, if_pos hpc, hsize, Int.toNat_natCast, hwindow] at hgiven
    exact hgiven.trans (Stream.encode_take ..)

/-- A record loop adds its window to those that there were. -/
theorem InLog.recordLoop (hcpus : pl.cpus = ses.cpus) (h : InLog pl ses rd base old streams u)
    {f : Frame} {fuel : ℕ} {done : LoopState} {bytes : List Byte} {t : State}
    (hf : u.state.handler = some f)
    (hdone : RecordLoop.recordLoop (decoderConfig pl u.state.world) (windowSize f.head f.prevHead)
      u.state.world.data fuel (loopStart none) = some done)
    (hstep : Step pl u.state (.statement f.fd .recordLoop bytes) t) :
    ∃ streams', InLog pl ses rd base old streams'
      { u with state := t, log := u.log ++ [(f.fd, done.trace)] } := by
  obtain ⟨i, hframe⟩ := h.bytes.valid.handler f hf
  have hboundary := fun j hj hr => h.boundary_step hstep (i := j) hj hr
  have hregistry := step_registry hstep
  have hvalid := h.bytes.valid.step hcpus hstep
  generalize hl : Label.statement f.fd .recordLoop bytes = l at hstep
  cases hstep with
  | @statement f' w next fuel' hf' hstatement =>
    cases hf.symm.trans hf'
    have hpc : f.pc = .recordLoop := (Label.statement.inj hl).2.1.symm
    obtain ⟨n, hallowed, hsize, hlength, hholds, hroom⟩ := h.window hf hframe hpc
    have hfinds : rd.finds ((streams i).pending.take n) done.trace := by
      rw [h.config, hsize] at hdone
      exact rd.sound _ hallowed _ hholds hroom fuel done hdone
    have hne : ∀ j < ses.cpus, j ≠ i → f.fd ≠ ses.fd j := fun j hj hji hfd =>
      hji (ses.distinct j i hj hframe.cpu (hfd.symm.trans hframe.fd))
    refine ⟨Function.update streams i ((streams i).deliver n), ?_⟩
    have hproduced : ∀ j, (Function.update streams i ((streams i).deliver n) j).produced =
        (streams j).produced := by
      intro j
      by_cases hj : j = i
      · rw [hj, Function.update_self]
        rfl
      · rw [Function.update_of_ne hj]
    constructor
    · exact (decoderConfig_congr hregistry).trans h.config
    · refine h.bytes.statement hf hframe hstatement _ (fun j hj => ?_)
        (fun r hr htracks hstage => ?_) hvalid
      · rw [Function.update_of_ne hj]
      · rw [Function.update_self, Stream.encode_deliver]
        simp only [Stage, hpc] at hstage
        have hhanded := deliver_handed htracks hstage.1
        rw [hlength] at hhanded
        cases statement_does h.bytes.valid.registered hframe hstatement with
        | recordLoop ok _ _ =>
          exact ⟨r, by simpa using hr, htracks.deliver _, hhanded⟩
        | _ => simp_all
    · intro j
      rw [hproduced]
      exact h.written j
    · intro j
      rw [hproduced]
      exact h.allowed j
    · rw [List.length_append]
      exact Nat.le_add_right_of_le h.length
    · intro j hj
      obtain ⟨windows, hflatten, hall⟩ := h.log j hj
      rw [List.drop_append_of_le_length h.length, tracesFor_append]
      by_cases hji : j = i
      · subst hji
        refine ⟨windows ++ [(streams j).pending.take n], ?_, ?_⟩
        · rw [Function.update_self, List.flatten_append, List.flatten_singleton,
            ← List.append_assoc, ← hflatten]
          rfl
        · rw [hframe.fd, tracesFor_own]
          exact List.rel_append hall (List.Forall₂.cons hfinds List.Forall₂.nil)
      · rw [Function.update_of_ne hji, tracesFor_other (hne j hj hji), List.append_nil]
        exact ⟨windows, hflatten, hall⟩
    · intro j hj hmapped
      rw [hproduced]
      exact hboundary j hj hmapped
  | _ => contradiction

/-- The other steps write no item and add nothing to the log. -/
theorem InLog.other (hcpus : pl.cpus = ses.cpus) (h : InLog pl ses rd base old streams u)
    {l : Label} {t : State} (hstep : Step pl u.state l t)
    (happend : ∀ ring bytes, l ≠ .append ring bytes)
    (hloop : ∀ fd bytes, l ≠ .statement fd .recordLoop bytes) :
    InLog pl ses rd base old streams { u with state := t } where
  config := (decoderConfig_congr (step_registry hstep)).trans h.config
  bytes := by
    refine h.bytes.quiet hcpus hstep ?_
    cases l with
    | append ring bytes => exact absurd rfl (happend ring bytes)
    | statement fd pc bytes =>
      cases pc with
      | recordLoop => exact absurd rfl (hloop fd bytes)
      | _ => rfl
    | _ => rfl
  written := h.written
  allowed := h.allowed
  length := h.length
  log := h.log
  boundary := fun i hi hr => h.boundary_step hstep (i := i) hi hr

theorem InLog.step (hcpus : pl.cpus = ses.cpus) (h : InLog pl ses rd base old streams u) {l : Label}
    (hstep : Logs pl rd u l v) : ∃ streams', InLog pl ses rd base old streams' v := by
  cases hstep with
  | append ring items hitems hstep => exact h.append hcpus hitems hstep
  | recordLoop hf hdone hstep => exact h.recordLoop hcpus hf hdone hstep
  | other hstep happend hloop => exact ⟨streams, h.other hcpus hstep happend hloop⟩

theorem InLog.run (hcpus : pl.cpus = ses.cpus) (h : InLog pl ses rd base old streams u)
    {labels : List Label} (hrun : Run (Logs pl rd) u labels v) :
    ∃ streams', InLog pl ses rd base old streams' v :=
  hrun.invariant (fun v => ∃ streams, InLog pl ses rd base old streams v) ⟨_, h⟩
    fun _ _ _ _ hprev hstep => by
      obtain ⟨_, hprev⟩ := hprev
      exact hprev.step hcpus hstep

theorem run_inLog (hcpus : pl.cpus = ses.cpus) {w : World} (h : Started ses w)
    (hconfig : decoderConfig pl w = c) {labels : List Label}
    (hrun : Run (Logs pl rd) (Logged.start ρ (State.sampling pl w)) labels u) :
    ∃ streams, InLog pl ses rd (fun _ => []) 0 streams u :=
  (inLog_start h hconfig).run hcpus hrun

/-- The bytes of the items are those that the kernel wrote. -/
theorem run_written {u₀ : Logged ρ} {labels : List Label} (hrun : Run (Logs pl rd) u₀ labels u)
    (ring : ℕ) : (u.written ring).flatMap rd.bytes =
      (u₀.written ring).flatMap rd.bytes ++ labels.flatMap (writtenTo ring) := by
  induction hrun with
  | nil => simp
  | @snoc v w labels l hprev hlast ih =>
    rw [List.flatMap_append, List.flatMap_singleton, ← List.append_assoc, ← ih]
    cases hlast with
    | append r items =>
      simp only [writtenTo]
      by_cases hr : r = ring
      · subst hr
        rw [Function.update_self, if_pos rfl]
        exact List.flatMap_append
      · rw [Function.update_of_ne (Ne.symm hr), if_neg hr, List.append_nil]
    | recordLoop => exact (List.append_nil _).symm
    | @other t l _ happend _ =>
      have hnone : writtenTo ring l = [] := by
        cases l with
        | append r bytes => exact absurd rfl (happend r bytes)
        | _ => rfl
      rw [hnone, List.append_nil]

/-- Where every item takes up room, equally many bytes are equally many items. -/
theorem items_eq {items all : List ρ} (hroom : ∀ r, 0 < (rd.bytes r).length)
    (hahead : items <+: all) (hbytes : items.flatMap rd.bytes = all.flatMap rd.bytes) :
    items = all := by
  obtain ⟨rest, rfl⟩ := hahead
  have hlength := congrArg List.length hbytes
  rw [List.flatMap_append, List.length_append] at hlength
  cases rest with
  | nil => exact (List.append_nil items).symm
  | cons r more =>
    have hsize := hroom r
    rw [List.flatMap_cons, List.length_append] at hlength
    omega

/-- Between handler runs, the items that were delivered for a mapped ring are those that
were there at the last read of `data_head`. -/
theorem InLog.delivered (hcpus : pl.cpus = ses.cpus) {w : World} (hstart : Started ses w)
    (h : InLog pl ses rd base old streams u) {labels : List Label}
    (hrun : Run (Logs pl rd) (Logged.start ρ (State.sampling pl w)) labels u) {i : ℕ}
    (hi : i < ses.cpus) (hidle : u.state.handler = none)
    (hmapped : (u.state.world.rings (ses.ring i)).isSome = true) :
    (streams i).delivered.flatMap rd.bytes =
      (upToLastRead (ses.fd i) labels).flatMap (writtenTo (ses.ring i)) := by
  obtain ⟨r, hr⟩ := Option.isSome_iff_exists.mp hmapped
  have hsettled := (h.bytes.ring i hi r hr).settled fun f hf => absurd hf (idle_ne hidle)
  have hread := (run_drained hcpus hstart hi (run_of_logs hrun) hidle hr).atLastRead
  have hwritten := run_written hrun (ses.ring i)
  rw [flatMap_lastRead (ses.fd i), h.written] at hwritten
  -- both are initial parts of what was written, and they have the same length
  have hall : (streams i).delivered.flatMap rd.bytes <+: (streams i).produced.flatMap rd.bytes := by
    obtain ⟨rest, hrest⟩ := (streams i).isPrefix
    exact ⟨rest.flatMap rd.bytes, by rw [← hrest, List.flatMap_append]⟩
  have hpart : (upToLastRead (ses.fd i) labels).flatMap (writtenTo (ses.ring i)) <+:
      (streams i).produced.flatMap rd.bytes := ⟨_, hwritten.symm⟩
  have hlength : ((streams i).delivered.flatMap rd.bytes).length =
      ((upToLastRead (ses.fd i) labels).flatMap (writtenTo (ses.ring i))).length := by
    have hdelivered : ((streams i).delivered.flatMap rd.bytes).length = r.mapping.dataTail :=
      hsettled.delivered
    have hprev := hsettled.prev
    omega
  exact (List.prefix_of_prefix_length_le hall hpart hlength.le).eq_of_length hlength

/-- What the log has of a ring: one loop for each window, the windows together an initial
part of what was written. -/
structure WindowsOf (rd : Reading c ρ) (labels : List Label) (ring : ℕ) (fd : ℤ) (u : Logged ρ)
    (windows : List (List ρ)) : Prop where
  inOrder : windows.flatten <+: u.written ring
  finds : List.Forall₂ rd.finds windows (tracesFor fd u.log)
  upToRead : u.state.handler = none → (u.state.world.rings ring).isSome = true →
    windows.flatten.flatMap rd.bytes = (upToLastRead fd labels).flatMap (writtenTo ring)

/-- What there is to find in the traces, from what there is in each of them. -/
theorem flatMap_finds {α : Type} {windows : List (List ρ)} {traces : List Trace}
    {f : Trace → List α} {g : List ρ → List α} (h : List.Forall₂ rd.finds windows traces)
    (hfinds : ∀ window trace, rd.finds window trace → f trace = g window) :
    traces.flatMap f = windows.flatMap g := by
  induction h with
  | nil => rfl
  | cons hfirst _ ih => rw [List.flatMap_cons, List.flatMap_cons, ih, hfinds _ _ hfirst]

theorem run_windowsOf (hcpus : pl.cpus = ses.cpus) {w : World} (h : Started ses w)
    (hconfig : decoderConfig pl w = c) {labels : List Label}
    (hrun : Run (Logs pl rd) (Logged.start ρ (State.sampling pl w)) labels u) {i : ℕ}
    (hi : i < ses.cpus) : ∃ windows, WindowsOf rd labels (ses.ring i) (ses.fd i) u windows := by
  obtain ⟨streams, hin⟩ := run_inLog hcpus h hconfig hrun
  obtain ⟨windows, hflatten, hall⟩ := hin.log i hi
  rw [List.nil_append] at hflatten
  refine ⟨windows, ?_, hall, fun hidle hmapped => ?_⟩
  · rw [hin.written, ← hflatten]
    exact (streams i).isPrefix
  · rw [← hflatten]
    exact hin.delivered hcpus h hrun hi hidle hmapped

/-- If nothing was written since the last read, no item is left out. -/
theorem WindowsOf.all {labels : List Label} {ring : ℕ} {fd : ℤ} {windows : List (List ρ)}
    (h : WindowsOf rd labels ring fd u windows) (hroom : ∀ r, 0 < (rd.bytes r).length)
    (hwritten : (u.written ring).flatMap rd.bytes = labels.flatMap (writtenTo ring))
    (hidle : u.state.handler = none) (hmapped : (u.state.world.rings ring).isSome = true)
    (hsince : (sinceLastRead fd labels).flatMap (writtenTo ring) = []) :
    windows.flatten = u.written ring := by
  rw [flatMap_lastRead fd, hsince, List.append_nil, ← h.upToRead hidle hmapped] at hwritten
  exact items_eq hroom h.inOrder hwritten.symm

def EndsOn (rd : Reading c ρ) (items : List ρ) : Prop :=
  ∀ (n : ℕ) (mem : Memory), Holds mem 0 ((items.take n).flatMap rd.bytes) →
    Room 64 0 ((items.take n).flatMap rd.bytes).length →
    ∃ fuel done, recordLoop c ((items.take n).flatMap rd.bytes).length mem fuel (loopStart none) =
      some done

/-- Then a handler run that has them before it is not stuck. -/
theorem InLog.notStuck (h : InLog pl ses rd base old streams u) {f : Frame}
    (hf : u.state.handler = some f)
    (hends : ∀ i < ses.cpus, f.fd = ses.fd i → EndsOn rd (streams i).pending) :
    ∃ bytes v, Logs pl rd u (.statement f.fd f.pc bytes) v := by
  by_cases hpc : f.pc = .recordLoop
  · obtain ⟨i, hframe⟩ := h.bytes.valid.handler f hf
    obtain ⟨n, _, hsize, _, hholds, hroom⟩ := h.window hf hframe hpc
    obtain ⟨fuel, done, hdone⟩ := hends i hframe.cpu hframe.fd n _ hholds hroom
    have hdone : RecordLoop.recordLoop (decoderConfig pl u.state.world)
        (windowSize f.head f.prevHead) u.state.world.data fuel (loopStart none) = some done := by
      rw [h.config, hsize]
      exact hdone
    have hnext : ∃ w next, statement pl fuel f u.state.world = some (w, next) := by
      unfold statement
      simp only [hpc, hdone, Option.map_some]
      exact ⟨_, _, rfl⟩
    obtain ⟨w, next, hstatement⟩ := hnext
    have hstep := Step.statement fuel hf hstatement
    rw [hpc] at hstep ⊢
    exact ⟨_, _, Logs.recordLoop hf hdone hstep⟩
  · obtain ⟨w, next, hstatement⟩ := statement_ends pl 0 f u.state.world hpc
    exact ⟨_, _, Logs.other (Step.statement 0 hf hstatement) (fun _ _ => nofun)
      fun fd bytes heq => hpc (Label.statement.inj heq).2.1⟩

/-- A handler run over items whose loops end is never stuck. -/
theorem InLog.goOn (hends : rd.Ends) (h : InLog pl ses rd base old streams u) {f : Frame}
    (hf : u.state.handler = some f) : ∃ bytes v, Logs pl rd u (.statement f.fd f.pc bytes) v :=
  h.notStuck hf fun i _ _ _ mem hholds hroom =>
    hends _ (fun r hr => h.allowed i r (List.mem_of_mem_drop (List.mem_of_mem_take hr))) mem hholds
      hroom

/-- So it can be finished, at any time. -/
theorem InLog.finish (hcpus : pl.cpus = ses.cpus) (hends : rd.Ends)
    (h : InLog pl ses rd base old streams u) :
    ∃ labels v, Run (Logs pl rd) u labels v ∧ OnlyStatements labels ∧ v.state.handler = none ∧
      v.written = u.written := by
  generalize hn : statementsLeft u.state.handler = n
  induction n using Nat.strongRecOn generalizing u streams with
  | ind n ih =>
    cases hf : u.state.handler with
    | none => exact ⟨[], u, Run.nil u, nofun, hf, rfl⟩
    | some f =>
      obtain ⟨bytes, v, hstep⟩ := h.goOn hends hf
      have hless := statement_left h.bytes.valid hstep.step
      have hsame := hstep.writes_nothing fun _ _ => nofun
      obtain ⟨streams', hv⟩ := h.step hcpus hstep
      obtain ⟨labels, w, hrun, honly, hidle, hwritten⟩ := ih _ (by omega) hv rfl
      refine ⟨[.statement f.fd f.pc bytes] ++ labels, w, ((Run.nil u).snoc hstep).append hrun, ?_,
        hidle, hwritten.trans hsame⟩
      intro l hl
      rcases List.mem_append.mp hl with hfirst | hrest
      · exact ⟨_, _, _, List.mem_singleton.mp hfirst⟩
      · exact honly l hrest

/-- In any session, the loops of each processor have windows that partition an initial
part of the items of its ring. -/
theorem session_windows {pl : Platform} {a : Answers} {args : Args}
    {episodes : List (World × World)} {w w' : World} {block : ℕ} {labels : List Label}
    (rd : Reading (decoderConfig pl (papiSampleStart pl block w')) ρ) {u : Logged ρ}
    (hprev : History pl episodes w) (hdistinct : Distinct a pl.cpus)
    (hinit : papiSampleInit pl a args w = .fds block w')
    (hrun : Run (Logs pl rd) (Logged.start ρ (State.sampling pl (papiSampleStart pl block w')))
      labels u) {i : ℕ} (hi : i < pl.cpus) :
    ∃ e windows, u.state.world.mmaps i = some e ∧
      (u.written e.sampleMmap).flatMap rd.bytes = labels.flatMap (writtenTo e.sampleMmap) ∧
      WindowsOf rd labels e.sampleMmap (u.state.world.currentFd i) u windows := by
  have hstarted := (init_started hdistinct (history_registry hprev).2 hinit).start pl block
  have hregistered := (hstarted.registered.run (run_of_logs hrun) : Registered _ u.state.world)
  obtain ⟨windows, hwindows⟩ := run_windowsOf rfl hstarted rfl hrun hi
  refine ⟨_, windows, hregistered.mmaps i hi, run_written hrun _, ?_⟩
  rw [hregistered.currentFd hi]
  exact hwindows

theorem session_goesOn {pl : Platform} {a : Answers} {args : Args} {episodes : List (World × World)}
    {w w' : World} {block : ℕ} {labels : List Label}
    {rd : Reading (decoderConfig pl (papiSampleStart pl block w')) ρ} {u : Logged ρ}
    (hends : rd.Ends) (hprev : History pl episodes w) (hdistinct : Distinct a pl.cpus)
    (hinit : papiSampleInit pl a args w = .fds block w')
    (hrun : Run (Logs pl rd) (Logged.start ρ (State.sampling pl (papiSampleStart pl block w')))
      labels u) {f : Frame} (hf : u.state.handler = some f) :
    ∃ bytes v, Logs pl rd u (.statement f.fd f.pc bytes) v := by
  have hstarted := (init_started hdistinct (history_registry hprev).2 hinit).start pl block
  obtain ⟨streams, hin⟩ := run_inLog rfl hstarted rfl hrun
  exact hin.goOn hends hf

end PapiSample.RecordLog
