import PapiSample.Overlap

/-!
What holds while activations overlap: each of them has its place in the code, and
each ring is idle or is served by its own activation. A step belongs to one
processor; for the others nothing changes that they depend on, except `data`
while they do not decode, and `our_mmap` while they do not call.
-/
namespace PapiSample.OverlapInvariant

open Bytes Delivery RecordLoop MmapRead Process Handler Registry HandlerRuns RingReads Overlap

variable {pl : Platform} {ses : Session}

def Placed (ses : Session) (s : Overlap.State) (i : ℕ) (a : Activation) : Prop :=
  match a.point with
  | .statement => a.frame.pc ≠ .lookup ∧ a.frame.pc ≠ .recordLoop
  | .search => a.frame.pc = .lookup ∧ a.frame.i ≤ i
  | .readPrevHead => a.frame.pc = .lookup ∧ a.frame.i = i
  | .select =>
    a.frame.pc = .lookup ∧ a.frame.i = i ∧ a.frame.prevHead = s.world.heads ses.block i
  | .call =>
    a.frame.pc = .lookup ∧ a.frame.i = i ∧ a.frame.prevHead = s.world.heads ses.block i ∧
      s.ourMmap = some (ses.ring i)
  | .loopTest _ => a.frame.pc = .recordLoop
  | .record _ since => a.frame.pc = .recordLoop ∧ since = s.writes

def Noted (headRead tail : ℤ) (f : Frame) : Prop :=
  if pending f.pc then f.head = headRead else tail = headRead

def Sourced (size : ℤ) (ring : ℕ) (source : ℤ → Option ℕ) (f : Frame) : Prop :=
  match f.pc with
  | .copyFromStart => ∀ k, 0 ≤ k → k < size - prevHeadWrap size f.prevHead → source k = some ring
  | .recordLoop => ∀ k, 0 ≤ k → k < size → source k = some ring
  | _ => True

/-- What the ring of a processor and the globals have to do with its activation. -/
structure Busy (size : ℤ) (s : Overlap.State) (ring : ℕ) (prev : ℤ) (st : Stream Byte) (tail : ℕ)
    (f : Frame) : Prop where
  stage : Stage size st tail prev s.world.data f
  noted : Noted (s.headRead ring) tail f
  sourced : Sourced size ring s.source f

structure Idle (s : Overlap.State) (ring : ℕ) (prev : ℤ) (st : Stream Byte) (tail : ℕ) : Prop where
  settled : Settled st tail prev
  noted : (tail : ℤ) = s.headRead ring

def Serves (size : ℤ) (s : Overlap.State) (ring : ℕ) (prev : ℤ) (st : Stream Byte) (tail : ℕ) :
    Option Activation → Prop
  | none => Idle s ring prev st tail
  | some a => Busy size s ring prev st tail a.frame

structure RingInv (pl : Platform) (ses : Session) (s : Overlap.State) (i : ℕ)
    (act : Option Activation) (st : Stream Byte) (r : Ring) : Prop where
  mapped : s.world.rings (ses.ring i) = some r
  tracks : Tracks (bytesize pl) st r.mapping
  serves : Serves (bytesize pl) s (ses.ring i) (s.world.heads ses.block i) st r.mapping.dataTail act

structure Inv (pl : Platform) (ses : Session) (s : Overlap.State) : Prop where
  registered : Registered ses s.world
  placed : ∀ i a, s.activations i = some a → FrameOf ses s.world i a.frame ∧ Placed ses s i a
  ring : ∀ i < ses.cpus, ∃ st r, RingInv pl ses s i (s.activations i) st r

theorem Stage.congr_data {size : ℤ} {st : Stream Byte} {tail : ℕ} {prev : ℤ} {data data' : Memory}
    {f : Frame} (h : Stage size st tail prev data f) (hnot : decoding f.pc = false) :
    Stage size st tail prev data' f := by
  unfold Stage at h ⊢
  cases hpc : f.pc with
  | copyFromStart | recordLoop =>
    rw [hpc] at hnot
    contradiction
  | _ =>
    rw [hpc] at h
    exact h

theorem sourced_trivial {size : ℤ} {ring : ℕ} {source : ℤ → Option ℕ} {f : Frame}
    (hnot : decoding f.pc = false) : Sourced size ring source f := by
  unfold Sourced
  cases hpc : f.pc with
  | copyFromStart | recordLoop =>
    rw [hpc] at hnot
    contradiction
  | _ => trivial

structure Kept (ses : Session) (s t : Overlap.State) (j : ℕ) : Prop where
  rings : t.world.rings (ses.ring j) = s.world.rings (ses.ring j)
  heads : t.world.heads ses.block j = s.world.heads ses.block j
  headRead : t.headRead (ses.ring j) = s.headRead (ses.ring j)
  data : t.world.data = s.world.data ∧ t.source = s.source ∧ t.writes = s.writes ∨
    ∀ b, s.activations j = some b → decoding b.frame.pc = false
  ourMmap : t.ourMmap = s.ourMmap ∨ ∀ b, s.activations j = some b → b.calling = false

theorem Kept.frame {s t : Overlap.State} {j : ℕ} {f : Frame} (h : Kept ses s t j)
    (hf : FrameOf ses s.world j f) : FrameOf ses t.world j f := by
  refine ⟨hf.cpu, hf.fd, hf.bound, fun hpc => ?_⟩
  rw [h.rings]
  exact hf.mapped hpc

theorem Kept.placed {s t : Overlap.State} {j : ℕ} {b : Activation} (h : Kept ses s t j)
    (hb : s.activations j = some b) (hplaced : Placed ses s j b) : Placed ses t j b := by
  unfold Placed at hplaced ⊢
  cases hpoint : b.point with
  | select =>
    rw [hpoint] at hplaced
    rw [h.heads]
    exact hplaced
  | call =>
    rw [hpoint] at hplaced
    obtain ⟨hpc, hi, hprev, hmmap⟩ := hplaced
    rcases h.ourMmap with hsame | hnot
    · refine ⟨hpc, hi, ?_, hsame.trans hmmap⟩
      rw [h.heads]
      exact hprev
    · have hcalling := hnot b hb
      rw [Activation.calling, hpoint] at hcalling
      contradiction
  | record loop since =>
    rw [hpoint] at hplaced
    rcases h.data with hsame | hnot
    · exact ⟨hplaced.1, hplaced.2.trans hsame.2.2.symm⟩
    · have hdecoding := hnot b hb
      rw [hplaced.1] at hdecoding
      contradiction
  | _ =>
    rw [hpoint] at hplaced
    exact hplaced

theorem Kept.ringInv {s t : Overlap.State} {j : ℕ} {st : Stream Byte} {r : Ring}
    (h : Kept ses s t j) (hinv : RingInv pl ses s j (s.activations j) st r) :
    RingInv pl ses t j (s.activations j) st r := by
  refine ⟨h.rings.trans hinv.mapped, hinv.tracks, ?_⟩
  have hserves := hinv.serves
  rw [h.heads]
  cases hact : s.activations j with
  | none =>
    rw [hact] at hserves
    exact ⟨hserves.settled, hserves.noted.trans h.headRead.symm⟩
  | some b =>
    rw [hact] at hserves
    refine ⟨?_, by rw [h.headRead]; exact hserves.noted, ?_⟩
    · rcases h.data with hsame | hnot
      · rw [hsame.1]
        exact hserves.stage
      · exact Stage.congr_data hserves.stage (hnot b hact)
    · rcases h.data with hsame | hnot
      · rw [hsame.2.1]
        exact hserves.sourced
      · exact sourced_trivial (hnot b hact)

/-- A step for processor `i`. -/
theorem Inv.move {s t : Overlap.State} {i : ℕ} (h : Inv pl ses s) (next : Option Activation)
    (hregistry : t.world.registry = s.world.registry)
    (hacts : t.activations = Function.update s.activations i next)
    (hkept : ∀ j, j ≠ i → Kept ses s t j)
    (hnext : ∀ a, next = some a → FrameOf ses t.world i a.frame ∧ Placed ses t i a)
    (hring : ∃ st r, RingInv pl ses t i next st r) : Inv pl ses t := by
  refine ⟨h.registered.congr hregistry, fun j b hb => ?_, fun j hj => ?_⟩
  · rw [hacts] at hb
    by_cases heq : j = i
    · subst heq
      rw [Function.update_self] at hb
      exact hnext b hb
    · rw [Function.update_of_ne heq] at hb
      obtain ⟨hframe, hplaced⟩ := h.placed j b hb
      exact ⟨(hkept j heq).frame hframe, (hkept j heq).placed hb hplaced⟩
  · rw [hacts]
    by_cases heq : j = i
    · subst heq
      rw [Function.update_self]
      exact hring
    · rw [Function.update_of_ne heq]
      obtain ⟨st, r, hinv⟩ := h.ring j hj
      exact ⟨st, r, (hkept j heq).ringInv hinv⟩

theorem calm_undisturbed (hcpus : pl.cpus = ses.cpus) {s : Overlap.State} {i j : ℕ}
    {a b : Activation} (h : Inv pl ses s) (hcalm : calm pl i s = true)
    (ha : s.activations i = some a) (hne : j ≠ i) (hb : s.activations j = some b) :
    a.disturbs b = false := by
  have hj := (h.placed j b hb).1.cpu
  rw [calm, ha, Option.all_some, List.all_eq_true] at hcalm
  have hother := hcalm j (List.mem_range.mpr (by omega))
  simpa [hne, hb] using hother

/-- A step that changes nothing but the activation, and `our_mmap` if nobody is
about to read it. -/
theorem Inv.goOn {s : Overlap.State} {i : ℕ} (h : Inv pl ses s) (ourMmap : Option ℕ)
    (a : Activation)
    (hmmap : ourMmap = s.ourMmap ∨
      ∀ j, j ≠ i → ∀ b, s.activations j = some b → b.calling = false)
    (hframe : FrameOf ses s.world i a.frame)
    (hplaced : Placed ses { s with ourMmap } i a)
    (hring : ∃ st r, RingInv pl ses s i (some a) st r) :
    Inv pl ses ({ s with ourMmap }.goOn i a) := by
  obtain ⟨st, r, hinv⟩ := hring
  have hserves : Busy (bytesize pl) s (ses.ring i) _ st r.mapping.dataTail a.frame := hinv.serves
  refine h.move (some a) rfl rfl (fun j hne => ?_) (fun b hb => ?_)
    ⟨st, r, hinv.mapped, hinv.tracks, hserves.stage, hserves.noted, hserves.sourced⟩
  · refine ⟨rfl, rfl, rfl, Or.inl ⟨rfl, rfl, rfl⟩, ?_⟩
    rcases hmmap with hsame | hnot
    · exact Or.inl hsame
    · exact Or.inr (hnot j hne)
  · cases hb
    exact ⟨hframe, hplaced⟩

section Search
variable {s : Overlap.State} {i : ℕ} {f f' : Frame} {size prev : ℤ} {ring tail : ℕ}
  {st : Stream Byte}

/-- The search has found its entry, or it has passed another one. -/
theorem compareEntry_own (hreg : Registered ses s.world) (hframe : FrameOf ses s.world i f)
    (hi : f.i ≤ i) :
    compareEntry s i f = s.goOn i { point := .readPrevHead, frame := f } ∧ f.i = i ∨
      compareEntry s i f = s.goOn i { point := .search, frame := { f with i := f.i + 1 } } ∧
        f.i + 1 ≤ i := by
  have hcpu := hframe.cpu
  have hnum := hreg.numMaps
  have hfd : s.world.fds (ses.entry f.i).fd.block (ses.entry f.i).fd.index = ses.fd f.i :=
    hreg.fds f.i (by omega)
  unfold compareEntry
  rw [if_neg (by omega), hreg.mmaps f.i (by omega)]
  simp only [hfd, hframe.fd]
  by_cases heq : f.i = i
  · rw [if_pos (by rw [heq])]
    exact Or.inl ⟨rfl, heq⟩
  · have hne : ses.fd f.i ≠ ses.fd i := fun h => heq (ses.distinct f.i i (by omega) hcpu h)
    rw [if_neg hne, if_neg (by omega)]
    exact Or.inr ⟨rfl, by omega⟩

theorem withEntry_own (hreg : Registered ses s.world) (hcpu : i < ses.cpus) (hi : f.i = i)
    (k : MapInfo → Overlap.State) : withEntry s f k = k (ses.entry i) := by
  rw [withEntry, hi, hreg.mmaps i hcpu]

/-- The search has nothing to do with the ring. -/
theorem Busy.search (h : Busy size s ring prev st tail f) (hpc : f.pc = .lookup)
    (hpc' : f'.pc = .lookup) : Busy size s ring prev st tail f' := by
  obtain ⟨hstage, hnoted, _⟩ := h
  unfold Stage at hstage
  unfold Noted at hnoted
  rw [hpc] at hstage hnoted
  refine ⟨?_, ?_, sourced_trivial (by rw [hpc']; rfl)⟩
  · unfold Stage
    rw [hpc']
    exact hstage
  · unfold Noted
    rw [hpc']
    exact hnoted

/-- perf_mmap_read begins. -/
theorem Busy.call (h : Busy size s ring prev st tail f) (hpc : f.pc = .lookup)
    (hprev : f.prevHead = prev) (hpc' : f'.pc = .readHead) (hprev' : f'.prevHead = f.prevHead) :
    Busy size s ring prev st tail f' := by
  obtain ⟨hstage, hnoted, _⟩ := h
  unfold Stage at hstage
  unfold Noted at hnoted
  rw [hpc] at hstage hnoted
  refine ⟨?_, ?_, sourced_trivial (by rw [hpc']; rfl)⟩
  · unfold Stage
    rw [hpc']
    refine ⟨hstage, ?_⟩
    rw [hprev', hprev]
    exact hstage.prev
  · unfold Noted
    rw [hpc']
    exact hnoted

end Search

section Enter
variable {s : Overlap.State} {w : World} {i : ℕ} {f : Frame}

theorem placed_enter (s : Overlap.State) (i : ℕ) (f : Frame) : Placed ses s i (enter f) := by
  unfold enter
  split
  · rename_i hpc
    exact ⟨hpc, Nat.zero_le i⟩
  · rename_i hpc
    exact hpc
  · rename_i hlookup hloop
    exact ⟨hlookup, hloop⟩

theorem frameOf_enter (h : FrameOf ses w i f) : FrameOf ses w i (enter f).frame := by
  unfold enter
  split
  · rename_i hpc
    refine ⟨h.cpu, h.fd, fun hbound => ?_, h.mapped⟩
    rw [hpc] at hbound
    contradiction
  · exact h
  · exact h

theorem busy_enter {size prev : ℤ} {ring tail : ℕ} {st : Stream Byte}
    (h : Busy size s ring prev st tail f) : Busy size s ring prev st tail (enter f).frame := by
  unfold enter
  split
  · rename_i hpc
    exact h.search hpc hpc
  · exact h
  · exact h

end Enter

end PapiSample.OverlapInvariant
