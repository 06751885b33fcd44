import PapiSample.RingReads
import PapiSample.Sessions

/-!
PAPI_sample_handler in several threads at a time. A signal goes to the process,
so that the handler can start for one descriptor while it runs for another. Such
activations have variables of their own but share the globals `our_mmap` and
`data`. Their statements interleave in any order; the search of the registry and
the record loop, which a single handler passes at one go, are taken to pieces.
-/
namespace PapiSample.Overlap

open Bytes Cursor ParseRecord RecordLoop MmapRead Process EventSetup Handler Registry HandlerRuns
  RingReads Transition

/-- Where an activation stands. The search compares one entry of `mmaps` after the
other, reads `prev_head` and writes `our_mmap`, which the call of perf_mmap_read
reads again. The record loop tests its condition and then decodes a record; what
it decodes is in `data` since `since` writes to it. -/
inductive Point
  | statement
  | search | readPrevHead | select | call
  | loopTest (loop : LoopState)
  | record (loop : LoopState) (since : ℕ)

/-- An activation of the handler. Its next statement is that of the frame unless
it is in the search, up to the call, or in the record loop. -/
structure Activation where
  point : Point
  frame : Frame

def enter (f : Frame) : Activation :=
  match f.pc with
  | .lookup => { point := .search, frame := { f with i := 0 } }
  | .recordLoop => { point := .loopTest (loopStart none), frame := f }
  | _ => { point := .statement, frame := f }

/-- The process while it is alive, with the activation for each processor's
descriptor if there is one. The last three fields are not part of the program: how
often `data` was written, the ring that each byte of it was copied from, and the
head that was last read from each ring. -/
structure State where
  world : World
  ourMmap : Option ℕ
  activations : ℕ → Option Activation
  alive : Bool
  writes : ℕ
  source : ℤ → Option ℕ
  headRead : ℕ → ℤ

def State.die (s : State) : State := { s with alive := false }

def State.goOn (s : State) (i : ℕ) (a : Activation) : State :=
  { s with activations := Function.update s.activations i (some a) }

/-- One comparison of the search; with an empty registry it comes to no end that
is defined. -/
def compareEntry (s : State) (i : ℕ) (f : Frame) : State :=
  if s.world.numMaps = 0 then s.die
  else
    match s.world.mmaps f.i with
    | none => s.die
    | some e =>
      if s.world.fds e.fd.block e.fd.index = f.fd then
        s.goOn i { point := .readPrevHead, frame := f }
      else if f.i + 1 = s.world.numMaps then s.die
      else s.goOn i { point := .search, frame := { f with i := f.i + 1 } }

def withEntry (s : State) (f : Frame) (k : MapInfo → State) : State :=
  match s.world.mmaps f.i with
  | none => s.die
  | some e => k e

/-- The call of perf_mmap_read, which returns at once if there is no mapping. -/
def callMmapRead (ourMmap : Option ℕ) (f : Frame) : Activation :=
  match ourMmap with
  | none => enter { f with pc := .storePrevHead, head := -1 }
  | some ring => enter { f with pc := .readHead, ourMmap := ring }

def writesData : Pc → Bool
  | .copyToEnd | .copyFromStart | .clear => true
  | _ => false

def noteHead (headRead : ℕ → ℤ) (f : Frame) (next : Next) : ℕ → ℤ :=
  match f.pc, next with
  | .readHead, .at f' => Function.update headRead f.ourMmap f'.head
  | _, _ => headRead

def survives : Next → Bool
  | .killed => false
  | .at _ | .returned => true

variable (pl : Platform)

def noteSource (source : ℤ → Option ℕ) (f : Frame) : ℤ → Option ℕ :=
  let rest := bytesize pl - prevHeadWrap (bytesize pl) f.prevHead
  match f.pc with
  | .copyToEnd => fun k => if 0 ≤ k ∧ k < rest then some f.ourMmap else source k
  | .copyFromStart => fun k => if rest ≤ k ∧ k < bytesize pl then some f.ourMmap else source k
  | .clear => fun k => if 0 ≤ k ∧ k < bytesize pl then none else source k
  | _ => source

def State.proceed (s : State) (i : ℕ) (f : Frame) (w : World) (next : Next) : State where
  world := w
  ourMmap := s.ourMmap
  activations := Function.update s.activations i (next.frame.map enter)
  alive := survives next
  writes := if writesData f.pc then s.writes + 1 else s.writes
  source := noteSource pl s.source f
  headRead := noteHead s.headRead f next

/-- The next statement of the activation for processor `i`. A record is decoded
in one step as long as nobody writes to `data` meanwhile. -/
def act (i : ℕ) (s : State) : Option State :=
  match s.activations i with
  | none => none
  | some a =>
    match a.point with
    | .statement =>
      (statement pl 0 a.frame s.world).map fun (w, next) => s.proceed pl i a.frame w next
    | .search => some (compareEntry s i a.frame)
    | .readPrevHead => some <| withEntry s a.frame fun e =>
        s.goOn i {
          point := .select
          frame := { a.frame with prevHead := s.world.heads e.prevHead.block e.prevHead.index } }
    | .select => some <| withEntry s a.frame fun e =>
        { s with ourMmap := some e.sampleMmap }.goOn i { a with point := .call }
    | .call => some (s.goOn i (callMmapRead s.ourMmap a.frame))
    | .loopTest loop => some <| s.goOn i <|
        if inWindow (windowSize a.frame.head a.frame.prevHead) loop then
          { a with point := .record loop s.writes }
        else enter (a.frame.goto .clear)
    | .record loop since =>
      if since = s.writes then
        (loopBody (decoderConfig pl s.world) (windowSize a.frame.head a.frame.prevHead)
          s.world.data loop).map fun loop => s.goOn i { a with point := .loopTest loop }
      else none

inductive Label
  | append (ring : ℕ) (bytes : List Byte)
  | signal (i : ℕ)
  | act (i : ℕ)

/-- Anything may come of a record whose bytes were written to while it was decoded. -/
inductive Step : State → Label → State → Prop
  | append {s : State} {r : Ring} (ring : ℕ) (bytes : List Byte) :
      s.world.rings ring = some r →
      (r.mapping.dataHead + bytes.length : ℤ) ≤ r.mapping.dataTail + bytesize pl →
      r.mapping.dataHead + bytes.length < 2 ^ 63 →
      Step s (.append ring bytes)
        { s with world := setMapping s.world ring r (kernelAppend pl r bytes) }
  | signal {s : State} (i : ℕ) :
      s.alive = true → i < pl.cpus → s.activations i = none →
      Step s (.signal i) (s.goOn i (enter (Frame.start (s.world.currentFd i))))
  | act {s t : State} (i : ℕ) :
      s.alive = true → act pl i s = some t → Step s (.act i) t
  | torn {s : State} (i : ℕ) {f : Frame} {loop : LoopState} {since : ℕ}
      (outcome : Option LoopState) :
      s.alive = true → s.activations i = some { point := .record loop since, frame := f } →
      since ≠ s.writes →
      Step s (.act i)
        (match outcome with
        | none => s.die
        | some loop => s.goOn i { point := .loopTest loop, frame := f })

def State.sampling (w : World) : State where
  world := w
  ourMmap := none
  activations := fun _ => none
  alive := true
  writes := 0
  source := fun _ => none
  headRead := fun _ => 0

def Activation.selecting (a : Activation) : Bool :=
  match a.point with
  | .select => true
  | _ => false

def Activation.calling (a : Activation) : Bool :=
  match a.point with
  | .call => true
  | _ => false

def decoding : Pc → Bool
  | .copyFromStart | .recordLoop => true
  | _ => false

/-- The next statement of `a` writes a global that `b` is about to read. -/
def Activation.disturbs (a b : Activation) : Bool :=
  a.selecting && b.calling || writesData a.frame.pc && decoding b.frame.pc

def calm (i : ℕ) (s : State) : Bool :=
  (s.activations i).all fun a => (List.range pl.cpus).all fun j =>
    j = i || (s.activations j).all fun b => !a.disturbs b

def CalmStep (s : State) (l : Label) (t : State) : Prop :=
  Step pl s l t ∧ ∀ i, l = .act i → calm pl i s = true

/-- A run has read the head of its ring and not stored it everywhere yet. -/
def pending : Pc → Bool
  | .disable | .lookup | .readHead | .refresh => false
  | _ => true

def follow (ok : ℕ → State → Bool) : List Label → State → Option State
  | [], s => some s
  | .append .. :: _, _ => none
  | .signal i :: rest, s =>
    if s.alive ∧ i < pl.cpus ∧ (s.activations i).isNone then
      follow ok rest (s.goOn i (enter (Frame.start (s.world.currentFd i))))
    else none
  | .act i :: rest, s =>
    if s.alive ∧ ok i s then (act pl i s).bind (follow ok rest) else none

theorem follow_run {ok : ℕ → State → Bool} {labels : List Label} {s t : State}
    (h : follow pl ok labels s = some t) :
    Run (fun s l t => Step pl s l t ∧ ∀ i, l = .act i → ok i s = true) s labels t := by
  induction labels generalizing s with
  | nil =>
    cases h
    exact Run.nil _
  | cons l rest ih =>
    cases l with
    | append => contradiction
    | signal i =>
      rw [follow] at h
      split at h
      · rename_i hgo
        obtain ⟨halive, hi, hidle⟩ := hgo
        have hstep : Step pl s (.signal i) _ :=
          Step.signal i halive hi (Option.isNone_iff_eq_none.mp hidle)
        exact ((Run.nil s).snoc ⟨hstep, fun j hj => by cases hj⟩).append (ih h)
      · contradiction
    | act i =>
      rw [follow] at h
      split at h
      · rename_i hgo
        obtain ⟨u, hu, hrest⟩ := Option.bind_eq_some_iff.mp h
        refine ((Run.nil s).snoc ⟨Step.act i hgo.1 hu, fun j hj => ?_⟩).append (ih hrest)
        cases hj
        exact hgo.2
      · contradiction

/-- The activations keep to their own rings. perf_mmap_read is called for the ring
and the previous head of the descriptor. The bytes its record loop works on are
copies from this ring, with those behind the previous head in front, and nobody
writes to them while a record is decoded. Afterwards `*prev_head` and `data_tail`
are the head that was read from the ring. -/
structure OwnRings (ses : Session) (s : State) : Prop where
  called : ∀ i a, s.activations i = some a → Pc.bound a.frame.pc = true →
    a.frame.fd = ses.fd i ∧ a.frame.ourMmap = ses.ring i
  previous : ∀ i a, s.activations i = some a → a.frame.pc = .readHead →
    a.frame.prevHead = s.world.heads ses.block i
  source : ∀ i a, s.activations i = some a → a.frame.pc = .recordLoop →
    ∀ k, 0 ≤ k → k < bytesize pl → s.source k = some (ses.ring i)
  decoded : ∀ i a r, s.activations i = some a → a.frame.pc = .recordLoop →
    s.world.rings (ses.ring i) = some r →
    ∀ k : ℕ, k < windowSize a.frame.head a.frame.prevHead →
      s.world.data k = r.mapping.ring ((a.frame.prevHead + k) % bytesize pl)
  untorn : ∀ i a loop since, s.activations i = some a → a.point = .record loop since →
    since = s.writes
  stored : ∀ i < ses.cpus, (∀ a, s.activations i = some a → pending a.frame.pc = false) →
    ∃ r, s.world.rings (ses.ring i) = some r ∧
      s.world.heads ses.block i = s.headRead (ses.ring i) ∧
      r.mapping.dataTail = s.headRead (ses.ring i)

end PapiSample.Overlap
