import PapiSample.SessionLedger

/-!
A session releases what it has acquired. The two lengths differ, but both are rounded
up to nine pages, for every page size; the loops of PAPI_sample_stop, one over the
processors and one over the registry, run as often as that of PAPI_sample_init.
-/
namespace PapiSample.Releases

open Bytes Process EventSetup SampleInit OpenedEvents InitChecks Handler Registry Sessions Teardown
  Transition Ledger SessionLedger

variable {pl : Platform} {a : Answers} {args : Args} {ses : Session} {w : World}

/-- mmap fails for a length that is not positive: as a size_t it is zero, or exceeds
the address space. -/
def MmapRefuses (pl : Platform) (a : Answers) : Prop :=
  mapLength pl ≤ 0 → ∀ i < pl.cpus, a.mmap i = false

/-- A product that fits its int. -/
theorem mapLength_eq (hlength : 0 < mapLength pl) : mapLength pl = 9 * pl.pageSize := by
  have hpos := pl.pageSize_pos
  have hsmall := pl.buffer_small
  have hproduct : (1 + MMAP_DATA_SIZE) * pl.pageSize = 9 * pl.pageSize := by
    unfold MMAP_DATA_SIZE
    omega
  unfold mapLength at hlength ⊢
  rw [hproduct] at hlength ⊢
  rcases lt_or_ge (9 * pl.pageSize) (2 ^ 31) with hfits | hover
  · exact wrap_eq 32 _ (by omega) (by omega)
  · have hwrapped : wrap 32 (9 * pl.pageSize) = 9 * pl.pageSize - 2 ^ 32 := by
      have hturn := Int.sub_mul_bmod_self_left (9 * pl.pageSize) (2 ^ 32) 1
      have hfits := wrap_eq 32 (9 * pl.pageSize - 2 ^ 32) (by omega) (by omega)
      rw [Int.mul_one] at hturn
      exact hturn.symm.trans hfits
    omega

theorem unmapLength_eq (pl : Platform) : unmapLength pl = 1 + 8 * pl.pageSize := by
  have hpos := pl.pageSize_pos
  have hsmall := pl.buffer_small
  unfold unmapLength MMAP_DATA_SIZE
  exact wrap_eq 32 _ (by omega) (by omega)

/-- Nine pages, and one byte more than eight. -/
theorem pageCount_eq (hlength : 0 < mapLength pl) :
    pageCount pl (mapLength pl) = 9 ∧ pageCount pl (unmapLength pl) = 9 := by
  have hpos := pl.pageSize_pos
  have hsmall := pl.buffer_small
  have hround : ∀ n : ℤ, 8 * pl.pageSize < n → n ≤ 9 * pl.pageSize → pageCount pl n = 9 := by
    intro n hlow hhigh
    unfold pageCount
    have hmod : n % 2 ^ 64 = n := Int.emod_eq_of_lt (by omega) (by omega)
    have hquotient : (n + pl.pageSize - 1) / pl.pageSize = 9 := by
      apply le_antisymm
      · have := Int.ediv_lt_of_lt_mul hpos (by omega : n + pl.pageSize - 1 < 10 * pl.pageSize)
        omega
      · exact (Int.le_ediv_iff_mul_le hpos).mpr (by omega)
    rw [hmod, hquotient]
    rfl
  constructor
  · rw [mapLength_eq hlength]
    exact hround _ (by omega) le_rfl
  · rw [unmapLength_eq]
    exact hround _ (by omega) (by omega)

/-- The two calls agree on the pages of a mapping. -/
theorem pages_eq (hlength : 0 < mapLength pl) (ring : ℕ) :
    pages pl (unmapLength pl) ring = pages pl (mapLength pl) ring := by
  obtain ⟨hmap, hunmap⟩ := pageCount_eq hlength
  rw [pages, pages, hmap, hunmap]

def takenBy (pl : Platform) (ses : Session) : StopStep → List Resource
  | .refresh _ | .disable _ => []
  | .close i => [.descriptor (ses.fd i)]
  | .unmap i => pages pl (unmapLength pl) (ses.ring i)
  | .closeLog => [.log]
  | .freeFds => [.fds ses.block]
  | .freeHeads => [.heads ses.block]
  | .freeData => [.data]

theorem stopMoves_eq (pl : Platform) (hreg : Registered ses w) {s : StopStep}
    (hs : s ∈ stopSteps ses.cpus ses.cpus) :
    stopMoves pl w s = (takenBy pl ses s).map .release := by
  have hblock := hreg.block
  have hs := mem_stopSteps.mp hs
  cases s with
  | close i =>
    rw [stopMoves, hreg.currentFd hs]
    rfl
  | unmap i =>
    rw [stopMoves, hreg.mmaps i hs]
    rfl
  | freeFds =>
    rw [stopMoves, hblock]
    rfl
  | freeHeads =>
    rw [stopMoves, hblock]
    rfl
  | _ => rfl

/-- The statements release what they take, and acquire nothing. -/
theorem stop_ledger (pl : Platform) (hreg : Registered ses w) (done : List StopStep)
    (hdone : ∀ s ∈ done, s ∈ stopSteps ses.cpus ses.cpus) :
    acquired (done.flatMap (stopMoves pl w)) = [] ∧
      released (done.flatMap (stopMoves pl w)) = done.flatMap (takenBy pl ses) := by
  induction done with
  | nil => exact ⟨rfl, rfl⟩
  | cons s rest ih =>
    obtain ⟨hacquired, hreleased⟩ := ih fun x hx => hdone x (List.mem_cons_of_mem s hx)
    have hmoves := stopMoves_eq pl hreg (hdone s List.mem_cons_self)
    rw [List.flatMap_cons, List.flatMap_cons, hmoves]
    constructor
    · rw [acquired_append, acquired_map_release, hacquired]
      rfl
    · rw [released_append, released_map_release, hreleased]

/-- The two loops of PAPI_sample_stop, and the statements behind them. -/
theorem stopSteps_taken (n : ℕ) :
    (stopSteps n n).flatMap (takenBy pl ses) =
      (List.range n).map (fun i => .descriptor (ses.fd i)) ++
        ((List.range n).flatMap (fun i => pages pl (unmapLength pl) (ses.ring i)) ++
          [.log, .fds ses.block, .heads ses.block, .data]) := by
  have harm : ((List.range n).flatMap fun i => [StopStep.refresh i, .disable i]).flatMap
      (takenBy pl ses) = [] := by
    rw [List.flatMap_assoc]
    exact List.flatMap_eq_nil_iff.mpr fun i _ => rfl
  have hclose : ((List.range n).map StopStep.close).flatMap (takenBy pl ses) =
      (List.range n).map fun i => .descriptor (ses.fd i) := by
    rw [List.flatMap_map]
    exact List.map_eq_flatMap.symm
  have hunmap : ((List.range n).map StopStep.unmap).flatMap (takenBy pl ses) =
      (List.range n).flatMap fun i => pages pl (unmapLength pl) (ses.ring i) := by
    rw [List.flatMap_map]
    rfl
  rw [stopSteps, List.flatMap_append, List.flatMap_append, List.flatMap_append, harm, hclose,
    hunmap]
  rfl

/-- Every resource of a session is acquired once. -/
theorem resources_nodup {n firstRing : ℕ} (block : ℕ) (hdistinct : Distinct a n) :
    (sharedResources block ++ (List.range n).flatMap (cpuResources pl a firstRing)).Nodup := by
  have hpages : ∀ ring, (pages pl (mapLength pl) ring).Nodup := fun ring =>
    List.nodup_range.map fun i j h => by simpa using h
  have hpage : ∀ ring r, r ∈ pages pl (mapLength pl) ring → ∃ k, r = .page ring k := by
    intro ring r hr
    obtain ⟨k, _, rfl⟩ := List.mem_map.mp hr
    exact ⟨k, rfl⟩
  refine List.Nodup.append (by simp [sharedResources]) (List.nodup_flatMap.mpr ⟨?_, ?_⟩) ?_
  · intro i _
    refine List.nodup_cons.mpr ⟨fun hmem => ?_, hpages _⟩
    obtain ⟨k, hk⟩ := hpage _ _ hmem
    contradiction
  · refine List.nodup_range.imp_of_mem fun {i j} hi hj hne => ?_
    have hfd : descriptor a i ≠ descriptor a j := fun heq =>
      hne (hdistinct i j (List.mem_range.mp hi) (List.mem_range.mp hj) heq)
    intro r hri hrj
    rcases List.mem_cons.mp hri with rfl | hri
    · rcases List.mem_cons.mp hrj with heq | hrj
      · exact hfd (by simpa using heq)
      · obtain ⟨k, hk⟩ := hpage _ _ hrj
        contradiction
    · obtain ⟨k, rfl⟩ := hpage _ _ hri
      rcases List.mem_cons.mp hrj with heq | hrj
      · contradiction
      · obtain ⟨k', hk'⟩ := hpage _ _ hrj
        simp at hk'
        omega
  · intro r hshared hcpu
    obtain ⟨i, _, hmem⟩ := List.mem_flatMap.mp hcpu
    rcases List.mem_cons.mp hmem with rfl | hmem
    · simp [sharedResources] at hshared
    · obtain ⟨k, rfl⟩ := hpage _ _ hmem
      simp [sharedResources] at hshared

/-- The releases of a session are what PAPI_sample_init acquired, in another order. -/
theorem releases_perm (ses : Session) (hlength : 0 < mapLength pl) (n : ℕ)
    (hfd : ses.fd = descriptor a) : (.truncated :: (stopSteps n n).flatMap (takenBy pl ses)).Perm
      (sharedResources ses.block ++
        (List.range n).flatMap (cpuResources pl a ses.firstRing)) := by
  have hcpus := List.map_append_flatMap_perm (List.range n)
    (fun i => Resource.descriptor (descriptor a i))
    (fun i => pages pl (mapLength pl) (ses.firstRing + i))
  have hpages : (fun i => pages pl (unmapLength pl) (ses.ring i)) =
      fun i => pages pl (mapLength pl) (ses.firstRing + i) :=
    funext fun i => pages_eq hlength _
  rw [stopSteps_taken, hpages, hfd, ← List.append_assoc]
  refine List.perm_iff_count.mpr fun r => ?_
  have hcount := hcpus.count_eq r
  have hsame : List.count r ((List.range n).flatMap (cpuResources pl a ses.firstRing)) =
      List.count r ((List.range n).flatMap fun i =>
        .descriptor (descriptor a i) :: pages pl (mapLength pl) (ses.firstRing + i)) := rfl
  simp only [sharedResources, List.count_append, List.count_cons, List.count_nil, hsame] at hcount ⊢
  omega

theorem length_pos {w' : World} {block : ℕ} (hrefuses : MmapRefuses pl a)
    (hinit : papiSampleInit pl a args w = .fds block w') : 0 < mapLength pl := by
  have hpasses := (papiSampleInit_returns pl a args w).mp ⟨block, w', hinit⟩
  by_contra hlength
  have hfails := hrefuses (by omega) 0 hpasses.cpus
  rw [(hpasses.each 0 hpasses.cpus).maps] at hfails
  contradiction

/-- The ledger of a first session, as far as PAPI_sample_stop has got. -/
theorem session_entered {w' : World} {block : ℕ} {labels : List Label} {b : Booked}
    (hdistinct : Distinct a pl.cpus)
    (hinit : papiSampleInit pl a args World.initial = .fds block w')
    (hrun : Run (Books pl)
      ⟨State.sampling pl (papiSampleStart pl block w'), initMoves pl a args World.initial⟩
      labels b) :
    acquired b.moves = sharedResources 1 ++
        (List.range pl.cpus).flatMap (cpuResources pl a 0) ∧
      ∃ done, done ++ b.state.main = stopSteps pl.cpus pl.cpus ∧
        released b.moves = .truncated ::
          done.flatMap (takenBy pl (sessionOf pl a World.initial hdistinct)) := by
  have hreg := ((init_started hdistinct (fun _ _ => rfl) hinit).start pl block).registered
  have hnum : (papiSampleStart pl block w').numMaps = pl.cpus := by
    have hsame := congrArg Process.Registry.numMaps (papiSampleStart_registry pl block w')
    exact hsame.trans ((init_numMaps hdistinct hinit).trans (Nat.zero_add _))
  obtain ⟨done, hsteps, hmoves⟩ := (Entered.run hrun).entries
  rw [hnum] at hsteps
  obtain ⟨hacquired, hreleased⟩ := initMoves_eq hinit
  obtain ⟨hnothing, htaken⟩ := stop_ledger pl hreg done fun s hs =>
    hsteps ▸ List.mem_append_left _ hs
  refine ⟨?_, done, hsteps, ?_⟩
  · rw [hmoves, acquired_append, hacquired, hnothing, List.append_nil]
    rfl
  · rw [hmoves, released_append, hreleased, htaken]
    rfl

/-- At any time of a session, what a statement of PAPI_sample_stop takes is still there
as long as it has not been released. -/
theorem held_iff_unreleased {w' : World} {block : ℕ} {labels : List Label} {b : Booked}
    (hdistinct : Distinct a pl.cpus) (hrefuses : MmapRefuses pl a)
    (hinit : papiSampleInit pl a args World.initial = .fds block w')
    (hrun : Run (Books pl)
      ⟨State.sampling pl (papiSampleStart pl block w'), initMoves pl a args World.initial⟩ labels b)
    {s : StopStep} (hs : Takes pl.cpus s) {r : Resource}
    (hr : r ∈ takenBy pl (sessionOf pl a World.initial hdistinct) s) :
    Held (sessionOf pl a World.initial hdistinct) b.state.world s ↔ r ∉ released b.moves := by
  have hstarted := (init_started hdistinct (fun _ _ => rfl) hinit).start pl block
  have hheld := ((unwound_sampling hstarted rfl).run rfl (run_of_books hrun)).held s hs
  obtain ⟨_, done, hsteps, hreleased⟩ := session_entered hdistinct hinit hrun
  have hperm := releases_perm (sessionOf pl a World.initial hdistinct)
    (length_pos hrefuses hinit) pl.cpus rfl
  have hnodup := hperm.nodup_iff.mpr (resources_nodup _ hdistinct)
  rw [← hsteps, List.flatMap_append] at hnodup
  obtain ⟨htruncated, hall⟩ := List.nodup_cons.mp hnodup
  have hdisjoint := List.disjoint_of_nodup_append hall
  rw [hheld, hreleased]
  constructor
  · intro hmain hmem
    have hlater := List.mem_flatMap.mpr ⟨s, hmain, hr⟩
    rcases List.mem_cons.mp hmem with rfl | hearlier
    · exact htruncated (List.mem_append_right _ hlater)
    · exact hdisjoint hearlier hlater
  · intro hmem
    have hstop : s ∈ stopSteps pl.cpus pl.cpus := by
      apply mem_stopSteps.mpr
      cases s with
      | refresh i => exact hs.elim
      | disable i | close i | unmap i => exact hs
      | _ => trivial
    rw [← hsteps] at hstop
    rcases List.mem_append.mp hstop with hdone | hmain
    · exact absurd (List.mem_cons_of_mem _ (List.mem_flatMap.mpr ⟨s, hdone, hr⟩)) hmem
    · exact hmain

/-- After PAPI_sample_stop the ledger is settled. -/
theorem session_settled {w' : World} {block : ℕ} {labels : List Label} {b : Booked}
    (hdistinct : Distinct a pl.cpus) (hrefuses : MmapRefuses pl a)
    (hinit : papiSampleInit pl a args World.initial = .fds block w')
    (hrun : Run (Books pl)
      ⟨State.sampling pl (papiSampleStart pl block w'), initMoves pl a args World.initial⟩ labels b)
    (hdone : b.state.main = []) : Settled b.moves := by
  obtain ⟨hacquired, done, hsteps, hreleased⟩ := session_entered hdistinct hinit hrun
  rw [hdone, List.append_nil] at hsteps
  have hperm := releases_perm (sessionOf pl a World.initial hdistinct)
    (length_pos hrefuses hinit) pl.cpus rfl
  constructor
  · rw [hacquired]
    exact resources_nodup 1 hdistinct
  · rw [hacquired, hreleased, hsteps]
    exact hperm

structure ReleasesAll (block : ℕ) (moves : List (Move Resource)) : Prop where
  descriptors : ∀ fd, .descriptor fd ∈ acquired moves → (released moves).count (.descriptor fd) = 1
  pages : {p : ℕ × ℕ | .page p.1 p.2 ∈ released moves} =
    {p : ℕ × ℕ | .page p.1 p.2 ∈ acquired moves}
  log : (released moves).count .log = 1
  fds : (released moves).count (.fds block) = 1
  heads : (released moves).count (.heads block) = 1
  data : (released moves).count .data = 1

/-- After the first session of a process every descriptor is closed once, the pages
that were mapped are unmapped and no others, and the log and the blocks are released
once, whichever first attempts failed and whenever signals came. -/
theorem session_releases (pl : Platform) (a : Answers) (args : Args) (w' : World) (block : ℕ)
    (labels : List Label) (b : Booked) (honce : HandedOutOnce a pl.cpus)
    (hrefuses : MmapRefuses pl a)
    (hinit : papiSampleInit pl a args World.initial = .fds block w')
    (hrun : Run (Books pl)
      ⟨State.sampling pl (papiSampleStart pl block w'), initMoves pl a args World.initial⟩ labels b)
    (hdone : b.state.main = []) : ReleasesAll block b.moves := by
  have hdistinct := honce.distinct hinit
  have hsettled := session_settled hdistinct hrefuses hinit hrun hdone
  have hacquired := (session_entered hdistinct hinit hrun).1
  have hblock : block = 1 := by
    obtain ⟨_, hsame, _⟩ := papiSampleInit_opens hdistinct hinit
    exact hsame.trans (init_started hdistinct (fun _ _ => rfl) hinit).registered.block
  have hshared : ∀ r ∈ sharedResources block, (released b.moves).count r = 1 := fun r hr =>
    hsettled.count_released (hacquired ▸ List.mem_append_left _ (hblock ▸ hr))
  exact {
    descriptors := fun fd hfd => hsettled.count_released hfd
    pages := Set.ext fun p => hsettled.mem_released
    log := hshared _ (by simp [sharedResources])
    fds := hshared _ (by simp [sharedResources])
    heads := hshared _ (by simp [sharedResources])
    data := hshared _ (by simp [sharedResources]) }

/-- A session on two processors, of which the second refuses the branches. -/
theorem session_releases_retry :
    ∃ w' labels b, papiSampleInit twoCpus (kernelAnswers true) branchArgs World.initial =
        .fds 1 w' ∧
      Run (Books twoCpus) ⟨State.sampling twoCpus (papiSampleStart twoCpus 1 w'),
        initMoves twoCpus (kernelAnswers true) branchArgs World.initial⟩ labels b ∧
      b.state.main = [] ∧ ReleasesAll 1 b.moves := by
  have hinit : ∃ w', papiSampleInit twoCpus (kernelAnswers true) branchArgs World.initial =
      .fds 1 w' := ⟨_, rfl⟩
  obtain ⟨w', hinit⟩ := hinit
  have hfd : ∀ i, descriptor (kernelAnswers true) i = 3 + i := by
    intro i
    by_cases hi : i = 1
    · simp [descriptor, kernelAnswers, hi]
    · simp [descriptor, kernelAnswers, hi]
  have honce : HandedOutOnce (kernelAnswers true) 2 := by
    intro i j _ _ _ heq
    rw [hfd, hfd] at heq
    omega
  have hlength : mapLength twoCpus = 36864 := by decide
  have hstop := stop_run twoCpus (stopSteps 2 (papiSampleStart twoCpus 1 w').numMaps) []
    (papiSampleStart twoCpus 1 w')
  rw [List.append_nil] at hstop
  obtain ⟨moves, hbooks⟩ := books_of_run hstop
    (initMoves twoCpus (kernelAnswers true) branchArgs World.initial)
  exact ⟨w', _, _, hinit, hbooks, rfl, session_releases twoCpus (kernelAnswers true) branchArgs w' 1
    _ _ honce (fun h => absurd h (by omega)) hinit hbooks rfl⟩

end PapiSample.Releases
