import PapiSample.LatencyNames

/-!
The two ways new_setup_perf makes the attributes of an event. An event libpfm
knows gets its encoding into attributes that already ask for the registers, and
the branches are asked for at the end. An event of capital_latency_event comes
with attributes made from nothing, which are returned as they are.
-/
namespace PapiSample.LatencyAttributes

open PerfEvent ParseRecord Process EventSetup LatencyNames

/-- pfm_get_os_event_encoding selects the event of this name: it leaves alone what is not
part of the selection, except for the privilege levels to be excluded. The level of the
user, PFM_PLM3, is asked for. -/
def SelectsOnly (lib : Library) (name : List Char) : Prop :=
  ∀ attr attr', lib.encoding name attr = some attr' →
    attr' = { attr with
      type := attr'.type
      config := attr'.config
      config1 := attr'.config1
      config2 := attr'.config2
      excludeUser := false
      excludeKernel := attr'.excludeKernel
      excludeHv := attr'.excludeHv }

def SameSampling (a b : Attr) : Prop :=
  a = { b with type := a.type, config := a.config, config1 := a.config1, config2 := a.config2 }

/-- A set-up event asks for what its sample type promises. -/
structure ConfiguredAlike (sampleType : BitVec 32) (latency libpfm : Setup) : Prop where
  sampling : SameSampling latency.attr libpfm.attr
  registers : SampleField.regsIntr.isSet sampleType = true →
    latency.attr.sampleRegsIntr = latency.sampleRegs
  branches : SampleField.branchStack.isSet sampleType = true →
    latency.attr.branchSampleType = PERF_SAMPLE_BRANCH_ANY

section Paths
variable {lib : Library} {arch : Arch} {h : Handles} {sampleRegs : BitVec 64}
  {eventCode : List Char} {sampleType samplePeriod : BitVec 32} {setup : Setup}

def encodedAttr (lib : Library) (arch : Arch) (sampleType : BitVec 32) : Attr :=
  { Attr.zero with
    size := lib.attrSize
    sampleRegsIntr := if SampleField.regsIntr.isSet sampleType then regsIntrMask arch else 0 }

def leftRegs (arch : Arch) (sampleType : BitVec 32) (sampleRegs : BitVec 64) : BitVec 64 :=
  if SampleField.regsIntr.isSet sampleType then regsIntrMask arch else sampleRegs

/-- An event that libpfm rejects is left to capital_latency_event. -/
theorem newSetupPerf_rejected
    (hreject : lib.encoding eventCode (encodedAttr lib arch sampleType) = none) :
    newSetupPerf lib arch h sampleRegs eventCode sampleType samplePeriod true =
      if strcasestr eventCode "LATENCY".toList then
        (capitalLatencyEvent lib h samplePeriod eventCode).map fun attr =>
          ⟨attr, capitalName eventCode, leftRegs arch sampleType sampleRegs⟩
      else .error 1 := by
  unfold encodedAttr at hreject
  simp only [newSetupPerf, hreject]
  rfl

/-- What libpfm fills in is completed for a first event. -/
theorem newSetupPerf_encoded {attr : Attr}
    (hattr : lib.encoding eventCode (encodedAttr lib arch sampleType) = some attr) :
    newSetupPerf lib arch h sampleRegs eventCode sampleType samplePeriod true =
      .ok {
        attr := { leaderAttr h samplePeriod attr with
          branchSampleType :=
            if SampleField.branchStack.isSet sampleType then PERF_SAMPLE_BRANCH_ANY
            else attr.branchSampleType }
        eventCode
        sampleRegs := leftRegs arch sampleType sampleRegs } := by
  unfold encodedAttr at hattr
  simp only [newSetupPerf, hattr, if_true]
  cases SampleField.branchStack.isSet sampleType with
  | true => rfl
  | false => rfl

/-- An event that libpfm rejects has the attributes of a latency event. -/
theorem latency_setup
    (hreject : lib.encoding eventCode (encodedAttr lib arch sampleType) = none)
    (hsetup :
      newSetupPerf lib arch h sampleRegs eventCode sampleType samplePeriod true = .ok setup) :
    setup.sampleRegs = leftRegs arch sampleType sampleRegs ∧
      setup.attr = { leaderAttr h samplePeriod Attr.zero with
        type := setup.attr.type
        size := lib.attrSize
        config := setup.attr.config
        config1 := setup.attr.config1 } := by
  rw [newSetupPerf_rejected hreject] at hsetup
  split at hsetup
  · obtain ⟨attr, hevent, rfl⟩ := map_ok hsetup
    unfold capitalLatencyEvent at hevent
    split at hevent
    · contradiction
    · cases hevent
      exact ⟨rfl, rfl⟩
  · contradiction

/-- An event that libpfm accepts has those of a first event. -/
theorem libpfm_setup (hselects : SelectsOnly lib eventCode)
    (haccept : lib.encoding eventCode (encodedAttr lib arch sampleType) ≠ none)
    (hsetup :
      newSetupPerf lib arch h sampleRegs eventCode sampleType samplePeriod true = .ok setup) :
    setup.attr = { leaderAttr h samplePeriod (encodedAttr lib arch sampleType) with
      type := setup.attr.type
      config := setup.attr.config
      config1 := setup.attr.config1
      config2 := setup.attr.config2
      branchSampleType :=
        if SampleField.branchStack.isSet sampleType then PERF_SAMPLE_BRANCH_ANY else 0 } := by
  obtain ⟨attr, hattr⟩ := Option.ne_none_iff_exists'.mp haccept
  have hsame := hselects _ _ hattr
  rw [newSetupPerf_encoded hattr] at hsetup
  cases hsetup
  rw [hsame]
  rfl

end Paths

theorem regsIntrMask_ne_zero (arch : Arch) : regsIntrMask arch ≠ 0 := by
  cases arch <;> decide

/-- A latency event is set up like one libpfm knows exactly if neither registers
nor branches are asked for. -/
theorem configuredAlike_iff (lib lib' : Library) (hsize : lib.attrSize = lib'.attrSize)
    (eventCode : List Char) (hselects : SelectsOnly lib' eventCode) (arch : Arch) (h : Handles)
    (sampleRegs : BitVec 64) (sampleType samplePeriod : BitVec 32) (latency libpfm : Setup)
    (hreject : lib.encoding eventCode (encodedAttr lib arch sampleType) = none)
    (hlatency : newSetupPerf lib arch h sampleRegs eventCode sampleType samplePeriod true =
      .ok latency)
    (haccept : lib'.encoding eventCode (encodedAttr lib' arch sampleType) ≠ none)
    (hlibpfm : newSetupPerf lib' arch h sampleRegs eventCode sampleType samplePeriod true =
      .ok libpfm) :
    ConfiguredAlike sampleType latency libpfm ↔
      SampleField.regsIntr.isSet sampleType = false ∧
        SampleField.branchStack.isSet sampleType = false := by
  obtain ⟨hregs, hattr⟩ := latency_setup hreject hlatency
  have hattr' := libpfm_setup hselects haccept hlibpfm
  have hnoRegs : latency.attr.sampleRegsIntr = 0 := by rw [hattr]; rfl
  have hnoBranch : latency.attr.branchSampleType = 0 := by rw [hattr]; rfl
  constructor
  · intro halike
    constructor
    · cases hset : SampleField.regsIntr.isSet sampleType with
      | false => rfl
      | true =>
        have hmask := halike.registers hset
        rw [hnoRegs, hregs, leftRegs, if_pos hset] at hmask
        exact absurd hmask.symm (regsIntrMask_ne_zero arch)
    · cases hset : SampleField.branchStack.isSet sampleType with
      | false => rfl
      | true =>
        have hany := halike.branches hset
        rw [hnoBranch] at hany
        contradiction
  · rintro ⟨hnotRegs, hnotBranch⟩
    refine ⟨?_, fun hset => absurd hset (by simp [hnotRegs]),
      fun hset => absurd hset (by simp [hnotBranch])⟩
    unfold SameSampling
    rw [hattr', hattr]
    simp only [encodedAttr, leaderAttr, hnotRegs, hnotBranch, hsize]
    rfl

def rawLibrary : Library where
  attrSize := 120
  encoding := fun _ attr => some { attr with
    type := PERF_TYPE_RAW
    config := 0x5301c6
    excludeUser := false
    excludeKernel := true
    excludeHv := true }

theorem rawLibrary_selects (name : List Char) : SelectsOnly rawLibrary name := by
  intro attr attr' h
  cases h
  rfl

def latencyEvent : List Char := "FRONTEND_RETIRED:LATENCY_GE_128".toList

def latencySetup (sampleType : BitVec 32) : Setup where
  attr :=
    { leaderAttr ⟨sampleType, 0xf⟩ 1000 Attr.zero with
      type := PERF_TYPE_RAW
      size := 120
      config := 0x5101c6
      config1 := 0x408006 }
  eventCode := latencyEvent
  sampleRegs := leftRegs .x86_64 sampleType 0

theorem latencySetup_eq (sampleType : BitVec 32) :
    newSetupPerf ignorantLibrary .x86_64 ⟨sampleType, 0xf⟩ 0 latencyEvent sampleType 1000 true =
      .ok (latencySetup sampleType) := by
  have hlatency : strcasestr latencyEvent "LATENCY".toList = true := by decide +kernel
  have hevent : capitalLatencyEvent ignorantLibrary ⟨sampleType, 0xf⟩ 1000 latencyEvent =
      .ok (latencySetup sampleType).attr := by
    have hfind : latencyEvents.find? (fun e => e.1.toList = capitalName latencyEvent) =
        some ("FRONTEND_RETIRED:LATENCY_GE_128", 0x408006) := by decide +kernel
    rw [capitalLatencyEvent, hfind]
    rfl
  have hname : capitalName latencyEvent = latencyEvent := by decide +kernel
  rw [newSetupPerf_rejected rfl, if_pos hlatency, hevent, hname]
  rfl

/-- What the path of libpfm returns. -/
theorem rawSetup_ok (sampleType : BitVec 32) : ∃ setup,
    newSetupPerf rawLibrary .x86_64 ⟨sampleType, 0xf⟩ 0 latencyEvent sampleType 1000 true =
      .ok setup := ⟨_, rfl⟩

/-- Instruction addresses only. -/
theorem configuredAlike_addresses : ∃ libpfm,
    newSetupPerf rawLibrary .x86_64 ⟨1, 0xf⟩ 0 latencyEvent 1 1000 true = .ok libpfm ∧
      ConfiguredAlike 1 (latencySetup 1) libpfm := by
  obtain ⟨libpfm, hlibpfm⟩ := rawSetup_ok 1
  exact ⟨libpfm, hlibpfm, (configuredAlike_iff ignorantLibrary rawLibrary rfl latencyEvent
    (rawLibrary_selects latencyEvent) .x86_64 ⟨1, 0xf⟩ 0 1 1000 (latencySetup 1) libpfm rfl
    (latencySetup_eq 1) (by simp [rawLibrary]) hlibpfm).mpr ⟨by decide, by decide⟩⟩

/-- With the sample type of test_events.c a latency event is opened without the
registers the decoder is told to expect. -/
theorem registers_missing : ∃ libpfm,
    newSetupPerf ignorantLibrary .x86_64 ⟨0x487ff, 0xf⟩ 0 latencyEvent 0x487ff 1000 true =
        .ok (latencySetup 0x487ff) ∧
      newSetupPerf rawLibrary .x86_64 ⟨0x487ff, 0xf⟩ 0 latencyEvent 0x487ff 1000 true = .ok libpfm ∧
      ¬ ConfiguredAlike 0x487ff (latencySetup 0x487ff) libpfm := by
  obtain ⟨libpfm, hlibpfm⟩ := rawSetup_ok 0x487ff
  refine ⟨libpfm, latencySetup_eq _, hlibpfm, fun halike => ?_⟩
  have hmask := halike.registers (by decide)
  contradiction

end PapiSample.LatencyAttributes
