import PapiSample.Process

/-!
How the attributes of an event are made from its name: new_setup_perf, which asks
libpfm for the encoding, and capital_latency_event, which has a table of its own
for the events libpfm does not know.
-/
namespace PapiSample.EventSetup

open PerfEvent ParseRecord Process

/-- replace_char, for two different characters. -/
def replaceChar (str : List Char) (find replace : Char) : List Char :=
  str.map fun c => if c = find then replace else c

/-- The loop of capital_latency_event: upper case up to the first dot. -/
def upperToDot : List Char → List Char × Bool
  | [] => ([], false)
  | c :: rest =>
    if c.toUpper = '.' then (c :: rest, true)
    else (c.toUpper :: (upperToDot rest).1, (upperToDot rest).2)

def capitalName (eventCode : List Char) : List Char :=
  if (upperToDot eventCode).2 then replaceChar (upperToDot eventCode).1 '.' ':'
  else (upperToDot eventCode).1

def strcasestr (str substr : List Char) : Bool :=
  str.tails.any fun t => (substr.map Char.toLower).isPrefixOf (t.map Char.toLower)

def latencyEvents : List (String × BitVec 64) :=
  [("FRONTEND_RETIRED:LATENCY_GE_2", 0x400206), ("FRONTEND_RETIRED:LATENCY_GE_4", 0x400406),
    ("FRONTEND_RETIRED:LATENCY_GE_8", 0x400806), ("FRONTEND_RETIRED:LATENCY_GE_16", 0x401006),
    ("FRONTEND_RETIRED:LATENCY_GE_32", 0x402006), ("FRONTEND_RETIRED:LATENCY_GE_64", 0x404006),
    ("FRONTEND_RETIRED:LATENCY_GE_128", 0x408006), ("FRONTEND_RETIRED:LATENCY_GE_256", 0x410006),
    ("FRONTEND_RETIRED:LATENCY_GE_512", 0x420006),
    ("FRONTEND_RETIRED:LATENCY_GE_2_BUBBLES_GE_1", 0x100206),
    ("FRONTEND_RETIRED:LATENCY_GE_2_BUBBLES_GE_2", 0x200206),
    ("FRONTEND_RETIRED:LATENCY_GE_2_BUBBLES_GE_3", 0x300206)]

def PERF_TYPE_RAW : BitVec 32 := 4
def PERF_SAMPLE_BRANCH_ANY : BitVec 64 := 1#64 <<< 3

/-- What the setup of an event needs to know: the size of `perf_event_attr`, and
pfm_get_os_event_encoding, which fills in attributes or fails. -/
structure Library where
  attrSize : BitVec 32
  encoding : List Char → Attr → Option Attr

structure Handles where
  sampleType : BitVec 32
  readFormat : BitVec 32

def leaderAttr (h : Handles) (samplePeriod : BitVec 32) (attr : Attr) : Attr :=
  { attr with
    samplePeriod := samplePeriod.signExtend 64
    sampleType := h.sampleType.signExtend 64
    readFormat := h.readFormat.signExtend 64
    disabled := true
    wakeupEvents := 1
    pinned := true
    preciseIp := 0
    excludeKernel := true
    excludeHv := true }

def memberAttr (attr : Attr) : Attr :=
  { attr with
    pinned := true
    sampleType := SampleField.read.mask.signExtend 64
    readFormat := (PERF_FORMAT_GROUP ||| PERF_FORMAT_ID).signExtend 64
    disabled := false }

/-- capital_latency_event: the attributes, or the exit code of the process. -/
def capitalLatencyEvent (lib : Library) (h : Handles) (samplePeriod : BitVec 32)
    (eventCode : List Char) : Except ℤ Attr :=
  match latencyEvents.find? fun e => e.1.toList = capitalName eventCode with
  | none => .error 1
  | some e =>
    .ok { leaderAttr h samplePeriod Attr.zero with
      type := PERF_TYPE_RAW
      size := lib.attrSize
      config := 0x5101c6
      config1 := e.2 }

/-- The registers new_setup_perf asks for: all but DS, ES, FS and GS. -/
def regsIntrMask : Arch → BitVec 64
  | .x86_64 | .i386 => 0xff0fff
  | _ => 1

/-- What new_setup_perf returns, the event name as it leaves it, and `sample_regs`. -/
structure Setup where
  attr : Attr
  eventCode : List Char
  sampleRegs : BitVec 64

def newSetupPerf (lib : Library) (arch : Arch) (h : Handles) (sampleRegs : BitVec 64)
    (eventCode : List Char) (sampleType samplePeriod : BitVec 32) (firstEvent : Bool) :
    Except ℤ Setup :=
  let regsIntr := SampleField.regsIntr.isSet sampleType
  let attr := { Attr.zero with
    size := lib.attrSize
    sampleRegsIntr := if regsIntr then regsIntrMask arch else 0 }
  let sampleRegs := if regsIntr then regsIntrMask arch else sampleRegs
  match lib.encoding eventCode attr with
  | none =>
    if strcasestr eventCode "LATENCY".toList then
      (capitalLatencyEvent lib h samplePeriod eventCode).map fun attr =>
        { attr, eventCode := capitalName eventCode, sampleRegs }
    else .error 1
  | some attr =>
    let attr := if firstEvent then leaderAttr h samplePeriod attr else memberAttr attr
    let attr :=
      if SampleField.branchStack.isSet sampleType then
        { attr with branchSampleType := PERF_SAMPLE_BRANCH_ANY }
      else attr
    .ok { attr, eventCode, sampleRegs }

theorem map_ok {ε α β : Type} {x : Except ε α} {f : α → β} {b : β} (h : x.map f = .ok b) :
    ∃ v, x = .ok v ∧ f v = b := by
  cases x with
  | error e => contradiction
  | ok v => exact ⟨v, rfl, Except.ok.inj h⟩

/-- The attributes ask for what the decoder is told. -/
def Agrees (attr : Attr) (h : Handles) : Prop :=
  attr.sampleType = h.sampleType.signExtend 64 ∧ attr.readFormat = h.readFormat.signExtend 64

theorem capitalLatencyEvent_agrees {lib : Library} {h : Handles} {samplePeriod : BitVec 32}
    {eventCode : List Char} {attr : Attr}
    (hevent : capitalLatencyEvent lib h samplePeriod eventCode = .ok attr) : Agrees attr h := by
  unfold capitalLatencyEvent at hevent
  split at hevent
  · contradiction
  · cases hevent
    exact ⟨rfl, rfl⟩

/-- For the first event this holds whichever way the attributes are made. -/
theorem newSetupPerf_agrees {lib : Library} {arch : Arch} {h : Handles} {sampleRegs : BitVec 64}
    {eventCode : List Char} {sampleType samplePeriod : BitVec 32} {setup : Setup}
    (hsetup : newSetupPerf lib arch h sampleRegs eventCode sampleType samplePeriod true =
      .ok setup) : Agrees setup.attr h := by
  simp only [newSetupPerf] at hsetup
  split at hsetup
  · split at hsetup
    · obtain ⟨attr, hevent, rfl⟩ := map_ok hsetup
      exact capitalLatencyEvent_agrees hevent
    · contradiction
  · cases hsetup
    simp only [if_true]
    split <;> exact ⟨rfl, rfl⟩

end PapiSample.EventSetup
