import PapiSample.ProcessorDetection

/-!
The calls that answer from the cached processor: detect_processor and detect_vendor,
copy_events, and the events for load and store latencies. Between two calls
/proc/cpuinfo may change. The answers of any run of calls come in three parts: before
the file can be read, after a scan that names no vendor, and after the first scan that
names one; from then on all calls answer for the processor of that scan.
-/
namespace PapiSample.HelperAnswers

open ProcessorDetection

def MAX_TEST_EVENTS : ℕ := 16

def core2Events : List (BitVec 32) :=
  [0x53003c, 0x5300c0, 0x5300c4, 0x5300c5, 0x531282, 0x530108, 0x530080, 0x530081, 0x530143,
    0x530f45, 0x5300c8, 0x530010, 0x5301c0, 0x5302c0, 0x537f2e, 0x537024]

def atomEvents : List (BitVec 32) :=
  [0x53003c, 0x5300c0, 0x5300c4, 0x5300c5, 0x530282, 0x530708, 0x530380, 0x530280, 0x532140,
    0x537f2e, 0x5301c8, 0x531fc7, 0x537f29, 0x534f2a, 0x537f29, 0x537024]

def amd10hEvents : List (BitVec 32) :=
  [0x530076, 0x5300c0, 0x5300c2, 0x5300c3, 0x530385, 0x530746, 0x530080, 0x530081, 0x530040,
    0x530041, 0x5300cf, 0x530300, 0x5300d0, 0x5300d1, 0x533f7d, 0x53037e]

def nehalemEvents : List (BitVec 32) :=
  [0x53003c, 0x5300c0, 0x537f88, 0x537f89, 0x530185, 0x530149, 0x530380, 0x530280, 0x530143,
    0x530151, 0x53011d, 0x530410, 0x53010b, 0x53020b, 0x53ff24, 0x53c024]

def ivybridgeEvents : List (BitVec 32) :=
  [0x53003c, 0x5300c0, 0x5304c4, 0x5304c5, 0x530185, 0x538108, 0x531024, 0x530280, 0x532024,
    0x530151, 0x5301cb, 0x531eca, 0x5381d0, 0x5382d0, 0x533024, 0x534f2e]

def haswellEvents : List (BitVec 32) :=
  [0x53003c, 0x5300c0, 0x5300c4, 0x5300c5, 0x530185, 0x538108, 0x534424, 0x530280, 0x532424,
    0x530151, 0x5301cb, 0x531eca, 0x5381d0, 0x5382d0, 0x53e424, 0x534f2e]

def broadwellEvents : List (BitVec 32) :=
  [0x53003c, 0x5300c0, 0x5300c4, 0x5300c5, 0x530185, 0x538108, 0x534424, 0x530280, 0x532424,
    0x530151, 0x5301cb, 0x531eca, 0x5381d0, 0x5382d0, 0x53e424, 0x534f2e]

def skylakeEvents : List (BitVec 32) :=
  [0x53003c, 0x5300c0, 0x5300c4, 0x5300c5, 0x530185, 0x538108, 0x534424, 0x530280, 0x532424,
    0x530151, 0x5301cb, 0x531eca, 0x5381d0, 0x5382d0, 0x53e424, 0x534f2e]

def power6Events : List (BitVec 32) :=
  [0x10000a, 0x2, 0x430e6, 0x400052, 0x2000fe, 0x2000fe, 0x80086, 0x100056, 0x80082, 0x80080,
    0x2000f8, 0x1c0032, 0x80082, 0x80086, 0x80082, 0x2000fe]

def cortexA9Events : List (BitVec 32) :=
  [0xff, 0x68, 0xc, 0x10, 0x2, 0x5, 0x70, 0x1, 0x4, 0x3, 0x93, 0x73, 0x6, 0x7, 0x4, 0x3]

def eventTables : List (List Processor × List (BitVec 32)) :=
  [([.atom], atomEvents), ([.core2], core2Events), ([.nehalem], nehalemEvents),
    ([.ivybridge], ivybridgeEvents), ([.haswell, .haswellEp], haswellEvents),
    ([.broadwell], broadwellEvents), ([.skylake, .kabylake], skylakeEvents),
    ([.k7, .k8, .amdFam10h, .amdFam11h, .amdFam12h, .amdFam13h, .amdFam14h, .amdFam15h,
      .amdFam16h, .amdFam17h], amd10hEvents),
    ([.power6], power6Events), ([.cortexA8], cortexA9Events)]

example : ∀ row ∈ eventTables, row.2.length = MAX_TEST_EVENTS := by decide

structure LatencyEvent where
  config : BitVec 64
  config1 : BitVec 64
  preciseIp : ℤ
  name : String

def unknownLatency : LatencyEvent := ⟨0x0, 0x0, 0, "UNKNOWN"⟩

def loadEvents : List (List Processor × LatencyEvent) :=
  [([.nehalem, .nehalemEx], ⟨0x100b, 0x3, 2, "MEM_INST_RETIRED:LATENCY_ABOVE_THRESHOLD"⟩),
    ([.westmere, .westmereEx], ⟨0x100b, 0x3, 2, "MEM_INST_RETIRED:LATENCY_ABOVE_THRESHOLD"⟩),
    ([.sandybridge, .sandybridgeEp], ⟨0x1cd, 0x3, 2, "MEM_TRANS_RETIRED:LATENCY_ABOVE_THRESHOLD"⟩),
    ([.ivybridge, .ivybridgeEp], ⟨0x1cd, 0x3, 2, "MEM_TRANS_RETIRED:LATENCY_ABOVE_THRESHOLD"⟩),
    ([.haswell, .haswellEp], ⟨0x1cd, 0x3, 2, "MEM_TRANS_RETIRED:LATENCY_ABOVE_THRESHOLD"⟩),
    ([.broadwell], ⟨0x1cd, 0x3, 2, "MEM_TRANS_RETIRED:LATENCY_ABOVE_THRESHOLD"⟩)]

def storeEvents : List (List Processor × LatencyEvent) :=
  [([.sandybridge, .sandybridgeEp], ⟨0x2cd, 0x0, 2, "MEM_TRANS_RETIRED:LATENCY_ABOVE_THRESHOLD"⟩),
    ([.ivybridge, .ivybridgeEp], ⟨0x2cd, 0x0, 2, "MEM_TRANS_RETIRED:LATENCY_ABOVE_THRESHOLD"⟩),
    ([.haswell, .haswellEp], ⟨0x2cd, 0x0, 2, "MEM_TRANS_RETIRED:LATENCY_ABOVE_THRESHOLD"⟩),
    ([.broadwell], ⟨0x2cd, 0x0, 2, "MEM_TRANS_RETIRED:LATENCY_ABOVE_THRESHOLD"⟩)]

/-- `switch(processor)` without its default. -/
def switchOn {α : Type} (rows : List (List Processor × α)) (processor : ℤ) : Option α :=
  (rows.find? fun row => row.1.any fun p => p.code == processor).map Prod.snd

inductive Answer
  | code (value : ℤ)
  | events (processorNotfound : ℤ) (eventset : List (BitVec 32))
  | latency (processorNotfound : ℤ) (event : LatencyEvent)

inductive Call
  | detectProcessor
  | detectVendor
  | copyEvents (eventset : List (BitVec 32))
  | getLatencyLoadEvent
  | getLatencyStoreEvent
  deriving DecidableEq

def copied (processor : ℤ) (eventset : List (BitVec 32)) : Answer :=
  match switchOn eventTables processor with
  | some events => .events 0 (events.take MAX_TEST_EVENTS ++ eventset.drop MAX_TEST_EVENTS)
  | none => .events 1 eventset

def latencyEvent (rows : List (List Processor × LatencyEvent)) (processor : ℤ) : Answer :=
  match switchOn rows processor with
  | some event => .latency 0 event
  | none => .latency (-1) unknownLatency

def copyEvents (cpuinfo : Option (List Char)) (c : Caches) (eventset : List (BitVec 32)) :
    Caches × Answer :=
  let (c, processor) := detectProcessor cpuinfo c
  (c, copied processor eventset)

def getLatencyLoadEvent (cpuinfo : Option (List Char)) (c : Caches) : Caches × Answer :=
  let (c, processor) := detectProcessor cpuinfo c
  (c, latencyEvent loadEvents processor)

def getLatencyStoreEvent (cpuinfo : Option (List Char)) (c : Caches) : Caches × Answer :=
  let (c, processor) := detectProcessor cpuinfo c
  (c, latencyEvent storeEvents processor)

def call (cpuinfo : Option (List Char)) (c : Caches) : Call → Caches × Answer
  | .detectProcessor => ((detectProcessor cpuinfo c).1, .code (detectProcessor cpuinfo c).2)
  | .detectVendor => ((detectVendor cpuinfo c).1, .code (detectVendor cpuinfo c).2)
  | .copyEvents eventset => copyEvents cpuinfo c eventset
  | .getLatencyLoadEvent => getLatencyLoadEvent cpuinfo c
  | .getLatencyStoreEvent => getLatencyStoreEvent cpuinfo c

abbrev Dated := Call × Option (List Char)

def runCalls (c : Caches) : List Dated → List Answer
  | [] => []
  | (q, cpuinfo) :: rest => (call cpuinfo c q).2 :: runCalls (call cpuinfo c q).1 rest

/-- The answer for what is cached, without a look at the file. -/
def answerFor (c : Caches) : Call → Answer
  | .detectProcessor => .code c.processor
  | .detectVendor => .code c.vendor
  | .copyEvents eventset => copied c.processor eventset
  | .getLatencyLoadEvent => latencyEvent loadEvents c.processor
  | .getLatencyStoreEvent => latencyEvent storeEvents c.processor

def Caches.unnamed : Caches := ⟨Processor.unknown.code, -2⟩

theorem call_answer (cpuinfo : Option (List Char)) (c : Caches) (q : Call) :
    (call cpuinfo c q).2 = answerFor (call cpuinfo c q).1 q := by
  cases q <;> rfl

def Settled (c : Caches) : Prop := c.processor ≠ -2 ∧ c.vendor ≠ -2

theorem call_settled (cpuinfo : Option (List Char)) {c : Caches} (hc : Settled c) (q : Call) :
    (call cpuinfo c q).1 = c := by
  obtain ⟨hprocessor, hvendor⟩ := hc
  cases q <;>
    simp only [call, copyEvents, getLatencyLoadEvent, getLatencyStoreEvent, detectProcessor,
      detectVendor, if_neg hprocessor, if_neg hvendor]

/-- From the start every call scans the file. -/
theorem call_unset (cpuinfo : Option (List Char)) (q : Call) :
    (call cpuinfo Caches.unset q).1 = (cpuinfo.map found).getD Caches.unset := by
  cases cpuinfo <;> cases q <;> rfl

/-- After a scan without a vendor only detect_vendor scans again. -/
theorem call_unnamed (cpuinfo : Option (List Char)) (q : Call) :
    (call cpuinfo Caches.unnamed q).1 =
      if q = .detectVendor then (cpuinfo.map found).getD Caches.unnamed else Caches.unnamed := by
  cases q with
  | detectVendor => cases cpuinfo <;> rfl
  | _ => rfl

/-- A scan that comes to no vendor goes on to the end. -/
theorem scanLines_goesOn (s : Scan) (input : List (List Char))
    (h : ∀ line ∈ input, namesVendor (cString line) = false) : (scanLines s input).2 = none := by
  induction input generalizing s with
  | nil => rfl
  | cons first more ih =>
    rw [scanLines, scanLine_unnamed s _ (h first List.mem_cons_self)]
    exact ih _ fun line hline => h line (List.mem_cons_of_mem first hline)

theorem classify_unnamed (s : Scan) (hvendor : s.vendor = -2) : classify s = .unknown := by
  unfold classify
  rw [hvendor]
  rfl

/-- What a scan finds: a vendor and a processor, or neither. -/
theorem found_cases (text : List Char) :
    (NamesVendor text ∧ Settled (found text)) ∨
      (¬NamesVendor text ∧ found text = Caches.unnamed) := by
  rcases found_vendor text with ⟨hnames, hvendor⟩ | ⟨hnone, hvendor⟩
  · exact Or.inl ⟨hnames, documented_ne .processor (found_processor text),
      documented_ne .vendor hvendor⟩
  · right
    refine ⟨hnone, ?_⟩
    have hlines : ∀ line ∈ fgets (BUFSIZ - 1) text, namesVendor (cString line) = false := by
      intro line hline
      apply Bool.eq_false_iff.mpr
      intro hnames
      exact hnone ⟨line, hline, hnames⟩
    have hprocessor : (found text).processor = Processor.unknown.code := by
      show ((scanLines ⟨-2, 0, 0⟩ _).2.getD (classify (scanLines ⟨-2, 0, 0⟩ _).1)).code = _
      rw [scanLines_goesOn _ _ hlines, Option.getD_none,
        classify_unnamed _ (scanLines_unnamed _ _ hlines)]
    show Caches.mk (found text).processor (found text).vendor = _
    rw [hprocessor, hvendor]
    rfl

/-- The answers of calls that find both caches filled. -/
theorem runCalls_settled {c : Caches} (hc : Settled c) (calls : List Dated) :
    runCalls c calls = calls.map fun q => answerFor c q.1 := by
  induction calls with
  | nil => rfl
  | cons q rest ih =>
    rw [runCalls, call_answer, call_settled q.2 hc, ih, List.map_cons]

/-- A run of calls and its answers, cut where a scan can read the file and where one
finds a vendor. The last part begins with the scan of `text`. -/
structure Parts (calls : List Dated) (answers : List Answer) (unread unnamed named : List Dated)
    (text : List Char) : Prop where
  calls : calls = unread ++ (unnamed ++ named)
  answers : answers = (unread.map fun q => answerFor Caches.unset q.1) ++
    ((unnamed.map fun q => answerFor Caches.unnamed q.1) ++
      named.map fun q => answerFor (found text) q.1)
  unread : ∀ q ∈ unread, q.2 = none
  unnamed : ∀ text, (Call.detectVendor, some text) ∈ unnamed → ¬NamesVendor text
  named : named ≠ [] → NamesVendor text ∧ ∃ q rest, named = (q, some text) :: rest

variable {calls unread unnamed named : List Dated} {answers : List Answer} {text : List Char}

theorem Parts.cons_unread (h : Parts calls answers unread unnamed named text) (q : Call) :
    Parts ((q, none) :: calls) (answerFor Caches.unset q :: answers) ((q, none) :: unread) unnamed
      named text where
  calls := by rw [h.calls, List.cons_append]
  answers := by rw [h.answers, List.map_cons, List.cons_append]
  unread := fun other hmem => by
    rcases List.mem_cons.mp hmem with rfl | hmem
    · rfl
    · exact h.unread other hmem
  unnamed := h.unnamed
  named := h.named

theorem Parts.cons_unnamed (h : Parts calls answers [] unnamed named text) (q : Dated)
    (hq : ∀ text, q = (.detectVendor, some text) → ¬NamesVendor text) :
    Parts (q :: calls) (answerFor Caches.unnamed q.1 :: answers) [] (q :: unnamed) named text where
  calls := by rw [h.calls, List.nil_append, List.nil_append, List.cons_append]
  answers := by rw [h.answers]; rfl
  unread := h.unread
  unnamed := fun other hmem => by
    rcases List.mem_cons.mp hmem with heq | hmem
    · exact hq other heq.symm
    · exact h.unnamed other hmem
  named := h.named

/-- A scan that finds a vendor decides all answers from then on. -/
theorem parts_named (hnames : NamesVendor text) (q : Call) (rest : List Dated) :
    Parts ((q, some text) :: rest) (answerFor (found text) q :: runCalls (found text) rest) [] []
      ((q, some text) :: rest) text where
  calls := rfl
  answers := by
    have hsettled : Settled (found text) := by
      rcases found_cases text with ⟨_, hsettled⟩ | ⟨hnone, _⟩
      · exact hsettled
      · exact absurd hnames hnone
    rw [runCalls_settled hsettled]
    rfl
  unread := fun _ hmem => absurd hmem List.not_mem_nil
  unnamed := fun _ hmem => absurd hmem List.not_mem_nil
  named := fun _ => ⟨hnames, q, rest, rfl⟩

/-- After a scan without a vendor the processor stays unknown until the vendor is asked
for while the file names one. -/
theorem unnamed_parts (calls : List Dated) :
    ∃ unnamed named text, Parts calls (runCalls Caches.unnamed calls) [] unnamed named text := by
  induction calls with
  | nil =>
    exact ⟨[], [], [], rfl, rfl, fun _ h => absurd h List.not_mem_nil,
      fun _ h => absurd h List.not_mem_nil, fun h => absurd rfl h⟩
  | cons first rest ih =>
    obtain ⟨q, cpuinfo⟩ := first
    obtain ⟨unnamed, named, text, hparts⟩ := ih
    have hcall := call_unnamed cpuinfo q
    rw [runCalls, call_answer]
    by_cases hvendor : q = .detectVendor ∧ ∃ text, cpuinfo = some text ∧ NamesVendor text
    · obtain ⟨rfl, text', rfl, hnames⟩ := hvendor
      rw [hcall, if_pos rfl]
      exact ⟨[], _, text', parts_named hnames _ rest⟩
    · have hstays : (call cpuinfo Caches.unnamed q).1 = Caches.unnamed := by
        rw [hcall]
        split
        · rename_i hq
          cases cpuinfo with
          | none => rfl
          | some text' =>
            rcases found_cases text' with ⟨hnames, _⟩ | ⟨_, hfound⟩
            · exact absurd ⟨hq, text', rfl, hnames⟩ hvendor
            · exact hfound
        · rfl
      rw [hstays]
      refine ⟨_, named, text, hparts.cons_unnamed (q, cpuinfo) fun text' heq hnames => hvendor ?_⟩
      exact ⟨(Prod.mk.inj heq).1, text', (Prod.mk.inj heq).2, hnames⟩

/-- All answers of the five calls, in any run and whatever the file holds from call to
call: while no scan can read it they are those for no processor at all, after a scan
without a vendor those for an unknown processor, and from the first scan that finds a
vendor on those for the processor and the vendor which that scan has found. -/
theorem helpers_settle (calls : List Dated) :
    ∃ unread unnamed named text,
      Parts calls (runCalls Caches.unset calls) unread unnamed named text ∧
      (unnamed ≠ [] → ∃ q text rest, unnamed = (q, some text) :: rest ∧ ¬NamesVendor text) ∧
      (named ≠ [] → Settled (found text)) := by
  induction calls with
  | nil =>
    exact ⟨[], [], [], [], ⟨rfl, rfl, fun _ h => absurd h List.not_mem_nil,
      fun _ h => absurd h List.not_mem_nil, fun h => absurd rfl h⟩, fun h => absurd rfl h,
      fun h => absurd rfl h⟩
  | cons first rest ih =>
    obtain ⟨q, cpuinfo⟩ := first
    rw [runCalls, call_answer, call_unset]
    cases cpuinfo with
    | none =>
      obtain ⟨unread, unnamed, named, text, hparts, hscanned, hsettled⟩ := ih
      exact ⟨_, unnamed, named, text, hparts.cons_unread q, hscanned, hsettled⟩
    | some text =>
      rcases found_cases text with ⟨hnames, hsettled⟩ | ⟨hnone, hfound⟩
      · exact ⟨[], [], _, text, parts_named hnames q rest, fun h => absurd rfl h, fun _ => hsettled⟩
      · obtain ⟨unnamed, named, text', hparts⟩ := unnamed_parts rest
        rw [Option.map_some, Option.getD_some, hfound]
        refine ⟨[], _, named, text', hparts.cons_unnamed (q, some text) ?_,
          fun _ => ⟨q, text, unnamed, rfl, hnone⟩, fun hne => ?_⟩
        · intro other heq
          rwa [← Option.some.inj (Prod.mk.inj heq).2]
        · rcases found_cases text' with ⟨_, hsettled⟩ | ⟨hother, _⟩
          · exact hsettled
          · exact absurd (hparts.named hne).1 hother

end PapiSample.HelperAnswers
