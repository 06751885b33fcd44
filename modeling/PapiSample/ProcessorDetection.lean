import PapiSample.DecimalText

/-!
The processor and its vendor as they are found in /proc/cpuinfo. The two answers are
kept in static variables that start at -2, and each of the two queries scans the
file if its own variable is still there. A file that cannot be read leaves both
as they are, one that names no vendor leaves the second.
-/
namespace PapiSample.ProcessorDetection

open DecimalText

inductive Vendor
  | unknown | intel | amd | ibm | arm

def Vendor.code : Vendor → ℤ
  | .unknown => -1
  | .intel => 1
  | .amd => 2
  | .ibm => 3
  | .arm => 4

inductive Processor
  | unknown | pentiumPro | pentiumII | pentiumIII | pentium4 | pentiumM | coreduo | core2
  | nehalem | nehalemEx | westmere | westmereEx | sandybridge | atom | k7 | k8 | amdFam10h
  | amdFam11h | amdFam14h | amdFam15h | ivybridge | knightscorner | sandybridgeEp | amdFam16h
  | ivybridgeEp | haswell | atomCedarview | atomSilvermont | broadwell | haswellEp | skylake
  | amdFam17h | kabylake | amdFam12h | amdFam13h | power3 | power4 | power5 | power6 | power7
  | cortexA8 | cortexA9 | cortexA5 | cortexA15 | arm1176 | cortexA7 | cortexA57 | cortexA53

def Processor.code : Processor → ℤ
  | .unknown => -1
  | .pentiumPro => 1
  | .pentiumII => 2
  | .pentiumIII => 3
  | .pentium4 => 4
  | .pentiumM => 5
  | .coreduo => 6
  | .core2 => 7
  | .nehalem => 8
  | .nehalemEx => 9
  | .westmere => 10
  | .westmereEx => 11
  | .sandybridge => 12
  | .atom => 13
  | .k7 => 14
  | .k8 => 15
  | .amdFam10h => 16
  | .amdFam11h => 17
  | .amdFam14h => 18
  | .amdFam15h => 19
  | .ivybridge => 20
  | .knightscorner => 21
  | .sandybridgeEp => 22
  | .amdFam16h => 23
  | .ivybridgeEp => 24
  | .haswell => 25
  | .atomCedarview => 26
  | .atomSilvermont => 27
  | .broadwell => 28
  | .haswellEp => 29
  | .skylake => 30
  | .amdFam17h => 31
  | .kabylake => 32
  | .amdFam12h => 33
  | .amdFam13h => 34
  | .power3 => 103
  | .power4 => 104
  | .power5 => 105
  | .power6 => 106
  | .power7 => 107
  | .cortexA8 => 200
  | .cortexA9 => 201
  | .cortexA5 => 202
  | .cortexA15 => 203
  | .arm1176 => 204
  | .cortexA7 => 205
  | .cortexA57 => 206
  | .cortexA53 => 207

def armParts : List (String × Processor) :=
  [("0xb76", .arm1176), ("0xc05", .cortexA5), ("0xc09", .cortexA9), ("0xc08", .cortexA8),
    ("0xc07", .cortexA7), ("0xc0f", .cortexA15), ("0xd03", .cortexA53)]

def amdFamilies : List (BitVec 32 × Processor) :=
  [(0x6, .k7), (0xf, .k8), (0x10, .amdFam10h), (0x11, .amdFam11h), (0x12, .amdFam12h),
    (0x13, .amdFam13h), (0x14, .amdFam14h), (0x15, .amdFam15h), (0x16, .amdFam16h),
    (0x17, .amdFam17h)]

def intelModels : List (BitVec 32 × Processor) :=
  [(1, .pentiumPro), (3, .pentiumII), (5, .pentiumII), (6, .pentiumII), (7, .pentiumIII),
    (8, .pentiumIII), (10, .pentiumIII), (11, .pentiumIII), (9, .pentiumM), (13, .pentiumM),
    (14, .coreduo), (15, .core2), (22, .core2), (23, .core2), (29, .core2), (28, .atom),
    (38, .atom), (39, .atom), (53, .atom), (54, .atomCedarview), (55, .atomSilvermont),
    (77, .atomSilvermont), (26, .nehalem), (30, .nehalem), (31, .nehalem), (46, .nehalemEx),
    (37, .westmere), (44, .westmere), (47, .westmereEx), (42, .sandybridge),
    (45, .sandybridgeEp), (58, .ivybridge), (62, .ivybridgeEp), (60, .haswell), (69, .haswell),
    (70, .haswell), (63, .haswellEp), (61, .broadwell), (71, .broadwell), (79, .broadwell),
    (86, .broadwell), (78, .skylake), (85, .skylake), (94, .skylake), (142, .kabylake),
    (158, .kabylake)]

def BUFSIZ : ℕ := 8192

/-- What fgets returns, call after call, when `room` characters still fit: up to the
next newline, up to a full buffer or up to the end of the file. -/
def fgets : ℕ → List Char → List (List Char)
  | _, [] => []
  | room, c :: rest =>
    if c.toNat = 10 || room ≤ 1 then [c] :: fgets (BUFSIZ - 1) rest
    else
      match fgets (room - 1) rest with
      | [] => [[c]]
      | line :: more => (c :: line) :: more

def cString (line : List Char) : List Char := line.takeWhile fun c => c.toNat ≠ 0

def strstr (string : List Char) (substr : String) : Bool :=
  string.tails.any fun t => substr.toList.isPrefixOf t

def skipWord (s : List Char) : Option (List Char) :=
  let word := s.dropWhile isSpace
  if word = [] then none else some (word.dropWhile fun c => !isSpace c)

def scanInt (s : List Char) : Option (BitVec 32) :=
  let number := s.dropWhile isSpace
  let digits := if number.head? = some '-' ∨ number.head? = some '+' then number.tail else number
  if digits.head?.any Char.isDigit then some (atoi number) else none

/-- sscanf with some `%*s` and then `%d`. -/
def sscanf : ℕ → List Char → Option (BitVec 32)
  | 0, s => scanInt s
  | words + 1, s => (skipWord s).bind (sscanf words)

structure Scan where
  vendor : ℤ
  cpuFamily : BitVec 32
  model : BitVec 32

def scanVendor (s : Scan) (string : List Char) : Scan :=
  if strstr string "vendor_id" then
    let s := if strstr string "GenuineIntel" then { s with vendor := Vendor.intel.code } else s
    if strstr string "AuthenticAMD" then { s with vendor := Vendor.amd.code } else s
  else s

def scanFamily (s : Scan) (string : List Char) : Scan :=
  if strstr string "cpu family" then { s with cpuFamily := (sscanf 3 string).getD s.cpuFamily }
  else s

/-- The model of a line with "model", but not of the one with its name. -/
def scanModel (s : Scan) (string : List Char) : Scan :=
  if strstr string "model" && !strstr string "model name" then
    { s with model := (sscanf 2 string).getD s.model }
  else s

/-- What is done with one line; a processor ends the scan. -/
def scanLine (s : Scan) (string : List Char) : Scan × Option Processor :=
  if strstr string "POWER6" then ({ s with vendor := Vendor.ibm.code }, some .power6)
  else
    let arm := strstr string "CPU part"
    let s := if arm then { s with vendor := Vendor.arm.code } else s
    match if arm then armParts.find? fun part => strstr string part.1 else none with
    | some part => (s, some part.2)
    | none => (scanModel (scanFamily (scanVendor s string) string) string, none)

def scanLines (s : Scan) : List (List Char) → Scan × Option Processor
  | [] => (s, none)
  | line :: more =>
    match scanLine s (cString line) with
    | (s, some processor) => (s, some processor)
    | (s, none) => scanLines s more

def classify (s : Scan) : Processor :=
  if s.vendor = Vendor.amd.code then (amdFamilies.lookup s.cpuFamily).getD .unknown
  else if s.vendor = Vendor.intel.code then
    if s.cpuFamily = 6 then (intelModels.lookup s.model).getD .unknown
    else if s.cpuFamily = 11 then .knightscorner
    else if s.cpuFamily = 15 then .pentium4
    else .unknown
  else .unknown

structure Caches where
  processor : ℤ
  vendor : ℤ

def Caches.unset : Caches := ⟨-2, -2⟩

structure Detection where
  caches : Caches
  result : ℤ
  complaint : Option String

def detectProcessorCpuinfo (cpuinfo : Option (List Char)) (c : Caches) : Detection :=
  match cpuinfo with
  | none => ⟨c, Processor.unknown.code, some "ERROR!  Can't open /proc/cpuinfo\n"⟩
  | some text =>
    let (s, found) := scanLines ⟨c.vendor, 0, 0⟩ (fgets (BUFSIZ - 1) text)
    ⟨⟨(found.getD (classify s)).code, s.vendor⟩, 0, none⟩

def detectProcessor (cpuinfo : Option (List Char)) (c : Caches) : Caches × ℤ :=
  let c := if c.processor = -2 then (detectProcessorCpuinfo cpuinfo c).caches else c
  (c, c.processor)

def detectVendor (cpuinfo : Option (List Char)) (c : Caches) : Caches × ℤ :=
  let c := if c.vendor = -2 then (detectProcessorCpuinfo cpuinfo c).caches else c
  (c, c.vendor)

inductive Query
  | processor | vendor
deriving DecidableEq

def ask (cpuinfo : Option (List Char)) (c : Caches) : Query → Caches × ℤ
  | .processor => detectProcessor cpuinfo c
  | .vendor => detectVendor cpuinfo c

def answers (cpuinfo : Option (List Char)) (c : Caches) : List Query → List (Query × ℤ)
  | [] => []
  | q :: rest => (q, (ask cpuinfo c q).2) :: answers cpuinfo (ask cpuinfo c q).1 rest

def Query.Documented : Query → ℤ → Prop
  | .processor, code => ∃ p : Processor, p.code = code
  | .vendor, code => ∃ v : Vendor, v.code = code

/-- Every answer is a documented code, and a query always gets the same one. -/
structure AnswersStably (cpuinfo : Option (List Char)) (queries : List Query) : Prop where
  documented : ∀ a ∈ answers cpuinfo Caches.unset queries, a.1.Documented a.2
  stable : ∀ a ∈ answers cpuinfo Caches.unset queries, ∀ b ∈ answers cpuinfo Caches.unset queries,
    a.1 = b.1 → a.2 = b.2

@[simp] theorem scanModel_vendor (s : Scan) (string : List Char) :
    (scanModel s string).vendor = s.vendor := by
  unfold scanModel
  split <;> rfl

@[simp] theorem scanFamily_vendor (s : Scan) (string : List Char) :
    (scanFamily s string).vendor = s.vendor := by
  unfold scanFamily
  split <;> rfl

def tellsVendor (string : List Char) : Bool :=
  strstr string "vendor_id" && (strstr string "GenuineIntel" || strstr string "AuthenticAMD")

def namesVendor (string : List Char) : Bool :=
  strstr string "POWER6" || strstr string "CPU part" || tellsVendor string

theorem scanVendor_told (s : Scan) (string : List Char) (h : tellsVendor string = true) :
    Query.vendor.Documented (scanVendor s string).vendor := by
  simp only [tellsVendor, Bool.and_eq_true, Bool.or_eq_true] at h
  rw [scanVendor, if_pos h.1]
  cases hamd : strstr string "AuthenticAMD" with
  | true => exact ⟨.amd, rfl⟩
  | false =>
    have hintel : strstr string "GenuineIntel" = true := by
      rcases h.2 with hintel | hother
      · exact hintel
      · rw [hamd] at hother
        contradiction
    rw [if_pos hintel]
    exact ⟨.intel, rfl⟩

theorem scanVendor_untold (s : Scan) (string : List Char) (h : tellsVendor string = false) :
    scanVendor s string = s := by
  unfold scanVendor
  cases hid : strstr string "vendor_id" with
  | false => rfl
  | true =>
    simp only [tellsVendor, hid, Bool.true_and, Bool.or_eq_false_iff] at h
    simp [h.1, h.2]

theorem scanVendor_documented (s : Scan) (string : List Char)
    (h : Query.vendor.Documented s.vendor) :
    Query.vendor.Documented (scanVendor s string).vendor := by
  cases htold : tellsVendor string with
  | true => exact scanVendor_told s string htold
  | false => rwa [scanVendor_untold s string htold]

/-- A line with a vendor leaves one of the codes, whether it ends the scan or not. -/
theorem scanLine_named (s : Scan) (string : List Char) (h : namesVendor string = true) :
    Query.vendor.Documented (scanLine s string).1.vendor := by
  unfold scanLine
  cases hpower : strstr string "POWER6" with
  | true => exact ⟨.ibm, rfl⟩
  | false =>
    cases harm : strstr string "CPU part" with
    | true =>
      have hvendor := scanVendor_documented { s with vendor := Vendor.arm.code } string ⟨.arm, rfl⟩
      cases armParts.find? fun part => strstr string part.1 with
      | some part => exact ⟨.arm, rfl⟩
      | none => simpa using hvendor
    | false =>
      have htold : tellsVendor string = true := by
        simpa [namesVendor, hpower, harm] using h
      simpa using scanVendor_told s string htold

/-- A line without one leaves the vendor, and the scan goes on. -/
theorem scanLine_unnamed (s : Scan) (string : List Char) (h : namesVendor string = false) :
    scanLine s string = (scanModel (scanFamily s string) string, none) := by
  simp only [namesVendor, Bool.or_eq_false_iff] at h
  simp [scanLine, h.1.1, h.1.2, scanVendor_untold s string h.2]

theorem scanLine_documented (s : Scan) (string : List Char)
    (h : Query.vendor.Documented s.vendor) :
    Query.vendor.Documented (scanLine s string).1.vendor := by
  cases hnames : namesVendor string with
  | true => exact scanLine_named s string hnames
  | false =>
    rw [scanLine_unnamed s string hnames]
    simpa using h

theorem scanLines_cons (s : Scan) (line : List Char) (more : List (List Char)) :
    scanLines s (line :: more) = scanLine s (cString line) ∨
      ((scanLine s (cString line)).2 = none ∧
        scanLines s (line :: more) = scanLines (scanLine s (cString line)).1 more) := by
  rw [scanLines]
  generalize scanLine s (cString line) = t
  obtain ⟨t, found⟩ := t
  cases found with
  | some processor => exact Or.inl rfl
  | none => exact Or.inr ⟨rfl, rfl⟩

theorem scanLines_documented (s : Scan) (input : List (List Char))
    (h : Query.vendor.Documented s.vendor) :
    Query.vendor.Documented (scanLines s input).1.vendor := by
  induction input generalizing s with
  | nil => exact h
  | cons line more ih =>
    have hline := scanLine_documented s (cString line) h
    rcases scanLines_cons s line more with heq | ⟨_, heq⟩
    · rwa [heq]
    · rw [heq]
      exact ih _ hline

/-- A scan that comes to a line with a vendor leaves one of the codes. It comes to
every line in front of the first such one. -/
theorem scanLines_named (s : Scan) (input : List (List Char))
    (h : ∃ line ∈ input, namesVendor (cString line) = true) :
    Query.vendor.Documented (scanLines s input).1.vendor := by
  induction input generalizing s with
  | nil =>
    obtain ⟨line, hline, _⟩ := h
    contradiction
  | cons first more ih =>
    cases hfirst : namesVendor (cString first) with
    | true =>
      have hline := scanLine_named s (cString first) hfirst
      rcases scanLines_cons s first more with heq | ⟨_, heq⟩
      · rwa [heq]
      · rw [heq]
        exact scanLines_documented _ more hline
    | false =>
      have hrest : ∃ line ∈ more, namesVendor (cString line) = true := by
        obtain ⟨line, hline, hnames⟩ := h
        rcases List.mem_cons.mp hline with rfl | hline
        · rw [hfirst] at hnames
          contradiction
        · exact ⟨line, hline, hnames⟩
      have heq : scanLines s (first :: more) =
          scanLines (scanLine s (cString first)).1 more := by
        rw [scanLines, scanLine_unnamed s _ hfirst]
      rw [heq]
      exact ih _ hrest

theorem scanLines_unnamed (s : Scan) (input : List (List Char))
    (h : ∀ line ∈ input, namesVendor (cString line) = false) :
    (scanLines s input).1.vendor = s.vendor := by
  induction input generalizing s with
  | nil => rfl
  | cons first more ih =>
    have hfirst := scanLine_unnamed s _ (h first List.mem_cons_self)
    rw [scanLines, hfirst]
    rw [ih _ fun line hline => h line (List.mem_cons_of_mem first hline)]
    simp

def found (text : List Char) : Caches := (detectProcessorCpuinfo (some text) Caches.unset).caches

theorem found_processor (text : List Char) :
    Query.processor.Documented (found text).processor := ⟨_, rfl⟩

def NamesVendor (text : List Char) : Prop :=
  ∃ line ∈ fgets (BUFSIZ - 1) text, namesVendor (cString line) = true

theorem found_vendor (text : List Char) :
    (NamesVendor text ∧ Query.vendor.Documented (found text).vendor) ∨
      (¬NamesVendor text ∧ (found text).vendor = -2) := by
  by_cases h : NamesVendor text
  · exact Or.inl ⟨h, scanLines_named _ _ h⟩
  · right
    refine ⟨h, scanLines_unnamed _ _ ?_⟩
    intro line hline
    apply Bool.eq_false_iff.mpr
    intro hnames
    exact h ⟨line, hline, hnames⟩

theorem documented_ne (q : Query) {code : ℤ} (h : q.Documented code) : code ≠ -2 := by
  cases q with
  | processor =>
    obtain ⟨p, rfl⟩ := h
    cases p <;> decide
  | vendor =>
    obtain ⟨v, rfl⟩ := h
    cases v <;> decide

/-- A query of a text that can be read leaves what a first scan finds. -/
theorem ask_found (text : List Char) (c : Caches) (q : Query)
    (hc : c = Caches.unset ∨ c = found text) : (ask (some text) c q).1 = found text := by
  have hprocessor := documented_ne .processor (found_processor text)
  rcases hc with rfl | rfl
  · cases q <;> rfl
  · cases q with
    | processor =>
      simp only [ask, detectProcessor]
      rw [if_neg hprocessor]
    | vendor =>
      simp only [ask, detectVendor]
      split
      · rename_i hvendor
        show (detectProcessorCpuinfo (some text) (found text)).caches = found text
        simp only [detectProcessorCpuinfo, hvendor]
        rfl
      · rfl

def Caches.get (c : Caches) : Query → ℤ
  | .processor => c.processor
  | .vendor => c.vendor

theorem ask_result (cpuinfo : Option (List Char)) (c : Caches) (q : Query) :
    (ask cpuinfo c q).2 = (ask cpuinfo c q).1.get q := by
  cases q <;> rfl

theorem answers_found (text : List Char) (c : Caches) (queries : List Query)
    (hc : c = Caches.unset ∨ c = found text) :
    answers (some text) c queries = queries.map fun q => (q, (found text).get q) := by
  induction queries generalizing c with
  | nil => rfl
  | cons q rest ih =>
    rw [answers, ask_result, ask_found text c q hc, ih _ (Or.inr rfl), List.map_cons]

/-- Nothing is ever found in a file that cannot be read. -/
theorem answers_unreadable (queries : List Query) :
    answers none Caches.unset queries = queries.map fun q => (q, -2) := by
  induction queries with
  | nil => rfl
  | cons q rest ih =>
    have hask : ask none Caches.unset q = (Caches.unset, -2) := by cases q <;> rfl
    rw [answers, hask, ih, List.map_cons]

/-- Answers that depend on the query only are stable. -/
theorem answersStably_of_map (cpuinfo : Option (List Char)) (queries : List Query)
    (value : Query → ℤ)
    (h : answers cpuinfo Caches.unset queries = queries.map fun q => (q, value q)) :
    AnswersStably cpuinfo queries ↔ ∀ q ∈ queries, q.Documented (value q) := by
  constructor
  · rintro ⟨hdocumented, _⟩ q hq
    apply hdocumented (q, value q)
    rw [h]
    exact List.mem_map_of_mem hq
  · intro hcodes
    constructor
    · intro a ha
      rw [h] at ha
      obtain ⟨q, hq, rfl⟩ := List.mem_map.mp ha
      exact hcodes q hq
    · intro a ha b hb hab
      rw [h] at ha hb
      obtain ⟨q, _, rfl⟩ := List.mem_map.mp ha
      obtain ⟨q', _, rfl⟩ := List.mem_map.mp hb
      exact congrArg value hab

/-- The answers are documented and stable exactly if the processor is only asked for
where the file can be read, and the vendor only where it can and names one. -/
theorem answersStably_iff (cpuinfo : Option (List Char)) (queries : List Query) :
    AnswersStably cpuinfo queries ↔
      (Query.processor ∈ queries → ∃ text, cpuinfo = some text) ∧
      (Query.vendor ∈ queries → ∃ text, cpuinfo = some text ∧ NamesVendor text) := by
  cases cpuinfo with
  | none =>
    rw [answersStably_of_map none queries (fun _ => -2) (answers_unreadable queries)]
    constructor
    · intro h
      exact ⟨fun hq => absurd rfl (documented_ne _ (h _ hq)),
        fun hq => absurd rfl (documented_ne _ (h _ hq))⟩
    · rintro ⟨hprocessor, hvendor⟩ q hq
      cases q with
      | processor =>
        obtain ⟨text, htext⟩ := hprocessor hq
        contradiction
      | vendor =>
        obtain ⟨text, htext, _⟩ := hvendor hq
        contradiction
  | some text =>
    rw [answersStably_of_map (some text) queries (found text).get
      (answers_found text Caches.unset queries (Or.inl rfl))]
    constructor
    · intro h
      refine ⟨fun _ => ⟨text, rfl⟩, fun hq => ⟨text, rfl, ?_⟩⟩
      rcases found_vendor text with ⟨hnames, _⟩ | ⟨_, hunset⟩
      · exact hnames
      · exact absurd hunset (documented_ne .vendor (h _ hq))
    · rintro ⟨_, hvendor⟩ q hq
      cases q with
      | processor => exact found_processor text
      | vendor =>
        obtain ⟨text', htext, hnames⟩ := hvendor hq
        cases htext
        rcases found_vendor text with ⟨_, hcode⟩ | ⟨hnone, _⟩
        · exact hcode
        · exact absurd hnames hnone

/-- Asked for the processor when the file cannot be read. -/
theorem answersStably_unreadable : ¬AnswersStably none [.processor] := by
  intro h
  obtain ⟨p, hp⟩ := h.documented (.processor, -2) List.mem_cons_self
  revert hp
  cases p <;> decide

end PapiSample.ProcessorDetection
