import PapiSample.HeaderGeneration

/-!
gen_codes, which prints for a list of events the text of cases, and how its labels fit the
header that gen_defines makes of a list of the same content. Both write the name of an event
with its dots replaced; an encoding is printed as an unsigned int, and what libpfm refuses
leaves a message among the cases. Only the printed lines are compared: a config line is
printed without a semicolon, so they are no C as they stand.
-/
namespace PapiSample.SwitchGeneration

open Bytes CString CharReplace TextLines HeaderGeneration

/-- What gen_codes uses of libpfm: pfm_initialize, and pfm_get_os_event_encoding with the
config that it stores. An error has the text of pfm_strerror. -/
structure Libpfm where
  initializes : Except (List Byte) Unit
  encode : List Byte → Except (List Byte) (BitVec 64)

def caseFormat : String := "\t\tcase\tPAPI_%s\t:\n"
def configFormat : String := "\t\t\tpe.config=0x%x\n"
def breakFormat : String := "\t\t\tbreak;\n"

/-- The prints for an encoding; `%x` takes the low word of a config. -/
def caseLines (event : List Byte) (config : BitVec 64) : List Printf :=
  [⟨caseFormat, some event, none⟩, ⟨configFormat, none, some ((config.setWidth 32).toNat : ℤ)⟩,
    ⟨breakFormat, none, none⟩]

def refusal (reason : List Byte) : Printf :=
  ⟨"gen_codes can't get encoding %s\n", some reason, none⟩

/-- The body of the loop, on what getline has put into the buffer. The dots are replaced
behind the call of libpfm, and only if it succeeds. -/
def encodeLine (lib : Libpfm) (mem : Memory) (line : List Byte) :
    Option (Memory × List Printf) :=
  let read := wrap 32 line.length
  if read - 1 < 0 then none
  else
    let cut := Function.update (overlay (line ++ [0]) mem) (read - 1) 0
    (stringAt cut (line.length + 1) 0).bind fun event =>
      match lib.encode event with
      | .error reason => some (cut, [refusal reason])
      | .ok config =>
        (replaceChar cut 0 dot underscore line.length).bind fun r =>
          (stringAt r.mem (line.length + 1) 0).map fun event => (r.mem, caseLines event config)

def encodeLines (lib : Libpfm) : Memory → List (List Byte) → Option (List Printf)
  | _, [] => some []
  | mem, line :: more =>
    if wrap 32 line.length = -1 then some []
    else
      (encodeLine lib mem line).bind fun (mem, out) => (encodeLines lib mem more).map (out ++ ·)

def genCodes (lib : Libpfm) (heap : Memory) (file : Option (List Byte)) :
    Option (List Printf × ℤ) :=
  match file with
  | none => some ([⟨"Error opening list of events\n", none, none⟩], -1)
  | some bytes =>
    match lib.initializes with
    | .error reason => some ([⟨"cannot initialize library %s", some reason, none⟩], 1)
    | .ok () => (encodeLines lib heap (getlines bytes)).map fun out => (out, 0)

def accepts (lib : Libpfm) (line : List Byte) : Bool :=
  match lib.encode line with
  | .error _ => false
  | .ok _ => true

def defined (header : List Printf) : List (List Byte) := header.filterMap Printf.event

def labels (code : List Printf) : List (List Byte) :=
  code.filterMap fun p => if p.format = caseFormat then p.event else none

def emitted (lib : Libpfm) (line : List Byte) : List Printf :=
  match lib.encode line with
  | .error reason => [refusal reason]
  | .ok config => caseLines (macroName line) config

variable (lib : Libpfm)

/-- A line that ends with a newline is encoded as it stands. -/
theorem encodeLine_emits (mem : Memory) (line : List Byte) (hnul : 0 ∉ line)
    (hshort : line.length + 1 < 2 ^ 31) :
    ∃ mem', encodeLine lib mem (line ++ [newline]) = some (mem', emitted lib line) := by
  have hlen : (line ++ [newline]).length = line.length + 1 := by simp
  have hread : wrap 32 ((line.length + 1 : ℕ) : ℤ) - 1 = line.length := by
    rw [(wrap32_eq_iff _).mpr hshort]
    push_cast
    omega
  have hnul' : 0 ∉ line ++ [newline] := by
    rw [List.mem_append, not_or]
    exact ⟨hnul, by decide⟩
  have hcut := isString_cut mem (line ++ [newline]) line.length (by omega) hnul'
  rw [List.take_left] at hcut
  have hevent := stringAt_of_isString (line.length + 1 + 1) hcut (by omega)
  unfold encodeLine emitted
  simp only [hlen, hread, if_neg (show ¬ ((line.length : ℤ) < 0) by omega), hevent,
    Option.bind_some]
  cases hencode : lib.encode line with
  | error reason => exact ⟨_, rfl⟩
  | ok config =>
    have hdot : dot ≠ 0 ∧ underscore ≠ 0 ∧ dot ≠ underscore := by decide
    have hends := replaceChar_ends hdot.2.2 hdot.1 hdot.2.1 hcut (line.length + 1) (by omega)
    have hswapped := isString_swapped dot hdot.2.1 hcut
    have hprinted := stringAt_of_isString (line.length + 1 + 1) hswapped
      (by rw [List.length_map]; omega)
    simp only [hends, Option.bind_some, hprinted, Option.map_some]
    exact ⟨_, rfl⟩

theorem encodeLines_emits (mem : Memory) (source : List (List Byte))
    (hnul : ∀ line ∈ source, 0 ∉ line) (hshort : ∀ line ∈ source, line.length + 1 < 2 ^ 31) :
    encodeLines lib mem (source.map fun line => line ++ [newline]) =
      some (source.flatMap (emitted lib)) := by
  induction source generalizing mem with
  | nil => rfl
  | cons line more ih =>
    have hline := hshort line List.mem_cons_self
    obtain ⟨mem', hfirst⟩ := encodeLine_emits lib mem line (hnul line List.mem_cons_self) hline
    have hlen : (line ++ [newline]).length = line.length + 1 := by simp
    have hmore : wrap 32 (line ++ [newline]).length ≠ -1 := by
      rw [hlen, (wrap32_eq_iff _).mpr hline]
      omega
    have hrest := ih mem' (fun l hl => hnul l (List.mem_cons_of_mem line hl))
      fun l hl => hshort l (List.mem_cons_of_mem line hl)
    rw [List.map_cons, encodeLines, if_neg hmore, hfirst]
    simp only [Option.bind_some, hrest, Option.map_some, List.flatMap_cons]

theorem labels_append (code more : List Printf) :
    labels (code ++ more) = labels code ++ labels more := List.filterMap_append

theorem labels_emitted (line : List Byte) :
    labels (emitted lib line) = if accepts lib line then [macroName line] else [] := by
  have hconfig : configFormat ≠ caseFormat := by decide
  have hbreak : breakFormat ≠ caseFormat := by decide
  unfold emitted accepts
  cases lib.encode line with
  | error reason =>
    have hrefusal : (refusal reason).format ≠ caseFormat := by
      simp only [refusal]
      decide
    simp [labels, hrefusal]
  | ok config => simp [labels, caseLines, hconfig, hbreak]

theorem labels_code (source : List (List Byte)) :
    labels (source.flatMap (emitted lib)) = (source.filter (accepts lib)).map macroName := by
  induction source with
  | nil => rfl
  | cons line more ih =>
    rw [List.flatMap_cons, labels_append, labels_emitted, ih, List.filter_cons]
    cases accepts lib line <;> rfl

theorem defined_header (source : List (List Byte)) (number : ℕ → ℤ) :
    defined (source.mapIdx fun i line => defineLine (macroName line) (number i)) =
      source.map macroName := by
  induction source generalizing number with
  | nil => rfl
  | cons line more ih =>
    have hevent : (defineLine (macroName line) (number 0)).event = some (macroName line) := rfl
    rw [List.mapIdx_cons, defined, List.filterMap_cons_some hevent, List.map_cons]
    congr 1
    exact ih fun i => number (i + 1)

theorem filter_accepts_iff (source : List (List Byte)) :
    (source.filter (accepts lib)).map macroName = source.map macroName ↔
      ∀ line ∈ source, accepts lib line := by
  constructor
  · intro heq
    have hlen := congrArg List.length heq
    rw [List.length_map, List.length_map] at hlen
    exact List.length_filter_eq_length_iff.mp hlen
  · intro hall
    rw [List.filter_eq_self.mpr hall]

/-- What the two generators make of a file whose lines are all ended. -/
theorem generated (heap heap' : Memory) (bytes : List Byte) (hinit : lib.initializes = .ok ())
    (hnul : 0 ∉ bytes) (hended : bytes = [] ∨ bytes.getLast? = some newline)
    (hshort : ∀ line ∈ lines bytes, line.length + 1 < 2 ^ 31)
    (hcount : (lines bytes).length < 2 ^ 31) :
    genDefines heap (some bytes) =
        some ((lines bytes).mapIdx fun i line => defineLine (macroName line) (1 + i), 0) ∧
      genCodes lib heap' (some bytes) = some ((lines bytes).flatMap (emitted lib), 0) := by
  obtain ⟨full, tail, hparts⟩ := parts_exist bytes
  obtain rfl := hparts.tail_nil_iff.mpr hended
  have hlines := hparts.lines_eq
  have hgetlines := hparts.getlines_eq
  rw [unfinished, if_pos rfl, List.append_nil] at hlines hgetlines
  rw [hlines] at hshort hcount
  constructor
  · have hnames : events (getlines bytes) = some (full.map macroName) := by
      have hevents := (events_iff full []).mpr ⟨rfl, hshort⟩
      rw [unfinished, if_pos rfl, List.append_nil, List.append_nil] at hevents
      rw [hgetlines, hevents]
    rw [genDefines, generate, readEvents_eq defineLine heap 1 _ (getlines_noNul hparts hnul)
      (by decide), hnames, Option.map_some, Option.map_some,
      (mapIdx_defineLine_iff _ full).mpr ⟨rfl, hcount⟩, hlines]
    simp only [Int.add_comm]
  · simp only [genCodes, hinit, hgetlines, hlines]
    rw [encodeLines_emits lib heap' full (hparts.not_mem hnul).1 hshort]
    rfl

/-- On files of one content, gen_defines numbers the events and gen_codes prints, event by
event, the low word of the encoding under the label of its name. The labels are names of
the header in its order, and all of them only if libpfm refuses no event. -/
theorem labels_fit (lib : Libpfm) (heap heap' : Memory) (bytes : List Byte)
    (hinit : lib.initializes = .ok ()) (hnul : 0 ∉ bytes)
    (hended : bytes = [] ∨ bytes.getLast? = some newline)
    (hshort : ∀ line ∈ lines bytes, line.length + 1 < 2 ^ 31)
    (hcount : (lines bytes).length < 2 ^ 31) :
    ∃ header code, genDefines heap (some bytes) = some (header, 0) ∧
      genCodes lib heap' (some bytes) = some (code, 0) ∧
      header = (lines bytes).mapIdx (fun i line => defineLine (macroName line) (1 + i)) ∧
      code = (lines bytes).flatMap (emitted lib) ∧
      (labels code).Sublist (defined header) ∧
      (labels code = defined header ↔ ∀ line ∈ lines bytes, accepts lib line) := by
  obtain ⟨hheader, hcode⟩ := generated lib heap heap' bytes hinit hnul hended hshort hcount
  refine ⟨_, _, hheader, hcode, rfl, rfl, ?_⟩
  rw [labels_code, defined_header (lines bytes) fun i => 1 + i]
  exact ⟨List.filter_sublist.map macroName, filter_accepts_iff lib (lines bytes)⟩

def oneEvent : Libpfm where
  initializes := .ok ()
  encode := fun event => if event = [65, 46, 66] then .ok 0x5300c0 else .error [63]

/-- Of a list of A.B and C, only A_B gets a label. -/
theorem labels_fit_oneEvent :
    ∃ header code, genDefines (fun _ => 0) (some [65, 46, 66, 10, 67, 10]) = some (header, 0) ∧
      genCodes oneEvent (fun _ => 1) (some [65, 46, 66, 10, 67, 10]) = some (code, 0) ∧
      defined header = [[65, 95, 66], [67]] ∧ labels code = [[65, 95, 66]] := by
  obtain ⟨header, code, hheader, hcode, rfl, rfl, _⟩ := labels_fit oneEvent (fun _ => 0)
    (fun _ => 1) [65, 46, 66, 10, 67, 10] rfl (by decide) (by decide) (by decide) (by decide)
  exact ⟨_, _, hheader, hcode, by decide, by decide⟩

end PapiSample.SwitchGeneration
