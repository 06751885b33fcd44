import PapiSample.FollowedStreams
import PapiSample.RecordOutputs

/-!
What of a report stands in the log itself. All values are printed there, apart from the
name of no ABI, which goes to the standard output. The labels of branch flags and the
words of a copied stack are not compared.
-/
namespace PapiSample.LoggedReports

open Bytes Cursor PerfEvent ParseRecord SampleFields RecordLoop Report FieldDecoding SampleDecoding
  RecordDecoding RoundTrip Emissions BlockOutputs RecordOutputs FollowedStreams

variable {c : Config}

def isLogged (e : Site × Value) : Bool := e.2 != .abi .none

/-- The log has what is reported, without the name of no ABI. -/
abbrev AsReported (o : Out) : Prop := logged o = (reported o).filter isLogged

/-- No other text stands for that name. -/
theorem noAbi_text {site : Site} {format : String} {args : List Arg}
    (h : Value.abi .none ∈ callValues site format args) :
    isRegs site = true ∧ format = abiText .none := by
  unfold callValues at h
  split at h
  · rename_i hregs
    unfold textAbi at h
    rw [List.mem_flatMap] at h
    obtain ⟨a, _, ha⟩ := h
    split at ha
    · rename_i hformat
      obtain rfl : RegsAbi.none = a := by simpa using ha
      simp only [Bool.and_eq_true] at hregs
      exact ⟨hregs.2, hformat⟩
    · contradiction
  · obtain ⟨arg, _, harg⟩ := List.mem_flatMap.mp h
    cases arg <;> simp [argValue] at harg

theorem fp_asReported {site : Site} {format : String} (args : List Arg)
    (h : isRegs site = true → format ≠ abiText .none) :
    AsReported (.printed site .fp format args) := by
  have hall : ∀ e ∈ reported (.printed site .fp format args), isLogged e = true := by
    intro e he
    simp only [reported] at he
    split at he
    · obtain ⟨v, hv, rfl⟩ := List.mem_map.mp he
      refine bne_iff_ne.mpr fun hnone : v = .abi .none => ?_
      obtain ⟨hregs, hformat⟩ := noAbi_text (hnone ▸ hv)
      exact h hregs hformat
    · contradiction
  exact (List.filter_eq_self.mpr hall).symm

theorem asReported_permits {site : Site} (hsite : isRegs site = false) : Permits AsReported site :=
  fun _ args => fp_asReported args fun hregs => by simp [hsite] at hregs

theorem asReported_permitsNamed (site : Site) : PermitsNamed AsReported site :=
  fun _ args hformat => fp_asReported args fun _ => hformat

theorem asReported_permitsBlock (hraw : PlainRaw c) (f : SampleField) :
    PermitsBlock c AsReported f := by
  have herror : ∀ site format args, AsReported (.printed site .stderr format args) := by
    intro site format args
    simp [AsReported, logged, reported]
  cases f with
  | tid => exact ⟨asReported_permits rfl, fun _ _ => herror _ _ _⟩
  | read => exact ⟨asReported_permits rfl, fun _ _ => herror _ _ _⟩
  | raw => exact ⟨asReported_permits rfl, fun hdump => absurd hraw hdump⟩
  | branchStack => exact ⟨asReported_permits rfl, fun _ _ => herror _ _ _⟩
  | regsUser => exact ⟨asReported_permitsNamed _, by decide⟩
  | regsIntr => exact ⟨asReported_permitsNamed _, by decide⟩
  | stackUser =>
    exact ⟨⟨fun _ => rfl, rfl⟩, asReported_permits rfl, asReported_permits rfl, fun _ _ _ => rfl⟩
  | _ => exact asReported_permits rfl

/-- Whatever the data, the log has the report of an iteration without that name. -/
theorem iteration_asReported (hraw : PlainRaw c) (size : ℤ) :
    Always AsReported (iteration c size) :=
  always_iteration ⟨asReported_permits rfl, asReported_permits rfl, ⟨fun _ => rfl, rfl⟩,
    asReported_permitsBlock hraw⟩ size

def logReport (r : Record c) : List (Site × Value) := (recordReport r).filter isLogged

/-- Who can follow the whole report can follow the log. -/
theorem follows_logged {c' : Config} (hraw : PlainRaw c') {r : Record c}
    {rep : Record c → List (Site × Value)} (h : Follows c' reported rep r) :
    Follows c' logged (fun r => (rep r).filter isLogged) r := by
  intro size mem start hold room
  have hrun := h size mem start hold room
  refine ⟨hrun.exit, ?_⟩
  rw [seen_agree (iteration_asReported hraw size mem start), seen_filter, hrun.shows]

def logReader (c : Config) : Reader c (Site × Value) where
  obs := logged
  deaf := by
    intro stream format args
    cases stream <;> rfl
  rep := logReport
  reads := Decodable c
  follows := fun r h => follows_logged h.plain fun size mem start hold room =>
    iteration_consumes r h size mem start hold room

end PapiSample.LoggedReports
