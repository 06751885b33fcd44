import Mathlib.Data.List.Basic
import Mathlib.Data.List.Induction

/-!
Labelled transition systems. A run is a list of labels between two states, built
from its last step; what holds of every run follows from what one step does.
-/
namespace PapiSample.Transition

variable {σ τ ℓ m : Type}

inductive Run (step : σ → ℓ → σ → Prop) : σ → List ℓ → σ → Prop
  | nil (s : σ) : Run step s [] s
  | snoc {s t u : σ} {labels : List ℓ} {l : ℓ} :
      Run step s labels t → step t l u → Run step s (labels ++ [l]) u

variable {step : σ → ℓ → σ → Prop} {step' : τ → m → τ → Prop}

/-- What holds initially and is kept by the steps of the run holds at its end. -/
theorem Run.invariant {s t : σ} {labels : List ℓ} (h : Run step s labels t) (I : σ → Prop)
    (hs : I s) (hstep : ∀ u l v, l ∈ labels → I u → step u l v → I v) : I t := by
  induction h with
  | nil => exact hs
  | snoc _ hlast ih =>
    have hprev := ih fun u l v hl => hstep u l v (List.mem_append_left _ hl)
    exact hstep _ _ _ (List.mem_append_right _ (List.mem_singleton.mpr rfl)) hprev hlast

/-- A run of fewer steps is a run of more. -/
theorem Run.mono {more : σ → ℓ → σ → Prop} {s t : σ} {labels : List ℓ} (h : Run step s labels t)
    (hmore : ∀ u l v, step u l v → more u l v) : Run more s labels t := by
  induction h with
  | nil => exact Run.nil _
  | snoc _ hlast ih => exact ih.snoc (hmore _ _ _ hlast)

theorem Run.append {s t u : σ} {a b : List ℓ} (h : Run step s a t) (h' : Run step t b u) :
    Run step s (a ++ b) u := by
  induction h' with
  | nil => simpa using h
  | snoc _ hlast ih =>
    rw [← List.append_assoc]
    exact ih.snoc hlast

/-- A run passes through a state between any two parts of its labels. -/
theorem Run.split {s u : σ} (a b : List ℓ) (h : Run step s (a ++ b) u) :
    ∃ t, Run step s a t ∧ Run step t b u := by
  induction b using List.reverseRecOn generalizing u with
  | nil => exact ⟨u, by simpa using h, Run.nil u⟩
  | append_singleton b l ih =>
    rw [← List.append_assoc] at h
    generalize hlabels : a ++ b ++ [l] = labels at h
    cases h with
    | nil => exact absurd hlabels (by simp)
    | snoc hprev hlast =>
      obtain ⟨rfl, hl⟩ := List.append_inj' hlabels rfl
      cases hl
      obtain ⟨t, ha, hb⟩ := ih hprev
      exact ⟨t, ha, hb.snoc hlast⟩

/-- A run of one step. -/
theorem Run.one {s t : σ} {l : ℓ} (h : Run step s [l] t) : step s l t := by
  generalize hlabels : [l] = labels at h
  cases h with
  | nil => contradiction
  | snoc hprev hlast =>
    obtain ⟨hnil, hl⟩ := List.append_inj' (show [] ++ [l] = _ from hlabels) rfl
    cases hl
    cases hprev with
    | nil => exact hlast
    | snoc => exact absurd hnil (by simp)

/-- Two systems in step: what a label of the first shows is an action of the
second, or nothing. -/
theorem Run.simulates {R : τ → σ → Prop} (shows : ℓ → Option m)
    (hquiet : ∀ a s l t, R a s → step s l t → shows l = none → R a t)
    (hact : ∀ a s l t act, R a s → step s l t → shows l = some act → ∃ b, step' a act b ∧ R b t)
    {s t : σ} {labels : List ℓ} (h : Run step s labels t) {a : τ} (hs : R a s) :
    ∃ b, Run step' a (labels.filterMap shows) b ∧ R b t := by
  induction h with
  | nil => exact ⟨a, Run.nil a, hs⟩
  | @snoc _ _ _ l _ hlast ih =>
    obtain ⟨b, hrun, hb⟩ := ih
    rw [List.filterMap_append]
    cases hl : shows l with
    | none =>
      rw [List.filterMap_cons_none hl, List.filterMap_nil, List.append_nil]
      exact ⟨b, hrun, hquiet _ _ _ _ hb hlast hl⟩
    | some act =>
      obtain ⟨d, hmove, hd⟩ := hact _ _ _ _ _ hb hlast hl
      rw [List.filterMap_cons_some hl, List.filterMap_nil]
      exact ⟨d, hrun.snoc hmove, hd⟩

end PapiSample.Transition
