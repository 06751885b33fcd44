import Mathlib.Data.Nat.Notation
import Mathlib.Logic.Relation

/-!
The while loop as a partial function: a condition and a body that may fail to
end. A fuel argument bounds the number of iterations; the states the loop
passes through are those reachable by single iterations.
-/
namespace PapiSample.While

variable {σ : Type}

/-- Run the loop for at most `fuel` iterations; `none` if it is still going. -/
def loop (cond : σ → Bool) (body : σ → Option σ) : ℕ → σ → Option σ
  | 0, s => if cond s then none else some s
  | fuel + 1, s => if cond s then (body s).bind (loop cond body fuel) else some s

def Iterates (cond : σ → Bool) (body : σ → Option σ) (s t : σ) : Prop :=
  cond s = true ∧ body s = some t

def Reaches (cond : σ → Bool) (body : σ → Option σ) : σ → σ → Prop :=
  Relation.ReflTransGen (Iterates cond body)

variable {cond : σ → Bool} {body : σ → Option σ}

theorem loop_done (fuel : ℕ) (s : σ) (h : cond s = false) : loop cond body fuel s = some s := by
  cases fuel <;> simp [loop, h]

theorem loop_step (fuel : ℕ) {s t : σ} (h : Iterates cond body s t) :
    loop cond body (fuel + 1) s = loop cond body fuel t := by
  simp [loop, h.1, h.2]

/-- More fuel does not change a finished loop. -/
theorem loop_mono {fuel fuel' : ℕ} (hle : fuel ≤ fuel') {s t : σ}
    (h : loop cond body fuel s = some t) : loop cond body fuel' s = some t := by
  induction fuel generalizing s fuel' with
  | zero =>
    simp only [loop] at h
    split at h
    · contradiction
    · rename_i hc
      cases h
      exact loop_done fuel' _ (by simpa using hc)
  | succ fuel ih =>
    cases fuel' with
    | zero => omega
    | succ fuel' =>
      simp only [loop] at h ⊢
      split at h
      · rename_i hc
        obtain ⟨u, hu, hrest⟩ := Option.bind_eq_some_iff.mp h
        rw [if_pos hc, hu]
        exact ih (by omega) hrest
      · rename_i hc
        rw [if_neg hc]
        exact h

/-- So a loop has one result, if any. -/
theorem loop_unique {fuel fuel' : ℕ} {s t t' : σ} (h : loop cond body fuel s = some t)
    (h' : loop cond body fuel' s = some t') : t = t' :=
  Option.some.inj ((loop_mono (Nat.le_add_right fuel fuel') h).symm.trans
    (loop_mono (Nat.le_add_left fuel' fuel) h'))

/-- What a finished loop leaves is a reachable state that fails the condition. -/
theorem loop_reaches (fuel : ℕ) (s t : σ) (h : loop cond body fuel s = some t) :
    Reaches cond body s t ∧ cond t = false := by
  induction fuel generalizing s with
  | zero =>
    simp only [loop] at h
    split at h
    · contradiction
    · rename_i hc
      cases h
      exact ⟨Relation.ReflTransGen.refl, by simpa using hc⟩
  | succ fuel ih =>
    simp only [loop] at h
    split at h
    · rename_i hc
      obtain ⟨u, hu, hrest⟩ := Option.bind_eq_some_iff.mp h
      obtain ⟨hreach, hfalse⟩ := ih u hrest
      exact ⟨Relation.ReflTransGen.head ⟨hc, hu⟩ hreach, hfalse⟩
    · rename_i hc
      cases h
      exact ⟨Relation.ReflTransGen.refl, by simpa using hc⟩

/-- An invariant of the iterations holds of every state at the loop head. -/
theorem Reaches.invariant {s t : σ} (I : σ → Prop) (h : Reaches cond body s t) (hs : I s)
    (hstep : ∀ u v, I u → Iterates cond body u v → I v) : I t := by
  induction h with
  | refl => exact hs
  | tail _ hlast ih => exact hstep _ _ ih hlast

/-- If every iteration at a reachable state is the last one, or ends and lowers a
measure, then the loop ends or comes to a last iteration. -/
theorem loop_terminates (measure : σ → ℕ) (last : σ → Prop) (s : σ)
    (hbody : ∀ t, Reaches cond body s t → cond t = true →
      last t ∨ ∃ u, body t = some u ∧ measure u < measure t) :
    (∃ fuel t, loop cond body fuel s = some t) ∨
      ∃ t, Reaches cond body s t ∧ cond t = true ∧ last t := by
  have aux : ∀ n, ∀ t, measure t = n → Reaches cond body s t →
      (∃ fuel u, loop cond body fuel t = some u) ∨
        ∃ u, Reaches cond body s u ∧ cond u = true ∧ last u := by
    intro n
    induction n using Nat.strongRecOn with
    | ind n ih =>
      intro t hn hreach
      cases hc : cond t with
      | false => exact .inl ⟨0, t, loop_done 0 t hc⟩
      | true =>
        rcases hbody t hreach hc with hlast | ⟨u, hu, hlt⟩
        · exact .inr ⟨t, hreach, hc, hlast⟩
        · have hstep : Iterates cond body t u := ⟨hc, hu⟩
          rcases ih (measure u) (by omega) u rfl (hreach.tail hstep) with ⟨fuel, v, hv⟩ | hlast
          · exact .inl ⟨fuel + 1, v, (loop_step fuel hstep).trans hv⟩
          · exact .inr hlast
  exact aux (measure s) s rfl Relation.ReflTransGen.refl

/-- Two loops whose iterations keep their states related come to the same end. -/
theorem loop_related {τ : Type} {cond' : τ → Bool} {body' : τ → Option τ} (R : σ → τ → Prop)
    (hcond : ∀ s t, R s t → cond s = cond' t)
    (hbody : ∀ s t s', R s t → Iterates cond body s s' → ∃ t', body' t = some t' ∧ R s' t')
    (fuel : ℕ) (s s' : σ) (t : τ) (hR : R s t) (h : loop cond body fuel s = some s') :
    ∃ t', loop cond' body' fuel t = some t' ∧ R s' t' := by
  induction fuel generalizing s t with
  | zero =>
    cases hc : cond s with
    | true => simp [loop, hc] at h
    | false =>
      rw [loop_done 0 s hc] at h
      cases h
      exact ⟨t, loop_done 0 t ((hcond _ t hR).symm.trans hc), hR⟩
  | succ fuel ih =>
    cases hc : cond s with
    | true =>
      rw [loop, if_pos hc] at h
      obtain ⟨u, hu, hrest⟩ := Option.bind_eq_some_iff.mp h
      obtain ⟨v, hv, hnext⟩ := hbody s t u hR ⟨hc, hu⟩
      have hc' : cond' t = true := (hcond s t hR).symm.trans hc
      rw [loop_step fuel ⟨hc', hv⟩]
      exact ih u v hnext hrest
    | false =>
      rw [loop_done _ s hc] at h
      cases h
      exact ⟨t, loop_done _ t ((hcond _ t hR).symm.trans hc), hR⟩

/-- A loop that keeps returning to a state satisfying an invariant never ends. -/
theorem loop_diverges (I : σ → Prop) (hstep : ∀ t, I t → ∃ u, Iterates cond body t u ∧ I u)
    (fuel : ℕ) (s : σ) (hs : I s) : loop cond body fuel s = none := by
  induction fuel generalizing s with
  | zero =>
    obtain ⟨u, hu, _⟩ := hstep s hs
    simp [loop, hu.1]
  | succ fuel ih =>
    obtain ⟨u, hu, hI⟩ := hstep s hs
    rw [loop_step fuel hu]
    exact ih u hI

end PapiSample.While
