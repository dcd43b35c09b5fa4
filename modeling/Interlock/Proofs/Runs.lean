/-!
# Runs of a machine

A machine is given by what each move makes of a state, if the move is possible there. `Leads` are its runs.
-/

namespace Interlock

variable {σ τ μ : Type}

/-- Some moves lead from the first state to the second. -/
inductive Leads (next? : σ → μ → Option σ) (s : σ) : σ → Prop
  | refl : Leads next? s s
  | tail {s₁ s₂ : σ} (m : μ) : Leads next? s s₁ → next? s₁ m = some s₂ → Leads next? s s₂

def run? (next? : σ → μ → Option σ) (s : σ) : List μ → Option σ
  | [] => some s
  | m :: ms => (next? s m).bind fun s => run? next? s ms

/-- The last move of a run. -/
theorem run?_append (next? : σ → μ → Option σ) (s : σ) (ms : List μ) (m : μ) :
    run? next? s (ms ++ [m]) = (run? next? s ms).bind fun s => next? s m := by
  induction ms generalizing s with
  | nil => simp [run?]
  | cons n ms ih => simp only [List.cons_append, run?, ih, Option.bind_assoc]

namespace Leads

variable {next? : σ → μ → Option σ} {s₀ s s' : σ}

theorem run (h : Leads next? s₀ s) (ms : List μ) (hms : run? next? s ms = some s') : Leads next? s₀ s' := by
  induction ms generalizing s with
  | nil => exact Option.some.inj hms ▸ h
  | cons m ms ih =>
    obtain ⟨s₁, hm, hms⟩ := Option.bind_eq_some_iff.mp hms
    exact ih (h.tail m hm) hms

theorem trans {s₁ : σ} (h : Leads next? s₀ s) (h' : Leads next? s s₁) : Leads next? s₀ s₁ := by
  induction h' with
  | refl => exact h
  | tail m _ hm ih => exact ih.tail m hm

variable {next'? : τ → μ → Option τ} (f : σ → τ)

theorem map (hf : ∀ s m s', next? s m = some s' → next'? (f s) m = some (f s')) (h : Leads next? s₀ s) :
    Leads next'? (f s₀) (f s) := by
  induction h with
  | refl => exact .refl
  | tail m _ hm ih => exact ih.tail m (hf _ m _ hm)

/-- A machine that adds to the states of another, and stops none of its moves, has all of its runs. -/
theorem lift (hf : ∀ s m t, next'? (f s) m = some t → ∃ s', next? s m = some s' ∧ f s' = t) {t : τ}
    (h : Leads next'? (f s₀) t) : ∃ s, Leads next? s₀ s ∧ f s = t := by
  induction h with
  | refl => exact ⟨s₀, .refl, rfl⟩
  | tail m _ hm ih =>
    obtain ⟨s, hs, rfl⟩ := ih
    obtain ⟨s', hm', rfl⟩ := hf s m _ hm
    exact ⟨s', hs.tail m hm', rfl⟩

end Leads

end Interlock
