import Interlock.Proofs.Calls
import Mathlib.Data.List.Forall2

/-!
# Histories of calls

A history lists what happened to the calls on an object: that one was made, that it was served, that its
answer was taken. It shows the object to be linearizable if serving the calls one after another, in the
order of the history, explains all answers (`Serial`), and each call is served once, after it is made and
before its answer is taken (`Course`). Where the phase of a call fits one stage only, the calls under way tell
the stages (`Calls.AreAt`).
-/

namespace Interlock

def Trace {σ ε : Type} (step : σ → ε → σ → Prop) : σ → List ε → σ → Prop
  | s, [], s' => s = s'
  | s, e :: es, s' => ∃ s₁, step s e s₁ ∧ Trace step s₁ es s'

theorem trace_append {σ ε : Type} {step : σ → ε → σ → Prop} {es es' : List ε} {s s' : σ} :
    Trace step s (es ++ es') s' ↔ ∃ s₁, Trace step s es s₁ ∧ Trace step s₁ es' s' := by
  induction es generalizing s with
  | nil => simp [Trace]
  | cons e es ih =>
    simp only [List.cons_append, Trace, ih]
    constructor
    · intro ⟨s₁, h₁, s₂, h₂, h⟩
      exact ⟨s₂, ⟨s₁, h₁, h₂⟩, h⟩
    · intro ⟨s₂, ⟨s₁, h₁, h₂⟩, h⟩
      exact ⟨s₁, h₁, s₂, h₂, h⟩

variable {σ ρ ω : Type}

inductive Event (ρ ω : Type) where
  | called (t : ThreadId) (r : ρ)
  | served (t : ThreadId) (r : ρ) (a : ω)
  | returned (t : ThreadId) (a : ω)

def Event.thread : Event ρ ω → ThreadId
  | .called t _ => t
  | .served t _ _ => t
  | .returned t _ => t

inductive Applies (serves : σ → ρ → ω → σ → Prop) : σ → Event ρ ω → σ → Prop
  | called (s : σ) (t : ThreadId) (r : ρ) : Applies serves s (.called t r) s
  | served {s s' : σ} {r : ρ} {a : ω} (t : ThreadId) : serves s r a s' → Applies serves s (.served t r a) s'
  | returned (s : σ) (t : ThreadId) (a : ω) : Applies serves s (.returned t a) s

/-- Serving the calls one after another, in the order of the history, leads from the first state to the
second. -/
def Serial (serves : σ → ρ → ω → σ → Prop) : σ → List (Event ρ ω) → σ → Prop := Trace (Applies serves)

inductive Stage (ρ ω : Type) where
  | asked (r : ρ)
  | answered (r : ρ) (a : ω)

/-- What an event does to the calls that a thread is inside, the innermost first. -/
inductive Advances (t : ThreadId) : List (Stage ρ ω) → Event ρ ω → List (Stage ρ ω) → Prop
  | called (st : List (Stage ρ ω)) (r : ρ) : Advances t st (.called t r) (.asked r :: st)
  | served (st : List (Stage ρ ω)) (r : ρ) (a : ω) :
      Advances t (.asked r :: st) (.served t r a) (.answered r a :: st)
  | returned (st : List (Stage ρ ω)) (r : ρ) (a : ω) : Advances t (.answered r a :: st) (.returned t a) st
  | other {e : Event ρ ω} (st : List (Stage ρ ω)) : e.thread ≠ t → Advances t st e st

/-- The calls of the thread are served once each, after they are made and before their answers are taken,
and the answers taken are those served. -/
def Course (t : ThreadId) : List (Stage ρ ω) → List (Event ρ ω) → List (Stage ρ ω) → Prop := Trace (Advances t)

section
variable {serves : σ → ρ → ω → σ → Prop} {es es' : List (Event ρ ω)} {s s' : σ}

theorem serial_append :
    Serial serves s (es ++ es') s' ↔ ∃ s₁, Serial serves s es s₁ ∧ Serial serves s₁ es' s' := trace_append

theorem course_append {t : ThreadId} {st st' : List (Stage ρ ω)} :
    Course t st (es ++ es') st' ↔ ∃ st₁, Course t st es st₁ ∧ Course t st₁ es' st' := trace_append

theorem Serial.served {t : ThreadId} {r : ρ} {a : ω} (h : Serial serves s (es ++ .served t r a :: es') s') :
    ∃ s₁ s₂, Serial serves s es s₁ ∧ serves s₁ r a s₂ := by
  obtain ⟨s₁, h₁, s₂, hserved, -⟩ := serial_append.mp h
  cases hserved with
  | served _ hv => exact ⟨s₁, s₂, h₁, hv⟩

end

/-! ## Calls under way at their stages -/

namespace Calls

variable {φ : Type} {Fits : φ → Stage ρ ω → Prop} {c : Calls φ} {t u : ThreadId} {p p' : φ} {r : ρ} {a : ω}
  {st : List (Stage ρ ω)}

def AreAt (Fits : φ → Stage ρ ω → Prop) (c : Calls φ) (t : ThreadId) (st : List (Stage ρ ω)) : Prop :=
  List.Forall₂ Fits (c.of t) st

theorem AreAt.keeps (hst : c.AreAt Fits u st) (hp : c.current? t = some p) (hfits : ∀ s, Fits p s → Fits p' s) :
    (c.move t p').AreAt Fits u st := by
  unfold AreAt at *
  by_cases h : t = u
  · subst h
    rw [of_eq_cons hp] at hst
    cases hst with
    | cons hs hst => simpa using List.Forall₂.cons (hfits _ hs) hst
  · simpa [h] using hst

theorem AreAt.starts (hst : c.AreAt Fits u st) (t : ThreadId) (hfits : Fits p (.asked r)) :
    ∃ st', Course u st [.called t r] st' ∧ (c.start t p).AreAt Fits u st' := by
  unfold AreAt at *
  by_cases h : t = u
  · subst h
    refine ⟨_, ⟨_, .called st r, rfl⟩, ?_⟩
    simpa using List.Forall₂.cons hfits hst
  · exact ⟨st, ⟨_, .other st h, rfl⟩, by simpa [h] using hst⟩

theorem AreAt.answers (hst : c.AreAt Fits u st) (hp : c.current? t = some p)
    (hasked : ∀ s, Fits p s → s = .asked r) (hfits : Fits p' (.answered r a)) :
    ∃ st', Course u st [.served t r a] st' ∧ (c.move t p').AreAt Fits u st' := by
  unfold AreAt at *
  by_cases h : t = u
  · subst h
    rw [of_eq_cons hp] at hst
    cases hst with
    | cons hs hst =>
      rw [hasked _ hs]
      refine ⟨_, ⟨_, .served _ r a, rfl⟩, ?_⟩
      simpa using List.Forall₂.cons hfits hst
  · exact ⟨st, ⟨_, .other st h, rfl⟩, by simpa [h] using hst⟩

theorem AreAt.collects (hst : c.AreAt Fits u st) (hp : c.current? t = some p)
    (hanswered : ∀ s, Fits p s → ∃ r, s = .answered r a) :
    ∃ st', Course u st [.returned t a] st' ∧ (c.finish t).AreAt Fits u st' := by
  unfold AreAt at *
  by_cases h : t = u
  · subst h
    rw [of_eq_cons hp] at hst
    cases hst with
    | cons hs hst =>
      obtain ⟨r, rfl⟩ := hanswered _ hs
      exact ⟨_, ⟨_, .returned _ r a, rfl⟩, by simpa using hst⟩
  · exact ⟨st, ⟨_, .other st h, rfl⟩, by simpa [h] using hst⟩

end Calls

end Interlock
