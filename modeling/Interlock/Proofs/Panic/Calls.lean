import Interlock.Proofs.Calls
import Interlock.Proofs.Related

/-!
# Calls that end differently

Two states of an object are alike if they are the same but for what mutexes remember of panics, and but for the answer
that one call is about to give. That call is the innermost one of its thread, and stays so until its answer is taken.
`Calls.Alike` compares the calls of the two states; what the phases of the marked call have in common is a parameter.
-/

namespace Interlock

namespace Calls

variable {φ : Type} {R : φ → φ → Prop} {mark : Option ThreadId} {c c' : Calls φ} {t u : ThreadId} {p p' q q' : φ}

/-- The calls are the same, but for the phases of the innermost call of the marked thread. -/
inductive Alike (R : φ → φ → Prop) : Option ThreadId → Calls φ → Calls φ → Prop
  | same (c : Calls φ) : Alike R none c c
  | but {c : Calls φ} {t : ThreadId} {p p' : φ} (hp : c.current? t = some p) (ends : R p p') :
      Alike R (some t) c (c.move t p')

namespace Alike

theorem current? (ha : Alike R mark c c') (hu : mark ≠ some u) : c'.current? u = c.current? u := by
  cases ha with
  | same _ => rfl
  | @but _ t p p' hp _ =>
    have hne : t ≠ u := fun he => hu (he ▸ rfl)
    rw [current?_move, if_neg hne]

theorem marked (ha : Alike R (some t) c c') :
    ∃ p p', c.current? t = some p ∧ c'.current? t = some p' ∧ R p p' := by
  cases ha with
  | but hp ends => exact ⟨_, _, hp, by rw [current?_move, if_pos rfl], ends⟩

/-- A call is the marked one, or is in the same phase in both states. -/
theorem marked_or (ha : Alike R mark c c') (u : ThreadId) :
    (mark = some u ∧ ∃ p p', c.current? u = some p ∧ c'.current? u = some p' ∧ R p p') ∨
      mark ≠ some u ∧ c'.current? u = c.current? u := by
  by_cases hu : mark = some u
  · subst hu
    exact .inl ⟨rfl, ha.marked⟩
  · exact .inr ⟨hu, ha.current? hu⟩

theorem move (ha : Alike R mark c c') (hu : mark ≠ some u) (q : φ) : Alike R mark (c.move u q) (c'.move u q) := by
  cases ha with
  | same _ => exact .same _
  | @but _ t p p' hp ends =>
    have hne : t ≠ u := fun he => hu (he ▸ rfl)
    have hcomm : (c.move t p').move u q = (c.move u q).move t p' := congrArg Calls.mk (Entries.put_comm hne hp)
    rw [hcomm]
    exact .but (by rw [current?_move, if_neg (Ne.symm hne), hp]) ends

theorem start (ha : Alike R mark c c') (hu : mark ≠ some u) (q : φ) : Alike R mark (c.start u q) (c'.start u q) := by
  cases ha with
  | same _ => exact .same _
  | @but _ t p p' hp ends =>
    have hne : u ≠ t := fun he => hu (he ▸ rfl)
    have hcomm : (c.move t p').start u q = (c.start u q).move t p' := by
      simp [Calls.start, Calls.move, Entries.put, hne]
    rw [hcomm]
    exact .but (by rw [current?_start, if_neg hne, hp]) ends

theorem finish (ha : Alike R mark c c') (hu : mark ≠ some u) : Alike R mark (c.finish u) (c'.finish u) := by
  cases ha with
  | same _ => exact .same _
  | @but _ t p p' hp ends =>
    have hne : t ≠ u := fun he => hu (he ▸ rfl)
    rw [finish_move hne]
    exact .but (by rw [current?_finish, if_neg (Ne.symm hne), hp]) ends

/-- The marked call goes on in both states. -/
theorem advance (ha : Alike R (some t) c c') (ends : R q q') : Alike R (some t) (c.move t q) (c'.move t q') := by
  cases ha with
  | @but _ _ p p' hp _ =>
    rw [move_move, ← move_move c t q q']
    exact .but (by rw [current?_move, if_pos rfl]) ends

/-- What the phases of the marked call have in common shows in all calls. -/
theorem map_of {β : Type} {f : φ → β} (ha : Alike R mark c c') (hf : ∀ p p', R p p' → f p' = f p) (u : ThreadId) :
    (c'.of u).map f = (c.of u).map f := by
  cases ha with
  | same _ => rfl
  | @but _ t p p' hp ends =>
    rw [of_move]
    split
    · rename_i hu
      subst hu
      rw [of_eq_cons hp, List.map_cons, List.map_cons, hf p p' ends, List.tail_cons]
    · rfl

theorem any_pending {f : ThreadId × φ → Bool} (ha : Alike R mark c c') (hf : ∀ u p p', R p p' → f (u, p') = f (u, p)) :
    c'.pending.any f = c.pending.any f := by
  have any_of (d : Calls φ) : d.pending.any f = true ↔ ∃ u, true ∈ (d.of u).map fun p => f (u, p) := by
    simp only [List.any_eq_true, List.mem_map, mem_of, Prod.exists]
  simp only [Bool.eq_iff_iff, any_of, ha.map_of (hf _)]

/-- With the marked call all difference is gone. -/
theorem closed (ha : Alike R (some t) c c') : Alike R none (c.finish t) (c'.finish t) := by
  cases ha with
  | @but _ _ p p' hp _ =>
    rw [finish_move_self]
    exact .same _

/-- A call goes on differently in the two states. -/
theorem part (ha : Alike R none c c') (ends : R q q') : Alike R (some t) (c.move t q) (c'.move t q') := by
  cases ha with
  | same _ =>
    rw [← move_move c t q q']
    exact .but (by rw [current?_move, if_pos rfl]) ends

/-- A call is made differently in the two states. -/
theorem opened (ha : Alike R none c c') (ends : R q q') : Alike R (some t) (c.start t q) (c'.start t q') := by
  cases ha with
  | same _ =>
    rw [← move_start c t q q']
    exact .but (by rw [current?_start, if_pos rfl]) ends

end Alike

end Calls

end Interlock
